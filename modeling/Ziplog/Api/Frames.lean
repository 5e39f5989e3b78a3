import Ziplog.Api.MessageCodec

/-!
# Frames

A frame is a 16-bit length and as many bytes that decode as a message. Servers keep the frames of
the proxies as they came, and put their own id over the sender's before they pass one on
(`parseFrame_patchSender`).
-/

namespace Ziplog

open ByteImage Cells

/-- The message of a string that is one frame. -/
def parseFrame (wire : List UInt8) : Option Message :=
  if wire = be 2 (wire.length - 2) ++ wire.drop 2 ∧ wire.length ≤ 2 + maxMessageSize then
    match Message.deserializeVector (wire.drop 2) with
    | .ok m => m
    | .error _ => none
  else none

/-- The `memcpy` of a server id over the sender of a frame. -/
def patchSender (serverId : UInt32) (wire : List UInt8) : List UInt8 :=
  overlay wire 10 (store32 (htonl serverId))

theorem parseFrame_eq_some {wire : List UInt8} {m : Message} : parseFrame wire = some m ↔
    ∃ body : List UInt8, wire = be 2 body.length ++ body ∧ body.length ≤ maxMessageSize ∧
      Message.deserializeVector body = .ok (some m) := by
  unfold parseFrame
  constructor
  · intro h
    split_ifs at h with hframe
    obtain ⟨hwire, hsize⟩ := hframe
    refine ⟨wire.drop 2, ?_, ?_, ?_⟩
    · rw [List.length_drop]
      exact hwire
    · rw [List.length_drop]
      omega
    · cases hdecode : Message.deserializeVector (wire.drop 2) with
      | error fault =>
        rw [hdecode] at h
        cases h
      | ok m' =>
        rw [hdecode] at h
        exact congrArg Except.ok h
  · rintro ⟨body, rfl, hsize, hdecode⟩
    have hlen : (be 2 body.length ++ body).length = 2 + body.length := by
      rw [List.length_append, length_be]
    have hdrop : (be 2 body.length ++ body).drop 2 = body := List.drop_left' (length_be _ _)
    rw [hlen, hdrop, hdecode, Nat.add_sub_cancel_left, if_pos ⟨rfl, by omega⟩]

/-! ## Another sender -/

namespace Message

/-- The values only depend on the memory they are read from. -/
theorem readValues_congr {mem mem' : List UInt8} {count off : ℕ}
    (h : ∀ o, off ≤ o → fetch mem' o 8 = fetch mem o 8) :
    readValues mem' count off = readValues mem count off := by
  induction count generalizing off with
  | zero => rfl
  | succ count ih =>
    rw [readValues, readValues, h off (Nat.le_refl off), @ih (off + 8) fun o ho => h o (by omega)]

/-- A body that is decoded passes the checks of the decoder. -/
theorem le_length_of_deserialize {body : List UInt8} {m : Message}
    (h : deserializeVector body = .ok (some m)) :
    28 + dataLenField body + 8 * orderingLenField body % 2 ^ 32 ≤ body.length := by
  by_contra hreject
  unfold deserializeVector at h
  rw [deserialize_eq, if_pos (Nat.lt_of_not_le hreject)] at h
  cases h

/-- Of the fields of a message only the sender lies where a server id is put. -/
theorem deserialize_overlay_sender {body : List UInt8} {m : Message} (serverId : UInt32)
    (h : deserializeVector body = .ok (some m)) :
    deserializeVector (overlay body 8 (store32 (htonl serverId))) =
      .ok (some { m with senderId := serverId }) := by
  have haccept := le_length_of_deserialize h
  have hword : (store32 (htonl serverId)).length = 4 := length_store32 _
  have hin : 8 + (store32 (htonl serverId)).length ≤ body.length := by omega
  have hlen : (overlay body 8 (store32 (htonl serverId))).length = body.length :=
    length_overlay hin
  have hbefore : ∀ o len, o + len ≤ 8 →
      slice (overlay body 8 (store32 (htonl serverId))) o len = slice body o len :=
    fun o len ho => slice_overlay_of_le ho (by omega)
  have hafter : ∀ o len, 12 ≤ o →
      slice (overlay body 8 (store32 (htonl serverId))) o len = slice body o len :=
    fun o len ho => slice_overlay_of_ge (by omega) hin
  have hself :
      slice (overlay body 8 (store32 (htonl serverId))) 8 4 = store32 (htonl serverId) := by
    have hslice := slice_overlay_self hin
    rwa [hword] at hslice
  have hdata : dataLenField (overlay body 8 (store32 (htonl serverId))) = dataLenField body := by
    rw [dataLenField, dataLenField, hafter 20 4 (by omega)]
  have hordering : orderingLenField (overlay body 8 (store32 (htonl serverId))) =
      orderingLenField body := by
    rw [orderingLenField, orderingLenField, hdata, hafter _ 4 (by omega)]
  have hvalues : readValues (overlay body 8 (store32 (htonl serverId))) (orderingLenField body)
      (28 + dataLenField body) = readValues body (orderingLenField body)
        (28 + dataLenField body) := by
    refine readValues_congr fun o ho => ?_
    unfold fetch
    unfold read?
    rw [hlen, hafter o 8 (by omega)]
  have hdecoded : ∀ values, decoded (overlay body 8 (store32 (htonl serverId))) values =
      { decoded body values with senderId := serverId } := by
    intro values
    unfold decoded
    rw [hdata, hbefore 0 4 (by omega), hbefore 4 4 (by omega), hself, hafter 12 8 (by omega),
      hafter 24 _ (by omega), ntohl_load32_htonl]
  unfold deserializeVector at h ⊢
  rw [deserialize_eq, if_neg (Nat.not_lt.mpr haccept)] at h
  rw [deserialize_eq, hlen, hdata, hordering, hvalues, if_neg (Nat.not_lt.mpr haccept)]
  cases hread : readValues body (orderingLenField body) (28 + dataLenField body) with
  | error fault =>
    rw [hread] at h
    cases h
  | ok values =>
    rw [hread] at h
    cases h
    exact congrArg (fun m => Except.ok (some m)) (hdecoded values)

end Message

/-- The type of a message is small, so an encoding starts with two zeros. -/
theorem Message.take_encoding {m : Message} (htype : m.type.toNat < 2 ^ 16) :
    m.encoding.take 2 = be 2 0 := by
  have hhigh : m.type.toNat / 256 ^ 2 = 0 := Nat.div_eq_of_lt htype
  have htypeBytes : store32 (htonl m.type) = be 2 0 ++ be 2 m.type.toNat := by
    rw [store32_htonl, be_add 2 2, hhigh]
  unfold Message.encoding
  unfold Message.headerBytes
  rw [htypeBytes]
  simp only [List.append_assoc]
  exact List.take_left' (length_be _ _)

/-- **A frame with another sender** differs in the sender only. -/
theorem parseFrame_patchSender {wire : List UInt8} {m : Message} (serverId : UInt32)
    (h : parseFrame wire = some m) :
    parseFrame (patchSender serverId wire) = some { m with senderId := serverId } := by
  obtain ⟨body, rfl, hsize, hdecode⟩ := parseFrame_eq_some.mp h
  have hpatched := Message.deserialize_overlay_sender serverId hdecode
  have hlen : (overlay body 8 (store32 (htonl serverId))).length = body.length := by
    have haccept := Message.le_length_of_deserialize hdecode
    apply length_overlay
    rw [length_store32]
    omega
  refine parseFrame_eq_some.mpr ⟨overlay body 8 (store32 (htonl serverId)), ?_, ?_, hpatched⟩
  · rw [hlen]
    have happend := overlay_append (be 2 body.length) body 8 (store32 (htonl serverId))
    rwa [length_be] at happend
  · rw [hlen]
    exact hsize

end Ziplog
