import Ziplog.Api.Message
import Ziplog.Library.PrefixCode

/-!
# Decoding any string as a batch

Commands shorter than `2 ^ 32` bytes behind their lengths form a prefix code. `deserialize` splits
every string over this code: it returns the commands at its front up to the first place where no
whole command follows (`deserialize_exact`). `deserializeLoop` is its loop with the accumulator of
the source and every access to the string checked.
-/

namespace Ziplog

open ByteImage Cells PrefixCode

namespace CommandBatch

/-- The loop of `deserialize` at `offset`; `none` when there is not enough fuel. -/
def deserializeLoop (data : List UInt8) :
    ℕ → ℕ → List Command → Option (Except MemFault (List Command))
  | 0, _, _ => none
  | fuel + 1, offset, commands =>
    if offset < data.length then
      if data.length < offset + 4 then some (.ok commands)
      else
        match fetch data offset 4 with
        | .error fault => some (.error fault)
        | .ok netLen =>
          let len := (ntohl (load32 netLen)).toNat
          let offset := offset + 4
          if data.length < offset + len then some (.ok commands)
          else
            match fetch data offset len with
            | .error fault => some (.error fault)
            | .ok cmd => deserializeLoop data fuel (offset + len) (commands ++ [cmd])
    else some (.ok commands)

/-- The command has a length prefix of its own. -/
def Short (cmd : Command) : Prop := cmd.length < 2 ^ 32

/-- The length that the first four bytes announce. -/
def announcedLen (data : List UInt8) : ℕ := (ntohl (load32 (slice data 0 4))).toNat

/-! ## The code -/

theorem announcedLen_lt (data : List UInt8) : announcedLen data < 2 ^ 32 := UInt32.toNat_lt _

theorem announcedLen_encodeCommand {cmd : Command} (h : Short cmd) (rest : List UInt8) :
    announcedLen (encodeCommand cmd ++ rest) = cmd.length := by
  unfold announcedLen encodeCommand
  rw [List.append_assoc, slice, List.drop_zero, List.take_left' (length_store32 _),
    ntohl_load32_htonl, UInt32.toNat_ofNat', Nat.mod_eq_of_lt h]

/-- The length prefix of a command tells where the command ends. -/
theorem isPrefixCode : IsPrefixCode encodeCommand Short := by
  intro a b r s ha hb heq
  have hlen : a.length = b.length := by
    rw [← announcedLen_encodeCommand ha r, heq, announcedLen_encodeCommand hb s]
  have hwords : (encodeCommand a).length = (encodeCommand b).length := by
    rw [length_encodeCommand, length_encodeCommand, hlen]
  obtain ⟨hcmd, hrest⟩ := List.append_inj heq hwords
  refine ⟨List.append_inj_right hcmd ?_, hrest⟩
  rw [length_store32, length_store32]

/-- A whole command stands at the front of a string when the announced length fits. -/
theorem startsWithWord_iff (data : List UInt8) :
    StartsWithWord encodeCommand Short data ↔
      4 ≤ data.length ∧ 4 + announcedLen data ≤ data.length := by
  constructor
  · rintro ⟨cmd, rest, hcmd, rfl⟩
    rw [announcedLen_encodeCommand hcmd, List.length_append, length_encodeCommand]
    omega
  · rintro ⟨hfour, hfits⟩
    have hprefix : (slice data 0 4).length = 4 := length_slice (by omega)
    have hcmd : (slice data 4 (announcedLen data)).length = announcedLen data := length_slice hfits
    refine ⟨slice data 4 (announcedLen data), data.drop (4 + announcedLen data), ?_, ?_⟩
    · rw [Short, hcmd]
      exact announcedLen_lt data
    · have hword : store32 (htonl (UInt32.ofNat (announcedLen data))) = slice data 0 4 := by
        rw [announcedLen, UInt32.ofNat_toNat]
        exact store32_htonl_ntohl hprefix
      rw [encodeCommand, hcmd, hword, ← Nat.zero_add 4, ← slice_add, slice, List.drop_zero,
        List.take_append_drop]

/-! ## The decoder -/

theorem deserialize_of_not_startsWithWord {data : List UInt8}
    (h : ¬StartsWithWord encodeCommand Short data) : deserialize data = [] := by
  rw [startsWithWord_iff] at h
  unfold announcedLen at h
  unfold deserialize
  rcases hlen : data.length with _ | n
  · rfl
  · unfold deserializeFrom
    rw [hlen] at h ⊢
    simp only [Nat.zero_add]
    split_ifs with hin hfour hfits
    · rfl
    · rfl
    · exact absurd ⟨Nat.not_lt.mp hfour, Nat.not_lt.mp hfits⟩ h
    · rfl

/-- What `deserialize` returns splits off the string. -/
theorem splits_deserialize (data : List UInt8) :
    ∃ rest, Splits encodeCommand Short data (deserialize data) rest := by
  induction hlen : data.length using Nat.strong_induction_on generalizing data with
  | _ n ih =>
    by_cases hstart : StartsWithWord encodeCommand Short data
    · obtain ⟨cmd, tail, hcmd, rfl⟩ := hstart
      have hshorter : tail.length < n := by
        rw [← hlen, List.length_append, length_encodeCommand]
        omega
      obtain ⟨rest, htail⟩ := ih tail.length hshorter tail rfl
      rw [deserialize_encodeCommand hcmd]
      exact ⟨rest, htail.cons hcmd⟩
    · rw [deserialize_of_not_startsWithWord hstart]
      exact ⟨data, .nil hstart⟩

/-- The checked loop ends, and reads only inside the string. -/
theorem deserializeLoop_eq {data : List UInt8} {fuel offset : ℕ} (hin : offset ≤ data.length)
    (hfuel : data.length < offset + fuel) (commands : List Command) :
    deserializeLoop data fuel offset commands =
      some (.ok (commands ++ deserializeFrom data fuel offset)) := by
  induction fuel generalizing offset commands with
  | zero => omega
  | succ fuel ih =>
    unfold deserializeLoop deserializeFrom
    by_cases hmore : offset < data.length
    · rw [if_pos hmore, if_pos hmore]
      by_cases hfour : data.length < offset + 4
      · rw [if_pos hfour, if_pos hfour, List.append_nil]
      · have hread : fetch data offset 4 = .ok (slice data offset 4) := by
          unfold fetch
          rw [read?_eq_some (by omega)]
        rw [if_neg hfour, if_neg hfour, hread]
        simp only
        generalize (ntohl (load32 (slice data offset 4))).toNat = len
        by_cases hfits : data.length < offset + 4 + len
        · rw [if_pos hfits, if_pos hfits, List.append_nil]
        · have hcmd : fetch data (offset + 4) len = .ok (slice data (offset + 4) len) := by
            unfold fetch
            rw [read?_eq_some (by omega)]
          rw [if_neg hfits, if_neg hfits, hcmd]
          simp only
          rw [ih (by omega) (by omega), List.append_assoc, List.singleton_append]
    · rw [if_neg hmore, if_neg hmore, List.append_nil]

/-- A batch goes in front of any string. -/
theorem deserialize_encode_append {cmds : List Command} (h : ∀ cmd ∈ cmds, Short cmd)
    (data : List UInt8) : deserialize (encode cmds ++ data) = cmds ++ deserialize data := by
  obtain ⟨rest, hrest⟩ := splits_deserialize data
  obtain ⟨rest', hrest'⟩ := splits_deserialize (encode cmds ++ data)
  have happend := hrest.append h
  rw [← encode_eq] at happend
  exact (hrest'.unique isPrefixCode happend).1

/-- The string is the encoding of `cmds` followed by a rest that does not begin with a complete
command behind its length. Only commands shorter than `2 ^ 32` have a length prefix that says their
length. -/
def IsDecoding (data : List UInt8) (cmds : List Command) : Prop :=
  (∀ cmd ∈ cmds, cmd.length < 2 ^ 32) ∧ ∃ rest, data = encode cmds ++ rest ∧
    ¬∃ cmd rest', cmd.length < 2 ^ 32 ∧ rest = encodeCommand cmd ++ rest'

theorem isDecoding_iff_splits {data : List UInt8} {cmds : List Command} :
    IsDecoding data cmds ↔ ∃ rest, Splits encodeCommand Short data cmds rest := by
  constructor
  · rintro ⟨hshort, rest, hdata, hstuck⟩
    rw [encode_eq] at hdata
    exact ⟨rest, hshort, hdata, hstuck⟩
  · rintro ⟨rest, hshort, hdata, hstuck⟩
    rw [← encode_eq] at hdata
    exact ⟨hshort, rest, hdata, hstuck⟩

/-- **Decoding is exact.** A serialized batch is read back, and every string is decoded to the only
list of commands it can be read as, by a loop that ends and stays inside the string. -/
theorem deserialize_exact :
    (∀ cmds : List Command, (∀ cmd ∈ cmds, cmd.length < 2 ^ 32) →
      deserialize (encode cmds) = cmds) ∧
    (∀ data : List UInt8,
      (∀ fuel, data.length < fuel →
        deserializeLoop data fuel 0 [] = some (.ok (deserialize data))) ∧
      IsDecoding data (deserialize data) ∧
      ∀ cmds, IsDecoding data cmds → cmds = deserialize data) ∧
    ∀ as bs : List Command, (∀ cmd ∈ as ++ bs, cmd.length < 2 ^ 32) →
      deserialize (encode as ++ encode bs) = as ++ bs := by
  refine ⟨fun cmds h => deserialize_encode h, fun data => ⟨fun fuel hfuel => ?_, ?_, ?_⟩, ?_⟩
  · rw [deserializeLoop_eq (Nat.zero_le _) (by omega), List.nil_append,
      deserializeFrom_fuel hfuel.le]
  · exact isDecoding_iff_splits.mpr (splits_deserialize data)
  · intro cmds hcmds
    obtain ⟨rest, hrest⟩ := isDecoding_iff_splits.mp hcmds
    obtain ⟨rest', hrest'⟩ := splits_deserialize data
    exact (hrest.unique isPrefixCode hrest').1
  · intro as bs h
    rw [deserialize_encode_append fun cmd hcmd => h cmd (List.mem_append_left bs hcmd),
      deserialize_encode fun cmd hcmd => h cmd (List.mem_append_right as hcmd)]

/-- A length that claims more than there is ends the decoding. -/
example : deserialize [0, 0, 0, 1, 65, 0, 0, 0, 0, 0, 0, 0, 2, 66] = [[65], []] := by decide

end CommandBatch

end Ziplog
