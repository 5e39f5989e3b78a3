import Ziplog.Api.Common
import Ziplog.Library.Cells

/-!
# Commands, batches, addresses and identifiers

A `CommandBatch` is its buffer: each command behind its 32-bit length. `deserialize` is the offset
loop of the source, with as much fuel as there are bytes. It inverts `addCommand` for commands
shorter than `2 ^ 32` bytes (`deserialize_encode`).

`NodeId`, `SequenceNumber` and `Timestamp` are natural numbers in this development; only the codec
of `Message` carries them in words of their own width.
-/

namespace Ziplog

open ByteImage Cells

abbrev Command := List UInt8

def isDigit (c : UInt8) : Bool := 48 ≤ c && c ≤ 57

/-- `MessageTypes`, in the order of the source. -/
inductive MessageTypes
  | append | skip | success | failure | ack | zipRequest | zipResponse | report | freeze
  | freezeResponse | transferRequest | freezeComplete | registerProxy | rejoinProxy | includeProxy
  | registerSubscriber | includeSubscriber
  deriving DecidableEq, Repr

/-- The underlying value of a message type. -/
def MessageTypes.value : MessageTypes → UInt32
  | append => 0
  | skip => 1
  | success => 2
  | failure => 3
  | ack => 4
  | zipRequest => 5
  | zipResponse => 6
  | report => 7
  | freeze => 8
  | freezeResponse => 9
  | transferRequest => 10
  | freezeComplete => 11
  | registerProxy => 12
  | rejoinProxy => 13
  | includeProxy => 14
  | registerSubscriber => 15
  | includeSubscriber => 16

structure Address where
  ip : String
  port : ℤ
  deriving DecidableEq, Repr

/-- What a proxy puts in the frame of a slot: a batch, or nothing. -/
inductive Payload
  | append (batch : List UInt8)
  | skip
  deriving DecidableEq, Repr

namespace Payload

def type : Payload → MessageTypes
  | append _ => .append
  | skip => .skip

def data : Payload → List UInt8
  | append batch => batch
  | skip => []

end Payload

namespace CommandBatch

/-- A command behind its length in network order. -/
def encodeCommand (cmd : Command) : List UInt8 :=
  store32 (htonl (UInt32.ofNat cmd.length)) ++ cmd

def addCommand (buffer : List UInt8) (cmd : Command) : List UInt8 := buffer ++ encodeCommand cmd

/-- The buffer of a batch to which `cmds` were added in order. -/
def encode (cmds : List Command) : List UInt8 := cmds.foldl addCommand []

/-- The loop of `deserialize` at `offset`. -/
def deserializeFrom (data : List UInt8) : ℕ → ℕ → List Command
  | 0, _ => []
  | fuel + 1, offset =>
    if offset < data.length then
      if data.length < offset + 4 then []
      else
        let len := (ntohl (load32 (slice data offset 4))).toNat
        let offset := offset + 4
        if data.length < offset + len then []
        else slice data offset len :: deserializeFrom data fuel (offset + len)
    else []

def deserialize (data : List UInt8) : List Command := deserializeFrom data data.length 0

/-! ## Encoding -/

theorem length_encodeCommand (cmd : Command) : (encodeCommand cmd).length = 4 + cmd.length := by
  rw [encodeCommand, List.length_append, length_store32]

theorem foldl_addCommand (buffer : List UInt8) (cmds : List Command) :
    cmds.foldl addCommand buffer = buffer ++ cmds.flatMap encodeCommand := by
  induction cmds generalizing buffer with
  | nil => simp
  | cons cmd cmds ih =>
    rw [List.foldl_cons, ih, addCommand, List.flatMap_cons, List.append_assoc]

theorem encode_eq (cmds : List Command) : encode cmds = cmds.flatMap encodeCommand := by
  rw [encode, foldl_addCommand, List.nil_append]

@[simp] theorem encode_nil : encode [] = [] := rfl

theorem encode_cons (cmd : Command) (cmds : List Command) :
    encode (cmd :: cmds) = encodeCommand cmd ++ encode cmds := by
  rw [encode_eq, encode_eq, List.flatMap_cons]

theorem encode_append (as bs : List Command) : encode (as ++ bs) = encode as ++ encode bs := by
  rw [encode_eq, encode_eq, encode_eq, List.flatMap_append]

/-! ## Decoding -/

/-- The loop reads nothing in front of its offset. -/
theorem deserializeFrom_drop (data : List UInt8) (fuel offset : ℕ) :
    deserializeFrom data fuel offset = deserializeFrom (data.drop offset) fuel 0 := by
  induction fuel generalizing data offset with
  | zero => rfl
  | succ fuel ih =>
    have hlen : (data.drop offset).length = data.length - offset := List.length_drop
    have hslice (o n : ℕ) : slice (data.drop offset) (0 + o) n = slice data (offset + o) n := by
      rw [slice, slice, List.drop_drop, Nat.zero_add]
    have hhead : slice (data.drop offset) 0 4 = slice data offset 4 := hslice 0 4
    unfold deserializeFrom
    simp only [hlen, hhead, hslice 4]
    generalize (ntohl (load32 (slice data offset 4))).toNat = len
    by_cases h : offset < data.length
    · have h' : 0 < data.length - offset := by omega
      rw [if_pos h, if_pos h']
      by_cases h4 : data.length < offset + 4
      · have h4' : data.length - offset < 0 + 4 := by omega
        rw [if_pos h4, if_pos h4']
      · have h4' : ¬ data.length - offset < 0 + 4 := by omega
        rw [if_neg h4, if_neg h4']
        by_cases hl : data.length < offset + 4 + len
        · have hl' : data.length - offset < 0 + 4 + len := by omega
          rw [if_pos hl, if_pos hl']
        · have hl' : ¬ data.length - offset < 0 + 4 + len := by omega
          have hoff : offset + (0 + 4 + len) = offset + 4 + len := by omega
          rw [if_neg hl, if_neg hl', ih data, ih (data.drop offset), List.drop_drop, hoff]
    · have h' : ¬ 0 < data.length - offset := by omega
      rw [if_neg h, if_neg h']

/-- More fuel than bytes changes nothing. -/
theorem deserializeFrom_fuel {data : List UInt8} {fuel : ℕ} (h : data.length ≤ fuel) :
    deserializeFrom data fuel 0 = deserialize data := by
  induction fuel using Nat.strong_induction_on generalizing data with
  | _ fuel ih =>
    unfold deserialize
    rcases hd : data.length with _ | n
    · cases fuel with
      | zero => rfl
      | succ fuel =>
        unfold deserializeFrom
        rw [if_neg (by omega)]
    · obtain ⟨fuel, rfl⟩ : ∃ m, fuel = m + 1 := ⟨fuel - 1, by omega⟩
      unfold deserializeFrom
      simp only [Nat.zero_add]
      generalize (ntohl (load32 (slice data 0 4))).toNat = len
      have htail : ¬ data.length < 4 + len →
          deserializeFrom data fuel (4 + len) = deserializeFrom data n (4 + len) := by
        intro hl
        have hrest : (data.drop (4 + len)).length = data.length - (4 + len) := List.length_drop
        rw [deserializeFrom_drop data fuel, deserializeFrom_drop data n,
          ih fuel (by omega) (by omega), ih n (by omega) (by omega)]
      split_ifs with h0 h4 hl
      · rfl
      · rfl
      · rw [htail hl]
      · rfl

theorem deserialize_nil : deserialize [] = [] := rfl

/-- A batch whose first command is `cmd`. -/
theorem deserialize_encodeCommand {cmd : Command} (h : cmd.length < 2 ^ 32) (rest : List UInt8) :
    deserialize (encodeCommand cmd ++ rest) = cmd :: deserialize rest := by
  have hword : (UInt32.ofNat cmd.length).toNat = cmd.length := by
    rw [UInt32.toNat_ofNat', Nat.mod_eq_of_lt h]
  have hread : (ntohl (load32 (slice (encodeCommand cmd ++ rest) 0 4))).toNat = cmd.length := by
    rw [encodeCommand, List.append_assoc, slice, List.drop_zero,
      List.take_left' (length_store32 _), store32_htonl, ntohl_load32_be, hword]
  have hcmd : slice (encodeCommand cmd ++ rest) 4 cmd.length = cmd := by
    rw [encodeCommand, List.append_assoc]
    exact slice_middle rest (length_store32 _) rfl
  have hlen := length_encodeCommand cmd
  have hdrop : (encodeCommand cmd ++ rest).drop (4 + cmd.length) = rest := by
    rw [← hlen, List.drop_left]
  obtain ⟨fuel, hfuel⟩ : ∃ m, (encodeCommand cmd ++ rest).length = m + 1 :=
    ⟨3 + cmd.length + rest.length, by rw [List.length_append]; omega⟩
  rw [deserialize, hfuel, deserializeFrom]
  simp only [Nat.zero_add, hread, hcmd]
  rw [List.length_append] at hfuel ⊢
  rw [if_pos (by omega), if_neg (by omega), if_neg (by omega), deserializeFrom_drop, hdrop,
    deserializeFrom_fuel (by omega)]

/-- **Round trip of batches.** -/
theorem deserialize_encode {cmds : List Command} (h : ∀ cmd ∈ cmds, cmd.length < 2 ^ 32) :
    deserialize (encode cmds) = cmds := by
  induction cmds with
  | nil => rfl
  | cons cmd cmds ih =>
    rw [List.forall_mem_cons] at h
    rw [encode_cons, deserialize_encodeCommand h.1, ih h.2]

end CommandBatch

end Ziplog
