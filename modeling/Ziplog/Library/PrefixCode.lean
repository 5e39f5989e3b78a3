import Mathlib.Data.List.Basic

/-!
# Words over a prefix code

`encode` gives each letter a code word. `IsPrefixCode encode ok` says that a code word can be read
off the front of a string in one way only, for the letters that satisfy `ok`. Then every string is
in at most one way the code of a list of letters followed by a rest that starts with no code word
(`Splits.unique`).
-/

namespace PrefixCode

variable {α β : Type*} {encode : α → List β} {ok : α → Prop}

/-- The code word at the front of a string and what follows it are determined by the string. -/
def IsPrefixCode (encode : α → List β) (ok : α → Prop) : Prop :=
  ∀ a b (r s : List β), ok a → ok b → encode a ++ r = encode b ++ s → a = b ∧ r = s

/-- A string that starts with a whole code word. -/
def StartsWithWord (encode : α → List β) (ok : α → Prop) (data : List β) : Prop :=
  ∃ a rest, ok a ∧ data = encode a ++ rest

/-- A string is the code of `letters`, then a rest that does not start with a code word. -/
structure Splits (encode : α → List β) (ok : α → Prop) (data : List β) (letters : List α)
    (rest : List β) : Prop where
  valid : ∀ a ∈ letters, ok a
  eq : data = letters.flatMap encode ++ rest
  stuck : ¬StartsWithWord encode ok rest

theorem Splits.nil {data : List β} (h : ¬StartsWithWord encode ok data) :
    Splits encode ok data [] data where
  valid := fun _ ha => absurd ha List.not_mem_nil
  eq := rfl
  stuck := h

theorem Splits.cons {data : List β} {a : α} {letters : List α} {rest : List β} (ha : ok a)
    (h : Splits encode ok data letters rest) :
    Splits encode ok (encode a ++ data) (a :: letters) rest where
  valid := List.forall_mem_cons.mpr ⟨ha, h.valid⟩
  eq := by rw [List.flatMap_cons, List.append_assoc, ← h.eq]
  stuck := h.stuck

/-- The first letter of a split word comes off its front. -/
theorem Splits.tail {data : List β} {a : α} {letters : List α} {rest : List β}
    (h : Splits encode ok data (a :: letters) rest) :
    ok a ∧ ∃ data', data = encode a ++ data' ∧ Splits encode ok data' letters rest := by
  obtain ⟨ha, hletters⟩ := List.forall_mem_cons.mp h.valid
  refine ⟨ha, letters.flatMap encode ++ rest, ?_, hletters, rfl, h.stuck⟩
  rw [h.eq, List.flatMap_cons, List.append_assoc]

/-- **A string splits in one way only.** -/
theorem Splits.unique (hcode : IsPrefixCode encode ok) {data : List β} {as bs : List α}
    {r s : List β} (h : Splits encode ok data as r) (h' : Splits encode ok data bs s) :
    as = bs ∧ r = s := by
  induction as generalizing data bs with
  | nil =>
    have hdata : data = r := h.eq
    rcases bs with _ | ⟨b, bs⟩
    · exact ⟨rfl, hdata.symm.trans h'.eq⟩
    · obtain ⟨hb, data', hsplit, -⟩ := h'.tail
      exact absurd ⟨b, data', hb, hdata.symm.trans hsplit⟩ h.stuck
  | cons a as ih =>
    obtain ⟨ha, data', hfront, htail⟩ := h.tail
    rcases bs with _ | ⟨b, bs⟩
    · have hdata : data = s := h'.eq
      exact absurd ⟨a, data', ha, hdata.symm.trans hfront⟩ h'.stuck
    · obtain ⟨hb, data'', hfront', htail'⟩ := h'.tail
      obtain ⟨rfl, rfl⟩ := hcode a b data' data'' ha hb (hfront.symm.trans hfront')
      obtain ⟨rfl, rfl⟩ := ih htail htail'
      exact ⟨rfl, rfl⟩

/-- A list of letters goes in front of a string that splits. -/
theorem Splits.append {data : List β} {as bs : List α} {rest : List β} (has : ∀ a ∈ as, ok a)
    (h : Splits encode ok data bs rest) :
    Splits encode ok (as.flatMap encode ++ data) (as ++ bs) rest := by
  induction as with
  | nil => exact h
  | cons a as ih =>
    obtain ⟨ha, has⟩ := List.forall_mem_cons.mp has
    rw [List.flatMap_cons, List.append_assoc, List.cons_append]
    exact (ih has).cons ha

end PrefixCode
