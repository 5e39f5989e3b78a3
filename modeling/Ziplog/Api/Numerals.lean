import Mathlib.Data.List.TakeWhile
import Ziplog.Api.Types

/-!
# Numbers in text

`stoi` reads the number at the front of a text: it skips white space, takes a sign and as many
digits as there are, and leaves the rest alone. `stoi_eq_some_iff` says which texts it reads
a positive number from.
-/

namespace Ziplog

/-- `std::isspace`. -/
def isSpace (c : UInt8) : Bool := c = 32 || (9 ≤ c && c ≤ 13)

/-- The sign of a number, and what follows it. -/
def splitSign : List UInt8 → Bool × List UInt8
  | [] => (false, [])
  | c :: text =>
    if c = 45 then (true, text) else if c = 43 then (false, text) else (false, c :: text)

/-- `std::stoi`; `none` stands for an exception. What follows the digits is left alone. -/
def stoi (text : List UInt8) : Option ℤ :=
  let (negative, text) := splitSign (text.dropWhile isSpace)
  let digits := text.takeWhile isDigit
  if digits = [] then none
  else
    let magnitude : ℤ := digits.foldl (fun n c => 10 * n + (c.toNat - 48)) 0
    let value := if negative then -magnitude else magnitude
    if -2 ^ 31 ≤ value ∧ value < 2 ^ 31 then some value else none

/-- The number that a string of digits stands for. -/
def decimalValue (digits : List UInt8) : ℤ := digits.foldl (fun n c => 10 * n + (c.toNat - 48)) 0

/-- A text is white space, perhaps a plus sign, digits, and a rest that does not continue them. -/
structure IsNumeral (text spaces sign digits rest : List UInt8) : Prop where
  eq : text = spaces ++ (sign ++ (digits ++ rest))
  spaces : ∀ c ∈ spaces, isSpace c = true
  sign : sign = [] ∨ sign = [43]
  nonempty : digits ≠ []
  digits : ∀ c ∈ digits, isDigit c = true
  rest : ∀ c ∈ rest.head?, isDigit c = false

/-! ## Digits -/

theorem isDigit_iff {c : UInt8} : isDigit c = true ↔ 48 ≤ c.toNat ∧ c.toNat ≤ 57 := by
  unfold isDigit
  rw [Bool.and_eq_true, decide_eq_true_iff, decide_eq_true_iff, UInt8.le_iff_toNat_le,
    UInt8.le_iff_toNat_le]
  rfl

theorem not_isSpace_of_isDigit {c : UInt8} (h : isDigit c = true) : isSpace c = false := by
  rw [isDigit_iff] at h
  unfold isSpace
  rw [Bool.or_eq_false_iff, Bool.and_eq_false_iff, decide_eq_false_iff_not, decide_eq_false_iff_not,
    decide_eq_false_iff_not, UInt8.le_iff_toNat_le, UInt8.le_iff_toNat_le]
  refine ⟨?_, Or.inr ?_⟩
  · rintro rfl
    exact absurd h.1 (by decide)
  · show ¬c.toNat ≤ 13
    omega

theorem foldl_decimal_nonneg {digits : List UInt8} (h : ∀ c ∈ digits, isDigit c = true) {n : ℤ}
    (hn : 0 ≤ n) : 0 ≤ digits.foldl (fun (n : ℤ) (c : UInt8) => 10 * n + (c.toNat - 48)) n := by
  induction digits generalizing n with
  | nil => exact hn
  | cons c digits ih =>
    rw [List.forall_mem_cons, isDigit_iff] at h
    rw [List.foldl_cons]
    apply ih h.2
    omega

theorem decimalValue_nonneg {digits : List UInt8} (h : ∀ c ∈ digits, isDigit c = true) :
    0 ≤ decimalValue digits := foldl_decimal_nonneg h le_rfl

/-! ## `stoi` -/

theorem splitSign_cons (c : UInt8) (text : List UInt8) : splitSign (c :: text) =
    if c = 45 then (true, text) else if c = 43 then (false, text) else (false, c :: text) := rfl

/-- A text without a minus sign in front may have a plus sign there. -/
theorem eq_of_splitSign {text : List UInt8} (h : (splitSign text).1 = false) :
    ∃ sign, (sign = [] ∨ sign = [43]) ∧ text = sign ++ (splitSign text).2 := by
  rcases text with _ | ⟨c, text⟩
  · exact ⟨[], Or.inl rfl, rfl⟩
  · rw [splitSign_cons] at h ⊢
    split_ifs at h ⊢ with hminus hplus
    · rw [hplus]
      exact ⟨[43], Or.inr rfl, rfl⟩
    · exact ⟨[], Or.inl rfl, rfl⟩

theorem splitSign_of_isDigit {c : UInt8} (h : isDigit c = true) (text : List UInt8) :
    splitSign (c :: text) = (false, c :: text) := by
  rw [isDigit_iff] at h
  rw [splitSign_cons, if_neg, if_neg]
  · rintro rfl
    exact absurd h.1 (by decide)
  · rintro rfl
    exact absurd h.1 (by decide)

theorem head?_dropWhile_isDigit (text : List UInt8) :
    ∀ c ∈ (text.dropWhile isDigit).head?, isDigit c = false := by
  intro c hc
  have h := List.head?_dropWhile_not isDigit text
  rw [Option.mem_def.mp hc] at h
  simpa using h

theorem isNumeral_of_stoi {text : List UInt8} {v : ℤ} (hv : 0 < v) (h : stoi text = some v) :
    v < 2 ^ 31 ∧ ∃ spaces sign digits rest,
      IsNumeral text spaces sign digits rest ∧ decimalValue digits = v := by
  unfold stoi at h
  have hsplit := @eq_of_splitSign (text.dropWhile isSpace)
  rcases hsign : splitSign (text.dropWhile isSpace) with ⟨negative, tail⟩
  rw [hsign] at h hsplit
  simp only at h hsplit
  have hdigits : ∀ c ∈ tail.takeWhile isDigit, isDigit c = true := fun c hc =>
    List.mem_takeWhile_imp hc
  by_cases hnone : tail.takeWhile isDigit = []
  · rw [if_pos hnone] at h
    cases h
  · rw [if_neg hnone, ← decimalValue] at h
    by_cases hnegative : negative = true
    · -- a negative number is not positive
      have hnonneg := decimalValue_nonneg hdigits
      rw [if_pos hnegative] at h
      split_ifs at h
      have hvalue := Option.some.inj h
      omega
    · rw [if_neg hnegative] at h
      split_ifs at h with hrange
      obtain ⟨sign, hplus, htext⟩ := hsplit (Bool.not_eq_true _ ▸ hnegative)
      refine ⟨by rw [← Option.some.inj h]; exact hrange.2, text.takeWhile isSpace, sign,
        tail.takeWhile isDigit, tail.dropWhile isDigit, ⟨?_, ?_, hplus, hnone, hdigits, ?_⟩,
        Option.some.inj h⟩
      · rw [List.takeWhile_append_dropWhile, ← htext, List.takeWhile_append_dropWhile]
      · exact fun c hc => List.mem_takeWhile_imp hc
      · exact head?_dropWhile_isDigit tail

/-- The digits of a numeral are those that `stoi` takes. -/
theorem takeWhile_isDigit {digits rest : List UInt8} (hdigits : ∀ c ∈ digits, isDigit c = true)
    (hrest : ∀ c ∈ rest.head?, isDigit c = false) :
    (digits ++ rest).takeWhile isDigit = digits := by
  rw [List.takeWhile_append_of_pos hdigits]
  rcases rest with _ | ⟨c, rest⟩
  · rw [List.takeWhile_nil, List.append_nil]
  · rw [List.takeWhile_cons_of_neg, List.append_nil]
    rw [hrest c rfl]
    exact Bool.false_ne_true

theorem stoi_of_isNumeral {text spaces sign digits rest : List UInt8}
    (h : IsNumeral text spaces sign digits rest) (hbound : decimalValue digits < 2 ^ 31) :
    stoi text = some (decimalValue digits) := by
  have hnonneg := decimalValue_nonneg h.digits
  have htake := takeWhile_isDigit h.digits h.rest
  obtain ⟨d, digits, rfl⟩ := List.exists_cons_of_ne_nil h.nonempty
  have hd := h.digits d List.mem_cons_self
  have hsplit : splitSign (text.dropWhile isSpace) = (false, d :: digits ++ rest) := by
    rw [h.eq, List.dropWhile_append_of_pos h.spaces]
    rcases h.sign with rfl | rfl
    · rw [List.nil_append, List.cons_append, List.dropWhile_cons_of_neg, splitSign_of_isDigit hd]
      rw [not_isSpace_of_isDigit hd]
      exact Bool.false_ne_true
    · rw [List.singleton_append, List.dropWhile_cons_of_neg (by decide), splitSign_cons]
      rfl
  unfold stoi
  simp only [hsplit, htake, Bool.false_eq_true, if_false, reduceCtorEq]
  rw [← decimalValue, if_pos]
  constructor
  · omega
  · exact hbound

/-- **Which texts are read as a positive number.** -/
theorem stoi_eq_some_iff {text : List UInt8} {v : ℤ} (hv : 0 < v) :
    stoi text = some v ↔ v < 2 ^ 31 ∧ ∃ spaces sign digits rest,
      IsNumeral text spaces sign digits rest ∧ decimalValue digits = v := by
  constructor
  · exact isNumeral_of_stoi hv
  · rintro ⟨hbound, spaces, sign, digits, rest, hnumeral, rfl⟩
    exact stoi_of_isNumeral hnumeral hbound

end Ziplog
