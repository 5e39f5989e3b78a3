import Mathlib.Computability.RegularExpressions

/-!
# Character classes in regular expressions

The parts of a regular expression over bytes that stand for one character of a range, for an
optional part, and for one part behind another, with the strings they match.
-/

namespace CharacterClass

open RegularExpression

variable {α : Type*}

/-- One of the characters `cs`. -/
def oneOf (cs : List α) : RegularExpression α := (cs.map char).sum

/-- One of the bytes from `lo` to `hi`. -/
def between (lo hi : UInt8) : RegularExpression UInt8 :=
  oneOf ((List.range' lo.toNat (hi.toNat + 1 - lo.toNat)).map UInt8.ofNat)

def optional (P : RegularExpression α) : RegularExpression α := P + 1

theorem mem_char {a : α} {t : List α} : t ∈ (char a).matches' ↔ t = [a] := by
  rw [matches'_char]
  rfl

theorem mem_either {P Q : RegularExpression α} {t : List α} :
    t ∈ (P + Q).matches' ↔ t ∈ P.matches' ∨ t ∈ Q.matches' := by
  rw [matches'_add, Language.mem_add]

theorem mem_oneOf {cs t : List α} : t ∈ (oneOf cs).matches' ↔ ∃ c ∈ cs, t = [c] := by
  induction cs with
  | nil =>
    refine iff_of_false (fun h => ?_) fun h => ?_
    · exact h
    · obtain ⟨c, hc, -⟩ := h
      exact absurd hc List.not_mem_nil
  | cons a cs ih =>
    have hsplit : oneOf (a :: cs) = char a + oneOf cs := by
      unfold oneOf
      rw [List.map_cons, List.sum_cons]
    rw [hsplit, mem_either, ih, mem_char, List.exists_mem_cons_iff]

theorem mem_between {lo hi : UInt8} {t : List UInt8} :
    t ∈ (between lo hi).matches' ↔
      ∃ c : UInt8, t = [c] ∧ lo.toNat ≤ c.toNat ∧ c.toNat ≤ hi.toNat := by
  unfold between
  rw [mem_oneOf]
  constructor
  · rintro ⟨c, hc, rfl⟩
    obtain ⟨n, hn, rfl⟩ := List.mem_map.mp hc
    rw [List.mem_range'_1] at hn
    have hhi := hi.toNat_lt
    have hval : (UInt8.ofNat n).toNat = n := by
      rw [UInt8.toNat_ofNat', Nat.mod_eq_of_lt (by omega)]
    refine ⟨_, rfl, ?_, ?_⟩
    · omega
    · omega
  · rintro ⟨c, rfl, hlo, hhi⟩
    refine ⟨c, List.mem_map.mpr ⟨c.toNat, ?_, UInt8.ofNat_toNat⟩, rfl⟩
    rw [List.mem_range'_1]
    omega

theorem mem_optional {P : RegularExpression α} {t : List α} :
    t ∈ (optional P).matches' ↔ t ∈ P.matches' ∨ t = [] := by
  unfold optional
  rw [mem_either, matches'_epsilon, Language.mem_one]

theorem mem_then {P Q : RegularExpression α} {t : List α} :
    t ∈ (P * Q).matches' ↔ ∃ p ∈ P.matches', ∃ q ∈ Q.matches', t = p ++ q := by
  rw [matches'_mul, Language.mem_mul]
  refine exists_congr fun p => and_congr_right fun _ => ?_
  exact exists_congr fun q => and_congr_right fun _ => eq_comm

end CharacterClass
