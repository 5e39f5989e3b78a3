import Ziplog.Api.Numerals
import Ziplog.Library.CharacterClass

/-!
# Addresses in text

`parseAddress` splits a text at its last colon, matches what stands in front of it with a regular
expression, and reads the port with `stoi`. The expression accepts four octets and nothing else
(`mem_ipPattern`), but `stoi` is lenient: the grammar of addresses is met except for ports with
white space or a plus sign in front of their digits or anything behind them
(`parseAddress_grammar_iff`).
-/

namespace Ziplog

open CharacterClass RegularExpression

structure ConfigParseError where
  what : String
  deriving DecidableEq, Repr

/-- The bytes of a `std::string` as characters. -/
def text (bytes : List UInt8) : String := String.ofList (bytes.map fun c => Char.ofNat c.toNat)

/-- `std::string::find_last_of` for one character. -/
def findLastOf (c : UInt8) : List UInt8 → Option ℕ
  | [] => none
  | x :: s =>
    match findLastOf c s with
    | some pos => some (pos + 1)
    | none => if x = c then some 0 else none

/-- `25[0-5]|2[0-4][0-9]|[01]?[0-9][0-9]?` -/
def octetPattern : RegularExpression UInt8 :=
  char 50 * (char 53 * between 48 53) +
    (char 50 * (between 48 52 * between 48 57) +
      optional (between 48 49) * (between 48 57 * optional (between 48 57)))

/-- Three octets with a dot behind them, and a fourth one. -/
def ipPattern : RegularExpression UInt8 :=
  octetPattern * (char 46 * (octetPattern * (char 46 * (octetPattern * (char 46 * octetPattern)))))

/-- `localhost` -/
def localhost : List UInt8 := [108, 111, 99, 97, 108, 104, 111, 115, 116]

/-- `127.0.0.1` -/
def loopback : List UInt8 := [49, 50, 55, 46, 48, 46, 48, 46, 49]

def parseAddress (addr : List UInt8) : Except ConfigParseError Address :=
  match findLastOf 58 addr with
  | none => .error ⟨"Config Address is not a valid IP address, missing colon"⟩
  | some colonPos =>
    let ipAddr := addr.take colonPos
    let portStr := addr.drop (colonPos + 1)
    if ipAddr = [] ∨ portStr = [] then .error ⟨"Config Address or Port is empty"⟩
    else
      let ipAddr := if ipAddr = localhost then loopback else ipAddr
      if ipPattern.rmatch ipAddr then
        match stoi portStr with
        | none => .error ⟨"Invalid port: " ++ text portStr⟩
        | some port =>
          if port < 1 ∨ 65535 < port then
            .error ⟨"Port " ++ text portStr ++ " not in range (1-65535)"⟩
          else .ok ⟨text ipAddr, port⟩
      else .error ⟨"Invalid IP address: " ++ text ipAddr⟩

/-! ## The grammar -/

/-- A number from 0 to 255 in one to three decimal digits. -/
structure IsOctet (t : List UInt8) : Prop where
  nonempty : t ≠ []
  length : t.length ≤ 3
  digits : ∀ c ∈ t, isDigit c = true
  value : decimalValue t ≤ 255

/-- Four octets with dots between them. -/
def IsDotted (h : List UInt8) : Prop :=
  ∃ a b c d, IsOctet a ∧ IsOctet b ∧ IsOctet c ∧ IsOctet d ∧
    h = a ++ 46 :: (b ++ 46 :: (c ++ 46 :: d))

def IsHost (h : List UInt8) : Prop := h = localhost ∨ IsDotted h

/-- A port number in decimal digits. -/
structure IsPort (p : List UInt8) : Prop where
  digits : ∀ c ∈ p, isDigit c = true
  low : 1 ≤ decimalValue p
  high : decimalValue p ≤ 65535

/-- The address that a host name stands for. -/
def hostAddress (h : List UInt8) : List UInt8 := if h = localhost then loopback else h

/-- The port number has white space or a sign in front of it, or something behind it. -/
def IsPaddedPort (p : List UInt8) : Prop :=
  ∃ spaces sign digits rest, IsNumeral p spaces sign digits rest ∧ IsPort digits ∧ p ≠ digits

/-! ## Octets -/

theorem decimalValue_one (a : UInt8) : decimalValue [a] = a.toNat - 48 := by
  simp [decimalValue]

theorem decimalValue_two (a b : UInt8) :
    decimalValue [a, b] = 10 * (a.toNat - 48) + (b.toNat - 48) := by
  simp [decimalValue]

theorem decimalValue_three (a b c : UInt8) :
    decimalValue [a, b, c] = 100 * (a.toNat - 48) + 10 * (b.toNat - 48) + (c.toNat - 48) := by
  simp only [decimalValue, List.foldl_cons, List.foldl_nil]
  ring

theorem forall_isDigit_cons {c : UInt8} {t : List UInt8} :
    (∀ d ∈ c :: t, isDigit d = true) ↔
      (48 ≤ c.toNat ∧ c.toNat ≤ 57) ∧ ∀ d ∈ t, isDigit d = true := by
  rw [List.forall_mem_cons, isDigit_iff]

theorem isOctet_one {a : UInt8} (ha : 48 ≤ a.toNat ∧ a.toNat ≤ 57) : IsOctet [a] where
  nonempty := List.cons_ne_nil _ _
  length := by simp
  digits := forall_isDigit_cons.mpr ⟨ha, fun _ hd => absurd hd List.not_mem_nil⟩
  value := by
    rw [decimalValue_one]
    omega

theorem isOctet_two {a b : UInt8} (ha : 48 ≤ a.toNat ∧ a.toNat ≤ 57)
    (hb : 48 ≤ b.toNat ∧ b.toNat ≤ 57) : IsOctet [a, b] where
  nonempty := List.cons_ne_nil _ _
  length := by simp
  digits := forall_isDigit_cons.mpr ⟨ha, (isOctet_one hb).digits⟩
  value := by
    rw [decimalValue_two]
    omega

theorem isOctet_three {a b c : UInt8} (ha : 48 ≤ a.toNat ∧ a.toNat ≤ 57)
    (hb : 48 ≤ b.toNat ∧ b.toNat ≤ 57) (hc : 48 ≤ c.toNat ∧ c.toNat ≤ 57)
    (hvalue : a.toNat ≤ 49 ∨ a.toNat = 50 ∧ (b.toNat ≤ 52 ∨ b.toNat = 53 ∧ c.toNat ≤ 53)) :
    IsOctet [a, b, c] where
  nonempty := List.cons_ne_nil _ _
  length := by simp
  digits := forall_isDigit_cons.mpr ⟨ha, (isOctet_two hb hc).digits⟩
  value := by
    rw [decimalValue_three]
    omega

/-- **The pattern of an octet** matches the numbers from 0 to 255 in up to three digits. -/
theorem mem_octetPattern {t : List UInt8} : t ∈ octetPattern.matches' ↔ IsOctet t := by
  unfold octetPattern
  simp only [mem_either, mem_then, mem_optional, mem_between, mem_char, UInt8.reduceToNat]
  constructor
  · rintro (⟨_, rfl, _, ⟨_, rfl, _, ⟨c, rfl, hc⟩, rfl⟩, rfl⟩ |
      ⟨_, rfl, _, ⟨_, ⟨b, rfl, hb⟩, _, ⟨c, rfl, hc⟩, rfl⟩, rfl⟩ |
      ⟨_, ⟨a, rfl, ha⟩ | rfl, _, ⟨_, ⟨b, rfl, hb⟩, _, ⟨c, rfl, hc⟩ | rfl, rfl⟩, rfl⟩)
    · exact isOctet_three (by decide) (by decide) ⟨hc.1, by omega⟩
        (Or.inr ⟨rfl, Or.inr ⟨rfl, hc.2⟩⟩)
    · exact isOctet_three (by decide) ⟨hb.1, by omega⟩ hc (Or.inr ⟨rfl, Or.inl hb.2⟩)
    · exact isOctet_three ⟨ha.1, by omega⟩ hb hc (Or.inl ha.2)
    · exact isOctet_two ⟨ha.1, by omega⟩ hb
    · exact isOctet_two hb hc
    · exact isOctet_one hb
  · intro h
    have hlength := h.length
    have hdigits := h.digits
    have hvalue := h.value
    rcases t with _ | ⟨a, _ | ⟨b, _ | ⟨c, _ | ⟨d, t⟩⟩⟩⟩
    · exact absurd rfl h.nonempty
    · obtain ⟨ha, -⟩ := forall_isDigit_cons.mp hdigits
      exact Or.inr (Or.inr ⟨[], Or.inr rfl, [a], ⟨[a], ⟨a, rfl, ha⟩, [], Or.inr rfl, rfl⟩, rfl⟩)
    · obtain ⟨ha, hrest⟩ := forall_isDigit_cons.mp hdigits
      obtain ⟨hb, -⟩ := forall_isDigit_cons.mp hrest
      exact Or.inr (Or.inr ⟨[], Or.inr rfl, [a, b],
        ⟨[a], ⟨a, rfl, ha⟩, [b], Or.inl ⟨b, rfl, hb⟩, rfl⟩, rfl⟩)
    · obtain ⟨ha, hrest⟩ := forall_isDigit_cons.mp hdigits
      obtain ⟨hb, hrest⟩ := forall_isDigit_cons.mp hrest
      obtain ⟨hc, -⟩ := forall_isDigit_cons.mp hrest
      rw [decimalValue_three] at hvalue
      by_cases hsmall : a.toNat ≤ 49
      · exact Or.inr (Or.inr ⟨[a], Or.inl ⟨a, rfl, ha.1, hsmall⟩, [b, c],
          ⟨[b], ⟨b, rfl, hb⟩, [c], Or.inl ⟨c, rfl, hc⟩, rfl⟩, rfl⟩)
      · obtain rfl : a = 50 := UInt8.toNat_inj.mp (show a.toNat = 50 by omega)
        have htwo : (50 : UInt8).toNat = 50 := rfl
        by_cases hfour : b.toNat ≤ 52
        · exact Or.inr (Or.inl ⟨[50], rfl, [b, c],
            ⟨[b], ⟨b, rfl, hb.1, hfour⟩, [c], ⟨c, rfl, hc⟩, rfl⟩, rfl⟩)
        · obtain rfl : b = 53 := UInt8.toNat_inj.mp (show b.toNat = 53 by omega)
          have hfive : (53 : UInt8).toNat = 53 := rfl
          exact Or.inl ⟨[50], rfl, [53, c],
            ⟨[53], rfl, [c], ⟨c, rfl, hc.1, by omega⟩, rfl⟩, rfl⟩
    · rw [List.length_cons, List.length_cons, List.length_cons, List.length_cons] at hlength
      omega

/-- The pattern of a host matches four octets with dots between them. -/
theorem mem_ipPattern {h : List UInt8} : ipPattern.rmatch h = true ↔ IsDotted h := by
  rw [rmatch_iff_matches']
  unfold ipPattern IsDotted
  simp only [mem_then, mem_char, mem_octetPattern]
  constructor
  · rintro ⟨a, ha, _, ⟨_, rfl, _, ⟨b, hb, _, ⟨_, rfl, _, ⟨c, hc, _, ⟨_, rfl, d, hd, rfl⟩, rfl⟩,
      rfl⟩, rfl⟩, rfl⟩, rfl⟩
    exact ⟨a, b, c, d, ha, hb, hc, hd, rfl⟩
  · rintro ⟨a, b, c, d, ha, hb, hc, hd, rfl⟩
    exact ⟨a, ha, _, ⟨_, rfl, _, ⟨b, hb, _, ⟨_, rfl, _, ⟨c, hc, _, ⟨_, rfl, d, hd, rfl⟩, rfl⟩,
      rfl⟩, rfl⟩, rfl⟩, rfl⟩

/-! ## The split -/

theorem findLastOf_cons (c x : UInt8) (s : List UInt8) : findLastOf c (x :: s) =
    match findLastOf c s with
    | some pos => some (pos + 1)
    | none => if x = c then some 0 else none := rfl

theorem findLastOf_eq_none_iff {c : UInt8} {s : List UInt8} : findLastOf c s = none ↔ c ∉ s := by
  induction s with
  | nil => exact iff_of_true rfl List.not_mem_nil
  | cons x s ih =>
    rw [findLastOf_cons, List.mem_cons, not_or]
    rcases hlast : findLastOf c s with _ | last
    · rw [and_iff_left (ih.mp hlast)]
      show (if x = c then some 0 else none) = none ↔ _
      by_cases hx : x = c
      · rw [if_pos hx]
        exact iff_of_false (Option.some_ne_none 0) (not_not_intro hx.symm)
      · rw [if_neg hx]
        exact iff_of_true rfl (Ne.symm hx)
    · refine iff_of_false (Option.some_ne_none _) fun h => ?_
      rw [ih.mpr h.2] at hlast
      cases hlast

theorem findLastOf_append {c : UInt8} {p : List UInt8} (hp : c ∉ p) (h : List UInt8) :
    findLastOf c (h ++ c :: p) = some h.length := by
  induction h with
  | nil =>
    rw [List.nil_append, findLastOf_cons, findLastOf_eq_none_iff.mpr hp]
    exact if_pos rfl
  | cons x h ih =>
    rw [List.cons_append, findLastOf_cons, ih]
    rfl

theorem eq_of_findLastOf {c : UInt8} {s : List UInt8} {pos : ℕ} (hs : findLastOf c s = some pos) :
    ∃ h p, s = h ++ c :: p ∧ c ∉ p ∧ h.length = pos := by
  induction s generalizing pos with
  | nil => cases hs
  | cons x s ih =>
    rw [findLastOf_cons] at hs
    rcases hlast : findLastOf c s with _ | last
    · rw [hlast] at hs
      simp only at hs
      split_ifs at hs with hx
      exact ⟨[], s, by rw [hx, List.nil_append], findLastOf_eq_none_iff.mp hlast,
        Option.some.inj hs⟩
    · rw [hlast] at hs
      obtain ⟨h, p, hsplit, hp, hpos⟩ := ih hlast
      refine ⟨x :: h, p, by rw [hsplit, List.cons_append], hp, ?_⟩
      rw [List.length_cons, hpos]
      exact Option.some.inj hs

/-- A text has one last colon. -/
theorem split_unique {c : UInt8} {h h' p p' : List UInt8} (hp : c ∉ p) (hp' : c ∉ p')
    (heq : h ++ c :: p = h' ++ c :: p') : h = h' ∧ p = p' := by
  have hlen : h.length = h'.length := by
    apply Option.some.inj
    rw [← findLastOf_append hp h, heq, findLastOf_append hp' h']
  obtain ⟨hhost, hrest⟩ := List.append_inj heq hlen
  exact ⟨hhost, (List.cons.inj hrest).2⟩

/-! ## What is accepted -/

theorem isDotted_loopback : IsDotted loopback := mem_ipPattern.mp (by decide +kernel)

theorem isDotted_hostAddress {h : List UInt8} : IsDotted (hostAddress h) ↔ IsHost h := by
  unfold hostAddress IsHost
  split_ifs with hlocal
  · exact iff_of_true isDotted_loopback (Or.inl hlocal)
  · rw [or_iff_right hlocal]

theorem IsHost.ne_nil {h : List UInt8} (hhost : IsHost h) : h ≠ [] := by
  rcases hhost with rfl | ⟨a, b, c, d, ha, -, -, -, rfl⟩
  · decide
  · exact fun hnil => ha.nonempty (List.append_eq_nil_iff.mp hnil).1

/-- **Which texts are accepted**, in terms of `stoi`. -/
theorem parseAddress_eq_ok_iff {addr : List UInt8} {a : Address} :
    parseAddress addr = .ok a ↔ ∃ h p n, addr = h ++ 58 :: p ∧ 58 ∉ p ∧ IsHost h ∧
      stoi p = some n ∧ (1 ≤ n ∧ n ≤ 65535) ∧ a = ⟨text (hostAddress h), n⟩ := by
  constructor
  · intro hok
    unfold parseAddress at hok
    rcases hlast : findLastOf 58 addr with _ | pos
    · rw [hlast] at hok
      cases hok
    · obtain ⟨h, p, rfl, hp, rfl⟩ := eq_of_findLastOf hlast
      have hdrop : (h ++ 58 :: p).drop (h.length + 1) = p := by
        rw [List.drop_length_add_append, List.drop_one, List.tail_cons]
      simp only [hlast, List.take_left, hdrop] at hok
      rw [← hostAddress] at hok
      split_ifs at hok with hempty hmatch
      rcases hstoi : stoi p with _ | n
      · rw [hstoi] at hok
        cases hok
      · rw [hstoi] at hok
        simp only at hok
        split_ifs at hok with hrange
        cases hok
        rw [not_or, not_lt, not_lt] at hrange
        exact ⟨h, p, n, rfl, hp, isDotted_hostAddress.mp (mem_ipPattern.mp hmatch), hstoi, hrange,
          rfl⟩
  · rintro ⟨h, p, n, rfl, hp, hhost, hstoi, hrange, rfl⟩
    have hdrop : (h ++ 58 :: p).drop (h.length + 1) = p := by
      rw [List.drop_length_add_append, List.drop_one, List.tail_cons]
    have hport : p ≠ [] := by
      rintro rfl
      cases hstoi
    have hmatch : ipPattern.rmatch (hostAddress h) = true :=
      mem_ipPattern.mpr (isDotted_hostAddress.mpr hhost)
    unfold parseAddress
    simp only [findLastOf_append hp, List.take_left, hdrop]
    rw [← hostAddress, if_neg (not_or.mpr ⟨hhost.ne_nil, hport⟩), if_pos hmatch, hstoi]
    exact if_neg (not_or.mpr ⟨not_lt.mpr hrange.1, not_lt.mpr hrange.2⟩)

/-! ## The grammar against the code -/

/-- What the grammar of addresses asks of `parse_address` on a text: it accepts exactly the texts of
a host, a colon and a port in digits, and returns this address and port. -/
structure MeetsGrammar (addr : List UInt8) : Prop where
  accepts : ∀ h p, addr = h ++ 58 :: p → IsHost h → IsPort p →
    parseAddress addr = .ok ⟨text (hostAddress h), decimalValue p⟩
  rejects : (¬∃ h p, addr = h ++ 58 :: p ∧ IsHost h ∧ IsPort p) →
    ∃ e, parseAddress addr = .error e

theorem not_mem_of_digits {p : List UInt8} (hp : ∀ c ∈ p, isDigit c = true) : (58 : UInt8) ∉ p :=
  fun hmem => absurd (hp 58 hmem) (by decide)

theorem IsPort.ne_nil {p : List UInt8} (hp : IsPort p) : p ≠ [] := by
  rintro rfl
  exact absurd hp.low (by decide)

theorem IsPort.isNumeral {p : List UInt8} (hp : IsPort p) : IsNumeral p [] [] p [] where
  eq := by rw [List.append_nil, List.nil_append, List.nil_append]
  spaces := fun _ hc => absurd hc List.not_mem_nil
  sign := Or.inl rfl
  nonempty := hp.ne_nil
  digits := hp.digits
  rest := fun _ hc => nomatch hc

/-- A text of digits is not padded. -/
theorem IsNumeral.eq_digits {p spaces sign digits rest : List UInt8}
    (h : IsNumeral p spaces sign digits rest) (hp : ∀ c ∈ p, isDigit c = true) : p = digits := by
  have heq := h.eq
  have hspaces : spaces = [] := by
    rcases spaces with _ | ⟨c, spaces⟩
    · rfl
    · have hdigit := hp c (by rw [heq]; exact List.mem_cons_self)
      have hspace := h.spaces c List.mem_cons_self
      rw [not_isSpace_of_isDigit hdigit] at hspace
      cases hspace
  have hsign : sign = [] := by
    rcases h.sign with hnone | hplus
    · exact hnone
    · have hdigit := hp 43 (by rw [heq, hspaces, hplus]; exact List.mem_cons_self)
      exact absurd hdigit (by decide)
  have hrest : rest = [] := by
    rcases rest with _ | ⟨c, rest⟩
    · rfl
    · have hdigit := hp c (by
        rw [heq, ← List.append_assoc, ← List.append_assoc]
        exact List.mem_append_right _ List.mem_cons_self)
      rw [h.rest c rfl] at hdigit
      cases hdigit
  rw [heq, hspaces, hsign, hrest, List.append_nil, List.nil_append, List.nil_append]

/-- A text with a padded port is accepted, and no other reading of it is in the grammar. -/
theorem not_meetsGrammar_of_padded {h p : List UInt8} (hcolon : 58 ∉ p) (hhost : IsHost h)
    (hpadded : IsPaddedPort p) : ¬MeetsGrammar (h ++ 58 :: p) := by
  obtain ⟨spaces, sign, digits, rest, hnumeral, hport, hne⟩ := hpadded
  intro hmeets
  have hstoi := stoi_of_isNumeral hnumeral (by
    have hhigh := hport.high
    omega)
  have hok := parseAddress_eq_ok_iff.mpr
    ⟨h, p, decimalValue digits, rfl, hcolon, hhost, hstoi, ⟨hport.low, hport.high⟩, rfl⟩
  obtain ⟨e, he⟩ := hmeets.rejects (by
    rintro ⟨h', p', heq, -, hport'⟩
    obtain ⟨-, rfl⟩ := split_unique hcolon (not_mem_of_digits hport'.digits) heq
    exact hne (hnumeral.eq_digits hport'.digits))
  rw [hok] at he
  cases he

/-- **When a text is parsed by the grammar**: unless its host is valid and its port is a number from
1 to 65535 with white space or a plus sign in front or with something behind. -/
theorem parseAddress_grammar_iff (addr : List UInt8) :
    MeetsGrammar addr ↔ ¬∃ h p, addr = h ++ 58 :: p ∧ 58 ∉ p ∧ IsHost h ∧ IsPaddedPort p := by
  constructor
  · rintro hmeets ⟨h, p, rfl, hcolon, hhost, hpadded⟩
    exact not_meetsGrammar_of_padded hcolon hhost hpadded hmeets
  · intro hplain
    constructor
    · intro h p haddr hhost hport
      have hbound : decimalValue p < 2 ^ 31 := by
        have hhigh := hport.high
        omega
      exact parseAddress_eq_ok_iff.mpr ⟨h, p, decimalValue p, haddr,
        not_mem_of_digits hport.digits, hhost, stoi_of_isNumeral hport.isNumeral hbound,
        ⟨hport.low, hport.high⟩, rfl⟩
    · intro hout
      rcases hparse : parseAddress addr with e | a
      · exact ⟨e, rfl⟩
      · obtain ⟨h, p, n, haddr, hcolon, hhost, hstoi, hrange, -⟩ := parseAddress_eq_ok_iff.mp hparse
        obtain ⟨-, spaces, sign, digits, rest, hnumeral, rfl⟩ :=
          isNumeral_of_stoi (by omega) hstoi
        have hport : IsPort digits := ⟨hnumeral.digits, hrange.1, hrange.2⟩
        by_cases hdigits : p = digits
        · rw [← hdigits] at hport
          exact absurd ⟨h, p, haddr, hhost, hport⟩ hout
        · exact absurd ⟨h, p, haddr, hcolon, hhost, spaces, sign, digits, rest, hnumeral, hport,
            hdigits⟩ hplain

/-- `127.0.0.1:80abc` is taken for port 80. -/
theorem not_meetsGrammar_trailing :
    ¬∀ addr : List UInt8, MeetsGrammar addr := by
  intro hall
  have hok : parseAddress (loopback ++ [58, 56, 48, 97, 98, 99]) = .ok ⟨"127.0.0.1", 80⟩ := by
    decide +kernel
  obtain ⟨e, he⟩ := (hall (loopback ++ [58, 56, 48, 97, 98, 99])).rejects (by
    rintro ⟨h, p, heq, -, hport⟩
    have hlast := congrArg List.getLast? heq
    obtain ⟨front, d, hp⟩ := List.eq_nil_or_concat p |>.resolve_left hport.ne_nil
    rw [List.concat_eq_append] at hp
    rw [hp, ← List.cons_append, ← List.append_assoc, List.getLast?_concat] at hlast
    have hd := hport.digits d (by rw [hp]; exact List.mem_append_right _ List.mem_cons_self)
    rw [← Option.some.inj hlast] at hd
    exact absurd hd (by decide))
  rw [hok] at he
  cases he

end Ziplog
