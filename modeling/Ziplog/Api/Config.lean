import Mathlib.Data.Finset.Insert
import Mathlib.Data.List.Nodup
import Ziplog.Api.ParseAddress

/-!
# Configurations

`parseConfigJSON` takes the fields of a configuration out of a JSON value and checks them. The JSON
library is a parameter: it returns the value, or the byte and the text of a syntax error.

Duplicates are looked for among the texts of the addresses, and the number of servers is compared in
machine arithmetic. What is accepted is sound exactly when no address is spelled in two ways and
`2 * f + 1` does not overflow downwards (`parseConfigJSON_sound_iff`).
-/

namespace Ziplog

/-- A JSON value. Numbers with a fraction or an exponent are `float`. -/
inductive Json
  | null
  | boolean (b : Bool)
  | number (n : ℤ)
  | float
  | string (s : List UInt8)
  | array (items : List Json)
  | object (members : List (String × Json))

namespace Json

/-- The member of an object; the other values have none. -/
def get? (j : Json) (field : String) : Option Json :=
  match j with
  | .object members => members.lookup field
  | _ => none

/-- What the library calls the type of a value. -/
def typeName : Json → String
  | .null => "null"
  | .boolean _ => "boolean"
  | .number _ => "number"
  | .float => "number"
  | .string _ => "string"
  | .array _ => "array"
  | .object _ => "object"

def string? : Json → Option (List UInt8)
  | .string s => some s
  | _ => none

end Json

/-! ## Machine arithmetic -/

/-- A number in 32 bits with a sign. -/
def wrapInt (n : ℤ) : ℤ := (n + 2 ^ 31) % 2 ^ 32 - 2 ^ 31

/-- A number in 64 bits without a sign. -/
def wrapSize (n : ℤ) : ℤ := n % 2 ^ 64

/-- `2 * f + 1` as an `int`. It is taken to wrap around where it overflows. -/
def serversNeeded (f : ℤ) : ℤ := wrapInt (2 * f + 1)

/-- `max_size()` of a `vector<Address>`, whose elements take 40 bytes. -/
def maxAddresses : ℕ := (2 ^ 63 - 1) / 40

/-! ## The parser -/

structure ZiplogConfig where
  f : ℤ
  maxRetries : ℤ
  maxEpochHistory : ℤ
  epochDuration : ℤ
  zipper : Address
  proxies : List Address
  servers : List Address
  subscribers : List Address
  deriving DecidableEq, Repr

/-- A field that has to be an integer. -/
def intField (j : Json) (field : String) : Except ConfigParseError ℤ :=
  match j.get? field with
  | some (.number n) => .ok (wrapInt n)
  | _ => .error ⟨"Missing or invalid '" ++ field ++ "' field"⟩

/-- A field that has a default. -/
def defaultField (j : Json) (field : String) (wrap : ℤ → ℤ) (default : ℤ) : ℤ :=
  match j.get? field with
  | some (.number n) => wrap n
  | _ => default

def zipperField (j : Json) : Except ConfigParseError Address :=
  match j.get? "zipper" with
  | none => .error ⟨"Missing or invalid 'zipper' field"⟩
  | some (.string addr) => parseAddress addr
  | some item => .error ⟨"JSON processing error: [json.exception.type_error.302] type must be " ++
      "string, but is " ++ item.typeName⟩

def pushBack (result : List Address) (val : Address) : Except ConfigParseError (List Address) :=
  if result.length < maxAddresses then .ok (result ++ [val])
  else .error ⟨"Unexpected error during config parsing: vector::_M_realloc_append"⟩

/-- The loop of `extractArray`. -/
def extractItems (field : String) : List Json → List Address → Finset (List UInt8) →
    Except ConfigParseError (List Address × Finset (List UInt8))
  | [], result, seen => .ok (result, seen)
  | .string addr :: items, result, seen =>
    if addr ∈ seen then .error ⟨"Duplicate address"⟩
    else
      match parseAddress addr with
      | .error e => .error e
      | .ok val =>
        match pushBack result val with
        | .error e => .error e
        | .ok result => extractItems field items result (insert addr seen)
  | _ :: _, _, _ => .error ⟨"Non-string item in " ++ field ++ " array"⟩

def extractArray (j : Json) (field : String) (seen : Finset (List UInt8)) :
    Except ConfigParseError (List Address × Finset (List UInt8)) :=
  match j.get? field with
  | some (.array items) => extractItems field items [] seen
  | _ => .error ⟨"Missing or invalid '" ++ field ++ "' field"⟩

/-- `parse_config_JSON` behind `json::parse`. -/
def configOf (j : Json) : Except ConfigParseError ZiplogConfig := do
  let f ← intField j "f"
  let maxRetries ← intField j "max_retries"
  let maxEpochHistory := defaultField j "max_epoch_history" wrapInt 10
  let epochDuration := defaultField j "epoch_duration" wrapSize 1000
  let zipper ← zipperField j
  let (proxies, seen) ← extractArray j "proxies" ∅
  let (servers, seen) ← extractArray j "servers" seen
  let (subscribers, _) ← extractArray j "subscribers" seen
  if servers.length < wrapSize (serversNeeded f) then
    .error ⟨"Insufficient servers: need at least " ++ toString (serversNeeded f) ++
      " servers for f=" ++ toString f⟩
  else
    return { f, maxRetries, maxEpochHistory, epochDuration, zipper, proxies, servers, subscribers }

def parseConfigJSON (parse : List UInt8 → Except (ℕ × String) Json) (jsonStr : List UInt8) :
    Except ConfigParseError ZiplogConfig :=
  match parse jsonStr with
  | .error (byte, what) => .error ⟨"JSON syntax error at byte " ++ toString byte ++ ": " ++ what⟩
  | .ok j => configOf j

/-! ## Soundness -/

/-- What is asked of an accepted configuration. -/
structure ZiplogConfig.Sound (config : ZiplogConfig) : Prop where
  f_nonneg : 0 ≤ config.f
  servers : 2 * config.f + 1 ≤ config.servers.length
  distinct : (config.proxies ++ config.servers ++ config.subscribers).Nodup

namespace Json

/-- The texts in an array. -/
def strings (j : Json) (field : String) : List (List UInt8) :=
  match j.get? field with
  | some (.array items) => items.filterMap string?
  | _ => []

/-- The texts of all addresses that must differ. -/
def entries (j : Json) : List (List UInt8) :=
  j.strings "proxies" ++ j.strings "servers" ++ j.strings "subscribers"

end Json

/-- Two texts that spell one address: the hosts are the same up to `localhost`, and the ports are
read as the same number. -/
def SpellAlike (s t : List UInt8) : Prop :=
  ∃ h p h' p', s = h ++ 58 :: p ∧ 58 ∉ p ∧ t = h' ++ 58 :: p' ∧ 58 ∉ p' ∧
    hostAddress h = hostAddress h' ∧ stoi p = stoi p'

/-- No address is spelled in two ways, and twice the number `f` does not fall below the range of
`int`. -/
structure Json.Plain (j : Json) : Prop where
  range : ∀ n, j.get? "f" = some (.number n) → -2 ^ 30 ≤ wrapInt n
  spelling : ∀ s ∈ j.entries, ∀ t ∈ j.entries, SpellAlike s t → s = t

/-! ## Arrays -/

/-- What an array that is accepted holds: texts that differ from each other and from those seen
before, each of an address. -/
structure Extracted (strings : List (List UInt8)) (seen : Finset (List UInt8))
    (result : List Address) (seen' : Finset (List UInt8)) : Prop where
  nodup : strings.Nodup
  fresh : ∀ s ∈ strings, s ∉ seen
  parsed : strings.map parseAddress = result.map Except.ok
  seen : ∀ s, s ∈ seen' ↔ s ∈ seen ∨ s ∈ strings

theorem pushBack_ok {result result' : List Address} {val : Address}
    (h : pushBack result val = .ok result') :
    result' = result ++ [val] ∧ result'.length ≤ maxAddresses := by
  unfold pushBack at h
  split_ifs at h with hsize
  cases h
  refine ⟨rfl, ?_⟩
  rw [List.length_append, List.length_singleton]
  exact hsize

theorem extractItems_ok {field : String} {items : List Json} {result result' : List Address}
    {seen seen' : Finset (List UInt8)} (hsize : result.length ≤ maxAddresses)
    (h : extractItems field items result seen = .ok (result', seen')) :
    ∃ new, result' = result ++ new ∧ result'.length ≤ maxAddresses ∧
      Extracted (items.filterMap Json.string?) seen new seen' := by
  induction items generalizing result seen with
  | nil =>
    cases h
    refine ⟨[], (List.append_nil _).symm, hsize, List.nodup_nil, ?_, rfl, fun s => ?_⟩
    · exact fun s hs => absurd hs List.not_mem_nil
    · exact (or_iff_left List.not_mem_nil).symm
  | cons item items ih =>
    rcases item with _ | _ | _ | _ | addr | _ | _
    case string =>
      rw [extractItems] at h
      split_ifs at h with hseen
      rcases hparse : parseAddress addr with e | val
      · rw [hparse] at h
        cases h
      · rw [hparse] at h
        simp only at h
        rcases hpush : pushBack result val with e | result₁
        · rw [hpush] at h
          cases h
        · rw [hpush] at h
          obtain ⟨rfl, hsize₁⟩ := pushBack_ok hpush
          obtain ⟨new, rfl, hsize', hnew⟩ := ih hsize₁ h
          refine ⟨val :: new, by rw [List.append_assoc, List.singleton_append], hsize', ?_⟩
          rw [List.filterMap_cons_some (show Json.string? (.string addr) = some addr from rfl)]
          refine ⟨List.nodup_cons.mpr ⟨fun hin => ?_, hnew.nodup⟩,
            List.forall_mem_cons.mpr ⟨hseen, fun s hs hold => ?_⟩, ?_, fun s => ?_⟩
          · exact hnew.fresh addr hin (Finset.mem_insert_self _ _)
          · exact hnew.fresh s hs (Finset.mem_insert_of_mem hold)
          · rw [List.map_cons, List.map_cons, hparse, hnew.parsed]
          · rw [hnew.seen, Finset.mem_insert, List.mem_cons]
            tauto
    all_goals cases h

theorem extractArray_ok {j : Json} {field : String} {result : List Address}
    {seen seen' : Finset (List UInt8)} (h : extractArray j field seen = .ok (result, seen')) :
    result.length ≤ maxAddresses ∧ Extracted (j.strings field) seen result seen' := by
  unfold extractArray at h
  unfold Json.strings
  rcases hget : j.get? field with _ | (_ | _ | _ | _ | _ | items | _)
  case some.array =>
    rw [hget] at h
    obtain ⟨new, rfl, hsize, hnew⟩ := extractItems_ok (Nat.zero_le _) h
    exact ⟨hsize, hnew⟩
  all_goals
    rw [hget] at h
    cases h

/-- Two arrays one after the other. -/
theorem Extracted.append {as bs : List (List UInt8)} {seen seen' seen'' : Finset (List UInt8)}
    {result result' : List Address} (h : Extracted as seen result seen')
    (h' : Extracted bs seen' result' seen'') :
    Extracted (as ++ bs) seen (result ++ result') seen'' where
  nodup := by
    rw [List.nodup_append]
    refine ⟨h.nodup, h'.nodup, fun a ha b hb hab => ?_⟩
    apply h'.fresh b hb
    rw [h.seen, ← hab]
    exact Or.inr ha
  fresh := by
    intro s hs hold
    rcases List.mem_append.mp hs with ha | hb
    · exact h.fresh s ha hold
    · exact h'.fresh s hb ((h.seen s).mpr (Or.inl hold))
  parsed := by rw [List.map_append, List.map_append, h.parsed, h'.parsed]
  seen := by
    intro s
    rw [h'.seen, h.seen, List.mem_append, or_assoc]

/-! ## Accepted values -/

theorem exists_of_bind {α β : Type} {x : Except ConfigParseError α}
    {k : α → Except ConfigParseError β} {b : β} (h : (x >>= k) = .ok b) :
    ∃ a, x = .ok a ∧ k a = .ok b := by
  rcases x with e | a
  · cases h
  · exact ⟨a, rfl, h⟩

theorem intField_ok {j : Json} {field : String} {v : ℤ} (h : intField j field = .ok v) :
    ∃ n, j.get? field = some (.number n) ∧ v = wrapInt n := by
  unfold intField at h
  rcases hget : j.get? field with _ | (_ | _ | n | _ | _ | _ | _)
  case some.number =>
    rw [hget] at h
    exact ⟨n, rfl, (Except.ok.inj h).symm⟩
  all_goals
    rw [hget] at h
    cases h

/-- What holds of a value whose configuration is accepted. -/
structure Accepts (j : Json) (config : ZiplogConfig) : Prop where
  f : ∃ n, j.get? "f" = some (.number n) ∧ config.f = wrapInt n
  size : config.servers.length ≤ maxAddresses
  servers : wrapSize (serversNeeded config.f) ≤ config.servers.length
  extracted : ∃ seen, Extracted j.entries ∅
    (config.proxies ++ config.servers ++ config.subscribers) seen

theorem configOf_ok {j : Json} {config : ZiplogConfig} (h : configOf j = .ok config) :
    Accepts j config := by
  unfold configOf at h
  obtain ⟨f, hf, h⟩ := exists_of_bind h
  obtain ⟨maxRetries, -, h⟩ := exists_of_bind h
  obtain ⟨zipper, -, h⟩ := exists_of_bind h
  obtain ⟨⟨proxies, seen₁⟩, hproxies, h⟩ := exists_of_bind h
  obtain ⟨⟨servers, seen₂⟩, hservers, h⟩ := exists_of_bind h
  obtain ⟨⟨subscribers, seen₃⟩, hsubscribers, h⟩ := exists_of_bind h
  simp only at h
  split_ifs at h with hfew
  cases h
  obtain ⟨-, hp⟩ := extractArray_ok hproxies
  obtain ⟨hsize, hs⟩ := extractArray_ok hservers
  obtain ⟨-, hb⟩ := extractArray_ok hsubscribers
  exact ⟨intField_ok hf, hsize, not_lt.mp hfew, seen₃, (hp.append hs).append hb⟩

/-! ## The number of servers -/

/-- With room for the addresses, the comparison is right where `2 * f + 1` does not overflow
downwards, and is passed by no negative `f` there. -/
theorem servers_of_accepts {j : Json} {config : ZiplogConfig} (h : Accepts j config)
    (hrange : -2 ^ 30 ≤ config.f) : 0 ≤ config.f ∧ 2 * config.f + 1 ≤ config.servers.length := by
  obtain ⟨n, -, hf⟩ := h.f
  have hservers := h.servers
  have hsize := h.size
  unfold maxAddresses at hsize
  unfold wrapInt at hf
  unfold wrapSize serversNeeded wrapInt at hservers
  omega

/-! ## The spelling of addresses -/

theorem text_injective : Function.Injective text := by
  intro s t h
  have hchars := String.ofList_injective h
  refine List.map_injective_iff.mpr (fun c d hcd => ?_) hchars
  have hvalid : ∀ e : UInt8, (Char.ofNat e.toNat).toNat = e.toNat := by
    intro e
    have hlt := e.toNat_lt
    unfold Char.ofNat
    rw [dif_pos (Or.inl (by omega))]
    rfl
  apply UInt8.toNat_inj.mp
  rw [← hvalid c, hcd, hvalid d]

theorem parseAddress_eq_iff {s t : List UInt8} {a : Address} (hs : parseAddress s = .ok a)
    {b : Address} (ht : parseAddress t = .ok b) : a = b ↔ SpellAlike s t := by
  obtain ⟨h, p, n, rfl, hcolon, -, hstoi, -, rfl⟩ := parseAddress_eq_ok_iff.mp hs
  obtain ⟨h', p', n', rfl, hcolon', -, hstoi', -, rfl⟩ := parseAddress_eq_ok_iff.mp ht
  constructor
  · intro heq
    rw [Address.mk.injEq] at heq
    exact ⟨h, p, h', p', rfl, hcolon, rfl, hcolon', text_injective heq.1, by
      rw [hstoi, hstoi', heq.2]⟩
  · rintro ⟨g, q, g', q', hsplit, hq, hsplit', hq', hhost, hport⟩
    obtain ⟨rfl, rfl⟩ := split_unique hcolon hq hsplit
    obtain ⟨rfl, rfl⟩ := split_unique hcolon' hq' hsplit'
    rw [hstoi, hstoi'] at hport
    rw [hhost, Option.some.inj hport]

/-- The addresses of accepted arrays are distinct when no two texts spell one of them. -/
theorem nodup_iff_spelling {strings : List (List UInt8)} {seen seen' : Finset (List UInt8)}
    {result : List Address} (h : Extracted strings seen result seen') :
    result.Nodup ↔ ∀ s ∈ strings, ∀ t ∈ strings, SpellAlike s t → s = t := by
  have hparsed : ∀ s ∈ strings, ∃ a, parseAddress s = .ok a := by
    intro s hs
    have hin : parseAddress s ∈ result.map Except.ok := by
      rw [← h.parsed]
      exact List.mem_map_of_mem hs
    obtain ⟨a, -, ha⟩ := List.mem_map.mp hin
    exact ⟨a, ha.symm⟩
  rw [← List.nodup_map_iff (f := @Except.ok ConfigParseError Address) fun a b => Except.ok.inj,
    ← h.parsed, List.nodup_map_iff_inj_on h.nodup]
  refine forall₂_congr fun s hs => forall₂_congr fun t ht => imp_congr_left ?_
  obtain ⟨a, ha⟩ := hparsed s hs
  obtain ⟨b, hb⟩ := hparsed t ht
  rw [← parseAddress_eq_iff ha hb, ha, hb, Except.ok.injEq]

/-- **When an accepted configuration is sound.** -/
theorem parseConfigJSON_sound_iff (parse : List UInt8 → Except (ℕ × String) Json)
    (jsonStr : List UInt8) (j : Json) (hparse : parse jsonStr = .ok j) (config : ZiplogConfig)
    (h : parseConfigJSON parse jsonStr = .ok config) : config.Sound ↔ j.Plain := by
  unfold parseConfigJSON at h
  rw [hparse] at h
  have haccepts := configOf_ok h
  obtain ⟨seen, hextracted⟩ := haccepts.extracted
  obtain ⟨n, hget, hf⟩ := haccepts.f
  constructor
  · rintro ⟨hnonneg, -, hdistinct⟩
    refine ⟨fun m hm => ?_, (nodup_iff_spelling hextracted).mp hdistinct⟩
    rw [hget, Option.some.injEq, Json.number.injEq] at hm
    rw [← hm, ← hf]
    omega
  · rintro ⟨hrange, hspelling⟩
    have hlow : -2 ^ 30 ≤ config.f := by
      rw [hf]
      exact hrange n hget
    obtain ⟨hnonneg, hservers⟩ := servers_of_accepts haccepts hlow
    exact ⟨hnonneg, hservers, (nodup_iff_spelling hextracted).mpr hspelling⟩

/-- A configuration with the given servers and nothing else that matters. -/
def configWith (f : ℤ) (servers : List (List UInt8)) : Json :=
  .object [("f", .number f), ("max_retries", .number 3), ("zipper", .string (loopback ++ [58, 57])),
    ("proxies", .array []), ("servers", .array (servers.map .string)), ("subscribers", .array [])]

/-- The text of such a configuration with `f` 1. -/
def textWith (servers : String) : List UInt8 :=
  ("\x7b\"f\": 1, \"max_retries\": 3, \"zipper\": \"127.0.0.1:9\", \"proxies\": [], " ++
    "\"servers\": [" ++ servers ++ "], \"subscribers\": []\x7d").toUTF8.data.toList

/-- A library that knows the value of one text only. -/
def parseOnly (jsonStr : List UInt8) (j : Json) (text : List UInt8) : Except (ℕ × String) Json :=
  if text = jsonStr then .ok j else .error (1, "parse error")

theorem parseConfigJSON_parseOnly (jsonStr : List UInt8) (j : Json) :
    parseConfigJSON (parseOnly jsonStr j) jsonStr = configOf j := by
  rw [parseConfigJSON, parseOnly, if_pos rfl]

/-- Three servers at the ports 1 to 3. -/
theorem parseConfigJSON_sound_iff_three :
    ∃ config, parseConfigJSON
        (parseOnly (textWith "\"127.0.0.1:1\", \"127.0.0.1:2\", \"127.0.0.1:3\"")
          (configWith 1 [loopback ++ [58, 49], loopback ++ [58, 50], loopback ++ [58, 51]]))
        (textWith "\"127.0.0.1:1\", \"127.0.0.1:2\", \"127.0.0.1:3\"") = .ok config ∧
      (config.Sound ↔ (configWith 1
        [loopback ++ [58, 49], loopback ++ [58, 50], loopback ++ [58, 51]]).Plain) := by
  have hok : configOf (configWith 1
      [loopback ++ [58, 49], loopback ++ [58, 50], loopback ++ [58, 51]]) = .ok
        ⟨1, 3, 10, 1000, ⟨"127.0.0.1", 9⟩, [],
          [⟨"127.0.0.1", 1⟩, ⟨"127.0.0.1", 2⟩, ⟨"127.0.0.1", 3⟩], []⟩ := by
    decide +kernel
  have hparsed := (parseConfigJSON_parseOnly
    (textWith "\"127.0.0.1:1\", \"127.0.0.1:2\", \"127.0.0.1:3\"") _).trans hok
  exact ⟨_, hparsed, parseConfigJSON_sound_iff _ _ _ (if_pos rfl) _ hparsed⟩

/-- `127.0.0.1:1`, `localhost:1` and `127.0.0.1:01` count as three servers. -/
theorem not_parseConfigJSON_sound :
    ¬∀ (parse : List UInt8 → Except (ℕ × String) Json) (jsonStr : List UInt8)
      (config : ZiplogConfig), parseConfigJSON parse jsonStr = .ok config → config.Sound := by
  intro hall
  have hok : configOf (configWith 1
      [loopback ++ [58, 49], localhost ++ [58, 49], loopback ++ [58, 48, 49]]) = .ok
        ⟨1, 3, 10, 1000, ⟨"127.0.0.1", 9⟩, [],
          [⟨"127.0.0.1", 1⟩, ⟨"127.0.0.1", 1⟩, ⟨"127.0.0.1", 1⟩], []⟩ := by
    decide +kernel
  have hparsed := (parseConfigJSON_parseOnly
    (textWith "\"127.0.0.1:1\", \"localhost:1\", \"127.0.0.1:01\"") _).trans hok
  exact absurd (hall _ _ _ hparsed).distinct (by decide)

/-- A negative `f` for which one server is enough. -/
example : (configOf (configWith (-2 ^ 31) [loopback ++ [58, 49]])).toOption.map ZiplogConfig.f =
    some (-2147483648) := by decide +kernel

end Ziplog
