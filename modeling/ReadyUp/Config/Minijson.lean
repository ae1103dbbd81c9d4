import ReadyUp.Status.JsonText
import ReadyUp.Support.Strto

/-!
# The small JSON reader

`minijson` reads the match configurations. Every number is a double, a code point above ASCII
becomes a question mark, nesting has no bound and of duplicate keys the first one stays.

`ofJson` says what it makes of the text of a status value (`parse_dump`): none if the text holds
a double that `strtod` cannot read without a range error.
-/
namespace ReadyUp.Config.Minijson

open Support JsonScan JsonGrammar

inductive Value where
  | null
  | bool (b : Bool)
  | number (num : Binary64)
  | string (str : Bytes)
  | object (obj : List (Bytes × Value))
  | array (arr : List Value)

namespace Value

/-- `get`: none unless the value is an object. -/
def get (v : Value) (key : String) : Option Value :=
  match v with
  | .object o => o.lookup (ascii key)
  | _ => none

def members : Value → List (Bytes × Value)
  | .object o => o
  | _ => []

def items : Value → List Value
  | .array a => a
  | _ => []

def isObject : Value → Bool
  | .object _ => true
  | _ => false

def asString : Value → Option Bytes
  | .string s => some s
  | _ => none

def asInt : Value → Option ℤ
  | .number d => some d.toInt64
  | _ => none

end Value

section Reader

def escape : Bytes → Option (Bytes × Bytes)
  | [] => none
  | e :: s =>
    if e = byte 'u' then
      (hex4 s).map fun code => ([if code.1 ≤ 0x7F then code.1.toUInt8 else byte '?'], code.2)
    else (unescape e).map fun c => ([c], s)

/-- The exponent that `parseNumber` takes; without digits it means nothing to `strtod`. -/
def exponentPart : Bytes → Option (Bool × Bytes) × Bytes
  | [] => (none, [])
  | c :: s =>
    if c = byte 'e' ∨ c = byte 'E' then
      let (neg, s) := sign s
      let ds := s.takeWhile isDigit
      (if ds = [] then none else some (neg, ds), s.dropWhile isDigit)
    else (none, c :: s)

/-- The text that `parseNumber` takes. -/
def numberToken (s : Bytes) : Option (NumToken × Bytes) :=
  let (neg, s) := numSign s
  let int := s.takeWhile isDigit
  if int = [] then none
  else
    let (frac, s) := fractionPart (s.dropWhile isDigit)
    let (exp, s) := exponentPart s
    some ({ neg, int, frac, exp }, s)

/-- `ERANGE`: the number overflows, or it is too small and was rounded. -/
def rangeError (q : ℚ) : Bool :=
  Binary64.nearest q = Binary64.infMag ∨
    0 < q ∧ q < 2 ^ (-1022 : ℤ) - 2 ^ (-1076 : ℤ) ∧ Binary64.magnitude (Binary64.nearest q) ≠ q

def parseNumber (s : Bytes) : Option (Value × Bytes) :=
  (numberToken s).bind fun t =>
    if rangeError t.1.value then none else some (.number t.1.strtod, t.2)

theorem unescapes : Unescapes escape fun _ => true where
  simple e c s he hc := by
    rw [escape, if_neg he, hc, Option.map_some]
  control c s hc := by
    rw [escape, if_pos rfl, hex4_control hc, Option.map_some]
    simp [Nat.le_of_lt_succ hc]
  raw _ _ := rfl

/-- `emplace`: a key that is there already keeps its value. -/
def emplace (o : List (Bytes × Value)) (k : Bytes) (v : Value) : List (Bytes × Value) :=
  if k ∈ keys o then o else o ++ [(k, v)]

def dialect : Dialect Value where
  string := JsonGrammar.string escape fun _ => true
  number := parseNumber
  null := .null
  bool := .bool
  str := .string
  obj := .object
  arr := .array
  insert := emplace
  string_quoted := string_quoted unescapes
  insert_of_notMem _ _ _ hk := if_neg hk

/-- `Parse`. Every level of nesting takes a byte, so the levels never run out. -/
def parse (json : Bytes) : Option Value := dialect.parse (json.length + 1) json

end Reader

section RoundTrip

theorem exponentPart_text {n : NumToken} (h : n.WellFormed) {t : Bytes} (ht : NumEnd t) :
    exponentPart (n.expText ++ t) = (n.exp, t) := by
  rw [NumToken.expText]
  cases hexp : n.exp with
  | none =>
    cases t with
    | nil => rfl
    | cons c t =>
      obtain ⟨-, -, he, hE⟩ := ht c rfl
      simp [exponentPart, he, hE]
  | some e =>
    obtain ⟨neg, ds⟩ := e
    obtain ⟨hne, hdigits⟩ := h.2.2 _ hexp
    have hsign : sign ((if neg then byte '-' else byte '+') :: (ds ++ t)) = (neg, ds ++ t) := by
      cases neg <;> rfl
    obtain ⟨htake, hdrop⟩ := takeWhile_digits hdigits fun c hc => (ht c hc).1
    simp only [List.cons_append, exponentPart, hsign, htake, hdrop]
    simp [hne]

theorem numberToken_text {n : NumToken} (h : n.WellFormed) {t : Bytes} (ht : NumEnd t) :
    numberToken (n.text ++ t) = some (n, t) := by
  obtain ⟨htake, hdrop⟩ := takeWhile_digits h.1.2 (head_fracText (n := n) ht)
  rw [numberToken, numSign_text h]
  simp only [htake, hdrop, h.1.1, if_false]
  rw [fractionPart_text h (head_expText ht), exponentPart_text h ht]

theorem parseNumber_text {n : NumToken} (h : n.WellFormed) {t : Bytes} (ht : NumEnd t) :
    parseNumber (n.text ++ t) =
      (if rangeError n.value then none else some (.number n.strtod)).map (·, t) := by
  rw [parseNumber, numberToken_text h ht, Option.bind_some]
  split_ifs <;> rfl

theorem rangeError_intToken {i : ℤ} (h : InInt64 i) : rangeError (intToken i).value = false := by
  rw [value_intToken]
  have hlt : ((i.natAbs : ℕ) : ℚ) < 2 ^ 64 := by
    have : i.natAbs < 2 ^ 64 := by
      obtain ⟨hlow, hhigh⟩ := h
      omega
    exact_mod_cast this
  have hfinite := (Binary64.nearest_lt_infMag (Nat.cast_nonneg _) hlt).ne
  have hnormal : ¬(0 < (i.natAbs : ℚ) ∧ (i.natAbs : ℚ) < 2 ^ (-1022 : ℤ) - 2 ^ (-1076 : ℤ)) := by
    rintro ⟨hpos, hsmall⟩
    have hone : (1 : ℚ) ≤ i.natAbs := by
      have : 0 < i.natAbs := by exact_mod_cast hpos
      exact_mod_cast this
    have htwo : (2 : ℚ) ^ (-1022 : ℤ) ≤ 1 := zpow_le_one_of_nonpos₀ (by norm_num) (by norm_num)
    have hpow : (0 : ℚ) < 2 ^ (-1076 : ℤ) := by positivity
    linarith
  rw [rangeError, decide_eq_false_iff_not]
  rintro (hinf | ⟨hpos, hsmall, -⟩)
  · exact hfinite hinf
  · exact hnormal ⟨hpos, hsmall⟩

/-- What is read of an integer of a status value. -/
def ofInt (i : ℤ) : Option Value := some (.number (Binary64.ofInt i))

/-- What is read of a finite double of a status value. -/
def ofDouble (d : Binary64) : Option Value :=
  if rangeError (d.formatG 10).value then none else some (.number (d.formatG 10).strtod)

/-- What is read of the text of a status value. -/
def ofJson (v : Status.Json) : Option Value := v.readAs dialect ofInt ofDouble

/-- The text of a status value, with strings in any quotes that are read back. -/
theorem parse_textBy {q : Bytes → Bytes} (hq : dialect.Quotes q) {v : Status.Json}
    (hkeys : v.UniqueKeys) (hrange : v.InRange) : parse (v.textBy q) = ofJson v := by
  have hint : ∀ i, InInt64 i → ∀ t, Dialect.Ends t →
      dialect.number (toDecimal i ++ t) = (ofInt i).map (·, t) := by
    intro i hi t ht
    rw [← intToken_text]
    refine (parseNumber_text (intToken_wellFormed i) ht.numEnd).trans ?_
    rw [rangeError_intToken hi, strtod_intToken]
    rfl
  have hdouble : ∀ d : Binary64, d.isFinite = true → Dialect.StartsNumber (d.formatG 10).text ∧
      ∀ t, Dialect.Ends t → dialect.number ((d.formatG 10).text ++ t) =
        (ofDouble d).map (·, t) := by
    intro d _
    refine ⟨text_head (d.formatG_wellFormed 10), ?_⟩
    intro t ht
    exact parseNumber_text (d.formatG_wellFormed 10) ht.numEnd
  exact (Status.Json.readsBy_textBy dialect ofInt ofDouble q hkeys hrange hint (.inr hdouble)
    (v.depth_le_length_textBy q)).parse hq

theorem parse_dump {v : Status.Json} (hkeys : v.UniqueKeys) (hrange : v.InRange) :
    parse v.dump = ofJson v := by
  rw [← Status.Json.textBy_quoted]
  exact parse_textBy Dialect.quotes_quoted hkeys hrange

mutual

/-- What is read of a value without doubles. -/
def ofPlain : Status.Json → Value
  | .null => .null
  | .bool b => .bool b
  | .int i => .number (Binary64.ofInt i)
  | .double _ => .null
  | .string s => .string s
  | .object ms => .object (ofPlainMembers ms)
  | .array vs => .array (ofPlainItems vs)

def ofPlainMembers : List (Bytes × Status.Json) → List (Bytes × Value)
  | [] => []
  | (k, v) :: ms => (k, ofPlain v) :: ofPlainMembers ms

def ofPlainItems : List Status.Json → List Value
  | [] => []
  | v :: vs => ofPlain v :: ofPlainItems vs

end

@[simp] theorem ofPlainMembers_eq (ms : List (Bytes × Status.Json)) :
    ofPlainMembers ms = ms.map fun kv => (kv.1, ofPlain kv.2) := by
  induction ms with
  | nil => rfl
  | cons kv ms ih => rw [ofPlainMembers, ih, List.map_cons]

@[simp] theorem ofPlainItems_eq (vs : List Status.Json) : ofPlainItems vs = vs.map ofPlain := by
  induction vs with
  | nil => rfl
  | cons v vs ih => rw [ofPlainItems, ih, List.map_cons]

theorem ofJson_of_noDoubles {v : Status.Json} (h : v.NoDoubles) : ofJson v = some (ofPlain v) := by
  rw [ofJson]
  induction v with
  | double d => cases h
  | object ms ih =>
    have hmembers :
        Status.Json.readMembersAs dialect ofInt ofDouble ms = some (ofPlainMembers ms) := by
      have hms := (Status.Json.all_object.mp h).2
      clear h
      induction ms with
      | nil => rfl
      | cons kv ms ihms =>
        obtain ⟨k, v⟩ := kv
        rw [Status.Json.readMembersAs, ih k v List.mem_cons_self (hms k v List.mem_cons_self),
          ihms (fun j w hmem => ih j w (List.mem_cons_of_mem _ hmem))
            fun j w hmem => hms j w (List.mem_cons_of_mem _ hmem)]
        rfl
    rw [Status.Json.readAs, hmembers]
    rfl
  | array vs ih =>
    have hitems : Status.Json.readItemsAs dialect ofInt ofDouble vs = some (ofPlainItems vs) := by
      have hvs := (Status.Json.all_array.mp h).2
      clear h
      induction vs with
      | nil => rfl
      | cons v vs ihvs =>
        rw [Status.Json.readItemsAs, ih v List.mem_cons_self (hvs v List.mem_cons_self),
          ihvs (fun w hmem => ih w (List.mem_cons_of_mem _ hmem))
            fun w hmem => hvs w (List.mem_cons_of_mem _ hmem)]
        rfl
    rw [Status.Json.readAs, hitems]
    rfl
  | _ => rfl

theorem parse_plain {q : Bytes → Bytes} (hq : dialect.Quotes q) {v : Status.Json} (h : v.Plain) :
    parse (v.textBy q) = some (ofPlain v) := by
  rw [parse_textBy hq h.uniqueKeys h.inRange, ofJson_of_noDoubles h.noDoubles]

theorem quotes_flatMap {f : UInt8 → Bytes} (h : ∀ c, Escaped escape (fun _ => true) c (f c)) :
    dialect.Quotes fun x => byte '"' :: (x.flatMap f ++ [byte '"']) :=
  ⟨fun _ => ⟨_, rfl⟩, string_flatMap h⟩

end RoundTrip

section Members

open Status (Json)

theorem lookup_of_readMembers {ms : List (Bytes × Json)} {o : List (Bytes × Value)}
    (h : Json.readMembersAs dialect ofInt ofDouble ms = some o) (k : Bytes) :
    o.lookup k = (ms.lookup k).bind ofJson := by
  induction ms generalizing o with
  | nil =>
    obtain rfl : [] = o := Option.some.inj h
    rfl
  | cons kv ms ih =>
    obtain ⟨j, v⟩ := kv
    rw [Json.readMembersAs, Option.bind_eq_some_iff] at h
    obtain ⟨x, hx, hrest⟩ := h
    obtain ⟨o', ho', rfl⟩ := Option.map_eq_some_iff.mp hrest
    rw [lookup_cons_eq, lookup_cons_eq]
    split_ifs
    · exact hx.symm
    · exact ih ho'

theorem keys_of_readMembers {ms : List (Bytes × Json)} {o : List (Bytes × Value)}
    (h : Json.readMembersAs dialect ofInt ofDouble ms = some o) : keys o = keys ms := by
  induction ms generalizing o with
  | nil =>
    obtain rfl : [] = o := Option.some.inj h
    rfl
  | cons kv ms ih =>
    obtain ⟨j, v⟩ := kv
    rw [Json.readMembersAs, Option.bind_eq_some_iff] at h
    obtain ⟨x, hx, hrest⟩ := h
    obtain ⟨o', ho', rfl⟩ := Option.map_eq_some_iff.mp hrest
    rw [keys_cons, keys_cons, ih ho']

theorem isObject_ofJson {v : Json} {x : Value} (h : ofJson v = some x) :
    x.isObject = v.isObject := by
  cases v with
  | object ms =>
    obtain ⟨o, -, rfl⟩ := Option.map_eq_some_iff.mp h
    rfl
  | array vs =>
    obtain ⟨o, -, rfl⟩ := Option.map_eq_some_iff.mp h
    rfl
  | double d =>
    rw [ofJson, Json.readAs] at h
    split_ifs at h
    · rw [ofDouble] at h
      split_ifs at h
      cases h
      rfl
    · cases h
      rfl
  | int i =>
    cases h
    rfl
  | null =>
    cases h
    rfl
  | bool b =>
    cases h
    rfl
  | string s =>
    cases h
    rfl

theorem keys_members_ofJson {v : Json} {x : Value} (h : ofJson v = some x) :
    keys x.members = keys v.members := by
  cases v with
  | object ms =>
    obtain ⟨o, ho, rfl⟩ := Option.map_eq_some_iff.mp h
    exact keys_of_readMembers ho
  | _ =>
    have hx := isObject_ofJson h
    cases x with
    | object o => cases hx
    | _ => rfl

theorem get_ofJson {v : Json} {x : Value} (h : ofJson v = some x) (key : String) :
    x.get key = (v.find (ascii key)).bind ofJson := by
  cases hv : v.isObject with
  | true =>
    cases v with
    | object ms =>
      obtain ⟨o, ho, rfl⟩ := Option.map_eq_some_iff.mp h
      exact lookup_of_readMembers ho (ascii key)
    | _ => cases hv
  | false =>
    have hx := (isObject_ofJson h).trans hv
    have hfind : v.find (ascii key) = none := by
      cases v with
      | object ms => cases hv
      | _ => rfl
    rw [hfind]
    cases x with
    | object o => cases hx
    | _ => rfl

end Members

end ReadyUp.Config.Minijson
