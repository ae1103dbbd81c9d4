import ReadyUp.Status.Json
import ReadyUp.Support.JsonGrammar

/-!
# The JSON reader and writer of the status library

`dump` writes a value and `parse` reads one from text. Doubles are written with ten digits, so
they may come back changed; every other value comes back as it was (`json_roundTrip`), as long as
it is not nested too deep for the reader.
-/
namespace ReadyUp.Status.Json

open Support JsonScan JsonGrammar

section Writer

mutual

def dump : Json → Bytes
  | .null => ascii "null"
  | .bool b => ascii (if b then "true" else "false")
  | .int i => toDecimal i
  | .double d => if d.isFinite then (d.formatG 10).text else ascii "null"
  | .string s => quoted s
  | .object ms => byte '{' :: (dumpMembers ms ++ [byte '}'])
  | .array vs => byte '[' :: (dumpItems vs ++ [byte ']'])

def dumpMembers : List (Bytes × Json) → Bytes
  | [] => []
  | (k, v) :: ms =>
    quoted k ++ byte ':' :: (dump v ++ if ms.isEmpty then [] else byte ',' :: dumpMembers ms)

def dumpItems : List Json → Bytes
  | [] => []
  | v :: vs => dump v ++ if vs.isEmpty then [] else byte ',' :: dumpItems vs

end

variable (q : Bytes → Bytes)

mutual

/-- The text of a writer that puts strings in quotes in its own way. -/
def textBy : Json → Bytes
  | .null => ascii "null"
  | .bool b => ascii (if b then "true" else "false")
  | .int i => toDecimal i
  | .double d => if d.isFinite then (d.formatG 10).text else ascii "null"
  | .string s => q s
  | .object ms => byte '{' :: (textByMembers ms ++ [byte '}'])
  | .array vs => byte '[' :: (textByItems vs ++ [byte ']'])

def textByMembers : List (Bytes × Json) → Bytes
  | [] => []
  | (k, v) :: ms =>
    q k ++ byte ':' :: (textBy v ++ if ms.isEmpty then [] else byte ',' :: textByMembers ms)

def textByItems : List Json → Bytes
  | [] => []
  | v :: vs => textBy v ++ if vs.isEmpty then [] else byte ',' :: textByItems vs

end

theorem textBy_quoted (v : Json) : textBy quoted v = dump v := by
  induction v with
  | object ms ih =>
    have hms : textByMembers quoted ms = dumpMembers ms := by
      induction ms with
      | nil => rfl
      | cons kv ms ihms =>
        obtain ⟨k, v⟩ := kv
        rw [textByMembers, dumpMembers, ih k v List.mem_cons_self,
          ihms fun j w hmem => ih j w (List.mem_cons_of_mem _ hmem)]
    rw [textBy, dump, hms]
  | array vs ih =>
    have hvs : textByItems quoted vs = dumpItems vs := by
      induction vs with
      | nil => rfl
      | cons v vs ihvs =>
        rw [textByItems, dumpItems, ih v List.mem_cons_self,
          ihvs fun w hmem => ih w (List.mem_cons_of_mem _ hmem)]
    rw [textBy, dump, hvs]
  | _ => rw [textBy, dump]

end Writer

section Reader

/-- An escape after its backslash. A high surrogate takes a second escape with it, which is
dropped unless it is a low one. -/
def escape : Bytes → Option (Bytes × Bytes)
  | [] => none
  | e :: s =>
    if e = byte 'u' then
      (hex4 s).bind fun cp =>
        if isHighSurrogate cp.1 ∧ 6 ≤ cp.2.length ∧ [byte '\\', byte 'u'] <+: cp.2 then
          (hex4 (cp.2.drop 2)).map fun lo =>
            if isLowSurrogate lo.1
            then (putUtf8 (0x10000 + (cp.1 - 0xD800) * 1024 + (lo.1 - 0xDC00)), lo.2)
            else (putUtf8 cp.1, lo.2)
        else some (putUtf8 cp.1, cp.2)
    else (unescape e).map fun c => ([c], s)

/-- A byte that may stand in a string by itself. -/
def isRaw (c : UInt8) : Bool := !(c < 0x20)

/-- What `Num` takes, whether it makes a number or not. -/
def isNumByte (c : UInt8) : Bool :=
  isDigit c || c == byte '.' || c == byte 'e' || c == byte 'E' || c == byte '+' || c == byte '-'

/-- The value of a number: what is no integer of 64 bits is read as a double. -/
def numValue (t : Bytes) : Option Json :=
  match wholeInt t with
  | some n => if InInt64 n.toInt then some (.int n.toInt) else some (.double n.strtod)
  | none => (wholeFloat t).map fun n => .double n.strtod

/-- `Num` -/
def number (s : Bytes) : Option (Json × Bytes) :=
  (numValue (s.takeWhile isNumByte)).map fun v => (v, s.dropWhile isNumByte)

theorem unescapes : Unescapes escape isRaw where
  simple e c s he hc := by
    rw [escape, if_neg he, hc, Option.map_some]
  control c s hc := by
    have hhigh : isHighSurrogate c.toNat = false := by
      simp [isHighSurrogate]
      omega
    rw [escape, if_pos rfl, hex4_control hc, Option.bind_some]
    simp [hhigh, putUtf8, hc]
  raw c hc := by simp [isRaw, hc]

/-- The reader of the status library; of duplicate keys the last one wins. -/
def dialect : Dialect Json where
  string := JsonGrammar.string escape isRaw
  number := number
  null := .null
  bool := .bool
  str := .string
  obj := .object
  arr := .array
  insert := assign
  string_quoted := string_quoted unescapes
  insert_of_notMem _ _ v hk := assign_of_notMem hk v

def parse (text : Bytes) : Option Json := dialect.parse 65 text

end Reader

section Shape

mutual

/-- How many levels the deepest value in it is below the value. -/
def depth : Json → ℕ
  | .object ms => depthMembers ms
  | .array vs => depthItems vs
  | _ => 0

/-- The same for the object that has the members. -/
def depthMembers : List (Bytes × Json) → ℕ
  | [] => 0
  | (_, v) :: ms => max (depth v + 1) (depthMembers ms)

def depthItems : List Json → ℕ
  | [] => 0
  | v :: vs => max (depth v + 1) (depthItems vs)

end

def isDouble : Json → Bool
  | .double _ => true
  | _ => false

/-- An integer is a `long long`. -/
def inRange : Json → Bool
  | .int i => InInt64 i
  | _ => true

/-- No number in the value is a double. -/
def NoDoubles (v : Json) : Prop := (v.all fun w => !w.isDouble) = true

/-- The integers in the value are those of a `long long`. -/
def InRange (v : Json) : Prop := v.all inRange = true

instance (v : Json) : Decidable v.NoDoubles := inferInstanceAs (Decidable (_ = true))

instance (v : Json) : Decidable v.InRange := inferInstanceAs (Decidable (_ = true))

theorem depthMembers_le {ms : List (Bytes × Json)} {n : ℕ} :
    depthMembers ms ≤ n ↔ ∀ k v, (k, v) ∈ ms → v.depth + 1 ≤ n := by
  induction ms with
  | nil => simp [depthMembers]
  | cons kv ms ih =>
    obtain ⟨k, v⟩ := kv
    rw [depthMembers, max_le_iff, ih]
    constructor
    · rintro ⟨hv, hms⟩ j w h
      rcases List.mem_cons.mp h with heq | h
      · obtain ⟨rfl, rfl⟩ := Prod.mk.inj heq
        exact hv
      · exact hms j w h
    · intro h
      exact ⟨h k v List.mem_cons_self, fun j w hm => h j w (List.mem_cons_of_mem _ hm)⟩

theorem depthItems_le {vs : List Json} {n : ℕ} : depthItems vs ≤ n ↔ ∀ v ∈ vs, v.depth + 1 ≤ n := by
  induction vs with
  | nil => simp [depthItems]
  | cons v vs ih => simp [depthItems, ih]

theorem depth_object_le {ms : List (Bytes × Json)} {n : ℕ} (h : ∀ kv ∈ ms, kv.2.depth + 1 ≤ n) :
    (Json.object ms).depth ≤ n := depthMembers_le.mpr fun _ _ hmem => h _ hmem

theorem depth_array_le {vs : List Json} {n : ℕ} (h : ∀ v ∈ vs, v.depth + 1 ≤ n) :
    (Json.array vs).depth ≤ n := depthItems_le.mpr h

/-- What every writer can write and every reader read: distinct keys and integers in range. -/
structure Plain (v : Json) : Prop where
  uniqueKeys : v.UniqueKeys
  inRange : v.InRange
  noDoubles : v.NoDoubles

theorem plain_bool (b : Bool) : (Json.bool b).Plain := ⟨rfl, rfl, rfl⟩

theorem plain_string (s : Bytes) : (Json.string s).Plain := ⟨rfl, rfl, rfl⟩

theorem plain_int {i : ℤ} (h : InInt64 i) : (Json.int i).Plain := ⟨rfl, decide_eq_true h, rfl⟩

theorem plain_object {ms : List (Bytes × Json)} (hkeys : (keys ms).Nodup)
    (h : ∀ k v, (k, v) ∈ ms → v.Plain) : (Json.object ms).Plain where
  uniqueKeys := uniqueKeys_object.mpr ⟨hkeys, fun k v hmem => (h k v hmem).uniqueKeys⟩
  inRange := all_object.mpr ⟨rfl, fun k v hmem => (h k v hmem).inRange⟩
  noDoubles := all_object.mpr ⟨rfl, fun k v hmem => (h k v hmem).noDoubles⟩

theorem plain_array {vs : List Json} (h : ∀ v ∈ vs, v.Plain) : (Json.array vs).Plain where
  uniqueKeys := uniqueKeys_array.mpr fun v hmem => (h v hmem).uniqueKeys
  inRange := all_array.mpr ⟨rfl, fun v hmem => (h v hmem).inRange⟩
  noDoubles := all_array.mpr ⟨rfl, fun v hmem => (h v hmem).noDoubles⟩

/-- Distinct keys and no doubles: the shape of a document that is written field by field. -/
def Regular (v : Json) : Prop := v.UniqueKeys ∧ v.NoDoubles

@[simp] theorem regular_bool (b : Bool) : (Json.bool b).Regular := ⟨rfl, rfl⟩

@[simp] theorem regular_int (i : ℤ) : (Json.int i).Regular := ⟨rfl, rfl⟩

@[simp] theorem regular_string (s : Bytes) : (Json.string s).Regular := ⟨rfl, rfl⟩

theorem regular_object {ms : List (Bytes × Json)} (hkeys : (keys ms).Nodup)
    (h : ∀ kv ∈ ms, kv.2.Regular) : (Json.object ms).Regular :=
  ⟨uniqueKeys_object.mpr ⟨hkeys, fun _ _ hmem => (h _ hmem).1⟩,
    all_object.mpr ⟨rfl, fun _ _ hmem => (h _ hmem).2⟩⟩

theorem regular_array {vs : List Json} (h : ∀ v ∈ vs, v.Regular) : (Json.array vs).Regular :=
  ⟨uniqueKeys_array.mpr fun v hmem => (h v hmem).1,
    all_array.mpr ⟨rfl, fun v hmem => (h v hmem).2⟩⟩

theorem regular_map {α : Type*} {l : List α} {f : α → Json} (h : ∀ a ∈ l, (f a).Regular) :
    (Json.array (l.map f)).Regular := regular_array (List.forall_mem_map.mpr h)

def isInt32 : Json → Bool
  | .int i => InInt32 i
  | _ => true

/-- The integers in the value are those of an `int`. -/
def Ints (v : Json) : Prop := v.all isInt32 = true

instance (v : Json) : Decidable v.Ints := inferInstanceAs (Decidable (_ = true))

theorem Ints.member {ms : List (Bytes × Json)} (h : (Json.object ms).Ints) {k : Bytes} {v : Json}
    (hmem : (k, v) ∈ ms) : v.Ints := (all_object.mp h).2 k v hmem

theorem Ints.item {vs : List Json} (h : (Json.array vs).Ints) {v : Json} (hmem : v ∈ vs) : v.Ints :=
  (all_array.mp h).2 v hmem

theorem Ints.inRange {v : Json} (h : v.Ints) : v.InRange := by
  induction v with
  | int i => exact decide_eq_true (of_decide_eq_true h : InInt32 i).inInt64
  | object ms ih => exact all_object.mpr ⟨rfl, fun k v hmem => ih k v hmem (h.member hmem)⟩
  | array vs ih => exact all_array.mpr ⟨rfl, fun v hmem => ih v hmem (h.item hmem)⟩
  | _ => rfl

theorem Regular.plain {v : Json} (h : v.Regular) (hints : v.Ints) : v.Plain :=
  ⟨h.1, hints.inRange, h.2⟩

section Length

variable (q : Bytes → Bytes)

theorem length_textBy_le_members {ms : List (Bytes × Json)} {k : Bytes} {v : Json}
    (h : (k, v) ∈ ms) : (textBy q v).length ≤ (textByMembers q ms).length := by
  induction ms with
  | nil => cases h
  | cons kv ms ih =>
    obtain ⟨j, w⟩ := kv
    rw [textByMembers, List.length_append, List.length_cons, List.length_append]
    rcases List.mem_cons.mp h with heq | h
    · obtain ⟨-, rfl⟩ := Prod.mk.inj heq
      omega
    · have htail := ih h
      have hne : ms.isEmpty = false := by
        cases ms with
        | nil => cases h
        | cons _ _ => rfl
      rw [hne, if_neg (by decide), List.length_cons]
      omega

theorem length_textBy_le_items {vs : List Json} {v : Json} (h : v ∈ vs) :
    (textBy q v).length ≤ (textByItems q vs).length := by
  induction vs with
  | nil => cases h
  | cons w vs ih =>
    rw [textByItems, List.length_append]
    rcases List.mem_cons.mp h with rfl | h
    · omega
    · have htail := ih h
      have hne : vs.isEmpty = false := by
        cases vs with
        | nil => cases h
        | cons _ _ => rfl
      rw [hne, if_neg (by decide), List.length_cons]
      omega

theorem depth_le_length_textBy (v : Json) : v.depth ≤ (textBy q v).length := by
  induction v with
  | object ms ih =>
    rw [depth, depthMembers_le]
    intro k v hmem
    have hv := ih k v hmem
    have hlen := length_textBy_le_members q hmem
    rw [textBy, List.length_cons, List.length_append]
    omega
  | array vs ih =>
    rw [depth, depthItems_le]
    intro v hmem
    have hv := ih v hmem
    have hlen := length_textBy_le_items q hmem
    rw [textBy, List.length_cons, List.length_append]
    omega
  | _ => exact Nat.zero_le _

theorem depth_le_length_dump (v : Json) : v.depth ≤ v.dump.length := by
  rw [← textBy_quoted]
  exact v.depth_le_length_textBy quoted

end Length

end Shape

section Read

variable {α : Type} (D : Dialect α) (int : ℤ → Option α) (double : Binary64 → Option α)

mutual

/-- What a reader makes of the text of a value, given what it makes of the numbers. -/
def readAs : Json → Option α
  | .null => some D.null
  | .bool b => some (D.bool b)
  | .int i => int i
  | .double d => if d.isFinite then double d else some D.null
  | .string s => some (D.str s)
  | .object ms => (readMembersAs ms).map D.obj
  | .array vs => (readItemsAs vs).map D.arr

def readMembersAs : List (Bytes × Json) → Option (List (Bytes × α))
  | [] => some []
  | (k, v) :: ms => (readAs v).bind fun x => (readMembersAs ms).map ((k, x) :: ·)

def readItemsAs : List Json → Option (List α)
  | [] => some []
  | v :: vs => (readAs v).bind fun x => (readItemsAs vs).map (x :: ·)

end

variable (q : Bytes → Bytes)

/-- The members of an object with their texts and what is read of them. -/
def memberReads (ms : List (Bytes × Json)) : List (Bytes × Bytes × Option α) :=
  ms.map fun kv => (kv.1, textBy q kv.2, readAs D int double kv.2)

def itemReads (vs : List Json) : List (Bytes × Option α) :=
  vs.map fun v => (textBy q v, readAs D int double v)

theorem keys_memberReads (ms : List (Bytes × Json)) :
    keys (memberReads D int double q ms) = keys ms := by
  rw [keys, memberReads, List.map_map]
  rfl

theorem memberTextsBy_memberReads (ms : List (Bytes × Json)) :
    Dialect.memberTextsBy q (memberReads D int double q ms) = textByMembers q ms := by
  induction ms with
  | nil => rfl
  | cons kv ms ih =>
    obtain ⟨k, v⟩ := kv
    have hempty : (memberReads D int double q ms).isEmpty = ms.isEmpty := List.isEmpty_map
    rw [textByMembers, ← ih, ← hempty]
    rfl

theorem itemTexts_itemReads (vs : List Json) :
    Dialect.itemTexts (itemReads D int double q vs) = textByItems q vs := by
  induction vs with
  | nil => rfl
  | cons v vs ih =>
    have hempty : (itemReads D int double q vs).isEmpty = vs.isEmpty := List.isEmpty_map
    rw [textByItems, ← ih, ← hempty]
    rfl

theorem memberValues_memberReads (ms : List (Bytes × Json)) :
    Dialect.memberValues (memberReads D int double q ms) = readMembersAs D int double ms := by
  induction ms with
  | nil => rfl
  | cons kv ms ih =>
    obtain ⟨k, v⟩ := kv
    rw [readMembersAs, ← ih]
    rfl

theorem itemValues_itemReads (vs : List Json) :
    Dialect.itemValues (itemReads D int double q vs) = readItemsAs D int double vs := by
  induction vs with
  | nil => rfl
  | cons v vs ih =>
    rw [readItemsAs, ← ih]
    rfl

theorem startsNumber_text {n : NumToken} (h : n.WellFormed) :
    Dialect.StartsNumber n.text := text_head h

theorem readsBy_textBy {v : Json} (hkeys : v.UniqueKeys) (hrange : v.InRange)
    (hint : ∀ i, InInt64 i → ∀ t, Dialect.Ends t → D.number (toDecimal i ++ t) = (int i).map (·, t))
    (hdouble : v.NoDoubles ∨ ∀ d : Binary64, d.isFinite = true →
      Dialect.StartsNumber (d.formatG 10).text ∧
        ∀ t, Dialect.Ends t → D.number ((d.formatG 10).text ++ t) = (double d).map (·, t))
    {levels : ℕ} (hdepth : v.depth ≤ levels) :
    D.ReadsBy q (levels + 1) (textBy q v) (readAs D int double v) := by
  induction v generalizing levels with
  | null =>
    rw [textBy, readAs]
    exact .null
  | bool b =>
    rw [textBy, readAs]
    exact .bool b
  | int i =>
    rw [textBy, readAs]
    refine .num ?_ (hint i (of_decide_eq_true hrange))
    rw [← intToken_text]
    exact startsNumber_text (intToken_wellFormed i)
  | double d =>
    rw [textBy, readAs]
    rcases hdouble with hnone | hdouble
    · cases hnone
    · split_ifs with hfin
      · exact .num (hdouble d hfin).1 (hdouble d hfin).2
      · exact .null
  | string s =>
    rw [textBy, readAs]
    exact .str s
  | object ms ih =>
    obtain ⟨hnodup, hkeys⟩ := uniqueKeys_object.mp hkeys
    have hrange := (all_object.mp hrange).2
    rw [depth, depthMembers_le] at hdepth
    rw [textBy, readAs, ← memberTextsBy_memberReads D int double q, ← memberValues_memberReads]
    refine .obj (by rwa [keys_memberReads D int double q]) ?_
    intro m hmem
    obtain ⟨⟨k, v⟩, hv, rfl⟩ := List.mem_map.mp hmem
    have hlevel := hdepth k v hv
    obtain ⟨n, rfl⟩ := Nat.exists_eq_add_of_le' (Nat.one_le_of_lt hlevel)
    exact ih k v hv (hkeys k v hv) (hrange k v hv)
      (hdouble.imp_left fun hnone => (all_object.mp hnone).2 k v hv) (Nat.le_of_succ_le_succ hlevel)
  | array vs ih =>
    have hkeys := uniqueKeys_array.mp hkeys
    have hrange := (all_array.mp hrange).2
    rw [depth, depthItems_le] at hdepth
    rw [textBy, readAs, ← itemTexts_itemReads D int double q, ← itemValues_itemReads]
    refine .arr ?_
    intro a hmem
    obtain ⟨v, hv, rfl⟩ := List.mem_map.mp hmem
    have hlevel := hdepth v hv
    obtain ⟨n, rfl⟩ := Nat.exists_eq_add_of_le' (Nat.one_le_of_lt hlevel)
    exact ih v hv (hkeys v hv) (hrange v hv)
      (hdouble.imp_left fun hnone => (all_array.mp hnone).2 v hv) (Nat.le_of_succ_le_succ hlevel)

theorem reads_dump {v : Json} (hkeys : v.UniqueKeys) (hrange : v.InRange)
    (hint : ∀ i, InInt64 i → ∀ t, Dialect.Ends t → D.number (toDecimal i ++ t) = (int i).map (·, t))
    (hdouble : v.NoDoubles ∨ ∀ d : Binary64, d.isFinite = true →
      Dialect.StartsNumber (d.formatG 10).text ∧
        ∀ t, Dialect.Ends t → D.number ((d.formatG 10).text ++ t) = (double d).map (·, t))
    {levels : ℕ} (hdepth : v.depth ≤ levels) :
    D.Reads (levels + 1) (dump v) (readAs D int double v) := by
  rw [← Dialect.readsBy_quoted_iff, ← textBy_quoted]
  exact readsBy_textBy D int double quoted hkeys hrange hint hdouble hdepth

end Read

section RoundTrip

theorem isNumByte_digit {c : UInt8} (h : isDigit c = true) : isNumByte c = true := by
  simp [isNumByte, h]

theorem not_isNumByte_of_ends {t : Bytes} (h : Dialect.Ends t) :
    t.takeWhile isNumByte = [] ∧ t.dropWhile isNumByte = t := by
  cases t with
  | nil => exact ⟨rfl, rfl⟩
  | cons c t =>
    have hc : isNumByte c = false := by
      rcases h c rfl with rfl | rfl | rfl <;> decide
    simp [hc]

theorem number_toDecimal {i : ℤ} (h : InInt64 i) {t : Bytes} (ht : Dialect.Ends t) :
    number (toDecimal i ++ t) = some (.int i, t) := by
  have hbytes : ∀ c ∈ toDecimal i, isNumByte c = true := by
    intro c hc
    rcases List.mem_append.mp hc with hc | hc
    · split_ifs at hc
      · rw [List.mem_singleton.mp hc]
        decide
      · cases hc
    · exact isNumByte_digit (decimal_isDigit _ c hc)
  obtain ⟨htake, hdrop⟩ := not_isNumByte_of_ends ht
  rw [number, List.takeWhile_append_of_pos hbytes, List.dropWhile_append_of_pos hbytes,
    htake, hdrop, List.append_nil, numValue, wholeInt_toDecimal]
  simp only [toInt_intToken, if_pos h, Option.map_some]

theorem readMembersAs_eq_self {double : Binary64 → Option Json} {ms : List (Bytes × Json)}
    (h : ∀ k v, (k, v) ∈ ms → readAs dialect (some ∘ .int) double v = some v) :
    readMembersAs dialect (some ∘ .int) double ms = some ms := by
  induction ms with
  | nil => rfl
  | cons kv ms ih =>
    obtain ⟨k, v⟩ := kv
    rw [readMembersAs, h k v List.mem_cons_self, ih fun j w hm => h j w (List.mem_cons_of_mem _ hm)]
    rfl

theorem readItemsAs_eq_self {double : Binary64 → Option Json} {vs : List Json}
    (h : ∀ v ∈ vs, readAs dialect (some ∘ .int) double v = some v) :
    readItemsAs dialect (some ∘ .int) double vs = some vs := by
  induction vs with
  | nil => rfl
  | cons v vs ih =>
    rw [readItemsAs, h v List.mem_cons_self, ih fun w hm => h w (List.mem_cons_of_mem _ hm)]
    rfl

theorem readAs_eq_self {double : Binary64 → Option Json} {v : Json} (h : v.NoDoubles) :
    readAs dialect (some ∘ .int) double v = some v := by
  induction v with
  | double d => cases h
  | object ms ih =>
    have hmembers := (all_object.mp h).2
    rw [readAs, readMembersAs_eq_self fun k v hmem => ih k v hmem (hmembers k v hmem)]
    rfl
  | array vs ih =>
    have hitems := (all_array.mp h).2
    rw [readAs, readItemsAs_eq_self fun v hmem => ih v hmem (hitems v hmem)]
    rfl
  | _ => rw [readAs]; rfl

theorem noNaN_of_noDoubles {v : Json} (h : v.NoDoubles) : v.NoNaN := by
  induction v with
  | double d => cases h
  | object ms ih =>
    rw [noNaN_object]
    exact fun k v hmem => ih k v hmem ((all_object.mp h).2 k v hmem)
  | array vs ih =>
    rw [noNaN_array]
    exact fun v hmem => ih v hmem ((all_array.mp h).2 v hmem)
  | _ => rfl

theorem parse_dump_eq {v : Json} (hdoubles : v.NoDoubles) (hrange : v.InRange)
    (hkeys : v.UniqueKeys) (hdepth : v.depth ≤ 64) : parse v.dump = some v := by
  have hreads := reads_dump dialect (some ∘ .int) (fun _ => none) hkeys hrange
    (fun _ hi _ ht => number_toDecimal hi ht) (.inl hdoubles) hdepth
  rw [readAs_eq_self hdoubles] at hreads
  exact hreads.parse

/-- What is written is read back: the same value, equal to itself in the sense of `operator==`. -/
theorem json_roundTrip {v : Json} (hdoubles : v.NoDoubles) (hrange : v.InRange)
    (hkeys : v.UniqueKeys) (hdepth : v.depth ≤ 64) : parse v.dump = some v ∧ v.eq v = true :=
  ⟨parse_dump_eq hdoubles hrange hkeys hdepth, eq_refl hkeys (noNaN_of_noDoubles hdoubles)⟩

/-- Control bytes, bytes that are no text, the least integer and empty containers. -/
def sample : Json :=
  .object [(ascii "a\n", .array [.int (-2 ^ 63), .object [], .null]), ([], .string [0, 127, 255])]

theorem json_roundTrip_sample : parse sample.dump = some sample ∧ sample.eq sample = true :=
  json_roundTrip (by decide) (by decide) (by decide) (by decide)

end RoundTrip

end ReadyUp.Status.Json
