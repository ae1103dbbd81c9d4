import ReadyUp.Support.Assoc
import ReadyUp.Support.JsonScan

/-!
# Readers of JSON text

Readers of JSON text differ in how they take strings and numbers, in what they do with a key
that comes twice and in the values they build; the rest is the grammar. A `Dialect` holds the
differences, `Dialect.value` is the reader.

`Reads levels s o` says what a reader with that many levels of nesting makes of a text without
white space: `o` is the value, or none if it refuses a number in it. `ReadsBy` is the same for a
writer that puts strings in quotes in its own way. `ReadsBy.value_append` is the rule for texts with
something behind them, `ReadsBy.parse` and `Reads.parse` the ones for whole texts.
-/
namespace ReadyUp.Support.JsonGrammar

open JsonScan

section Strings

variable (escape : Bytes → Option (Bytes × Bytes)) (raw : UInt8 → Bool)

/-- The rest of a string after its opening quote. `escape` reads what follows a backslash and
`raw` says which bytes stand for themselves. -/
def strBody : ℕ → Bytes → Option (Bytes × Bytes)
  | 0, _ => none
  | _ + 1, [] => none
  | fuel + 1, c :: s =>
    if c = byte '"' then some ([], s)
    else if c = byte '\\' then
      (escape s).bind fun e => (strBody fuel e.2).map fun r => (e.1 ++ r.1, r.2)
    else if raw c then (strBody fuel s).map fun r => (c :: r.1, r.2)
    else none

def string : Bytes → Option (Bytes × Bytes)
  | [] => none
  | c :: s => if c = byte '"' then strBody escape raw s.length s else none

/-- The escapes that a writer uses are read back. -/
structure Unescapes : Prop where
  simple : ∀ e c s, e ≠ byte 'u' → unescape e = some c → escape (e :: s) = some ([c], s)
  control : ∀ (c : UInt8) s, c.toNat < 0x80 →
    escape (byte 'u' :: byte '0' :: byte '0' :: hexDigit (c.toNat / 16) ::
      hexDigit (c.toNat % 16) :: s) = some ([c], s)
  raw : ∀ c : UInt8, ¬c < 0x20 → raw c = true

/-- The text stands for the byte, whatever comes after it. -/
def Escaped (c : UInt8) (t : Bytes) : Prop :=
  (t = [c] ∧ c ≠ byte '"' ∧ c ≠ byte '\\' ∧ raw c = true) ∨
    ∃ r, t = byte '\\' :: r ∧ ∀ s, escape (r ++ s) = some ([c], s)

variable {escape raw}

theorem escaped_escapeByte (h : Unescapes escape raw) (c : UInt8) :
    Escaped escape raw c (escapeByte c) := by
  rw [escapeByte]
  split_ifs with h₁ h₂ h₃ h₄ h₅ h₆ h₇ h₈
  · exact .inr ⟨_, rfl, fun s => h.simple _ _ _ (by decide) (by rw [h₁]; rfl)⟩
  · exact .inr ⟨_, rfl, fun s => h.simple _ _ _ (by decide) (by rw [h₂]; rfl)⟩
  · exact .inr ⟨_, rfl, fun s => h.simple _ _ _ (by decide) (by rw [h₃]; rfl)⟩
  · exact .inr ⟨_, rfl, fun s => h.simple _ _ _ (by decide) (by rw [h₄]; rfl)⟩
  · exact .inr ⟨_, rfl, fun s => h.simple _ _ _ (by decide) (by rw [h₅]; rfl)⟩
  · exact .inr ⟨_, rfl, fun s => h.simple _ _ _ (by decide) (by rw [h₆]; rfl)⟩
  · exact .inr ⟨_, rfl, fun s => h.simple _ _ _ (by decide) (by rw [h₇]; rfl)⟩
  · have hc : c.toNat < 0x80 := by
      rcases h₈ with hlt | rfl
      · have := UInt8.lt_iff_toNat_lt.mp hlt
        have h20 : (0x20 : UInt8).toNat = 32 := rfl
        omega
      · decide
    exact .inr ⟨_, rfl, fun s => h.control c s hc⟩
  · rw [not_or] at h₈
    exact .inl ⟨rfl, h₁, h₂, h.raw c h₈.1⟩

variable {f : UInt8 → Bytes}

theorem strBody_escaped_cons (h : ∀ c, Escaped escape raw c (f c)) (c : UInt8) (fuel : ℕ)
    (s : Bytes) : strBody escape raw (fuel + 1) (f c ++ s) =
      (strBody escape raw fuel s).map fun r => (c :: r.1, r.2) := by
  rcases h c with ⟨hf, hquote, hback, hraw⟩ | ⟨r, hf, hread⟩
  · rw [hf, List.cons_append, List.nil_append, strBody, if_neg hquote, if_neg hback, if_pos hraw]
  · rw [hf, List.cons_append, strBody, if_neg (by decide), if_pos rfl, hread, Option.bind_some]
    rfl

theorem strBody_escaped (h : ∀ c, Escaped escape raw c (f c)) (x t : Bytes) {fuel : ℕ}
    (hfuel : x.length < fuel) :
    strBody escape raw fuel (x.flatMap f ++ byte '"' :: t) = some (x, t) := by
  induction x generalizing fuel with
  | nil =>
    obtain ⟨fuel, rfl⟩ : ∃ n, fuel = n + 1 := ⟨fuel - 1, by omega⟩
    rw [List.flatMap_nil, List.nil_append, strBody, if_pos rfl]
  | cons c x ih =>
    obtain ⟨fuel, rfl⟩ : ∃ n, fuel = n + 1 := ⟨fuel - 1, by omega⟩
    rw [List.length_cons] at hfuel
    rw [List.flatMap_cons, List.append_assoc, strBody_escaped_cons h, ih (by omega),
      Option.map_some]

theorem length_le_flatMap (h : ∀ c, Escaped escape raw c (f c)) (x : Bytes) :
    x.length ≤ (x.flatMap f).length := by
  induction x with
  | nil => exact Nat.zero_le _
  | cons c x ih =>
    have hpos : 0 < (f c).length := by
      rcases h c with ⟨hf, -⟩ | ⟨r, hf, -⟩
      · rw [hf]
        exact Nat.one_pos
      · rw [hf]
        exact Nat.succ_pos _
    rw [List.flatMap_cons, List.length_append, List.length_cons]
    omega

/-- A string in quotes is read back, whatever bytes it holds. -/
theorem string_flatMap (h : ∀ c, Escaped escape raw c (f c)) (x t : Bytes) :
    string escape raw (byte '"' :: (x.flatMap f ++ [byte '"']) ++ t) = some (x, t) := by
  have hlen := length_le_flatMap h x
  rw [List.cons_append, string, if_pos rfl, List.append_assoc, List.singleton_append]
  apply strBody_escaped h
  rw [List.length_append, List.length_cons]
  omega

theorem string_quoted (h : Unescapes escape raw) (x t : Bytes) :
    string escape raw (quoted x ++ t) = some (x, t) :=
  string_flatMap (escaped_escapeByte h) x t

end Strings

/-- What tells one reader of JSON text from another. -/
structure Dialect (α : Type) where
  string : Bytes → Option (Bytes × Bytes)
  number : Bytes → Option (α × Bytes)
  null : α
  bool : Bool → α
  str : Bytes → α
  obj : List (Bytes × α) → α
  arr : List α → α
  /-- A member is added to those that were read before it. -/
  insert : List (Bytes × α) → Bytes → α → List (Bytes × α)
  string_quoted : ∀ x t, string (quoted x ++ t) = some (x, t)
  insert_of_notMem : ∀ o k v, k ∉ keys o → insert o k v = o ++ [(k, v)]

namespace Dialect

variable {α : Type} (D : Dialect α)

section Reader

/-- A word, if the text starts with it. -/
def lit (w : Bytes) (v : α) (s : Bytes) : Option (α × Bytes) :=
  if w <+: s then some (v, s.drop w.length) else none

variable (val : Bytes → Option (α × Bytes))

/-- The loop over the members of an object. -/
def members : ℕ → List (Bytes × α) → Bytes → Option (α × Bytes)
  | 0, _, _ => none
  | fuel + 1, o, s =>
    (D.string (ws s)).bind fun k =>
    (expect (byte ':') k.2).bind fun s =>
    (val s).bind fun v =>
    (next (byte '}') v.2).bind fun n =>
      let o := D.insert o k.1 v.1
      if n.1 then members fuel o n.2 else some (D.obj o, n.2)

/-- The loop over the items of an array. -/
def items : ℕ → List α → Bytes → Option (α × Bytes)
  | 0, _, _ => none
  | fuel + 1, a, s =>
    (val s).bind fun v =>
    (next (byte ']') v.2).bind fun n =>
      let a := a ++ [v.1]
      if n.1 then items fuel a n.2 else some (D.arr a, n.2)

/-- An object after its opening brace. -/
def object (s : Bytes) : Option (α × Bytes) :=
  match expect (byte '}') s with
  | some s => some (D.obj [], s)
  | none => D.members val s.length [] s

/-- An array after its opening bracket. -/
def array (s : Bytes) : Option (α × Bytes) :=
  match expect (byte ']') s with
  | some s => some (D.arr [], s)
  | none => D.items val s.length [] s

/-- One value, with the levels of nesting that are left. -/
def value : ℕ → Bytes → Option (α × Bytes)
  | 0, _ => none
  | levels + 1, s =>
    match ws s with
    | [] => none
    | c :: s =>
      if c = byte '{' then D.object (value levels) s
      else if c = byte '[' then D.array (value levels) s
      else if c = byte '"' then (D.string (c :: s)).map fun r => (D.str r.1, r.2)
      else if c = byte 't' then lit (ascii "true") (D.bool true) (c :: s)
      else if c = byte 'f' then lit (ascii "false") (D.bool false) (c :: s)
      else if c = byte 'n' then lit (ascii "null") D.null (c :: s)
      else D.number (c :: s)

/-- Exactly one value, with white space around it. -/
def parse (levels : ℕ) (s : Bytes) : Option α :=
  (D.value levels s).bind fun r => if ws r.2 = [] then some r.1 else none

end Reader

section Reads

/-- What can stand behind a value inside an object or an array, or nothing. -/
def Ends (t : Bytes) : Prop := ∀ c ∈ t.head?, c = byte ',' ∨ c = byte '}' ∨ c = byte ']'

theorem ends_cons {c : UInt8} (h : c = byte ',' ∨ c = byte '}' ∨ c = byte ']') (t : Bytes) :
    Ends (c :: t) := by
  intro x hx
  obtain rfl : c = x := by simpa using hx
  exact h

theorem Ends.numEnd {t : Bytes} (h : Ends t) : NumEnd t := by
  intro c hc
  rcases h c hc with rfl | rfl | rfl <;> decide

def StartsNumber (s : Bytes) : Prop := ∃ c t, s = c :: t ∧ (c = byte '-' ∨ isDigit c = true)

/-- A way to put strings in quotes that the reader takes back. -/
structure Quotes (q : Bytes → Bytes) : Prop where
  head : ∀ x, ∃ r, q x = byte '"' :: r
  read : ∀ x t, D.string (q x ++ t) = some (x, t)

/-- Members of an object with their texts, behind each other. -/
def memberTexts : List (Bytes × Bytes × Option α) → Bytes
  | [] => []
  | (k, s, _) :: ms =>
    quoted k ++ byte ':' :: (s ++ if ms.isEmpty then [] else byte ',' :: memberTexts ms)

/-- The same with the keys in other quotes. -/
def memberTextsBy (q : Bytes → Bytes) : List (Bytes × Bytes × Option α) → Bytes
  | [] => []
  | (k, s, _) :: ms =>
    q k ++ byte ':' :: (s ++ if ms.isEmpty then [] else byte ',' :: memberTextsBy q ms)

def itemTexts : List (Bytes × Option α) → Bytes
  | [] => []
  | (s, _) :: as => s ++ if as.isEmpty then [] else byte ',' :: itemTexts as

/-- The members that were read, none if one of them was refused. -/
def memberValues : List (Bytes × Bytes × Option α) → Option (List (Bytes × α))
  | [] => some []
  | (k, _, o) :: ms => o.bind fun v => (memberValues ms).map ((k, v) :: ·)

def itemValues : List (Bytes × Option α) → Option (List α)
  | [] => some []
  | (_, o) :: as => o.bind fun v => (itemValues as).map (v :: ·)

/-- The text is read as the value, or refused. -/
inductive Reads : ℕ → Bytes → Option α → Prop
  | null {levels} : Reads (levels + 1) (ascii "null") (some D.null)
  | bool {levels} (b : Bool) :
      Reads (levels + 1) (ascii (if b then "true" else "false")) (some (D.bool b))
  | str {levels} (x : Bytes) : Reads (levels + 1) (quoted x) (some (D.str x))
  | num {levels s o} : StartsNumber s → (∀ t, Ends t → D.number (s ++ t) = o.map (·, t)) →
      Reads (levels + 1) s o
  | obj {levels} {ms : List (Bytes × Bytes × Option α)} : (keys ms).Nodup →
      (∀ m ∈ ms, Reads levels m.2.1 m.2.2) →
      Reads (levels + 1) (byte '{' :: (memberTexts ms ++ [byte '}'])) ((memberValues ms).map D.obj)
  | arr {levels} {as : List (Bytes × Option α)} : (∀ a ∈ as, Reads levels a.1 a.2) →
      Reads (levels + 1) (byte '[' :: (itemTexts as ++ [byte ']'])) ((itemValues as).map D.arr)

/-- The text, with strings in other quotes, is read as the value, or refused. -/
inductive ReadsBy (q : Bytes → Bytes) : ℕ → Bytes → Option α → Prop
  | null {levels} : ReadsBy q (levels + 1) (ascii "null") (some D.null)
  | bool {levels} (b : Bool) :
      ReadsBy q (levels + 1) (ascii (if b then "true" else "false")) (some (D.bool b))
  | str {levels} (x : Bytes) : ReadsBy q (levels + 1) (q x) (some (D.str x))
  | num {levels s o} : StartsNumber s → (∀ t, Ends t → D.number (s ++ t) = o.map (·, t)) →
      ReadsBy q (levels + 1) s o
  | obj {levels} {ms : List (Bytes × Bytes × Option α)} : (keys ms).Nodup →
      (∀ m ∈ ms, ReadsBy q levels m.2.1 m.2.2) →
      ReadsBy q (levels + 1) (byte '{' :: (memberTextsBy q ms ++ [byte '}']))
        ((memberValues ms).map D.obj)
  | arr {levels} {as : List (Bytes × Option α)} : (∀ a ∈ as, ReadsBy q levels a.1 a.2) →
      ReadsBy q (levels + 1) (byte '[' :: (itemTexts as ++ [byte ']'])) ((itemValues as).map D.arr)

variable {D} {q : Bytes → Bytes}

theorem quotes_quoted : D.Quotes quoted := ⟨fun _ => ⟨_, rfl⟩, D.string_quoted⟩

theorem Quotes.append (hq : D.Quotes q) (x t : Bytes) : ∃ r, q x ++ t = byte '"' :: r := by
  obtain ⟨r, hr⟩ := hq.head x
  exact ⟨r ++ t, by rw [hr, List.cons_append]⟩

theorem Quotes.ws_append (hq : D.Quotes q) (x t : Bytes) : ws (q x ++ t) = q x ++ t := by
  obtain ⟨r, hr⟩ := hq.append x t
  rw [hr, ws_cons (by decide)]

theorem memberTextsBy_quoted (ms : List (Bytes × Bytes × Option α)) :
    memberTextsBy quoted ms = memberTexts ms := by
  induction ms with
  | nil => rfl
  | cons m ms ih => rw [memberTextsBy, memberTexts, ih]

theorem readsBy_quoted_iff {levels : ℕ} {s : Bytes} {o : Option α} :
    D.ReadsBy quoted levels s o ↔ D.Reads levels s o := by
  constructor
  · intro h
    induction h with
    | null => exact .null
    | bool b => exact .bool b
    | str x => exact .str x
    | num hs hread => exact .num hs hread
    | obj hkeys _ ih =>
      rw [memberTextsBy_quoted]
      exact .obj hkeys ih
    | arr _ ih => exact .arr ih
  · intro h
    induction h with
    | null => exact .null
    | bool b => exact .bool b
    | str x => exact .str x
    | num hs hread => exact .num hs hread
    | obj hkeys _ ih =>
      rw [← memberTextsBy_quoted]
      exact .obj hkeys ih
    | arr _ ih => exact .arr ih

/-- No value starts with white space or with the end of an array. -/
theorem ReadsBy.head (hq : D.Quotes q) {levels : ℕ} {s : Bytes} {o : Option α}
    (h : D.ReadsBy q levels s o) : ∃ c t, s = c :: t ∧ isWs c = false ∧ c ≠ byte ']' := by
  cases h with
  | num hs _ =>
    obtain ⟨c, t, rfl, hc⟩ := hs
    refine ⟨c, t, rfl, ?_⟩
    rcases hc with rfl | hc
    · decide
    · obtain ⟨d, hd, rfl⟩ := exists_digit hc
      interval_cases d <;> decide
  | bool b => cases b <;> exact ⟨_, _, rfl, by decide⟩
  | str x =>
    obtain ⟨r, hr⟩ := hq.head x
    exact ⟨_, r, hr, by decide⟩
  | _ => exact ⟨_, _, rfl, by decide⟩

theorem value_of_startsNumber {s : Bytes} (h : StartsNumber s) (levels : ℕ) (t : Bytes) :
    D.value (levels + 1) (s ++ t) = D.number (s ++ t) := by
  obtain ⟨c, s, rfl, h⟩ := h
  have hc : isWs c = false ∧ c ≠ byte '{' ∧ c ≠ byte '[' ∧ c ≠ byte '"' ∧ c ≠ byte 't' ∧
      c ≠ byte 'f' ∧ c ≠ byte 'n' := by
    rcases h with rfl | h
    · decide
    · obtain ⟨d, hd, rfl⟩ := exists_digit h
      interval_cases d <;> decide
  obtain ⟨hws, h₁, h₂, h₃, h₄, h₅, h₆⟩ := hc
  rw [List.cons_append, value, ws_cons hws]
  simp only [h₁, h₂, h₃, h₄, h₅, h₆, if_false]

section Loops

variable {val : Bytes → Option (α × Bytes)} {t : Bytes}

theorem members_memberTextsBy (hq : D.Quotes q) {ms : List (Bytes × Bytes × Option α)}
    (hne : ms ≠ []) (hval : ∀ m ∈ ms, ∀ t, Ends t → val (m.2.1 ++ t) = m.2.2.map (·, t))
    {done : List (Bytes × α)} (hkeys : (keys done ++ keys ms).Nodup) {fuel : ℕ}
    (hfuel : ms.length ≤ fuel) :
    D.members val fuel done (memberTextsBy q ms ++ byte '}' :: t) =
      (memberValues ms).map fun o => (D.obj (done ++ o), t) := by
  induction ms generalizing done fuel with
  | nil => exact absurd rfl hne
  | cons m ms ih =>
    obtain ⟨k, s, o⟩ := m
    obtain ⟨fuel, rfl⟩ : ∃ n, fuel = n + 1 := ⟨fuel - 1, by rw [List.length_cons] at hfuel; omega⟩
    have hk : k ∉ keys done := by
      intro hmem
      exact (List.nodup_append.mp hkeys).2.2 k hmem k List.mem_cons_self rfl
    have hread := hval (k, s, o) List.mem_cons_self
    rw [members, memberTextsBy, List.append_assoc, hq.ws_append, hq.read, Option.bind_some,
      List.cons_append, expect, ws_cons (by decide)]
    simp only [if_true, Option.bind_some, List.append_assoc]
    cases ms with
    | nil =>
      simp only [List.isEmpty_nil, if_true, List.nil_append]
      rw [hread _ (ends_cons (.inr (.inl rfl)) t)]
      cases o with
      | none => rfl
      | some v =>
        rw [Option.map_some, Option.bind_some, next, ws_cons (by decide)]
        simp [memberValues, D.insert_of_notMem _ _ _ hk, byte]
    | cons m' ms =>
      simp only [List.isEmpty_cons, Bool.false_eq_true, if_false, List.cons_append]
      rw [hread _ (ends_cons (.inl rfl) _)]
      cases o with
      | none => rfl
      | some v =>
        have hkeys' : (keys (done ++ [(k, v)]) ++ keys (m' :: ms)).Nodup := by
          simpa [keys] using hkeys
        rw [Option.map_some, Option.bind_some, next, ws_cons (by decide)]
        simp only [if_true, Option.bind_some, D.insert_of_notMem _ _ _ hk]
        rw [ih (List.cons_ne_nil _ _) (fun m h => hval m (List.mem_cons_of_mem _ h)) hkeys'
          (by simpa using hfuel)]
        conv_rhs => rw [memberValues]
        simp [Function.comp_def]

theorem items_itemTexts {as : List (Bytes × Option α)} (hne : as ≠ [])
    (hval : ∀ a ∈ as, ∀ t, Ends t → val (a.1 ++ t) = a.2.map (·, t)) {done : List α} {fuel : ℕ}
    (hfuel : as.length ≤ fuel) :
    D.items val fuel done (itemTexts as ++ byte ']' :: t) =
      (itemValues as).map fun a => (D.arr (done ++ a), t) := by
  induction as generalizing done fuel with
  | nil => exact absurd rfl hne
  | cons a as ih =>
    obtain ⟨s, o⟩ := a
    obtain ⟨fuel, rfl⟩ : ∃ n, fuel = n + 1 := ⟨fuel - 1, by rw [List.length_cons] at hfuel; omega⟩
    have hread := hval (s, o) List.mem_cons_self
    rw [items, itemTexts, List.append_assoc]
    cases as with
    | nil =>
      simp only [List.isEmpty_nil, if_true, List.nil_append]
      rw [hread _ (ends_cons (.inr (.inr rfl)) t)]
      cases o with
      | none => rfl
      | some v =>
        rw [Option.map_some, Option.bind_some, next, ws_cons (by decide)]
        simp [itemValues, byte]
    | cons a' as =>
      simp only [List.isEmpty_cons, Bool.false_eq_true, if_false, List.cons_append]
      rw [hread _ (ends_cons (.inl rfl) _)]
      cases o with
      | none => rfl
      | some v =>
        rw [Option.map_some, Option.bind_some, next, ws_cons (by decide)]
        simp only [if_true, Option.bind_some]
        rw [ih (List.cons_ne_nil _ _) (fun a h => hval a (List.mem_cons_of_mem _ h))
          (by simpa using hfuel)]
        conv_rhs => rw [itemValues]
        simp [Function.comp_def]

theorem length_le_memberTextsBy (hq : D.Quotes q) (ms : List (Bytes × Bytes × Option α)) :
    ms.length ≤ (memberTextsBy q ms).length := by
  induction ms with
  | nil => exact Nat.zero_le _
  | cons m ms ih =>
    obtain ⟨k, s, o⟩ := m
    obtain ⟨r, hr⟩ := hq.head k
    rw [memberTextsBy, hr]
    cases ms with
    | nil => simp
    | cons m' ms =>
      simp only [List.isEmpty_cons, Bool.false_eq_true, if_false, List.length_append,
        List.length_cons] at ih ⊢
      omega

theorem object_memberTextsBy (hq : D.Quotes q) {ms : List (Bytes × Bytes × Option α)}
    (hkeys : (keys ms).Nodup)
    (hval : ∀ m ∈ ms, ∀ t, Ends t → val (m.2.1 ++ t) = m.2.2.map (·, t)) :
    D.object val (memberTextsBy q ms ++ byte '}' :: t) =
      (memberValues ms).map fun o => (D.obj o, t) := by
  cases ms with
  | nil => simp [memberTextsBy, object, expect, ws_cons, isWs, byte, memberValues]
  | cons m ms =>
    obtain ⟨k, s, o⟩ := m
    have hlen := length_le_memberTextsBy hq ((k, s, o) :: ms)
    have hexpect :
        expect (byte '}') (memberTextsBy q ((k, s, o) :: ms) ++ byte '}' :: t) = none := by
      rw [memberTextsBy, List.append_assoc, expect, hq.ws_append]
      obtain ⟨r, hr⟩ := hq.append k
        ((byte ':' :: (s ++ if ms.isEmpty then [] else byte ',' :: memberTextsBy q ms)) ++
          byte '}' :: t)
      rw [hr]
      rfl
    rw [object, hexpect]
    apply members_memberTextsBy hq (List.cons_ne_nil _ _) hval
    · simpa using hkeys
    · rw [List.length_append]
      omega

theorem length_le_itemTexts {as : List (Bytes × Option α)} (h : ∀ a ∈ as, a.1 ≠ []) :
    as.length ≤ (itemTexts as).length := by
  induction as with
  | nil => exact Nat.zero_le _
  | cons a as ih =>
    obtain ⟨s, o⟩ := a
    have hs : 0 < s.length := List.length_pos_iff.mpr (h (s, o) List.mem_cons_self)
    have htail := ih fun a hmem => h a (List.mem_cons_of_mem _ hmem)
    rw [itemTexts]
    cases as with
    | nil =>
      rw [List.length_singleton, List.length_append]
      omega
    | cons a' as =>
      simp only [List.isEmpty_cons, Bool.false_eq_true, if_false, List.length_append,
        List.length_cons] at htail ⊢
      omega

theorem array_itemTexts {as : List (Bytes × Option α)}
    (hhead : ∀ a ∈ as, ∃ c t, a.1 = c :: t ∧ isWs c = false ∧ c ≠ byte ']')
    (hval : ∀ a ∈ as, ∀ t, Ends t → val (a.1 ++ t) = a.2.map (·, t)) :
    D.array val (itemTexts as ++ byte ']' :: t) = (itemValues as).map fun a => (D.arr a, t) := by
  cases as with
  | nil => simp [itemTexts, array, expect, ws_cons, isWs, byte, itemValues]
  | cons a as =>
    obtain ⟨s, o⟩ := a
    have hlen : ((s, o) :: as).length ≤ (itemTexts ((s, o) :: as)).length := by
      apply length_le_itemTexts
      intro a hmem hnil
      obtain ⟨c, t, hct, -⟩ := hhead a hmem
      rw [hnil] at hct
      cases hct
    have hexpect : expect (byte ']') (itemTexts ((s, o) :: as) ++ byte ']' :: t) = none := by
      obtain ⟨c, r, hcr, hws, hne⟩ := hhead (s, o) List.mem_cons_self
      dsimp only at hcr
      rw [itemTexts, List.append_assoc, hcr, List.cons_append, expect, ws_cons hws]
      simp [hne]
    rw [array, hexpect]
    apply items_itemTexts (List.cons_ne_nil _ _) hval
    rw [List.length_append]
    omega

end Loops

theorem ReadsBy.value_append (hq : D.Quotes q) {levels : ℕ} {s : Bytes} {o : Option α}
    (h : D.ReadsBy q levels s o) {t : Bytes} (ht : Ends t) :
    D.value levels (s ++ t) = o.map (·, t) := by
  induction h generalizing t with
  | null => rfl
  | bool b => cases b <;> rfl
  | str x =>
    have hstring := hq.read x t
    obtain ⟨r, hr⟩ := hq.append x t
    rw [hr] at hstring ⊢
    rw [value, ws_cons (by decide)]
    dsimp only
    rw [if_neg (by decide), if_neg (by decide), if_pos rfl, hstring, Option.map_some,
      Option.map_some]
  | num hs hread => rw [value_of_startsNumber hs, hread t ht]
  | obj hkeys _ ih =>
    rw [List.cons_append, List.append_assoc, List.singleton_append, value, ws_cons (by decide)]
    dsimp only
    rw [if_pos rfl, object_memberTextsBy hq hkeys fun m hmem t ht => ih m hmem ht]
    simp [Function.comp_def]
  | arr hreads ih =>
    rw [List.cons_append, List.append_assoc, List.singleton_append, value, ws_cons (by decide)]
    dsimp only
    rw [if_neg (by decide), if_pos rfl,
      array_itemTexts (fun a hmem => (hreads a hmem).head hq) fun a hmem t ht => ih a hmem ht]
    simp [Function.comp_def]

theorem ReadsBy.parse (hq : D.Quotes q) {levels : ℕ} {s : Bytes} {o : Option α}
    (h : D.ReadsBy q levels s o) : D.parse levels s = o := by
  have hvalue := h.value_append hq (t := []) (fun c hc => absurd hc (Option.not_mem_none c))
  rw [List.append_nil] at hvalue
  rw [Dialect.parse, hvalue]
  cases o <;> rfl

theorem Reads.parse {levels : ℕ} {s : Bytes} {o : Option α} (h : D.Reads levels s o) :
    D.parse levels s = o := (readsBy_quoted_iff.mpr h).parse quotes_quoted

end Reads

end Dialect

end ReadyUp.Support.JsonGrammar
