import ReadyUp.Fleet.JsonRoundTrip
import ReadyUp.Support.JsonUnicode

/-!
# What the reader of the fleet link takes for JSON

The reader scans a number part by part, but does not look for zeros in front of it, and like the one
of the status library it does not look at the bytes of a string. Apart from that it reads exactly
the texts of the grammar (`parse_decides_depth_iff`).

`dialectBy` is the reader with the values of its numbers left open; with `numValue` it is `parse`
(`parse_eq`).
-/
namespace ReadyUp.Fleet.JsonText

open Support JsonScan JsonTree
open JsonGrammar (Dialect)

section Strings

/-- A high surrogate takes the next escape with it, and both are written. -/
def pairOf (u v : ℕ) : Option Bytes :=
  if isHighSurrogate u
  then some (if isLowSurrogate v then putUtf8 (0x10000 + (u - 0xD800) * 1024 + (v - 0xDC00))
    else putUtf8 0xFFFD ++ putUtf8 v)
  else none

/-- A byte that may stand in a string by itself. -/
def isRaw (c : UInt8) : Bool := !(c < 0x20)

theorem isRaw_iff (c : UInt8) : isRaw c = true ↔ 0x20 ≤ c := by
  simp [isRaw]

theorem surrogate_of_ne {hi : ℕ} {r : Bytes} (h : ∀ r', r ≠ byte '\\' :: byte 'u' :: r') :
    surrogate hi r = some (putUtf8 0xFFFD, r) := by
  unfold surrogate
  split
  · rename_i b u s
    by_cases hu : b = byte '\\' ∧ u = byte 'u'
    · obtain ⟨rfl, rfl⟩ := hu
      exact absurd rfl (h s)
    · rw [if_neg hu]
  · rfl

theorem decodes_escape : Decodes pairOf alone escape where
  nil := rfl
  simple e s he := by
    rw [escape, if_neg he]
  bad s hs := by
    rw [escape, if_pos rfl, hs]
    rfl
  pair {s u r v r'} hs hr := by
    rw [escape, if_pos rfl, hs, Option.bind_some]
    unfold pairOf alone
    dsimp only
    by_cases hhigh : isHighSurrogate u = true
    · rw [if_pos hhigh, if_pos hhigh, surrogate, if_pos ⟨rfl, rfl⟩, hr, Option.map_some]
      dsimp only
      split_ifs <;> rfl
    · rw [if_neg hhigh, if_neg hhigh]
      dsimp only
      split_ifs with hlow <;> simp_all
  broken {s u r} hs hr := by
    rw [escape, if_pos rfl, hs, Option.bind_some]
    unfold alone
    dsimp only
    by_cases hhigh : isHighSurrogate u = true
    · left
      rw [if_pos hhigh, surrogate, if_pos ⟨rfl, rfl⟩, hr, Option.map_none]
    · right
      rw [if_neg hhigh]
      split_ifs with hlow <;> simp_all
  lone {s u r} hs hr := by
    rw [escape, if_pos rfl, hs, Option.bind_some]
    unfold alone
    dsimp only
    by_cases hhigh : isHighSurrogate u = true
    · rw [if_pos hhigh, surrogate_of_ne hr, if_pos (.inl hhigh)]
    · rw [if_neg hhigh]
      split_ifs with hlow <;> simp_all

theorem strBody_eq (fuel : ℕ) (s : Bytes) :
    strBody fuel s = JsonGrammar.strBody escape isRaw fuel s := by
  induction fuel generalizing s with
  | zero => rfl
  | succ fuel ih =>
    cases s with
    | nil => rfl
    | cons c s =>
      simp only [strBody, JsonGrammar.strBody, ih]
      by_cases hcontrol : c < 0x20
      · have hback : c ≠ byte '\\' := by
          rintro rfl
          exact absurd hcontrol (by decide)
        simp [hcontrol, hback, isRaw]
      · simp [hcontrol, isRaw]

theorem string_eq (s : Bytes) : string s = JsonGrammar.string escape isRaw s := by
  cases s with
  | nil => rfl
  | cons c s => simp only [string, JsonGrammar.string, strBody_eq]

end Strings

section Numbers

/-- The text of a fraction and what is read from it. -/
def FracText (f : Bytes) (o : Option Bytes) : Prop :=
  (f = [] ∧ o = none) ∨ ∃ ds, f = byte '.' :: ds ∧ Digits ds ∧ o = some ds

/-- The text of an exponent and what is read from it. -/
def ExpText (e : Bytes) (o : Option (Bool × Bytes)) : Prop :=
  (e = [] ∧ o = none) ∨ ∃ x g neg ds, e = x :: (g ++ ds) ∧ (x = byte 'e' ∨ x = byte 'E') ∧
    ((g = [] ∧ neg = false) ∨ (g = [byte '+'] ∧ neg = false) ∨ (g = [byte '-'] ∧ neg = true)) ∧
    Digits ds ∧ o = some (neg, ds)

/-- The text of a number and what is read from it. -/
def NumText (n : Bytes) (t : NumToken) : Prop :=
  ∃ f e, n = (if t.neg then [byte '-'] else []) ++ (t.int ++ (f ++ e)) ∧ Digits t.int ∧
    FracText f t.frac ∧ ExpText e t.exp

variable {s r n : Bytes}

theorem fracPart_sound {o : Option Bytes} (h : fracPart s = some (o, r)) :
    ∃ f, s = f ++ r ∧ FracText f o := by
  cases s with
  | nil =>
    simp only [fracPart, Option.some.injEq, Prod.mk.injEq] at h
    obtain ⟨rfl, rfl⟩ := h
    exact ⟨[], rfl, .inl ⟨rfl, rfl⟩⟩
  | cons c s =>
    simp only [fracPart] at h
    split_ifs at h with hdot hnil
    · simp only [Option.some.injEq, Prod.mk.injEq] at h
      obtain ⟨rfl, rfl⟩ := h
      refine ⟨byte '.' :: s.takeWhile isDigit, ?_,
        .inr ⟨_, rfl, ⟨hnil, fun d hd => List.mem_takeWhile_imp hd⟩, rfl⟩⟩
      rw [hdot, List.cons_append, List.takeWhile_append_dropWhile]
    · simp only [Option.some.injEq, Prod.mk.injEq] at h
      obtain ⟨rfl, rfl⟩ := h
      exact ⟨[], rfl, .inl ⟨rfl, rfl⟩⟩

theorem fracPart_complete {f : Bytes} {o : Option Bytes} (hf : FracText f o)
    (hr : ∀ c ∈ r.head?, isDigit c = false ∧ c ≠ byte '.') : fracPart (f ++ r) = some (o, r) := by
  rcases hf with ⟨rfl, rfl⟩ | ⟨ds, rfl, ⟨hne, hds⟩, rfl⟩
  · cases r with
    | nil => rfl
    | cons c r => simp [fracPart, (hr c rfl).2]
  · obtain ⟨htake, hdrop⟩ := takeWhile_digits hds fun c hc => (hr c hc).1
    simp [fracPart, htake, hdrop, hne]

theorem expSign_sound (s : Bytes) : ∃ g, s = g ++ (expSign s).2 ∧
    ((g = [] ∧ (expSign s).1 = false) ∨ (g = [byte '+'] ∧ (expSign s).1 = false) ∨
      (g = [byte '-'] ∧ (expSign s).1 = true)) := by
  cases s with
  | nil => exact ⟨[], rfl, .inl ⟨rfl, rfl⟩⟩
  | cons c s =>
    simp only [expSign]
    split_ifs with hplus hminus
    · exact ⟨[byte '+'], by rw [hplus, List.singleton_append], .inr (.inl ⟨rfl, rfl⟩)⟩
    · exact ⟨[byte '-'], by rw [hminus, List.singleton_append], .inr (.inr ⟨rfl, rfl⟩)⟩
    · exact ⟨[], rfl, .inl ⟨rfl, rfl⟩⟩

theorem expPart_sound {o : Option (Bool × Bytes)} (h : expPart s = some (o, r)) :
    ∃ e, s = e ++ r ∧ ExpText e o := by
  cases s with
  | nil =>
    simp only [expPart, Option.some.injEq, Prod.mk.injEq] at h
    obtain ⟨rfl, rfl⟩ := h
    exact ⟨[], rfl, .inl ⟨rfl, rfl⟩⟩
  | cons c s =>
    obtain ⟨g, hs, hg⟩ := expSign_sound s
    simp only [expPart] at h
    split_ifs at h with hexp hnil
    · simp only [Option.some.injEq, Prod.mk.injEq] at h
      obtain ⟨rfl, rfl⟩ := h
      refine ⟨c :: (g ++ (expSign s).2.takeWhile isDigit), ?_,
        .inr ⟨c, g, _, _, rfl, hexp, hg, ⟨hnil, fun d hd => List.mem_takeWhile_imp hd⟩, rfl⟩⟩
      rw [List.cons_append, List.append_assoc, List.takeWhile_append_dropWhile, ← hs]
    · simp only [Option.some.injEq, Prod.mk.injEq] at h
      obtain ⟨rfl, rfl⟩ := h
      exact ⟨[], rfl, .inl ⟨rfl, rfl⟩⟩

theorem expPart_complete {e : Bytes} {o : Option (Bool × Bytes)} (he : ExpText e o)
    (hr : NumEnd r) : expPart (e ++ r) = some (o, r) := by
  rcases he with ⟨rfl, rfl⟩ | ⟨x, g, neg, ds, rfl, hx, hg, ⟨hne, hds⟩, rfl⟩
  · cases r with
    | nil => rfl
    | cons c r =>
      obtain ⟨-, -, he, hE⟩ := hr c rfl
      simp [expPart, he, hE]
  · obtain ⟨htake, hdrop⟩ := takeWhile_digits hds fun c hc => (hr c hc).1
    have hsign : expSign (g ++ (ds ++ r)) = (neg, ds ++ r) := by
      rcases hg with ⟨rfl, rfl⟩ | ⟨rfl, rfl⟩ | ⟨rfl, rfl⟩
      · cases ds with
        | nil => exact absurd rfl hne
        | cons d ds =>
          obtain ⟨k, hk, rfl⟩ := exists_digit (hds d List.mem_cons_self)
          interval_cases k <;> rfl
      · rfl
      · rfl
    rw [List.cons_append, List.append_assoc, expPart, if_pos hx]
    simp [hsign, htake, hdrop, hne]

theorem ExpText.head {e : Bytes} {o : Option (Bool × Bytes)} (he : ExpText e o) (hr : NumEnd r) :
    ∀ c ∈ (e ++ r).head?, isDigit c = false ∧ c ≠ byte '.' := by
  rcases he with ⟨rfl, -⟩ | ⟨x, g, neg, ds, rfl, hx, -⟩
  · intro c hc
    exact ⟨(hr c hc).1, (hr c hc).2.1⟩
  · intro c hc
    obtain rfl : x = c := by simpa using hc
    rcases hx with rfl | rfl <;> decide

theorem FracText.head {f t : Bytes} {o : Option Bytes} (hf : FracText f o)
    (ht : ∀ c ∈ t.head?, isDigit c = false ∧ c ≠ byte '.') :
    ∀ c ∈ (f ++ t).head?, isDigit c = false := by
  rcases hf with ⟨rfl, -⟩ | ⟨ds, rfl, -⟩
  · intro c hc
    exact (ht c hc).1
  · intro c hc
    obtain rfl : byte '.' = c := by simpa using hc
    decide

theorem numSign_sound (s : Bytes) :
    s = (if (numSign s).1 then [byte '-'] else []) ++ (numSign s).2 := by
  cases s with
  | nil => rfl
  | cons c s =>
    by_cases h : c = byte '-' <;> simp [numSign, h]

theorem numSign_complete {neg : Bool} (h : ∀ c ∈ s.head?, isDigit c = true) :
    numSign ((if neg then [byte '-'] else []) ++ s) = (neg, s) := by
  cases neg with
  | true => rfl
  | false =>
    cases s with
    | nil => rfl
    | cons c s =>
      have hc : c ≠ byte '-' := by
        rintro rfl
        exact absurd (h (byte '-') rfl) (by decide)
      simp [numSign, hc]

theorem numToken_complete {t : NumToken} (hn : NumText n t) (hr : NumEnd r) :
    numToken (n ++ r) = some (t, r) := by
  obtain ⟨neg, int, frac, exp⟩ := t
  obtain ⟨f, e, rfl, ⟨hne, hint⟩, hf, he⟩ := hn
  dsimp only at hne hint hf he ⊢
  have hexpHead := he.head hr
  have hfracHead := hf.head hexpHead
  obtain ⟨htake, hdrop⟩ := takeWhile_digits hint hfracHead
  have hsign := @numSign_complete (int ++ (f ++ (e ++ r))) neg (by
    intro c hc
    cases int with
    | nil => exact absurd rfl hne
    | cons d int =>
      obtain rfl : d = c := by simpa using hc
      exact hint d List.mem_cons_self)
  rw [List.append_assoc, List.append_assoc, List.append_assoc, numToken, hsign]
  simp only [htake, hdrop, hne, if_false]
  rw [fracPart_complete hf hexpHead, Option.bind_some, expPart_complete he hr, Option.map_some]

theorem numToken_sound {t : NumToken} (h : numToken s = some (t, r)) :
    ∃ n, s = n ++ r ∧ NumText n t := by
  have hs := numSign_sound s
  simp only [numToken] at h
  split_ifs at h with hint
  obtain ⟨⟨f, s₁⟩, hf, h⟩ := Option.bind_eq_some_iff.mp h
  obtain ⟨⟨e, s₂⟩, he, heq⟩ := Option.map_eq_some_iff.mp h
  obtain ⟨rfl, rfl⟩ := Prod.mk.inj heq
  obtain ⟨ftext, hftext, hfrac⟩ := fracPart_sound hf
  obtain ⟨etext, rfl, hexp⟩ := expPart_sound he
  have hsplit := List.takeWhile_append_dropWhile (p := isDigit) (l := (numSign s).2)
  rw [hftext] at hsplit
  rw [← hsplit] at hs
  refine ⟨(if (numSign s).1 then [byte '-'] else []) ++
    ((numSign s).2.takeWhile isDigit ++ (ftext ++ etext)), ?_,
    ftext, etext, rfl, ⟨hint, fun d hd => List.mem_takeWhile_imp hd⟩, hfrac, hexp⟩
  simpa [List.append_assoc] using hs

theorem numEnd_of_stops (h : Stops r) : NumEnd r := by
  intro c hc
  rcases h c hc with hws | rfl | rfl | rfl
  · simp only [isWs, Bool.or_eq_true, beq_iff_eq] at hws
    rcases hws with ((rfl | rfl) | rfl) | rfl <;> decide
  all_goals decide

/-- A number of the reader: the grammar's, with zeros allowed in front. -/
theorem exists_numText_iff : (∃ t, NumText n t) ↔ IsNumberBy Digits n := by
  constructor
  · rintro ⟨t, f, e, rfl, hint, hf, he⟩
    refine ⟨_, _, f, e, rfl, ?_, hint, ?_, ?_⟩
    · cases t.neg
      · exact .inl rfl
      · exact .inr rfl
    · rcases hf with ⟨rfl, -⟩ | ⟨ds, rfl, hds, -⟩
      · exact .inl rfl
      · exact .inr ⟨ds, rfl, hds⟩
    · rcases he with ⟨rfl, -⟩ | ⟨x, g, neg, ds, rfl, hx, hg, hds, -⟩
      · exact .inl rfl
      · exact .inr ⟨x, g, ds, rfl, hx, hg.imp And.left (Or.imp And.left And.left), hds⟩
  · rintro ⟨m, i, f, e, rfl, hm, hi, hf, he⟩
    have hfrac : ∃ o, FracText f o := by
      rcases hf with rfl | ⟨ds, rfl, hds⟩
      · exact ⟨none, .inl ⟨rfl, rfl⟩⟩
      · exact ⟨some ds, .inr ⟨ds, rfl, hds, rfl⟩⟩
    have hexp : ∃ o, ExpText e o := by
      rcases he with rfl | ⟨x, g, ds, rfl, hx, hg, hds⟩
      · exact ⟨none, .inl ⟨rfl, rfl⟩⟩
      · rcases hg with rfl | rfl | rfl
        · exact ⟨_, .inr ⟨x, [], false, ds, rfl, hx, .inl ⟨rfl, rfl⟩, hds, rfl⟩⟩
        · exact ⟨_, .inr ⟨x, [byte '+'], false, ds, rfl, hx, .inr (.inl ⟨rfl, rfl⟩), hds, rfl⟩⟩
        · exact ⟨_, .inr ⟨x, [byte '-'], true, ds, rfl, hx, .inr (.inr ⟨rfl, rfl⟩), hds, rfl⟩⟩
    obtain ⟨o, hfrac⟩ := hfrac
    obtain ⟨o', hexp⟩ := hexp
    rcases hm with rfl | rfl
    · exact ⟨⟨false, i, o, o'⟩, f, e, rfl, hi, hfrac, hexp⟩
    · exact ⟨⟨true, i, o, o'⟩, f, e, rfl, hi, hfrac, hexp⟩

end Numbers

section Grammar

variable (num : NumToken → Value)

/-- The reader with the values of its numbers left open. -/
def dialectBy : Dialect Value where
  string := string
  number s := (numToken s).map fun t => (num t.1, t.2)
  null := .null
  bool := .bool
  str := .str
  obj := .obj
  arr := .arr
  insert := assign
  string_quoted := string_quoted
  insert_of_notMem _ _ v hk := assign_of_notMem hk v

theorem string_dialectBy (s : Bytes) : (dialectBy num).string s = string s := rfl

/-- The number, if the text is that of one. -/
def wholeNumber (n : Bytes) : Option NumToken :=
  match numToken n with
  | some (t, []) => some t
  | _ => none

theorem wholeNumber_iff {n : Bytes} {t : NumToken} : wholeNumber n = some t ↔ NumText n t := by
  constructor
  · intro h
    unfold wholeNumber at h
    split at h
    · rename_i t' hread
      cases h
      obtain ⟨n', rfl, hn'⟩ := numToken_sound hread
      simpa using hn'
    · cases h
  · intro h
    have hread := numToken_complete h (r := []) fun c hc => by cases hc
    rw [List.append_nil] at hread
    rw [wholeNumber, hread]

def lexisBy : Lexis (dialectBy num) where
  decode := decode pairOf alone
  number n := (wholeNumber n).map num
  string_sound {s x r} h := string_sound decodes_escape isRaw_iff ((string_eq s).symm.trans h)
  string_complete {cs} r hcs := (string_eq _).trans (string_complete decodes_escape isRaw_iff r hcs)
  number_sound {s v r} h := by
    obtain ⟨⟨t, r'⟩, hread, heq⟩ := Option.map_eq_some_iff.mp h
    obtain ⟨rfl, rfl⟩ := Prod.mk.inj heq
    obtain ⟨n, rfl, hn⟩ := numToken_sound hread
    exact ⟨n, rfl, by rw [wholeNumber_iff.mpr hn, Option.map_some]⟩
  number_complete {n v r} h hr := by
    obtain ⟨t, ht, rfl⟩ := Option.map_eq_some_iff.mp h
    have hread := numToken_complete (wholeNumber_iff.mp ht) (numEnd_of_stops hr)
    show (numToken (n ++ r)).map _ = _
    rw [hread, Option.map_some]
  number_head {n v} h := by
    obtain ⟨t, ht, -⟩ := Option.map_eq_some_iff.mp h
    obtain ⟨f, e, rfl, ⟨hne, hint⟩, -⟩ := wholeNumber_iff.mp ht
    cases t.neg with
    | true => exact ⟨byte '-', _, rfl, by decide⟩
    | false =>
      cases hi : t.int with
      | nil => exact absurd hi hne
      | cons d ds =>
        refine ⟨d, ds ++ (f ++ e), rfl, ?_⟩
        obtain ⟨k, hk, rfl⟩ := exists_digit (hint d (by simp [hi]))
        interval_cases k <;> decide

theorem number_lexisBy {n : Bytes} : (lexisBy num).Number n ↔ IsNumberBy Digits n := by
  rw [← exists_numText_iff]
  show ((wholeNumber n).map num).isSome = true ↔ _
  rw [Option.isSome_map, Option.isSome_iff_exists]
  simp only [wholeNumber_iff]

variable {val : Bytes → Option (Value × Bytes)}

theorem members_eq (fuel : ℕ) (o : List (Bytes × Value)) (s : Bytes) :
    members val fuel o s = (dialectBy numValue).members val fuel o s := by
  induction fuel generalizing o s with
  | zero => rfl
  | succ fuel ih =>
    rw [members, Dialect.members]
    simp only [ih]
    rfl

theorem items_eq (fuel : ℕ) (a : List Value) (s : Bytes) :
    items val fuel a s = (dialectBy numValue).items val fuel a s := by
  induction fuel generalizing a s with
  | zero => rfl
  | succ fuel ih =>
    rw [items, Dialect.items]
    simp only [ih]
    rfl

theorem object_eq (s : Bytes) : object val s = (dialectBy numValue).object val s := by
  unfold object Dialect.object
  simp only [members_eq]
  rfl

theorem array_eq (s : Bytes) : array val s = (dialectBy numValue).array val s := by
  unfold array Dialect.array
  simp only [items_eq]
  rfl

theorem value_eq (levels : ℕ) (s : Bytes) :
    value levels s = (dialectBy numValue).value levels s := by
  induction levels generalizing s with
  | zero => rfl
  | succ levels ih =>
    have hval : value levels = (dialectBy numValue).value levels := funext ih
    simp only [value, Dialect.value, hval, object_eq, array_eq]
    rfl

theorem parse_eq (s : Bytes) (maxDepth : ℕ) :
    parse s maxDepth = (dialectBy numValue).parse (maxDepth + 1) s := by
  rw [parse, Dialect.parse, value_eq]

/-- `Parse` takes the text exactly when it is JSON in UTF-8 that is not nested too deep. -/
def Exact (maxDepth : ℕ) (s : Bytes) : Prop :=
  (parse s maxDepth).isSome = true ↔ IsUtf8 s ∧ IsJson maxDepth s

theorem number_of_isNumber (n : Bytes) (h : IsNumber n) : (lexisBy num).Number n := by
  obtain ⟨m, i, f, e, rfl, hm, hi, hf, he⟩ := h
  exact (number_lexisBy num).mpr ⟨m, i, f, e, rfl, hm, hi.1, hf, he⟩

/-- The reader decides the grammar exactly where a text of that shape is in UTF-8 and has no number
with a zero in front. -/
theorem parse_decides_depth_iff (maxDepth : ℕ) (s : Bytes) : Exact maxDepth s ↔
    ∀ t, Spells (IsNumberBy Digits) (maxDepth + 1) t s →
      IsUtf8 s ∧ ∀ n ∈ t.val.numbers, IsNumber n := by
  have hnumber : (lexisBy numValue).Number = IsNumberBy Digits :=
    funext fun n => propext (number_lexisBy numValue)
  rw [Exact, parse_eq, ← hnumber]
  exact (lexisBy numValue).decides_utf8_iff (number_of_isNumber numValue) maxDepth s

/-- A zero in front is taken. -/
theorem zero_in_front_taken : ¬Exact 64 (ascii "01") := by
  have hparse : (parse (ascii "01") 64).isSome = true := by decide
  have hdigits : IsNumberBy Digits (ascii "01") :=
    exists_numText_iff.mp ⟨{ neg := false, int := ascii "01" }, wholeNumber_iff.mp (by decide)⟩
  intro h
  exact (lexisBy numValue).not_isJson (number_of_isNumber numValue)
    ((number_lexisBy numValue).mpr hdigits)
    (not_isNumber_leading_zero (by decide)) 64 (h.mp hparse).2

end Grammar

end ReadyUp.Fleet.JsonText
