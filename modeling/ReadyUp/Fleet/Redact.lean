import ReadyUp.Support.Strto

/-!
# Redaction of the log

What the fleet plugin logs may hold tokens, enrollment codes and credentials. `redact` goes through
a text once: a known prefix at the start of a word, or `Bearer ` anywhere, begins a token, which is
replaced up to its end; everything else is copied. `divide` lists what the rounds of that loop take.

The text before a prefix matters in one way: when it ends inside a token, that token goes on over
the prefix. Every prefix but `Bearer ` consists of token characters and takes what it hides with it
(`redact_hides_iff`).
-/
namespace ReadyUp.Fleet.Redact

open Support

def prefixes : List Bytes :=
  [ascii "rus_", ascii "rfk_", ascii "rhs_", ascii "rst_", ascii "RUE-", ascii "Bearer "]

def isTokenChar (c : UInt8) : Bool :=
  isAlnum c || c == byte '_' || c == byte '-' || c == byte '=' || c == byte '+' || c == byte '/'

def isWordChar (c : UInt8) : Bool := isAlnum c || c == byte '_'

def isBoundary (before : Option UInt8) : Bool := before.all fun c => !isWordChar c

/-- The prefix that begins a token at the front of the text. -/
def tokenAt (before : Option UInt8) (s : Bytes) : Option Bytes :=
  prefixes.find? fun p => p.isPrefixOf s && (p.head? == some (byte 'B') || isBoundary before)

/-- What a round of the loop takes from the text: one character, or a token with its prefix. -/
inductive Part where
  | plain (c : UInt8)
  | token (p t : Bytes)

namespace Part

def redacted : Part → Bytes
  | plain c => [c]
  | token p _ => p ++ ascii "***"

def isToken : Part → Bool
  | plain _ => false
  | token _ _ => true

end Part

/-- The rounds of the loop; each takes at least one character. -/
def divide : ℕ → Option UInt8 → Bytes → List Part
  | 0, _, _ => []
  | _ + 1, _, [] => []
  | fuel + 1, before, c :: s =>
    match tokenAt before (c :: s) with
    | some p =>
      let rest := (c :: s).drop p.length
      let t := rest.takeWhile isTokenChar
      .token p t :: divide fuel (p ++ t).getLast? (rest.dropWhile isTokenChar)
    | none => .plain c :: divide fuel (some c) s

attribute [local simp] divide

def parts (before : Option UInt8) (s : Bytes) : List Part := divide s.length before s

def redactFrom (before : Option UInt8) (s : Bytes) : Bytes := (parts before s).flatMap Part.redacted

def redact (s : Bytes) : Bytes := redactFrom none s

/-- The last thing in the text is a token that may go on. -/
def endsInToken (before : Option UInt8) (s : Bytes) : Bool :=
  (parts before s).getLast?.any Part.isToken

example : redact (ascii "code=RUE-7F3K-9Q trust_me") = ascii "code=RUE-*** trust_me" := by decide

section Parts

variable {before : Option UInt8} {s p : Bytes} {c : UInt8}

theorem tokenAt_eq_some (h : tokenAt before s = some p) : p ∈ prefixes ∧ p <+: s := by
  have hfound := List.find?_some h
  simp only [Bool.and_eq_true, List.isPrefixOf_iff_prefix] at hfound
  exact ⟨List.mem_of_find?_eq_some h, hfound.1⟩

theorem length_pos_of_mem (h : p ∈ prefixes) : 0 < p.length := by
  have hall : (prefixes.all fun p => decide (0 < p.length)) = true := by decide
  exact of_decide_eq_true (List.all_eq_true.mp hall p h)

theorem divide_eq (n : ℕ) :
    ∀ {m : ℕ} (before : Option UInt8) {s : Bytes}, s.length ≤ n → s.length ≤ m →
    divide n before s = divide m before s := by
  induction n with
  | zero =>
    intro m before s hn hm
    obtain rfl := List.length_eq_zero_iff.mp (Nat.le_zero.mp hn)
    cases m <;> rfl
  | succ n ih =>
    intro m before s hn hm
    cases s with
    | nil => cases m <;> rfl
    | cons c s =>
      obtain ⟨m, rfl⟩ : ∃ k, m = k + 1 := ⟨m - 1, by rw [List.length_cons] at hm; omega⟩
      rw [List.length_cons] at hn hm
      rw [divide, divide]
      cases htoken : tokenAt before (c :: s) with
      | none =>
        dsimp only
        rw [ih (m := m) (some c) (by omega) (by omega)]
      | some p =>
        have hpos := length_pos_of_mem (tokenAt_eq_some htoken).1
        have hrest : (((c :: s).drop p.length).dropWhile isTokenChar).length ≤ s.length := by
          have hdrop := (List.dropWhile_suffix isTokenChar (l := (c :: s).drop p.length)).length_le
          rw [List.length_drop, List.length_cons] at hdrop
          omega
        dsimp only
        rw [ih (m := m) _ (by omega) (by omega)]

@[simp] theorem parts_nil (before : Option UInt8) : parts before [] = [] := rfl

theorem parts_of_none (h : tokenAt before (c :: s) = none) :
    parts before (c :: s) = .plain c :: parts (some c) s := by
  rw [parts, List.length_cons, divide, h, parts]

theorem parts_of_token (h : tokenAt before s = some p) {r : Bytes} (hs : s = p ++ r) :
    parts before s = .token p (r.takeWhile isTokenChar) ::
      parts (p ++ r.takeWhile isTokenChar).getLast? (r.dropWhile isTokenChar) := by
  have hpos := length_pos_of_mem (tokenAt_eq_some h).1
  have hdrop : s.drop p.length = r := by rw [hs, List.drop_left]
  have hrest : (r.dropWhile isTokenChar).length ≤ r.length :=
    (List.dropWhile_suffix isTokenChar (l := r)).length_le
  have hlength : s.length = p.length + r.length := by rw [hs, List.length_append]
  obtain ⟨c, s', rfl⟩ : ∃ c s', s = c :: s' := List.exists_cons_of_length_pos (by omega)
  rw [parts, List.length_cons, divide, h]
  dsimp only
  rw [hdrop, parts]
  rw [List.length_cons] at hlength
  rw [divide_eq _ (m := (r.dropWhile isTokenChar).length) _ (by omega) le_rfl]

@[simp] theorem redactFrom_nil (before : Option UInt8) : redactFrom before [] = [] := rfl

theorem redactFrom_of_none (h : tokenAt before (c :: s) = none) :
    redactFrom before (c :: s) = c :: redactFrom (some c) s := by
  simp only [redactFrom, parts_of_none h, List.flatMap_cons, Part.redacted, List.singleton_append]

theorem redactFrom_of_token (h : tokenAt before s = some p) {r : Bytes} (hs : s = p ++ r) :
    redactFrom before s = p ++ (ascii "***" ++
      redactFrom (p ++ r.takeWhile isTokenChar).getLast? (r.dropWhile isTokenChar)) := by
  simp only [redactFrom, parts_of_token h hs, List.flatMap_cons, Part.redacted, List.append_assoc]

@[simp] theorem endsInToken_nil (before : Option UInt8) : endsInToken before [] = false := rfl

theorem endsInToken_of_none (h : tokenAt before (c :: s) = none) :
    endsInToken before (c :: s) = endsInToken (some c) s := by
  simp only [endsInToken, parts_of_none h, List.getLast?_cons]
  cases (parts (some c) s).getLast? <;> simp [Part.isToken]

theorem endsInToken_of_token (h : tokenAt before s = some p) {r : Bytes} (hs : s = p ++ r) :
    endsInToken before s = (r.all isTokenChar ||
      endsInToken (p ++ r.takeWhile isTokenChar).getLast? (r.dropWhile isTokenChar)) := by
  simp only [endsInToken, parts_of_token h hs, List.getLast?_cons]
  by_cases hall : r.all isTokenChar = true
  · have hnil : r.dropWhile isTokenChar = [] := List.dropWhile_eq_nil_iff.mpr (by simpa using hall)
    simp [hnil, hall, Part.isToken]
  · rw [Bool.not_eq_true] at hall
    cases hlast :
      (parts (p ++ r.takeWhile isTokenChar).getLast? (r.dropWhile isTokenChar)).getLast? with
    | some q => simp [hall]
    | none =>
      -- something is left, so there is another round
      exfalso
      have hne : r.dropWhile isTokenChar ≠ [] := by
        intro hnil
        rw [List.dropWhile_eq_nil_iff] at hnil
        exact absurd (List.all_eq_true.mpr hnil) (by simp [hall])
      obtain ⟨c, t, hct⟩ := List.exists_cons_of_ne_nil hne
      rw [hct, List.getLast?_eq_none_iff, parts, List.length_cons, divide] at hlast
      split at hlast <;> cases hlast

end Parts

section Append

variable {before : Option UInt8} {a p r s : Bytes}

/-- The text does not end inside a word. -/
def EndsWord (a : Bytes) : Prop := isBoundary a.getLast? = true

instance (a : Bytes) : Decidable (EndsWord a) := inferInstanceAs (Decidable (_ = true))

/-- Only the last character of a prefix is no word character. -/
theorem isWordChar_of_mem_dropLast (h : p ∈ prefixes) {c : UInt8} (hc : c ∈ p.dropLast) :
    isWordChar c = true := by
  have hall : (prefixes.all fun p => p.dropLast.all isWordChar) = true := by decide
  exact List.all_eq_true.mp (List.all_eq_true.mp hall p h) c hc

theorem isPrefixOf_append (h : p ∈ prefixes) (ha : EndsWord a) (hne : a ≠ []) (r : Bytes) :
    p.isPrefixOf (a ++ r) = p.isPrefixOf a := by
  rw [Bool.eq_iff_iff, List.isPrefixOf_iff_prefix, List.isPrefixOf_iff_prefix]
  refine ⟨fun hp => ?_, fun hp => hp.trans (List.prefix_append a r)⟩
  rcases List.prefix_or_prefix_of_prefix hp (List.prefix_append a r) with hshort | ⟨x, hx⟩
  · exact hshort
  · -- the last character of `a` would stand inside the prefix
    cases x with
    | nil =>
      rw [List.append_nil] at hx
      exact hx ▸ List.prefix_refl _
    | cons y x =>
      have hlast : a.getLast hne ∈ p.dropLast := by
        rw [← hx, List.dropLast_append_of_ne_nil (List.cons_ne_nil _ _)]
        exact List.mem_append_left _ (List.getLast_mem hne)
      have hword := isWordChar_of_mem_dropLast h hlast
      rw [EndsWord, List.getLast?_eq_getLast_of_ne_nil hne] at ha
      simp [isBoundary, hword] at ha

theorem tokenAt_append (ha : EndsWord a) (hne : a ≠ []) (before : Option UInt8) (r : Bytes) :
    tokenAt before (a ++ r) = tokenAt before a := by
  have hcongr : ∀ ps : List Bytes, (∀ p ∈ ps, p ∈ prefixes) →
      (ps.find? fun p => p.isPrefixOf (a ++ r) &&
        (p.head? == some (byte 'B') || isBoundary before)) =
        ps.find? fun p => p.isPrefixOf a && (p.head? == some (byte 'B') || isBoundary before) := by
    intro ps
    induction ps with
    | nil => exact fun _ => rfl
    | cons p ps ih =>
      intro hps
      rw [List.forall_mem_cons] at hps
      rw [List.find?_cons, List.find?_cons, isPrefixOf_append hps.1 ha hne, ih hps.2]
  exact hcongr prefixes fun _ hp => hp

theorem getLast?_of_suffix {x y : Bytes} (h : x <:+ y) (hne : x ≠ []) :
    x.getLast? = y.getLast? := by
  obtain ⟨z, rfl⟩ := h
  rw [List.getLast?_append_of_ne_nil _ hne]

theorem isTokenChar_head_dropWhile (s : Bytes) :
    ∀ c ∈ (s.dropWhile isTokenChar).head?, isTokenChar c = false := by
  intro c hc
  have hhead := List.head?_dropWhile_not isTokenChar s
  rw [Option.mem_def.mp hc] at hhead
  simpa using hhead

/-- At the end of a token it does not matter what stood before. -/
theorem redactFrom_congr (h : ∀ c ∈ s.head?, isTokenChar c = false)
    (before before' : Option UInt8) : redactFrom before s = redactFrom before' s := by
  cases s with
  | nil => rfl
  | cons c s =>
    have hnone : ∀ b, tokenAt b (c :: s) = none := by
      intro b
      rw [tokenAt, List.find?_eq_none]
      intro p hp
      have hall : (prefixes.all fun p => p.head?.any isTokenChar) = true := by decide
      have hhead := List.all_eq_true.mp hall p hp
      have hc := h c rfl
      cases p with
      | nil => cases hhead
      | cons d p =>
        have hne : d ≠ c := by
          rintro rfl
          simp [hc] at hhead
        simp [List.isPrefixOf, hne]
    simp only [redactFrom, parts_of_none (hnone _)]

/-- A text that ends a word is redacted apart from what follows, except that its last token may
go on. -/
theorem redactFrom_append (n : ℕ) :
    ∀ {a : Bytes} (before : Option UInt8), a.length ≤ n → EndsWord a → a ≠ [] →
    ∀ r, redactFrom before (a ++ r) = redactFrom before a ++
      if endsInToken before a then redactFrom none (r.dropWhile isTokenChar)
      else redactFrom a.getLast? r := by
  induction n with
  | zero =>
    intro a before hn _ hne
    exact absurd (List.length_eq_zero_iff.mp (Nat.le_zero.mp hn)) hne
  | succ n ih =>
    intro a before hn ha hne r
    have htokens := tokenAt_append ha hne before r
    cases htoken : tokenAt before a with
    | none =>
      obtain ⟨c, a, rfl⟩ := List.exists_cons_of_ne_nil hne
      rw [htoken, List.cons_append] at htokens
      rw [List.cons_append, redactFrom_of_none htokens, redactFrom_of_none htoken,
        endsInToken_of_none htoken, List.cons_append]
      by_cases hnil : a = []
      · simp [hnil]
      · have hlast := getLast?_of_suffix (List.suffix_cons c a) hnil
        rw [EndsWord, ← hlast] at ha
        rw [List.length_cons] at hn
        rw [ih (some c) (by omega) ha hnil r, hlast]
    | some p =>
      obtain ⟨hp, r', rfl⟩ := tokenAt_eq_some htoken
      rw [htoken] at htokens
      rw [redactFrom_of_token htokens (List.append_assoc p r' r), redactFrom_of_token htoken rfl,
        endsInToken_of_token htoken rfl]
      by_cases hall : r'.all isTokenChar = true
      · -- the token takes the rest, and goes on
        have htake : ∀ c ∈ r', isTokenChar c = true := by simpa using hall
        have hdrop : r'.dropWhile isTokenChar = [] := List.dropWhile_eq_nil_iff.mpr htake
        rw [List.dropWhile_append_of_pos htake, hdrop]
        simp only [hall, Bool.true_or, if_true, redactFrom_nil, List.append_nil, List.append_assoc]
        rw [redactFrom_congr (isTokenChar_head_dropWhile r) _ none]
      · have hdrop : r'.dropWhile isTokenChar ≠ [] := by
          intro hnil
          rw [List.dropWhile_eq_nil_iff] at hnil
          exact hall (by simpa using hnil)
        have hsuffix : r'.dropWhile isTokenChar <:+ p ++ r' :=
          (List.dropWhile_suffix isTokenChar).trans (List.suffix_append p r')
        have hlast := getLast?_of_suffix hsuffix hdrop
        have hpos := length_pos_of_mem hp
        have hshort := (List.dropWhile_suffix isTokenChar (l := r')).length_le
        rw [EndsWord, ← hlast] at ha
        rw [List.length_append] at hn
        rw [Bool.not_eq_true] at hall
        have hsplit : (r' ++ r).dropWhile isTokenChar = r'.dropWhile isTokenChar ++ r := by
          rw [List.dropWhile_append, if_neg (by simpa using hdrop)]
        rw [hsplit, redactFrom_congr (hsplit ▸ isTokenChar_head_dropWhile (r' ++ r)) _
          (p ++ r'.takeWhile isTokenChar).getLast?, ih _ (by omega) ha hdrop r, hlast]
        simp [hall]

end Append

section Hiding

variable {a b p t : Bytes}

/-- The prefix that ends with a blank. -/
def bearer : Bytes := ascii "Bearer "

theorem isTokenChar_of_mem_prefixes (h : p ∈ prefixes) (hne : p ≠ bearer) :
    ∀ c ∈ p, isTokenChar c = true := by
  have hall : (prefixes.all fun p => decide (p = bearer) || p.all isTokenChar) = true := by decide
  have hp := List.all_eq_true.mp hall p h
  simpa [hne] using hp

theorem tokenAt_of_mem (h : p ∈ prefixes) {before : Option UInt8}
    (hbefore : isBoundary before = true) (r : Bytes) : tokenAt before (p ++ r) = some p := by
  simp only [prefixes, List.mem_cons, List.not_mem_nil, or_false] at h
  rw [tokenAt, hbefore]
  obtain rfl | rfl | rfl | rfl | rfl | rfl := h <;> rfl

theorem redactFrom_token (h : p ∈ prefixes) {before : Option UInt8}
    (hbefore : isBoundary before = true)
    (ht : ∀ c ∈ t, isTokenChar c = true) (hb : ∀ c ∈ b.head?, isTokenChar c = false) :
    redactFrom before (p ++ (t ++ b)) = p ++ (ascii "***" ++ redactFrom none b) := by
  have hdrop : (t ++ b).dropWhile isTokenChar = b := by
    rw [List.dropWhile_append_of_pos ht]
    cases b with
    | nil => rfl
    | cons c b => simp [hb c rfl]
  rw [redactFrom_of_token (tokenAt_of_mem h hbefore _) rfl, hdrop, redactFrom_congr hb _ none]

/-- What the token after a prefix does not change, wherever the text before it ends. -/
def Hides (a p : Bytes) : Prop :=
  ∀ t₁ t₂ b : Bytes, (∀ c ∈ t₁, isTokenChar c = true) → (∀ c ∈ t₂, isTokenChar c = true) →
    (∀ c ∈ b.head?, isTokenChar c = false) → redact (a ++ p ++ t₁ ++ b) = redact (a ++ p ++ t₂ ++ b)

theorem redact_append (ha : EndsWord a) (r : Bytes) :
    redact (a ++ r) = redact a ++
      if endsInToken none a then redactFrom none (r.dropWhile isTokenChar)
      else redactFrom a.getLast? r := by
  by_cases hne : a = []
  · simp [hne, redact]
  · exact redactFrom_append a.length none le_rfl ha hne r

/-- A prefix hides the token after it, unless it is `Bearer ` and a token before it goes on up to
the blank. -/
theorem redact_hides_iff (a p : Bytes) (ha : EndsWord a) (hp : p ∈ prefixes) :
    Hides a p ↔ ¬(p = bearer ∧ endsInToken none a = true) := by
  constructor
  · rintro h ⟨rfl, hopen⟩
    have hsame := h [byte 'a'] [byte 'b'] [] (List.forall_mem_singleton.mpr (by decide))
      (List.forall_mem_singleton.mpr (by decide)) fun c hc => by cases hc
    simp only [List.append_assoc, redact_append ha, hopen, if_true,
      List.append_cancel_left_eq] at hsame
    exact absurd hsame (by decide)
  · intro h t₁ t₂ b ht₁ ht₂ hb
    simp only [List.append_assoc, redact_append ha]
    by_cases hopen : endsInToken none a = true
    · -- the token before takes the prefix and what follows it
      have hne : p ≠ bearer := fun heq => h ⟨heq, hopen⟩
      have hdrop : ∀ t : Bytes, (∀ c ∈ t, isTokenChar c = true) →
          (p ++ (t ++ b)).dropWhile isTokenChar = b.dropWhile isTokenChar := by
        intro t ht
        rw [List.dropWhile_append_of_pos (isTokenChar_of_mem_prefixes hp hne),
          List.dropWhile_append_of_pos ht]
      simp only [hopen, if_true, hdrop t₁ ht₁, hdrop t₂ ht₂]
    · rw [if_neg hopen, if_neg hopen, redactFrom_token hp ha ht₁ hb, redactFrom_token hp ha ht₂ hb]

theorem redact_hides_word : Hides (ascii "code=") (ascii "RUE-") :=
  (redact_hides_iff (ascii "code=") (ascii "RUE-") (by decide) (by decide)).mpr (by decide)

/-- A credential behind a scheme that is written twice stays in the log. -/
theorem bearer_twice_shows : ¬∀ a p : Bytes, EndsWord a → p ∈ prefixes → Hides a p := by
  intro h
  have hsame := h bearer bearer (by decide) (by decide) [byte 'a'] [byte 'b'] []
    (List.forall_mem_singleton.mpr (by decide)) (List.forall_mem_singleton.mpr (by decide))
    fun c hc => by cases hc
  exact absurd hsame (by decide)

end Hiding

end ReadyUp.Fleet.Redact
