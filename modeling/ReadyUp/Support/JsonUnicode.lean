import Mathlib.Data.List.Chain
import ReadyUp.Support.JsonStrings
import ReadyUp.Support.JsonNumbers

/-!
# Unicode in a JSON text

A text is UTF-8 when it is made of the bytes of scalar values. A byte below 0x80 is a character of
its own, so the text may be cut there (`IsUtf8.split`), and every string of a JSON text in UTF-8 is
in UTF-8 itself (`IsUtf8.string`).

`replaced` is what a string stands for: a high surrogate and the low one behind it are one
character, and a surrogate that stands alone is replaced. It is in UTF-8 again (`isUtf8_replaced`).
-/
namespace ReadyUp.Support.JsonTree

open JsonScan JsonGrammar

section Utf8

/-- What a character may be: every code point that is no surrogate. -/
def IsScalar (cp : ℕ) : Prop := cp < 0xD800 ∨ 0xE000 ≤ cp ∧ cp < 0x110000

/-- The bytes of a list of characters. -/
def IsUtf8 (s : Bytes) : Prop := ∃ cps : List ℕ, (∀ cp ∈ cps, IsScalar cp) ∧ s = cps.flatMap putUtf8

theorem isUtf8_nil : IsUtf8 [] := ⟨[], fun _ h => (by cases h), rfl⟩

theorem isUtf8_putUtf8 {cp : ℕ} (h : IsScalar cp) : IsUtf8 (putUtf8 cp) :=
  ⟨[cp], by simpa using h, by simp⟩

theorem IsUtf8.append {s t : Bytes} (hs : IsUtf8 s) (ht : IsUtf8 t) : IsUtf8 (s ++ t) := by
  obtain ⟨cps, hcps, rfl⟩ := hs
  obtain ⟨cps', hcps', rfl⟩ := ht
  refine ⟨cps ++ cps', ?_, by rw [List.flatMap_append]⟩
  intro cp hcp
  rcases List.mem_append.mp hcp with h | h
  · exact hcps cp h
  · exact hcps' cp h

theorem isUtf8_singleton {c : UInt8} (hc : c < 0x80) : IsUtf8 [c] := by
  have hlt : c.toNat < 0x80 := UInt8.lt_iff_toNat_lt.mp hc
  refine ⟨[c.toNat], ?_, ?_⟩
  · simp [IsScalar]
    omega
  · simp [putUtf8, hlt]

theorem putUtf8_of_mem {cp : ℕ} (h : IsScalar cp) {c : UInt8} (hc : c ∈ putUtf8 cp)
    (hlt : c < 0x80) : putUtf8 cp = [c] := by
  have hlt' : c.toNat < 0x80 := UInt8.lt_iff_toNat_lt.mp hlt
  unfold IsScalar at h
  unfold putUtf8 at hc ⊢
  split_ifs at hc ⊢ with h₁ h₂ h₃
  · rw [List.mem_singleton.mp hc]
  · simp only [List.mem_cons, List.not_mem_nil, or_false] at hc
    rcases hc with rfl | rfl <;> simp at hlt' <;> omega
  · simp only [List.mem_cons, List.not_mem_nil, or_false] at hc
    rcases hc with rfl | rfl | rfl <;> simp at hlt' <;> omega
  · simp only [List.mem_cons, List.not_mem_nil, or_false] at hc
    rcases hc with rfl | rfl | rfl | rfl <;> simp at hlt' <;> omega

theorem IsUtf8.split {s t : Bytes} {c : UInt8} (h : IsUtf8 (s ++ c :: t)) (hc : c < 0x80) :
    IsUtf8 s ∧ IsUtf8 t := by
  obtain ⟨cps, hcps, heq⟩ := h
  induction cps generalizing s with
  | nil => simp at heq
  | cons cp cps ih =>
    rw [List.forall_mem_cons] at hcps
    obtain ⟨hcp, hcps⟩ := hcps
    rw [List.flatMap_cons] at heq
    rcases List.append_eq_append_iff.mp heq with ⟨r, hr, htail⟩ | ⟨r, rfl, htail⟩
    · cases r with
      | nil =>
        rw [List.append_nil] at hr
        rw [List.nil_append] at htail
        have hrest := @ih [] hcps (by simpa using htail)
        refine ⟨?_, hrest.2⟩
        rw [← hr]
        exact isUtf8_putUtf8 hcp
      | cons x r =>
        rw [List.cons_append, List.cons.injEq] at htail
        obtain ⟨rfl, rfl⟩ := htail
        have hone := putUtf8_of_mem hcp (hr ▸ List.mem_append_right s List.mem_cons_self) hc
        rw [hone] at hr
        have hs : s = [] := by
          have hlen := congrArg List.length hr
          simp only [List.length_append, List.length_cons, List.length_nil] at hlen
          exact List.length_eq_zero_iff.mp (by omega)
        subst hs
        simp only [List.nil_append, List.cons.injEq] at hr
        obtain ⟨-, rfl⟩ := hr
        exact ⟨isUtf8_nil, cps, hcps, by simp⟩
    · obtain ⟨hs, ht⟩ := ih hcps htail.symm
      exact ⟨(isUtf8_putUtf8 hcp).append hs, ht⟩

end Utf8

section Infix

open Node

variable {N : Bytes → Prop} {levels : ℕ}

theorem mem_stringsMembers {ms : List (Padded (List Chr) × Padded Node)} {x : List Chr} :
    x ∈ stringsMembers ms ↔ ∃ m ∈ ms, x = m.1.val ∨ x ∈ m.2.val.strings := by
  induction ms with
  | nil => simp [stringsMembers]
  | cons m ms ih =>
    obtain ⟨k, w, v, w'⟩ := m
    simp [stringsMembers, ih, or_assoc]

theorem mem_stringsItems {as : List (Padded Node)} {x : List Chr} :
    x ∈ stringsItems as ↔ ∃ a ∈ as, x ∈ a.val.strings := by
  induction as with
  | nil => simp [stringsItems]
  | cons a as ih =>
    obtain ⟨w, v, w'⟩ := a
    simp [stringsItems, ih]

theorem infix_textMembers {ms : List (Padded (List Chr) × Padded Node)}
    {m : Padded (List Chr) × Padded Node} (h : m ∈ ms) :
    literal m.1.val <:+: textMembers ms ∧ m.2.val.text <:+: textMembers ms := by
  induction ms with
  | nil => cases h
  | cons m' ms ih =>
    obtain ⟨k, w, v, w'⟩ := m'
    rw [textMembers]
    rcases List.mem_cons.mp h with rfl | h
    · refine ⟨⟨k.before, _, by rw [List.append_assoc]⟩, ?_⟩
      refine ⟨k.before ++ (literal k.val ++ (k.after ++ byte ':' :: w)),
        w' ++ if ms.isEmpty then [] else byte ',' :: textMembers ms, ?_⟩
      simp [List.append_assoc]
    · obtain ⟨hkey, hval⟩ := ih h
      have hne : ms ≠ [] := List.ne_nil_of_mem h
      have hrest : textMembers ms <:+: k.before ++ (literal k.val ++ (k.after ++ byte ':' :: (w ++
          (v.text ++ (w' ++ byte ',' :: textMembers ms))))) :=
        ⟨k.before ++ (literal k.val ++
          (k.after ++ byte ':' :: (w ++ (v.text ++ (w' ++ [byte ',']))))), [],
          by simp [List.append_assoc]⟩
      simp only [List.isEmpty_iff, hne, if_false]
      exact ⟨hkey.trans hrest, hval.trans hrest⟩

theorem infix_textItems {as : List (Padded Node)} {a : Padded Node} (h : a ∈ as) :
    a.val.text <:+: textItems as := by
  induction as with
  | nil => cases h
  | cons a' as ih =>
    obtain ⟨w, v, w'⟩ := a'
    rw [textItems]
    rcases List.mem_cons.mp h with rfl | h
    · exact ⟨w, _, by rw [List.append_assoc]⟩
    · have hne : as ≠ [] := List.ne_nil_of_mem h
      have hrest : textItems as <:+: w ++ (v.text ++ (w' ++ byte ',' :: textItems as)) :=
        ⟨w ++ (v.text ++ (w' ++ [byte ','])), [], by simp [List.append_assoc]⟩
      simp only [List.isEmpty_iff, hne, if_false]
      exact (ih h).trans hrest

theorem Node.Fits.literal_infix {t : Node} (h : t.Fits N levels) {x : List Chr}
    (hx : x ∈ t.strings) : (∀ c ∈ x, Chr.Ok c) ∧ literal x <:+: t.text := by
  induction h with
  | null => simp [strings] at hx
  | bool => simp [strings] at hx
  | num => simp [strings] at hx
  | str hok =>
    rw [strings, List.mem_singleton] at hx
    rw [hx, text]
    exact ⟨hok, List.infix_rfl⟩
  | @obj _ gap ms _ _ hkeys _ ih =>
    rw [strings, mem_stringsMembers] at hx
    obtain ⟨m, hm, hx⟩ := hx
    obtain ⟨hkey, hval⟩ := infix_textMembers hm
    have hne : ms ≠ [] := List.ne_nil_of_mem hm
    have hall : textMembers ms <:+: (Node.obj gap ms).text := by
      rw [text]
      simp only [List.isEmpty_iff, hne, if_false]
      exact ⟨[byte '{'], [byte '}'], by simp⟩
    rcases hx with rfl | hx
    · exact ⟨hkeys m hm, hkey.trans hall⟩
    · obtain ⟨hok, hpart⟩ := ih m hm hx
      exact ⟨hok, hpart.trans (hval.trans hall)⟩
  | @arr _ gap as _ _ _ ih =>
    rw [strings, mem_stringsItems] at hx
    obtain ⟨a, ha, hx⟩ := hx
    have hne : as ≠ [] := List.ne_nil_of_mem ha
    have hall : textItems as <:+: (Node.arr gap as).text := by
      rw [text]
      simp only [List.isEmpty_iff, hne, if_false]
      exact ⟨[byte '['], [byte ']'], by simp⟩
    obtain ⟨hok, hpart⟩ := ih a ha hx
    exact ⟨hok, hpart.trans ((infix_textItems ha).trans hall)⟩

theorem IsUtf8.string {t : Padded Node} {s : Bytes} (hs : IsUtf8 s) (h : Spells N levels t s)
    {x : List Chr} (hx : x ∈ t.val.strings) : (∀ c ∈ x, Chr.Ok c) ∧ IsUtf8 (stringText x) := by
  obtain ⟨-, -, hfits, rfl⟩ := h
  obtain ⟨hok, a, b, hpart⟩ := hfits.literal_infix hx
  refine ⟨hok, ?_⟩
  have htext : t.before ++ (t.val.text ++ t.after) =
      (t.before ++ a) ++ byte '"' :: (stringText x ++ byte '"' :: (b ++ t.after)) := by
    rw [← hpart]
    simp [literal]
  rw [htext] at hs
  exact ((hs.split (by decide)).2.split (by decide)).1

/-- A reader that takes every number of the grammar decides it, for texts in UTF-8, exactly where a
text that it takes is in UTF-8 and has no other number. -/
theorem Lexis.decides_utf8_iff {α : Type} {D : Dialect α} (L : Lexis D)
    (hnumber : ∀ n, IsNumber n → L.Number n) (nesting : ℕ) (s : Bytes) :
    ((D.parse (nesting + 1) s).isSome = true ↔ IsUtf8 s ∧ IsJson nesting s) ↔
      ∀ t, Spells L.Number (nesting + 1) t s → IsUtf8 s ∧ ∀ n ∈ t.val.numbers, IsNumber n := by
  have hdecides := L.decides_iff hnumber nesting s
  have hread : (D.parse (nesting + 1) s).isSome = true ↔ ∃ t, Spells L.Number (nesting + 1) t s :=
    L.isSome_parse_iff
  constructor
  · intro h t ht
    obtain ⟨hutf, hjson⟩ := h.mp (hread.mpr ⟨t, ht⟩)
    exact ⟨hutf, hdecides.mp ⟨fun _ => hjson, fun _ => hread.mpr ⟨t, ht⟩⟩ t ht⟩
  · intro h
    rw [hdecides.mpr fun t ht => (h t ht).2]
    constructor
    · intro hjson
      obtain ⟨t, ht⟩ := hjson
      exact ⟨(h t (ht.mono hnumber)).1, t, ht⟩
    · exact And.right

end Infix

section Replaced

/-- A high surrogate and the low one behind it are one character. -/
def paired (u v : ℕ) : Option Bytes :=
  if isHighSurrogate u ∧ isLowSurrogate v
  then some (putUtf8 (0x10000 + (u - 0xD800) * 1024 + (v - 0xDC00)))
  else none

/-- A surrogate that stands alone is replaced. -/
def alone (u : ℕ) : Bytes := putUtf8 (if isHighSurrogate u ∨ isLowSurrogate u then 0xFFFD else u)

/-- What the characters of a string stand for, in order. -/
def replaced (x : List Chr) : Bytes := decode paired alone x

theorem hexValue_lt {c : UInt8} : (hexValue c).getD 0 < 16 := by
  have hlt : c.toNat < 256 := c.toNat_lt
  unfold hexValue
  split_ifs with h₁ h₂ h₃
  · obtain ⟨-, h⟩ := h₁
    have h' : c.toNat ≤ 57 := UInt8.le_iff_toNat_le.mp h
    simp only [Option.getD_some]
    omega
  · obtain ⟨-, h⟩ := h₂
    have h' : c.toNat ≤ 102 := UInt8.le_iff_toNat_le.mp h
    simp only [Option.getD_some]
    omega
  · obtain ⟨-, h⟩ := h₃
    have h' : c.toNat ≤ 70 := UInt8.le_iff_toNat_le.mp h
    simp only [Option.getD_some]
    omega
  · simp

theorem codeUnit_lt (a b c d : UInt8) : codeUnit a b c d < 0x10000 := by
  have ha := hexValue_lt (c := a)
  have hb := hexValue_lt (c := b)
  have hc := hexValue_lt (c := c)
  have hd := hexValue_lt (c := d)
  unfold codeUnit
  omega

theorem isUtf8_paired {u v : ℕ} {x : Bytes} (h : paired u v = some x) : IsUtf8 x := by
  unfold paired at h
  split_ifs at h with hpair
  rw [← Option.some.inj h]
  apply isUtf8_putUtf8
  simp [isHighSurrogate, isLowSurrogate] at hpair
  unfold IsScalar
  omega

theorem isUtf8_alone {u : ℕ} (h : u < 0x10000) : IsUtf8 (alone u) := by
  unfold alone
  apply isUtf8_putUtf8
  unfold IsScalar
  split_ifs with hsurr
  · omega
  · simp [isHighSurrogate, isLowSurrogate] at hsurr
    omega

theorem isUtf8_unescape (e : UInt8) : IsUtf8 (unescape e).toList := by
  unfold unescape
  split_ifs <;> first | exact isUtf8_singleton (by decide) | exact isUtf8_nil

theorem Chr.lt_of_isHexDigit {c : UInt8} (h : Chr.isHexDigit c = true) : c < 0x80 := by
  obtain ⟨d, hd⟩ := isHexDigit_iff.mp h
  unfold hexValue at hd
  rw [UInt8.lt_iff_toNat_lt]
  split_ifs at hd with h₁ h₂ h₃
  · have h' : c.toNat ≤ 57 := UInt8.le_iff_toNat_le.mp h₁.2
    exact lt_of_le_of_lt h' (by decide)
  · have h' : c.toNat ≤ 102 := UInt8.le_iff_toNat_le.mp h₂.2
    exact lt_of_le_of_lt h' (by decide)
  · have h' : c.toNat ≤ 70 := UInt8.le_iff_toNat_le.mp h₃.2
    exact lt_of_le_of_lt h' (by decide)

theorem IsUtf8.unicode {p t : Bytes} {a b c d : UInt8} (hok : Chr.Ok (.unicode a b c d))
    (h : IsUtf8 (p ++ ((Chr.unicode a b c d).text ++ t))) : IsUtf8 p ∧ IsUtf8 t := by
  obtain ⟨ha, hb, hc, hd⟩ := hok
  simp only [Chr.text, List.cons_append, List.nil_append] at h
  obtain ⟨hp, h⟩ := h.split (by decide)
  have h₁ := (IsUtf8.split (s := []) h (by decide)).2
  have h₂ := (IsUtf8.split (s := []) h₁ (Chr.lt_of_isHexDigit ha)).2
  have h₃ := (IsUtf8.split (s := []) h₂ (Chr.lt_of_isHexDigit hb)).2
  have h₄ := (IsUtf8.split (s := []) h₃ (Chr.lt_of_isHexDigit hc)).2
  exact ⟨hp, (IsUtf8.split (s := []) h₄ (Chr.lt_of_isHexDigit hd)).2⟩

/-- The bytes in front of the string may begin a character that goes on in it. -/
theorem isUtf8_append_replaced {x : List Chr} (hx : ∀ c ∈ x, Chr.Ok c) {p : Bytes}
    (h : IsUtf8 (p ++ stringText x)) : IsUtf8 (p ++ replaced x) := by
  unfold replaced
  fun_induction decode paired alone x generalizing p with
  | case1 => exact h
  | case2 c x ih =>
    rw [List.forall_mem_cons] at hx
    have hrest := @ih hx.2 (p ++ [c]) (by simpa [stringText_cons, Chr.text] using h)
    simpa using hrest
  | case3 e x ih =>
    rw [List.forall_mem_cons] at hx
    rw [stringText_cons] at h
    simp only [Chr.text, List.cons_append, List.nil_append] at h
    obtain ⟨hp, h⟩ := h.split (by decide)
    have he : e < 0x80 := by
      have hletter : e ∈ Chr.letters := hx.1
      exact of_decide_eq_true (List.all_eq_true.mp
        (by decide : Chr.letters.all (· < 0x80) = true) e hletter)
    have hrest := @ih hx.2 [] (IsUtf8.split (s := []) h he).2
    exact hp.append ((isUtf8_unescape e).append hrest)
  | case4 a b c d a' b' c' d' x s htwo ih =>
    rw [List.forall_mem_cons, List.forall_mem_cons] at hx
    rw [stringText_cons] at h
    obtain ⟨hp, h⟩ := h.unicode hx.1
    rw [stringText_cons] at h
    have hrest := @ih hx.2.2 [] (IsUtf8.unicode (p := []) hx.2.1 h).2
    exact hp.append ((isUtf8_paired htwo).append hrest)
  | case5 a b c d a' b' c' d' x htwo ih =>
    rw [List.forall_mem_cons] at hx
    rw [stringText_cons] at h
    obtain ⟨hp, h⟩ := h.unicode hx.1
    have hrest := @ih hx.2 [] h
    exact hp.append ((isUtf8_alone (codeUnit_lt a b c d)).append hrest)
  | case6 a b c d x _ ih =>
    rw [List.forall_mem_cons] at hx
    rw [stringText_cons] at h
    obtain ⟨hp, h⟩ := h.unicode hx.1
    have hrest := @ih hx.2 [] h
    exact hp.append ((isUtf8_alone (codeUnit_lt a b c d)).append hrest)

theorem isUtf8_replaced {x : List Chr} (hx : ∀ c ∈ x, Chr.Ok c) (h : IsUtf8 (stringText x)) :
    IsUtf8 (replaced x) := isUtf8_append_replaced (p := []) hx h

/-- The reader reads the text as one value, and takes every string in it for what it stands for. -/
def Lexis.Sound {α : Type} {D : Dialect α} (L : Lexis D) (read : Option α) (levels : ℕ)
    (s : Bytes) : Prop :=
  ∀ t, Spells L.Number levels t s → read = some (L.eval t.val) ∧
    ∀ x ∈ t.val.strings, D.string (literal x) = some (replaced x, []) ∧ IsUtf8 (replaced x)

theorem Lexis.sound_iff {α : Type} {D : Dialect α} (L : Lexis D) {P : List Chr → Prop}
    (hP : ∀ x, L.decode x = replaced x ↔ P x) {read : Option α} {levels : ℕ} {s : Bytes}
    (hread : read = D.parse levels s) (hs : IsUtf8 s) :
    L.Sound read levels s ↔ ∀ t, Spells L.Number levels t s → ∀ x ∈ t.val.strings, P x := by
  have hstring : ∀ {x}, (∀ c ∈ x, Chr.Ok c) → D.string (literal x) = some (L.decode x, []) := by
    intro x hx
    have hcomplete := L.string_complete [] hx
    rwa [List.append_nil] at hcomplete
  constructor
  · intro h t ht x hx
    obtain ⟨hok, -⟩ := hs.string ht hx
    obtain ⟨hreplaced, -⟩ := (h t ht).2 x hx
    rw [hstring hok] at hreplaced
    simp only [Option.some.injEq, Prod.mk.injEq, and_true] at hreplaced
    exact (hP x).mp hreplaced
  · intro h t ht
    refine ⟨hread.trans (L.parse_iff.mpr ⟨t, ht, rfl⟩), fun x hx => ?_⟩
    obtain ⟨hok, hutf⟩ := hs.string ht hx
    refine ⟨?_, isUtf8_replaced hok hutf⟩
    rw [hstring hok, (hP x).mpr (h t ht x hx)]

end Replaced

section Surrogates

namespace Chr

def isHigh : Chr → Bool
  | unicode a b c d => isHighSurrogate (codeUnit a b c d)
  | _ => false

def isLow : Chr → Bool
  | unicode a b c d => isLowSurrogate (codeUnit a b c d)
  | _ => false

end Chr

/-- Every high surrogate has a low one behind it, and every low one a high one before it. -/
def NoneAlone : List Chr → Prop
  | [] => True
  | [c] => c.isHigh = false ∧ c.isLow = false
  | c :: c' :: x =>
    if c.isHigh then c'.isLow = true ∧ NoneAlone x else c.isLow = false ∧ NoneAlone (c' :: x)

/-- No two high surrogates are behind each other. -/
def NoTwoHigh (x : List Chr) : Prop := x.IsChain fun c c' => ¬(c.isHigh = true ∧ c'.isHigh = true)

theorem Spells.no_escape {t : Padded Node} {s : Bytes} (h : Spells N levels t s)
    (hs : byte '\\' ∉ s) {x : List Chr}
    (hx : x ∈ t.val.strings) : ∀ c ∈ x, c.isHigh = false ∧ c.isLow = false := by
  obtain ⟨-, -, hfits, rfl⟩ := h
  obtain ⟨-, hpart⟩ := hfits.literal_infix hx
  have hnot : byte '\\' ∉ stringText x := by
    intro hmem
    have hliteral : byte '\\' ∈ literal x := List.mem_cons_of_mem _ (List.mem_append_left _ hmem)
    exact hs (List.mem_append_right _ (List.mem_append_left _ (hpart.subset hliteral)))
  intro c hc
  cases c with
  | unicode a b c d =>
    have hmem : byte '\\' ∈ stringText x := List.mem_flatMap.mpr ⟨_, hc, List.mem_cons_self⟩
    exact absurd hmem hnot
  | _ => exact ⟨rfl, rfl⟩

theorem noneAlone_of_plain {x : List Chr}
    (h : ∀ c ∈ x, c.isHigh = false ∧ c.isLow = false) : NoneAlone x := by
  induction x with
  | nil => trivial
  | cons c x ih =>
    rw [List.forall_mem_cons] at h
    cases x with
    | nil => exact h.1
    | cons c' x =>
      rw [NoneAlone, h.1.1, if_neg Bool.false_ne_true]
      exact ⟨h.1.2, ih h.2⟩

theorem noTwoHigh_of_plain {x : List Chr}
    (h : ∀ c ∈ x, c.isHigh = false ∧ c.isLow = false) : NoTwoHigh x := by
  induction x with
  | nil => exact .nil
  | cons c x ih =>
    rw [List.forall_mem_cons] at h
    refine List.isChain_cons.mpr ⟨fun c' _ hboth => ?_, ih h.2⟩
    rw [h.1.1] at hboth
    exact Bool.false_ne_true hboth.1

theorem not_high_and_low {u : ℕ} (h : isHighSurrogate u = true) : isLowSurrogate u = false := by
  simp [isHighSurrogate, isLowSurrogate] at h ⊢
  omega

/-- The bytes of a surrogate begin like no character that stands for one. -/
theorem putUtf8_surrogate {u : ℕ} (h : isHighSurrogate u = true ∨ isLowSurrogate u = true) :
    ∃ r, putUtf8 u = 0xED :: r := by
  have hrange : 0xD800 ≤ u ∧ u ≤ 0xDFFF := by
    simp [isHighSurrogate, isLowSurrogate] at h
    omega
  have hdiv : u / 4096 = 13 := by omega
  unfold putUtf8
  rw [if_neg (by omega), if_neg (by omega), if_pos (by omega), hdiv]
  exact ⟨_, rfl⟩

theorem putUtf8_replacement : putUtf8 0xFFFD = [0xEF, 0xBF, 0xBD] := by decide

theorem alone_surrogate {u : ℕ} (h : isHighSurrogate u = true ∨ isLowSurrogate u = true) :
    alone u = [0xEF, 0xBF, 0xBD] := by
  rw [alone, if_pos h, putUtf8_replacement]

theorem alone_of_not {u : ℕ} (h : isHighSurrogate u = false) (h' : isLowSurrogate u = false) :
    alone u = putUtf8 u := by
  simp [alone, h, h']

theorem paired_of_not {u v : ℕ} (h : isHighSurrogate u = false) : paired u v = none := by
  simp [paired, h]

/-- What starts with a high surrogate does not start with the bytes of one. -/
theorem replaced_high {a b c d : UInt8} (h : isHighSurrogate (codeUnit a b c d) = true)
    (x : List Chr) (r : Bytes) : replaced (.unicode a b c d :: x) ≠ 0xED :: r := by
  have hsingle : ∀ y : Bytes, alone (codeUnit a b c d) ++ y ≠ 0xED :: r := by
    intro y heq
    rw [alone_surrogate (.inl h)] at heq
    simp only [List.cons_append, List.cons.injEq] at heq
    exact absurd heq.1 (by decide)
  unfold replaced
  cases x with
  | nil =>
    rw [decode]
    · exact hsingle _
    · intro _ _ _ _ _ hnil
      cases hnil
  | cons k x =>
    cases k with
    | raw _ => exact hsingle _
    | simple _ => exact hsingle _
    | unicode a' b' c' d' =>
      cases htwo : paired (codeUnit a b c d) (codeUnit a' b' c' d') with
      | none =>
        rw [decode, htwo]
        exact hsingle _
      | some y =>
        rw [decode, htwo]
        unfold paired at htwo
        split_ifs at htwo with hpair
        simp [isHighSurrogate, isLowSurrogate] at hpair
        rw [← Option.some.inj htwo]
        unfold putUtf8
        rw [if_neg (by omega), if_neg (by omega), if_neg (by omega)]
        simp only [List.cons_append, ne_eq, List.cons.injEq, not_and]
        intro heq
        have hnat := congrArg UInt8.toNat heq
        simp at hnat
        omega

end Surrogates

end ReadyUp.Support.JsonTree
