import ReadyUp.Support.JsonReading

/-!
# The numbers of a JSON text

A reader may take more numbers than the grammar has. Which numbers stand in a text does not depend
on the tree that spells it (`Lexis.numbers_unique`): a reader that keeps the texts of the numbers,
and nothing else, finds them. So a reader that takes every number of the grammar decides the grammar
exactly where the numbers of the text are those of the grammar (`Lexis.decides_iff`).
-/
namespace ReadyUp.Support.JsonTree

open JsonScan JsonGrammar

section Numbers

variable {N N' : Bytes → Prop} {levels : ℕ} {t : Node}

namespace Node

theorem mem_numbersMembers {ms : List (Padded (List Chr) × Padded Node)} {n : Bytes} :
    n ∈ numbersMembers ms ↔ ∃ m ∈ ms, n ∈ m.2.val.numbers := by
  induction ms with
  | nil => simp [numbersMembers]
  | cons m ms ih =>
    obtain ⟨k, w, v, w'⟩ := m
    simp [numbersMembers, ih]

theorem mem_numbersItems {as : List (Padded Node)} {n : Bytes} :
    n ∈ numbersItems as ↔ ∃ a ∈ as, n ∈ a.val.numbers := by
  induction as with
  | nil => simp [numbersItems]
  | cons a as ih =>
    obtain ⟨w, v, w'⟩ := a
    simp [numbersItems, ih]

theorem Fits.number_of_mem (h : t.Fits N levels) : ∀ n ∈ t.numbers, N n := by
  induction h with
  | num hn =>
    rw [numbers, List.forall_mem_singleton]
    exact hn
  | obj _ _ _ _ ih =>
    intro n hn
    rw [numbers, mem_numbersMembers] at hn
    obtain ⟨m, hm, hn⟩ := hn
    exact ih m hm n hn
  | arr _ _ _ ih =>
    intro n hn
    rw [numbers, mem_numbersItems] at hn
    obtain ⟨a, ha, hn⟩ := hn
    exact ih a ha n hn
  | _ => simp [numbers]

theorem Fits.of_numbers (h : t.Fits N levels) (hnumbers : ∀ n ∈ t.numbers, N' n) :
    t.Fits N' levels := by
  induction h with
  | null => exact .null
  | bool => exact .bool
  | num _ =>
    rw [numbers, List.forall_mem_singleton] at hnumbers
    exact .num hnumbers
  | str hx => exact .str hx
  | obj hgap hblank hkeys _ ih =>
    refine .obj hgap hblank hkeys fun m hm => ih m hm fun n hn => hnumbers n ?_
    rw [numbers, mem_numbersMembers]
    exact ⟨m, hm, hn⟩
  | arr hgap hblank _ ih =>
    refine .arr hgap hblank fun a ha => ih a ha fun n hn => hnumbers n ?_
    rw [numbers, mem_numbersItems]
    exact ⟨a, ha, hn⟩

end Node

theorem Spells.of_numbers {t : Padded Node} {s : Bytes} (h : Spells N levels t s)
    (hnumbers : ∀ n ∈ t.val.numbers, N' n) : Spells N' levels t s :=
  ⟨h.1, h.2.1, h.2.2.1.of_numbers hnumbers, h.2.2.2⟩

theorem Spells.mono {t : Padded Node} {s : Bytes} (h : Spells N levels t s)
    (hsub : ∀ n, N n → N' n) :
    Spells N' levels t s := h.of_numbers fun n hn => hsub n (h.2.2.1.number_of_mem n hn)

theorem spells_num {n : Bytes} (h : N n) : Spells N (levels + 1) ⟨[], .num n, []⟩ n :=
  ⟨blank_nil, blank_nil, .num h, by simp [Node.text]⟩

theorem not_isNumber_leading_zero {c : UInt8} (hc : isDigit c = true) {n : Bytes} :
    ¬IsNumber (byte '0' :: c :: n) := by
  rintro ⟨m, i, f, e, heq, hm, ⟨⟨hne, -⟩, hzero⟩, hf, he⟩
  rcases hm with rfl | rfl
  · cases i with
    | nil => exact hne rfl
    | cons d i =>
      simp only [List.nil_append, List.cons_append, List.cons.injEq] at heq
      obtain ⟨rfl, heq⟩ := heq
      have hi : i = [] := by simpa using hzero rfl
      subst hi
      rcases hf with rfl | ⟨ds, rfl, -⟩
      · rcases he with rfl | ⟨x, g, ds, rfl, hx, -, -⟩
        · simp at heq
        · simp only [List.nil_append, List.cons.injEq] at heq
          rw [heq.1] at hc
          rcases hx with rfl | rfl <;> exact absurd hc (by decide)
      · simp only [List.nil_append, List.cons_append, List.cons.injEq] at heq
        rw [heq.1] at hc
        exact absurd hc (by decide)
  · simp only [List.cons_append, List.cons.injEq] at heq
    exact absurd heq.1 (by decide)

end Numbers

section Collect

variable {α : Type} {D : Dialect α}

/-- The reader that only keeps the texts of the numbers. -/
def collector (D : Dialect α) : Dialect (List Bytes) where
  string := D.string
  number s := (D.number s).map fun r => ([s.take (s.length - r.2.length)], r.2)
  null := []
  bool _ := []
  str _ := []
  obj o := o.flatMap Prod.snd
  arr a := a.flatten
  insert o k v := o ++ [(k, v)]
  string_quoted := D.string_quoted
  insert_of_notMem _ _ _ _ := rfl

namespace Lexis

variable (L : Lexis D)

def collect : Lexis (collector D) where
  decode := L.decode
  number n := (L.number n).map fun _ => [n]
  string_sound := L.string_sound
  string_complete := L.string_complete
  number_sound {s v r} h := by
    obtain ⟨⟨x, r'⟩, hx, heq⟩ := Option.map_eq_some_iff.mp h
    obtain ⟨rfl, rfl⟩ := Prod.mk.inj heq
    obtain ⟨n, rfl, hn⟩ := L.number_sound hx
    exact ⟨n, rfl, by simp [hn]⟩
  number_complete {n v r} h hr := by
    obtain ⟨x, hx, rfl⟩ := Option.map_eq_some_iff.mp h
    simp [collector, L.number_complete hx hr]
  number_head {n v} h := by
    obtain ⟨x, hx, rfl⟩ := Option.map_eq_some_iff.mp h
    exact L.number_head hx

variable {L} {levels : ℕ}

theorem number_collect {n : Bytes} : L.collect.Number n ↔ L.Number n := by
  simp [Number, collect]

theorem flatMap_evalMembers {ms : List (Padded (List Chr) × Padded Node)}
    (h : ∀ m ∈ ms, L.collect.eval m.2.val = m.2.val.numbers) (o : List (Bytes × List Bytes)) :
    (L.collect.evalMembers o ms).flatMap Prod.snd = o.flatMap Prod.snd ++
      Node.numbersMembers ms := by
  induction ms generalizing o with
  | nil => simp [evalMembers, Node.numbersMembers]
  | cons m ms ih =>
    obtain ⟨k, w, v, w'⟩ := m
    rw [List.forall_mem_cons] at h
    have hv := h.1
    dsimp only at hv
    rw [evalMembers, ih h.2, Node.numbersMembers, hv]
    simp [collector]

theorem flatten_evalItems {as : List (Padded Node)}
    (h : ∀ a ∈ as, L.collect.eval a.val = a.val.numbers) :
    (L.collect.evalItems as).flatten = Node.numbersItems as := by
  induction as with
  | nil => rw [evalItems, Node.numbersItems, List.flatten_nil]
  | cons a as ih =>
    obtain ⟨w, v, w'⟩ := a
    rw [List.forall_mem_cons] at h
    have hv := h.1
    dsimp only at hv
    rw [evalItems, List.flatten_cons, ih h.2, Node.numbersItems, hv]

theorem eval_collect {t : Node} (h : t.Fits L.Number levels) : L.collect.eval t = t.numbers := by
  induction h with
  | num hn =>
    obtain ⟨v, hv⟩ := Option.isSome_iff_exists.mp hn
    simp [eval, collect, hv, Node.numbers]
  | obj _ _ _ _ ih =>
    have hall := flatMap_evalMembers ih []
    rw [List.flatMap_nil, List.nil_append] at hall
    rw [eval, Node.numbers]
    exact hall
  | arr _ _ _ ih =>
    rw [eval, Node.numbers]
    exact flatten_evalItems ih
  | _ => simp [eval, Node.numbers, collector]

/-- The numbers of a text are the same in every tree that spells it. -/
theorem numbers_unique {t t' : Padded Node} {s : Bytes} (h : Spells L.Number levels t s)
    (h' : Spells L.Number levels t' s) : t.val.numbers = t'.val.numbers := by
  have hread :
      ∀ u, Spells L.Number levels u s → (collector D).parse levels s = some u.val.numbers := by
    intro u hu
    exact L.collect.parse_iff.mpr ⟨u, hu.mono fun n hn => number_collect.mpr hn,
      eval_collect hu.2.2.1⟩
  exact Option.some.inj ((hread t h).symm.trans (hread t' h'))

theorem isSome_parse_iff (L : Lexis D) {s : Bytes} :
    (D.parse levels s).isSome = true ↔ ∃ t, Spells L.Number levels t s := by
  rw [Option.isSome_iff_exists]
  constructor
  · rintro ⟨v, hv⟩
    obtain ⟨t, ht, -⟩ := L.parse_iff.mp hv
    exact ⟨t, ht⟩
  · rintro ⟨t, ht⟩
    exact ⟨_, L.parse_iff.mpr ⟨t, ht, rfl⟩⟩

/-- The text has, up to the way its numbers are written, the shape of JSON, and then its numbers are
those of the grammar. -/
def Regular (L : Lexis D) (nesting : ℕ) (s : Bytes) : Prop :=
  ∀ t, Spells L.Number (nesting + 1) t s → ∀ n ∈ t.val.numbers, IsNumber n

/-- A reader that takes every number of the grammar, and perhaps more, decides the grammar exactly
where the text has no number that only the reader takes. -/
theorem decides_iff (L : Lexis D) (hnumber : ∀ n, IsNumber n → L.Number n) (nesting : ℕ)
    (s : Bytes) :
    ((D.parse (nesting + 1) s).isSome = true ↔ IsJson nesting s) ↔ L.Regular nesting s := by
  rw [L.isSome_parse_iff]
  constructor
  · intro h t ht
    obtain ⟨t', ht'⟩ := h.mp ⟨t, ht⟩
    rw [numbers_unique ht (ht'.mono hnumber)]
    exact ht'.2.2.1.number_of_mem
  · intro h
    constructor
    · rintro ⟨t, ht⟩
      exact ⟨t, ht.of_numbers (h t ht)⟩
    · rintro ⟨t, ht⟩
      exact ⟨t, ht.mono hnumber⟩

/-- A number that only the reader takes is no text of the grammar. -/
theorem not_isJson (L : Lexis D) (hnumber : ∀ n, IsNumber n → L.Number n) {n : Bytes}
    (hn : L.Number n) (hother : ¬IsNumber n) (nesting : ℕ) : ¬IsJson nesting n := by
  rintro ⟨t, ht⟩
  have hunique := numbers_unique (ht.mono hnumber) (spells_num hn)
  refine hother (ht.2.2.1.number_of_mem n ?_)
  rw [hunique]
  simp [Node.numbers]

end Lexis

end Collect

end ReadyUp.Support.JsonTree
