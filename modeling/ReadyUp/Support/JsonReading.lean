import ReadyUp.Support.JsonTree

/-!
# Which texts a reader takes

What a reader makes of the strings and numbers of the grammar is a `Lexis`; everything else is the
same for all readers. A text is read exactly when a tree spells it whose numbers the reader takes
(`Lexis.parse_iff`), and the value is that of the tree (`Lexis.eval`).

The loops of a reader run over the rest of the text with its length as their bound. Every round
takes a byte at least, so no loop gets there (`Lexis.members_bound`, `Lexis.items_bound`).
-/
namespace ReadyUp.Support.JsonTree

open JsonScan JsonGrammar

variable {α : Type} {D : Dialect α}

/-- What may stand behind a value: the end, white space, or what goes on or closes around it. -/
def Stops (r : Bytes) : Prop :=
  ∀ c ∈ r.head?, isWs c = true ∨ c = byte ',' ∨ c = byte '}' ∨ c = byte ']'

/-- What a number may start with: none of what starts another value, and no white space. -/
def startsNumber (c : UInt8) : Bool :=
  !isWs c && !(c == byte '{' || c == byte '[' || c == byte '"' || c == byte 't' || c == byte 'f' ||
    c == byte 'n' || c == byte ']')

theorem startsNumber_iff {c : UInt8} : startsNumber c = true ↔
    isWs c = false ∧ c ≠ byte '{' ∧ c ≠ byte '[' ∧ c ≠ byte '"' ∧ c ≠ byte 't' ∧ c ≠ byte 'f' ∧
      c ≠ byte 'n' ∧ c ≠ byte ']' := by
  simp [startsNumber, and_assoc]

/-- How a reader takes strings and numbers. -/
structure Lexis (D : Dialect α) where
  decode : List Chr → Bytes
  number : Bytes → Option α
  string_sound : ∀ {s x r}, D.string s = some (x, r) →
    ∃ cs, (∀ c ∈ cs, Chr.Ok c) ∧ s = literal cs ++ r ∧ x = decode cs
  string_complete : ∀ {cs} (r), (∀ c ∈ cs, Chr.Ok c) →
    D.string (literal cs ++ r) = some (decode cs, r)
  number_sound : ∀ {s v r}, D.number s = some (v, r) → ∃ n, s = n ++ r ∧ number n = some v
  number_complete : ∀ {n v r}, number n = some v → Stops r → D.number (n ++ r) = some (v, r)
  number_head : ∀ {n v}, number n = some v → ∃ c t, n = c :: t ∧ startsNumber c = true

section Blanks

variable {s r w : Bytes} {c : UInt8}

open Node (Blank)

theorem blank_nil : Blank [] := fun _ hc => by cases hc

theorem exists_blank (s : Bytes) : ∃ w, Blank w ∧ s = w ++ ws s := by
  refine ⟨s.takeWhile isWs, fun c hc => ?_, (List.takeWhile_append_dropWhile).symm⟩
  exact List.mem_takeWhile_imp hc

theorem ws_blank (hw : Blank w) (hc : isWs c = false) (s : Bytes) : ws (w ++ c :: s) = c :: s := by
  rw [ws, List.dropWhile_append_of_pos hw]
  exact ws_cons hc s

theorem ws_eq_nil_iff : ws s = [] ↔ Blank s := List.dropWhile_eq_nil_iff

theorem stops_nil : Stops [] := fun _ hc => by cases hc

theorem stops_cons (h : c = byte ',' ∨ c = byte '}' ∨ c = byte ']') (s : Bytes) :
    Stops (c :: s) := by
  intro x hx
  obtain rfl : c = x := by simpa using hx
  exact .inr h

theorem Stops.blank (h : Stops r) (hw : Blank w) : Stops (w ++ r) := by
  cases w with
  | nil => exact h
  | cons x w =>
    intro c hc
    obtain rfl : x = c := by simpa using hc
    exact .inl (hw x List.mem_cons_self)

theorem expect_sound (h : expect c s = some r) : ∃ w, Blank w ∧ s = w ++ c :: r := by
  obtain ⟨w, hw, hs⟩ := exists_blank s
  unfold expect at h
  split at h
  · cases h
  · rename_i x rest hws
    split_ifs at h with hx
    refine ⟨w, hw, ?_⟩
    rw [hws, hx, Option.some.inj h] at hs
    exact hs

theorem expect_blank (hw : Blank w) (hc : isWs c = false) (s : Bytes) :
    expect c (w ++ c :: s) = some s := by
  rw [expect, ws_blank hw hc]
  exact if_pos rfl

theorem expect_blank_of_ne {x : UInt8} (hw : Blank w) (hx : isWs x = false) (hne : x ≠ c)
    (s : Bytes) : expect c (w ++ x :: s) = none := by
  rw [expect, ws_blank hw hx]
  exact if_neg hne

theorem next_sound {b : Bool} (h : next c s = some (b, r)) :
    ∃ w, Blank w ∧ s = w ++ (if b then byte ',' else c) :: r := by
  obtain ⟨w, hw, hs⟩ := exists_blank s
  unfold next at h
  split at h
  · cases h
  · rename_i x rest hws
    split_ifs at h with hcomma hclose
    · simp only [Option.some.injEq, Prod.mk.injEq] at h
      obtain ⟨rfl, rfl⟩ := h
      rw [hws, hcomma] at hs
      exact ⟨w, hw, hs⟩
    · simp only [Option.some.injEq, Prod.mk.injEq] at h
      obtain ⟨rfl, rfl⟩ := h
      rw [hws, hclose] at hs
      exact ⟨w, hw, hs⟩

theorem next_comma (hw : Blank w) (s : Bytes) : next c (w ++ byte ',' :: s) = some (true, s) := by
  rw [next, ws_blank hw (by decide)]
  exact if_pos rfl

theorem next_close (hw : Blank w) (hc : isWs c = false) (hne : c ≠ byte ',') (s : Bytes) :
    next c (w ++ c :: s) = some (false, s) := by
  rw [next, ws_blank hw hc]
  simp [hne]

end Blanks

namespace Lexis

variable (L : Lexis D)

def Number (n : Bytes) : Prop := (L.number n).isSome = true

section Eval

open Node

mutual

/-- What the reader makes of a value. -/
def eval : Node → α
  | .null => D.null
  | .bool b => D.bool b
  | .num n => (L.number n).getD D.null
  | .str x => D.str (L.decode x)
  | .obj _ ms => D.obj (evalMembers [] ms)
  | .arr _ as => D.arr (evalItems as)

def evalMembers (o : List (Bytes × α)) : List (Padded (List Chr) × Padded Node) → List (Bytes × α)
  | [] => o
  | (k, .mk _ v _) :: ms => evalMembers (D.insert o (L.decode k.val) (eval v)) ms

def evalItems : List (Padded Node) → List α
  | [] => []
  | .mk _ v _ :: as => eval v :: evalItems as

end

end Eval

section Sound

open Node

variable {val : Bytes → Option (α × Bytes)} {levels : ℕ}

/-- The reader of values takes values with white space before them. -/
def SoundAt (val : Bytes → Option (α × Bytes)) (levels : ℕ) : Prop :=
  ∀ s v r, val s = some (v, r) →
    ∃ w t, Blank w ∧ Node.Fits L.Number levels t ∧ s = w ++ (t.text ++ r) ∧ L.eval t = v

variable {L}

theorem members_sound (hval : L.SoundAt val levels) {fuel : ℕ} {o : List (Bytes × α)}
    {s : Bytes} {v : α} {r : Bytes} (h : D.members val fuel o s = some (v, r)) :
    ∃ ms : List (Padded (List Chr) × Padded Node), ms ≠ [] ∧
      (∀ m ∈ ms, Blank m.1.before ∧ Blank m.1.after ∧ Blank m.2.before ∧ Blank m.2.after) ∧
      (∀ m ∈ ms, ∀ c ∈ m.1.val, Chr.Ok c) ∧ (∀ m ∈ ms, Node.Fits L.Number levels m.2.val) ∧
      s = textMembers ms ++ byte '}' :: r ∧ v = D.obj (L.evalMembers o ms) := by
  induction fuel generalizing o s with
  | zero => cases h
  | succ fuel ih =>
    rw [Dialect.members] at h
    obtain ⟨⟨k, s₁⟩, hkey, h⟩ := Option.bind_eq_some_iff.mp h
    obtain ⟨s₂, hcolon, h⟩ := Option.bind_eq_some_iff.mp h
    obtain ⟨⟨x, s₃⟩, hx, h⟩ := Option.bind_eq_some_iff.mp h
    obtain ⟨⟨more, s₄⟩, hnext, h⟩ := Option.bind_eq_some_iff.mp h
    obtain ⟨w, hw, hs⟩ := exists_blank s
    obtain ⟨cs, hcs, hs₁, rfl⟩ := L.string_sound hkey
    obtain ⟨w₁, hw₁, rfl⟩ := expect_sound hcolon
    obtain ⟨w₂, t, hw₂, ht, rfl, rfl⟩ := hval _ _ _ hx
    obtain ⟨w₃, hw₃, rfl⟩ := next_sound hnext
    rw [hs₁] at hs
    dsimp only at h
    cases more with
    | true =>
      rw [if_pos rfl] at h
      obtain ⟨ms, hne, hblank, hkeys, hfits, rfl, rfl⟩ := ih h
      refine ⟨(⟨w, cs, w₁⟩, ⟨w₂, t, w₃⟩) :: ms, List.cons_ne_nil _ _, ?_, ?_, ?_, ?_, ?_⟩
      · rw [List.forall_mem_cons]
        exact ⟨⟨hw, hw₁, hw₂, hw₃⟩, hblank⟩
      · rw [List.forall_mem_cons]
        exact ⟨hcs, hkeys⟩
      · rw [List.forall_mem_cons]
        exact ⟨ht, hfits⟩
      · rw [hs, textMembers]
        simp [hne]
      · rw [evalMembers]
    | false =>
      rw [if_neg (by decide)] at h
      simp only [Option.some.injEq, Prod.mk.injEq] at h
      obtain ⟨rfl, rfl⟩ := h
      refine ⟨[(⟨w, cs, w₁⟩, ⟨w₂, t, w₃⟩)], List.cons_ne_nil _ _, ?_, ?_, ?_, ?_, ?_⟩
      · rw [List.forall_mem_singleton]
        exact ⟨hw, hw₁, hw₂, hw₃⟩
      · rw [List.forall_mem_singleton]
        exact hcs
      · rw [List.forall_mem_singleton]
        exact ht
      · rw [hs, textMembers]
        simp
      · rw [evalMembers, evalMembers]

theorem items_sound (hval : L.SoundAt val levels) {fuel : ℕ} {a : List α} {s : Bytes}
    {v : α} {r : Bytes} (h : D.items val fuel a s = some (v, r)) :
    ∃ as : List (Padded Node), as ≠ [] ∧ (∀ a ∈ as, Blank a.before ∧ Blank a.after) ∧
      (∀ a ∈ as, Node.Fits L.Number levels a.val) ∧
      s = textItems as ++ byte ']' :: r ∧ v = D.arr (a ++ L.evalItems as) := by
  induction fuel generalizing a s with
  | zero => cases h
  | succ fuel ih =>
    rw [Dialect.items] at h
    obtain ⟨⟨x, s₁⟩, hx, h⟩ := Option.bind_eq_some_iff.mp h
    obtain ⟨⟨more, s₂⟩, hnext, h⟩ := Option.bind_eq_some_iff.mp h
    obtain ⟨w, t, hw, ht, rfl, rfl⟩ := hval _ _ _ hx
    obtain ⟨w₁, hw₁, rfl⟩ := next_sound hnext
    dsimp only at h
    cases more with
    | true =>
      rw [if_pos rfl] at h
      obtain ⟨as, hne, hblank, hfits, rfl, rfl⟩ := ih h
      refine ⟨⟨w, t, w₁⟩ :: as, List.cons_ne_nil _ _, ?_, ?_, ?_, ?_⟩
      · rw [List.forall_mem_cons]
        exact ⟨⟨hw, hw₁⟩, hblank⟩
      · rw [List.forall_mem_cons]
        exact ⟨ht, hfits⟩
      · rw [textItems]
        simp [hne]
      · rw [evalItems, List.append_assoc, List.singleton_append]
    | false =>
      rw [if_neg (by decide)] at h
      simp only [Option.some.injEq, Prod.mk.injEq] at h
      obtain ⟨rfl, rfl⟩ := h
      refine ⟨[⟨w, t, w₁⟩], List.cons_ne_nil _ _, ?_, ?_, ?_, ?_⟩
      · rw [List.forall_mem_singleton]
        exact ⟨hw, hw₁⟩
      · rw [List.forall_mem_singleton]
        exact ht
      · rw [textItems]
        simp
      · rw [evalItems, evalItems]

theorem lit_sound {w : Bytes} {x v : α} {s r : Bytes} (h : Dialect.lit w x s = some (v, r)) :
    s = w ++ r ∧ v = x := by
  unfold Dialect.lit at h
  split_ifs at h with hw
  simp only [Option.some.injEq, Prod.mk.injEq] at h
  obtain ⟨rfl, rfl⟩ := h
  obtain ⟨t, rfl⟩ := hw
  simp

variable (L)

theorem value_sound (levels : ℕ) : L.SoundAt (D.value levels) levels := by
  induction levels with
  | zero =>
    intro s v r h
    cases h
  | succ levels ih =>
    intro s v r h
    obtain ⟨w, hw, hs⟩ := exists_blank s
    rw [Dialect.value] at h
    split at h
    · cases h
    · rename_i c rest hws
      rw [hws] at hs
      split_ifs at h with hobj harr hstr htrue hfalse hnull
      · unfold Dialect.object at h
        split at h
        · rename_i hend
          obtain ⟨gap, hgap, rfl⟩ := expect_sound hend
          simp only [Option.some.injEq, Prod.mk.injEq] at h
          obtain ⟨rfl, rfl⟩ := h
          refine ⟨w, .obj gap [], hw, .obj hgap ?_ ?_ ?_, ?_, ?_⟩
          · exact fun m hm => by cases hm
          · exact fun m hm => by cases hm
          · exact fun m hm => by cases hm
          · rw [hs, hobj, Node.text]
            simp
          · rw [eval, evalMembers]
        · obtain ⟨ms, hne, hblank, hkeys, hfits, rfl, rfl⟩ := members_sound ih h
          refine ⟨w, .obj [] ms, hw, .obj blank_nil hblank hkeys hfits, ?_, ?_⟩
          · rw [hs, hobj, Node.text]
            simp [hne]
          · rw [eval]
      · unfold Dialect.array at h
        split at h
        · rename_i hend
          obtain ⟨gap, hgap, rfl⟩ := expect_sound hend
          simp only [Option.some.injEq, Prod.mk.injEq] at h
          obtain ⟨rfl, rfl⟩ := h
          refine ⟨w, .arr gap [], hw, .arr hgap ?_ ?_, ?_, ?_⟩
          · exact fun m hm => by cases hm
          · exact fun m hm => by cases hm
          · rw [hs, harr, Node.text]
            simp
          · rw [eval, evalItems]
        · obtain ⟨as, hne, hblank, hfits, rfl, rfl⟩ := items_sound ih h
          refine ⟨w, .arr [] as, hw, .arr blank_nil hblank hfits, ?_, ?_⟩
          · rw [hs, harr, Node.text]
            simp [hne]
          · rw [eval, List.nil_append]
      · obtain ⟨⟨x, r'⟩, hx, heq⟩ := Option.map_eq_some_iff.mp h
        obtain ⟨rfl, rfl⟩ := Prod.mk.inj heq
        obtain ⟨cs, hcs, htext, rfl⟩ := L.string_sound hx
        refine ⟨w, .str cs, hw, .str hcs, ?_, ?_⟩
        · rw [hs, htext, Node.text]
        · rw [eval]
      · obtain ⟨htext, rfl⟩ := lit_sound h
        refine ⟨w, .bool true, hw, .bool, ?_, ?_⟩
        · rw [hs, htext, Node.text, if_pos rfl]
        · rw [eval]
      · obtain ⟨htext, rfl⟩ := lit_sound h
        refine ⟨w, .bool false, hw, .bool, ?_, ?_⟩
        · rw [hs, htext, Node.text, if_neg (by decide)]
        · rw [eval]
      · obtain ⟨htext, rfl⟩ := lit_sound h
        refine ⟨w, .null, hw, .null, ?_, ?_⟩
        · rw [hs, htext, Node.text]
        · rw [eval]
      · obtain ⟨n, htext, hn⟩ := L.number_sound h
        refine ⟨w, .num n, hw, .num (Option.isSome_of_eq_some hn), ?_, ?_⟩
        · rw [hs, htext, Node.text]
        · rw [eval, hn, Option.getD_some]

end Sound

section Complete

open Node

variable {L} {val : Bytes → Option (α × Bytes)} {levels : ℕ} {r : Bytes}

/-- The reader of values takes the value wherever a value may stand. -/
def CompleteAt (L : Lexis D) (val : Bytes → Option (α × Bytes)) (t : Node) : Prop :=
  ∀ w r, Blank w → Stops r → val (w ++ (t.text ++ r)) = some (L.eval t, r)

theorem members_complete {ms : List (Padded (List Chr) × Padded Node)} (hne : ms ≠ [])
    (hblank : ∀ m ∈ ms, Blank m.1.before ∧ Blank m.1.after ∧ Blank m.2.before ∧ Blank m.2.after)
    (hkeys : ∀ m ∈ ms, ∀ c ∈ m.1.val, Chr.Ok c)
    (hval : ∀ m ∈ ms, L.CompleteAt val m.2.val) {fuel : ℕ}
    (hfuel : ms.length ≤ fuel) (o : List (Bytes × α)) :
    D.members val fuel o (textMembers ms ++ byte '}' :: r) =
      some (D.obj (L.evalMembers o ms), r) := by
  induction ms generalizing fuel o with
  | nil => exact absurd rfl hne
  | cons m ms ih =>
    obtain ⟨⟨w, cs, w₁⟩, ⟨w₂, t, w₃⟩⟩ := m
    rw [List.forall_mem_cons] at hblank hkeys hval
    obtain ⟨⟨hw, hw₁, hw₂, hw₃⟩, hblank⟩ := hblank
    obtain ⟨hcs, hkeys⟩ := hkeys
    obtain ⟨ht, hval⟩ := hval
    obtain ⟨fuel, rfl⟩ : ∃ n, fuel = n + 1 := ⟨fuel - 1, by rw [List.length_cons] at hfuel; omega⟩
    rw [List.length_cons] at hfuel
    dsimp only at hw hw₁ hw₂ hw₃ hcs ht
    rw [textMembers, Dialect.members]
    simp only [List.append_assoc, List.cons_append]
    have hquote := ws_blank hw (c := byte '"') (by decide)
    have hstring := fun s => L.string_complete s hcs
    simp only [literal, List.cons_append] at hstring ⊢
    rw [hquote, hstring, Option.bind_some, expect_blank hw₁ (by decide), Option.bind_some]
    by_cases hnil : ms = []
    · subst hnil
      have hstops : Stops (w₃ ++ byte '}' :: r) := (stops_cons (.inr (.inl rfl)) r).blank hw₃
      simp only [List.isEmpty_nil, if_true, List.nil_append]
      rw [ht w₂ _ hw₂ hstops, Option.bind_some, next_close hw₃ (by decide) (by decide),
        Option.bind_some]
      rfl
    · have hmore : ms.isEmpty = false := by simpa using hnil
      have hstops : Stops (w₃ ++ byte ',' :: (textMembers ms ++ byte '}' :: r)) :=
        (stops_cons (.inl rfl) _).blank hw₃
      simp only [hmore, Bool.false_eq_true, if_false, List.cons_append]
      rw [ht w₂ _ hw₂ hstops, Option.bind_some, next_comma hw₃, Option.bind_some]
      simp only [if_true]
      rw [ih hnil hblank hkeys hval (by omega), evalMembers]

theorem items_complete {as : List (Padded Node)} (hne : as ≠ [])
    (hblank : ∀ a ∈ as, Blank a.before ∧ Blank a.after)
    (hval : ∀ a ∈ as, L.CompleteAt val a.val) {fuel : ℕ} (hfuel : as.length ≤ fuel) (a : List α) :
    D.items val fuel a (textItems as ++ byte ']' :: r) = some (D.arr (a ++ L.evalItems as), r) := by
  induction as generalizing fuel a with
  | nil => exact absurd rfl hne
  | cons p as ih =>
    obtain ⟨w, t, w₁⟩ := p
    rw [List.forall_mem_cons] at hblank hval
    obtain ⟨⟨hw, hw₁⟩, hblank⟩ := hblank
    obtain ⟨ht, hval⟩ := hval
    obtain ⟨fuel, rfl⟩ : ∃ n, fuel = n + 1 := ⟨fuel - 1, by rw [List.length_cons] at hfuel; omega⟩
    rw [List.length_cons] at hfuel
    dsimp only at hw hw₁ ht
    rw [textItems, Dialect.items]
    simp only [List.append_assoc]
    by_cases hnil : as = []
    · subst hnil
      have hstops : Stops (w₁ ++ byte ']' :: r) := (stops_cons (.inr (.inr rfl)) r).blank hw₁
      simp only [List.isEmpty_nil, if_true, List.nil_append]
      rw [ht w _ hw hstops, Option.bind_some, next_close hw₁ (by decide) (by decide),
        Option.bind_some]
      rfl
    · have hmore : as.isEmpty = false := by simpa using hnil
      have hstops : Stops (w₁ ++ byte ',' :: (textItems as ++ byte ']' :: r)) :=
        (stops_cons (.inl rfl) _).blank hw₁
      simp only [hmore, Bool.false_eq_true, if_false, List.cons_append]
      rw [ht w _ hw hstops, Option.bind_some, next_comma hw₁, Option.bind_some]
      simp only [if_true]
      rw [ih hnil hblank hval (by omega), evalItems, List.append_assoc, List.singleton_append]

theorem length_le_textMembers (ms : List (Padded (List Chr) × Padded Node)) :
    ms.length ≤ (textMembers ms).length := by
  induction ms with
  | nil => exact le_rfl
  | cons m ms ih =>
    obtain ⟨⟨w, cs, w₁⟩, ⟨w₂, t, w₃⟩⟩ := m
    rw [textMembers]
    by_cases hnil : ms = []
    · subst hnil
      simp [literal]
      omega
    · have hmore : ms.isEmpty = false := by simpa using hnil
      simp [hmore, literal]
      omega

/-- No value starts with white space or with the end of an array. -/
theorem head_text {t : Node} (h : t.Fits L.Number levels) :
    ∃ c s, t.text = c :: s ∧ isWs c = false ∧ c ≠ byte ']' := by
  cases h with
  | null => exact ⟨_, _, by rw [Node.text]; rfl, by decide, by decide⟩
  | @bool _ b =>
    rw [Node.text]
    cases b <;> exact ⟨_, _, rfl, by decide, by decide⟩
  | num hn =>
    obtain ⟨v, hv⟩ := Option.isSome_iff_exists.mp hn
    obtain ⟨c, s, rfl, hc⟩ := L.number_head hv
    obtain ⟨hws, -, -, -, -, -, -, hclose⟩ := startsNumber_iff.mp hc
    exact ⟨c, s, by rw [Node.text], hws, hclose⟩
  | str _ => exact ⟨_, _, by rw [Node.text]; rfl, by decide, by decide⟩
  | obj _ _ _ _ => exact ⟨_, _, by rw [Node.text], by decide, by decide⟩
  | arr _ _ _ => exact ⟨_, _, by rw [Node.text], by decide, by decide⟩

theorem length_le_textItems {as : List (Padded Node)}
    (h : ∀ a ∈ as, Node.Fits L.Number levels a.val) : as.length ≤ (textItems as).length := by
  induction as with
  | nil => exact le_rfl
  | cons a as ih =>
    obtain ⟨w, t, w₁⟩ := a
    rw [List.forall_mem_cons] at h
    obtain ⟨c, s, htext, -, -⟩ := head_text h.1
    have hrest := ih h.2
    dsimp only at htext
    rw [textItems, htext]
    by_cases hnil : as = []
    · subst hnil
      simp
      omega
    · have hmore : as.isEmpty = false := by simpa using hnil
      simp [hmore]
      omega

theorem object_complete {gap : Bytes} {ms : List (Padded (List Chr) × Padded Node)}
    (hgap : Blank gap)
    (hblank : ∀ m ∈ ms, Blank m.1.before ∧ Blank m.1.after ∧ Blank m.2.before ∧ Blank m.2.after)
    (hkeys : ∀ m ∈ ms, ∀ c ∈ m.1.val, Chr.Ok c) (hval : ∀ m ∈ ms, L.CompleteAt val m.2.val)
    (r : Bytes) : D.object val ((if ms.isEmpty then gap else textMembers ms) ++ byte '}' :: r) =
      some (D.obj (L.evalMembers [] ms), r) := by
  cases ms with
  | nil =>
    rw [List.isEmpty_nil, if_pos rfl, Dialect.object, expect_blank hgap (by decide)]
    rfl
  | cons m ms =>
    have hexpect : expect (byte '}') (textMembers (m :: ms) ++ byte '}' :: r) = none := by
      obtain ⟨⟨w, cs, w₁⟩, ⟨w₂, t, w₃⟩⟩ := m
      have hw := (hblank _ List.mem_cons_self).1
      rw [textMembers]
      simp only [literal, List.append_assoc, List.cons_append]
      exact expect_blank_of_ne hw (by decide) (by decide) _
    rw [List.isEmpty_cons, if_neg (by decide), Dialect.object, hexpect]
    apply members_complete (List.cons_ne_nil _ _) hblank hkeys hval
    rw [List.length_append]
    exact (length_le_textMembers _).trans (Nat.le_add_right _ _)

theorem array_complete {gap : Bytes} {as : List (Padded Node)} (hgap : Blank gap)
    (hblank : ∀ a ∈ as, Blank a.before ∧ Blank a.after)
    (hfits : ∀ a ∈ as, Node.Fits L.Number levels a.val) (hval : ∀ a ∈ as, L.CompleteAt val a.val)
    (r : Bytes) : D.array val ((if as.isEmpty then gap else textItems as) ++ byte ']' :: r) =
      some (D.arr (L.evalItems as), r) := by
  cases as with
  | nil =>
    rw [List.isEmpty_nil, if_pos rfl, Dialect.array, expect_blank hgap (by decide)]
    rfl
  | cons a as =>
    have hexpect : expect (byte ']') (textItems (a :: as) ++ byte ']' :: r) = none := by
      obtain ⟨w, t, w₁⟩ := a
      have hw := (hblank _ List.mem_cons_self).1
      obtain ⟨c, s, htext, hws, hne⟩ := head_text (hfits _ List.mem_cons_self)
      dsimp only at hw htext
      rw [textItems, htext]
      simp only [List.append_assoc, List.cons_append]
      exact expect_blank_of_ne hw hws hne _
    rw [List.isEmpty_cons, if_neg (by decide), Dialect.array, hexpect]
    refine items_complete (List.cons_ne_nil a as) hblank hval ?_ []
    rw [List.length_append]
    exact (length_le_textItems hfits).trans (Nat.le_add_right _ _)

theorem lit_complete (w : Bytes) (x : α) (r : Bytes) : Dialect.lit w x (w ++ r) = some (x, r) := by
  rw [Dialect.lit, if_pos (List.prefix_append w r), List.drop_left]

/-- The text of a value is read, whatever may stand behind it. -/
theorem value_complete {t : Node} (h : t.Fits L.Number levels) :
    L.CompleteAt (D.value levels) t := by
  induction h with
  | null =>
    intro w r hw _
    rw [Node.text, eval, Dialect.value]
    have hlit := lit_complete (ascii "null") D.null r
    rw [show ascii "null" = byte 'n' :: ascii "ull" by decide] at hlit ⊢
    rw [List.cons_append, ws_blank hw (by decide)]
    exact hlit
  | @bool _ b =>
    intro w r hw _
    rw [Node.text, eval, Dialect.value]
    cases b with
    | true =>
      have hlit := lit_complete (ascii "true") (D.bool true) r
      rw [if_pos rfl]
      rw [show ascii "true" = byte 't' :: ascii "rue" by decide] at hlit ⊢
      rw [List.cons_append, ws_blank hw (by decide)]
      exact hlit
    | false =>
      have hlit := lit_complete (ascii "false") (D.bool false) r
      rw [if_neg (by decide)]
      rw [show ascii "false" = byte 'f' :: ascii "alse" by decide] at hlit ⊢
      rw [List.cons_append, ws_blank hw (by decide)]
      exact hlit
  | num hn =>
    intro w r hw hr
    obtain ⟨v, hv⟩ := Option.isSome_iff_exists.mp hn
    have hread := L.number_complete hv hr
    obtain ⟨c, s, rfl, hc⟩ := L.number_head hv
    obtain ⟨hws, h₁, h₂, h₃, h₄, h₅, h₆, -⟩ := startsNumber_iff.mp hc
    rw [Node.text, eval, Dialect.value, List.cons_append, ws_blank hw hws, hv]
    simp only [h₁, h₂, h₃, h₄, h₅, h₆, if_false]
    exact hread
  | str hx =>
    intro w r hw _
    have hread := L.string_complete r hx
    rw [Node.text, eval, Dialect.value]
    simp only [literal, List.cons_append] at hread ⊢
    rw [ws_blank hw (by decide)]
    dsimp only
    rw [if_neg (by decide), if_neg (by decide), if_pos rfl, hread, Option.map_some]
  | obj hgap hblank hkeys _ ih =>
    intro w r hw _
    rw [Node.text, eval, Dialect.value]
    simp only [List.cons_append, List.append_assoc, List.nil_append]
    rw [ws_blank hw (by decide)]
    exact object_complete hgap hblank hkeys ih r
  | arr hgap hblank hfits ih =>
    intro w r hw _
    rw [Node.text, eval, Dialect.value]
    simp only [List.cons_append, List.append_assoc, List.nil_append]
    rw [ws_blank hw (by decide)]
    exact array_complete hgap hblank hfits ih r

/-- A text is read exactly when the grammar has it, with the numbers that the reader takes. -/
theorem parse_iff (L : Lexis D) {levels : ℕ} {s : Bytes} {v : α} :
    D.parse levels s = some v ↔ ∃ t, Spells L.Number levels t s ∧ L.eval t.val = v := by
  constructor
  · intro h
    obtain ⟨⟨x, r⟩, hvalue, h⟩ := Option.bind_eq_some_iff.mp h
    dsimp only at h
    split_ifs at h with hend
    obtain ⟨w, t, hw, ht, rfl, rfl⟩ := L.value_sound levels _ _ _ hvalue
    exact ⟨⟨w, t, r⟩, ⟨hw, ws_eq_nil_iff.mp hend, ht, rfl⟩, Option.some.inj h⟩
  · rintro ⟨⟨w, t, w'⟩, ⟨hw, hw', ht, rfl⟩, rfl⟩
    have hread := value_complete ht w w' hw (by simpa using stops_nil.blank hw')
    rw [Dialect.parse, hread, Option.bind_some]
    exact if_pos (ws_eq_nil_iff.mpr hw')

end Complete

section Bounds

open Node

variable {val : Bytes → Option (α × Bytes)}

def Shrinks (val : Bytes → Option (α × Bytes)) : Prop :=
  ∀ s v r, val s = some (v, r) → r.length < s.length

theorem length_ws_le (s : Bytes) : (ws s).length ≤ s.length :=
  (List.dropWhile_suffix isWs).length_le

theorem length_expect_lt {c : UInt8} {s r : Bytes} (h : expect c s = some r) :
    r.length < s.length := by
  obtain ⟨w, -, rfl⟩ := expect_sound h
  simp
  omega

theorem length_next_lt {c : UInt8} {s r : Bytes} {b : Bool} (h : next c s = some (b, r)) :
    r.length < s.length := by
  obtain ⟨w, -, rfl⟩ := next_sound h
  simp
  omega

theorem shrinks_string (L : Lexis D) : ∀ s x r, D.string s = some (x, r) → r.length < s.length := by
  intro s x r h
  obtain ⟨cs, -, rfl, -⟩ := L.string_sound h
  simp [literal]
  omega

theorem shrinks_value (L : Lexis D) (levels : ℕ) : Shrinks (D.value levels) := by
  intro s v r h
  obtain ⟨w, t, -, ht, rfl, -⟩ := L.value_sound levels s v r h
  obtain ⟨c, u, htext, -⟩ := head_text ht
  simp [htext]
  omega

theorem members_bound (L : Lexis D) (hval : Shrinks val) {fuel fuel' : ℕ} {s : Bytes}
    (hs : s.length ≤ fuel)
    (hs' : s.length ≤ fuel') (o : List (Bytes × α)) :
    D.members val fuel o s = D.members val fuel' o s := by
  have hempty : D.string (ws []) = none := by
    cases hread : D.string (ws []) with
    | none => rfl
    | some r => exact absurd (L.shrinks_string _ _ _ hread) (by simp [ws])
  induction fuel generalizing fuel' o s with
  | zero =>
    obtain rfl := List.length_eq_zero_iff.mp (Nat.le_zero.mp hs)
    cases fuel' with
    | zero => rfl
    | succ fuel' => rw [Dialect.members, Dialect.members, hempty, Option.bind_none]
  | succ fuel ih =>
    cases fuel' with
    | zero =>
      obtain rfl := List.length_eq_zero_iff.mp (Nat.le_zero.mp hs')
      rw [Dialect.members, Dialect.members, hempty, Option.bind_none]
    | succ fuel' =>
      rw [Dialect.members, Dialect.members]
      refine Option.bind_congr fun k hk => Option.bind_congr fun s₁ hs₁ =>
        Option.bind_congr fun v hv =>
        Option.bind_congr fun n hn => ?_
      have h₀ := length_ws_le s
      have h₁ := L.shrinks_string _ _ _ hk
      have h₂ := length_expect_lt hs₁
      have h₃ := hval _ _ _ hv
      have h₄ := length_next_lt hn
      dsimp only
      rw [@ih fuel' n.2 (by omega) (by omega)]

theorem items_bound (hval : Shrinks val) {fuel fuel' : ℕ} {s : Bytes} (hs : s.length ≤ fuel)
    (hs' : s.length ≤ fuel') (a : List α) : D.items val fuel a s = D.items val fuel' a s := by
  have hempty : val [] = none := by
    cases hread : val [] with
    | none => rfl
    | some r => exact absurd (hval _ _ _ hread) (by simp)
  induction fuel generalizing fuel' a s with
  | zero =>
    obtain rfl := List.length_eq_zero_iff.mp (Nat.le_zero.mp hs)
    cases fuel' with
    | zero => rfl
    | succ fuel' => rw [Dialect.items, Dialect.items, hempty, Option.bind_none]
  | succ fuel ih =>
    cases fuel' with
    | zero =>
      obtain rfl := List.length_eq_zero_iff.mp (Nat.le_zero.mp hs')
      rw [Dialect.items, Dialect.items, hempty, Option.bind_none]
    | succ fuel' =>
      rw [Dialect.items, Dialect.items]
      refine Option.bind_congr fun v hv => Option.bind_congr fun n hn => ?_
      have h₁ := hval _ _ _ hv
      have h₂ := length_next_lt hn
      dsimp only
      rw [@ih fuel' n.2 (by omega) (by omega)]

end Bounds

end Lexis

end ReadyUp.Support.JsonTree
