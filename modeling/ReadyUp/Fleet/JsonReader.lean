import ReadyUp.Fleet.JsonText

/-!
# What the JSON reader makes of a longer text

A value that ends before the text does is read the same way whatever follows
(`value_append`): this is what embedding one JSON text in another rests on. More levels of
nesting never change a result (`value_mono`).
-/
namespace ReadyUp.Fleet.JsonText

open Support JsonScan

section Append

theorem dropWhile_append_of_ne_nil {p : UInt8 → Bool} {s : Bytes} (h : s.dropWhile p ≠ [])
    (t : Bytes) : (s ++ t).dropWhile p = s.dropWhile p ++ t := by
  rw [List.dropWhile_append, if_neg (by simpa using h)]

theorem takeWhile_append_of_ne_nil {p : UInt8 → Bool} {s : Bytes} (h : s.dropWhile p ≠ [])
    (t : Bytes) : (s ++ t).takeWhile p = s.takeWhile p := by
  have hlen : (s.takeWhile p).length ≠ s.length := by
    intro heq
    have := congrArg List.length (List.takeWhile_append_dropWhile (p := p) (l := s))
    rw [List.length_append, heq] at this
    exact h (List.length_eq_zero_iff.mp (by omega))
  rw [List.takeWhile_append, if_neg hlen]

theorem ws_append {s : Bytes} (h : ws s ≠ []) (t : Bytes) : ws (s ++ t) = ws s ++ t :=
  dropWhile_append_of_ne_nil h t

theorem expect_append {c : UInt8} {s r : Bytes} (h : expect c s = some r) (t : Bytes) :
    expect c (s ++ t) = some (r ++ t) := by
  rw [expect] at h
  cases hs : ws s with
  | nil => simp [hs] at h
  | cons x s' =>
    rw [hs] at h
    rw [expect, ws_append (by simp [hs]), hs, List.cons_append]
    dsimp only at h ⊢
    split_ifs at h ⊢
    rw [Option.some.inj h]

theorem expect_append_of_none {c : UInt8} {s : Bytes} (h : expect c s = none) (hs : ws s ≠ [])
    (t : Bytes) : expect c (s ++ t) = none := by
  rw [expect, ws_append hs]
  rw [expect] at h
  cases hs' : ws s with
  | nil => exact absurd hs' hs
  | cons x s' =>
    rw [hs'] at h
    rw [List.cons_append]
    dsimp only at h ⊢
    split_ifs at h ⊢
    rfl

theorem next_append {c : UInt8} {s : Bytes} {b : Bool} {r : Bytes} (h : next c s = some (b, r))
    (t : Bytes) : next c (s ++ t) = some (b, r ++ t) := by
  rw [next] at h
  cases hs : ws s with
  | nil => simp [hs] at h
  | cons x s' =>
    rw [hs] at h
    rw [next, ws_append (by simp [hs]), hs, List.cons_append]
    dsimp only at h ⊢
    split_ifs at h ⊢
    · rw [Option.some.injEq, Prod.mk.injEq] at h
      rw [h.1, h.2]
    · rw [Option.some.injEq, Prod.mk.injEq] at h
      rw [h.1, h.2]

theorem ne_nil_of_next {c : UInt8} {s : Bytes} {n : Bool × Bytes} (h : next c s = some n) :
    s ≠ [] := by
  rintro rfl
  simp [next, ws] at h

end Append

section Strings

theorem hex4_append {s : Bytes} {cp : ℕ} {r : Bytes} (h : hex4 s = some (cp, r)) (t : Bytes) :
    hex4 (s ++ t) = some (cp, r ++ t) := by
  match s with
  | a :: b :: c :: d :: s =>
    rw [hex4] at h
    rw [List.cons_append, List.cons_append, List.cons_append, List.cons_append, hex4]
    cases ha : hexValue a <;> cases hb : hexValue b <;> cases hc : hexValue c <;>
      cases hd : hexValue d <;> simp_all
  | [] => simp [hex4] at h
  | [_] => simp [hex4] at h
  | [_, _] => simp [hex4] at h
  | [_, _, _] => simp [hex4] at h

theorem surrogate_append {hi : ℕ} {s x r : Bytes} (h : surrogate hi s = some (x, r))
    (hr : r ≠ []) (hr' : r ≠ [byte '\\']) (t : Bytes) :
    surrogate hi (s ++ t) = some (x, r ++ t) := by
  match s with
  | [] =>
    obtain ⟨-, rfl⟩ : putUtf8 0xFFFD = x ∧ [] = r := by simpa [surrogate] using h
    exact absurd rfl hr
  | [b] =>
    obtain ⟨rfl, rfl⟩ : putUtf8 0xFFFD = x ∧ [b] = r := by simpa [surrogate] using h
    have hb : b ≠ byte '\\' := fun hb => hr' (by rw [hb])
    cases t with
    | nil => simp [surrogate]
    | cons u t => simp [surrogate, hb]
  | b :: u :: l =>
    rw [surrogate] at h
    rw [List.cons_append, List.cons_append, surrogate]
    split_ifs at h ⊢ with hesc
    · rw [Option.map_eq_some_iff] at h
      obtain ⟨⟨lo, l'⟩, hlo, heq⟩ := h
      rw [hex4_append hlo, Option.map_some]
      dsimp only at heq ⊢
      split_ifs at heq ⊢ <;> simp_all
    · obtain ⟨rfl, rfl⟩ : putUtf8 0xFFFD = x ∧ b :: u :: l = r := by simpa using h
      rfl

/-- An escape is read the same way in a longer text, unless the text ends in the middle of
what may be a second escape. -/
theorem escape_append {s x r : Bytes} (h : escape s = some (x, r)) (hr : r ≠ [])
    (hr' : r ≠ [byte '\\']) (t : Bytes) : escape (s ++ t) = some (x, r ++ t) := by
  cases s with
  | nil => simp [escape] at h
  | cons e s =>
    rw [escape] at h
    rw [List.cons_append, escape]
    split_ifs at h ⊢ with hu
    · rw [Option.bind_eq_some_iff] at h
      obtain ⟨⟨cp, s'⟩, hcp, heq⟩ := h
      rw [hex4_append hcp, Option.bind_some]
      dsimp only at heq ⊢
      split_ifs at heq ⊢
      · exact surrogate_append heq hr hr' t
      · simp_all
      · simp_all
    · cases hc : unescape e <;> simp_all

theorem strBody_append {fuel : ℕ} {s x r : Bytes} (h : strBody fuel s = some (x, r)) {fuel' : ℕ}
    (hfuel : fuel ≤ fuel') (t : Bytes) : strBody fuel' (s ++ t) = some (x, r ++ t) := by
  induction fuel generalizing s x r fuel' with
  | zero => simp [strBody] at h
  | succ fuel ih =>
    obtain ⟨fuel', rfl⟩ : ∃ n, fuel' = n + 1 := ⟨fuel' - 1, by omega⟩
    cases s with
    | nil => simp [strBody] at h
    | cons c s =>
      rw [strBody] at h
      rw [List.cons_append, strBody]
      split_ifs at h ⊢ with hquote hctl hback
      · simp_all
      · cases he : escape s with
        | none => simp [he] at h
        | some e =>
          obtain ⟨y, s'⟩ := e
          rw [he, Option.bind_some, Option.map_eq_some_iff] at h
          obtain ⟨⟨z, r'⟩, hbody, heq⟩ := h
          have hne : s' ≠ [] := by
            rintro rfl
            cases fuel <;> simp [strBody] at hbody
          have hne' : s' ≠ [byte '\\'] := by
            rintro rfl
            cases fuel with
            | zero => simp [strBody] at hbody
            | succ fuel => simp [strBody, escape, byte] at hbody
          rw [escape_append he hne hne', Option.bind_some, ih hbody (by omega)]
          simp_all
      · rw [Option.map_eq_some_iff] at h
        obtain ⟨⟨z, r'⟩, hbody, heq⟩ := h
        rw [ih hbody (by omega)]
        simp_all

theorem string_append {s x r : Bytes} (h : string s = some (x, r)) (t : Bytes) :
    string (s ++ t) = some (x, r ++ t) := by
  cases s with
  | nil => simp [string] at h
  | cons c s =>
    rw [string] at h
    rw [List.cons_append, string]
    split_ifs at h ⊢
    exact strBody_append h (by simp) t

end Strings

section Numbers

theorem fracPart_append {s : Bytes} {f : Option Bytes} {r : Bytes}
    (h : fracPart s = some (f, r)) (hr : r ≠ []) (t : Bytes) :
    fracPart (s ++ t) = some (f, r ++ t) := by
  cases s with
  | nil =>
    obtain ⟨-, rfl⟩ : none = f ∧ [] = r := by simpa [fracPart] using h
    exact absurd rfl hr
  | cons c s =>
    rw [fracPart] at h
    rw [List.cons_append, fracPart]
    split_ifs at h with hdot hdigits
    · obtain ⟨rfl, rfl⟩ := Prod.mk.inj (Option.some.inj h)
      rw [if_pos hdot, takeWhile_append_of_ne_nil hr, dropWhile_append_of_ne_nil hr,
        if_neg hdigits]
    · obtain ⟨rfl, rfl⟩ := Prod.mk.inj (Option.some.inj h)
      rw [if_neg hdot, List.cons_append]

theorem expSign_append {s : Bytes} (hs : s ≠ []) (t : Bytes) :
    expSign (s ++ t) = ((expSign s).1, (expSign s).2 ++ t) := by
  cases s with
  | nil => exact absurd rfl hs
  | cons c s =>
    rw [List.cons_append, expSign, expSign]
    split_ifs <;> rfl

theorem expPart_append {s : Bytes} {e : Option (Bool × Bytes)} {r : Bytes}
    (h : expPart s = some (e, r)) (hr : r ≠ []) (t : Bytes) :
    expPart (s ++ t) = some (e, r ++ t) := by
  cases s with
  | nil =>
    obtain ⟨-, rfl⟩ : none = e ∧ [] = r := by simpa [expPart] using h
    exact absurd rfl hr
  | cons c s =>
    rw [expPart] at h
    rw [List.cons_append, expPart]
    split_ifs at h with he
    · dsimp only at h
      split_ifs at h with hdigits
      obtain ⟨rfl, rfl⟩ := Prod.mk.inj (Option.some.inj h)
      have hs : s ≠ [] := by
        rintro rfl
        exact hr rfl
      rw [if_pos he, expSign_append hs]
      dsimp only
      rw [takeWhile_append_of_ne_nil hr, dropWhile_append_of_ne_nil hr, if_neg hdigits]
    · obtain ⟨rfl, rfl⟩ := Prod.mk.inj (Option.some.inj h)
      rw [if_neg he, List.cons_append]

theorem numSign_append {s : Bytes} (hs : s ≠ []) (t : Bytes) :
    numSign (s ++ t) = ((numSign s).1, (numSign s).2 ++ t) := by
  cases s with
  | nil => exact absurd rfl hs
  | cons c s =>
    rw [List.cons_append, numSign, numSign]
    split_ifs <;> rfl

theorem numToken_append {s : Bytes} {n : NumToken} {r : Bytes} (h : numToken s = some (n, r))
    (hr : r ≠ []) (t : Bytes) : numToken (s ++ t) = some (n, r ++ t) := by
  have hs : s ≠ [] := by
    rintro rfl
    simp [numToken, numSign] at h
  rw [numToken] at h
  rw [numToken, numSign_append hs]
  dsimp only at h ⊢
  split_ifs at h with hint
  rw [Option.bind_eq_some_iff] at h
  obtain ⟨⟨f, s₁⟩, hf, h⟩ := h
  rw [Option.map_eq_some_iff] at h
  obtain ⟨⟨e, s₂⟩, he, heq⟩ := h
  obtain ⟨rfl, rfl⟩ := Prod.mk.inj heq
  dsimp only at hr he ⊢
  have hs₁ : s₁ ≠ [] := by
    rintro rfl
    obtain ⟨-, rfl⟩ : none = e ∧ [] = s₂ := by simpa [expPart] using he
    exact hr rfl
  have hdrop : (numSign s).2.dropWhile isDigit ≠ [] := by
    intro hnil
    rw [hnil] at hf
    obtain ⟨-, rfl⟩ : none = f ∧ [] = s₁ := by simpa [fracPart] using hf
    exact hs₁ rfl
  rw [takeWhile_append_of_ne_nil hdrop, dropWhile_append_of_ne_nil hdrop, if_neg hint,
    fracPart_append hf hs₁, Option.bind_some, expPart_append he hr, Option.map_some]

end Numbers

section Loops

variable {val val' : Bytes → Option (Value × Bytes)}

theorem members_mono (hsub : ∀ x y, val' x = some y → val x = some y) {fuel : ℕ}
    {o : List (Bytes × Value)} {s : Bytes} {y : Value × Bytes}
    (h : members val' fuel o s = some y) : members val fuel o s = some y := by
  induction fuel generalizing o s with
  | zero => simp [members] at h
  | succ fuel ih =>
    simp only [members, Option.bind_eq_some_iff] at h ⊢
    obtain ⟨k, hk, s₁, hs₁, v, hv, n, hn, h⟩ := h
    refine ⟨k, hk, s₁, hs₁, v, hsub _ _ hv, n, hn, ?_⟩
    split_ifs at h ⊢
    · exact ih h
    · exact h

theorem items_mono (hsub : ∀ x y, val' x = some y → val x = some y) {fuel : ℕ} {a : List Value}
    {s : Bytes} {y : Value × Bytes} (h : items val' fuel a s = some y) :
    items val fuel a s = some y := by
  induction fuel generalizing a s with
  | zero => simp [items] at h
  | succ fuel ih =>
    simp only [items, Option.bind_eq_some_iff] at h ⊢
    obtain ⟨v, hv, n, hn, h⟩ := h
    refine ⟨v, hsub _ _ hv, n, hn, ?_⟩
    split_ifs at h ⊢
    · exact ih h
    · exact h

def isNumber : Value → Bool
  | .int _ => true
  | .num _ => true
  | _ => false

/-- A number at the end of the text might go on; anything else has ended. -/
def Ended (v : Value) (r : Bytes) : Prop := r = [] → isNumber v = false

/-- The same result with more text behind it. -/
def behind (t : Bytes) (y : Value × Bytes) : Value × Bytes := (y.1, y.2 ++ t)

/-- A text that `val` takes, read by `val'` with more behind it. -/
def Extends (val val' : Bytes → Option (Value × Bytes)) : Prop :=
  ∀ x v r, val x = some (v, r) → Ended v r → ∀ t, val' (x ++ t) = (val' x).map (behind t)

theorem members_append (hsub : ∀ x y, val' x = some y → val x = some y)
    (hext : Extends val val') {fuel fuel' : ℕ} {o : List (Bytes × Value)} {s : Bytes}
    {y : Value × Bytes} (h : members val fuel o s = some y) (hfuel : fuel ≤ fuel') (t : Bytes) :
    members val' fuel' o (s ++ t) = (members val' fuel o s).map (behind t) := by
  induction fuel generalizing fuel' o s with
  | zero => simp [members] at h
  | succ fuel ih =>
    obtain ⟨fuel', rfl⟩ : ∃ n, fuel' = n + 1 := ⟨fuel' - 1, by omega⟩
    simp only [members, Option.bind_eq_some_iff] at h
    obtain ⟨⟨k, s₁⟩, hk, s₂, hs₂, ⟨v, s₃⟩, hv, ⟨more, s₄⟩, hn, h⟩ := h
    have hws : ws s ≠ [] := by
      intro hnil
      simp [hnil, string] at hk
    have hended : Ended v s₃ := fun hnil => absurd hnil (ne_nil_of_next hn)
    simp only [members, ws_append hws, string_append hk, hk, Option.bind_some,
      expect_append hs₂, hs₂, hext _ _ _ hv hended t]
    cases hv' : val' s₂ with
    | none => rfl
    | some w =>
      -- the reader with fewer levels gets through, so it reads the same
      have hw : w = (v, s₃) := Option.some.inj ((hsub _ _ hv').symm.trans hv)
      subst hw
      simp only [Option.map_some, Option.bind_some, behind, next_append hn, hn]
      cases more with
      | true =>
        simp only [if_true] at h ⊢
        exact ih h (by omega)
      | false => rfl

theorem items_append (hsub : ∀ x y, val' x = some y → val x = some y)
    (hext : Extends val val') {fuel fuel' : ℕ} {a : List Value} {s : Bytes} {y : Value × Bytes}
    (h : items val fuel a s = some y) (hfuel : fuel ≤ fuel') (t : Bytes) :
    items val' fuel' a (s ++ t) = (items val' fuel a s).map (behind t) := by
  induction fuel generalizing fuel' a s with
  | zero => simp [items] at h
  | succ fuel ih =>
    obtain ⟨fuel', rfl⟩ : ∃ n, fuel' = n + 1 := ⟨fuel' - 1, by omega⟩
    simp only [items, Option.bind_eq_some_iff] at h
    obtain ⟨⟨v, s₁⟩, hv, ⟨more, s₂⟩, hn, h⟩ := h
    have hended : Ended v s₁ := fun hnil => absurd hnil (ne_nil_of_next hn)
    simp only [items, hext _ _ _ hv hended t]
    cases hv' : val' s with
    | none => rfl
    | some w =>
      have hw : w = (v, s₁) := Option.some.inj ((hsub _ _ hv').symm.trans hv)
      subst hw
      simp only [Option.map_some, Option.bind_some, behind, next_append hn, hn]
      cases more with
      | true =>
        simp only [if_true] at h ⊢
        exact ih h (by omega)
      | false => rfl

theorem object_mono (hsub : ∀ x y, val' x = some y → val x = some y) {s : Bytes}
    {y : Value × Bytes} (h : object val' s = some y) : object val s = some y := by
  rw [object] at h ⊢
  cases he : expect (byte '}') s with
  | some r =>
    rw [he] at h
    exact h
  | none =>
    rw [he] at h
    exact members_mono hsub h

theorem array_mono (hsub : ∀ x y, val' x = some y → val x = some y) {s : Bytes}
    {y : Value × Bytes} (h : array val' s = some y) : array val s = some y := by
  rw [array] at h ⊢
  cases he : expect (byte ']') s with
  | some r =>
    rw [he] at h
    exact h
  | none =>
    rw [he] at h
    exact items_mono hsub h

theorem object_append (hsub : ∀ x y, val' x = some y → val x = some y)
    (hext : Extends val val') {s : Bytes} {y : Value × Bytes} (h : object val s = some y)
    (t : Bytes) : object val' (s ++ t) = (object val' s).map (behind t) := by
  rw [object] at h ⊢
  rw [object]
  cases he : expect (byte '}') s with
  | some r =>
    rw [expect_append he]
    rfl
  | none =>
    rw [he] at h
    have hws : ws s ≠ [] := by
      intro hnil
      cases hs : s.length with
      | zero => simp [hs, members] at h
      | succ n => simp [hs, members, hnil, string] at h
    rw [expect_append_of_none he hws]
    exact members_append hsub hext h (by simp) t

theorem array_append (hsub : ∀ x y, val' x = some y → val x = some y)
    (hext : Extends val val') {s : Bytes} {y : Value × Bytes} (h : array val s = some y)
    (hval : ∀ x, ws x = [] → val x = none) (t : Bytes) :
    array val' (s ++ t) = (array val' s).map (behind t) := by
  rw [array] at h ⊢
  rw [array]
  cases he : expect (byte ']') s with
  | some r =>
    rw [expect_append he]
    rfl
  | none =>
    rw [he] at h
    have hws : ws s ≠ [] := by
      intro hnil
      cases hs : s.length with
      | zero => simp [hs, items] at h
      | succ n => simp [hs, items, hval s hnil] at h
    rw [expect_append_of_none he hws]
    exact items_append hsub hext h (by simp) t

end Loops

section Value

theorem value_eq_none_of_ws (levels : ℕ) {s : Bytes} (h : ws s = []) : value levels s = none := by
  cases levels with
  | zero => rfl
  | succ levels => rw [value, h]

theorem value_mono {levels levels' : ℕ} (hle : levels ≤ levels') {s : Bytes} {y : Value × Bytes}
    (h : value levels s = some y) : value levels' s = some y := by
  induction levels generalizing levels' s y with
  | zero => simp [value] at h
  | succ levels ih =>
    obtain ⟨levels', rfl⟩ : ∃ n, levels' = n + 1 := ⟨levels' - 1, by omega⟩
    have hsub : ∀ x y, value levels x = some y → value levels' x = some y :=
      fun x y => ih (by omega)
    rw [value] at h ⊢
    cases hs : ws s with
    | nil => simp [hs] at h
    | cons c s' =>
      rw [hs] at h
      dsimp only at h ⊢
      split_ifs at h ⊢
      · exact object_mono hsub h
      · exact array_mono hsub h
      all_goals exact h

theorem lit_append {w : Bytes} {v : Value} {s : Bytes} {y : Value × Bytes}
    (h : lit w v s = some y) (t : Bytes) : lit w v (s ++ t) = some (behind t y) := by
  rw [lit] at h ⊢
  split_ifs at h with hw
  rw [if_pos (hw.trans (List.prefix_append s t)), ← Option.some.inj h, behind,
    List.drop_append_of_le_length hw.length_le]

/-- A text that is one value and has ended is read the same way whatever follows it, also
by a reader with fewer levels, which may give up on both. -/
theorem value_append {levels levels' : ℕ} (hle : levels' ≤ levels) :
    Extends (value levels) (value levels') := by
  induction levels' generalizing levels with
  | zero =>
    intro s v r _ _ t
    rfl
  | succ levels' ih =>
    intro s v r h hended t
    obtain ⟨levels, rfl⟩ : ∃ n, levels = n + 1 := ⟨levels - 1, by omega⟩
    have hsub : ∀ x y, value levels' x = some y → value levels x = some y :=
      fun x y => value_mono (by omega)
    have hext : Extends (value levels) (value levels') := ih (by omega)
    rw [value] at h
    cases hs : ws s with
    | nil => simp [hs] at h
    | cons c s' =>
      rw [hs] at h
      rw [value, value, ws_append (by simp [hs]), hs, List.cons_append]
      dsimp only at h ⊢
      split_ifs at h ⊢
      · exact object_append hsub hext h t
      · exact array_append hsub hext h (fun x => value_eq_none_of_ws levels) t
      · rw [Option.map_eq_some_iff] at h
        obtain ⟨⟨x, r'⟩, hx, -⟩ := h
        rw [hx, ← List.cons_append, string_append hx]
        rfl
      · rw [h, ← List.cons_append, lit_append h]
        rfl
      · rw [h, ← List.cons_append, lit_append h]
        rfl
      · rw [h, ← List.cons_append, lit_append h]
        rfl
      · rw [number, Option.map_eq_some_iff] at h
        obtain ⟨⟨n, r'⟩, hn, heq⟩ := h
        obtain ⟨rfl, rfl⟩ := Prod.mk.inj heq
        have hr : r' ≠ [] := by
          intro hnil
          have := hended hnil
          rw [numValue] at this
          split_ifs at this <;> cases this
        rw [number, number, hn, ← List.cons_append, numToken_append hn hr]
        rfl

theorem isObj_of_members {val : Bytes → Option (Value × Bytes)} {fuel : ℕ}
    {o : List (Bytes × Value)} {s : Bytes} {y : Value × Bytes}
    (h : members val fuel o s = some y) : y.1.isObj = true := by
  induction fuel generalizing o s with
  | zero => simp [members] at h
  | succ fuel ih =>
    simp only [members, Option.bind_eq_some_iff] at h
    obtain ⟨k, -, s₁, -, w, -, n, -, h⟩ := h
    split_ifs at h
    · exact ih h
    · rw [← Option.some.inj h]
      rfl

theorem isObj_of_value {levels : ℕ} {s : Bytes} {y : Value × Bytes}
    (h : value levels (byte '{' :: s) = some y) : y.1.isObj = true := by
  cases levels with
  | zero => simp [value] at h
  | succ levels =>
    have hws : ws (byte '{' :: s) = byte '{' :: s := List.dropWhile_cons_of_neg (by decide)
    rw [value, hws] at h
    dsimp only at h
    rw [if_pos rfl, object] at h
    split at h
    · rw [← Option.some.inj h]
      rfl
    · exact isObj_of_members h

end Value

end ReadyUp.Fleet.JsonText
