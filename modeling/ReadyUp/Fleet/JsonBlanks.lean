import ReadyUp.Fleet.JsonRoundTrip

/-!
# Line breaks in a JSON text

The client turns the line breaks of a payload into blanks, since the spool is a file of
lines. In a text that the reader takes, line breaks only stand between tokens, so the
value stays the same (`value_blanks`). What the writer writes has none (`printable_dump`).
-/
namespace ReadyUp.Fleet.JsonText

open Support JsonScan

def blank (c : UInt8) : UInt8 := if c = 10 ∨ c = 13 then byte ' ' else c

def blanks (s : Bytes) : Bytes := s.map blank

@[simp] theorem blanks_nil : blanks [] = [] := rfl

@[simp] theorem blanks_cons (c : UInt8) (s : Bytes) : blanks (c :: s) = blank c :: blanks s := rfl

@[simp] theorem length_blanks (s : Bytes) : (blanks s).length = s.length := List.length_map _

theorem blank_of_ne {c : UInt8} (h : c ≠ 10) (h' : c ≠ 13) : blank c = c := by
  rw [blank, if_neg (by simp [h, h'])]

theorem isWs_blank (c : UInt8) : isWs (blank c) = isWs c := by
  rw [blank]
  split_ifs with h
  · rcases h with rfl | rfl <;> rfl
  · rfl

theorem isDigit_blank (c : UInt8) : isDigit (blank c) = isDigit c := by
  rw [blank]
  split_ifs with h
  · rcases h with rfl | rfl <;> rfl
  · rfl

theorem ws_blanks (s : Bytes) : ws (blanks s) = blanks (ws s) := by
  induction s with
  | nil => rfl
  | cons c s ih =>
    rw [blanks_cons, ws, ws, List.dropWhile_cons, List.dropWhile_cons, isWs_blank]
    split_ifs
    · exact ih
    · rfl

theorem takeWhile_blanks (s : Bytes) : (blanks s).takeWhile isDigit = s.takeWhile isDigit := by
  induction s with
  | nil => rfl
  | cons c s ih =>
    rw [blanks_cons, List.takeWhile_cons, List.takeWhile_cons, isDigit_blank]
    split_ifs with h
    · have hc : blank c = c := by
        obtain ⟨d, hd, rfl⟩ := exists_digit h
        interval_cases d <;> decide
      rw [ih, hc]
    · rfl

theorem dropWhile_blanks (s : Bytes) :
    (blanks s).dropWhile isDigit = blanks (s.dropWhile isDigit) := by
  induction s with
  | nil => rfl
  | cons c s ih =>
    rw [blanks_cons, List.dropWhile_cons, List.dropWhile_cons, isDigit_blank]
    split_ifs
    · exact ih
    · rfl

/-- A byte other than a line break or a blank is told apart as before. -/
theorem blank_eq_iff {c x : UInt8} (hx : x ≠ 10 ∧ x ≠ 13 ∧ x ≠ byte ' ') : blank c = x ↔ c = x := by
  rw [blank]
  split_ifs with h
  · constructor
    · intro heq
      exact absurd heq.symm hx.2.2
    · rintro rfl
      rcases h with h | h
      · exact absurd h hx.1
      · exact absurd h hx.2.1
  · rfl

theorem expect_blanks {c : UInt8} (hc : c ≠ 10 ∧ c ≠ 13 ∧ c ≠ byte ' ') (s : Bytes) :
    expect c (blanks s) = (expect c s).map blanks := by
  rw [expect, expect, ws_blanks]
  cases ws s with
  | nil => rfl
  | cons x s =>
    rw [blanks_cons]
    dsimp only
    simp only [blank_eq_iff hc]
    split_ifs <;> rfl

theorem next_blanks {c : UInt8} (hc : c ≠ 10 ∧ c ≠ 13 ∧ c ≠ byte ' ') (s : Bytes) :
    next c (blanks s) = (next c s).map fun n => (n.1, blanks n.2) := by
  rw [next, next, ws_blanks]
  cases ws s with
  | nil => rfl
  | cons x s =>
    rw [blanks_cons]
    dsimp only
    simp only [blank_eq_iff hc, blank_eq_iff (x := byte ',') (by decide)]
    split_ifs <;> rfl

section Strings

theorem blank_of_hexValue {c : UInt8} {d : ℕ} (h : hexValue c = some d) : blank c = c := by
  apply blank_of_ne
  · rintro rfl
    simp [hexValue, byte] at h
  · rintro rfl
    simp [hexValue, byte] at h

theorem hex4_blanks {s : Bytes} {cp : ℕ} {r : Bytes} (h : hex4 s = some (cp, r)) :
    hex4 (blanks s) = some (cp, blanks r) := by
  match s with
  | a :: b :: c :: d :: s =>
    rw [hex4] at h
    cases ha : hexValue a <;> cases hb : hexValue b <;> cases hc : hexValue c <;>
      cases hd : hexValue d <;> simp [ha, hb, hc, hd] at h
    simp only [blanks_cons, blank_of_hexValue ha, blank_of_hexValue hb, blank_of_hexValue hc,
      blank_of_hexValue hd, hex4, ha, hb, hc, hd]
    simp [← h.1, ← h.2]
  | [] => simp [hex4] at h
  | [_] => simp [hex4] at h
  | [_, _] => simp [hex4] at h
  | [_, _, _] => simp [hex4] at h

theorem surrogate_blanks {hi : ℕ} {s x r : Bytes} (h : surrogate hi s = some (x, r)) :
    surrogate hi (blanks s) = some (x, blanks r) := by
  match s with
  | [] =>
    obtain ⟨rfl, rfl⟩ : putUtf8 0xFFFD = x ∧ [] = r := by simpa [surrogate] using h
    rfl
  | [b] =>
    obtain ⟨rfl, rfl⟩ : putUtf8 0xFFFD = x ∧ [b] = r := by simpa [surrogate] using h
    rfl
  | b :: u :: l =>
    rw [surrogate] at h
    rw [blanks_cons, blanks_cons, surrogate]
    simp only [blank_eq_iff (x := byte '\\') (by decide), blank_eq_iff (x := byte 'u') (by decide)]
    split_ifs at h ⊢ with hesc
    · rw [Option.map_eq_some_iff] at h
      obtain ⟨⟨lo, l'⟩, hlo, heq⟩ := h
      rw [hex4_blanks hlo, Option.map_some]
      dsimp only at heq ⊢
      split_ifs at heq ⊢ <;> simp_all
    · obtain ⟨rfl, rfl⟩ : putUtf8 0xFFFD = x ∧ b :: u :: l = r := by simpa using h
      rfl

theorem escape_blanks {s x r : Bytes} (h : escape s = some (x, r)) :
    escape (blanks s) = some (x, blanks r) := by
  cases s with
  | nil => simp [escape] at h
  | cons e s =>
    rw [escape] at h
    rw [blanks_cons, escape]
    simp only [blank_eq_iff (x := byte 'u') (by decide)]
    split_ifs at h ⊢ with hu
    · rw [Option.bind_eq_some_iff] at h
      obtain ⟨⟨cp, s'⟩, hcp, heq⟩ := h
      rw [hex4_blanks hcp, Option.bind_some]
      dsimp only at heq ⊢
      split_ifs at heq ⊢
      · exact surrogate_blanks heq
      · simp_all
      · simp_all
    · rw [Option.map_eq_some_iff] at h
      obtain ⟨c, hc, heq⟩ := h
      have he : blank e = e := by
        apply blank_of_ne
        · rintro rfl
          simp [unescape, byte] at hc
        · rintro rfl
          simp [unescape, byte] at hc
      rw [he, hc]
      simp_all

theorem strBody_blanks {fuel : ℕ} {s x r : Bytes} (h : strBody fuel s = some (x, r)) :
    strBody fuel (blanks s) = some (x, blanks r) := by
  induction fuel generalizing s x r with
  | zero => simp [strBody] at h
  | succ fuel ih =>
    cases s with
    | nil => simp [strBody] at h
    | cons c s =>
      rw [strBody] at h
      split_ifs at h with hquote hctl hback
      · obtain ⟨rfl, rfl⟩ := Prod.mk.inj (Option.some.inj h)
        rw [hquote]
        rfl
      · rw [Option.bind_eq_some_iff] at h
        obtain ⟨⟨y, s'⟩, he, h⟩ := h
        rw [Option.map_eq_some_iff] at h
        obtain ⟨⟨z, r'⟩, hbody, heq⟩ := h
        obtain ⟨rfl, rfl⟩ := Prod.mk.inj heq
        rw [hback, blanks_cons, strBody, if_neg (by decide), if_neg (by decide), if_pos (by decide),
          escape_blanks he, Option.bind_some, ih hbody]
        rfl
      · rw [Option.map_eq_some_iff] at h
        obtain ⟨⟨z, r'⟩, hbody, heq⟩ := h
        obtain ⟨rfl, rfl⟩ := Prod.mk.inj heq
        have hc : blank c = c := by
          apply blank_of_ne
          · rintro rfl
            exact hctl (by decide)
          · rintro rfl
            exact hctl (by decide)
        rw [blanks_cons, hc, strBody, if_neg hquote, if_neg hctl, if_neg hback, ih hbody]
        rfl

theorem string_blanks {s x r : Bytes} (h : string s = some (x, r)) :
    string (blanks s) = some (x, blanks r) := by
  cases s with
  | nil => simp [string] at h
  | cons c s =>
    rw [string] at h
    split_ifs at h with hc
    rw [blanks_cons, hc, string, if_pos (by decide), length_blanks]
    exact strBody_blanks h

end Strings

section Numbers

theorem fracPart_blanks {s : Bytes} {f : Option Bytes} {r : Bytes}
    (h : fracPart s = some (f, r)) : fracPart (blanks s) = some (f, blanks r) := by
  cases s with
  | nil =>
    obtain ⟨rfl, rfl⟩ : none = f ∧ [] = r := by simpa [fracPart] using h
    rfl
  | cons c s =>
    rw [fracPart] at h
    rw [blanks_cons, fracPart]
    simp only [blank_eq_iff (x := byte '.') (by decide), takeWhile_blanks, dropWhile_blanks]
    split_ifs at h ⊢ with hdot hdigits
    · obtain ⟨rfl, rfl⟩ := Prod.mk.inj (Option.some.inj h)
      rfl
    · obtain ⟨rfl, rfl⟩ := Prod.mk.inj (Option.some.inj h)
      rfl

theorem expSign_blanks (s : Bytes) :
    expSign (blanks s) = ((expSign s).1, blanks (expSign s).2) := by
  cases s with
  | nil => rfl
  | cons c s =>
    rw [blanks_cons, expSign, expSign]
    simp only [blank_eq_iff (x := byte '+') (by decide), blank_eq_iff (x := byte '-') (by decide)]
    split_ifs <;> rfl

theorem expPart_blanks {s : Bytes} {e : Option (Bool × Bytes)} {r : Bytes}
    (h : expPart s = some (e, r)) : expPart (blanks s) = some (e, blanks r) := by
  cases s with
  | nil =>
    obtain ⟨rfl, rfl⟩ : none = e ∧ [] = r := by simpa [expPart] using h
    rfl
  | cons c s =>
    simp only [expPart] at h
    simp only [blanks_cons, expPart, blank_eq_iff (x := byte 'e') (by decide),
      blank_eq_iff (x := byte 'E') (by decide), expSign_blanks, takeWhile_blanks, dropWhile_blanks]
    split_ifs at h ⊢ with he hdigits
    · obtain ⟨rfl, rfl⟩ := Prod.mk.inj (Option.some.inj h)
      rfl
    · obtain ⟨rfl, rfl⟩ := Prod.mk.inj (Option.some.inj h)
      rfl

theorem numSign_blanks (s : Bytes) :
    numSign (blanks s) = ((numSign s).1, blanks (numSign s).2) := by
  cases s with
  | nil => rfl
  | cons c s =>
    rw [blanks_cons, numSign, numSign]
    simp only [blank_eq_iff (x := byte '-') (by decide)]
    split_ifs <;> rfl

theorem numToken_blanks {s : Bytes} {n : NumToken} {r : Bytes} (h : numToken s = some (n, r)) :
    numToken (blanks s) = some (n, blanks r) := by
  simp only [numToken] at h
  simp only [numToken, numSign_blanks, takeWhile_blanks, dropWhile_blanks]
  split_ifs at h ⊢ with hint
  rw [Option.bind_eq_some_iff] at h
  obtain ⟨⟨f, s'⟩, hf, h⟩ := h
  rw [Option.map_eq_some_iff] at h
  obtain ⟨⟨e, s''⟩, he, heq⟩ := h
  obtain ⟨rfl, rfl⟩ := Prod.mk.inj heq
  rw [fracPart_blanks hf, Option.bind_some, expPart_blanks he]
  rfl

end Numbers

section Values

variable {val : Bytes → Option (Value × Bytes)}

/-- The reader takes a text with blanks for its line breaks the same way. -/
def IgnoresBreaks (val : Bytes → Option (Value × Bytes)) : Prop :=
  ∀ s v r, val s = some (v, r) → val (blanks s) = some (v, blanks r)

theorem members_blanks (hval : IgnoresBreaks val) {fuel : ℕ} {o : List (Bytes × Value)}
    {s : Bytes} {v : Value} {r : Bytes} (h : members val fuel o s = some (v, r)) :
    members val fuel o (blanks s) = some (v, blanks r) := by
  induction fuel generalizing o s with
  | zero => simp [members] at h
  | succ fuel ih =>
    simp only [members, Option.bind_eq_some_iff] at h
    obtain ⟨k, hk, s₁, hs₁, w, hw, n, hn, h⟩ := h
    rw [members, ws_blanks, string_blanks hk, Option.bind_some, expect_blanks (by decide), hs₁,
      Option.map_some, Option.bind_some, hval _ _ _ hw, Option.bind_some, next_blanks (by decide),
      hn, Option.map_some, Option.bind_some]
    dsimp only
    split_ifs at h ⊢
    · exact ih h
    · obtain ⟨rfl, rfl⟩ := Prod.mk.inj (Option.some.inj h)
      rfl

theorem items_blanks (hval : IgnoresBreaks val) {fuel : ℕ} {a : List Value} {s : Bytes}
    {v : Value} {r : Bytes} (h : items val fuel a s = some (v, r)) :
    items val fuel a (blanks s) = some (v, blanks r) := by
  induction fuel generalizing a s with
  | zero => simp [items] at h
  | succ fuel ih =>
    simp only [items, Option.bind_eq_some_iff] at h
    obtain ⟨w, hw, n, hn, h⟩ := h
    rw [items, hval _ _ _ hw, Option.bind_some, next_blanks (by decide), hn, Option.map_some,
      Option.bind_some]
    dsimp only
    split_ifs at h ⊢
    · exact ih h
    · obtain ⟨rfl, rfl⟩ := Prod.mk.inj (Option.some.inj h)
      rfl

theorem object_blanks (hval : IgnoresBreaks val) {s : Bytes} {v : Value} {r : Bytes}
    (h : object val s = some (v, r)) : object val (blanks s) = some (v, blanks r) := by
  rw [object] at h
  rw [object, expect_blanks (by decide)]
  cases he : expect (byte '}') s with
  | some s' =>
    rw [he] at h
    obtain ⟨rfl, rfl⟩ := Prod.mk.inj (Option.some.inj h)
    rfl
  | none =>
    rw [he] at h
    rw [Option.map_none, length_blanks]
    exact members_blanks hval h

theorem array_blanks (hval : IgnoresBreaks val) {s : Bytes} {v : Value} {r : Bytes}
    (h : array val s = some (v, r)) : array val (blanks s) = some (v, blanks r) := by
  rw [array] at h
  rw [array, expect_blanks (by decide)]
  cases he : expect (byte ']') s with
  | some s' =>
    rw [he] at h
    obtain ⟨rfl, rfl⟩ := Prod.mk.inj (Option.some.inj h)
    rfl
  | none =>
    rw [he] at h
    rw [Option.map_none, length_blanks]
    exact items_blanks hval h

theorem lit_blanks {w : Bytes} {x : Value} (hw : blanks w = w) {s : Bytes} {v : Value} {r : Bytes}
    (h : lit w x s = some (v, r)) : lit w x (blanks s) = some (v, blanks r) := by
  rw [lit] at h
  split_ifs at h with hpre
  obtain ⟨rfl, rfl⟩ := Prod.mk.inj (Option.some.inj h)
  have hpre' : w <+: blanks s := by
    rw [← hw]
    exact hpre.map blank
  rw [lit, if_pos hpre', blanks, blanks, List.map_drop]

/-- A text keeps its value when its line breaks become blanks. -/
theorem value_blanks (levels : ℕ) : IgnoresBreaks (value levels) := by
  induction levels with
  | zero =>
    intro s v r h
    simp [value] at h
  | succ levels ih =>
    intro s v r h
    rw [value] at h
    rw [value, ws_blanks]
    cases hs : ws s with
    | nil => simp [hs] at h
    | cons c s' =>
      rw [hs] at h
      dsimp only at h
      rw [blanks_cons]
      dsimp only
      simp only [blank_eq_iff (x := byte '{') (by decide), blank_eq_iff (x := byte '[') (by decide),
        blank_eq_iff (x := byte '"') (by decide), blank_eq_iff (x := byte 't') (by decide),
        blank_eq_iff (x := byte 'f') (by decide), blank_eq_iff (x := byte 'n') (by decide),
        ← blanks_cons]
      split_ifs at h ⊢
      · exact object_blanks ih h
      · exact array_blanks ih h
      · rw [Option.map_eq_some_iff] at h
        obtain ⟨⟨x, r'⟩, hx, heq⟩ := h
        obtain ⟨rfl, rfl⟩ := Prod.mk.inj heq
        rw [string_blanks hx]
        rfl
      · exact lit_blanks (by decide) h
      · exact lit_blanks (by decide) h
      · exact lit_blanks (by decide) h
      · rw [number, Option.map_eq_some_iff] at h
        obtain ⟨⟨n, r'⟩, hn, heq⟩ := h
        obtain ⟨rfl, rfl⟩ := Prod.mk.inj heq
        rw [number, numToken_blanks hn]
        rfl

theorem parse_blanks {s : Bytes} {maxDepth : ℕ} {v : Value} (h : parse s maxDepth = some v) :
    parse (blanks s) maxDepth = some v := by
  rw [parse, Option.bind_eq_some_iff] at h
  obtain ⟨⟨w, r⟩, hvalue, h⟩ := h
  dsimp only at h
  split_ifs at h with hr
  rw [parse, value_blanks _ _ _ _ hvalue, Option.bind_some, ws_blanks, hr]
  exact h

end Values

section Printable

/-- No line break and no other control byte. -/
def Printable (s : Bytes) : Prop := ∀ c ∈ s, 0x20 ≤ c ∧ c ≠ 0x7F

theorem Printable.notMem {s : Bytes} (h : Printable s) : (10 : UInt8) ∉ s := by
  intro hmem
  exact absurd (h 10 hmem).1 (by decide)

theorem printable_nil : Printable [] := fun _ hc => (by cases hc)

theorem printable_of_all {s : Bytes} (h : (s.all fun c => 0x20 ≤ c ∧ c ≠ 0x7F) = true) :
    Printable s := by
  intro c hc
  exact of_decide_eq_true (List.all_eq_true.mp h c hc)

theorem Printable.append {s t : Bytes} (hs : Printable s) (ht : Printable t) :
    Printable (s ++ t) := by
  intro c hc
  rcases List.mem_append.mp hc with hc | hc
  · exact hs c hc
  · exact ht c hc

theorem Printable.cons {c : UInt8} {s : Bytes} (hc : 0x20 ≤ c ∧ c ≠ 0x7F) (hs : Printable s) :
    Printable (c :: s) := by
  intro x hx
  rcases List.mem_cons.mp hx with rfl | hx
  · exact hc
  · exact hs x hx

theorem printable_digits {s : Bytes} (h : ∀ c ∈ s, isDigit c = true) : Printable s := by
  intro c hc
  obtain ⟨d, hd, rfl⟩ := exists_digit (h c hc)
  interval_cases d <;> decide

theorem printable_hexDigit : ∀ d < 16, 0x20 ≤ hexDigit d ∧ hexDigit d ≠ 0x7F := by decide

theorem printable_escapeByte (c : UInt8) : Printable (escapeByte c) := by
  rw [escapeByte]
  split_ifs with h₁ h₂ h₃ h₄ h₅ h₆ h₇ h₈
  · exact printable_of_all (by decide)
  · exact printable_of_all (by decide)
  · exact printable_of_all (by decide)
  · exact printable_of_all (by decide)
  · exact printable_of_all (by decide)
  · exact printable_of_all (by decide)
  · exact printable_of_all (by decide)
  · have hlt : c.toNat < 256 := c.toNat_lt
    have hhi := printable_hexDigit (c.toNat / 16) (by omega)
    have hlo := printable_hexDigit (c.toNat % 16) (by omega)
    exact .cons (by decide) (.cons (by decide) (.cons (by decide) (.cons (by decide)
      (.cons hhi (.cons hlo printable_nil)))))
  · rw [not_or, UInt8.not_lt] at h₈
    exact .cons h₈ printable_nil

theorem printable_quoted (s : Bytes) : Printable (quoted s) := by
  have hbody : Printable (s.flatMap escapeByte) := by
    intro x hx
    obtain ⟨c, -, hc⟩ := List.mem_flatMap.mp hx
    exact printable_escapeByte c x hc
  exact .cons (by decide) (hbody.append (.cons (by decide) printable_nil))

theorem printable_numToken {n : NumToken} (h : n.WellFormed) : Printable n.text := by
  have hint : Printable n.int := printable_digits h.1.2
  have hfrac : Printable n.fracText := by
    rw [NumToken.fracText]
    cases hf : n.frac with
    | none => exact printable_nil
    | some f => exact .cons (by decide) (printable_digits (h.2.1 _ hf).2)
  have hexp : Printable n.expText := by
    rw [NumToken.expText]
    cases he : n.exp with
    | none => exact printable_nil
    | some e =>
      obtain ⟨neg, ds⟩ := e
      have hds := printable_digits (h.2.2 _ he).2
      cases neg
      · exact .cons (by decide) (.cons (by decide) hds)
      · exact .cons (by decide) (.cons (by decide) hds)
  have hneg : Printable (if n.neg then [byte '-'] else []) := by
    cases n.neg
    · exact printable_nil
    · exact .cons (by decide) printable_nil
  exact hneg.append (hint.append (hfrac.append hexp))

theorem printable_toDecimal (i : ℤ) : Printable (toDecimal i) := by
  rw [← intToken_text]
  exact printable_numToken (intToken_wellFormed i)

theorem printable_dumpMembers {o : List (Bytes × Value)}
    (h : ∀ k v, (k, v) ∈ o → Printable (dump v)) : Printable (dumpMembers o) := by
  induction o with
  | nil => exact printable_nil
  | cons kv o ih =>
    obtain ⟨k, v⟩ := kv
    have htail := ih fun k v hmem => h k v (List.mem_cons_of_mem _ hmem)
    rw [dumpMembers]
    apply (printable_quoted k).append
    apply Printable.cons (by decide)
    apply (h k v List.mem_cons_self).append
    split_ifs
    · exact printable_nil
    · exact .cons (by decide) htail

theorem printable_dumpItems {a : List Value} (h : ∀ v ∈ a, Printable (dump v)) :
    Printable (dumpItems a) := by
  induction a with
  | nil => exact printable_nil
  | cons v a ih =>
    have htail := ih fun v hmem => h v (List.mem_cons_of_mem _ hmem)
    rw [dumpItems]
    apply (h v List.mem_cons_self).append
    split_ifs
    · exact printable_nil
    · exact .cons (by decide) htail

theorem printable_dump {levels : ℕ} {v : Value} (h : Fits levels v) : Printable (dump v) := by
  induction h with
  | null => exact printable_of_all (by decide)
  | @bool levels b => cases b <;> exact printable_of_all (by decide)
  | int hi =>
    rw [dump]
    exact printable_toDecimal _
  | @num levels n hn =>
    rw [dump]
    split_ifs
    · exact printable_numToken n.format17_wellFormed
    · exact printable_of_all (by decide)
  | str =>
    rw [dump]
    exact printable_quoted _
  | obj _ _ ih =>
    rw [dump]
    exact .cons (by decide) ((printable_dumpMembers ih).append (.cons (by decide) printable_nil))
  | arr _ ih =>
    rw [dump]
    exact .cons (by decide) ((printable_dumpItems ih).append (.cons (by decide) printable_nil))

end Printable

end ReadyUp.Fleet.JsonText
