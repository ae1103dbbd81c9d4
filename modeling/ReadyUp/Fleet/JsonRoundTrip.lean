import ReadyUp.Fleet.JsonReader

/-!
# Writing a JSON value and reading it back

`Fits levels v` says what a reader with that many levels can return: integers of 64 bits,
no NaN, no key twice in an object, bounded nesting. Such a value, written and read again,
comes back as `reread v` (`value_dump`). That is the same value (`Same`) unless it holds an
infinite number, which is written as null.
-/
namespace ReadyUp.Fleet.JsonText

open Support JsonScan

section Strings

theorem escape_control {c : UInt8} (h : c < 0x20 ∨ c = 0x7F) (s : Bytes) :
    escape (byte 'u' :: byte '0' :: byte '0' :: hexDigit (c.toNat / 16) ::
      hexDigit (c.toNat % 16) :: s) = some ([c], s) := by
  have hc : c.toNat < 0x80 := by
    rcases h with h | h
    · have := UInt8.lt_iff_toNat_lt.mp h
      have h20 : (0x20 : UInt8).toNat = 32 := rfl
      omega
    · rw [h]
      decide
  have hhigh : isHighSurrogate c.toNat = false := by
    simp [isHighSurrogate]
    omega
  have hlow : isLowSurrogate c.toNat = false := by
    simp [isLowSurrogate]
    omega
  rw [escape, if_pos rfl, hex4_control hc, Option.bind_some]
  simp [hhigh, hlow, putUtf8, hc]

theorem strBody_escapeByte (c : UInt8) (fuel : ℕ) (s : Bytes) :
    strBody (fuel + 1) (escapeByte c ++ s) =
      (strBody fuel s).map fun r => (c :: r.1, r.2) := by
  have hback : ∀ x r e, escape (x :: r) = some (e, s) →
      strBody (fuel + 1) (byte '\\' :: x :: r) = (strBody fuel s).map fun r => (e ++ r.1, r.2) := by
    intro x r e he
    rw [strBody, if_neg (by decide), if_neg (by decide), if_pos rfl, he, Option.bind_some]
  rw [escapeByte]
  split_ifs with h₁ h₂ h₃ h₄ h₅ h₆ h₇ h₈
  · exact hback _ _ [c] (by rw [h₁]; rfl)
  · exact hback _ _ [c] (by rw [h₂]; rfl)
  · exact hback _ _ [c] (by rw [h₃]; rfl)
  · exact hback _ _ [c] (by rw [h₄]; rfl)
  · exact hback _ _ [c] (by rw [h₅]; rfl)
  · exact hback _ _ [c] (by rw [h₆]; rfl)
  · exact hback _ _ [c] (by rw [h₇]; rfl)
  · exact hback _ _ [c] (escape_control h₈ s)
  · rw [not_or] at h₈
    rw [List.cons_append, List.nil_append, strBody, if_neg h₁, if_neg h₈.1, if_neg h₂]

theorem strBody_escaped (x t : Bytes) {fuel : ℕ} (h : x.length < fuel) :
    strBody fuel (x.flatMap escapeByte ++ byte '"' :: t) = some (x, t) := by
  induction x generalizing fuel with
  | nil =>
    obtain ⟨fuel, rfl⟩ : ∃ n, fuel = n + 1 := ⟨fuel - 1, by omega⟩
    rw [List.flatMap_nil, List.nil_append, strBody, if_pos rfl]
  | cons c x ih =>
    obtain ⟨fuel, rfl⟩ : ∃ n, fuel = n + 1 := ⟨fuel - 1, by omega⟩
    rw [List.length_cons] at h
    rw [List.flatMap_cons, List.append_assoc, strBody_escapeByte, ih (by omega), Option.map_some]

/-- A string in quotes is read back, whatever bytes it holds. -/
theorem string_quoted (x t : Bytes) : string (quoted x ++ t) = some (x, t) := by
  have hlen := length_le_escaped x
  rw [quoted, List.cons_append, string, if_pos rfl, List.append_assoc, List.singleton_append]
  apply strBody_escaped
  rw [List.length_append, List.length_cons]
  omega

end Strings

section Numbers

theorem expPart_text {n : NumToken} (h : n.WellFormed) {t : Bytes} (ht : NumEnd t) :
    expPart (n.expText ++ t) = some (n.exp, t) := by
  rw [NumToken.expText]
  cases hexp : n.exp with
  | none =>
    cases t with
    | nil => rfl
    | cons c t =>
      obtain ⟨-, -, he, hE⟩ := ht c rfl
      simp [expPart, he, hE]
  | some e =>
    obtain ⟨neg, ds⟩ := e
    obtain ⟨hne, hdigits⟩ := h.2.2 _ hexp
    have hsign : expSign ((if neg then byte '-' else byte '+') :: (ds ++ t)) = (neg, ds ++ t) := by
      cases neg <;> rfl
    obtain ⟨htake, hdrop⟩ := takeWhile_digits hdigits fun c hc => (ht c hc).1
    simp only [List.cons_append, expPart, hsign, htake, hdrop]
    simp [hne]

theorem fracPart_text {n : NumToken} (h : n.WellFormed) {t : Bytes}
    (ht : ∀ c ∈ t.head?, isDigit c = false ∧ c ≠ byte '.') :
    fracPart (n.fracText ++ t) = some (n.frac, t) := by
  rw [NumToken.fracText]
  cases hfrac : n.frac with
  | none =>
    cases t with
    | nil => rfl
    | cons c t => simp [fracPart, (ht c rfl).2]
  | some f =>
    obtain ⟨hne, hdigits⟩ := h.2.1 _ hfrac
    obtain ⟨htake, hdrop⟩ := takeWhile_digits hdigits fun c hc => (ht c hc).1
    simp [fracPart, htake, hdrop, hne]

theorem numToken_text {n : NumToken} (h : n.WellFormed) {t : Bytes} (ht : NumEnd t) :
    numToken (n.text ++ t) = some (n, t) := by
  obtain ⟨hne, hdigits⟩ := h.1
  obtain ⟨htake, hdrop⟩ := takeWhile_digits hdigits (head_fracText (n := n) ht)
  rw [numToken, numSign_text h]
  simp only [htake, hdrop, hne, if_false]
  rw [fracPart_text h (head_expText ht), Option.bind_some, expPart_text h ht, Option.map_some]

theorem numValue_intToken {i : ℤ} (h : InInt64 i) : numValue (intToken i) = .int i := by
  rw [numValue, toInt_intToken, if_pos ⟨rfl, h⟩]

end Numbers

/-- What a reader with so many levels can return. -/
inductive Fits : ℕ → Value → Prop
  | null {levels} : Fits (levels + 1) .null
  | bool {levels b} : Fits (levels + 1) (.bool b)
  | int {levels i} : InInt64 i → Fits (levels + 1) (.int i)
  | num {levels n} : n.isNaN = false → Fits (levels + 1) (.num n)
  | str {levels s} : Fits (levels + 1) (.str s)
  | obj {levels o} : (keys o).Nodup → (∀ k v, (k, v) ∈ o → Fits levels v) →
      Fits (levels + 1) (.obj o)
  | arr {levels a} : (∀ v ∈ a, Fits levels v) → Fits (levels + 1) (.arr a)

theorem Fits.mono {levels levels' : ℕ} (hle : levels ≤ levels') {v : Value} (h : Fits levels v) :
    Fits levels' v := by
  induction h generalizing levels' with
  | null =>
    obtain ⟨n, rfl⟩ : ∃ n, levels' = n + 1 := ⟨levels' - 1, by omega⟩
    exact .null
  | bool =>
    obtain ⟨n, rfl⟩ : ∃ n, levels' = n + 1 := ⟨levels' - 1, by omega⟩
    exact .bool
  | int hi =>
    obtain ⟨n, rfl⟩ : ∃ n, levels' = n + 1 := ⟨levels' - 1, by omega⟩
    exact .int hi
  | num hn =>
    obtain ⟨n, rfl⟩ : ∃ n, levels' = n + 1 := ⟨levels' - 1, by omega⟩
    exact .num hn
  | str =>
    obtain ⟨n, rfl⟩ : ∃ n, levels' = n + 1 := ⟨levels' - 1, by omega⟩
    exact .str
  | obj hkeys _ ih =>
    obtain ⟨n, rfl⟩ : ∃ n, levels' = n + 1 := ⟨levels' - 1, by omega⟩
    exact .obj hkeys fun k v hmem => ih k v hmem (by omega)
  | arr _ ih =>
    obtain ⟨n, rfl⟩ : ∃ n, levels' = n + 1 := ⟨levels' - 1, by omega⟩
    exact .arr fun v hmem => ih v hmem (by omega)

theorem Fits.get {levels : ℕ} {v w : Value} {key : Bytes} (h : Fits (levels + 1) v)
    (hget : v.get key = some w) : Fits levels w := by
  cases h with
  | obj _ hfits => exact hfits key w (mem_of_lookup hget)
  | _ => simp [Value.get] at hget

section FitsOfValue

variable {val : Bytes → Option (Value × Bytes)} {levels : ℕ}

theorem fits_members (hval : ∀ s v r, val s = some (v, r) → Fits levels v) {fuel : ℕ}
    {o : List (Bytes × Value)} {s : Bytes} {v : Value} {r : Bytes}
    (h : members val fuel o s = some (v, r)) (ho : (keys o).Nodup)
    (hfits : ∀ k v, (k, v) ∈ o → Fits levels v) : Fits (levels + 1) v := by
  induction fuel generalizing o s with
  | zero => simp [members] at h
  | succ fuel ih =>
    simp only [members, Option.bind_eq_some_iff] at h
    obtain ⟨k, -, s₁, -, w, hw, n, -, h⟩ := h
    have ho' := nodup_keys_assign ho k.1 w.1
    have hfits' : ∀ j v, (j, v) ∈ assign o k.1 w.1 → Fits levels v := by
      intro j v hmem
      rcases mem_assign hmem with heq | hmem
      · rw [(Prod.mk.inj heq).2]
        exact hval _ _ _ hw
      · exact hfits j v hmem
    split_ifs at h
    · exact ih h ho' hfits'
    · rw [← (Prod.mk.inj (Option.some.inj h)).1]
      exact .obj ho' hfits'

theorem fits_items (hval : ∀ s v r, val s = some (v, r) → Fits levels v) {fuel : ℕ}
    {a : List Value} {s : Bytes} {v : Value} {r : Bytes} (h : items val fuel a s = some (v, r))
    (hfits : ∀ v ∈ a, Fits levels v) : Fits (levels + 1) v := by
  induction fuel generalizing a s with
  | zero => simp [items] at h
  | succ fuel ih =>
    simp only [items, Option.bind_eq_some_iff] at h
    obtain ⟨w, hw, n, -, h⟩ := h
    have hfits' : ∀ v ∈ a ++ [w.1], Fits levels v := by
      intro v hmem
      rcases List.mem_append.mp hmem with hmem | hmem
      · exact hfits v hmem
      · rw [List.mem_singleton.mp hmem]
        exact hval _ _ _ hw
    split_ifs at h
    · exact ih h hfits'
    · rw [← (Prod.mk.inj (Option.some.inj h)).1]
      exact .arr hfits'

theorem fits_of_value {s : Bytes} {v : Value} {r : Bytes} (h : value levels s = some (v, r)) :
    Fits levels v := by
  induction levels generalizing s v r with
  | zero => simp [value] at h
  | succ levels ih =>
    rw [value] at h
    cases hs : ws s with
    | nil => simp [hs] at h
    | cons c s' =>
      rw [hs] at h
      dsimp only at h
      split_ifs at h
      · rw [object] at h
        split at h
        · rw [← (Prod.mk.inj (Option.some.inj h)).1]
          exact .obj nodup_keys_nil fun k v hmem => absurd hmem List.not_mem_nil
        · exact fits_members (fun s v r => ih) h nodup_keys_nil fun k v hmem =>
            absurd hmem List.not_mem_nil
      · rw [array] at h
        split at h
        · rw [← (Prod.mk.inj (Option.some.inj h)).1]
          exact .arr fun v hmem => absurd hmem List.not_mem_nil
        · exact fits_items (fun s v r => ih) h fun v hmem => absurd hmem List.not_mem_nil
      · rw [Option.map_eq_some_iff] at h
        obtain ⟨x, -, heq⟩ := h
        rw [← (Prod.mk.inj heq).1]
        exact .str
      · rw [lit] at h
        split_ifs at h
        rw [← (Prod.mk.inj (Option.some.inj h)).1]
        exact .bool
      · rw [lit] at h
        split_ifs at h
        rw [← (Prod.mk.inj (Option.some.inj h)).1]
        exact .bool
      · rw [lit] at h
        split_ifs at h
        rw [← (Prod.mk.inj (Option.some.inj h)).1]
        exact .null
      · rw [number, Option.map_eq_some_iff] at h
        obtain ⟨n, -, heq⟩ := h
        rw [← (Prod.mk.inj heq).1, numValue]
        split_ifs with hint
        · exact .int hint.2
        · exact .num (Binary64.isNaN_ofRat _ _)

theorem fits_of_parse {s : Bytes} {maxDepth : ℕ} {v : Value} (h : parse s maxDepth = some v) :
    Fits (maxDepth + 1) v := by
  rw [parse, Option.bind_eq_some_iff] at h
  obtain ⟨⟨w, r⟩, hvalue, h⟩ := h
  dsimp only at h
  split_ifs at h
  obtain rfl := Option.some.inj h
  exact fits_of_value hvalue

end FitsOfValue

section Reread

mutual

/-- The value that comes back when it is written and read. -/
def reread : Value → Value
  | .num n => if n.isFinite then numValue n.format17 else .null
  | .obj o => .obj (rereadMembers o)
  | .arr a => .arr (rereadItems a)
  | v => v

def rereadMembers : List (Bytes × Value) → List (Bytes × Value)
  | [] => []
  | (k, v) :: o => (k, reread v) :: rereadMembers o

def rereadItems : List Value → List Value
  | [] => []
  | v :: a => reread v :: rereadItems a

end

theorem value_of_digit {c : UInt8} (h : c = byte '-' ∨ isDigit c = true) (levels : ℕ) (s : Bytes) :
    value (levels + 1) (c :: s) = number (c :: s) := by
  have hc : isWs c = false ∧ c ≠ byte '{' ∧ c ≠ byte '[' ∧ c ≠ byte '"' ∧ c ≠ byte 't' ∧
      c ≠ byte 'f' ∧ c ≠ byte 'n' := by
    rcases h with rfl | h
    · decide
    · obtain ⟨d, hd, rfl⟩ := exists_digit h
      interval_cases d <;> decide
  obtain ⟨hws, h₁, h₂, h₃, h₄, h₅, h₆⟩ := hc
  rw [value, ws_cons hws]
  simp only [h₁, h₂, h₃, h₄, h₅, h₆, if_false]

theorem value_numToken {n : NumToken} (h : n.WellFormed) (levels : ℕ) {t : Bytes} (ht : NumEnd t) :
    value (levels + 1) (n.text ++ t) = some (numValue n, t) := by
  have hnumber : number (n.text ++ t) = some (numValue n, t) := by
    rw [number, numToken_text h ht, Option.map_some]
  obtain ⟨c, s, hcs, hc⟩ := text_head h
  rw [hcs, List.cons_append] at hnumber ⊢
  rw [value_of_digit hc, hnumber]

section Loops

variable {levels : ℕ}

theorem members_dump {o : List (Bytes × Value)} {t : Bytes} (hne : o ≠ [])
    (hval : ∀ k v, (k, v) ∈ o → ∀ t, NumEnd t → value levels (dump v ++ t) = some (reread v, t))
    {done : List (Bytes × Value)} (hkeys : (keys done ++ keys o).Nodup) {fuel : ℕ}
    (hfuel : o.length ≤ fuel) :
    members (value levels) fuel done (dumpMembers o ++ byte '}' :: t) =
      some (.obj (done ++ rereadMembers o), t) := by
  induction o generalizing done fuel with
  | nil => exact absurd rfl hne
  | cons kv o ih =>
    obtain ⟨k, v⟩ := kv
    obtain ⟨fuel, rfl⟩ : ∃ n, fuel = n + 1 := ⟨fuel - 1, by rw [List.length_cons] at hfuel; omega⟩
    have hk : k ∉ keys done := by
      intro hmem
      exact (List.nodup_append.mp hkeys).2.2 k hmem k List.mem_cons_self rfl
    have hassign := assign_of_notMem hk (reread v)
    rw [members, dumpMembers, List.append_assoc, quoted_append, ws_cons (by decide),
      ← quoted_append, string_quoted, Option.bind_some, List.cons_append, expect,
      ws_cons (by decide)]
    simp only [if_true, Option.bind_some, List.append_assoc]
    cases o with
    | nil =>
      have hend := numEnd_cons (c := byte '}') (by decide) t
      simp only [List.isEmpty_nil, if_true, List.nil_append]
      rw [hval k v List.mem_cons_self _ hend, Option.bind_some, next, ws_cons (by decide)]
      simp [hassign, rereadMembers, byte]
    | cons kv' o =>
      have hend := numEnd_cons (c := byte ',') (by decide)
        (dumpMembers (kv' :: o) ++ byte '}' :: t)
      simp only [List.isEmpty_cons, Bool.false_eq_true, if_false, List.cons_append]
      rw [hval k v List.mem_cons_self _ hend, Option.bind_some, next, ws_cons (by decide)]
      simp only [if_true, Option.bind_some, hassign]
      have hkeys' : (keys (done ++ [(k, reread v)]) ++ keys (kv' :: o)).Nodup := by
        simpa [keys] using hkeys
      rw [ih (List.cons_ne_nil _ _) (fun k v h => hval k v (List.mem_cons_of_mem _ h)) hkeys'
        (by simpa using hfuel)]
      simp [rereadMembers]

theorem items_dump {a : List Value} {t : Bytes} (hne : a ≠ [])
    (hval : ∀ v ∈ a, ∀ t, NumEnd t → value levels (dump v ++ t) = some (reread v, t))
    {done : List Value} {fuel : ℕ} (hfuel : a.length ≤ fuel) :
    items (value levels) fuel done (dumpItems a ++ byte ']' :: t) =
      some (.arr (done ++ rereadItems a), t) := by
  induction a generalizing done fuel with
  | nil => exact absurd rfl hne
  | cons v a ih =>
    obtain ⟨fuel, rfl⟩ : ∃ n, fuel = n + 1 := ⟨fuel - 1, by rw [List.length_cons] at hfuel; omega⟩
    rw [items, dumpItems, List.append_assoc]
    cases a with
    | nil =>
      have hend := numEnd_cons (c := byte ']') (by decide) t
      simp only [List.isEmpty_nil, if_true, List.nil_append]
      rw [hval v List.mem_cons_self _ hend, Option.bind_some, next, ws_cons (by decide)]
      simp [rereadItems, byte]
    | cons w a =>
      have hend := numEnd_cons (c := byte ',') (by decide) (dumpItems (w :: a) ++ byte ']' :: t)
      simp only [List.isEmpty_cons, Bool.false_eq_true, if_false, List.cons_append]
      rw [hval v List.mem_cons_self _ hend, Option.bind_some, next, ws_cons (by decide)]
      simp only [if_true, Option.bind_some]
      rw [ih (List.cons_ne_nil _ _) (fun v h => hval v (List.mem_cons_of_mem _ h))
        (by simpa using hfuel)]
      simp [rereadItems]

end Loops

theorem length_le_dumpMembers (o : List (Bytes × Value)) : o.length ≤ (dumpMembers o).length := by
  induction o with
  | nil => exact Nat.zero_le _
  | cons kv o ih =>
    obtain ⟨k, v⟩ := kv
    rw [dumpMembers]
    cases o with
    | nil => simp [quoted]
    | cons kv' o =>
      simp only [List.isEmpty_cons, Bool.false_eq_true, if_false, List.length_append,
        List.length_cons] at ih ⊢
      omega

/-- No value starts with white space or with the end of an array. -/
def StartsValue (s : Bytes) : Prop := ∃ c t, s = c :: t ∧ isWs c = false ∧ c ≠ byte ']'

theorem startsValue_text {n : NumToken} (h : n.WellFormed) : StartsValue n.text := by
  obtain ⟨c, s, hcs, hc⟩ := text_head h
  refine ⟨c, s, hcs, ?_⟩
  rcases hc with rfl | hc
  · decide
  · obtain ⟨d, hd, rfl⟩ := exists_digit hc
    interval_cases d <;> decide

theorem startsValue_dump (v : Value) : StartsValue (dump v) := by
  cases v with
  | null => exact ⟨_, _, rfl, by decide⟩
  | bool b => cases b <;> exact ⟨_, _, rfl, by decide⟩
  | int i =>
    rw [dump, ← intToken_text]
    exact startsValue_text (intToken_wellFormed i)
  | num n =>
    rw [dump]
    split_ifs
    · exact startsValue_text n.format17_wellFormed
    · exact ⟨_, _, rfl, by decide⟩
  | str s => exact ⟨_, _, rfl, by decide⟩
  | obj o => exact ⟨_, _, rfl, by decide⟩
  | arr a => exact ⟨_, _, rfl, by decide⟩

theorem length_le_dumpItems (a : List Value) : a.length ≤ (dumpItems a).length := by
  induction a with
  | nil => exact Nat.zero_le _
  | cons v a ih =>
    obtain ⟨c, t, hct, -⟩ := startsValue_dump v
    rw [dumpItems, hct]
    cases a with
    | nil => simp
    | cons w a =>
      simp only [List.isEmpty_cons, Bool.false_eq_true, if_false, List.length_append,
        List.length_cons] at ih ⊢
      omega

theorem object_dump {levels : ℕ} {o : List (Bytes × Value)} (hkeys : (keys o).Nodup)
    (hval : ∀ k v, (k, v) ∈ o → ∀ t, NumEnd t → value levels (dump v ++ t) = some (reread v, t))
    (t : Bytes) :
    object (value levels) (dumpMembers o ++ byte '}' :: t) = some (.obj (rereadMembers o), t) := by
  cases o with
  | nil => simp [dumpMembers, object, expect, ws_cons, isWs, byte, rereadMembers]
  | cons kv o =>
    have hlen := length_le_dumpMembers (kv :: o)
    have hexpect : expect (byte '}') (dumpMembers (kv :: o) ++ byte '}' :: t) = none := by
      rw [dumpMembers, List.append_assoc, quoted_append, expect, ws_cons (by decide)]
      rfl
    rw [object, hexpect]
    apply members_dump (List.cons_ne_nil _ _) hval
    · simpa using hkeys
    · rw [List.length_append]
      omega

theorem array_dump {levels : ℕ} {a : List Value}
    (hval : ∀ v ∈ a, ∀ t, NumEnd t → value levels (dump v ++ t) = some (reread v, t))
    (t : Bytes) :
    array (value levels) (dumpItems a ++ byte ']' :: t) = some (.arr (rereadItems a), t) := by
  cases a with
  | nil => simp [dumpItems, array, expect, ws_cons, isWs, byte, rereadItems]
  | cons v a =>
    have hlen := length_le_dumpItems (v :: a)
    have hexpect : expect (byte ']') (dumpItems (v :: a) ++ byte ']' :: t) = none := by
      obtain ⟨c, s, hcs, hws, hne⟩ := startsValue_dump v
      rw [dumpItems, List.append_assoc, hcs, List.cons_append, expect, ws_cons hws]
      simp [hne]
    rw [array, hexpect]
    apply items_dump (List.cons_ne_nil _ _) hval
    rw [List.length_append]
    omega

/-- A value that fits is read back as `reread` says, whatever follows it. -/
theorem value_dump {levels : ℕ} {v : Value} (h : Fits levels v) {t : Bytes} (ht : NumEnd t) :
    value levels (dump v ++ t) = some (reread v, t) := by
  induction h generalizing t with
  | null => rfl
  | @bool levels b => cases b <;> rfl
  | @int levels i hi =>
    rw [dump, ← intToken_text, value_numToken (intToken_wellFormed i) levels ht,
      numValue_intToken hi, reread]
    all_goals simp
  | @num levels n hn =>
    rw [dump, reread]
    split_ifs
    · exact value_numToken n.format17_wellFormed levels ht
    · rfl
  | @str levels x =>
    have hstring := string_quoted x t
    rw [quoted_append] at hstring
    rw [dump, quoted_append, value, ws_cons (by decide)]
    dsimp only
    rw [if_neg (by decide), if_neg (by decide), if_pos rfl, hstring, Option.map_some, reread]
    all_goals simp
  | @obj levels o hkeys _ ih =>
    rw [dump, reread, List.cons_append, List.append_assoc, value, ws_cons (by decide)]
    exact object_dump hkeys (fun k v hmem t ht => ih k v hmem ht) t
  | @arr levels a _ ih =>
    rw [dump, reread, List.cons_append, List.append_assoc, value, ws_cons (by decide)]
    exact array_dump (fun v hmem t ht => ih v hmem ht) t

end Reread

section Same

mutual

/-- The same JSON value: an integer and a double are the same number when `AsNum` gives
equal doubles. -/
def same : Value → Value → Bool
  | .null, .null => true
  | .bool a, .bool b => a == b
  | .int i, .int j => i == j
  | .int i, .num n => (Binary64.ofInt i).eq n
  | .num n, .int i => (Binary64.ofInt i).eq n
  | .num m, .num n => m.eq n
  | .str s, .str t => s == t
  | .obj o, .obj p => sameMembers o p
  | .arr a, .arr b => sameItems a b
  | _, _ => false

def sameMembers : List (Bytes × Value) → List (Bytes × Value) → Bool
  | [], [] => true
  | (k, v) :: o, (j, w) :: p => k == j && same v w && sameMembers o p
  | _, _ => false

def sameItems : List Value → List Value → Bool
  | [], [] => true
  | v :: a, w :: b => same v w && sameItems a b
  | _, _ => false

end

mutual

/-- Every number in the value is finite. -/
def allFinite : Value → Bool
  | .num n => n.isFinite
  | .obj o => allFiniteMembers o
  | .arr a => allFiniteItems a
  | _ => true

def allFiniteMembers : List (Bytes × Value) → Bool
  | [] => true
  | (_, v) :: o => allFinite v && allFiniteMembers o

def allFiniteItems : List Value → Bool
  | [] => true
  | v :: a => allFinite v && allFiniteItems a

end

theorem same_num_reread {n : Binary64} (hn : n.isNaN = false) :
    same (.num n) (reread (.num n)) = n.isFinite := by
  rw [reread]
  split_ifs with hfin
  · have hstrtod := Binary64.strtod_format17 hfin
    rw [numValue]
    split_ifs with hint
    · have heq := Binary64.ofInt_toInt hint.1
      rw [hstrtod] at heq
      rw [same, heq, hfin]
    · rw [hstrtod, same, Binary64.eq_self, hn, hfin]
      rfl
  · rw [same]
    · simpa using hfin
    all_goals simp

theorem sameMembers_reread {o : List (Bytes × Value)}
    (h : ∀ k v, (k, v) ∈ o → same v (reread v) = allFinite v) :
    sameMembers o (rereadMembers o) = allFiniteMembers o := by
  induction o with
  | nil => simp [rereadMembers, sameMembers, allFiniteMembers]
  | cons kv o ih =>
    obtain ⟨k, v⟩ := kv
    rw [rereadMembers, sameMembers, allFiniteMembers, h k v List.mem_cons_self,
      ih fun k v hmem => h k v (List.mem_cons_of_mem _ hmem), beq_self_eq_true, Bool.true_and]

theorem sameItems_reread {a : List Value} (h : ∀ v ∈ a, same v (reread v) = allFinite v) :
    sameItems a (rereadItems a) = allFiniteItems a := by
  induction a with
  | nil => simp [rereadItems, sameItems, allFiniteItems]
  | cons v a ih =>
    rw [rereadItems, sameItems, allFiniteItems, h v List.mem_cons_self,
      ih fun v hmem => h v (List.mem_cons_of_mem _ hmem)]

/-- What comes back is the same value exactly when every number in it is finite. -/
theorem same_reread {levels : ℕ} {v : Value} (h : Fits levels v) :
    same v (reread v) = allFinite v := by
  induction h with
  | null => rfl
  | @bool levels b => simp [reread, same, allFinite]
  | int hi => simp [reread, same, allFinite]
  | num hn => rw [same_num_reread hn, allFinite]
  | str => simp [reread, same, allFinite]
  | obj _ _ ih =>
    rw [reread, same, allFinite]
    exact sameMembers_reread ih
  | arr _ ih =>
    rw [reread, same, allFinite]
    exact sameItems_reread ih

end Same

theorem parse_dump {maxDepth : ℕ} {v : Value} (h : Fits (maxDepth + 1) v) :
    parse (dump v) maxDepth = some (reread v) := by
  have hvalue := value_dump h (t := []) (by simp [NumEnd])
  rw [List.append_nil] at hvalue
  rw [parse, hvalue]
  rfl

end ReadyUp.Fleet.JsonText
