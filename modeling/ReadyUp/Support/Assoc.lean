import Mathlib.Data.List.Nodup
import Mathlib.Data.List.Perm.Subperm
import Mathlib.Data.Option.Basic
import Mathlib.Tactic.Common

/-!
# Member lists in insertion order

A record with named members, kept as a list of pairs. A search takes the first member of
a key, `assign` overwrites that member or appends a new one, and `assignAll` is the loop
that walks one list and assigns into another.

Two lists without repeated keys hold the same record when they have the same length and
every member of one is found in the other, whatever the order (`sameMembers_iff`).
-/
namespace ReadyUp.Support

variable {κ α β γ : Type*}

theorem rel_imp {r s : α → β → Prop} {x : Option α} {y : Option β} (hxy : Option.Rel r x y)
    (h : ∀ a b, x = some a → y = some b → r a b → s a b) : Option.Rel s x y := by
  cases hxy with
  | none => exact .none
  | some hab => exact .some (h _ _ rfl rfl hab)

theorem rel_trans {r : α → β → Prop} {s : β → γ → Prop} {t : α → γ → Prop} {x : Option α}
    {y : Option β} {z : Option γ} (hxy : Option.Rel r x y) (hyz : Option.Rel s y z)
    (h : ∀ a b c, x = some a → y = some b → z = some c → r a b → s b c → t a c) :
    Option.Rel t x z := by
  cases hxy with
  | none =>
    cases hyz
    exact .none
  | some hab =>
    cases hyz with
    | some hbc => exact .some (h _ _ _ rfl rfl rfl hab hbc)

/-- The keys of a member list, in order. -/
def keys (l : List (κ × α)) : List κ := l.map Prod.fst

@[simp] theorem keys_nil : keys ([] : List (κ × α)) = [] := rfl

@[simp] theorem keys_cons (kv : κ × α) (l : List (κ × α)) : keys (kv :: l) = kv.1 :: keys l := rfl

theorem nodup_keys_nil : (keys ([] : List (κ × α))).Nodup := List.nodup_nil

@[simp] theorem length_keys (l : List (κ × α)) : (keys l).length = l.length := List.length_map _

theorem mem_keys_of_mem {l : List (κ × α)} {k : κ} {a : α} (h : (k, a) ∈ l) : k ∈ keys l :=
  List.mem_map.mpr ⟨(k, a), h, rfl⟩

variable [DecidableEq κ] [BEq κ] [LawfulBEq κ]

@[simp] theorem lookup_cons_eq (j k : κ) (a : α) (l : List (κ × α)) :
    ((j, a) :: l).lookup k = if k = j then some a else l.lookup k := by
  rw [List.lookup_cons]
  by_cases h : k = j
  · simp [h]
  · simp [h, beq_eq_false_iff_ne.mpr h]

theorem mem_of_lookup {l : List (κ × α)} {k : κ} {a : α} (h : l.lookup k = some a) :
    (k, a) ∈ l := by
  induction l with
  | nil => simp at h
  | cons kv l ih =>
    obtain ⟨j, b⟩ := kv
    rw [lookup_cons_eq] at h
    split_ifs at h with hk
    · obtain rfl : b = a := Option.some.inj h
      simp [hk]
    · exact List.mem_cons_of_mem _ (ih h)

theorem lookup_map (g : α → β) (l : List (κ × α)) (k : κ) :
    (l.map fun kv => (kv.1, g kv.2)).lookup k = (l.lookup k).map g := by
  induction l with
  | nil => rfl
  | cons kv l ih =>
    obtain ⟨j, a⟩ := kv
    by_cases hk : k = j
    · simp [hk]
    · simp [hk, ih]

theorem lookup_eq_none {l : List (κ × α)} {k : κ} : l.lookup k = none ↔ k ∉ keys l := by
  induction l with
  | nil => simp
  | cons kv l ih =>
    obtain ⟨j, b⟩ := kv
    rw [lookup_cons_eq, keys_cons, List.mem_cons, not_or]
    split_ifs with hk
    · simp [hk]
    · simp [hk, ih]

/-- Without repeated keys the first member of a key is its only one. -/
theorem lookup_of_mem {l : List (κ × α)} (hl : (keys l).Nodup) {k : κ} {a : α}
    (h : (k, a) ∈ l) : l.lookup k = some a := by
  induction l with
  | nil => simp at h
  | cons kv l ih =>
    obtain ⟨j, b⟩ := kv
    rw [keys_cons, List.nodup_cons] at hl
    rw [lookup_cons_eq]
    rcases List.mem_cons.mp h with heq | hmem
    · obtain ⟨rfl, rfl⟩ := Prod.mk.inj heq
      rw [if_pos rfl]
    · have hne : k ≠ j := by
        rintro rfl
        exact hl.1 (mem_keys_of_mem hmem)
      rw [if_neg hne, ih hl.2 hmem]

theorem lookup_filter {l : List (κ × α)} (hl : (keys l).Nodup) (p : κ × α → Bool) (k : κ) :
    (l.filter p).lookup k = (l.lookup k).filter fun a => p (k, a) := by
  induction l with
  | nil => rfl
  | cons kv l ih =>
    obtain ⟨j, a⟩ := kv
    rw [keys_cons, List.nodup_cons] at hl
    obtain ⟨hj, htail⟩ := hl
    have hnone : k = j → l.lookup k = none := fun hk => lookup_eq_none.mpr (hk ▸ hj)
    by_cases hp : p (j, a) = true
    · rw [List.filter_cons_of_pos hp, lookup_cons_eq, lookup_cons_eq, ih htail]
      split_ifs with hk
      · rw [hk]
        exact (if_pos hp).symm
      · rfl
    · rw [List.filter_cons_of_neg hp, lookup_cons_eq, ih htail]
      split_ifs with hk
      · rw [hnone hk, hk]
        exact (if_neg hp).symm
      · rfl

theorem lookup_filterMap {l : List (κ × α)} (hl : (keys l).Nodup) {f : κ × α → Option (κ × β)}
    (hf : ∀ kv x, f kv = some x → x.1 = kv.1) (k : κ) :
    (l.filterMap f).lookup k = (l.lookup k).bind fun a => (f (k, a)).map Prod.snd := by
  induction l with
  | nil => rfl
  | cons kv l ih =>
    obtain ⟨j, a⟩ := kv
    rw [keys_cons, List.nodup_cons] at hl
    obtain ⟨hj, htail⟩ := hl
    have hnone : k = j → l.lookup k = none := fun hk => lookup_eq_none.mpr (hk ▸ hj)
    cases hx : f (j, a) with
    | none =>
      rw [List.filterMap_cons_none hx, lookup_cons_eq, ih htail]
      split_ifs with hk
      · rw [hnone hk, hk]
        simp [hx]
      · rfl
    | some x =>
      obtain ⟨i, b⟩ := x
      obtain rfl : i = j := hf _ _ hx
      rw [List.filterMap_cons_some hx, lookup_cons_eq, lookup_cons_eq, ih htail]
      split_ifs with hk
      · rw [hk]
        simp [hx]
      · rfl

omit [DecidableEq κ] [BEq κ] [LawfulBEq κ] in
theorem keys_filterMap_sublist {l : List (κ × α)} {f : κ × α → Option (κ × β)}
    (hf : ∀ kv x, f kv = some x → x.1 = kv.1) : (keys (l.filterMap f)).Sublist (keys l) := by
  induction l with
  | nil => exact List.Sublist.refl _
  | cons kv l ih =>
    cases hx : f kv with
    | none =>
      rw [List.filterMap_cons_none hx]
      exact ih.cons _
    | some x =>
      rw [List.filterMap_cons_some hx, keys_cons, keys_cons, hf kv x hx]
      exact ih.cons_cons _

omit [DecidableEq κ] [BEq κ] [LawfulBEq κ] in
theorem nodup_keys_filter {l : List (κ × α)} (hl : (keys l).Nodup) (p : κ × α → Bool) :
    (keys (l.filter p)).Nodup := (List.filter_sublist.map Prod.fst).nodup hl

theorem lookup_filter_ne (l : List (κ × α)) (j k : κ) :
    (l.filter fun kv => kv.1 ≠ j).lookup k = if k = j then none else l.lookup k := by
  induction l with
  | nil => simp
  | cons kv l ih =>
    obtain ⟨i, a⟩ := kv
    by_cases hi : i = j
    · subst hi
      rw [List.filter_cons_of_neg (by simp), ih, lookup_cons_eq]
      split_ifs <;> rfl
    · rw [List.filter_cons_of_pos (by simpa using hi), lookup_cons_eq, lookup_cons_eq, ih]
      split_ifs with hki hkj
      · exact absurd (hki.symm.trans hkj) hi
      · rfl
      · rfl
      · rfl

section Assign

/-- Overwrites the first member of the key, or appends a member. -/
def assign : List (κ × α) → κ → α → List (κ × α)
  | [], k, a => [(k, a)]
  | (j, b) :: l, k, a => if j = k then (k, a) :: l else (j, b) :: assign l k a

@[simp] theorem lookup_assign (l : List (κ × α)) (k j : κ) (a : α) :
    (assign l k a).lookup j = if j = k then some a else l.lookup j := by
  induction l with
  | nil => simp [assign]
  | cons kv l ih =>
    obtain ⟨i, b⟩ := kv
    by_cases hi : i = k
    · subst hi
      by_cases hj : j = i
      · simp [assign, hj]
      · simp [assign, hj]
    · by_cases hj : j = k
      · subst hj
        simp [assign, hi, ih, Ne.symm hi]
      · simp [assign, hi, hj, ih]

theorem mem_keys_assign {l : List (κ × α)} {k j : κ} {a : α} :
    j ∈ keys (assign l k a) ↔ j = k ∨ j ∈ keys l := by
  have h := lookup_assign l k j a
  by_cases hk : j = k
  · have : ¬ j ∉ keys (assign l k a) := by
      rw [← lookup_eq_none, h, if_pos hk]
      simp
    simp [hk, not_not.mp (hk ▸ this)]
  · rw [if_neg hk] at h
    have : j ∉ keys (assign l k a) ↔ j ∉ keys l := by
      rw [← lookup_eq_none, ← lookup_eq_none, h]
    simp [hk, not_iff_not.mp this]

omit [BEq κ] [LawfulBEq κ] in
theorem keys_assign_of_mem {l : List (κ × α)} {k : κ} (h : k ∈ keys l) (a : α) :
    keys (assign l k a) = keys l := by
  induction l with
  | nil => cases h
  | cons kv l ih =>
    obtain ⟨j, b⟩ := kv
    rw [assign]
    split_ifs with hj
    · rw [keys_cons, keys_cons, hj]
    · rw [keys_cons, List.mem_cons] at h
      rcases h with h | h
      · exact absurd h.symm hj
      · rw [keys_cons, keys_cons, ih h]

omit [BEq κ] [LawfulBEq κ] in
theorem assign_of_notMem {l : List (κ × α)} {k : κ} (h : k ∉ keys l) (a : α) :
    assign l k a = l ++ [(k, a)] := by
  induction l with
  | nil => rfl
  | cons kv l ih =>
    obtain ⟨j, b⟩ := kv
    rw [keys_cons, List.mem_cons, not_or] at h
    rw [assign, if_neg (Ne.symm h.1), ih h.2, List.cons_append]

omit [BEq κ] [LawfulBEq κ] in
theorem assign_append_self {l : List (κ × α)} {k : κ} (h : k ∉ keys l) (a b : α) :
    assign (l ++ [(k, a)]) k b = l ++ [(k, b)] := by
  induction l with
  | nil => simp [assign]
  | cons kv l ih =>
    obtain ⟨j, c⟩ := kv
    rw [keys_cons, List.mem_cons, not_or] at h
    rw [List.cons_append, assign, if_neg (Ne.symm h.1), ih h.2, List.cons_append]

theorem nodup_keys_assign {l : List (κ × α)} (h : (keys l).Nodup) (k : κ) (a : α) :
    (keys (assign l k a)).Nodup := by
  induction l with
  | nil => simp [assign]
  | cons kv l ih =>
    obtain ⟨j, b⟩ := kv
    rw [keys_cons, List.nodup_cons] at h
    rw [assign]
    split_ifs with hj
    · subst hj
      simpa using h
    · rw [keys_cons, List.nodup_cons, mem_keys_assign, not_or]
      exact ⟨⟨hj, h.1⟩, ih h.2⟩

omit [BEq κ] [LawfulBEq κ] in
theorem mem_assign {l : List (κ × α)} {k : κ} {a : α} {kv : κ × α} (h : kv ∈ assign l k a) :
    kv = (k, a) ∨ kv ∈ l := by
  induction l with
  | nil => simpa [assign] using h
  | cons jb l ih =>
    obtain ⟨j, b⟩ := jb
    rw [assign] at h
    split_ifs at h with hj
    · rcases List.mem_cons.mp h with rfl | h
      · exact Or.inl rfl
      · exact Or.inr (List.mem_cons_of_mem _ h)
    · rcases List.mem_cons.mp h with rfl | h
      · exact Or.inr List.mem_cons_self
      · exact (ih h).imp_right (List.mem_cons_of_mem _)

/-- For every member in order: what `f` makes of it, if anything, is assigned under its key. -/
def assignAll (f : κ → α → Option β) : List (κ × β) → List (κ × α) → List (κ × β)
  | out, [] => out
  | out, (k, a) :: l =>
    match f k a with
    | none => assignAll f out l
    | some b => assignAll f (assign out k b) l

variable {f : κ → α → Option β}

omit [BEq κ] [LawfulBEq κ] in
theorem assignAll_cons_none {out : List (κ × β)} {l : List (κ × α)} {k : κ} {a : α}
    (h : f k a = none) : assignAll f out ((k, a) :: l) = assignAll f out l := by
  rw [assignAll, h]

omit [BEq κ] [LawfulBEq κ] in
theorem assignAll_cons_some {out : List (κ × β)} {l : List (κ × α)} {k : κ} {a : α} {b : β}
    (h : f k a = some b) : assignAll f out ((k, a) :: l) = assignAll f (assign out k b) l := by
  rw [assignAll, h]

omit [BEq κ] [LawfulBEq κ] in
theorem assignAll_map (g : γ → α) (out : List (κ × β)) (l : List (κ × γ)) :
    assignAll f out (l.map fun kv => (kv.1, g kv.2)) = assignAll (fun k c => f k (g c)) out l := by
  induction l generalizing out with
  | nil => rfl
  | cons kv l ih =>
    obtain ⟨k, c⟩ := kv
    cases hf : f k (g c) with
    | none => simp [assignAll, hf, ih]
    | some b => simp [assignAll, hf, ih]

omit [BEq κ] [LawfulBEq κ] in
theorem assignAll_invariant {P : List (κ × β) → Prop} {l : List (κ × α)} {out : List (κ × β)}
    (hout : P out)
    (hstep : ∀ out k a b, (k, a) ∈ l → f k a = some b → P out → P (assign out k b)) :
    P (assignAll f out l) := by
  induction l generalizing out with
  | nil => exact hout
  | cons kv l ih =>
    obtain ⟨k, a⟩ := kv
    have hrest := fun out j c b h => hstep out j c b (List.mem_cons_of_mem (k, a) h)
    cases hf : f k a with
    | none =>
      rw [assignAll_cons_none hf]
      exact ih hout hrest
    | some b =>
      rw [assignAll_cons_some hf]
      exact ih (hstep out k a b List.mem_cons_self hf hout) hrest

theorem nodup_keys_assignAll {out : List (κ × β)} (h : (keys out).Nodup) (l : List (κ × α)) :
    (keys (assignAll f out l)).Nodup := by
  apply assignAll_invariant (P := fun out => (keys out).Nodup) h
  intro out k a b _ _ hout
  exact nodup_keys_assign hout k b

omit [BEq κ] [LawfulBEq κ] in
theorem mem_assignAll {out : List (κ × β)} {l : List (κ × α)} {k : κ} {b : β}
    (h : (k, b) ∈ assignAll f out l) : (k, b) ∈ out ∨ ∃ a, (k, a) ∈ l ∧ f k a = some b := by
  revert h
  apply assignAll_invariant (P := fun res => (k, b) ∈ res →
    (k, b) ∈ out ∨ ∃ a, (k, a) ∈ l ∧ f k a = some b)
  · exact Or.inl
  · intro res j a c hmem hf ih h
    rcases mem_assign h with heq | h
    · obtain ⟨rfl, rfl⟩ := Prod.ext_iff.mp heq
      exact Or.inr ⟨a, hmem, hf⟩
    · exact ih h

/-- Without repeated keys a key is assigned at most once, from its own member. -/
theorem lookup_assignAll {l : List (κ × α)} (hl : (keys l).Nodup) (out : List (κ × β)) (k : κ) :
    (assignAll f out l).lookup k = ((l.lookup k).bind (f k)).or (out.lookup k) := by
  induction l generalizing out with
  | nil => simp [assignAll]
  | cons kv l ih =>
    obtain ⟨j, a⟩ := kv
    rw [keys_cons, List.nodup_cons] at hl
    rw [lookup_cons_eq]
    by_cases hk : k = j
    · subst hk
      have hnone : l.lookup k = none := lookup_eq_none.mpr hl.1
      cases hf : f k a with
      | none => simp [assignAll_cons_none hf, ih hl.2, hnone, hf]
      | some b => simp [assignAll_cons_some hf, ih hl.2, hnone, hf]
    · cases hf : f j a with
      | none => simp [assignAll_cons_none hf, ih hl.2, hk]
      | some b => simp [assignAll_cons_some hf, ih hl.2, hk]

end Assign

section SameMembers

/-- The two lists have one length, and each member of the first is found in the second. -/
def SameMembers (r : α → β → Prop) (l : List (κ × α)) (l' : List (κ × β)) : Prop :=
  l.length = l'.length ∧ ∀ kv ∈ l, ∃ b, l'.lookup kv.1 = some b ∧ r kv.2 b

variable {r : α → β → Prop} {l : List (κ × α)} {l' : List (κ × β)}

/-- As many members as the other list, all of them found there: the keys are the same. -/
theorem SameMembers.mem_keys (h : SameMembers r l l') (hl : (keys l).Nodup) {k : κ}
    (hk : k ∈ keys l') : k ∈ keys l := by
  have hsub : keys l ⊆ keys l' := by
    intro j hj
    obtain ⟨kv, hkv, rfl⟩ := List.mem_map.mp hj
    obtain ⟨b, hb, -⟩ := h.2 kv hkv
    exact mem_keys_of_mem (mem_of_lookup hb)
  have hlen : (keys l').length ≤ (keys l).length := by simp [h.1]
  have hperm := (List.Nodup.subperm hl hsub).perm_of_length_le hlen
  exact hperm.mem_iff.mpr hk

theorem sameMembers_iff (hl : (keys l).Nodup) (hl' : (keys l').Nodup) :
    SameMembers r l l' ↔ ∀ k, Option.Rel r (l.lookup k) (l'.lookup k) := by
  constructor
  · intro h k
    cases hk : l.lookup k with
    | none =>
      have hk' : l'.lookup k = none := by
        rw [lookup_eq_none] at hk ⊢
        exact fun hmem => hk (h.mem_keys hl hmem)
      rw [hk']
      exact .none
    | some a =>
      obtain ⟨b, hb, hab⟩ := h.2 _ (mem_of_lookup hk)
      rw [hb]
      exact .some hab
  · intro h
    have hiff : ∀ k, k ∈ keys l ↔ k ∈ keys l' := by
      intro k
      rw [← not_iff_not, ← lookup_eq_none, ← lookup_eq_none]
      have hk := h k
      generalize l.lookup k = o, l'.lookup k = o' at hk
      cases hk <;> simp
    have hperm : (keys l).Perm (keys l') := (List.perm_ext_iff_of_nodup hl hl').mpr hiff
    constructor
    · simpa using hperm.length_eq
    · rintro ⟨k, a⟩ hmem
      have hk := h k
      rw [lookup_of_mem hl hmem] at hk
      cases hb : l'.lookup k with
      | none => rw [hb] at hk; cases hk
      | some b =>
        rw [hb] at hk
        cases hk with
        | some hab => exact ⟨b, rfl, hab⟩

end SameMembers

end ReadyUp.Support
