import Mathlib.Data.List.AList

/-!
# Associative containers with a default value

`Table` is Mathlib's association list with one value type. `read` and `modify` are the
two halves of an `operator[]` access: a missing key reads as the default value and is
inserted when it is written.

A loop over a container that only touches the entry of the key at hand is described
key by key: `foldl_view_of_notMem` and `foldl_view_of_mem` say what it leaves behind
whatever the order in which the container is traversed.
-/
namespace ReadyUp.Support

/-- Keys with at most one value each. -/
abbrev Table (κ α : Type*) := AList (fun _ : κ => α)

namespace Table

variable {κ α : Type*} [DecidableEq κ] [Inhabited α]

/-- The value of a key, the default one when the key is missing. -/
def read (m : Table κ α) (k : κ) : α := (m.lookup k).getD default

/-- Writes through the reference that `operator[]` returns. -/
def modify (m : Table κ α) (k : κ) (f : α → α) : Table κ α := m.insert k (f (m.read k))

@[simp] theorem read_empty (k : κ) : read (∅ : Table κ α) k = default := by simp [read]

@[simp] theorem read_insert (m : Table κ α) (k j : κ) (a : α) :
    read (AList.insert k a m) j = if j = k then a else m.read j := by
  unfold read
  split_ifs with h
  · rw [h, AList.lookup_insert, Option.getD_some]
  · rw [AList.lookup_insert_ne h]

@[simp] theorem read_modify (m : Table κ α) (k j : κ) (f : α → α) :
    (m.modify k f).read j = if j = k then f (m.read k) else m.read j :=
  read_insert m k j _

@[simp] theorem mem_modify (m : Table κ α) (k j : κ) (f : α → α) :
    j ∈ m.modify k f ↔ j = k ∨ j ∈ m := AList.mem_insert m

theorem read_of_notMem {m : Table κ α} {k : κ} (h : k ∉ m) : m.read k = default := by
  rw [read, AList.lookup_eq_none.mpr h, Option.getD_none]

theorem read_of_mem_entries {m : Table κ α} {k : κ} {a : α} (h : ⟨k, a⟩ ∈ m.entries) :
    m.read k = a := by
  rw [read, AList.mem_lookup_iff.mpr h, Option.getD_some]

theorem mem_entries_read {m : Table κ α} {k : κ} (h : k ∈ m) :
    (⟨k, m.read k⟩ : Sigma fun _ : κ => α) ∈ m.entries := by
  obtain ⟨a, ha⟩ := Option.isSome_iff_exists.mp (AList.lookup_isSome.mpr h)
  have := AList.mem_lookup_iff.mp ha
  rwa [read_of_mem_entries this]

omit [DecidableEq κ] [Inhabited α] in
theorem mem_of_mem_entries {m : Table κ α} {k : κ} {a : α} (h : ⟨k, a⟩ ∈ m.entries) :
    k ∈ m := AList.mem_keys.mpr (List.mem_keys_of_mem h)

section Bulk

variable {κ α : Type*}

theorem length_keys_insert [DecidableEq κ] (m : Table κ α) (k : κ) (a : α) :
    (AList.insert k a m).keys.length = if k ∈ m then m.keys.length else m.keys.length + 1 := by
  rw [AList.keys_insert, List.length_cons]
  split_ifs with hmem
  · rw [List.length_erase_of_mem (AList.mem_keys.mp hmem)]
    exact Nat.succ_pred_eq_of_pos (List.length_pos_of_mem (AList.mem_keys.mp hmem))
  · rw [List.erase_of_not_mem fun h => hmem (AList.mem_keys.mpr h)]

/-- A loop that erases the entries that `p` does not hold of. -/
def keepIf (p : κ → α → Bool) (m : Table κ α) : Table κ α where
  entries := m.entries.filter fun e => p e.1 e.2
  nodupKeys := m.nodupKeys.sublist List.filter_sublist

def mapValues (f : α → α) (m : Table κ α) : Table κ α where
  entries := m.entries.map fun e => ⟨e.1, f e.2⟩
  nodupKeys := by
    have hkeys :
        (m.entries.map fun e => (⟨e.1, f e.2⟩ : Sigma fun _ : κ => α)).keys = m.entries.keys := by
      unfold List.keys
      rw [List.map_map]
      rfl
    rw [List.NodupKeys, hkeys]
    exact m.nodupKeys

@[simp] theorem lookup_keepIf [DecidableEq κ] (p : κ → α → Bool) (m : Table κ α) (k : κ) :
    (m.keepIf p).lookup k = (m.lookup k).filter (p k) := by
  apply Option.ext
  intro a
  rw [← Option.mem_def, ← Option.mem_def, AList.mem_lookup_iff, Option.mem_filter_iff,
    AList.mem_lookup_iff]
  exact List.mem_filter

@[simp] theorem lookup_mapValues [DecidableEq κ] (f : α → α) (m : Table κ α) (k : κ) :
    (m.mapValues f).lookup k = (m.lookup k).map f := by
  apply Option.ext
  intro a
  rw [← Option.mem_def, AList.mem_lookup_iff, Option.map_eq_some_iff]
  constructor
  · intro h
    obtain ⟨e, he, heq⟩ := List.mem_map.mp h
    cases heq
    exact ⟨e.2, AList.mem_lookup_iff.mpr he, rfl⟩
  · rintro ⟨b, hb, rfl⟩
    exact List.mem_map.mpr ⟨⟨k, b⟩, AList.mem_lookup_iff.mp hb, rfl⟩

end Bulk

end Table

/-- A search by a key that no two members share does not depend on the order. -/
theorem find?_eq_of_perm {α κ : Type*} [DecidableEq κ] {f : α → κ} {l l' : List α} (h : l.Perm l')
    (hl : (l.map f).Nodup) (k : κ) : l.find? (f · = k) = l'.find? (f · = k) := by
  cases hf : l'.find? (f · = k) with
  | none =>
    rw [List.find?_eq_none] at hf ⊢
    exact fun x hx => hf x (h.mem_iff.mp hx)
  | some b =>
    have hb : f b = k := by simpa using List.find?_some hf
    have hmem := h.mem_iff.mpr (List.mem_of_find?_eq_some hf)
    have hsome : (l.find? (f · = k)).isSome := List.find?_isSome.mpr ⟨b, hmem, by simpa using hb⟩
    obtain ⟨a, ha⟩ := Option.isSome_iff_exists.mp hsome
    have heq : f a = k := by simpa using List.find?_some ha
    rw [ha, List.inj_on_of_nodup_map hl (List.mem_of_find?_eq_some ha) hmem (heq.trans hb.symm)]

theorem find?_entries {κ α : Type*} [DecidableEq κ] (m : Table κ α) (k : κ) :
    m.entries.find? (fun kv => decide (kv.1 = k)) = (m.lookup k).map (Sigma.mk k) := by
  cases hf : m.entries.find? (fun kv => decide (kv.1 = k)) with
  | none =>
    have hk : k ∉ m := by
      intro hmem
      obtain ⟨a, ha⟩ := Option.isSome_iff_exists.mp (AList.lookup_isSome.mpr hmem)
      have := List.find?_eq_none.mp hf _ (AList.mem_lookup_iff.mp ha)
      simp at this
    rw [AList.lookup_eq_none.mpr hk, Option.map_none]
  | some kv =>
    obtain ⟨j, a⟩ := kv
    have hj : j = k := by simpa using List.find?_some hf
    subst hj
    rw [AList.mem_lookup_iff.mpr (List.mem_of_find?_eq_some hf), Option.map_some]

/-- The entries under one key are the one entry of that key. -/
theorem filter_entries_of_mem {κ α : Type*} [DecidableEq κ] {m : Table κ α} {k : κ} {a : α}
    (h : ⟨k, a⟩ ∈ m.entries) : (m.entries.filter fun kv => decide (kv.1 = k)) = [⟨k, a⟩] := by
  have hnodup := m.nodupKeys
  generalize m.entries = l at h hnodup
  induction l with
  | nil => cases h
  | cons e l ih =>
    obtain ⟨hn, hl⟩ := List.nodupKeys_cons.mp hnodup
    rcases List.mem_cons.mp h with rfl | h
    · have hrest : (l.filter fun kv => decide (kv.1 = k)) = [] := by
        rw [List.filter_eq_nil_iff]
        intro kv hkv heq
        have hmem : kv.1 ∈ l.keys := List.mem_keys_of_mem hkv
        rw [of_decide_eq_true heq] at hmem
        exact hn hmem
      simp [hrest]
    · have hmem : k ∈ l.keys := List.mem_keys_of_mem h
      have hne : e.1 ≠ k := fun heq => hn (heq ▸ hmem)
      simp [hne, ih h hl]

theorem foldl_fixed {σ ε β : Type*} (step : σ → ε → σ) (f : σ → β)
    (h : ∀ s e, f (step s e) = f s) (l : List ε) (s : σ) : f (l.foldl step s) = f s := by
  induction l generalizing s with
  | nil => rfl
  | cons e l ih => rw [List.foldl_cons, ih, h]

section Loops

variable {σ κ α β : Type*} [DecidableEq κ]
variable {view : σ → κ → β} {step : σ → (Sigma fun _ : κ => α) → σ} {g : κ → α → β → β}

theorem foldl_view_of_notMem
    (hview : ∀ s e j, view (step s e) j = if j = e.1 then g e.1 e.2 (view s e.1) else view s j)
    {l : List (Sigma fun _ : κ => α)} {k : κ} (hk : k ∉ l.keys) (s : σ) :
    view (l.foldl step s) k = view s k := by
  induction l generalizing s with
  | nil => rfl
  | cons e l ih =>
    rw [List.keys_cons, List.mem_cons, not_or] at hk
    rw [List.foldl_cons, ih hk.2, hview, if_neg hk.1]

/-- A key that the loop visits is updated once, from its own entry alone. -/
theorem foldl_view_of_mem
    (hview : ∀ s e j, view (step s e) j = if j = e.1 then g e.1 e.2 (view s e.1) else view s j)
    {l : List (Sigma fun _ : κ => α)} (hl : l.NodupKeys) {k : κ} {a : α} (hk : ⟨k, a⟩ ∈ l)
    (s : σ) : view (l.foldl step s) k = g k a (view s k) := by
  induction l generalizing s with
  | nil => cases hk
  | cons e l ih =>
    obtain ⟨hn, hl⟩ := List.nodupKeys_cons.mp hl
    rw [List.foldl_cons]
    rcases List.mem_cons.mp hk with rfl | hk
    · rw [foldl_view_of_notMem hview hn, hview, if_pos rfl]
    · have hmem : k ∈ l.keys := List.mem_keys_of_mem hk
      have hne : k ≠ e.1 := fun h => hn (h ▸ hmem)
      rw [ih hl hk, hview, if_neg hne]

end Loops

end ReadyUp.Support
