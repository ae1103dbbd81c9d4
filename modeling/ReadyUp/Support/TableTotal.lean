import Mathlib.Algebra.BigOperators.Fin
import ReadyUp.Support.Table

/-!
# Totals over a table

A total adds up one number of every value. Where a default value counts for nothing, a total depends
on what is read of the keys only, and moves by what is moved at one key.
-/
namespace ReadyUp.Support.Table

variable {κ α : Type*} [DecidableEq κ] [Inhabited α]

/-- The sum of one number of every value. -/
def total (f : α → ℤ) (t : Table κ α) : ℤ := (t.entries.map fun kv => f kv.2).sum

variable {f : α → ℤ} {t t' : Table κ α}

theorem total_eq_sum (hf : f default = 0) {s : Finset κ} (hs : ∀ k ∈ t, k ∈ s) :
    t.total f = ∑ k ∈ s, f (t.read k) := by
  have hkeys : (t.entries.map fun kv => f kv.2) = t.keys.map fun k => f (t.read k) := by
    unfold AList.keys List.keys
    rw [List.map_map]
    apply List.map_congr_left
    intro kv hkv
    exact congrArg f (read_of_mem_entries hkv).symm
  unfold total
  rw [hkeys, ← List.sum_toFinset _ t.keys_nodup]
  apply Finset.sum_subset
  · intro k hk
    exact hs k (AList.mem_keys.mpr (List.mem_toFinset.mp hk))
  · intro k _ hk
    have hnot : k ∉ t := fun hmem => hk (List.mem_toFinset.mpr (AList.mem_keys.mp hmem))
    rw [read_of_notMem hnot, hf]

omit [Inhabited α] in
theorem mem_union_keys (t t' : Table κ α) (k : κ) :
    (k ∈ t → k ∈ t.keys.toFinset ∪ t'.keys.toFinset) ∧
    (k ∈ t' → k ∈ t.keys.toFinset ∪ t'.keys.toFinset) := by
  simp only [Finset.mem_union, List.mem_toFinset, ← AList.mem_keys]
  exact ⟨.inl, .inr⟩

theorem total_add (hf : f default = 0) {k : κ} {d : ℤ}
    (h : ∀ j, f (t'.read j) = f (t.read j) + if j = k then d else 0) :
    t'.total f = t.total f + d := by
  have hs := fun j => mem_union_keys t t' j
  have hmem : ∀ j, j ∈ t.keys.toFinset ∪ t'.keys.toFinset →
      j ∈ insert k (t.keys.toFinset ∪ t'.keys.toFinset) :=
    fun j hj => Finset.mem_insert_of_mem hj
  rw [total_eq_sum hf fun j hj => hmem j ((hs j).2 hj), total_eq_sum hf fun j hj =>
    hmem j ((hs j).1 hj), Finset.sum_congr rfl fun j _ => h j, Finset.sum_add_distrib]
  simp

theorem total_congr (hf : f default = 0) (h : ∀ k, f (t'.read k) = f (t.read k)) :
    t'.total f = t.total f := by
  have hs := fun j => mem_union_keys t t' j
  rw [total_eq_sum hf fun j hj => (hs j).2 hj, total_eq_sum hf fun j hj => (hs j).1 hj]
  exact Finset.sum_congr rfl fun j _ => h j

end ReadyUp.Support.Table
