import Mathlib.Data.List.AList
import ReadyUp.Support.Assoc

/-!
# Ordered containers

`std::map` and `std::set` go through their keys in order, and so do the ordered containers of the
standard library, which are equal when they hold the same. A loop that inserts what such a container
lists builds the container again.
-/
namespace ReadyUp.Support

variable {κ α : Type*} [Ord κ] [Std.TransOrd κ] [Std.LawfulEqOrd κ]

/-- `std::map` -/
abbrev OrderedMap (κ α : Type*) [Ord κ] := Std.ExtTreeMap κ α compare

/-- `std::set` -/
abbrev OrderedSet (κ : Type*) [Ord κ] := Std.ExtTreeSet κ compare

namespace OrderedMap

def insertAll (m : OrderedMap κ α) (l : List (κ × α)) : OrderedMap κ α :=
  l.foldl (fun m kv => m.insert kv.1 kv.2) m

theorem nodup_keys_toList (m : OrderedMap κ α) : (keys m.toList).Nodup := by
  have hpairs := @Std.ExtTreeMap.distinct_keys_toList κ α compare m _
  rw [keys, List.Nodup, List.pairwise_map]
  exact hpairs.imp fun hne heq => hne (Std.LawfulEqOrd.compare_eq_iff_eq.mpr heq)

variable [DecidableEq κ] [BEq κ] [LawfulBEq κ]

omit [BEq κ] [LawfulBEq κ] in
theorem getElem?_insert (m : OrderedMap κ α) (k j : κ) (a : α) :
    (m.insert k a)[j]? = if j = k then some a else m[j]? := by
  rw [Std.ExtTreeMap.getElem?_insert]
  exact if_congr (Std.LawfulEqOrd.compare_eq_iff_eq.trans eq_comm) rfl rfl

theorem getElem?_insertAll {l : List (κ × α)} (hl : (keys l).Nodup) (m : OrderedMap κ α) (k : κ) :
    (m.insertAll l)[k]? = (l.lookup k).or m[k]? := by
  induction l generalizing m with
  | nil => rfl
  | cons kv l ih =>
    obtain ⟨j, a⟩ := kv
    obtain ⟨hj, hl⟩ := List.nodup_cons.mp hl
    have hrest := ih hl (m.insert j a)
    rw [insertAll, List.foldl_cons]
    rw [insertAll] at hrest
    rw [hrest, getElem?_insert, List.lookup_cons]
    by_cases hk : k = j
    · subst hk
      rw [if_pos rfl, lookup_eq_none.mpr hj]
      simp
    · rw [if_neg hk, beq_false_of_ne hk]

theorem lookup_toList (m : OrderedMap κ α) (k : κ) : m.toList.lookup k = m[k]? := by
  cases h : m[k]? with
  | none =>
    refine lookup_eq_none.mpr fun hmem => ?_
    obtain ⟨⟨j, a⟩, hentry, rfl⟩ := List.mem_map.mp hmem
    rw [Std.ExtTreeMap.mem_toList_iff_getElem?_eq_some, h] at hentry
    cases hentry
  | some a =>
    exact lookup_of_mem m.nodup_keys_toList (Std.ExtTreeMap.mem_toList_iff_getElem?_eq_some.mpr h)

theorem insertAll_toList (m : OrderedMap κ α) : insertAll ∅ m.toList = m := by
  apply Std.ExtTreeMap.ext_getElem?
  intro k
  rw [getElem?_insertAll m.nodup_keys_toList, lookup_toList]
  simp

end OrderedMap

namespace OrderedSet

def insertAll (s : OrderedSet κ) (l : List κ) : OrderedSet κ := l.foldl (·.insert ·) s

theorem mem_insert (s : OrderedSet κ) (j k : κ) :
    k ∈ Std.ExtTreeSet.insert s j ↔ k = j ∨ k ∈ s := by
  rw [Std.ExtTreeSet.mem_insert, Std.LawfulEqOrd.compare_eq_iff_eq, eq_comm]

theorem mem_erase (s : OrderedSet κ) (j k : κ) : k ∈ Std.ExtTreeSet.erase s j ↔ k ≠ j ∧ k ∈ s := by
  rw [Std.ExtTreeSet.mem_erase, Ne, Std.LawfulEqOrd.compare_eq_iff_eq, Ne, eq_comm]

theorem mem_insertAll (l : List κ) (s : OrderedSet κ) (k : κ) :
    k ∈ s.insertAll l ↔ k ∈ l ∨ k ∈ s := by
  induction l generalizing s with
  | nil => simp [insertAll]
  | cons j l ih =>
    have hrest := ih (s.insert j)
    rw [insertAll, List.foldl_cons]
    rw [insertAll] at hrest
    rw [hrest, mem_insert, List.mem_cons, or_left_comm, or_assoc]

theorem insertAll_toList (s : OrderedSet κ) : insertAll ∅ s.toList = s := by
  apply Std.ExtTreeSet.ext_mem
  intro k
  rw [mem_insertAll]
  simp

end OrderedSet

end ReadyUp.Support
