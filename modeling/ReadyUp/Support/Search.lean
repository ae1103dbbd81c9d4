import Mathlib.Data.List.Infix
import Mathlib.Tactic.Common

/-!
# Searching a text

`findSub` is the first place where a pattern stands, `rfindSub` the last. What is found splits the
text, and a part without the first item of the pattern can be skipped.
-/
namespace ReadyUp.Support

variable {α : Type*} [DecidableEq α]

/-- `find` of a pattern. -/
def findSub (pat : List α) : List α → Option ℕ
  | [] => if pat.isPrefixOf [] then some 0 else none
  | a :: l => if pat.isPrefixOf (a :: l) then some 0 else (findSub pat l).map (· + 1)

/-- `rfind` of a pattern. -/
def rfindSub (pat : List α) : List α → Option ℕ
  | [] => if pat.isPrefixOf [] then some 0 else none
  | a :: l =>
    match rfindSub pat l with
    | some i => some (i + 1)
    | none => if pat.isPrefixOf (a :: l) then some 0 else none

variable {pat l : List α} {a : α} {i : ℕ}

/-! ## The first place -/

theorem exists_of_findSub (h : findSub pat l = some i) :
    ∃ b rest, l = b ++ (pat ++ rest) ∧ b.length = i := by
  induction l generalizing i with
  | nil =>
    unfold findSub at h
    split_ifs at h with hp
    obtain ⟨rest, hrest⟩ := List.isPrefixOf_iff_prefix.mp hp
    exact ⟨[], rest, hrest.symm, Option.some.inj h⟩
  | cons a l ih =>
    unfold findSub at h
    split_ifs at h with hp
    · obtain ⟨rest, hrest⟩ := List.isPrefixOf_iff_prefix.mp hp
      exact ⟨[], rest, hrest.symm, Option.some.inj h⟩
    · obtain ⟨j, hj, rfl⟩ := Option.map_eq_some_iff.mp h
      obtain ⟨b, rest, rfl, hlen⟩ := ih hj
      exact ⟨a :: b, rest, rfl, by rw [List.length_cons, hlen]⟩

theorem findSub_self (pat rest : List α) : findSub pat (pat ++ rest) = some 0 := by
  have hp : pat.isPrefixOf (pat ++ rest) = true :=
    List.isPrefixOf_iff_prefix.mpr (List.prefix_append pat rest)
  cases h : pat ++ rest with
  | nil =>
    rw [h] at hp
    unfold findSub
    rw [if_pos hp]
  | cons a l =>
    rw [h] at hp
    unfold findSub
    rw [if_pos hp]

theorem findSub_cons (h : ¬pat <+: a :: l) :
    findSub pat (a :: l) = (findSub pat l).map (· + 1) := by
  have hp : ¬pat.isPrefixOf (a :: l) = true := by rwa [List.isPrefixOf_iff_prefix]
  exact if_neg hp

/-- A part without the first item of the pattern is skipped. -/
theorem findSub_append {c : α} {b : List α} (hb : c ∉ b) (l : List α) :
    findSub (c :: pat) (b ++ l) = (findSub (c :: pat) l).map (· + b.length) := by
  induction b with
  | nil => simp
  | cons a b ih =>
    rw [List.mem_cons, not_or] at hb
    have hnot : ¬c :: pat <+: a :: (b ++ l) := by
      rw [List.cons_prefix_cons]
      exact fun h => hb.1 h.1
    rw [List.cons_append, findSub_cons hnot, ih hb.2, Option.map_map]
    congr 1

theorem add_length_le_of_findSub (h : findSub pat l = some i) : i + pat.length ≤ l.length := by
  obtain ⟨b, rest, rfl, rfl⟩ := exists_of_findSub h
  simp only [List.length_append]
  omega

theorem findSub_append_of_some (h : findSub pat l = some i) (t : List α) :
    findSub pat (l ++ t) = some i := by
  induction l generalizing i with
  | nil =>
    unfold findSub at h
    split_ifs at h with hp
    cases List.prefix_nil.mp (List.isPrefixOf_iff_prefix.mp hp)
    exact h ▸ findSub_self [] t
  | cons a l ih =>
    by_cases hp : pat <+: a :: l
    · unfold findSub at h
      rw [if_pos (List.isPrefixOf_iff_prefix.mpr hp)] at h
      obtain ⟨rest, hrest⟩ := hp
      rw [← hrest, List.append_assoc, findSub_self, h]
    · rw [findSub_cons hp] at h
      obtain ⟨j, hj, rfl⟩ := Option.map_eq_some_iff.mp h
      -- the pattern is no longer than the text, so it does not stand at the front with what comes
      -- after
      have hlen : pat.length ≤ (a :: l).length := by
        have := add_length_le_of_findSub hj
        rw [List.length_cons]
        omega
      have hnot : ¬pat <+: a :: (l ++ t) := fun hpre =>
        hp (List.prefix_of_prefix_length_le hpre (List.prefix_append (a :: l) t) hlen)
      rw [List.cons_append, findSub_cons hnot, ih hj, Option.map_some]

theorem exists_findSub (b pat rest : List α) : ∃ i, findSub pat (b ++ (pat ++ rest)) = some i := by
  induction b with
  | nil => exact ⟨0, findSub_self pat rest⟩
  | cons a b ih =>
    by_cases hp : pat <+: a :: (b ++ (pat ++ rest))
    · obtain ⟨rest', hrest⟩ := hp
      rw [List.cons_append, ← hrest]
      exact ⟨0, findSub_self pat rest'⟩
    · obtain ⟨i, hi⟩ := ih
      exact ⟨i + 1, by rw [List.cons_append, findSub_cons hp, hi, Option.map_some]⟩

theorem findSub_take (l : List α) (k : ℕ) :
    findSub pat (l.take k) = (findSub pat l).filter fun i => i + pat.length ≤ k := by
  cases h : findSub pat (l.take k) with
  | some i =>
    have hbound := add_length_le_of_findSub h
    have hall := findSub_append_of_some h (l.drop k)
    rw [List.take_append_drop] at hall
    rw [List.length_take] at hbound
    rw [hall, Option.filter_some, if_pos (decide_eq_true (by omega))]
  | none =>
    rw [eq_comm, Option.filter_eq_none_iff]
    intro i hi
    rw [decide_eq_true_eq, not_le]
    by_contra hle
    obtain ⟨b, rest, rfl, rfl⟩ := exists_of_findSub hi
    have htake : (b ++ (pat ++ rest)).take k = b ++ (pat ++ rest.take (k - (b ++ pat).length)) := by
      rw [← List.append_assoc, List.take_append,
        List.take_of_length_le (by simp only [List.length_append]; omega), List.append_assoc]
    obtain ⟨j, hj⟩ := exists_findSub b pat (rest.take (k - (b ++ pat).length))
    rw [← htake, h] at hj
    cases hj

/-! ## The last place -/

theorem rfindSub_append {b : List α} (h : rfindSub pat l = some i) :
    rfindSub pat (b ++ l) = some (b.length + i) := by
  induction b with
  | nil => simpa using h
  | cons a b ih =>
    rw [List.cons_append, rfindSub, ih, List.length_cons]
    simp only [Option.some.injEq]
    omega

theorem rfindSub_eq_none {c : α} (h : c ∉ l) : rfindSub (c :: pat) l = none := by
  induction l with
  | nil => rfl
  | cons a l ih =>
    rw [List.mem_cons, not_or] at h
    have hnot : ¬(c :: pat).isPrefixOf (a :: l) = true := by
      rw [List.isPrefixOf_iff_prefix, List.cons_prefix_cons]
      exact fun hp => h.1 hp.1
    rw [rfindSub, ih h.2]
    exact if_neg hnot

/-- A pattern whose first item does not come again stands last where it stands. -/
theorem rfindSub_self {c : α} {rest : List α} (h : c ∉ pat ++ rest) :
    rfindSub (c :: pat) (c :: (pat ++ rest)) = some 0 := by
  have hp : (c :: pat).isPrefixOf (c :: (pat ++ rest)) = true :=
    List.isPrefixOf_iff_prefix.mpr (List.prefix_append (c :: pat) rest)
  rw [rfindSub, rfindSub_eq_none h]
  exact if_pos hp

end ReadyUp.Support
