import Mathlib.Data.List.Sort
import Mathlib.Order.Basic

/-!
# Stable sorting by a key

`sortBy` keeps the order of items with equal keys. The items of one key are thus the same before and
after it (`filter_sortBy`), and that determines a list that is in order (`eq_of_filter_eq`). So a
list may be sorted in two parts that are cut at a key (`sortBy_cut`).
-/
namespace ReadyUp.Support

variable {α β : Type*} [LinearOrder β]

/-- `std::stable_sort` by a key. -/
def sortBy (key : α → β) (l : List α) : List α := l.mergeSort fun a b => decide (key a ≤ key b)

def InOrder (key : α → β) (l : List α) : Prop := l.Pairwise fun a b => key a ≤ key b

variable {key : α → β} {l l₁ l₂ : List α}

theorem sortBy_perm (key : α → β) (l : List α) : (sortBy key l).Perm l := List.mergeSort_perm l _

@[simp] theorem mem_sortBy {a : α} : a ∈ sortBy key l ↔ a ∈ l := (sortBy_perm key l).mem_iff

theorem le_key_trans (key : α → β) (a b c : α) (hab : decide (key a ≤ key b) = true)
    (hbc : decide (key b ≤ key c) = true) : decide (key a ≤ key c) = true := by
  simp only [decide_eq_true_eq] at hab hbc ⊢
  exact hab.trans hbc

theorem le_key_total (key : α → β) (a b : α) :
    (decide (key a ≤ key b) || decide (key b ≤ key a)) = true := by
  simpa using le_total (key a) (key b)

theorem inOrder_sortBy (key : α → β) (l : List α) : InOrder key (sortBy key l) := by
  have hsorted := List.pairwise_mergeSort (le_key_trans key) (le_key_total key) l
  exact hsorted.imp fun h => by simpa using h

/-- The items of one key stand in the same order as before. -/
theorem filter_sortBy (key : α → β) (l : List α) (k : β) :
    (sortBy key l).filter (key · = k) = l.filter (key · = k) := by
  have hsame : (l.filter (key · = k)).Pairwise fun a b => decide (key a ≤ key b) = true := by
    rw [List.pairwise_filter]
    refine List.pairwise_of_forall fun a b ha hb => ?_
    simp only [decide_eq_true_eq] at ha hb ⊢
    exact (ha.trans hb.symm).le
  have hsub : (l.filter (key · = k)).Sublist (sortBy key l) :=
    List.sublist_mergeSort (le_key_trans key) (le_key_total key) hsame List.filter_sublist
  have hfilter := hsub.filter (key · = k)
  rw [List.filter_filter] at hfilter
  simp only [Bool.and_self] at hfilter
  exact (hfilter.eq_of_length ((sortBy_perm key l).filter _).length_eq.symm).symm

/-- A list in order is determined by its items of each key. -/
theorem eq_of_filter_eq (h₁ : InOrder key l₁) (h₂ : InOrder key l₂)
    (h : ∀ k, l₁.filter (key · = k) = l₂.filter (key · = k)) : l₁ = l₂ := by
  have hmem : ∀ a, a ∈ l₁ ↔ a ∈ l₂ := by
    intro a
    have hiff : a ∈ l₁.filter (key · = key a) ↔ a ∈ l₂.filter (key · = key a) := by rw [h]
    simpa using hiff
  induction l₁ generalizing l₂ with
  | nil =>
    cases l₂ with
    | nil => rfl
    | cons b l₂ => exact absurd ((hmem b).mpr List.mem_cons_self) List.not_mem_nil
  | cons a l₁ ih =>
    cases l₂ with
    | nil => exact absurd ((hmem a).mp List.mem_cons_self) List.not_mem_nil
    | cons b l₂ =>
      have hle₁ := (List.pairwise_cons.mp h₁).1
      have hle₂ := (List.pairwise_cons.mp h₂).1
      have hkey : key a = key b := by
        apply le_antisymm
        · rcases List.mem_cons.mp ((hmem b).mpr List.mem_cons_self) with heq | hb
          · exact (congrArg key heq).ge
          · exact hle₁ b hb
        · rcases List.mem_cons.mp ((hmem a).mp List.mem_cons_self) with heq | ha
          · exact (congrArg key heq).ge
          · exact hle₂ a ha
      have hfirst := h (key a)
      simp only [List.filter_cons, hkey, decide_true, if_true, List.cons.injEq] at hfirst
      obtain ⟨rfl, -⟩ := hfirst
      have hrest : ∀ k, l₁.filter (key · = k) = l₂.filter (key · = k) := by
        intro k
        have hk := h k
        by_cases hak : key a = k
        · simpa [List.filter_cons, hak] using hk
        · simpa [List.filter_cons, hak] using hk
      rw [ih (List.pairwise_cons.mp h₁).2 (List.pairwise_cons.mp h₂).2 hrest]
      intro c
      have hiff : c ∈ l₁.filter (key · = key c) ↔ c ∈ l₂.filter (key · = key c) := by rw [hrest]
      simpa using hiff

theorem filter_filter_eq_self {p : α → Bool} {k : β} (h : ∀ b ∈ l, key b = k → p b = true) :
    (l.filter p).filter (key · = k) = l.filter (key · = k) := by
  rw [List.filter_filter]
  apply List.filter_congr
  intro b hb
  by_cases hbk : key b = k
  · simp [hbk, h b hb hbk]
  · simp [hbk]

theorem filter_filter_eq_nil {p : α → Bool} {k : β} (h : ∀ b ∈ l, key b = k → p b = false) :
    (l.filter p).filter (key · = k) = [] := by
  rw [List.filter_filter, List.filter_eq_nil_iff]
  intro b hb
  by_cases hbk : key b = k
  · simp [h b hb hbk]
  · simp [hbk]

/-- A list may be sorted in two parts when every key of the first is below those of the second. -/
theorem sortBy_cut (p : α → Bool) (h : ∀ a ∈ l, ∀ b ∈ l, p a = true → p b = false → key a < key b) :
    sortBy key l = sortBy key (l.filter p) ++ sortBy key (l.filter fun a => !p a) := by
  apply eq_of_filter_eq (inOrder_sortBy key l)
  · apply List.pairwise_append.mpr
    constructor
    · exact inOrder_sortBy key _
    constructor
    · exact inOrder_sortBy key _
    intro a ha b hb
    obtain ⟨hal, hpa⟩ := List.mem_filter.mp (mem_sortBy.mp ha)
    obtain ⟨hbl, hpb⟩ := List.mem_filter.mp (mem_sortBy.mp hb)
    exact (h a hal b hbl hpa (by simpa using hpb)).le
  · intro k
    simp only [List.filter_append, filter_sortBy]
    -- the items of one key are all in the same part
    by_cases hk : ∃ a ∈ l, key a = k ∧ p a = true
    · obtain ⟨a, hal, hak, hpa⟩ := hk
      have hall : ∀ b ∈ l, key b = k → p b = true := by
        intro b hb hbk
        by_contra hpb
        exact absurd (h a hal b hb hpa (by simpa using hpb)) (by simp [hak, hbk])
      have hnone : ∀ b ∈ l, key b = k → (!p b) = false := fun b hb hbk => by simp [hall b hb hbk]
      simp only [filter_filter_eq_self hall, filter_filter_eq_nil hnone, List.append_nil]
    · push Not at hk
      have hnone : ∀ b ∈ l, key b = k → p b = false := fun b hb hbk => by simpa using hk b hb hbk
      have hall : ∀ b ∈ l, key b = k → (!p b) = true := fun b hb hbk => by simp [hnone b hb hbk]
      simp only [filter_filter_eq_nil hnone, filter_filter_eq_self hall, List.nil_append]

end ReadyUp.Support
