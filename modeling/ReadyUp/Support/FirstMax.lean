import Mathlib.Data.List.MinMax
import Mathlib.Tactic.Common

/-!
# The first of the largest

`List.argmax` keeps the first of the items with the largest value. It splits the list there: what
stands before is smaller, what stands behind is not larger.
-/
namespace ReadyUp.Support

variable {α β γ : Type*} [LinearOrder γ]

theorem argmax_eq_some_iff_append {f : α → γ} {l : List α} {m : α} :
    l.argmax f = some m ↔
      ∃ before after, l = before ++ m :: after ∧ (∀ x ∈ before, f x < f m) ∧
      ∀ x ∈ after, f x ≤ f m := by
  induction l generalizing m with
  | nil => simp
  | cons a l ih =>
    rw [List.argmax_cons]
    cases hl : l.argmax f with
    | none =>
      rw [List.argmax_eq_none.mp hl]
      constructor
      · intro h
        exact ⟨[], [], by rw [Option.some.inj h]; rfl, by simp, by simp⟩
      · rintro ⟨before, after, heq, -, -⟩
        have hm : m ∈ [a] := by
          rw [heq]
          simp
        rw [List.mem_singleton.mp hm]
    | some c =>
      have hc := List.argmax_mem (Option.mem_def.mpr hl)
      have hle : ∀ x ∈ l, f x ≤ f c := fun x hx => List.le_of_mem_argmax hx (Option.mem_def.mpr hl)
      by_cases hlt : f a < f c
      · simp only [hlt, if_true]
        constructor
        · intro h
          obtain ⟨before, after, hsplit, hbefore, hafter⟩ := ih.mp (hl.trans h)
          rw [Option.some.inj h] at hlt
          exact ⟨a :: before, after, by rw [hsplit]; rfl,
            List.forall_mem_cons.mpr ⟨hlt, hbefore⟩, hafter⟩
        · rintro ⟨before, after, hsplit, hbefore, hafter⟩
          cases before with
          | nil =>
            obtain ⟨rfl, rfl⟩ := List.cons.inj hsplit
            exact absurd (hafter c hc) (not_le.mpr hlt)
          | cons x before =>
            obtain ⟨rfl, rfl⟩ := List.cons.inj hsplit
            rw [← hl]
            exact ih.mpr ⟨before, after, rfl, (List.forall_mem_cons.mp hbefore).2, hafter⟩
      · simp only [hlt, if_false]
        constructor
        · intro h
          obtain rfl := Option.some.inj h
          exact ⟨[], l, rfl, by simp, fun x hx => (hle x hx).trans (not_lt.mp hlt)⟩
        · rintro ⟨before, after, hsplit, hbefore, hafter⟩
          cases before with
          | nil => rw [(List.cons.inj hsplit).1]
          | cons x before =>
            obtain ⟨rfl, rfl⟩ := List.cons.inj hsplit
            have hm : f m ≤ f c := hle m (by simp)
            exact absurd ((List.forall_mem_cons.mp hbefore).1.trans_le hm) hlt

theorem argmax_filterMap_eq_some_iff {f : β → γ} {g : α → Option β} {l : List α} {b : β} :
    (l.filterMap g).argmax f = some b ↔
      ∃ before a after, l = before ++ a :: after ∧ g a = some b ∧
        (∀ x ∈ before, ∀ y, g x = some y → f y < f b) ∧ ∀ x ∈ after, ∀ y, g x = some y →
          f y ≤ f b := by
  rw [argmax_eq_some_iff_append]
  constructor
  · rintro ⟨before, after, hsplit, hbefore, hafter⟩
    obtain ⟨l₁, l₂, rfl, rfl, h₂⟩ := List.filterMap_eq_append_iff.mp hsplit
    obtain ⟨l₃, a, l₄, rfl, hnone, ha, rfl⟩ := List.filterMap_eq_cons_iff.mp h₂
    refine ⟨l₁ ++ l₃, a, l₄, by rw [List.append_assoc], ha, ?_, ?_⟩
    · intro x hx y hy
      rcases List.mem_append.mp hx with hx | hx
      · exact hbefore y (List.mem_filterMap.mpr ⟨x, hx, hy⟩)
      · rw [hnone x hx] at hy
        cases hy
    · exact fun x hx y hy => hafter y (List.mem_filterMap.mpr ⟨x, hx, hy⟩)
  · rintro ⟨before, a, after, rfl, ha, hbefore, hafter⟩
    refine ⟨before.filterMap g, after.filterMap g, ?_, ?_, ?_⟩
    · rw [List.filterMap_append, List.filterMap_cons_some ha]
    · intro y hy
      obtain ⟨x, hx, hxy⟩ := List.mem_filterMap.mp hy
      exact hbefore x hx y hxy
    · intro y hy
      obtain ⟨x, hx, hxy⟩ := List.mem_filterMap.mp hy
      exact hafter x hx y hxy

end ReadyUp.Support
