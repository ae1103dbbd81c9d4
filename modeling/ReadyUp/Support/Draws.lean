import Mathlib.Data.List.Basic
import Mathlib.Data.List.Nodup
import Mathlib.Data.List.Perm.Subperm

/-!
# First items and random draws

`firsts` keeps the first item of every key. `draws` takes items out of a list one after another, at
indices that may be any in range: the number of the call and what is left decide, which covers every
source of random numbers.
-/
namespace ReadyUp.Support

section Firsts

variable {α β : Type*} [DecidableEq β] {key : α → β} {seen : List β} {l : List α}

/-- The first item of every key that has not been seen before. -/
def firsts (key : α → β) (seen : List β) : List α → List α
  | [] => []
  | a :: l => if key a ∈ seen then firsts key seen l else a :: firsts key (key a :: seen) l

theorem firsts_sublist (key : α → β) (seen : List β) (l : List α) :
    (firsts key seen l).Sublist l := by
  induction l generalizing seen with
  | nil => exact List.Sublist.slnil
  | cons a l ih =>
    unfold firsts
    split_ifs
    · exact (ih seen).cons a
    · exact (ih _).cons_cons a

theorem mem_map_firsts {k : β} : k ∈ (firsts key seen l).map key ↔ k ∈ l.map key ∧ k ∉ seen := by
  induction l generalizing seen with
  | nil => simp [firsts]
  | cons a l ih =>
    unfold firsts
    split_ifs with hseen
    · rw [ih, List.map_cons, List.mem_cons]
      constructor
      · rintro ⟨hk, hnot⟩
        exact ⟨.inr hk, hnot⟩
      · rintro ⟨rfl | hk, hnot⟩
        · exact absurd hseen hnot
        · exact ⟨hk, hnot⟩
    · rw [List.map_cons, List.map_cons, List.mem_cons, List.mem_cons, ih, List.mem_cons, not_or]
      by_cases hk : k = key a
      · subst hk
        simp [hseen]
      · simp [hk]

theorem nodup_map_firsts (key : α → β) (seen : List β) (l : List α) :
    ((firsts key seen l).map key).Nodup := by
  induction l generalizing seen with
  | nil => exact List.nodup_nil
  | cons a l ih =>
    unfold firsts
    split_ifs
    · exact ih seen
    · rw [List.map_cons, List.nodup_cons]
      refine ⟨?_, ih _⟩
      intro hmem
      exact (mem_map_firsts.mp hmem).2 List.mem_cons_self

end Firsts

section Draws

variable {α : Type*} {pick : ℕ → (n : ℕ) → Fin (n + 1)} {l : List α}

/-- One of the items, at the index that is drawn for it. -/
def drawOne (pick : (n : ℕ) → Fin (n + 1)) : List α → Option α
  | [] => none
  | a :: l => some ((a :: l).get (pick l.length))

theorem mem_of_drawOne {pick : (n : ℕ) → Fin (n + 1)} {l : List α} {a : α}
    (h : drawOne pick l = some a) : a ∈ l := by
  cases l with
  | nil => cases h
  | cons b l =>
    cases h
    exact List.get_mem ..

theorem drawOne_eq_none {pick : (n : ℕ) → Fin (n + 1)} {l : List α} :
    drawOne pick l = none ↔ l = [] := by
  cases l <;> simp [drawOne]

/-- So many items, taken out of the list one by one; `k` counts the calls. -/
def draws (pick : ℕ → (n : ℕ) → Fin (n + 1)) : ℕ → ℕ → List α → List α
  | 0, _, _ => []
  | _ + 1, _, [] => []
  | m + 1, k, a :: l =>
    (a :: l).get (pick k l.length) :: draws pick m (k + 1) ((a :: l).eraseIdx (pick k l.length))

theorem exists_perm_draws (pick : ℕ → (n : ℕ) → Fin (n + 1)) (m k : ℕ) (l : List α) :
    ∃ left : List α, (draws pick m k l ++ left).Perm l ∧ left.length = l.length - m := by
  induction m generalizing k l with
  | zero => exact ⟨l, List.Perm.refl l, rfl⟩
  | succ m ih =>
    cases l with
    | nil => exact ⟨[], List.Perm.refl [], by simp⟩
    | cons a l =>
      obtain ⟨left, hperm, hlength⟩ := ih (k + 1) ((a :: l).eraseIdx (pick k l.length))
      refine ⟨left, ?_, ?_⟩
      · have hback := List.getElem_cons_eraseIdx_perm (l := a :: l) (pick k l.length).isLt
        exact (hperm.cons _).trans hback
      · rw [hlength, List.length_eraseIdx_of_lt (pick k l.length).isLt, List.length_cons]
        omega

theorem length_draws (pick : ℕ → (n : ℕ) → Fin (n + 1)) (m k : ℕ) (l : List α) :
    (draws pick m k l).length = min m l.length := by
  obtain ⟨left, hperm, hleft⟩ := exists_perm_draws pick m k l
  have hlength := hperm.length_eq
  rw [List.length_append] at hlength
  omega

theorem mem_of_mem_draws {m k : ℕ} {a : α} (h : a ∈ draws pick m k l) : a ∈ l := by
  obtain ⟨left, hperm, -⟩ := exists_perm_draws pick m k l
  exact hperm.subset (List.mem_append_left left h)

/-- When there are no more than may be drawn, all are drawn. -/
theorem draws_perm {m : ℕ} (h : l.length ≤ m) (pick : ℕ → (n : ℕ) → Fin (n + 1)) (k : ℕ) :
    (draws pick m k l).Perm l := by
  obtain ⟨left, hperm, hleft⟩ := exists_perm_draws pick m k l
  have hnil : left = [] := List.length_eq_zero_iff.mp (by omega)
  simpa [hnil] using hperm

/-- When the last item is picked every time, the list is drawn from its end. -/
theorem draws_last (m k : ℕ) (l : List α) :
    draws (fun _ n => Fin.last n) m k l = l.reverse.take m := by
  induction m generalizing k l with
  | zero => rfl
  | succ m ih =>
    cases l with
    | nil => rfl
    | cons a l =>
      have hlast :
          (a :: l).reverse = (a :: l).getLast (List.cons_ne_nil a l) ::
            (a :: l).dropLast.reverse := by
        conv_lhs => rw [← List.dropLast_append_getLast (List.cons_ne_nil a l)]
        rw [List.reverse_append]
        rfl
      have herase : (a :: l).eraseIdx l.length = (a :: l).dropLast := by
        simpa using List.eraseIdx_length_sub_one (l := a :: l)
      simp only [draws, Fin.val_last, ih, herase, hlast, List.take_succ_cons,
        List.cons.injEq, and_true]
      rw [List.getLast_eq_getElem]
      simp

end Draws

end ReadyUp.Support
