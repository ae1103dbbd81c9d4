import Mathlib.Order.Bounds.Basic
import Mathlib.Tactic.Linarith
import Mathlib.Data.List.Basic

/-!
# Edit distance

`levenshtein` recurs on the first items of two lists, a row of distances from the row above it. It
is the least number of insertions, deletions and replacements of single items that turn one list
into the other (`isLeast_levenshtein`).
-/
namespace ReadyUp.Support

variable {α : Type*}

/-- One insertion, deletion or replacement of an item. -/
inductive Edit : List α → List α → Prop
  | insert (u v : List α) (a : α) : Edit (u ++ v) (u ++ a :: v)
  | delete (u v : List α) (a : α) : Edit (u ++ a :: v) (u ++ v)
  | replace (u v : List α) (a b : α) : Edit (u ++ a :: v) (u ++ b :: v)

/-- So many edits, one after another. -/
inductive Edits : ℕ → List α → List α → Prop
  | nil (xs : List α) : Edits 0 xs xs
  | snoc {n : ℕ} {xs ys zs : List α} : Edits n xs ys → Edit ys zs → Edits (n + 1) xs zs

theorem Edit.cons {xs ys : List α} (h : Edit xs ys) (a : α) : Edit (a :: xs) (a :: ys) := by
  cases h with
  | insert u v b => exact Edit.insert (a :: u) v b
  | delete u v b => exact Edit.delete (a :: u) v b
  | replace u v b c => exact Edit.replace (a :: u) v b c

theorem Edit.reverse {xs ys : List α} (h : Edit xs ys) : Edit xs.reverse ys.reverse := by
  cases h with
  | insert u v a => simpa using Edit.insert v.reverse u.reverse a
  | delete u v a => simpa using Edit.delete v.reverse u.reverse a
  | replace u v a b => simpa using Edit.replace v.reverse u.reverse a b

theorem Edits.cons {n : ℕ} {xs ys : List α} (h : Edits n xs ys) (a : α) :
    Edits n (a :: xs) (a :: ys) := by
  induction h with
  | nil xs => exact .nil _
  | snoc _ hedit ih => exact ih.snoc (hedit.cons a)

theorem Edits.reverse {n : ℕ} {xs ys : List α} (h : Edits n xs ys) :
    Edits n xs.reverse ys.reverse := by
  induction h with
  | nil xs => exact .nil _
  | snoc _ hedit ih => exact ih.snoc hedit.reverse

theorem edits_reverse {n : ℕ} {xs ys : List α} : Edits n xs.reverse ys.reverse ↔ Edits n xs ys := by
  constructor
  · intro h
    simpa using h.reverse
  · exact Edits.reverse

theorem Edits.of_edit {n : ℕ} {xs ys zs : List α} (hedit : Edit xs ys) (h : Edits n ys zs) :
    Edits (n + 1) xs zs := by
  induction h with
  | nil ys => exact .snoc (.nil xs) hedit
  | snoc _ hlast ih => exact (ih hedit).snoc hlast

theorem edits_nil_left (ys : List α) : Edits ys.length [] ys := by
  induction ys with
  | nil => exact .nil []
  | cons y ys ih => exact ih.snoc (.insert [] ys y)

section Levenshtein

variable [DecidableEq α]

/-- The row for one more item `x`, from the row above it. -/
def rowBelow (x : α) (above : List α → ℕ) : List α → ℕ
  | [] => above [] + 1
  | y :: ys =>
    min (above (y :: ys) + 1) (min (rowBelow x above ys + 1) (above ys + if x = y then 0 else 1))

def levenshtein : List α → List α → ℕ
  | [] => List.length
  | x :: xs => rowBelow x (levenshtein xs)

@[simp] theorem levenshtein_nil_left (ys : List α) : levenshtein [] ys = ys.length := rfl

@[simp] theorem levenshtein_nil_right (xs : List α) : levenshtein xs [] = xs.length := by
  induction xs with
  | nil => simp
  | cons x xs ih => simp [levenshtein, rowBelow, ih]

theorem levenshtein_cons_cons (x : α) (xs : List α) (y : α) (ys : List α) :
    levenshtein (x :: xs) (y :: ys) = min (levenshtein xs (y :: ys) + 1)
      (min (levenshtein (x :: xs) ys + 1) (levenshtein xs ys + if x = y then 0 else 1)) := rfl

/-! ## No edits can be saved -/

theorem levenshtein_cons_left_le (x : α) (xs ys : List α) :
    levenshtein (x :: xs) ys ≤ levenshtein xs ys + 1 := by
  cases ys with
  | nil => simp
  | cons y ys => simp [levenshtein_cons_cons]

theorem levenshtein_cons_right_le (xs : List α) (y : α) (ys : List α) :
    levenshtein xs (y :: ys) ≤ levenshtein xs ys + 1 := by
  cases xs with
  | nil => simp
  | cons x xs => simp [levenshtein_cons_cons]

theorem levenshtein_le_cons_right (xs : List α) (y : α) (ys : List α) :
    levenshtein xs ys ≤ levenshtein xs (y :: ys) + 1 := by
  induction xs with
  | nil => simp; omega
  | cons x xs ih =>
    have hdelete := levenshtein_cons_left_le x xs ys
    rw [levenshtein_cons_cons]
    omega

theorem levenshtein_replace_le (xs : List α) (y z : α) (ys : List α) :
    levenshtein xs (z :: ys) ≤ levenshtein xs (y :: ys) + 1 := by
  induction xs with
  | nil => simp
  | cons x xs ih =>
    simp only [levenshtein_cons_cons]
    split_ifs <;> omega

/-- Two lists that are never more than one apart are not so behind one more item either. -/
theorem levenshtein_cons_le_cons {ys zs : List α}
    (h : ∀ xs, levenshtein xs zs ≤ levenshtein xs ys + 1)
    (c : α) (xs : List α) : levenshtein xs (c :: zs) ≤ levenshtein xs (c :: ys) + 1 := by
  induction xs with
  | nil =>
    have hlength := h []
    simp only [levenshtein_nil_left, List.length_cons] at hlength ⊢
    omega
  | cons x xs ih =>
    have hinsert := h (x :: xs)
    have hreplace := h xs
    simp only [levenshtein_cons_cons]
    omega

theorem levenshtein_append_le_append {ys zs : List α}
    (h : ∀ xs, levenshtein xs zs ≤ levenshtein xs ys + 1)
    (u xs : List α) : levenshtein xs (u ++ zs) ≤ levenshtein xs (u ++ ys) + 1 := by
  induction u generalizing xs with
  | nil => exact h xs
  | cons c u ih => exact levenshtein_cons_le_cons ih c xs

theorem Edit.levenshtein_le {ys zs : List α} (h : Edit ys zs) (xs : List α) :
    levenshtein xs zs ≤ levenshtein xs ys + 1 := by
  cases h with
  | insert u v a =>
    exact levenshtein_append_le_append (fun xs => levenshtein_cons_right_le xs a v) u xs
  | delete u v a =>
    exact levenshtein_append_le_append (fun xs => levenshtein_le_cons_right xs a v) u xs
  | replace u v a b =>
    exact levenshtein_append_le_append (fun xs => levenshtein_replace_le xs a b v) u xs

@[simp] theorem levenshtein_self (xs : List α) : levenshtein xs xs = 0 := by
  induction xs with
  | nil => rfl
  | cons x xs ih => simp [levenshtein_cons_cons, ih]

theorem Edits.levenshtein_le {n : ℕ} {xs ys : List α} (h : Edits n xs ys) :
    levenshtein xs ys ≤ n := by
  induction h with
  | nil xs => simp
  | snoc _ hedit ih => exact (hedit.levenshtein_le _).trans (Nat.add_le_add_right ih 1)

/-! ## As many edits are enough -/

theorem edits_levenshtein (xs ys : List α) : Edits (levenshtein xs ys) xs ys := by
  induction xs generalizing ys with
  | nil => exact edits_nil_left ys
  | cons x xs ihx =>
    have hdelete : Edit (x :: xs) xs := .delete [] xs x
    induction ys with
    | nil => simpa using Edits.of_edit hdelete (ihx [])
    | cons y ys ihy =>
      have hreplace : Edits (levenshtein xs ys + if x = y then 0 else 1) (x :: xs) (y :: ys) := by
        split_ifs with h
        · exact h ▸ (ihx ys).cons x
        · exact ((ihx ys).cons x).snoc (.replace [] ys x y)
      rw [levenshtein_cons_cons]
      rcases min_choice (levenshtein xs (y :: ys) + 1)
        (min (levenshtein (x :: xs) ys + 1) (levenshtein xs ys + if x = y then 0 else 1)) with h | h
      · rw [h]
        exact Edits.of_edit hdelete (ihx (y :: ys))
      · rw [h]
        rcases min_choice (levenshtein (x :: xs) ys + 1)
          (levenshtein xs ys + if x = y then 0 else 1) with h | h
        · rw [h]
          exact ihy.snoc (.insert [] ys y)
        · rw [h]
          exact hreplace

theorem isLeast_levenshtein (xs ys : List α) : IsLeast {n | Edits n xs ys} (levenshtein xs ys) :=
  ⟨edits_levenshtein xs ys, fun _ h => h.levenshtein_le⟩

end Levenshtein

end ReadyUp.Support
