import Mathlib.Data.List.Basic
import Mathlib.Data.Int.Basic
import Mathlib.Tactic.Common

/-!
# Consecutively numbered lists

`Numbered a l` says that `l` is `a, a + 1, a + 2, …` up to its length. Sequence numbers
that are handed out one by one, queued and taken from the front stay numbered, so each
queue of a protocol needs one such fact and the ends of its interval.
-/
namespace ReadyUp.Support

/-- The list is `a, a + 1, …` up to its length. -/
def Numbered : ℤ → List ℤ → Prop
  | _, [] => True
  | a, x :: l => x = a ∧ Numbered (a + 1) l

instance Numbered.decidable : ∀ a l, Decidable (Numbered a l)
  | _, [] => inferInstanceAs (Decidable True)
  | a, x :: l =>
    have := Numbered.decidable (a + 1) l
    inferInstanceAs (Decidable (x = a ∧ Numbered (a + 1) l))

@[simp] theorem numbered_nil (a : ℤ) : Numbered a [] := trivial

@[simp] theorem numbered_cons {a x : ℤ} {l : List ℤ} :
    Numbered a (x :: l) ↔ x = a ∧ Numbered (a + 1) l := Iff.rfl

theorem numbered_append {a : ℤ} {l m : List ℤ} :
    Numbered a (l ++ m) ↔ Numbered a l ∧ Numbered (a + l.length) m := by
  induction l generalizing a with
  | nil => simp
  | cons x l ih =>
    have hlen : a + 1 + (l.length : ℤ) = a + ((x :: l).length : ℤ) := by
      rw [List.length_cons]
      push_cast
      omega
    rw [List.cons_append, numbered_cons, numbered_cons, ih, hlen, and_assoc]

theorem Numbered.mem_iff {a : ℤ} {l : List ℤ} (h : Numbered a l) {x : ℤ} :
    x ∈ l ↔ a ≤ x ∧ x < a + l.length := by
  induction l generalizing a with
  | nil => simp
  | cons y l ih =>
    obtain ⟨rfl, htail⟩ := h
    rw [List.mem_cons, ih htail, List.length_cons]
    push_cast
    omega

theorem Numbered.pairwise_lt {a : ℤ} {l : List ℤ} (h : Numbered a l) : l.Pairwise (· < ·) := by
  induction l generalizing a with
  | nil => exact .nil
  | cons x l ih =>
    obtain ⟨rfl, htail⟩ := h
    refine .cons ?_ (ih htail)
    intro y hy
    have := htail.mem_iff.mp hy
    omega

theorem Numbered.isChain {a : ℤ} {l : List ℤ} (h : Numbered a l) :
    l.IsChain fun x y => y = x + 1 := by
  induction l generalizing a with
  | nil => exact .nil
  | cons x l ih =>
    obtain ⟨rfl, htail⟩ := h
    cases l with
    | nil => exact .singleton x
    | cons y l => exact .cons_cons htail.1 (ih htail)

/-- Taking what is at most `a` from the front leaves the rest numbered. -/
theorem Numbered.dropWhile_le {a b : ℤ} {l : List ℤ} (h : Numbered b l) (hb : b ≤ a + 1)
    (ha : a < b + l.length) :
    Numbered (a + 1) (l.dropWhile (· ≤ a)) ∧
      a + ((l.dropWhile (· ≤ a)).length : ℤ) + 1 = b + l.length := by
  induction l generalizing b with
  | nil =>
    rw [List.length_nil] at ha
    simp
    omega
  | cons x l ih =>
    obtain ⟨rfl, htail⟩ := h
    rw [List.length_cons] at ha ⊢
    push_cast at ha ⊢
    by_cases hx : x ≤ a
    · rw [List.dropWhile_cons_of_pos (by simpa using hx)]
      obtain ⟨hnum, hlen⟩ := ih htail (by omega) (by omega)
      exact ⟨hnum, by omega⟩
    · obtain rfl : x = a + 1 := by omega
      rw [List.dropWhile_cons_of_neg (by simp [hx])]
      refine ⟨⟨rfl, htail⟩, ?_⟩
      rw [List.length_cons]
      push_cast
      omega

end ReadyUp.Support
