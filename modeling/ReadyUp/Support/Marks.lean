import Mathlib.Data.Finset.Card
import Mathlib.Data.Finset.Range
import Mathlib.Tactic.Linarith

/-!
# Marks on a line

A counter of marks is right as long as no mark is passed without being counted: it then only
depends on the last mark counted, and the next mark raises it by one.
-/
namespace ReadyUp.Support

variable {P : ℤ → Prop} [DecidablePred P]

/-- The number of marks from 0 up to `s`. -/
def marksUpTo (P : ℤ → Prop) [DecidablePred P] (s : ℤ) : ℕ :=
  ((Finset.range (s + 1).toNat).filter fun n : ℕ => P n).card

theorem marksUpTo_neg {s : ℤ} (hs : s < 0) : marksUpTo P s = 0 := by
  have hempty : (s + 1).toNat = 0 := Int.toNat_of_nonpos (by omega)
  rw [marksUpTo, hempty, Finset.range_zero, Finset.filter_empty, Finset.card_empty]

theorem marksUpTo_eq_of_forall_le {a s : ℤ} (has : a ≤ s)
    (hnone : ∀ b, P b → b ≤ s → b ≤ a) : marksUpTo P s = marksUpTo P a := by
  unfold marksUpTo
  congr 1
  ext n
  simp only [Finset.mem_filter, Finset.mem_range]
  constructor
  · rintro ⟨hn, hmark⟩
    have := hnone n hmark (by omega)
    exact ⟨by omega, hmark⟩
  · rintro ⟨hn, hmark⟩
    exact ⟨by omega, hmark⟩

theorem marksUpTo_eq_add_one {a s : ℤ} (h0 : 0 ≤ s) (has : a < s) (hs : P s)
    (hnext : ∀ b, P b → a < b → s ≤ b) : marksUpTo P s = marksUpTo P a + 1 := by
  have hcast : (s.toNat : ℤ) = s := Int.toNat_of_nonneg h0
  have hnew : s.toNat ∉ (Finset.range (a + 1).toNat).filter fun n : ℕ => P n := by
    simp only [Finset.mem_filter, Finset.mem_range, not_and]
    omega
  have hinsert : (Finset.range (s + 1).toNat).filter (fun n : ℕ => P n) =
      insert s.toNat ((Finset.range (a + 1).toNat).filter fun n : ℕ => P n) := by
    ext n
    simp only [Finset.mem_filter, Finset.mem_range, Finset.mem_insert]
    constructor
    · rintro ⟨hn, hmark⟩
      rcases le_or_gt (n : ℤ) a with hle | hlt
      · exact .inr ⟨by omega, hmark⟩
      · have := hnext n hmark hlt
        exact .inl (by omega)
    · rintro (rfl | ⟨hn, hmark⟩)
      · exact ⟨by omega, hcast.symm ▸ hs⟩
      · exact ⟨by omega, hmark⟩
  rw [marksUpTo, hinsert, Finset.card_insert_of_notMem hnew, marksUpTo]

end ReadyUp.Support
