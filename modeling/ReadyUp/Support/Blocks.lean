import Mathlib.Data.List.Basic
import Mathlib.Algebra.Order.Group.Nat
import Mathlib.Tactic.Ring

/-!
# Streams taken in blocks

`absorb n f s l` takes the whole blocks of `n` items of `l` into the state `s`, and `pending n l` is
what is left of `l`. A stream that comes in parts may be taken part by part (`absorb_append`), when
the items left of one part are put before the next (`pending_append`).
-/
namespace ReadyUp.Support

variable {σ α : Type*}

/-- The state after the whole blocks of `n` items. -/
def absorb (n : ℕ) (f : σ → List α → σ) (s : σ) (l : List α) : σ :=
  (List.range (l.length / n)).foldl (fun s i => f s ((l.drop (i * n)).take n)) s

/-- The items after the last whole block of `n` items. -/
def pending (n : ℕ) (l : List α) : List α := l.drop (l.length / n * n)

variable {n : ℕ} {f : σ → List α → σ} {s : σ} {l k : List α}

theorem absorb_of_length_lt (h : l.length < n) : absorb n f s l = s := by
  simp [absorb, Nat.div_eq_of_lt h]

theorem pending_of_length_lt (h : l.length < n) : pending n l = l := by
  simp [pending, Nat.div_eq_of_lt h]

@[simp] theorem length_pending (n : ℕ) (l : List α) : (pending n l).length = l.length % n := by
  have hdiv := Nat.div_add_mod' l.length n
  simp only [pending, List.length_drop]
  omega

theorem length_pending_lt (hn : 0 < n) (l : List α) : (pending n l).length < n := by
  rw [length_pending]
  exact Nat.mod_lt _ hn

theorem length_block_append (hk : k.length = n) (hn : 0 < n) :
    (k ++ l).length / n = l.length / n + 1 := by
  rw [List.length_append, hk, Nat.add_div_left _ hn]

theorem absorb_block_append (hk : k.length = n) (hn : 0 < n) :
    absorb n f s (k ++ l) = absorb n f (f s k) l := by
  have hrest (i : ℕ) : (k ++ l).drop ((i + 1) * n) = l.drop (i * n) := by
    have hsplit : (i + 1) * n = k.length + i * n := by rw [hk]; ring
    rw [hsplit, ← List.drop_drop, List.drop_left]
  have hfirst : ((k ++ l).drop (0 * n)).take n = k := by
    simp [← hk]
  simp only [absorb, length_block_append hk hn, List.range_succ_eq_map, List.foldl_cons,
    List.foldl_map, Nat.succ_eq_add_one, hrest, hfirst]

theorem pending_block_append (hk : k.length = n) (hn : 0 < n) :
    pending n (k ++ l) = pending n l := by
  have hsplit : (l.length / n + 1) * n = k.length + l.length / n * n := by rw [hk]; ring
  simp only [pending, length_block_append hk hn, hsplit, ← List.drop_drop, List.drop_left]

theorem blocks_induction {P : List α → Prop} (n : ℕ) (hn : 0 < n) (hshort : ∀ l, l.length < n → P l)
    (hblock : ∀ k l, k.length = n → P l → P (k ++ l)) (l : List α) : P l := by
  induction hlen : l.length using Nat.strong_induction_on generalizing l with
  | _ m ih =>
    by_cases hlt : l.length < n
    · exact hshort l hlt
    · have hrest : P (l.drop n) :=
        ih (l.drop n).length (by simp only [List.length_drop]; omega) _ rfl
      have hfirst : (l.take n).length = n := by
        simp only [List.length_take]
        omega
      simpa using hblock (l.take n) (l.drop n) hfirst hrest

/-- A stream in two parts: what is left of the first goes before the second. -/
theorem absorb_append (hn : 0 < n) (f : σ → List α → σ) (s : σ) (k l : List α) :
    absorb n f s (k ++ l) = absorb n f (absorb n f s k) (pending n k ++ l) := by
  induction k using blocks_induction n hn generalizing s with
  | hshort k hk => rw [absorb_of_length_lt hk, pending_of_length_lt hk]
  | hblock b k hb ih =>
    calc
      absorb n f s (b ++ k ++ l) = absorb n f (f s b) (k ++ l) := by
        rw [List.append_assoc, absorb_block_append hb hn]
      _ = absorb n f (absorb n f (f s b) k) (pending n k ++ l) := ih (f s b)
      _ = absorb n f (absorb n f s (b ++ k)) (pending n (b ++ k) ++ l) := by
        rw [absorb_block_append hb hn, pending_block_append hb hn]

theorem pending_append (hn : 0 < n) (k l : List α) :
    pending n (k ++ l) = pending n (pending n k ++ l) := by
  induction k using blocks_induction n hn with
  | hshort k hk => rw [pending_of_length_lt hk]
  | hblock b k hb ih =>
    rw [List.append_assoc, pending_block_append hb hn, ih, pending_block_append hb hn]

end ReadyUp.Support
