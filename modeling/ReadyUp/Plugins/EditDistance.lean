import Mathlib.Data.List.GetD
import ReadyUp.Support.Decimal
import ReadyUp.Support.EditDistance

/-!
# The edit distance of two names

The plugins that suggest a name for a mistyped one have the same function for it: a dynamic program
with one row, overwritten from left to right, where the cell on the diagonal is saved before it
goes. Left of the cell at work the row is that of the longer prefix of `a`, from there on still that
of the shorter one (`Mixed`).
-/
namespace ReadyUp

open Support

namespace EditDistance

/-- The row and the cell of the row above that was overwritten last. -/
structure Scan where
  row : List ℕ
  diag : ℕ

def cell (x : UInt8) (b : Bytes) (s : Scan) (j : ℕ) : Scan where
  row := s.row.set j (min (s.row.getD j 0 + 1)
    (min (s.row.getD (j - 1) 0 + 1) (s.diag + if x = b.getD (j - 1) 0 then 0 else 1)))
  diag := s.row.getD j 0

def nextRow (a b : Bytes) (row : List ℕ) (i : ℕ) : List ℕ :=
  let start : Scan := { row := row.set 0 i, diag := row.getD 0 0 }
  ((List.range' 1 b.length).foldl (cell (a.getD (i - 1) 0) b) start).row

def singleRow (a b : Bytes) : ℕ :=
  ((List.range' 1 a.length).foldl (nextRow a b) (List.range (b.length + 1))).getD b.length 0

end EditDistance

/-- `EditDistance` of the essentials plugin. -/
def Essentials.editDistance (a b : Bytes) : ℕ := EditDistance.singleRow a b

/-- `EditDistance` of the midas plugin. -/
def Midas.editDistance (a b : Bytes) : ℕ := EditDistance.singleRow a b

namespace EditDistance

example : singleRow (ascii "kitten") (ascii "sitting") = 3 := by decide

variable {a b xs : Bytes} {x : UInt8} {s : Scan} {row : List ℕ} {j k : ℕ}

theorem reverse_take_succ {s : Bytes} (h : k < s.length) :
    (s.take (k + 1)).reverse = s.getD k 0 :: (s.take k).reverse := by
  rw [List.take_succ_eq_append_getElem h, List.reverse_append, List.getD_eq_getElem _ _ h]
  rfl

/-- The distance of the reversed prefix `xs` from the prefixes of `b`. The prefixes are reversed
because they grow at their end. -/
def prefixDistance (xs b : Bytes) (j : ℕ) : ℕ := levenshtein xs (b.take j).reverse

@[simp] theorem prefixDistance_zero (xs b : Bytes) : prefixDistance xs b 0 = xs.length := by
  simp [prefixDistance]

theorem prefixDistance_succ (xs : Bytes) (x : UInt8) (h : j < b.length) :
    prefixDistance (x :: xs) b (j + 1) = min (prefixDistance xs b (j + 1) + 1)
      (min (prefixDistance (x :: xs) b j + 1)
        (prefixDistance xs b j + if x = b.getD j 0 then 0 else 1)) := by
  simp only [prefixDistance, reverse_take_succ h, levenshtein_cons_cons]

/-- The row of the prefix `xs`. -/
structure RowOf (xs b : Bytes) (row : List ℕ) : Prop where
  length : row.length = b.length + 1
  cell : ∀ j ≤ b.length, row.getD j 0 = prefixDistance xs b j

/-- The row of `x :: xs` up to the cell `k`, that of `xs` after it. -/
structure Mixed (x : UInt8) (xs b : Bytes) (k : ℕ) (s : Scan) : Prop where
  length : s.row.length = b.length + 1
  done : ∀ j ≤ k, s.row.getD j 0 = prefixDistance (x :: xs) b j
  above : ∀ j ≤ b.length, k < j → s.row.getD j 0 = prefixDistance xs b j
  diag : s.diag = prefixDistance xs b k

theorem getD_set (row : List ℕ) (j k v : ℕ) (h : j < row.length) :
    (row.set j v).getD k 0 = if j = k then v else row.getD k 0 := by
  by_cases hjk : j = k
  · subst hjk
    simp [h]
  · simp [hjk]

theorem Mixed.start (h : RowOf xs b row) :
    Mixed x xs b 0 { row := row.set 0 (xs.length + 1), diag := row.getD 0 0 } where
  length := by simp [h.length]
  done := by
    intro j hj
    obtain rfl : j = 0 := by omega
    simp [h.length]
  above := by
    intro j hj hpos
    rw [getD_set _ _ _ _ (by simp [h.length]), if_neg (by omega), h.cell j hj]
  diag := h.cell 0 (Nat.zero_le _)

/-- One round of the inner loop moves the border one cell on. -/
theorem Mixed.cell (h : Mixed x xs b k s) (hk : k < b.length) :
    Mixed x xs b (k + 1) (cell x b s (k + 1)) := by
  have hbound : k + 1 < s.row.length := by
    rw [h.length]
    omega
  have hup := h.above (k + 1) (by omega) (by omega)
  have hleft := h.done k le_rfl
  have hread : ∀ j, (EditDistance.cell x b s (k + 1)).row.getD j 0 =
      if k + 1 = j then prefixDistance (x :: xs) b (k + 1) else s.row.getD j 0 := by
    intro j
    simp only [EditDistance.cell, getD_set _ _ _ _ hbound, Nat.add_sub_cancel, hup, hleft, h.diag,
      prefixDistance_succ xs x hk]
  constructor
  · simp [EditDistance.cell, h.length]
  · intro j hj
    rw [hread]
    split_ifs with hlast
    · rw [← hlast]
    · exact h.done j (by omega)
  · intro j hj hlater
    rw [hread, if_neg (by omega)]
    exact h.above j hj (by omega)
  · exact hup

theorem Mixed.scan (h : Mixed x xs b 0 s) (hk : k ≤ b.length) :
    Mixed x xs b k ((List.range' 1 k).foldl (EditDistance.cell x b) s) := by
  induction k with
  | zero => exact h
  | succ k ih =>
    have hround := (ih (by omega)).cell (by omega)
    rw [List.range'_1_concat, List.foldl_append, Nat.add_comm 1 k]
    exact hround

theorem RowOf.first (b : Bytes) : RowOf [] b (List.range (b.length + 1)) where
  length := by simp
  cell := by
    intro j hj
    have hlt : j < b.length + 1 := by omega
    simp [prefixDistance, List.getD_eq_getElem?_getD, hlt, hj]

theorem RowOf.next (h : RowOf (a.take k).reverse b row) (hk : k < a.length) :
    RowOf (a.take (k + 1)).reverse b (nextRow a b row (k + 1)) := by
  have hlength : (a.take k).reverse.length = k := by simp [hk.le]
  have hstart := Mixed.start (x := a.getD k 0) h
  rw [hlength] at hstart
  have hend := hstart.scan le_rfl
  rw [reverse_take_succ hk]
  exact ⟨hend.length, hend.done⟩

theorem RowOf.rows (a b : Bytes) (hk : k ≤ a.length) :
    RowOf (a.take k).reverse b ((List.range' 1 k).foldl (nextRow a b)
      (List.range (b.length + 1))) := by
  induction k with
  | zero => exact .first b
  | succ k ih =>
    have hround := (ih (by omega)).next (by omega)
    rw [List.range'_1_concat, List.foldl_append, Nat.add_comm 1 k]
    exact hround

/-- The single row computes the edit distance of the reversed texts, which is that of the texts. -/
theorem isLeast_singleRow (a b : Bytes) : IsLeast {n | Edits n a b} (singleRow a b) := by
  have hlast : singleRow a b = levenshtein a.reverse b.reverse := by
    have hrow := (RowOf.rows a b le_rfl).cell b.length le_rfl
    rw [prefixDistance, List.take_length, List.take_length] at hrow
    exact hrow
  have hreverse : {n | Edits n a b} = {n | Edits n a.reverse b.reverse} := by
    simp only [edits_reverse]
  rw [hlast, hreverse]
  exact isLeast_levenshtein a.reverse b.reverse

/-- Both copies give the least number of insertions, deletions and replacements of a byte that turn
one text into the other. -/
theorem isLeast_editDistance (a b : Bytes) :
    IsLeast {n | Edits n a b} (Essentials.editDistance a b) ∧
      IsLeast {n | Edits n a b} (Midas.editDistance a b) :=
  ⟨isLeast_singleRow a b, isLeast_singleRow a b⟩

end EditDistance

end ReadyUp
