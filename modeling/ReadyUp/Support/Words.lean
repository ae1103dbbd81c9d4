import Mathlib.Data.List.TakeDrop
import Mathlib.Data.List.TakeWhile
import Mathlib.Tactic.Common

/-!
# Words of a text

`words` cuts a list at the items that separate and drops the empty parts, as a loop does that
collects the current word. A word that ends at a separator or at the end of the text is the first
one (`words_append`), and the first word together with what stands before and after it says what
the text is (`words_eq_cons`).
-/
namespace ReadyUp.Support

variable {α : Type} {sep : α → Bool}

/-- The words of a text behind the part `cur` of a word. -/
def wordsFrom (sep : α → Bool) (cur : List α) : List α → List (List α)
  | [] => if cur.isEmpty then [] else [cur]
  | a :: l =>
    if sep a then
      if cur.isEmpty then wordsFrom sep [] l else cur :: wordsFrom sep [] l
    else wordsFrom sep (cur ++ [a]) l

/-- The parts between separators that are not empty. -/
def words (sep : α → Bool) (l : List α) : List (List α) := wordsFrom sep [] l

/-- The text is empty or starts with a separator. -/
def Ended (sep : α → Bool) (l : List α) : Prop := ∀ a ∈ l.head?, sep a = true

@[simp] theorem words_nil : words sep [] = [] := rfl

theorem words_cons_of_sep {a : α} (h : sep a = true) (l : List α) :
    words sep (a :: l) = words sep l := by
  simp [words, wordsFrom, h]

theorem forall_of_all {β : Type} {p : α → β} {b : β} [DecidableEq β] {w : List α}
    (h : w.all (fun a => p a = b) = true) : ∀ a ∈ w, p a = b :=
  fun a ha => of_decide_eq_true (List.all_eq_true.mp h a ha)

theorem words_append_of_sep {b : List α} (h : ∀ a ∈ b, sep a = true) (l : List α) :
    words sep (b ++ l) = words sep l := by
  induction b with
  | nil => rfl
  | cons a b ih =>
    rw [List.forall_mem_cons] at h
    rw [List.cons_append, words_cons_of_sep h.1, ih h.2]

theorem wordsFrom_append_of_sep {e : List α} (he : ∀ a ∈ e, sep a = true) (cur l : List α) :
    wordsFrom sep cur (l ++ e) = wordsFrom sep cur l := by
  induction l generalizing cur with
  | nil =>
    cases e with
    | nil => rfl
    | cons a e =>
      rw [List.forall_mem_cons] at he
      have hrest : wordsFrom sep [] e = [] := by
        have h := words_append_of_sep he.2 []
        rwa [List.append_nil] at h
      simp only [List.nil_append, wordsFrom, he.1, if_true, hrest]
  | cons a l ih => simp only [List.cons_append, wordsFrom, ih]

theorem words_append_sep {e : List α} (he : ∀ a ∈ e, sep a = true) (l : List α) :
    words sep (l ++ e) = words sep l :=
  wordsFrom_append_of_sep he [] l

theorem wordsFrom_append {w : List α} (hw : ∀ a ∈ w, sep a = false) (cur l : List α) :
    wordsFrom sep cur (w ++ l) = wordsFrom sep (cur ++ w) l := by
  induction w generalizing cur with
  | nil => simp
  | cons a w ih =>
    rw [List.forall_mem_cons] at hw
    rw [List.cons_append, wordsFrom, if_neg (by simp [hw.1]), ih hw.2, List.append_assoc,
      List.singleton_append]

theorem wordsFrom_of_ended {w l : List α} (hne : w ≠ []) (hl : Ended sep l) :
    wordsFrom sep w l = w :: words sep l := by
  cases l with
  | nil => simp [wordsFrom, hne]
  | cons a l =>
    have ha : sep a = true := hl a rfl
    rw [words_cons_of_sep ha]
    simp [wordsFrom, ha, hne, words]

/-- The first word begins with what stands at the beginning of the text. -/
theorem exists_wordsFrom_eq {cur : List α} (hne : cur ≠ []) (l : List α) :
    ∃ v ws, wordsFrom sep cur l = (cur ++ v) :: ws := by
  induction l generalizing cur with
  | nil => exact ⟨[], [], by simp [wordsFrom, hne]⟩
  | cons a l ih =>
    rw [wordsFrom]
    split_ifs with hsep hnil
    · exact absurd (List.isEmpty_iff.mp hnil) hne
    · exact ⟨[], _, by rw [List.append_nil]⟩
    · obtain ⟨v, ws, h⟩ := @ih (cur ++ [a]) (by simp)
      exact ⟨a :: v, ws, by rw [h, List.append_assoc, List.singleton_append]⟩

theorem exists_words_append {w : List α} (hne : w ≠ []) (hw : ∀ a ∈ w, sep a = false) (l : List α) :
    ∃ v ws, words sep (w ++ l) = (w ++ v) :: ws := by
  rw [words, wordsFrom_append hw, List.nil_append]
  exact exists_wordsFrom_eq hne l

/-- A word that ends at a separator or with the text is the first one. -/
theorem words_append {w l : List α} (hne : w ≠ []) (hw : ∀ a ∈ w, sep a = false)
    (hl : Ended sep l) : words sep (w ++ l) = w :: words sep l := by
  rw [words, wordsFrom_append hw, List.nil_append, wordsFrom_of_ended hne hl]

theorem ended_dropWhile (l : List α) : Ended sep (l.dropWhile (!sep ·)) := by
  intro a ha
  have h := List.head?_dropWhile_not (!sep ·) l
  rw [Option.mem_def.mp ha] at h
  simpa using h

/-- The first word of a text, what stands before and what stands behind it. -/
theorem words_eq_cons {l w : List α} {ws : List (List α)} (h : words sep l = w :: ws) :
    ∃ b rest, l = b ++ (w ++ rest) ∧ (∀ a ∈ b, sep a = true) ∧ w ≠ [] ∧ (∀ a ∈ w, sep a = false) ∧
      Ended sep rest ∧ words sep rest = ws := by
  set b := l.takeWhile sep with hb
  set t := l.dropWhile sep with ht
  have hsep : ∀ a ∈ b, sep a = true := fun a ha => List.mem_takeWhile_imp ha
  have hl : l = b ++ t := (List.takeWhile_append_dropWhile).symm
  rw [hl, words_append_of_sep hsep] at h
  set v := t.takeWhile (!sep ·) with hv
  have hword : ∀ a ∈ v, sep a = false := fun a ha => by simpa using List.mem_takeWhile_imp ha
  have hsplit : t = v ++ t.dropWhile (!sep ·) := (List.takeWhile_append_dropWhile).symm
  have hne : v ≠ [] := by
    intro hnil
    have hended : Ended sep t := by
      rw [hsplit, hnil]
      exact ended_dropWhile t
    cases hcase : t with
    | nil =>
      rw [hcase] at h
      cases h
    | cons a t' =>
      have hnot : sep a = false := by
        have hhead := List.head?_dropWhile_not sep l
        rw [← ht, hcase] at hhead
        simpa using hhead
      have hyes : sep a = true := hended a (by rw [hcase]; rfl)
      rw [hnot] at hyes
      cases hyes
  rw [hsplit, words_append hne hword (ended_dropWhile t), List.cons.injEq] at h
  obtain ⟨rfl, hws⟩ := h
  exact ⟨b, t.dropWhile (!sep ·), by rw [← hsplit]; exact hl, hsep, hne, hword,
    ended_dropWhile t, hws⟩

theorem words_flatMap {b : α} (hb : sep b = true) {ws : List (List α)}
    (hws : ∀ w ∈ ws, w ≠ [] ∧ ∀ a ∈ w, sep a = false) :
    Ended sep (ws.flatMap (b :: ·)) ∧ words sep (ws.flatMap (b :: ·)) = ws := by
  induction ws with
  | nil => exact ⟨fun _ ha => (by cases ha), rfl⟩
  | cons w ws ih =>
    rw [List.forall_mem_cons] at hws
    obtain ⟨hended, hwords⟩ := ih hws.2
    refine ⟨?_, ?_⟩
    · intro a ha
      obtain rfl : b = a := by simpa using ha
      exact hb
    · rw [List.flatMap_cons, List.cons_append, words_cons_of_sep hb,
        words_append hws.1.1 hws.1.2 hended, hwords]

theorem mem_words {l w : List α} (h : w ∈ words sep l) : w ≠ [] ∧ ∀ a ∈ w, sep a = false := by
  generalize hws : words sep l = ws at h
  induction ws generalizing l with
  | nil => cases h
  | cons v ws ih =>
    obtain ⟨b, rest, -, -, hne, hword, -, hrest⟩ := words_eq_cons hws
    rcases List.mem_cons.mp h with rfl | h
    · exact ⟨hne, hword⟩
    · exact ih hrest h

end ReadyUp.Support
