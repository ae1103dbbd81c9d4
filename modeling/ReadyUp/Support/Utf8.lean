import ReadyUp.Support.JsonUnicode

/-!
# Cutting a text in UTF-8

A character begins with a byte that is no continuation byte and goes on with at most three that are.
So a text in UTF-8 may be cut before every byte that is no continuation byte (`IsUtf8.cut`), and one
of every four bytes is such a byte (`IsUtf8.exists_start`).
-/
namespace ReadyUp.Support.JsonTree

open JsonScan

def isCont (c : UInt8) : Bool := c &&& 0xC0 == 0x80

set_option maxRecDepth 4000 in
theorem isCont_iff {c : UInt8} : isCont c = true ↔ c.toNat / 64 = 2 := by
  have hall : ∀ n : Fin 256, (UInt8.ofNat n &&& 0xC0 == 0x80) = decide (n.val / 64 = 2) := by decide
  have hc := hall ⟨c.toNat, c.toNat_lt⟩
  rw [UInt8.ofNat_toNat] at hc
  unfold isCont
  rw [hc, decide_eq_true_eq]

variable {s t : Bytes} {cp : ℕ}

theorem putUtf8_shape (h : IsScalar cp) :
    ∃ c t, putUtf8 cp = c :: t ∧ isCont c = false ∧ t.length ≤ 3 ∧ ∀ d ∈ t, isCont d = true := by
  have hlead : ∀ n : ℕ, n < 256 → n / 64 ≠ 2 → isCont n.toUInt8 = false := by
    intro n hn hne
    rw [← Bool.not_eq_true, isCont_iff]
    simpa [Nat.mod_eq_of_lt hn] using hne
  have hcont : ∀ n : ℕ, n < 64 → isCont (0x80 + n).toUInt8 = true := by
    intro n hn
    rw [isCont_iff]
    simp only [Nat.toUInt8, UInt8.toNat_ofNat']
    omega
  unfold IsScalar at h
  unfold putUtf8
  split_ifs with h₁ h₂ h₃
  · exact ⟨_, _, rfl, hlead cp (by omega) (by omega), by simp, by simp⟩
  · refine ⟨_, _, rfl, hlead _ (by omega) (by omega), by simp, ?_⟩
    rw [List.forall_mem_singleton]
    exact hcont _ (by omega)
  · refine ⟨_, _, rfl, hlead _ (by omega) (by omega), by simp, ?_⟩
    rw [List.forall_mem_cons, List.forall_mem_singleton]
    exact ⟨hcont _ (by omega), hcont _ (by omega)⟩
  · refine ⟨_, _, rfl, hlead _ (by omega) (by omega), by simp, ?_⟩
    rw [List.forall_mem_cons, List.forall_mem_cons, List.forall_mem_singleton]
    exact ⟨hcont _ (by omega), hcont _ (by omega), hcont _ (by omega)⟩

/-- A byte that a character does not go on with, or the end. -/
def StartsFresh (t : Bytes) : Prop := ∀ c u, t = c :: u → isCont c = false

/-- The text may be cut before a byte that is no continuation byte. -/
theorem IsUtf8.cut (h : IsUtf8 (s ++ t)) (ht : StartsFresh t) : IsUtf8 s ∧ IsUtf8 t := by
  obtain ⟨cps, hcps, heq⟩ := h
  induction cps generalizing s with
  | nil =>
    rw [List.flatMap_nil, List.append_eq_nil_iff] at heq
    rw [heq.1, heq.2]
    exact ⟨isUtf8_nil, isUtf8_nil⟩
  | cons cp cps ih =>
    rw [List.forall_mem_cons] at hcps
    obtain ⟨hcp, hcps⟩ := hcps
    rw [List.flatMap_cons] at heq
    rcases List.append_eq_append_iff.mp heq with ⟨r, hr, htail⟩ | ⟨r, rfl, htail⟩
    · -- the cut is inside the first character, so it is at one of its ends
      obtain ⟨c, u, hchar, -, -, hcont⟩ := putUtf8_shape hcp
      cases s with
      | nil =>
        rw [List.nil_append] at hr
        refine ⟨isUtf8_nil, ?_⟩
        rw [htail, ← hr]
        exact (isUtf8_putUtf8 hcp).append ⟨cps, hcps, rfl⟩
      | cons x s =>
        rw [hchar, List.cons_append, List.cons.injEq] at hr
        obtain ⟨rfl, rfl⟩ := hr
        cases r with
        | nil =>
          rw [List.append_nil] at hchar hcont
          rw [List.nil_append] at htail
          rw [← hchar, htail]
          exact ⟨isUtf8_putUtf8 hcp, cps, hcps, rfl⟩
        | cons y r =>
          have hy := hcont y (List.mem_append_right s List.mem_cons_self)
          rw [ht y _ htail] at hy
          cases hy
    · obtain ⟨hs, ht⟩ := ih hcps htail.symm
      exact ⟨(isUtf8_putUtf8 hcp).append hs, ht⟩

theorem startsFresh_cons {c : UInt8} {t : Bytes} (h : isCont c = false) : StartsFresh (c :: t) := by
  intro d u heq
  rw [← (List.cons.inj heq).1]
  exact h

theorem startsFresh_nil : StartsFresh [] := by
  intro c u h
  cases h

/-- A text in UTF-8 does not begin with a continuation byte. -/
theorem IsUtf8.startsFresh (h : IsUtf8 s) : StartsFresh s := by
  obtain ⟨cps, hcps, rfl⟩ := h
  cases cps with
  | nil => exact startsFresh_nil
  | cons cp cps =>
    obtain ⟨c, t, hchar, hc, -, -⟩ := putUtf8_shape (hcps cp List.mem_cons_self)
    rw [List.flatMap_cons, hchar, List.cons_append]
    exact startsFresh_cons hc

/-- Four bytes behind one another are not all continuation bytes. -/
theorem IsUtf8.exists_start {r : Bytes} (h : IsUtf8 (s ++ (r ++ t))) (hr : r.length = 4) :
    ∃ c ∈ r, isCont c = false := by
  obtain ⟨cps, hcps, heq⟩ := h
  induction cps generalizing s with
  | nil =>
    have hlen := congrArg List.length heq
    simp only [List.length_append, List.flatMap_nil, List.length_nil] at hlen
    omega
  | cons cp cps ih =>
    rw [List.forall_mem_cons] at hcps
    obtain ⟨hcp, hcps⟩ := hcps
    rw [List.flatMap_cons] at heq
    rcases List.append_eq_append_iff.mp heq with ⟨q, hq, htail⟩ | ⟨q, rfl, htail⟩
    · obtain ⟨c, u, hchar, hc, hlen, -⟩ := putUtf8_shape hcp
      cases s with
      | nil =>
        -- the first of the four bytes begins the character
        rw [List.nil_append] at hq
        cases r with
        | nil => cases hr
        | cons x r =>
          rw [← hq, hchar, List.cons_append, List.cons_append, List.cons.injEq] at htail
          refine ⟨x, List.mem_cons_self, ?_⟩
          rw [htail.1]
          exact hc
      | cons x s =>
        -- the character ends before the last of the four bytes, and the next one begins there
        have hq4 : q.length < r.length := by
          have hlens := congrArg List.length hq
          rw [hchar] at hlens
          simp only [List.length_cons, List.length_append] at hlens
          omega
        rcases List.append_eq_append_iff.mp htail with ⟨w, hw, -⟩ | ⟨w, hw, hrest⟩
        · have hlens := congrArg List.length hw
          rw [List.length_append] at hlens
          omega
        · cases w with
          | nil =>
            rw [List.append_nil] at hw
            rw [hw] at hq4
            exact absurd hq4 (lt_irrefl _)
          | cons y w =>
            have hfresh : StartsFresh (cps.flatMap putUtf8) := IsUtf8.startsFresh ⟨cps, hcps, rfl⟩
            refine ⟨y, ?_, hfresh y _ hrest⟩
            rw [hw]
            exact List.mem_append_right q List.mem_cons_self
    · exact ih hcps htail.symm

theorem IsUtf8.filter {p : UInt8 → Bool} (hp : ∀ c, p c = false → c < 0x80) (h : IsUtf8 s) :
    IsUtf8 (s.filter p) := by
  obtain ⟨cps, hcps, rfl⟩ := h
  induction cps with
  | nil => exact isUtf8_nil
  | cons cp cps ih =>
    rw [List.forall_mem_cons] at hcps
    rw [List.flatMap_cons, List.filter_append]
    refine IsUtf8.append ?_ (ih hcps.2)
    by_cases hall : ∀ c ∈ putUtf8 cp, p c = true
    · rw [List.filter_eq_self.mpr hall]
      exact isUtf8_putUtf8 hcps.1
    · push Not at hall
      obtain ⟨c, hc, hpc⟩ := hall
      have hpc := Bool.eq_false_iff.mpr hpc
      rw [putUtf8_of_mem hcps.1 hc (hp c hpc)]
      simp [hpc, isUtf8_nil]

end ReadyUp.Support.JsonTree
