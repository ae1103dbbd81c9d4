import ReadyUp.Support.Decimal

/-!
# Texts of one width in order

Texts are compared byte by byte. Runs of digits of the same length stand in the order of their
numbers.
-/
namespace ReadyUp.Support

variable {x y a b : Bytes}

/-- Texts that begin with parts of the same length are compared by these first. -/
theorem append_lt_append_iff (h : x.length = y.length) :
    x ++ a < y ++ b ↔ x < y ∨ x = y ∧ a < b := by
  induction x generalizing y with
  | nil =>
    have hy : y = [] := List.eq_nil_of_length_eq_zero h.symm
    simp [hy]
  | cons c x ih =>
    cases y with
    | nil => cases h
    | cons d y =>
      have ih := ih (Nat.succ.inj h)
      simp only [List.cons_append, List.cons_lt_cons_iff, List.cons.injEq, ih]
      constructor
      · rintro (hlt | ⟨rfl, hlt | ⟨rfl, hlt⟩⟩)
        · exact .inl (.inl hlt)
        · exact .inl (.inr ⟨rfl, hlt⟩)
        · exact .inr ⟨⟨rfl, rfl⟩, hlt⟩
      · rintro ((hlt | ⟨rfl, hlt⟩) | ⟨⟨rfl, rfl⟩, hlt⟩)
        · exact .inl hlt
        · exact .inr ⟨rfl, .inl hlt⟩
        · exact .inr ⟨rfl, .inr ⟨rfl, hlt⟩⟩

theorem lt_iff_digitValue_lt {c d : UInt8} (hc : isDigit c = true) (hd : isDigit d = true) :
    c < d ↔ digitValue c < digitValue d := by
  simp only [isDigit, Bool.and_eq_true, decide_eq_true_eq, UInt8.le_iff_toNat_le] at hc hd
  have h0 : (byte '0').toNat = 48 := by decide
  unfold digitValue
  rw [UInt8.lt_iff_toNat_lt]
  omega

theorem eq_of_digitValue_eq {c d : UInt8} (hc : isDigit c = true) (hd : isDigit d = true)
    (h : digitValue c = digitValue d) : c = d := by
  obtain ⟨n, hn, rfl⟩ := exists_digit hc
  obtain ⟨m, hm, rfl⟩ := exists_digit hd
  rw [digitValue_digit hn, digitValue_digit hm] at h
  rw [h]

/-- Runs of digits of the same length stand in the order of their numbers. -/
theorem digits_lt_iff (hx : ∀ c ∈ x, isDigit c = true) (hy : ∀ c ∈ y, isDigit c = true)
    (h : x.length = y.length) : x < y ↔ ofDigits x < ofDigits y := by
  induction x generalizing y with
  | nil =>
    have hnil : y = [] := List.eq_nil_of_length_eq_zero h.symm
    simp [hnil]
  | cons c x ih =>
    cases y with
    | nil => cases h
    | cons d y =>
      rw [List.forall_mem_cons] at hx hy
      have hlen := Nat.succ.inj h
      have hltx := ofDigits_lt hx.2
      have hlty := ofDigits_lt hy.2
      rw [List.cons_lt_cons_iff, ih hx.2 hy.2 hlen, ofDigits_cons, ofDigits_cons,
        lt_iff_digitValue_lt hx.1 hy.1]
      rw [hlen] at hltx ⊢
      constructor
      · rintro (hlt | ⟨rfl, hlt⟩)
        · nlinarith
        · omega
      · intro hlt
        rcases lt_trichotomy (digitValue c) (digitValue d) with hcd | hcd | hcd
        · exact .inl hcd
        · rw [hcd] at hlt
          exact .inr ⟨eq_of_digitValue_eq hx.1 hy.1 hcd, by omega⟩
        · nlinarith

/-- Runs of digits of the same length with the same number are the same. -/
theorem digits_eq_iff (hx : ∀ c ∈ x, isDigit c = true) (hy : ∀ c ∈ y, isDigit c = true)
    (h : x.length = y.length) : x = y ↔ ofDigits x = ofDigits y := by
  constructor
  · rintro rfl
    rfl
  · intro heq
    have hxy : ¬ x < y := by rw [digits_lt_iff hx hy h, heq]; exact lt_irrefl _
    have hyx : ¬ y < x := by rw [digits_lt_iff hy hx h.symm, heq]; exact lt_irrefl _
    exact List.le_antisymm (List.not_lt.mp hyx) (List.not_lt.mp hxy)

end ReadyUp.Support
