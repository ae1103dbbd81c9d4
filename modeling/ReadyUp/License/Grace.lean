import ReadyUp.License.Calendar
import ReadyUp.License.Standing

/-!
# The grace period of a monthly license

A monthly license works through its last paid day and for fourteen days of grace; the server has to
say nothing for that. The day on which it stops is compared as text: a license that is paid into the
second half of December 9999 stops in the year 10000, which comes before the year 1001 as text
(`grace_iff`). A status never gets less strict in the course of time, whatever is paid.
-/
namespace ReadyUp.License

open Support Config

section Verify

variable {check : Bytes → Bytes → Bytes → Bool} {token key lease body sig : Bytes}
    {payload : Minijson.Value}
  {o o' : Options}

theorem valid_invalid (code message : Bytes) : (Result.invalid code message).valid = false := rfl

theorem verifyDecoded_valid (h : (verifyDecoded check body sig payload o).valid = true)
    (hkeys : o.keys = o'.keys) :
    payloadProblem payload = none ∧ (verifyDecoded check body sig payload o').valid = true ∧
      (verifyDecoded check body sig payload o').license = payloadOf payload := by
  unfold verifyDecoded at h ⊢
  rw [← hkeys]
  cases hversion : otherVersion (payload.get "v") with
  | some v => simp [hversion, valid_invalid] at h
  | none =>
    cases hkey : keyOf o.keys payload with
    | none => simp [hversion, hkey, valid_invalid] at h
    | some key =>
      simp only [hversion, hkey] at h ⊢
      by_cases hsig : ((base64UrlDecode key.x).filter (·.length = 32)).any (fun pub =>
          check sig pub (ascii "ATL1." ++ body)) = true
      · simp only [if_pos hsig] at h ⊢
        cases hproblem : payloadProblem payload with
        | some problem => simp [hproblem, valid_invalid] at h
        | none =>
          refine ⟨rfl, ?_, rfl⟩
          simp only [Result.valid]
          split_ifs <;> decide
      · simp only [if_neg hsig, valid_invalid, Bool.false_eq_true] at h

/-- A key that is genuine is so on every day, with the same terms. -/
theorem verify_valid (h : (verify check token o).valid = true) :
    ∃ payload, payloadProblem payload = none ∧ ∀ o' : Options, o.keys = o'.keys →
      (verify check token o').valid = true ∧
      (verify check token o').license = payloadOf payload := by
  unfold verify at h ⊢
  by_cases hlong : 4096 < (trim token).length
  · simp [if_pos hlong, valid_invalid] at h
  simp only [if_neg hlong] at h ⊢
  cases hsplit : splitToken (trim token) with
  | none => simp [hsplit, valid_invalid] at h
  | some parts =>
    simp only [hsplit] at h ⊢
    split at h
    · rename_i bodyBytes sigBytes hbody hsig
      cases hparse : Minijson.parse bodyBytes with
      | none => simp [hparse, valid_invalid] at h
      | some payload =>
        simp only [hparse] at h ⊢
        by_cases hlen : sigBytes.length ≠ 64
        · simp [if_pos hlen, valid_invalid] at h
        · simp only [if_neg hlen] at h ⊢
          refine ⟨payload, (verifyDecoded_valid h (rfl : o.keys = o.keys)).1, ?_⟩
          intro o' hkeys
          exact (verifyDecoded_valid h hkeys).2
    · simp [valid_invalid] at h

/-- A key is as genuine on one day as on another, with the same terms. -/
theorem verify_day (check : Bytes → Bytes → Bytes → Bool) (token : Bytes)
    (hkeys : o.keys = o'.keys) : (verify check token o).valid = (verify check token o').valid ∧
      ((verify check token o').valid = true →
        (verify check token o).license = (verify check token o').license) := by
  constructor
  · rw [Bool.eq_iff_iff]
    constructor
    · intro h
      obtain ⟨payload, -, hall⟩ := verify_valid h
      exact (hall o' hkeys).1
    · intro h
      obtain ⟨payload, -, hall⟩ := verify_valid h
      exact (hall o hkeys.symm).1
  · intro h
    obtain ⟨payload, -, hall⟩ := verify_valid h
    rw [(hall o hkeys.symm).2, (hall o' rfl).2]

theorem terms_day {today day : Bytes} {keys : List PublicKey} {p : Payload}
    (h : terms check key lease today keys = some p) : terms check key lease day keys = some p := by
  obtain ⟨hkey, hkeyLicense⟩ := @verify_day ⟨[], day, keys⟩ ⟨[], today, keys⟩ check key rfl
  obtain ⟨hlease, hleaseLicense⟩ := @verify_day ⟨[], day, keys⟩ ⟨[], today, keys⟩ check lease rfl
  unfold terms at h ⊢
  simp only at h ⊢
  rw [hkey, hlease]
  cases hvalid : (verify check key ⟨[], today, keys⟩).valid with
  | false => simp [hvalid] at h
  | true =>
    rw [hkeyLicense hvalid, ← h]
    cases hleaseValid : (verify check lease ⟨[], today, keys⟩).valid with
    | false => simp [hvalid]
    | true => rw [hleaseLicense hleaseValid, hvalid]

theorem check_eq_none {c : Prop} [Decidable c] {problem : String} {rest : Option String} :
    (if c then some problem else rest) = none ↔ ¬c ∧ rest = none := by
  split_ifs with hc
  · simp [hc]
  · simp [hc]

/-- The last paid day of a payload without a problem is a date. -/
theorem isDate_updatesUntil (h : payloadProblem payload = none) :
    isDate (payloadOf payload).updatesUntil = true := by
  unfold payloadProblem at h
  simp only [check_eq_none] at h
  obtain ⟨-, -, -, -, -, -, -, -, -, -, huntil, -⟩ := h
  simp only [Bool.not_eq_true', Bool.not_eq_false, stringIs, Option.any_eq_true] at huntil
  obtain ⟨text, htext, hdate⟩ := huntil
  simp only [payloadOf, str, htext, Option.getD_some]
  exact hdate

theorem isDate_of_valid (h : (verify check token o).valid = true) :
    isDate (verify check token o).license.updatesUntil = true := by
  obtain ⟨payload, hproblem, hall⟩ := verify_valid h
  rw [(hall o rfl).2]
  exact isDate_updatesUntil hproblem

theorem isDate_of_terms {today : Bytes} {keys : List PublicKey} {p : Payload}
    (h : terms check key lease today keys = some p) : isDate p.updatesUntil = true := by
  unfold terms at h
  simp only at h
  split_ifs at h with hbad hnone hrenewed
  · cases h
    simp only [Bool.or_eq_true, not_or, Bool.not_eq_true', Bool.not_eq_false] at hbad
    exact isDate_of_valid hbad.1
  · cases h
    simp only [Bool.and_eq_true] at hrenewed
    exact isDate_of_valid hrenewed.1.1.1.1
  · cases h
    simp only [Bool.or_eq_true, not_or, Bool.not_eq_true', Bool.not_eq_false] at hbad
    exact isDate_of_valid hbad.1

end Verify

section Grace

/-- What a monthly license is worth on a day, by the day that it is paid until. -/
structure Graced (status : StandingStatus) (last today : Day) : Prop where
  active : status = .active ↔ ∃ n, last = Day.next^[n] today
  pastDue : status = .pastDue ↔ ∃ n, 1 ≤ n ∧ n ≤ 14 ∧ today = Day.next^[n] last
  expired : status = .expired ↔ ∃ n, 15 ≤ n ∧ today = Day.next^[n] last

variable {u t : Day}

theorem notAfter_iff (hu : u.Valid) (ht : t.Valid) :
    (∃ n, u = Day.next^[n] t) ↔ t.code ≤ u.code := by
  constructor
  · rintro ⟨n, rfl⟩
    rcases Nat.eq_zero_or_pos n with rfl | hn
    · exact le_refl _
    · exact (Day.code_iterate_lt ht hn).le
  · intro h
    exact Day.exists_iterate ht hu h

theorem daysAfter_iff (hu : u.Valid) (ht : t.Valid) (k : ℕ) :
    (∃ n, k ≤ n ∧ t = Day.next^[n] u) ↔ (Day.next^[k] u).code ≤ t.code := by
  constructor
  · rintro ⟨n, hn, rfl⟩
    rcases hn.eq_or_lt with rfl | hn
    · exact le_refl _
    · exact (Day.code_iterate_lt hu hn).le
  · intro h
    obtain ⟨n, hn⟩ := Day.exists_iterate (hu.iterate k) ht h
    rw [← Function.iterate_add_apply] at hn
    exact ⟨n + k, by omega, hn⟩

theorem withinDays_iff (hu : u.Valid) (ht : t.Valid) (k : ℕ) :
    (∃ n, 1 ≤ n ∧ n ≤ k ∧ t = Day.next^[n] u) ↔
      u.code < t.code ∧ t.code < (Day.next^[k + 1] u).code := by
  constructor
  · rintro ⟨n, hn, hk, rfl⟩
    exact ⟨@Day.code_iterate_lt u hu 0 n hn, Day.code_iterate_lt hu (by omega)⟩
  · rintro ⟨hlt, hstop⟩
    obtain ⟨n, rfl⟩ := Day.exists_iterate hu ht hlt.le
    refine ⟨n, ?_, ?_, rfl⟩
    · by_contra hzero
      have hn : n = 0 := by omega
      rw [hn] at hlt
      exact lt_irrefl _ hlt
    · by_contra hover
      exact absurd hstop (not_lt.mpr ((daysAfter_iff hu ht (k + 1)).mp ⟨n, by omega, rfl⟩))

theorem graced_iff (hu : u.Valid) (ht : t.Valid) (status : StandingStatus) :
    Graced status u t ↔ status =
      if (Day.next^[15] u).code ≤ t.code then .expired else if u.code < t.code then .pastDue
      else .active := by
  have hlt := @Day.code_iterate_lt u hu 0 15 (by decide)
  rw [Function.iterate_zero_apply] at hlt
  constructor
  · rintro ⟨hactive, hpast, hexpired⟩
    rw [notAfter_iff hu ht] at hactive
    rw [withinDays_iff hu ht] at hpast
    rw [daysAfter_iff hu ht] at hexpired
    split_ifs with hover hafter
    · exact hexpired.mpr hover
    · exact hpast.mpr ⟨hafter, not_le.mp hover⟩
    · exact hactive.mpr (not_lt.mp hafter)
  · intro h
    have hactive := notAfter_iff hu ht
    have hpast := withinDays_iff hu ht 14
    have hexpired := daysAfter_iff hu ht 15
    generalize (Day.next^[15] u).code = stop at *
    rw [h]
    refine ⟨?_, ?_, ?_⟩
    · rw [hactive]
      split_ifs with hover hafter <;> simp <;> omega
    · rw [hpast]
      split_ifs with hover hafter <;> simp <;> omega
    · rw [hexpired]
      split_ifs with hover hafter <;> simp <;> omega

variable {p : Payload} {today day : Bytes}

theorem stopsOn_eq (h : isDate p.updatesUntil = true) :
    p.stopsOn = (Day.next^[15] (Day.ofText p.updatesUntil)).text ∧ p.stopsOn ≠ [] := by
  have htext : p.stopsOn = (Day.next^[15] (Day.ofText p.updatesUntil)).text := by
    unfold Payload.stopsOn addDays
    rw [if_pos h]
  refine ⟨htext, ?_⟩
  rw [htext, Day.text]
  simp

/-- The standing of a monthly license by two comparisons of texts. -/
theorem status_standing (hmonth : p.kind = ascii "month") (h : isDate p.updatesUntil = true) :
    (p.standing today).status =
      if today < p.stopsOn then if p.updatesUntil < today then .pastDue else .active
      else .expired := by
  unfold Payload.standing
  simp only [if_pos hmonth, (stopsOn_eq h).2, ne_eq, not_false_eq_true, true_and]
  split_ifs <;> rfl

theorem strictness_standing_mono (hmonth : p.kind = ascii "month")
    (h : isDate p.updatesUntil = true)
    (hle : ¬ day < today) :
    (p.standing today).status.strictness ≤ (p.standing day).status.strictness := by
  rw [status_standing hmonth h, status_standing hmonth h]
  by_cases hday : day < p.stopsOn
  · have htoday : today < p.stopsOn := List.lt_of_le_of_lt (List.not_lt.mp hle) hday
    rw [if_pos htoday, if_pos hday]
    by_cases hpast : p.updatesUntil < today
    · have hpast' : p.updatesUntil < day := by
        by_contra hnot
        exact hle (List.lt_of_le_of_lt (List.not_lt.mp hnot) hpast)
      rw [if_pos hpast, if_pos hpast']
    · rw [if_neg hpast]
      split_ifs <;> decide
  · rw [if_neg hday]
    split_ifs <;> decide

/-- The last day whose grace ends in a year of four digits. -/
theorem year_stop_lt_iff (h : isDate p.updatesUntil = true) :
    (Day.next^[15] (Day.ofText p.updatesUntil)).year < 10000 ↔
      ¬ ascii "9999-12-16" < p.updatesUntil := by
  obtain ⟨-, -, -, -, -, hvalid⟩ := isDate_iff.mp h
  have hdate : isDate (ascii "9999-12-16") = true := by decide
  have hofText : Day.ofText (ascii "9999-12-16") = ⟨9999, 12, 16⟩ := by decide
  have hlast : Day.Valid ⟨9999, 12, 16⟩ := ⟨by decide, by decide, by decide, by decide⟩
  have hstop := (hvalid.iterate 15).month_le
  have hstop31 := (hvalid.iterate 15).day_le_31
  rw [date_lt_iff hdate h, hofText]
  constructor
  · intro hyear hlater
    have hnext := Day.next_le hlast hvalid hlater
    have hmono := Day.code_iterate_mono hlast.next hvalid hnext 15
    have hnewYear :
        (Day.next^[15] (Day.next ⟨9999, 12, 16⟩)).code = (10000 * 13 + 1) * 32 + 1 := by decide
    rw [hnewYear] at hmono
    unfold Day.code at hmono
    omega
  · intro hnot
    have hmono := Day.code_iterate_mono hvalid hlast (not_lt.mp hnot) 15
    have hend : (Day.next^[15] ⟨9999, 12, 16⟩).code = (9999 * 13 + 12) * 32 + 31 := by decide
    rw [hend] at hmono
    unfold Day.code at hmono
    omega

/-- A monthly license is graced for fourteen days exactly when the text of its stop day has four
digits of a year, or the day is before the year 1001. -/
theorem graced_standing_iff (hmonth : p.kind = ascii "month") (h : isDate p.updatesUntil = true)
    (htoday : isDate today = true) :
    Graced (p.standing today).status (Day.ofText p.updatesUntil) (Day.ofText today) ↔
      ¬ ascii "9999-12-16" < p.updatesUntil ∨ (Day.ofText today).year ≤ 1000 := by
  obtain ⟨-, -, -, -, -, hu⟩ := isDate_iff.mp h
  obtain ⟨-, -, -, -, -, ht⟩ := isDate_iff.mp htoday
  have hyear := year_lt h
  have htyear := year_lt htoday
  have hstop := hu.iterate 15
  have htm := ht.month_le
  have ht31 := ht.day_le_31
  rw [graced_iff hu ht, status_standing hmonth h, (stopsOn_eq h).1, ← year_stop_lt_iff h]
  simp only [date_lt_iff h htoday]
  by_cases hfour : (Day.next^[15] (Day.ofText p.updatesUntil)).year < 10000
  · obtain ⟨hdate, hofText⟩ := isDate_text hstop hfour
    simp only [date_lt_iff htoday hdate, hofText]
    refine iff_of_true ?_ (.inl hfour)
    by_cases hover : (Day.ofText today).code < (Day.next^[15] (Day.ofText p.updatesUntil)).code
    · rw [if_pos hover, if_neg (not_le.mpr hover)]
    · rw [if_neg hover, if_pos (not_lt.mp hover)]
  · have hten : (Day.next^[15] (Day.ofText p.updatesUntil)).year = 10000 := by
      rcases Day.year_iterate_le (Day.ofText p.updatesUntil) (n := 15) (by decide) with
        hsame | ⟨k, -, heq⟩
      · omega
      · rw [heq] at hfour ⊢
        simp only at hfour ⊢
        omega
    have hbefore :
        ¬ (Day.next^[15] (Day.ofText p.updatesUntil)).code ≤ (Day.ofText today).code := by
      unfold Day.code
      omega
    simp only [lt_text_iff_of_year htoday hten, if_neg hbefore]
    by_cases hearly : (Day.ofText today).year ≤ 1000
    · rw [if_pos hearly]
      exact iff_of_true rfl (.inr hearly)
    · rw [if_neg hearly]
      refine iff_of_false ?_ ?_
      · split_ifs <;> decide
      · rintro (hc | hc)
        · exact hfour hc
        · exact hearly hc

end Grace

section Keys

/-- A status of a monthly license is right on a day, unless it is paid into the last half month of
the year 9999 and the year 1000 is over; and it never gets less strict as the days go by. -/
theorem grace_iff (check : Bytes → Bytes → Bytes → Bool) (key lease day : Bytes)
    (keys : List PublicKey) (p : Payload)
    (hkey : key ≠ []) (hp : terms check key lease day keys = some p)
    (hmonth : p.kind = ascii "month") : (∀ today stopsOn, isDate today = true →
      (Graced (standingFor check key lease [] stopsOn today keys).status (Day.ofText p.updatesUntil)
          (Day.ofText today) ↔
        ¬ ascii "9999-12-16" < p.updatesUntil ∨ (Day.ofText today).year ≤ 1000)) ∧
      ∀ today later stopsOn n, isDate today = true → isDate later = true →
        Day.ofText later = Day.next^[n] (Day.ofText today) →
          (standingFor check key lease [] stopsOn today keys).status.strictness ≤
            (standingFor check key lease [] stopsOn later keys).status.strictness := by
  have huntil := isDate_of_terms hp
  have hstatus : ∀ today stopsOn,
      (standingFor check key lease [] stopsOn today keys).status = (p.standing today).status := by
    intro today stopsOn
    exact standingFor_nil hkey (terms_day hp) stopsOn
  constructor
  · intro today stopsOn htoday
    rw [hstatus]
    exact graced_standing_iff hmonth huntil htoday
  · intro today later stopsOn n htoday hlater hn
    rw [hstatus, hstatus]
    apply strictness_standing_mono hmonth huntil
    obtain ⟨-, -, -, -, -, hvalid⟩ := isDate_iff.mp htoday
    obtain ⟨-, -, -, -, -, hvalid'⟩ := isDate_iff.mp hlater
    rw [date_lt_iff hlater htoday, not_lt]
    exact (notAfter_iff hvalid' hvalid).mp ⟨n, hn⟩

/-- A genuine monthly key that is paid until the end of 9999. -/
def farKey : Bytes :=
  ["ATL1.eyJ2IjoxLC", "JraWQiOiJrIiwia", "WQiOiJMIiwiY3Vz", "dG9tZXIiOiJjIiw", "icHJvZHVjdCI6In",
    "NlcnZlcnMiLCJwY", "WNrIjoiUyIsIm1h", "eF9zZXJ2ZXJzIjo", "xLCJraW5kIjoibW", "9udGgiLCJpc3N1Z",
    "WRfYXQiOiIyMDI2", "LTAxLTAxIiwidXB", "kYXRlc191bnRpbC", "I6Ijk5OTktMTItM", "zEifQ.qYMR1EYFL",
    "ZPGrwxt3Yeu-hzO", "BNgeBB8wLo64ANq", "lhOChZOv9YOjQrs", "3MAOYmk1MYZES6a", "wzMKtLsab_ePO71",
    "Ag"].flatMap ascii

def farKeys : List PublicKey := [⟨ascii "k", ascii "LO31YtH4B15rwyb3LHT1ujnjT983ulJg6F4YUYCKrTE"⟩]

/-- The signature check, for this key. -/
def farCheck (sig pub signed : Bytes) : Bool :=
  some sig = base64UrlDecode (farKey.drop (5 + 210 + 1)) &&
    (farKeys.map fun k => base64UrlDecode k.x) = [some pub] &&
    signed = farKey.take (5 + 210)

theorem farKey_terms :
    ∃ p, terms farCheck farKey [] [] farKeys = some p ∧ p.kind = ascii "month" ∧
    p.updatesUntil = ascii "9999-12-31" := by
  have hterms : (terms farCheck farKey [] [] farKeys).map (fun p => (p.kind, p.updatesUntil)) =
      some (ascii "month", ascii "9999-12-31") := by decide +kernel
  obtain ⟨p, hp, heq⟩ := Option.map_eq_some_iff.mp hterms
  rw [Prod.mk.injEq] at heq
  exact ⟨p, hp, heq⟩

/-- The key stops at once, more than seven thousand years before its end. -/
theorem farKey_expired :
    ∃ p, terms farCheck farKey [] [] farKeys = some p ∧ p.kind = ascii "month" ∧
      p.updatesUntil = ascii "9999-12-31" ∧
      (standingFor farCheck farKey [] [] [] (ascii "2026-10-01") farKeys).status = .expired ∧
      ¬ Graced (standingFor farCheck farKey [] [] [] (ascii "2026-10-01") farKeys).status
        (Day.ofText p.updatesUntil) (Day.ofText (ascii "2026-10-01")) := by
  obtain ⟨p, hp, hmonth, huntil⟩ := farKey_terms
  have hdate : isDate p.updatesUntil = true := by
    rw [huntil]
    decide
  have hstops : ¬ ascii "2026-10-01" < p.stopsOn := by
    unfold Payload.stopsOn
    rw [huntil]
    decide
  have hstatus :
      (standingFor farCheck farKey [] [] [] (ascii "2026-10-01") farKeys).status = .expired := by
    rw [standingFor_nil (by decide) (terms_day hp), status_standing hmonth hdate, if_neg hstops]
  refine ⟨p, hp, hmonth, huntil, hstatus, ?_⟩
  intro hgraced
  obtain ⟨n, -, hn⟩ := hgraced.expired.mp hstatus
  -- a day after the end of 9999 is not in the year 2026
  obtain ⟨-, -, -, -, -, hlast⟩ := isDate_iff.mp hdate
  have hle : (Day.ofText p.updatesUntil).code ≤ (Day.ofText (ascii "2026-10-01")).code := by
    rw [hn]
    exact (daysAfter_iff hlast (hlast.iterate n) 0).mp ⟨n, Nat.zero_le n, rfl⟩
  rw [huntil] at hle
  revert hle
  decide

/-- A key of the test vectors on the fifth day of its grace. -/
theorem grace_iff_monthKey :
    ∃ p, terms vectorCheck monthKey [] [] vectorKeys = some p ∧
    p.updatesUntil = ascii "2027-03-15" ∧
      Graced (standingFor vectorCheck monthKey [] [] [] (ascii "2027-03-20") vectorKeys).status
        (Day.ofText p.updatesUntil) (Day.ofText (ascii "2027-03-20")) := by
  obtain ⟨p, hlate, hmonth, huntil⟩ := monthKey_terms
  have hp : terms vectorCheck monthKey [] [] vectorKeys = some p := terms_day hlate
  refine ⟨p, hp, huntil, ?_⟩
  apply ((grace_iff vectorCheck monthKey [] [] vectorKeys p (by decide) hp hmonth).1
    (ascii "2027-03-20") [] (by decide)).mpr
  rw [huntil]
  exact .inl (by decide)

end Keys

end ReadyUp.License
