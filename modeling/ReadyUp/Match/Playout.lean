import ReadyUp.Match.MapDecision

/-!
# Playout

With playout on every round of a period is played: of regulation, and of each overtime.
`PlayoutRoundsLeft` and the test for a winner look at the same blocks with an arithmetic of their
own. Together they decide a map when a period ends with a lead, and when no period is left
(`settled_iff`, `playout_first_round`).
-/
namespace ReadyUp.Match

open ReadyUp.Support

section Periods

/-- A period is complete: regulation, or an overtime of two halves. -/
def PeriodEnds (ctx : MatchContext) (played : ℤ) : Prop :=
  played = ctx.maxRounds ∨
    ctx.overtimeEnabled = true ∧ ∃ k : ℤ, 1 ≤ k ∧
    played = ctx.maxRounds + k * (2 * ctx.overtimeSegments)

/-- A period ends with a lead, or no period is left and the score, the damage or the draw settles
it. -/
def Settled (ctx : MatchContext) (damage : ℤ × ℤ) (team1Score team2Score : ℤ) : Prop :=
  PeriodEnds ctx (team1Score + team2Score) ∧ team1Score ≠ team2Score ∨
    CapExhausted ctx (team1Score + team2Score) ∧ (team1Score ≠ team2Score ∨ ¬SuddenDeath ctx damage)

variable {ctx : MatchContext} {damage : ℤ × ℤ} {t1 t2 : ℤ}

theorem periodEnds_iff_mod (hseg : 1 ≤ ctx.overtimeSegments) (hot : ctx.overtimeEnabled = true)
    {played : ℤ} (h : ctx.maxRounds < played) :
    PeriodEnds ctx played ↔ (played - ctx.maxRounds) % (2 * ctx.overtimeSegments) = 0 := by
  constructor
  · rintro (heq | ⟨-, k, -, hk⟩)
    · omega
    · have hpast : played - ctx.maxRounds = k * (2 * ctx.overtimeSegments) := by omega
      rw [hpast]
      exact Int.mul_emod_left k _
  · intro hmod
    obtain ⟨k, hk⟩ := Int.dvd_of_emod_eq_zero hmod
    have hpos : 0 < k := by
      by_contra hneg
      have hle : 2 * ctx.overtimeSegments * k ≤ 0 :=
        mul_nonpos_of_nonneg_of_nonpos (by omega) (by omega)
      omega
    refine .inr ⟨hot, k, hpos, ?_⟩
    rw [mul_comm k]
    omega

theorem playoutRoundsLeft_iff (hrounds : 1 ≤ ctx.maxRounds) (hseg : 1 ≤ ctx.overtimeSegments)
    (h1 : 0 ≤ t1) (h2 : 0 ≤ t2) :
    playoutRoundsLeft ctx.maxRounds ctx.overtimeEnabled ctx.overtimeSegments ctx.maxOvertimes
      t1 t2 = true ↔ ¬PeriodEnds ctx (t1 + t2) ∧ ¬CapExhausted ctx (t1 + t2) := by
  unfold playoutRoundsLeft
  simp only [max_eq_right h1, max_eq_right h2, max_eq_right hrounds, max_eq_right hseg]
  rcases lt_trichotomy (t1 + t2) ctx.maxRounds with hlt | heq | hgt
  · rw [if_pos hlt]
    refine iff_of_true rfl ⟨?_, fun hcap => absurd hcap.1 (by omega)⟩
    rintro (heq | ⟨-, k, hk, heq⟩)
    · omega
    · have hblock : 0 ≤ k * (2 * ctx.overtimeSegments) := mul_nonneg (by omega) (by omega)
      omega
  · rw [if_neg (by omega), if_pos (.inl heq)]
    exact iff_of_false Bool.false_ne_true fun h => h.1 (.inl heq)
  · rw [if_neg (by omega)]
    cases hot : ctx.overtimeEnabled with
    | false =>
      rw [if_pos (.inr rfl)]
      exact iff_of_false Bool.false_ne_true fun h => h.2 ⟨hgt.le, .inl hot⟩
    | true =>
      rw [if_neg (by simp; omega)]
      have hcap : CapExhausted ctx (t1 + t2) ↔ 0 ≤ ctx.maxOvertimes ∧
          ctx.maxOvertimes * (2 * ctx.overtimeSegments) ≤ t1 + t2 - ctx.maxRounds := by
        unfold CapExhausted
        rw [hot]
        constructor
        · rintro ⟨-, hoff | ⟨hmax, hle⟩⟩
          · cases hoff
          · exact ⟨hmax, by omega⟩
        · rintro ⟨hmax, hle⟩
          exact ⟨hgt.le, .inr ⟨hmax, by omega⟩⟩
      rw [hcap, periodEnds_iff_mod hseg hot hgt]
      split_ifs with hover
      · exact iff_of_false id fun h => h.2 hover
      · simp [hover]

theorem roundsLeft_of_periodEnds {played : ℤ} (hseg : 1 ≤ ctx.overtimeSegments)
    (h : PeriodEnds ctx played) : roundsLeft ctx played = 0 := by
  rcases h with rfl | ⟨-, k, hk, rfl⟩
  · simp [roundsLeft]
  · have hpos : 0 < k * (2 * ctx.overtimeSegments) := mul_pos (by omega) (by omega)
    have hpast : ctx.maxRounds - (ctx.maxRounds + k * (2 * ctx.overtimeSegments)) =
        -k * (2 * ctx.overtimeSegments) := by ring
    rw [roundsLeft, if_neg (by omega), hpast]
    exact Int.mul_emod_left _ _

/-- The rounds left and the winner test meet at the ends of the periods. -/
theorem settled_iff (hrounds : 1 ≤ ctx.maxRounds) (hseg : 1 ≤ ctx.overtimeSegments) (h1 : 0 ≤ t1)
    (h2 : 0 ≤ t2) : Settled ctx damage t1 t2 ↔
      playoutRoundsLeft ctx.maxRounds ctx.overtimeEnabled ctx.overtimeSegments ctx.maxOvertimes t1
        t2 = false ∧ Over ctx damage t1 t2 := by
  rw [← Bool.not_eq_true, playoutRoundsLeft_iff hrounds hseg h1 h2]
  have hend : PeriodEnds ctx (t1 + t2) → (roundsLeft ctx (t1 + t2) < |t1 - t2| ↔ t1 ≠ t2) := by
    intro h
    rw [roundsLeft_of_periodEnds hseg h, abs_pos, sub_ne_zero]
  unfold Settled
  by_cases hcap : CapExhausted ctx (t1 + t2)
  · rw [over_of_cap hseg hcap]
    constructor
    · rintro (⟨-, hne⟩ | ⟨-, h⟩)
      · exact ⟨fun hc => hc.2 hcap, .inl hne⟩
      · exact ⟨fun hc => hc.2 hcap, h⟩
    · rintro ⟨-, h⟩
      exact .inr ⟨hcap, h⟩
  · rw [over_of_not_cap hcap]
    constructor
    · rintro (⟨hperiod, hne⟩ | ⟨hc, -⟩)
      · exact ⟨fun hc => hc.1 hperiod, (hend hperiod).mpr hne⟩
      · exact absurd hc hcap
    · rintro ⟨hnot, hlead⟩
      have hperiod : PeriodEnds ctx (t1 + t2) := by
        by_contra hin
        exact hnot ⟨hin, hcap⟩
      exact .inl ⟨hperiod, (hend hperiod).mp hlead⟩

end Periods

section Rounds

variable {ctx : MatchContext} {damage : ℕ → ℤ × ℤ} {wins : List Slot} {n : ℕ}

/-- A period ends with a lead after `n` of the rounds, or no period is left then. -/
def SettledAfter (ctx : MatchContext) (damage : ℕ → ℤ × ℤ) (wins : List Slot) (n : ℕ) : Prop :=
  Settled ctx (damage n) (score (wins.take n)).1 (score (wins.take n)).2

/-- The first round after which the map is settled. -/
structure FirstSettled (ctx : MatchContext) (damage : ℕ → ℤ × ℤ) (wins : List Slot)
    (n : ℕ) : Prop where
  pos : 1 ≤ n
  le : n ≤ wins.length
  settled : SettledAfter ctx damage wins n
  first : ∀ m, 1 ≤ m → m < n → ¬SettledAfter ctx damage wins m

theorem decidedAfter_playout (hrounds : 1 ≤ ctx.maxRounds) (hseg : 1 ≤ ctx.overtimeSegments)
    (wins : List Slot) (n : ℕ) (w : MapWinner) :
    decidedAfter ctx true damage wins n = some w ↔
      SettledAfter ctx damage wins n ∧ w = outcomeAfter ctx damage wins n := by
  obtain ⟨h1, h2⟩ := score_nonneg (wins.take n)
  have hleft : decidedAfter ctx true damage wins n =
      if playoutRoundsLeft ctx.maxRounds ctx.overtimeEnabled ctx.overtimeSegments ctx.maxOvertimes
          (score (wins.take n)).1 (score (wins.take n)).2 then none
      else determineMapWinnerIfComplete ctx false (damage n) (score (wins.take n)).1
        (score (wins.take n)).2 := by
    unfold decidedAfter determineMapWinnerIfComplete
    simp only [max_eq_right h1, max_eq_right h2, max_eq_right hrounds, Bool.true_and,
      Bool.false_and, Bool.false_eq_true, if_false]
  rw [hleft, determineMapWinnerIfComplete_eq hrounds hseg h1 h2, SettledAfter,
    settled_iff hrounds hseg h1 h2, outcomeAfter]
  split_ifs with hin hover
  · simp [hin]
  · simp [hin, hover, eq_comm]
  · simp [hover]

theorem firstDecided_playout (hrounds : 1 ≤ ctx.maxRounds) (hseg : 1 ≤ ctx.overtimeSegments)
    (wins : List Slot) (n : ℕ) (w : MapWinner) :
    FirstDecided ctx true damage wins n w ↔
      FirstSettled ctx damage wins n ∧ w = outcomeAfter ctx damage wins n := by
  have hnone :
      ∀ m, decidedAfter ctx true damage wins m = none ↔ ¬SettledAfter ctx damage wins m := by
    intro m
    rw [Option.eq_none_iff_forall_ne_some]
    constructor
    · intro h hm
      exact h _ ((decidedAfter_playout hrounds hseg wins m _).mpr ⟨hm, rfl⟩)
    · intro h v hv
      exact h ((decidedAfter_playout hrounds hseg wins m v).mp hv).1
  constructor
  · rintro ⟨hpos, hle, hdecided, hfirst⟩
    obtain ⟨hsettled, hw⟩ := (decidedAfter_playout hrounds hseg wins n w).mp hdecided
    exact ⟨⟨hpos, hle, hsettled, fun m hm hlt => (hnone m).mp (hfirst m hm hlt)⟩, hw⟩
  · rintro ⟨⟨hpos, hle, hsettled, hfirst⟩, hw⟩
    exact ⟨hpos, hle, (decidedAfter_playout hrounds hseg wins n w).mpr ⟨hsettled, hw⟩,
      fun m hm hlt => (hnone m).mpr (hfirst m hm hlt)⟩

/-- With playout on a map ends in the first round that completes a period with a lead, or after
which no period is left and the tie rules settle it; inside a period that is before the cap it never
ends. -/
theorem playout_first_round (ctx : MatchContext) (hrounds : 1 ≤ ctx.maxRounds)
    (hseg : 1 ≤ ctx.overtimeSegments)
    (byDefault : Bool) (hplayout : playoutOn ctx byDefault = true) (damage : ℕ → ℤ × ℤ)
    (wins : List Slot) :
    (∀ n w, (run (MapRun.roundWon ctx (playoutOn ctx byDefault) damage) {} wins).result =
      some (n, w) ↔ FirstSettled ctx damage wins n ∧ w = outcomeAfter ctx damage wins n) ∧
    ∀ n, n ≤ wins.length → ¬PeriodEnds ctx n → ¬CapExhausted ctx n →
      decidedAfter ctx (playoutOn ctx byDefault) damage wins n = none := by
  rw [hplayout]
  constructor
  · intro n w
    rw [run_roundWon_result, firstDecided_playout hrounds hseg]
  · intro n hn hperiod hcap
    cases hd : decidedAfter ctx true damage wins n with
    | none => rfl
    | some w =>
      have hsum := score_add (wins.take n)
      rw [List.length_take_of_le hn] at hsum
      rcases ((decidedAfter_playout hrounds hseg wins n w).mp hd).1 with ⟨hend, -⟩ | ⟨hend, -⟩
      · exact absurd (hsum ▸ hend) hperiod
      · exact absurd (hsum ▸ hend) hcap

/-- A lead of three in a map of four rounds goes on to the fourth. -/
theorem playout_first_round_of_four :
    FirstSettled { maxRounds := 4, overtimeEnabled := true, playout := 1 } (fun _ => (0, 0))
        [.team1, .team1, .team1, .team2] 4 ∧
      MapWinner.team1 = outcomeAfter { maxRounds := 4, overtimeEnabled := true, playout := 1 }
        (fun _ => (0, 0)) [.team1, .team1, .team1, .team2] 4 :=
  ((playout_first_round { maxRounds := 4, overtimeEnabled := true, playout := 1 } (by decide)
    (by decide) false rfl (fun _ => (0, 0)) [.team1, .team1, .team1, .team2]).1 4 .team1).mp rfl

end Rounds

end ReadyUp.Match
