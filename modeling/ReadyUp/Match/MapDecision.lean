import Mathlib.Data.List.Induction
import Mathlib.Tactic.Linarith
import Mathlib.Tactic.Ring
import ReadyUp.Match.Context
import ReadyUp.Support.Runs

/-!
# When a map is decided

`determineMapWinnerIfComplete` sees a score and nothing else: regulation targets, the block
a round belongs to, the overtime cap and the tie rules are separate formulas. What they
decide together is simple. A map is over when the lead cannot be caught up in the rounds
left of the current period, or when no period is left; `Over` says this without targets or
block numbers, and the code agrees with it at every score.
-/
namespace ReadyUp.Match

open ReadyUp.Support

inductive MapWinner where
  | team1
  | team2
  | none
  deriving DecidableEq, Repr

/-- `PlayoutRoundsLeft` of `match_rules.cpp`. -/
def playoutRoundsLeft (maxRounds : ℤ) (overtimeEnabled : Bool)
    (overtimeSegments maxOvertimes team1Score team2Score : ℤ) : Bool :=
  let maxRounds := max 1 maxRounds
  let sum := max 0 team1Score + max 0 team2Score
  if sum < maxRounds then true
  else if sum = maxRounds ∨ overtimeEnabled = false then false
  else
    let block := 2 * max 1 overtimeSegments
    let past := sum - maxRounds
    if 0 ≤ maxOvertimes ∧ maxOvertimes * block ≤ past then false
    else decide (past % block ≠ 0)

def winnerByDamage (ctx : MatchContext) (damage : ℤ × ℤ) : Option MapWinner :=
  if !ctx.damageTiebreakEnabled then none
  else if damage.1 > damage.2 then some .team1
  else if damage.2 > damage.1 then some .team2
  else none

/-- What both ends of the line do, without overtime and at the overtime cap: the leader, the
damage leader, one more round, or a draw. -/
def resolveAtCap (ctx : MatchContext) (damage : ℤ × ℤ) (team1Score team2Score : ℤ) :
    Option MapWinner :=
  if team1Score ≠ team2Score then some (if team1Score > team2Score then .team1 else .team2)
  else
    match winnerByDamage ctx damage with
    | some w => some w
    | none =>
      if ctx.damageTiebreakEnabled && ctx.suddenDeathOnDamageTie then none else some .none

/-- `damage` is what `GetRosterTeamDamageTotals` returns at the time of the call. -/
def determineMapWinnerIfComplete (ctx : MatchContext) (playout : Bool) (damage : ℤ × ℤ)
    (team1Score team2Score : ℤ) : Option MapWinner :=
  let team1Score := max 0 team1Score
  let team2Score := max 0 team2Score
  let maxRounds := max 1 ctx.maxRounds
  let winTargetReg := maxRounds / 2 + 1
  let sum := team1Score + team2Score
  if playout && playoutRoundsLeft maxRounds ctx.overtimeEnabled ctx.overtimeSegments
      ctx.maxOvertimes team1Score team2Score then none
  else if sum ≤ maxRounds ∧ team1Score ≥ winTargetReg ∧ team1Score ≠ team2Score then some .team1
  else if sum ≤ maxRounds ∧ team2Score ≥ winTargetReg ∧ team1Score ≠ team2Score then some .team2
  else if sum < maxRounds then none
  else if ctx.overtimeEnabled = false then resolveAtCap ctx damage team1Score team2Score
  else
    let seg := max 1 ctx.overtimeSegments
    let roundsPastReg := max 0 (sum - maxRounds)
    let blockSize := 2 * seg
    if blockSize ≤ 0 then none
    else if 0 ≤ ctx.maxOvertimes ∧ roundsPastReg ≥ ctx.maxOvertimes * blockSize then
      resolveAtCap ctx damage team1Score team2Score
    else if team1Score ≠ team2Score then
      let blockIndex := if roundsPastReg > 0 then (roundsPastReg - 1) / blockSize else 0
      let tieStart := maxRounds / 2 + blockIndex * seg
      let winTargetOt := tieStart + seg + 1
      if team1Score ≥ winTargetOt then some .team1
      else if team2Score ≥ winTargetOt then some .team2
      else none
    else none

/-! ## The rule -/

/-- Rounds left in the current period: regulation, then overtimes of two halves each. -/
def roundsLeft (ctx : MatchContext) (played : ℤ) : ℤ :=
  if played ≤ ctx.maxRounds then ctx.maxRounds - played
  else (ctx.maxRounds - played) % (2 * ctx.overtimeSegments)

/-- No further period is played: regulation is over without overtime, or the last
overtime is. -/
def CapExhausted (ctx : MatchContext) (played : ℤ) : Prop :=
  ctx.maxRounds ≤ played ∧
    (ctx.overtimeEnabled = false ∨
      0 ≤ ctx.maxOvertimes ∧
        ctx.maxRounds + ctx.maxOvertimes * (2 * ctx.overtimeSegments) ≤ played)

/-- A tie on rounds and on damage goes on, one round at a time. -/
def SuddenDeath (ctx : MatchContext) (damage : ℤ × ℤ) : Prop :=
  ctx.damageTiebreakEnabled = true ∧ ctx.suddenDeathOnDamageTie = true ∧ damage.1 = damage.2

/-- The map is over: the lead exceeds the rounds left, or no period is left and the score,
the damage or the draw settles it. -/
def Over (ctx : MatchContext) (damage : ℤ × ℤ) (team1Score team2Score : ℤ) : Prop :=
  roundsLeft ctx (team1Score + team2Score) < |team1Score - team2Score| ∨
    CapExhausted ctx (team1Score + team2Score) ∧
      (team1Score ≠ team2Score ∨ ¬SuddenDeath ctx damage)

def outcome (ctx : MatchContext) (damage : ℤ × ℤ) (team1Score team2Score : ℤ) : MapWinner :=
  if team2Score < team1Score then .team1
  else if team1Score < team2Score then .team2
  else (winnerByDamage ctx damage).getD .none

instance (ctx : MatchContext) (played : ℤ) : Decidable (CapExhausted ctx played) :=
  inferInstanceAs (Decidable (_ ∧ _))

instance (ctx : MatchContext) (damage : ℤ × ℤ) : Decidable (SuddenDeath ctx damage) :=
  inferInstanceAs (Decidable (_ ∧ _))

instance (ctx : MatchContext) (damage : ℤ × ℤ) (team1Score team2Score : ℤ) :
    Decidable (Over ctx damage team1Score team2Score) := inferInstanceAs (Decidable (_ ∨ _))

/-! ## The code agrees with the rule -/

section Agreement

variable {ctx : MatchContext} {damage : ℤ × ℤ} {t1 t2 : ℤ}

theorem resolveAtCap_eq (ctx : MatchContext) (damage : ℤ × ℤ) (t1 t2 : ℤ) :
    resolveAtCap ctx damage t1 t2 =
      if t1 ≠ t2 ∨ ¬SuddenDeath ctx damage then some (outcome ctx damage t1 t2) else none := by
  unfold resolveAtCap outcome
  by_cases heq : t1 = t2
  · subst heq
    rcases lt_trichotomy damage.1 damage.2 with hd | hd | hd
    · cases hdt : ctx.damageTiebreakEnabled <;>
        simp [winnerByDamage, SuddenDeath, hdt, hd, hd.ne, not_lt.mpr hd.le]
    · cases hdt : ctx.damageTiebreakEnabled <;> cases hsd : ctx.suddenDeathOnDamageTie <;>
        simp [winnerByDamage, SuddenDeath, hdt, hsd, hd]
    · cases hdt : ctx.damageTiebreakEnabled <;>
        simp [winnerByDamage, SuddenDeath, hdt, hd, hd.ne']
  · rcases lt_or_gt_of_ne heq with hlt | hlt
    · simp [heq, hlt, not_lt.mpr hlt.le]
    · simp [heq, hlt]

/-- In regulation a clinch is more than half of the rounds. -/
theorem clinch_regulation (h : t1 + t2 ≤ ctx.maxRounds) :
    roundsLeft ctx (t1 + t2) < |t1 - t2| ↔
      ctx.maxRounds / 2 + 1 ≤ t1 ∨ ctx.maxRounds / 2 + 1 ≤ t2 := by
  rw [roundsLeft, if_pos h, lt_abs]
  omega

/-- The round that was just played belongs to the overtime whose end comes next. -/
theorem roundsLeft_overtime (hseg : 1 ≤ ctx.overtimeSegments) {played : ℤ}
    (h : ctx.maxRounds < played) :
    roundsLeft ctx played =
      ctx.maxRounds + ((played - ctx.maxRounds - 1) / (2 * ctx.overtimeSegments) + 1) *
        (2 * ctx.overtimeSegments) - played := by
  set block := 2 * ctx.overtimeSegments with hblock
  have hpos : 0 < block := by omega
  set past := played - ctx.maxRounds - 1 with hpast
  have hdiv := Int.emod_add_mul_ediv past block
  have hlo := Int.emod_nonneg past hpos.ne'
  have hhi := Int.emod_lt_of_pos past hpos
  have hleft : ctx.maxRounds + (past / block + 1) * block - played =
      block - 1 - past % block := by
    have : (past / block + 1) * block = block * (past / block) + block := by ring
    omega
  have hmod : (ctx.maxRounds - played) % block = block - 1 - past % block := by
    have hsplit : ctx.maxRounds - played =
        (block - 1 - past % block) + block * (-(past / block) - 1) := by
      have : block * (-(past / block) - 1) = -(block * (past / block)) - block := by ring
      omega
    rw [hsplit, Int.add_mul_emod_self_left, Int.emod_eq_of_lt (by omega) (by omega)]
  rw [roundsLeft, if_neg (by omega), hmod, hleft]

/-- In overtime a clinch is the code's target for the block. -/
theorem clinch_overtime (hseg : 1 ≤ ctx.overtimeSegments) (h : ctx.maxRounds < t1 + t2) :
    roundsLeft ctx (t1 + t2) < |t1 - t2| ↔
      (ctx.maxRounds / 2 + (t1 + t2 - ctx.maxRounds - 1) / (2 * ctx.overtimeSegments) *
          ctx.overtimeSegments + ctx.overtimeSegments + 1 ≤ t1 ∨
        ctx.maxRounds / 2 + (t1 + t2 - ctx.maxRounds - 1) / (2 * ctx.overtimeSegments) *
          ctx.overtimeSegments + ctx.overtimeSegments + 1 ≤ t2) := by
  rw [roundsLeft_overtime hseg h, lt_abs]
  set block := (t1 + t2 - ctx.maxRounds - 1) / (2 * ctx.overtimeSegments)
  have : (block + 1) * (2 * ctx.overtimeSegments) =
      2 * (block * ctx.overtimeSegments) + 2 * ctx.overtimeSegments := by ring
  omega

theorem roundsLeft_nonneg (hseg : 1 ≤ ctx.overtimeSegments) (played : ℤ) :
    0 ≤ roundsLeft ctx played := by
  unfold roundsLeft
  split_ifs
  · omega
  · exact Int.emod_nonneg _ (by omega)

theorem over_of_cap (hseg : 1 ≤ ctx.overtimeSegments) (hcap : CapExhausted ctx (t1 + t2)) :
    Over ctx damage t1 t2 ↔ t1 ≠ t2 ∨ ¬SuddenDeath ctx damage := by
  constructor
  · rintro (hlead | ⟨-, h⟩)
    · have hleft := roundsLeft_nonneg hseg (t1 + t2)
      have hne : t1 - t2 ≠ 0 := abs_pos.mp (hleft.trans_lt hlead)
      exact .inl fun heq => hne (by omega)
    · exact h
  · exact fun h => .inr ⟨hcap, h⟩

theorem over_of_not_cap (hcap : ¬CapExhausted ctx (t1 + t2)) :
    Over ctx damage t1 t2 ↔ roundsLeft ctx (t1 + t2) < |t1 - t2| := by
  unfold Over
  tauto

/-- At every score the code returns a winner exactly when the map is over. -/
theorem determineMapWinnerIfComplete_eq (hrounds : 1 ≤ ctx.maxRounds)
    (hseg : 1 ≤ ctx.overtimeSegments) (h1 : 0 ≤ t1) (h2 : 0 ≤ t2) :
    determineMapWinnerIfComplete ctx false damage t1 t2 =
      if Over ctx damage t1 t2 then some (outcome ctx damage t1 t2) else none := by
  unfold determineMapWinnerIfComplete
  simp only [max_eq_right h1, max_eq_right h2, max_eq_right hrounds, max_eq_right hseg,
    Bool.false_and, Bool.false_eq_true, if_false]
  by_cases hreg : t1 + t2 ≤ ctx.maxRounds ∧
      (ctx.maxRounds / 2 + 1 ≤ t1 ∨ ctx.maxRounds / 2 + 1 ≤ t2)
  · -- a regulation win
    have hover : Over ctx damage t1 t2 := .inl ((clinch_regulation hreg.1).mpr hreg.2)
    rw [if_pos hover, outcome]
    obtain ⟨hsum, hwon | hwon⟩ := hreg
    · have hlt : t2 < t1 := by omega
      rw [if_pos ⟨hsum, hwon, by omega⟩, if_pos hlt]
    · have hlt : t1 < t2 := by omega
      rw [if_neg (by omega), if_pos ⟨hsum, hwon, by omega⟩, if_neg (by omega), if_pos hlt]
  rw [if_neg fun h => hreg ⟨h.1, .inl h.2.1⟩, if_neg fun h => hreg ⟨h.1, .inr h.2.1⟩]
  have hclinch : t1 + t2 ≤ ctx.maxRounds → ¬roundsLeft ctx (t1 + t2) < |t1 - t2| := fun hsum h =>
    hreg ⟨hsum, (clinch_regulation hsum).mp h⟩
  by_cases hsum : t1 + t2 < ctx.maxRounds
  · have hnot : ¬Over ctx damage t1 t2 := by
      rw [over_of_not_cap fun hcap => by have := hcap.1; omega]
      exact hclinch hsum.le
    rw [if_pos hsum, if_neg hnot]
  rw [if_neg hsum]
  have hpast : max 0 (t1 + t2 - ctx.maxRounds) = t1 + t2 - ctx.maxRounds := max_eq_right (by omega)
  by_cases hot : ctx.overtimeEnabled = false
  · rw [if_pos hot, resolveAtCap_eq]
    exact if_congr (over_of_cap hseg ⟨by omega, .inl hot⟩).symm rfl rfl
  rw [if_neg hot, hpast, if_neg (by omega)]
  by_cases hcap : 0 ≤ ctx.maxOvertimes ∧
      t1 + t2 - ctx.maxRounds ≥ ctx.maxOvertimes * (2 * ctx.overtimeSegments)
  · have hexhausted : CapExhausted ctx (t1 + t2) := ⟨by omega, .inr ⟨hcap.1, by linarith [hcap.2]⟩⟩
    rw [if_pos hcap, resolveAtCap_eq]
    exact if_congr (over_of_cap hseg hexhausted).symm rfl rfl
  have hleft : ¬CapExhausted ctx (t1 + t2) := by
    rintro ⟨-, hoff | ⟨hmax, hle⟩⟩
    · exact hot hoff
    · exact hcap ⟨hmax, by linarith⟩
  rw [if_neg hcap, if_congr (over_of_not_cap hleft) rfl rfl]
  by_cases hend : t1 + t2 ≤ ctx.maxRounds
  · -- a tie after regulation, with overtime to come
    have htie : t1 = t2 := by omega
    rw [if_neg (hclinch hend), if_neg (not_not.mpr htie)]
  · rw [if_pos (by omega : t1 + t2 - ctx.maxRounds > 0),
      if_congr (clinch_overtime hseg (by omega)) rfl rfl, outcome]
    have hblock : 0 ≤ (t1 + t2 - ctx.maxRounds - 1) / (2 * ctx.overtimeSegments) *
        ctx.overtimeSegments :=
      mul_nonneg (Int.ediv_nonneg (by omega) (by omega)) (by omega)
    have hend := roundsLeft_overtime hseg (show ctx.maxRounds < t1 + t2 by omega)
    have hnonneg := roundsLeft_nonneg hseg (t1 + t2)
    set block := (t1 + t2 - ctx.maxRounds - 1) / (2 * ctx.overtimeSegments)
    have hsplit : (block + 1) * (2 * ctx.overtimeSegments) =
        2 * (block * ctx.overtimeSegments) + 2 * ctx.overtimeSegments := by ring
    split_ifs <;> first | rfl | omega

end Agreement

/-! ## A map, round by round -/

/-- The score after some rounds, from 0-0. -/
def score (wins : List Slot) : ℤ × ℤ := (wins.count .team1, wins.count .team2)

/-- What `OnMatchRoundEnded` has seen of a map, and the round and winner it has emitted. -/
structure MapRun where
  team1Score : ℤ := 0
  team2Score : ℤ := 0
  rounds : ℕ := 0
  result : Option (ℕ × MapWinner) := none
  deriving DecidableEq, Repr

def Slot.winner : Slot → MapWinner
  | .team1 => .team1
  | .team2 => .team2

/-- A round is won. Once the result of the map is out, later rounds are not looked at. -/
def MapRun.roundWon (ctx : MatchContext) (playout : Bool) (damage : ℕ → ℤ × ℤ) (m : MapRun)
    (winner : Slot) : MapRun :=
  let team1Score := if winner = .team1 then m.team1Score + 1 else m.team1Score
  let team2Score := if winner = .team2 then m.team2Score + 1 else m.team2Score
  let rounds := m.rounds + 1
  { team1Score, team2Score, rounds
    result :=
      match m.result with
      | some r => some r
      | none =>
        (determineMapWinnerIfComplete ctx playout (damage rounds) team1Score team2Score).map
          (rounds, ·) }

/-- The map is over after `n` of the rounds. -/
def OverAfter (ctx : MatchContext) (damage : ℕ → ℤ × ℤ) (wins : List Slot) (n : ℕ) : Prop :=
  Over ctx (damage n) (score (wins.take n)).1 (score (wins.take n)).2

/-- Who wins if the map is over after `n` of the rounds. -/
def outcomeAfter (ctx : MatchContext) (damage : ℕ → ℤ × ℤ) (wins : List Slot) (n : ℕ) : MapWinner :=
  outcome ctx (damage n) (score (wins.take n)).1 (score (wins.take n)).2

/-- The first round after which the map is over. -/
structure FirstOver (ctx : MatchContext) (damage : ℕ → ℤ × ℤ) (wins : List Slot) (n : ℕ) :
    Prop where
  pos : 1 ≤ n
  le : n ≤ wins.length
  isOver : OverAfter ctx damage wins n
  first : ∀ m, 1 ≤ m → m < n → ¬OverAfter ctx damage wins m

section Rounds

variable {ctx : MatchContext} {damage : ℕ → ℤ × ℤ}

theorem score_append (wins : List Slot) (w : Slot) :
    score (wins ++ [w]) =
      (if w = .team1 then (score wins).1 + 1 else (score wins).1,
        if w = .team2 then (score wins).2 + 1 else (score wins).2) := by
  cases w <;> simp [score]

theorem run_roundWon_score (playout : Bool) (wins : List Slot) :
    (run (MapRun.roundWon ctx playout damage) {} wins).team1Score = (score wins).1 ∧
      (run (MapRun.roundWon ctx playout damage) {} wins).team2Score = (score wins).2 ∧
      (run (MapRun.roundWon ctx playout damage) {} wins).rounds = wins.length := by
  induction wins using List.reverseRecOn with
  | nil => simp [score]
  | append_singleton wins w ih =>
    obtain ⟨h1, h2, h3⟩ := ih
    simp [MapRun.roundWon, score_append, h1, h2, h3]

theorem FirstOver.unique {wins : List Slot} {n m : ℕ} (hn : FirstOver ctx damage wins n)
    (hm : FirstOver ctx damage wins m) : n = m := by
  rcases lt_trichotomy n m with h | h | h
  · exact absurd hn.isOver (hm.first n hn.pos h)
  · exact h
  · exact absurd hm.isOver (hn.first m hm.pos h)

theorem score_nonneg (wins : List Slot) : 0 ≤ (score wins).1 ∧ 0 ≤ (score wins).2 := by
  simp [score]

theorem score_add (wins : List Slot) : (score wins).1 + (score wins).2 = wins.length := by
  induction wins using List.reverseRecOn with
  | nil => rfl
  | append_singleton wins w ih =>
    rw [score_append]
    cases w <;> simp <;> omega

/-- What the code says of the score after `n` of the rounds. -/
def decidedAfter (ctx : MatchContext) (playout : Bool) (damage : ℕ → ℤ × ℤ)
    (wins : List Slot) (n : ℕ) : Option MapWinner :=
  determineMapWinnerIfComplete ctx playout (damage n) (score (wins.take n)).1
    (score (wins.take n)).2

/-- The result is that of the first round after which the code decides. -/
structure FirstDecided (ctx : MatchContext) (playout : Bool) (damage : ℕ → ℤ × ℤ)
    (wins : List Slot) (n : ℕ) (w : MapWinner) : Prop where
  pos : 1 ≤ n
  le : n ≤ wins.length
  decided : decidedAfter ctx playout damage wins n = some w
  first : ∀ m, 1 ≤ m → m < n → decidedAfter ctx playout damage wins m = none

theorem decidedAfter_append {playout : Bool} {wins : List Slot} (w : Slot) {n : ℕ}
    (h : n ≤ wins.length) :
    decidedAfter ctx playout damage (wins ++ [w]) n = decidedAfter ctx playout damage wins n := by
  unfold decidedAfter
  rw [List.take_append_of_le_length h]

theorem roundWon_result {playout : Bool} (wins : List Slot) (w : Slot) :
    (run (MapRun.roundWon ctx playout damage) {} (wins ++ [w])).result =
      ((run (MapRun.roundWon ctx playout damage) {} wins).result).or
        ((decidedAfter ctx playout damage (wins ++ [w]) (wins.length + 1)).map
          (wins.length + 1, ·)) := by
  obtain ⟨h1, h2, h3⟩ := @run_roundWon_score ctx damage playout wins
  have htake : (wins ++ [w]).take (wins.length + 1) = wins ++ [w] :=
    List.take_of_length_le (by simp)
  rw [run_append, run_cons, run_nil, MapRun.roundWon, decidedAfter, htake, score_append]
  simp only [h1, h2, h3]
  cases (run (MapRun.roundWon ctx playout damage) {} wins).result with
  | none => rfl
  | some r => rfl

theorem run_roundWon_result {playout : Bool} (wins : List Slot) (n : ℕ) (w : MapWinner) :
    (run (MapRun.roundWon ctx playout damage) {} wins).result = some (n, w) ↔
      FirstDecided ctx playout damage wins n w := by
  induction wins using List.reverseRecOn generalizing n w with
  | nil =>
    refine iff_of_false (by simp) ?_
    intro h
    have hpos := h.pos
    have hle := h.le
    rw [List.length_nil] at hle
    omega
  | append_singleton wins x ih =>
    have hlen : (wins ++ [x]).length = wins.length + 1 := by simp
    rw [roundWon_result]
    cases hr : (run (MapRun.roundWon ctx playout damage) {} wins).result with
    | some r =>
      obtain ⟨m, v⟩ := r
      have hm := (ih m v).mp hr
      have hsame :
          decidedAfter ctx playout damage (wins ++ [x]) m =
            decidedAfter ctx playout damage wins m :=
        decidedAfter_append x hm.le
      rw [Option.some_or, Option.some.injEq, Prod.mk.injEq]
      constructor
      · rintro ⟨rfl, rfl⟩
        refine ⟨hm.pos, by have := hm.le; omega, hsame.trans hm.decided, ?_⟩
        intro k hk hlt
        rw [decidedAfter_append x (by have := hm.le; omega)]
        exact hm.first k hk hlt
      · rintro ⟨hpos, hle, hdecided, hfirst⟩
        rcases lt_trichotomy m n with hlt | rfl | hlt
        · have hnone := hfirst m hm.pos hlt
          rw [hsame, hm.decided] at hnone
          cases hnone
        · rw [hsame, hm.decided] at hdecided
          exact ⟨rfl, Option.some.inj hdecided⟩
        · have hnone := hm.first n hpos hlt
          rw [← decidedAfter_append x (by have := hm.le; omega), hdecided] at hnone
          cases hnone
    | none =>
      have hbefore :
          ∀ m, 1 ≤ m → m ≤ wins.length → decidedAfter ctx playout damage wins m = none := by
        intro m
        induction m using Nat.strong_induction_on with
        | _ m hearlier =>
          intro hpos hle
          cases hd : decidedAfter ctx playout damage wins m with
          | none => rfl
          | some v =>
            have hfirst : FirstDecided ctx playout damage wins m v :=
              ⟨hpos, hle, hd, fun k hk hlt => hearlier k hlt hk (by omega)⟩
            rw [(ih m v).mpr hfirst] at hr
            cases hr
      rw [Option.none_or, Option.map_eq_some_iff]
      constructor
      · rintro ⟨v, hv, heq⟩
        rw [Prod.mk.injEq] at heq
        obtain ⟨rfl, rfl⟩ := heq
        refine ⟨by omega, by omega, hv, ?_⟩
        intro k hk hlt
        rw [decidedAfter_append x (by omega)]
        exact hbefore k hk (by omega)
      · rintro ⟨hpos, hle, hdecided, hfirst⟩
        rcases Nat.lt_or_ge wins.length n with h | h
        · obtain rfl : n = wins.length + 1 := by omega
          exact ⟨w, hdecided, rfl⟩
        · rw [decidedAfter_append x h, hbefore n hpos h] at hdecided
          cases hdecided

/-- Without playout the code decides after the first round after which the map is over. -/
theorem firstDecided_iff (hrounds : 1 ≤ ctx.maxRounds) (hseg : 1 ≤ ctx.overtimeSegments)
    (wins : List Slot) (n : ℕ) (w : MapWinner) :
    FirstDecided ctx false damage wins n w ↔
      FirstOver ctx damage wins n ∧ w = outcomeAfter ctx damage wins n := by
  classical
  have hrule : ∀ m, decidedAfter ctx false damage wins m =
      if OverAfter ctx damage wins m then some (outcomeAfter ctx damage wins m) else none := by
    intro m
    obtain ⟨h1, h2⟩ := score_nonneg (wins.take m)
    rw [decidedAfter, determineMapWinnerIfComplete_eq hrounds hseg h1 h2, OverAfter, outcomeAfter]
    congr
  constructor
  · rintro ⟨hpos, hle, hdecided, hfirst⟩
    rw [hrule] at hdecided
    split_ifs at hdecided with hover
    refine ⟨⟨hpos, hle, hover, ?_⟩, (Option.some.inj hdecided).symm⟩
    intro m hm hlt hm'
    have hnone := hfirst m hm hlt
    rw [hrule, if_pos hm'] at hnone
    cases hnone
  · rintro ⟨⟨hpos, hle, hover, hfirst⟩, rfl⟩
    refine ⟨hpos, hle, by rw [hrule, if_pos hover], ?_⟩
    intro m hm hlt
    rw [hrule, if_neg (hfirst m hm hlt)]

/-- What a result says of the rounds: that none of them has ended the map, or which one did first
and for whom. -/
def Reports (ctx : MatchContext) (damage : ℕ → ℤ × ℤ) (wins : List Slot) :
    Option (ℕ × MapWinner) → Prop
  | none => ∀ n, 1 ≤ n → n ≤ wins.length → ¬OverAfter ctx damage wins n
  | some (n, w) => FirstOver ctx damage wins n ∧ w = outcomeAfter ctx damage wins n

theorem Reports.some_iff {wins : List Slot} {r : Option (ℕ × MapWinner)}
    (h : Reports ctx damage wins r) (n : ℕ) (w : MapWinner) :
    r = some (n, w) ↔ FirstOver ctx damage wins n ∧ w = outcomeAfter ctx damage wins n := by
  constructor
  · rintro rfl
    exact h
  · rintro ⟨hfirst, rfl⟩
    cases r with
    | none => exact absurd hfirst.isOver (h n hfirst.pos hfirst.le)
    | some r =>
      obtain ⟨m, w⟩ := r
      obtain ⟨hm, rfl⟩ := h
      rw [hm.unique hfirst]

theorem run_roundWon_reports (hrounds : 1 ≤ ctx.maxRounds) (hseg : 1 ≤ ctx.overtimeSegments)
    (wins : List Slot) :
    Reports ctx damage wins (run (MapRun.roundWon ctx false damage) {} wins).result := by
  have hresult : ∀ n w, (run (MapRun.roundWon ctx false damage) {} wins).result = some (n, w) ↔
      FirstOver ctx damage wins n ∧ w = outcomeAfter ctx damage wins n := by
    intro n w
    rw [run_roundWon_result, firstDecided_iff hrounds hseg]
  cases hr : (run (MapRun.roundWon ctx false damage) {} wins).result with
  | some r => exact (hresult r.1 r.2).mp hr
  | none =>
    intro n
    induction n using Nat.strong_induction_on with
    | _ n hearlier =>
      intro hpos hle hover
      have hfirst : FirstOver ctx damage wins n :=
        ⟨hpos, hle, hover, fun m hm hlt => hearlier m hlt hm (by omega)⟩
      rw [(hresult n _).mpr ⟨hfirst, rfl⟩] at hr
      cases hr

/-- Past the cap a round that leaves the map open is a tie on rounds and damage, and the
next round ends it for the team that wins it. -/
theorem firstOver_sudden_death (hrounds : 1 ≤ ctx.maxRounds) (hseg : 1 ≤ ctx.overtimeSegments)
    {wins : List Slot} {n : ℕ} {w : Slot} (hw : wins[n]? = some w) (hcap : CapExhausted ctx n)
    (hopen : ∀ m, 1 ≤ m → m ≤ n → ¬OverAfter ctx damage wins m) :
    FirstOver ctx damage wins (n + 1) ∧ outcomeAfter ctx damage wins (n + 1) = w.winner := by
  obtain ⟨hn, hget⟩ := List.getElem?_eq_some_iff.mp hw
  have htake : wins.take (n + 1) = wins.take n ++ [w] := by
    rw [List.take_add_one, hw]
    rfl
  have hsum := score_add (wins.take n)
  rw [List.length_take_of_le hn.le] at hsum
  have hpos : 1 ≤ n := by
    have := hcap.1
    omega
  have htie : (score (wins.take n)).1 = (score (wins.take n)).2 := by
    have h := hopen n hpos le_rfl
    rw [OverAfter, over_of_cap hseg (hsum ▸ hcap)] at h
    push Not at h
    exact h.1
  have hcap' : CapExhausted ctx (n + 1) := by
    obtain ⟨h1, h2⟩ := hcap
    refine ⟨by omega, h2.imp id fun h => ⟨h.1, by omega⟩⟩
  have hscore := score_append (wins.take n) w
  constructor
  · refine ⟨by omega, hn, ?_, fun m h1 h2 => hopen m h1 (by omega)⟩
    rw [OverAfter, htake, over_of_cap hseg]
    · rw [hscore]
      left
      cases w <;> simp <;> omega
    · have : (score (wins.take n ++ [w])).1 + (score (wins.take n ++ [w])).2 = n + 1 := by
        rw [hscore]
        cases w <;> simp <;> omega
      rw [this]
      exact hcap'
  · rw [outcomeAfter, htake, hscore, outcome]
    cases w <;> simp [htie, Slot.winner]

theorem outcomeAfter_not_behind (wins : List Slot) (n : ℕ) :
    (outcomeAfter ctx damage wins n = .team1 → (score (wins.take n)).2 ≤ (score (wins.take n)).1) ∧
      (outcomeAfter ctx damage wins n = .team2 →
        (score (wins.take n)).1 ≤ (score (wins.take n)).2) := by
  unfold outcomeAfter outcome
  split_ifs with h1 h2
  · exact ⟨fun _ => h1.le, fun h => (by cases h)⟩
  · exact ⟨fun h => (by cases h), fun _ => h2.le⟩
  · exact ⟨fun _ => by omega, fun _ => by omega⟩

end Rounds

/-- The map ends for the code in the first round after which it is over, with the winner the
rule names; a sudden-death round goes to the team that wins it; nobody wins from behind. -/
theorem map_decided_when_over (ctx : MatchContext) (hrounds : 1 ≤ ctx.maxRounds)
    (hseg : 1 ≤ ctx.overtimeSegments) (byDefault : Bool)
    (hplayout : playoutOn ctx byDefault = false) (damage : ℕ → ℤ × ℤ) (wins : List Slot) :
    (∀ n w, (run (MapRun.roundWon ctx (playoutOn ctx byDefault) damage) {} wins).result =
        some (n, w) ↔
      FirstOver ctx damage wins n ∧ w = outcomeAfter ctx damage wins n) ∧
    (∀ (n : ℕ) (w : Slot), wins[n]? = some w → CapExhausted ctx n →
      (∀ m, 1 ≤ m → m ≤ n → ¬OverAfter ctx damage wins m) →
      (run (MapRun.roundWon ctx (playoutOn ctx byDefault) damage) {} wins).result =
        some (n + 1, w.winner)) ∧
    ∀ n w, (run (MapRun.roundWon ctx (playoutOn ctx byDefault) damage) {} wins).result =
        some (n, w) →
      (w = .team1 → (score (wins.take n)).2 ≤ (score (wins.take n)).1) ∧
        (w = .team2 → (score (wins.take n)).1 ≤ (score (wins.take n)).2) := by
  rw [hplayout]
  have hresult := (@run_roundWon_reports ctx damage hrounds hseg wins).some_iff
  refine ⟨hresult, ?_, ?_⟩
  · intro n w hw hcap hopen
    obtain ⟨hfirst, hout⟩ := firstOver_sudden_death hrounds hseg hw hcap hopen
    exact (hresult _ _).mpr ⟨hfirst, hout.symm⟩
  · intro n w h
    rw [((hresult n w).mp h).2]
    exact outcomeAfter_not_behind wins n

/-- First to two with a sudden-death tie: 1-1 goes on, and the third round decides. -/
theorem map_decided_when_over_sudden_death :
    (run (MapRun.roundWon { maxRounds := 2, damageTiebreakEnabled := true } false fun _ => (0, 0))
      {} [.team1, .team2, .team2]).result = some (3, .team2) := by
  have h := (map_decided_when_over { maxRounds := 2, damageTiebreakEnabled := true } (by decide)
    (by decide) false rfl (fun _ => (0, 0)) [.team1, .team2, .team2]).2.1 2 .team2 rfl
    (by decide)
  apply h
  intro m h1 h2
  obtain rfl | rfl : m = 1 ∨ m = 2 := by omega
  · unfold OverAfter
    decide
  · unfold OverAfter
    decide

end ReadyUp.Match
