import ReadyUp.Match.Counters
import ReadyUp.Support.Marks

/-!
# The sides of the teams

`OnRoundStartLocked` counts a side swap for each half that begins, and `StatsSyncSidesLocked`
turns the count into team1's side. A half begins at a known score total, so the count should be
the number of such totals that the score has reached. It is: on a live map the counter follows
the last half counted, whatever else happens in between. `DoRestoreNow` carries the counter
through a snapshot and back unchanged, so a restore behind the last half leaves it too high.
-/
namespace ReadyUp.Match

open ReadyUp.Support ReadyUp.Stats

/-- A score total at which a half begins and the teams switch sides. -/
def IsHalf (ctx : MatchContext) (b : ℤ) : Prop :=
  b = ctx.maxRounds / 2 ∨ ctx.overtimeEnabled = true ∧
    ∃ j : ℕ, b = ctx.maxRounds + 2 * ctx.overtimeSegments * j + ctx.overtimeSegments

theorem exists_mul_natCast_iff (c d : ℤ) : (∃ j : ℕ, d = c * j) ↔ c ∣ d ∧ 0 ≤ d / c := by
  constructor
  · rintro ⟨j, rfl⟩
    rcases eq_or_ne c 0 with rfl | hc
    · simp
    · exact ⟨dvd_mul_right c j, by rw [Int.mul_ediv_cancel_left _ hc]; omega⟩
  · rintro ⟨hdvd, hpos⟩
    refine ⟨(d / c).toNat, ?_⟩
    rw [Int.toNat_of_nonneg hpos, Int.mul_ediv_cancel' hdvd]

instance (ctx : MatchContext) : DecidablePred (IsHalf ctx) := fun b =>
  let d := b - ctx.maxRounds - ctx.overtimeSegments
  have : Decidable (∃ j : ℕ, d = 2 * ctx.overtimeSegments * j) :=
    decidable_of_iff _ (exists_mul_natCast_iff _ d).symm
  decidable_of_iff (b = ctx.maxRounds / 2 ∨ ctx.overtimeEnabled = true ∧
    ∃ j : ℕ, d = 2 * ctx.overtimeSegments * j) (or_congr_right (and_congr_right fun _ =>
      exists_congr fun j => by constructor <;> intro h <;> simp only [d] at * <;> omega))

theorem isHalf_iff {ctx : MatchContext} (hseg : 1 ≤ ctx.overtimeSegments) (b : ℤ) :
    IsHalf ctx b ↔ b = ctx.maxRounds / 2 ∨ ctx.overtimeEnabled = true ∧ ctx.maxRounds ≤ b ∧
      (b - ctx.maxRounds) % (2 * ctx.overtimeSegments) = ctx.overtimeSegments := by
  refine or_congr_right (and_congr_right ?_)
  intro _
  constructor
  · rintro ⟨j, rfl⟩
    have hj : 0 ≤ 2 * ctx.overtimeSegments * j := by positivity
    refine ⟨by omega, ?_⟩
    rw [show ctx.maxRounds + 2 * ctx.overtimeSegments * j + ctx.overtimeSegments - ctx.maxRounds =
      ctx.overtimeSegments + 2 * ctx.overtimeSegments * j by ring, Int.add_mul_emod_self_left]
    exact Int.emod_eq_of_lt (by omega) (by omega)
  · rintro ⟨hle, hmod⟩
    have hdiv := Int.mul_ediv_add_emod (b - ctx.maxRounds) (2 * ctx.overtimeSegments)
    have hpos : 0 ≤ (b - ctx.maxRounds) / (2 * ctx.overtimeSegments) :=
      Int.ediv_nonneg (by omega) (by omega)
    refine ⟨((b - ctx.maxRounds) / (2 * ctx.overtimeSegments)).toNat, ?_⟩
    rw [Int.toNat_of_nonneg hpos]
    omega

theorem isHalf_nonneg {ctx : MatchContext} (hrounds : 1 ≤ ctx.maxRounds)
    (hseg : 1 ≤ ctx.overtimeSegments) {b : ℤ} (hb : IsHalf ctx b) : 0 ≤ b := by
  rcases (isHalf_iff hseg b).mp hb with rfl | ⟨-, hle, -⟩ <;> omega

theorem startsHalf_iff {ctx : MatchContext} (hrounds : 1 ≤ ctx.maxRounds)
    (hseg : 1 ≤ ctx.overtimeSegments) (ev : MatchEvents) (sum : ℤ) :
    ev.startsHalf ctx sum = true ↔ IsHalf ctx sum ∧ ev.lastHalfStartTotal ≠ sum := by
  rw [isHalf_iff hseg]
  simp only [MatchEvents.startsHalf, max_eq_right hrounds, max_eq_right hseg, Bool.or_eq_true,
    Bool.and_eq_true, decide_eq_true_eq]
  tauto

/-! ## The counter -/

/-- The swap counter belongs to the last half counted, which the score has reached; the next half
is still ahead of the score and of the rounds on record. -/
structure HalvesCounted (ctx : MatchContext) (ev : MatchEvents) (total rounds : ℤ) : Prop where
  swapCount : ev.swapCount = marksUpTo (IsHalf ctx) ev.lastHalfStartTotal
  reached : ev.lastHalfStartTotal ≤ total
  score_le : ∀ b, IsHalf ctx b → ev.lastHalfStartTotal < b → total ≤ b
  rounds_le : ∀ b, IsHalf ctx b → ev.lastHalfStartTotal < b → rounds ≤ b
  behind : rounds ≤ total + 1

namespace HalvesCounted

variable {ctx : MatchContext} {ev : MatchEvents} {total rounds : ℤ}

/-- Past the start of a round, the next half is ahead of the score. -/
theorem lt_of_not_startsHalf (hrounds : 1 ≤ ctx.maxRounds) (hseg : 1 ≤ ctx.overtimeSegments)
    (h : HalvesCounted ctx ev total rounds) (hopen : ev.startsHalf ctx total = false) {b : ℤ}
    (hb : IsHalf ctx b) (hlt : ev.lastHalfStartTotal < b) : total < b := by
  rcases lt_or_eq_of_le (h.score_le b hb hlt) with hgt | rfl
  · exact hgt
  · have := (startsHalf_iff hrounds hseg ev total).mpr ⟨hb, hlt.ne⟩
    rw [hopen] at this
    exact (by cases this)

theorem onRoundStart (hrounds : 1 ≤ ctx.maxRounds) (hseg : 1 ≤ ctx.overtimeSegments)
    {team1Score team2Score : ℤ} (h : HalvesCounted ctx ev (team1Score + team2Score) rounds) :
    HalvesCounted ctx (ev.onRoundStart ctx team1Score team2Score) (team1Score + team2Score) rounds ∧
      (ev.onRoundStart ctx team1Score team2Score).swapCount =
        marksUpTo (IsHalf ctx) (team1Score + team2Score) := by
  generalize htotal : team1Score + team2Score = total at *
  cases hstarts : ev.startsHalf ctx total with
  | true =>
    obtain ⟨hhalf, hne⟩ := (startsHalf_iff hrounds hseg ev total).mp hstarts
    have hlt : ev.lastHalfStartTotal < total := lt_of_le_of_ne h.reached hne
    have hcount := marksUpTo_eq_add_one (isHalf_nonneg hrounds hseg hhalf) hlt hhalf h.score_le
    have hswap : (ev.onRoundStart ctx team1Score team2Score).swapCount =
        marksUpTo (IsHalf ctx) total := by
      simp only [MatchEvents.onRoundStart, htotal, hstarts, if_true, hcount, h.swapCount]
      norm_num
    have hlast : (ev.onRoundStart ctx team1Score team2Score).lastHalfStartTotal = total := by
      simp only [MatchEvents.onRoundStart, htotal, hstarts, if_true]
    refine ⟨⟨?_, hlast.le, ?_, ?_, h.behind⟩, hswap⟩ <;> rw [hlast]
    · exact hswap
    · exact fun b _ hb => hb.le
    · exact fun b _ hb => h.behind.trans hb
  | false =>
    have hcount : marksUpTo (IsHalf ctx) total = marksUpTo (IsHalf ctx) ev.lastHalfStartTotal := by
      apply marksUpTo_eq_of_forall_le h.reached
      intro b hb hbt
      by_contra hlt
      exact absurd (h.lt_of_not_startsHalf hrounds hseg hstarts hb (not_le.mp hlt)) (not_lt.mpr hbt)
    have hswap : (ev.onRoundStart ctx team1Score team2Score).swapCount = ev.swapCount := by
      simp [MatchEvents.onRoundStart, htotal, hstarts]
    have hlast : (ev.onRoundStart ctx team1Score team2Score).lastHalfStartTotal =
        ev.lastHalfStartTotal := by
      simp [MatchEvents.onRoundStart, htotal, hstarts]
    refine ⟨⟨?_, hlast ▸ h.reached, hlast ▸ h.score_le, hlast ▸ h.rounds_le, h.behind⟩, ?_⟩
    · rw [hswap, hlast, h.swapCount]
    · rw [hswap, h.swapCount, hcount]

theorem congr_events (h : HalvesCounted ctx ev total rounds) {ev' : MatchEvents}
    (hswap : ev'.swapCount = ev.swapCount)
    (hlast : ev'.lastHalfStartTotal = ev.lastHalfStartTotal) :
    HalvesCounted ctx ev' total rounds :=
  ⟨by rw [hswap, hlast, h.swapCount], hlast ▸ h.reached, hlast ▸ h.score_le, hlast ▸ h.rounds_le,
    h.behind⟩

theorem score (hrounds : 1 ≤ ctx.maxRounds) (hseg : 1 ≤ ctx.overtimeSegments)
    (h : HalvesCounted ctx ev total rounds)
    (hopen : ev.startsHalf ctx total = false ∨ total < rounds) :
    HalvesCounted ctx ev (total + 1) rounds := by
  refine ⟨h.swapCount, by have := h.reached; omega, fun b hb hlt => ?_, h.rounds_le,
    by have := h.behind; omega⟩
  rcases hopen with hopen | hlate
  · exact h.lt_of_not_startsHalf hrounds hseg hopen hb hlt
  · have := h.rounds_le b hb hlt
    omega

theorem record (hrounds : 1 ≤ ctx.maxRounds) (hseg : 1 ≤ ctx.overtimeSegments)
    (h : HalvesCounted ctx ev total rounds)
    (hopen : rounds < total ∨ rounds = total ∧ ev.startsHalf ctx total = false) :
    HalvesCounted ctx ev total (rounds + 1) := by
  refine ⟨h.swapCount, h.reached, h.score_le, ?_, by omega⟩
  intro b hb hlt
  rcases hopen with hlate | ⟨rfl, hopen⟩
  · have := h.score_le b hb hlt
    omega
  · exact h.lt_of_not_startsHalf hrounds hseg hopen hb hlt

/-- A restore goes back to a score that the last half counted has not passed. -/
theorem restore (h : HalvesCounted ctx ev total rounds) {k : ℤ} (hk : k ≤ rounds)
    (hlast : ev.lastHalfStartTotal ≤ k) : HalvesCounted ctx ev k k :=
  ⟨h.swapCount, hlast, fun b hb hlt => hk.trans (h.rounds_le b hb hlt),
    fun b hb hlt => hk.trans (h.rounds_le b hb hlt), by omega⟩

end HalvesCounted

/-! ## The stats model of the server -/

theorem statsIdForController_board (ctx : MatchContext) (a : StatsAccumulator) (o : Observed) :
    (statsIdForController ctx a o).board = a.board :=
  StatsAccumulator.observePlayer_board ..

/-- The board without the side that team1 is on. -/
def sheet (a : StatsAccumulator) : Bool × TeamLine × TeamLine × List RoundSummary :=
  (a.live, a.t1, a.t2, a.rounds)

theorem sheet_of_board {a b : StatsAccumulator} (h : b.board = a.board) : sheet b = sheet a :=
  congrArg (fun b : Board => (b.live, b.t1, b.t2, b.rounds)) h

theorem settled_of_sheet {a b : StatsAccumulator} (h : a.Settled) (hb : sheet b = sheet a) :
    b.Settled ∧ b.rounds = a.rounds := by
  simp only [sheet, Prod.mk.injEq] at hb
  obtain ⟨hlive, h1, h2, hrounds⟩ := hb
  exact ⟨⟨⟨hlive.trans h.ledger.live, hrounds ▸ h.ledger.numbered,
    by rw [h1, hrounds, h.ledger.team1], by rw [h2, hrounds, h.ledger.team2]⟩,
    hrounds ▸ h.decided⟩, hrounds⟩

/-- The board with team1 on the side that the swap counter says. -/
def Server.syncedBoard (s : Server) : Board :=
  { s.stats.board with
    team1IsCt := team1IsCtWithSwapCount s.ctx s.matchState.map s.events.swapCount }

namespace Server

variable {s : Server}

theorem statsRegisterRoundPlayers_board (s : Server) (controllers : List (ℤ × Observed)) :
    (s.statsRegisterRoundPlayers controllers).stats.board = s.syncedBoard := by
  unfold statsRegisterRoundPlayers
  dsimp only
  split
  · refine (foldl_fixed _ StatsAccumulator.board ?_ _ _).trans rfl
    intro a slot
    split
    · exact statsIdForController_board ..
    · rfl
  · rfl

/-- At the end of a round the sides are synced once more, and the round is closed. -/
theorem statsOnRoundEnd_eq (s : Server) (winner reason : ℤ)
    (controllers : List (ℤ × Observed × Option ℤ)) :
    ∃ a : StatsAccumulator, a.board = s.syncedBoard ∧
      s.statsOnRoundEnd winner reason controllers =
        { s with stats := a.onRoundEnd winner reason } := by
  refine ⟨_, ?_, rfl⟩
  refine (foldl_fixed _ StatsAccumulator.board ?_ _ _).trans rfl
  intro a slot
  dsimp only
  split
  · split
    · split_ifs
      · exact (StatsAccumulator.step_board _ (.setScore _ _) (by simp)).trans
          (statsIdForController_board ..)
      · exact statsIdForController_board ..
    · exact statsIdForController_board ..
  · rfl

theorem onPlayerHurt_sheet (s : Server) (victim attacker : EventPlayer) (dmgHealth health : ℤ)
    (weapon : String) :
    sheet (s.onPlayerHurt victim attacker dmgHealth health weapon).stats = sheet s.stats := by
  unfold onPlayerHurt
  dsimp only
  split
  · refine (sheet_of_board (StatsAccumulator.onPlayerHurt_board ..)).trans ?_
    exact (sheet_of_board ((statsIdForController_board ..).trans
      (statsIdForController_board ..))).trans rfl
  · rfl

theorem onPlayerDeath_sheet (s : Server) (victim attacker assister : EventPlayer)
    (assistedFlash headshot : Bool) (weapon : String) (time : ℚ) :
    sheet (s.onPlayerDeath victim attacker assister assistedFlash headshot weapon time).stats =
      sheet s.stats := by
  unfold onPlayerDeath
  dsimp only
  split
  · refine (sheet_of_board (StatsAccumulator.onPlayerDeath_board ..)).trans ?_
    exact (sheet_of_board (foldl_fixed _ StatsAccumulator.board
      (fun _ _ => statsIdForController_board ..) _ _)).trans rfl
  · rfl

end Server

/-! ## Runs of a live map -/

/-- The half that the current score opens has been counted, as it is once the start of the round
at this score is processed. -/
def Server.RoundStarted (s : Server) : Prop :=
  s.events.startsHalf s.ctx s.matchState.total = false

/-- The events of a live map. The notice of a round and its end come in either order, once the
round has started; a restore goes to a round on record or to the one after it, with the score on
record when it brings one. -/
def OnLiveMap (s : Server) (e : MatchEvent) : Prop :=
  s.modes.mode = .matchLive ∧
    match e with
    | .roundStart .. | .playerHurt .. | .playerDeath .. | .playerSpawn _ | .playerDisconnect _ =>
      True
    | .notice ct t =>
      ct + t = s.matchState.total ∨ ct + t = s.matchState.total + 1 ∧
        (s.RoundStarted ∨ s.matchState.total < s.stats.rounds.length)
    | .roundEnd winner _ now _ =>
      now < s.events.ignoreRoundEndsUntil ∨ IsSide winner ∧
        (s.stats.rounds.length < s.matchState.total ∨
          s.stats.rounds.length = s.matchState.total ∧ s.RoundStarted)
    | .restore round scoreT1 scoreT2 _ _ =>
      1 ≤ round ∧ round ≤ s.stats.rounds.length + 1 ∧
        ScoreOf (keptRounds s.stats.rounds round) scoreT1 scoreT2
    | _ => False

instance (s : Server) : Decidable s.RoundStarted := inferInstanceAs (Decidable (_ = _))

instance (s : Server) (e : MatchEvent) : Decidable (OnLiveMap s e) :=
  match e with
  | .roundStart .. | .playerHurt .. | .playerDeath .. | .playerSpawn _ | .playerDisconnect _ =>
    inferInstanceAs (Decidable (_ ∧ True))
  | .notice .. => inferInstanceAs (Decidable (_ ∧ (_ ∨ _ ∧ (_ ∨ _))))
  | .roundEnd .. => inferInstanceAs (Decidable (_ ∧ (_ ∨ _ ∧ (_ ∨ _ ∧ _))))
  | .restore .. => inferInstanceAs (Decidable (_ ∧ _ ∧ _ ∧ _))
  | .matchStart | .rosterReady | .forceStart _ | .forfeit _ | .engineGameOver .. | .nextMap
  | .mapLoaded _ | .restartMatch => inferInstanceAs (Decidable (_ ∧ False))

/-- No restore goes back behind the last half counted. -/
def RestoreInHalf (s : Server) : MatchEvent → Prop
  | .restore round _ _ _ _ => s.events.lastHalfStartTotal ≤ round - 1
  | _ => True

instance (s : Server) (e : MatchEvent) : Decidable (RestoreInHalf s e) :=
  match e with
  | .restore .. => inferInstanceAs (Decidable (_ ≤ _))
  | .roundStart .. | .notice .. | .roundEnd .. | .playerHurt .. | .playerDeath ..
  | .playerSpawn _ | .playerDisconnect _ | .matchStart | .rosterReady | .forceStart _
  | .forfeit _ | .engineGameOver .. | .nextMap | .mapLoaded _ | .restartMatch =>
    inferInstanceAs (Decidable True)

/-- A live map whose swaps are counted, with its record and its score. -/
structure SidesTracked (s : Server) : Prop where
  maxRounds : 1 ≤ s.ctx.maxRounds
  overtimeSegments : 1 ≤ s.ctx.overtimeSegments
  settled : s.stats.Settled
  onItsMap : s.OnItsMap
  counted : HalvesCounted s.ctx s.events s.matchState.total s.stats.rounds.length

namespace SidesTracked

variable {s t : Server}

/-- What leaves the score, the halves and the record alone keeps the count. -/
theorem of_same (h : SidesTracked s) (hctx : t.ctx = s.ctx)
    (hstate : t.matchState = s.matchState) (hhalves : t.events.halves = s.events.halves)
    (hsheet : sheet t.stats = sheet s.stats) : SidesTracked t := by
  obtain ⟨hsettled, hrounds⟩ := settled_of_sheet h.settled hsheet
  simp only [MatchEvents.halves, Prod.mk.injEq] at hhalves
  obtain ⟨hmap, hswap, hlast⟩ := hhalves
  refine ⟨hctx ▸ h.maxRounds, hctx ▸ h.overtimeSegments, hsettled, ?_, ?_⟩
  · rw [Server.OnItsMap, hmap, hstate]
    exact h.onItsMap
  · rw [hctx, hstate, hrounds]
    exact h.counted.congr_events hswap hlast

theorem onRoundStart_eq (h : SidesTracked s) (hlive : s.modes.mode = .matchLive)
    (justRestarted : Bool) (controllers : List (ℤ × Observed)) :
    let ev := s.events.onRoundStart s.ctx s.matchState.team1Score s.matchState.team2Score
    s.onRoundStart justRestarted controllers =
      ({ s with events := ev, matchState := s.matchState.setRound ev.roundNumber } :
        Server).statsRegisterRoundPlayers controllers := by
  simp [Server.onRoundStart, Server.maybeResetForMap_self h.onItsMap, hlive,
    Server.onMatchRoundStarted]

theorem total_setRound (m : MatchState) (n : ℤ) : (m.setRound n).total = m.total := by
  unfold MatchState.setRound
  split <;> rfl

/-- The start of a round leaves the counter at the halves up to the score, and the side that
goes with it in the stats. -/
theorem onRoundStart (h : SidesTracked s) (hlive : s.modes.mode = .matchLive)
    (justRestarted : Bool) (controllers : List (ℤ × Observed)) :
    let started := s.onRoundStart justRestarted controllers
    SidesTracked started ∧
      started.events.swapCount = marksUpTo (IsHalf started.ctx) started.matchState.total ∧
      started.stats.team1IsCt = team1IsCtWithSwapCount started.ctx started.matchState.map
        started.events.swapCount := by
  intro started
  obtain ⟨hcounted, hswap⟩ := h.counted.onRoundStart h.maxRounds h.overtimeSegments
  set ev := s.events.onRoundStart s.ctx s.matchState.team1Score s.matchState.team2Score
  let opened : Server := { s with events := ev, matchState := s.matchState.setRound ev.roundNumber }
  have heq : started = opened.statsRegisterRoundPlayers controllers :=
    h.onRoundStart_eq hlive justRestarted controllers
  have hboard := opened.statsRegisterRoundPlayers_board controllers
  obtain ⟨hctx, hstate, hev⟩ : started.ctx = s.ctx ∧ started.matchState = opened.matchState ∧
      started.events = ev := by
    rw [heq]
    exact Server.counters_eq_iff.mp (opened.statsRegisterRoundPlayers_counters controllers)
  have htotal : started.matchState.total = s.matchState.total := by
    rw [hstate]
    exact total_setRound _ _
  obtain ⟨hsettled, hrounds⟩ := settled_of_sheet (b := started.stats) h.settled <| by
    rw [heq]
    exact (sheet_of_board (a := { s.stats with team1IsCt := opened.syncedBoard.team1IsCt })
      hboard).trans rfl
  refine ⟨⟨hctx ▸ h.maxRounds, hctx ▸ h.overtimeSegments, hsettled, ?_, ?_⟩, ?_, ?_⟩
  · rw [Server.OnItsMap, hev, hstate]
    exact h.onItsMap.trans (MatchState.setRound_map _ _).symm
  · rw [hctx, hev, htotal, hrounds]
    exact hcounted
  · rw [hctx, hev, htotal]
    exact hswap
  · rw [hctx, hev, hstate, heq]
    exact congrArg Board.team1IsCt hboard

theorem onNotice (h : SidesTracked s) {ct t : ℤ} (he : OnLiveMap s (.notice ct t)) :
    SidesTracked (s.onNotice ct t) := by
  obtain ⟨hlive, hscore⟩ := he
  have heq : s.onNotice ct t =
      { s with
        log := { s.log with team1Score := ct, team2Score := t }
        matchState := s.matchState.setScore ct t } := by
    simp [Server.onNotice, hlive]
  rw [heq]
  refine ⟨h.maxRounds, h.overtimeSegments, h.settled, h.onItsMap, ?_⟩
  change HalvesCounted s.ctx s.events (ct + t) s.stats.rounds.length
  rcases hscore with hsame | ⟨hnext, hopen⟩
  · exact hsame ▸ h.counted
  · exact hnext ▸ h.counted.score h.maxRounds h.overtimeSegments hopen

/-- A round that ends goes on record; when it decides the map, the map is no longer live. -/
theorem onRoundEnd (h : SidesTracked s) {winner reason : ℤ} {now : ℚ}
    {controllers : List (ℤ × Observed × Option ℤ)}
    (he : OnLiveMap s (.roundEnd winner reason now controllers))
    (hlive : (s.onRoundEnd winner reason now controllers).modes.mode = .matchLive) :
    SidesTracked (s.onRoundEnd winner reason now controllers) := by
  obtain ⟨hmode, hend⟩ := he
  by_cases hignored : now < s.events.ignoreRoundEndsUntil
  · rw [Server.onRoundEnd, if_pos hignored]
    exact h
  obtain ⟨hside, hopen⟩ := hend.resolve_left hignored
  obtain ⟨a, hboard, hclosed⟩ := s.statsOnRoundEnd_eq winner reason controllers
  obtain ⟨hsettled, hrounds⟩ := settled_of_sheet h.settled
    ((sheet_of_board (a := { s.stats with team1IsCt := s.syncedBoard.team1IsCt }) hboard).trans rfl)
  have hrecord : (a.onRoundEnd winner reason).rounds = s.stats.rounds ++
      [a.summary winner reason] := by
    rw [← hrounds]
    exact congrArg Board.rounds (a.onRoundEnd_board hsettled.ledger.live winner reason)
  have hended : (a.onRoundEnd winner reason).Settled :=
    @StatsAccumulator.Settled.ledgerStep a hsettled (.stats (.onRoundEnd winner reason)) hside
  have hall : SidesTracked { s with stats := a.onRoundEnd winner reason } := by
    refine ⟨h.maxRounds, h.overtimeSegments, hended, h.onItsMap, ?_⟩
    have := h.counted.record h.maxRounds h.overtimeSegments hopen
    simpa only [hrecord, List.length_append, List.length_singleton, Nat.cast_add, Nat.cast_one]
      using this
  have heq : s.onRoundEnd winner reason now controllers =
      s.emitRoundEnd winner reason controllers := by
    simp [Server.onRoundEnd, hignored, Server.maybeResetForMap_self h.onItsMap, hmode]
  rw [heq] at hlive ⊢
  simp only [Server.emitRoundEnd, h.settled.ledger.live, if_true, hclosed] at hlive ⊢
  simp only [Server.onMatchRoundEnded] at hlive ⊢
  generalize (if s.matchState.mapNumber ≤ 0 then 1 else s.matchState.mapNumber) = m at hlive ⊢
  split at hlive
  · rename_i hemitted
    rw [if_pos hemitted]
    exact hall
  · rename_i hemitted
    rw [if_neg hemitted]
    split at hlive
    · exact hall
    · exact (by cases hlive)

theorem doRestoreNow (h : SidesTracked s) {round scoreT1 scoreT2 : ℤ} {now : ℚ}
    {onTeams : List ℤ} (he : OnLiveMap s (.restore round scoreT1 scoreT2 now onTeams))
    (hhalf : s.events.lastHalfStartTotal ≤ round - 1) :
    SidesTracked (s.doRestoreNow round scoreT1 scoreT2 now onTeams) := by
  obtain ⟨-, hpos, hle, hscore⟩ := he
  obtain ⟨hsettled, hrounds⟩ := h.settled.restoreRound hscore
  have hlength : ((s.stats.restoreRound round scoreT1 scoreT2).rounds.length : ℤ) = round - 1 := by
    rw [hrounds, keptRounds, if_neg (by omega), List.length_take]
    omega
  refine ⟨h.maxRounds, h.overtimeSegments, hsettled,
    h.onItsMap.trans (MatchState.setRound_map _ _).symm, ?_⟩
  have htotal : (s.doRestoreNow round scoreT1 scoreT2 now onTeams).matchState.total = round - 1 :=
    hsettled.score_add.trans hlength
  rw [htotal]
  change HalvesCounted s.ctx _ _ ((s.stats.restoreRound round scoreT1 scoreT2).rounds.length : ℤ)
  rw [hlength]
  exact (h.counted.restore (by omega) hhalf).congr_events rfl rfl

end SidesTracked

/-- An event that neither starts a round nor goes back to one. -/
def MatchEvent.InRound : MatchEvent → Prop
  | .roundStart .. | .restore .. => False
  | _ => True

theorem OnLiveMap.onMap {s : Server} {e : MatchEvent} (he : OnLiveMap s e) : e.OnMap := by
  cases e <;> first | trivial | exact he.2

theorem SidesTracked.step {s : Server} (h : SidesTracked s) {e : MatchEvent} (he : OnLiveMap s e)
    (hhalf : RestoreInHalf s e) (hlive : (s.step e).modes.mode = .matchLive) :
    SidesTracked (s.step e) := by
  have hhalves := Server.step_halves h.onItsMap he.onMap
  cases e with
  | roundStart justRestarted controllers => exact (h.onRoundStart he.1 _ _).1
  | notice ct t => exact h.onNotice he
  | roundEnd winner reason now controllers => exact h.onRoundEnd he hlive
  | playerHurt victim attacker dmgHealth health weapon =>
    obtain ⟨hctx, hstate, -⟩ := Server.counters_eq_iff.mp <|
      s.onPlayerHurt_counters victim attacker dmgHealth health weapon
    exact h.of_same hctx hstate (hhalves (by simp)) (s.onPlayerHurt_sheet ..)
  | playerDeath victim attacker assister assistedFlash headshot weapon time =>
    obtain ⟨hctx, hstate, -⟩ := Server.counters_eq_iff.mp <|
      s.onPlayerDeath_counters victim attacker assister assistedFlash headshot weapon time
    exact h.of_same hctx hstate (hhalves (by simp)) (s.onPlayerDeath_sheet ..)
  | playerSpawn slot => exact h.of_same rfl rfl (hhalves (by simp)) rfl
  | playerDisconnect slot => exact h.of_same rfl rfl (hhalves (by simp)) rfl
  | restore round scoreT1 scoreT2 now onTeams => exact h.doRestoreNow he hhalf
  | _ => exact he.2.elim

/-- The swap counter, the side that a sync gives team1 and the team that a round goes to are
those of `n` halves begun. -/
structure SidesOf (t : Server) (n : ℕ) : Prop where
  swapCount : t.events.swapCount = n
  synced : t.statsSyncSides.stats.team1IsCt = initialTeam1IsCtForMap t.ctx t.matchState.map ↔ Even n
  credited : t.stats.live = true → ∀ winner reason controllers, IsSide winner →
    (t.statsOnRoundEnd winner reason controllers).stats.t1.score = t.stats.t1.score +
        (if (winner = 3 ↔ initialTeam1IsCtForMap t.ctx t.matchState.map = true) ↔ Even n then 1
          else 0) ∧
      (t.statsOnRoundEnd winner reason controllers).stats.t2.score = t.stats.t2.score +
        (if (winner = 3 ↔ initialTeam1IsCtForMap t.ctx t.matchState.map = true) ↔ Even n then 0
          else 1)

theorem team1IsCtWithSwapCount_iff (ctx : MatchContext) (mapNumber : ℤ) (n : ℕ) :
    team1IsCtWithSwapCount ctx mapNumber n = initialTeam1IsCtForMap ctx mapNumber ↔ Even n := by
  rw [Nat.even_iff]
  simp only [team1IsCtWithSwapCount]
  split_ifs with h
  · simp
    omega
  · simp
    omega

theorem sidesOf_of_swapCount {t : Server} {n : ℕ} (h : t.events.swapCount = n) : SidesOf t n where
  swapCount := h
  synced := by
    rw [← team1IsCtWithSwapCount_iff t.ctx t.matchState.map n, ← h]
    rfl
  credited := by
    intro hlive winner reason controllers hside
    obtain ⟨a, hboard, heq⟩ := t.statsOnRoundEnd_eq winner reason controllers
    have hct : a.team1IsCt = team1IsCtWithSwapCount t.ctx t.matchState.map n := by
      rw [← h]
      exact congrArg Board.team1IsCt hboard
    have h1 : a.t1 = t.stats.t1 := congrArg Board.t1 hboard
    have h2 : a.t2 = t.stats.t2 := congrArg Board.t2 hboard
    have hend := a.onRoundEnd_board ((congrArg Board.live hboard).trans hlive) winner reason
    have hiff := team1IsCtWithSwapCount_iff t.ctx t.matchState.map n
    rw [heq]
    simp only [StatsAccumulator.board, Board.mk.injEq] at hend
    simp only [hend.2.2.1, hend.2.2.2.1, StatsAccumulator.creditRound, StatsAccumulator.slotForSide,
      hct, h1, h2, ← hiff]
    generalize team1IsCtWithSwapCount t.ctx t.matchState.map n = side
    generalize initialTeam1IsCtForMap t.ctx t.matchState.map = first
    rcases hside with rfl | rfl <;> cases side <;> cases first <;> simp [TeamLine.credit]

/-! ## Sides over a run -/

/-- A map that has gone live with its counters fresh. A map resumed from another server starts
with rounds on record, but not past the half. -/
structure SideStart (s : Server) : Prop where
  maxRounds : 1 ≤ s.ctx.maxRounds
  overtimeSegments : 1 ≤ s.ctx.overtimeSegments
  settled : s.stats.Settled
  onItsMap : s.OnItsMap
  swapCount : s.events.swapCount = 0
  lastHalfStartTotal : s.events.lastHalfStartTotal = -1
  score : s.matchState.total = s.stats.rounds.length
  firstHalf : s.matchState.total ≤ s.ctx.maxRounds / 2

theorem SideStart.tracked {s : Server} (h : SideStart s) : SidesTracked s := by
  have hnext : ∀ b, IsHalf s.ctx b → s.matchState.total ≤ b := by
    intro b hb
    have hrounds := h.maxRounds
    have hfirst := h.firstHalf
    rcases (isHalf_iff h.overtimeSegments b).mp hb with rfl | ⟨-, hle, -⟩
    · exact hfirst
    · omega
  refine ⟨h.maxRounds, h.overtimeSegments, h.settled, h.onItsMap, ?_⟩
  refine ⟨?_, ?_, fun b hb _ => hnext b hb, fun b hb _ => h.score ▸ hnext b hb, ?_⟩
  · rw [h.swapCount, h.lastHalfStartTotal, marksUpTo_neg (by omega)]
    rfl
  · have := h.score
    rw [h.lastHalfStartTotal]
    omega
  · have := h.score
    omega

/-- On a live map whose restores stay within the half, every round start leaves the swap counter
at the number of halves that the score has reached. The sides that the stats model takes from it
until the next round start, and the team it credits with the round, are those of that number. -/
theorem sidesOf_run (s : Server) (hstart : SideStart s) (es mid : List MatchEvent)
    (justRestarted : Bool) (controllers : List (ℤ × Observed))
    (hrun : Guarded Server.step (fun t e => OnLiveMap t e ∧ RestoreInHalf t e) s
      (es ++ [.roundStart justRestarted controllers] ++ mid))
    (hmid : ∀ e ∈ mid, e.InRound) :
    let started := run Server.step s (es ++ [.roundStart justRestarted controllers])
    let n := marksUpTo (IsHalf started.ctx) started.matchState.total
    SidesOf (run Server.step started mid) n ∧
      (started.stats.team1IsCt = initialTeam1IsCtForMap started.ctx started.matchState.map ↔
        Even n) := by
  intro started n
  have hstep : ∀ t e, (t.modes.mode = .matchLive → SidesTracked t) →
      OnLiveMap t e ∧ RestoreInHalf t e →
      ((t.step e).modes.mode = .matchLive → SidesTracked (t.step e)) :=
    fun t e ht he => (ht he.1.1).step he.1 he.2
  obtain ⟨hbefore, hafter⟩ := guarded_append.mp hrun
  obtain ⟨hes, hround, -⟩ := guarded_append.mp hbefore
  have hplayed : SidesTracked (run Server.step s es) :=
    hes.invariant (P := fun t => t.modes.mode = .matchLive → SidesTracked t)
      (fun _ => hstart.tracked) hstep hround.1.1
  obtain ⟨htracked, hswap, hside⟩ := hplayed.onRoundStart hround.1.1 justRestarted controllers
  have hstarted : started = (run Server.step s es).onRoundStart justRestarted controllers := by
    simp only [started, run_append]
    rfl
  rw [← hstarted] at htracked hswap hside
  refine ⟨sidesOf_of_swapCount ?_, ?_⟩
  · -- until the next round start no event moves the counter
    have hkeep : ∀ t e, (t.modes.mode = .matchLive → SidesTracked t) ∧
          t.events.swapCount = started.events.swapCount →
        (OnLiveMap t e ∧ RestoreInHalf t e) ∧ e.InRound →
        ((t.step e).modes.mode = .matchLive → SidesTracked (t.step e)) ∧
          (t.step e).events.swapCount = started.events.swapCount := by
      intro t e ⟨ht, hcount⟩ ⟨he, hin⟩
      have hhalves := Server.step_halves (ht he.1.1).onItsMap he.1.onMap
        fun _ _ hstart => by simp [hstart, MatchEvent.InRound] at hin
      exact ⟨hstep t e ht he, (congrArg (·.2.1) hhalves).trans hcount⟩
    have hend := (hafter.and_forall hmid).invariant ⟨fun _ => htracked, rfl⟩ hkeep
    exact hend.2.trans hswap
  · rw [hside, hswap, team1IsCtWithSwapCount_iff]

/-- A live map of four rounds, with the half at the third. -/
def fourRounds : Server :=
  { maps := { entryMatchesLoaded := fun e loaded => e == loaded, loadedBaseName := id }
    ctx := { maxRounds := 4 }
    events := { lastMapNumber := 1 }
    stats := StatsAccumulator.beginMap {} true
    modes := { mode := .matchLive } }

/-- Two rounds, one for each side, and the start of the third. -/
def firstHalf : List MatchEvent :=
  [.roundStart false [], .notice 1 0, .roundEnd 3 8 1 [], .roundStart false [], .notice 1 1,
    .roundEnd 2 9 2 [], .roundStart false []]

/-- The third round is restored and starts again, with the sides of the second half. -/
theorem sidesOf_run_second_half :
    let started := run Server.step fourRounds (firstHalf ++
      [.notice 2 1, .roundEnd 3 8 3 [], .restore 3 (-1) (-1) 4 []] ++ [.roundStart false []])
    let n := marksUpTo (IsHalf started.ctx) started.matchState.total
    n = 1 ∧ SidesOf (run Server.step started [.notice 2 1]) n := by
  have hstart : SideStart fourRounds :=
    ⟨by decide, by decide, ⟨StatsAccumulator.ledger_beginMap {} true, nofun⟩, rfl, rfl, rfl, rfl,
      by decide⟩
  have hsides := sidesOf_run fourRounds hstart
    (firstHalf ++ [.notice 2 1, .roundEnd 3 8 3 [], .restore 3 (-1) (-1) 4 []]) [.notice 2 1]
    false [] (by decide) (by simp [MatchEvent.InRound])
  exact ⟨by decide, hsides.1⟩

/-- A restore to the first round leaves the swap of the half in place: the round starts with the
counter at one where no half has been reached, and team1 is on the wrong side. -/
theorem restore_behind_half_not_sidesOf :
    let es := firstHalf ++ [.restore 1 (-1) (-1) 4 [], .roundStart false []]
    let started := run Server.step fourRounds es
    let n := marksUpTo (IsHalf started.ctx) started.matchState.total
    Guarded Server.step OnLiveMap fourRounds es ∧ started.events.swapCount ≠ n ∧
      ¬(started.stats.team1IsCt = initialTeam1IsCtForMap started.ctx started.matchState.map ↔
        Even n) := by
  decide

end ReadyUp.Match
