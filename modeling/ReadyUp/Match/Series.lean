import ReadyUp.Match.MapDecision

/-!
# The end of a map

`FinishMapLocked` counts the map for the series, decides whether the series goes on and with
which map. A restarted server asks the same two questions again: `PlanRecovery` answers them
from the progress record alone. The record does not say that the map was forfeited, and the
planner does not look at the name of the next entry, so the two answers differ there.
-/
namespace ReadyUp.Match

inductive ReadyUpMode where
  | idle
  | practice
  | matchWarmup
  | matchKnife
  | matchLive
  | postgame
  | scrimWarmup
  | external
  deriving DecidableEq, Repr

/-- The part of the state of `modes.cpp` that follows a loaded match through its maps. -/
structure Modes where
  mode : ReadyUpMode := .idle
  warmupEnabled : Bool := true
  startTriggered : Bool := false
  recoveryGate : Bool := false
  lifecycleMapNumber : ℤ := 0
  warmupEndedSent : Bool := false
  goingLiveSent : Bool := false
  mapResultEmittedForMapNumber : ℤ := 0
  seriesWinsTeam1 : ℕ := 0
  seriesWinsTeam2 : ℕ := 0
  deriving DecidableEq, Repr

/-- The `map_result` event. -/
structure MapResult where
  mapNumber : ℤ
  map : String
  team1Score : ℤ
  team2Score : ℤ
  winner : MapWinner
  seriesTeam1 : ℕ
  seriesTeam2 : ℕ
  deriving DecidableEq, Repr

/-- `MapEndInput` of `match_end.h`. -/
structure MapEndInput where
  mapNumber : ℤ
  mapName : String
  winner : MapWinner
  team1Score : ℤ
  team2Score : ℤ
  team1SeriesScore : ℕ
  team2SeriesScore : ℕ
  seriesOver : Bool
  nextMap : String
  seriesWinner : Option MapWinner
  decidedByDamage : Bool
  team1Damage : ℤ
  team2Damage : ℤ
  deriving DecidableEq, Repr

def remainingMaps (numMaps maplistCount mapNumber : ℤ) : ℤ :=
  let total := if 0 < maplistCount then min numMaps maplistCount else numMaps
  max 0 (total - mapNumber)

def isSeriesOver (numMaps remaining : ℤ) (team1SeriesScore team2SeriesScore : ℕ)
    (canClinch : Bool) : Bool :=
  if remaining ≤ 0 then true
  else if !canClinch then false
  else
    let mapsToWin := numMaps / 2 + 1
    decide (mapsToWin ≤ team1SeriesScore) || decide (mapsToWin ≤ team2SeriesScore)

/-- `num_maps`, or the length of the list when it is not set. -/
def totalMaps (maplist : List String) (numMaps : ℤ) : ℤ :=
  if 0 < numMaps then numMaps else maplist.length

/-- The entry after map `mapNumber`, which counts from 1. -/
def entryAfter (maplist : List String) (mapNumber : ℤ) : Option String :=
  if 0 ≤ mapNumber then maplist[mapNumber.toNat]? else none

/-- What `FinishMapLocked` leaves behind: the state, the event, and what it hands on to
`MatchEndOnMapComplete`. -/
structure MapFinish where
  modes : Modes
  result : MapResult
  input : MapEndInput
  deriving DecidableEq, Repr

/-- The series score with this map counted; a drawn map counts as played. -/
def Modes.countMap (st : Modes) (winner : MapWinner) : Modes :=
  match winner with
  | .team1 => { st with seriesWinsTeam1 := st.seriesWinsTeam1 + 1 }
  | .team2 => { st with seriesWinsTeam2 := st.seriesWinsTeam2 + 1 }
  | .none => st

/-- `FinishMapLocked`; `damage` is what `GetRosterTeamDamageTotals` returns. -/
def finishMapLocked (st : Modes) (ctx : MatchContext) (mapNumber : ℤ) (map : String)
    (team1Score team2Score : ℤ) (winner : MapWinner) (forfeit : Bool) (damage : ℤ × ℤ) :
    MapFinish :=
  let st := st.countMap winner
  let s1 := max 0 team1Score
  let s2 := max 0 team2Score
  let total := totalMaps ctx.maplist ctx.numMaps
  let remaining := remainingMaps total ctx.maplist.length mapNumber
  let seriesOver := forfeit ||
    isSeriesOver total remaining st.seriesWinsTeam1 st.seriesWinsTeam2 ctx.clinchSeries
  let nextMap := if seriesOver then "" else (entryAfter ctx.maplist mapNumber).getD ""
  let byDamage := !forfeit && decide (winner ≠ .none) && decide (s1 = s2)
  { modes := { st with
      mapResultEmittedForMapNumber := mapNumber
      mode := .postgame
      startTriggered := false }
    result :=
      { mapNumber, map, winner
        team1Score := s1
        team2Score := s2
        seriesTeam1 := st.seriesWinsTeam1
        seriesTeam2 := st.seriesWinsTeam2 }
    input :=
      { mapNumber, winner, nextMap
        mapName := map
        team1Score := s1
        team2Score := s2
        team1SeriesScore := st.seriesWinsTeam1
        team2SeriesScore := st.seriesWinsTeam2
        seriesOver := seriesOver || nextMap == ""
        seriesWinner := if forfeit then some winner else none
        decidedByDamage := byDamage
        team1Damage := if byDamage then damage.1 else 0
        team2Damage := if byDamage then damage.2 else 0 } }

/-! ## Crash recovery -/

/-- `phase` of a progress record. -/
inductive ProgressPhase where
  | warmup
  | live
  | mapOver
  deriving DecidableEq, Repr

/-- `restore::Progress`, as far as the planner reads it. -/
structure Progress where
  mapNumber : ℤ := 1
  phase : ProgressPhase := .warmup
  seriesTeam1 : ℤ := 0
  seriesTeam2 : ℤ := 0
  deriving DecidableEq, Repr

/-- `SaveProgress`. Nothing is written while a recovery is under way (`recovering`), while the
recovery gate is up, or when no match is persisted. -/
def saveProgress (st : Modes) (mapNumber : ℤ) (recovering activeMatch : Bool) : Option Progress :=
  if recovering || st.recoveryGate || !activeMatch then none
  else
    let p : ProgressPhase → Progress := fun phase =>
      { mapNumber := max 1 mapNumber
        phase
        seriesTeam1 := st.seriesWinsTeam1
        seriesTeam2 := st.seriesWinsTeam2 }
    match st.mode with
    | .matchLive => some (p .live)
    | .postgame => some (p .mapOver)
    | .matchWarmup | .matchKnife => some (p .warmup)
    | _ => none

/-- What `ProgressFromJson` reads back from `ProgressToJson`. -/
def Progress.reload (p : Progress) : Progress :=
  { p with
    mapNumber := max 1 p.mapNumber
    seriesTeam1 := max 0 p.seriesTeam1
    seriesTeam2 := max 0 p.seriesTeam2 }

inductive RecoveryKind where
  | none
  | warmup
  | live
  deriving DecidableEq, Repr

structure RecoveryPlan where
  kind : RecoveryKind := .none
  mapNumber : ℤ := 1
  mapEntry : String := ""
  why : String := ""
  deriving DecidableEq, Repr

/-- The lambda `at` of `PlanRecovery`: a plan for a map that has to be in the list. -/
def planAt (maplist : List String) (total mapNumber : ℤ) (kind : RecoveryKind) (why : String) :
    RecoveryPlan :=
  if mapNumber < 1 ∨ (maplist.length : ℤ) < mapNumber ∨ max 1 total < mapNumber then
    { why := "map " ++ toString mapNumber ++ " is not in the map list" }
  else
    { kind, mapNumber, why
      mapEntry := (maplist[(mapNumber - 1).toNat]?).getD "" }

def planRecovery (p : Option Progress) (legacyLiveFlag : Bool) (maplist : List String)
    (numMaps : ℤ) (clinchSeries : Bool) : RecoveryPlan :=
  let total := totalMaps maplist numMaps
  match p with
  | none => planAt maplist total 1 (if legacyLiveFlag then .live else .warmup) "no progress record"
  | some p =>
    match p.phase with
    | .mapOver =>
      let remaining := remainingMaps total maplist.length p.mapNumber
      if isSeriesOver total remaining p.seriesTeam1.toNat p.seriesTeam2.toNat clinchSeries then
        { why := "the series was over" }
      else
        planAt maplist total (p.mapNumber + 1) .warmup
          ("map " ++ toString p.mapNumber ++ " was over")
    | .live => planAt maplist total p.mapNumber .live "the map was live"
    | .warmup => planAt maplist total p.mapNumber .warmup "the map was in warmup"

/-! ## The planner and the live flow -/

/-- The recovered server does what the live one was about to do. -/
def Continues (f : MapFinish) (plan : RecoveryPlan) : Prop :=
  (plan.kind = .none ↔ f.input.seriesOver = true) ∧
    (f.input.seriesOver = false →
      plan.kind = .warmup ∧ plan.mapNumber = f.input.mapNumber + 1 ∧
        plan.mapEntry = f.input.nextMap)

instance (f : MapFinish) (plan : RecoveryPlan) : Decidable (Continues f plan) :=
  inferInstanceAs (Decidable (_ ∧ _))

theorem remainingMaps_pos {total m : ℤ} {maplist : List String} {e : String}
    (he : entryAfter maplist m = some e) (h : 0 < remainingMaps total maplist.length m) :
    m < total ∧ m < maplist.length := by
  have hlen : 0 < (maplist.length : ℤ) := by
    unfold entryAfter at he
    split_ifs at he
    have := (List.getElem?_eq_some_iff.mp he).1
    omega
  simp only [remainingMaps, if_pos hlen] at h
  omega

/-- Without an entry for the next map, maps remain only in an empty list. -/
theorem maplist_of_remaining {total m : ℤ} (hm : 1 ≤ m) {maplist : List String}
    (he : entryAfter maplist m = none) (h : 0 < remainingMaps total maplist.length m) :
    maplist = [] := by
  unfold entryAfter at he
  rw [if_pos (by omega), List.getElem?_eq_none_iff] at he
  rcases maplist with _ | ⟨e, es⟩
  · rfl
  · simp only [remainingMaps, List.length_cons] at he h
    rw [if_pos (by omega)] at h
    omega

theorem planAt_next {maplist : List String} {total m : ℤ} {e why : String} (hm : 1 ≤ m)
    (he : entryAfter maplist m = some e) (htotal : m < total) :
    planAt maplist total (m + 1) .warmup why = ⟨.warmup, m + 1, e, why⟩ := by
  unfold entryAfter at he
  rw [if_pos (by omega)] at he
  have hlen := (List.getElem?_eq_some_iff.mp he).1
  unfold planAt
  rw [if_neg (by omega), add_sub_cancel_right, he]
  rfl

/-- What `SaveProgress` writes after the end of a map, as the restarted server reads it. -/
theorem reload_saveProgress_finishMap {st : Modes} {ctx : MatchContext} {stateMap : ℤ}
    {map : String} {team1Score team2Score : ℤ} {winner : MapWinner} {forfeit : Bool}
    {damage : ℤ × ℤ} {recovering activeMatch : Bool} {p : Progress}
    (h : saveProgress (finishMapLocked st ctx (max 1 stateMap) map team1Score team2Score winner
      forfeit damage).modes stateMap recovering activeMatch = some p) :
    p.reload =
      { mapNumber := max 1 stateMap
        phase := .mapOver
        seriesTeam1 := (st.countMap winner).seriesWinsTeam1
        seriesTeam2 := (st.countMap winner).seriesWinsTeam2 } := by
  simp only [saveProgress, finishMapLocked] at h
  obtain ⟨-, h⟩ := Option.ite_none_left_eq_some.mp h
  obtain rfl := Option.some.inj h
  simp [Progress.reload]

theorem remaining_of_not_over {numMaps remaining : ℤ} {s1 s2 : ℕ} {clinch : Bool}
    (h : isSeriesOver numMaps remaining s1 s2 clinch = false) : 0 < remaining := by
  unfold isSeriesOver at h
  split_ifs at h <;> omega

/-- The planner continues the series exactly as the live flow would have, unless it would go on
to a next map where the live flow stopped: after a forfeit, or at an empty entry. -/
theorem planRecovery_continues_iff (st : Modes) (ctx : MatchContext) (stateMap : ℤ)
    (map : String) (team1Score team2Score : ℤ) (winner : MapWinner) (forfeit : Bool)
    (damage : ℤ × ℤ) (recovering activeMatch legacyLiveFlag : Bool) (p : Progress)
    (hsaved : saveProgress (finishMapLocked st ctx (max 1 stateMap) map team1Score team2Score winner
      forfeit damage).modes stateMap recovering activeMatch = some p) :
    Continues
      (finishMapLocked st ctx (max 1 stateMap) map team1Score team2Score winner forfeit damage)
      (planRecovery (some p.reload) legacyLiveFlag ctx.maplist ctx.numMaps ctx.clinchSeries) ↔
    isSeriesOver (totalMaps ctx.maplist ctx.numMaps)
        (remainingMaps (totalMaps ctx.maplist ctx.numMaps) ctx.maplist.length (max 1 stateMap))
        (st.countMap winner).seriesWinsTeam1 (st.countMap winner).seriesWinsTeam2
        ctx.clinchSeries = true ∨
      entryAfter ctx.maplist (max 1 stateMap) = none ∨
      (forfeit = false ∧ entryAfter ctx.maplist (max 1 stateMap) ≠ some "") := by
  rw [reload_saveProgress_finishMap hsaved]
  have hm : 1 ≤ max 1 stateMap := le_max_left _ _
  generalize max 1 stateMap = m at hm
  set series := st.countMap winner
  set total := totalMaps ctx.maplist ctx.numMaps with htotal
  simp only [Continues, planRecovery, finishMapLocked, Int.toNat_natCast, ← htotal]
  cases hover : isSeriesOver total (remainingMaps total ctx.maplist.length m)
    series.seriesWinsTeam1 series.seriesWinsTeam2 ctx.clinchSeries with
  | true => simp
  | false =>
    have hremaining := remaining_of_not_over hover
    cases he : entryAfter ctx.maplist m with
    | none =>
      have hempty := maplist_of_remaining hm he hremaining
      have hplan : ∀ why, (planAt [] total (m + 1) .warmup why).kind = .none := by
        intro why
        rw [planAt, if_pos (by simp; omega)]
      simp [hempty, hplan]
    | some e =>
      obtain ⟨hlt, -⟩ := remainingMaps_pos he hremaining
      simp only [Bool.false_eq_true, if_false, planAt_next hm he hlt]
      cases forfeit <;> by_cases hempty : e = "" <;> simp [hempty]

/-- A best of three, for the examples below. -/
def bestOfThree : MatchContext := { numMaps := 3, maplist := ["de_nuke", "de_dust2", "de_train"] }

/-- After a won first map the series goes on with the second. -/
theorem planRecovery_continues_won_map :
    Continues
      (finishMapLocked { mode := .matchLive } bestOfThree
        (max 1 1) "de_nuke" 13 7 .team1 false (0, 0))
      (planRecovery (some (Progress.reload ⟨1, .mapOver, 1, 0⟩)) true bestOfThree.maplist
        bestOfThree.numMaps bestOfThree.clinchSeries) :=
  (planRecovery_continues_iff { mode := .matchLive } bestOfThree 1 "de_nuke" 13 7 .team1 false
    (0, 0) false true true ⟨1, .mapOver, 1, 0⟩ rfl).mpr (.inr (.inr (by decide)))

/-- After a forfeit of the first map the live flow ends the series, and a restarted server
warms up for the second map. -/
theorem planRecovery_after_forfeit :
    saveProgress (finishMapLocked { mode := .matchLive } bestOfThree 1 "de_nuke" 5 7 .team2 true
        (0, 0)).modes 1 false true = some ⟨1, .mapOver, 0, 1⟩ ∧
      (finishMapLocked { mode := .matchLive } bestOfThree 1 "de_nuke" 5 7 .team2 true
        (0, 0)).input.seriesOver = true ∧
      (planRecovery (some (Progress.reload ⟨1, .mapOver, 0, 1⟩)) true bestOfThree.maplist
        bestOfThree.numMaps bestOfThree.clinchSeries).kind = .warmup ∧
      ¬Continues
        (finishMapLocked { mode := .matchLive } bestOfThree 1 "de_nuke" 5 7 .team2 true (0, 0))
        (planRecovery (some (Progress.reload ⟨1, .mapOver, 0, 1⟩)) true bestOfThree.maplist
          bestOfThree.numMaps bestOfThree.clinchSeries) := by
  decide

end ReadyUp.Match
