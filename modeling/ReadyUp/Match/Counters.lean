import ReadyUp.Match.Server

/-!
# The counters on one map

What an event can do to the score of the log and to the counters of the events while a map is
played. The modes and the stats model read them and leave them alone, so each event is described
by its effect on one triple.
-/
namespace ReadyUp.Match

open ReadyUp.Support ReadyUp.Stats

/-- Everything but a new map and a new start of the game on it. -/
def MatchEvent.OnMap : MatchEvent → Prop
  | .matchStart | .mapLoaded _ => False
  | _ => True

namespace MatchEvents

/-- The map and the halves that the events have counted. -/
def halves (ev : MatchEvents) : ℤ × ℤ × ℤ := (ev.lastMapNumber, ev.swapCount, ev.lastHalfStartTotal)

theorem lastMapNumber_of_halves {ev ev' : MatchEvents} (h : ev'.halves = ev.halves) :
    ev'.lastMapNumber = ev.lastMapNumber := congrArg Prod.fst h

theorem onPlayerHurt_halves (ev : MatchEvents) (ctx : MatchContext)
    (victim attacker : EventPlayer) (dmgHealth health : ℤ) :
    (ev.onPlayerHurt ctx victim attacker dmgHealth health).halves = ev.halves := by
  unfold onPlayerHurt
  dsimp only
  repeat' split
  all_goals rfl

theorem onPlayerDeath_halves (ev : MatchEvents) (ctx : MatchContext)
    (victim attacker assister : EventPlayer) (headshot : Bool) :
    (ev.onPlayerDeath ctx victim attacker assister headshot).halves = ev.halves := by
  unfold onPlayerDeath
  dsimp only
  repeat' split
  all_goals rfl

end MatchEvents

namespace Server

/-- The counters of the events are those of the current map. -/
def OnItsMap (s : Server) : Prop := s.events.lastMapNumber = s.matchState.map

/-- The score of the log and the counters of the events, which the modes only read. -/
def counters (s : Server) : MatchContext × MatchState × MatchEvents :=
  (s.ctx, s.matchState, s.events)

theorem counters_eq_iff {t : Server} {ctx : MatchContext} {m : MatchState} {ev : MatchEvents} :
    t.counters = (ctx, m, ev) ↔ t.ctx = ctx ∧ t.matchState = m ∧ t.events = ev := by
  simp only [counters, Prod.mk.injEq]

@[simp] theorem onMatchRoundStarted_counters (s : Server) (justRestarted : Bool) :
    (s.onMatchRoundStarted justRestarted).counters = s.counters := by
  unfold onMatchRoundStarted
  split_ifs <;> rfl

@[simp] theorem statsRegisterRoundPlayers_counters (s : Server)
    (controllers : List (ℤ × Observed)) :
    (s.statsRegisterRoundPlayers controllers).counters = s.counters := by
  unfold statsRegisterRoundPlayers
  dsimp only
  split <;> rfl

@[simp] theorem maybeGateMatch_counters (s : Server) : s.maybeGateMatch.counters = s.counters := by
  unfold maybeGateMatch
  split_ifs <;> rfl

@[simp] theorem onMatchRoundEnded_counters (s : Server) (mapNumber team1Score team2Score : ℤ)
    (mapName : String) :
    (s.onMatchRoundEnded mapNumber team1Score team2Score mapName).counters = s.counters := by
  unfold onMatchRoundEnded
  dsimp only
  generalize (if mapNumber ≤ 0 then 1 else mapNumber) = m
  split_ifs
  · rfl
  · split <;> rfl

@[simp] theorem emitRoundEnd_counters (s : Server) (winner reason : ℤ)
    (controllers : List (ℤ × Observed × Option ℤ)) :
    (s.emitRoundEnd winner reason controllers).counters = s.counters := by
  unfold emitRoundEnd
  rw [onMatchRoundEnded_counters]
  split <;> rfl

@[simp] theorem forfeitCurrentMap_counters (s : Server) (loser : Slot) :
    (s.forfeitCurrentMap loser).counters = s.counters := by
  unfold forfeitCurrentMap
  dsimp only
  split_ifs <;> rfl

@[simp] theorem onEngineGameOver_counters (s : Server) (ctScore tScore : ℤ) :
    (s.onEngineGameOver ctScore tScore).counters = s.counters := by
  unfold onEngineGameOver
  dsimp only
  by_cases h : s.modes.mode ≠ .matchLive ∨
      s.modes.mapResultEmittedForMapNumber = s.matchState.map
  · rw [if_pos h]
  · rw [if_neg h]
    rfl

@[simp] theorem beginNextMap_counters (s : Server) : s.beginNextMap.counters = s.counters := by
  unfold beginNextMap
  split <;> rfl

@[simp] theorem onPlayerHurt_counters (s : Server) (victim attacker : EventPlayer)
    (dmgHealth health : ℤ) (weapon : String) :
    (s.onPlayerHurt victim attacker dmgHealth health weapon).counters =
      (s.ctx, s.matchState, (s.events.maybeResetForMap s.matchState.mapNumber).onPlayerHurt s.ctx
        victim attacker dmgHealth health) := by
  unfold onPlayerHurt
  dsimp only
  split <;> rfl

@[simp] theorem onPlayerDeath_counters (s : Server) (victim attacker assister : EventPlayer)
    (assistedFlash headshot : Bool) (weapon : String) (time : ℚ) :
    (s.onPlayerDeath victim attacker assister assistedFlash headshot weapon time).counters =
      (s.ctx, s.matchState, (s.events.maybeResetForMap s.matchState.mapNumber).onPlayerDeath s.ctx
        victim attacker assister headshot) := by
  unfold onPlayerDeath
  dsimp only
  split <;> rfl

theorem maybeResetForMap_self {s : Server} (h : s.OnItsMap) :
    s.events.maybeResetForMap s.matchState.mapNumber = s.events :=
  if_neg (not_not.mpr h)

variable {s : Server}

theorem onRoundStart_counters (hmap : s.OnItsMap) (justRestarted : Bool)
    (controllers : List (ℤ × Observed)) :
    (s.onRoundStart justRestarted controllers).counters =
      if s.modes.mode = .matchKnife then s.counters
      else
        let ev := s.events.onRoundStart s.ctx s.matchState.team1Score s.matchState.team2Score
        (s.ctx, s.matchState.setRound ev.roundNumber, ev) := by
  unfold onRoundStart
  dsimp only
  rw [maybeResetForMap_self hmap]
  split_ifs
  · rfl
  · simp only [statsRegisterRoundPlayers_counters, onMatchRoundStarted_counters]
    rfl

theorem onRoundEnd_counters (hmap : s.OnItsMap) (winner reason : ℤ) (now : ℚ)
    (controllers : List (ℤ × Observed × Option ℤ)) :
    (s.onRoundEnd winner reason now controllers).counters = s.counters := by
  unfold onRoundEnd
  dsimp only
  rw [maybeResetForMap_self hmap]
  split_ifs
  · rfl
  · rfl
  · exact emitRoundEnd_counters _ _ _ _

theorem step_halves (hmap : s.OnItsMap) {e : MatchEvent} (he : e.OnMap)
    (hstart : ∀ justRestarted controllers, e ≠ .roundStart justRestarted controllers) :
    (s.step e).events.halves = s.events.halves := by
  have hreset := maybeResetForMap_self hmap
  have same : ∀ {t : Server}, t.counters = s.counters → t.events.halves = s.events.halves :=
    fun ht => congrArg (fun c => c.2.2.halves) ht
  cases e with
  | roundStart justRestarted controllers => exact absurd rfl (hstart _ _)
  | notice ct t =>
    simp only [step, onNotice]
    split <;> rfl
  | roundEnd winner reason now controllers => exact same (onRoundEnd_counters hmap _ _ _ _)
  | playerHurt victim attacker dmgHealth health weapon =>
    simp only [step]
    rw [(counters_eq_iff.mp (s.onPlayerHurt_counters ..)).2.2, hreset,
      MatchEvents.onPlayerHurt_halves]
  | playerDeath victim attacker assister assistedFlash headshot weapon time =>
    simp only [step]
    rw [(counters_eq_iff.mp (s.onPlayerDeath_counters ..)).2.2, hreset,
      MatchEvents.onPlayerDeath_halves]
  | playerSpawn slot =>
    simp only [step, onPlayerSpawn, hreset]
    split <;> rfl
  | playerDisconnect slot =>
    simp only [step, onPlayerDisconnect, hreset]
    split <;> rfl
  | matchStart => exact he.elim
  | rosterReady => exact same s.maybeGateMatch_counters
  | forceStart allowed => cases allowed <;> rfl
  | forfeit loser => exact same (s.forfeitCurrentMap_counters loser)
  | engineGameOver ctScore tScore => exact same (s.onEngineGameOver_counters _ _)
  | nextMap => exact same s.beginNextMap_counters
  | mapLoaded loaded => exact he.elim
  | restartMatch => rfl
  | restore round scoreT1 scoreT2 now onTeams => rfl

end Server

end ReadyUp.Match
