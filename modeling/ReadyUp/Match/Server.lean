import ReadyUp.Match.Resume
import ReadyUp.Match.Series

/-!
# A server with a loaded match

The globals that follow one match through its maps, with the events that move them: the
counters and the damage tally of `match_events.cpp`, the score that the log lines leave in
`match_state.cpp`, the stats model, and the modes. The same facts are kept more than once
(the score in three places, the sides in two), and a restore writes each copy on its own.
-/
namespace ReadyUp.Match

open ReadyUp.Support ReadyUp.Stats

/-- `MatchStateSnapshot`. -/
structure MatchState where
  mapNumber : ℤ := 1
  roundNumber : ℤ := 0
  team1Score : ℤ := 0
  team2Score : ℤ := 0
  currentMap : String := ""
  deriving DecidableEq, Repr

/-- `MatchStateSetRound` ignores a negative number. -/
def MatchState.setRound (m : MatchState) (roundNumber : ℤ) : MatchState :=
  if 0 ≤ roundNumber then { m with roundNumber } else m

def MatchState.setScore (m : MatchState) (team1Score team2Score : ℤ) : MatchState :=
  { m with team1Score, team2Score }

/-- `MatchStateSetMap` keeps the number when it is not a map of the series. -/
def MatchState.setMap (m : MatchState) (mapNumber : ℤ) (currentMap : String) : MatchState :=
  { m with mapNumber := if 1 ≤ mapNumber then mapNumber else m.mapNumber, currentMap }

/-- `map_number <= 0 ? 1 : map_number`. -/
def MatchState.map (m : MatchState) : ℤ := if m.mapNumber ≤ 0 then 1 else m.mapNumber

/-- The rounds played, as the log counts them. -/
def MatchState.total (m : MatchState) : ℤ := m.team1Score + m.team2Score

namespace MatchState

theorem one_le_map (m : MatchState) : 1 ≤ m.map := by
  unfold MatchState.map
  split <;> omega

@[simp] theorem setRound_map (m : MatchState) (n : ℤ) : (m.setRound n).map = m.map := by
  unfold MatchState.setRound
  split <;> rfl

@[simp] theorem setScore_map (m : MatchState) (n k : ℤ) : (m.setScore n k).map = m.map := rfl

theorem setMap_map (m : MatchState) {n : ℤ} (hn : 1 ≤ n) (name : String) :
    (m.setMap n name).map = n := by
  simp only [MatchState.map, MatchState.setMap, if_pos hn]
  rw [if_neg (by omega)]

end MatchState

/-- `PlayerStats` of `match_events.cpp`: what the events counted for one player. -/
structure EventTotals where
  name : Bytes := []
  team : Team := .unknown
  kills : ℤ := 0
  deaths : ℤ := 0
  assists : ℤ := 0
  headshotKills : ℤ := 0
  damage : ℤ := 0
  deriving DecidableEq, Repr

instance : Inhabited EventTotals := ⟨{}⟩

/-- The globals of `match_events.cpp`. -/
structure MatchEvents where
  roundNumber : ℤ := 0
  lastMapNumber : ℤ := 0
  stats : Table ℕ EventTotals := ∅
  health : Table ℤ ℤ := ∅
  spawned : List ℤ := []
  swapCount : ℤ := 0
  lastHalfStartTotal : ℤ := -1
  lastOvertimeNumber : ℤ := 0
  ignoreRoundEndsUntil : ℚ := 0

/-- `Totals`: what the events counted for the player with that SteamID. -/
structure Totals where
  steamid64 : ℕ := 0
  name : Bytes := []
  team : ℤ := 0
  kills : ℤ := 0
  deaths : ℤ := 0
  assists : ℤ := 0
  headshotKills : ℤ := 0
  damage : ℤ := 0
  deriving DecidableEq, Repr

structure MatchEventsState where
  roundNumber : ℤ := 0
  lastMapNumber : ℤ := 0
  swapCount : ℤ := 0
  lastHalfStartTotal : ℤ := -1
  lastOvertimeNumber : ℤ := 0
  players : List Totals := []
  deriving DecidableEq, Repr

/-- `MatchLogState`: the log receiver's own copy of round and score. -/
structure MatchLogState where
  mapNumber : ℤ := 1
  roundNumber : ℤ := 0
  team1Score : ℤ := 0
  team2Score : ℤ := 0
  currentMap : String := ""
  deriving DecidableEq, Repr

/-- The step that `MatchEndOnMapComplete` has scheduled. -/
inductive MapEndStep where
  | nextMap (map : String)
  | reset
  deriving DecidableEq, Repr

/-- `map_names.h`: which entry of a map list a loaded map is, and its plain name. -/
structure MapNames where
  entryMatchesLoaded : String → String → Bool
  loadedBaseName : String → String

structure Server where
  maps : MapNames
  ctx : MatchContext
  playoutByDefault : Bool := false
  matchState : MatchState := {}
  log : MatchLogState := {}
  events : MatchEvents := {}
  stats : StatsAccumulator := {}
  modes : Modes := {}
  mapResults : List MapResult := []
  pending : Option MapEndStep := none
  /-- The map the engine has been told to load. -/
  loading : Option String := none

/-! ## Players -/

/-- What `StatsIdForController` reads from a controller; id 0 stands for nobody. -/
structure Observed where
  id : ℕ := 0
  name : Bytes := []
  side : ℤ := 0
  bot : Bool := false
  deriving DecidableEq, Repr

/-- A player of a game event: his slot, his SteamID and name when they are known, and the
team that `GetCsTeamNumForSlot` finds. -/
structure EventPlayer where
  slot : ℤ := -1
  steam : Option ℕ := none
  name : Bytes := []
  csTeam : Option ℤ := none
  observed : Observed := {}
  deriving DecidableEq, Repr

def teamForSteam (ctx : MatchContext) (id : ℕ) : Team :=
  (ctx.rosterTeam.lookup id).getD .unknown

def teamSlotOf (ctx : MatchContext) (o : Observed) : ℤ :=
  if o.bot then 0
  else
    match teamForSteam ctx o.id with
    | .team1 => 1
    | .team2 => 2
    | .unknown => 0

def statsIdForController (ctx : MatchContext) (a : StatsAccumulator) (o : Observed) :
    StatsAccumulator :=
  a.observePlayer o.id o.name o.side (teamSlotOf ctx o) o.bot

/-- Damage and kills count against the other side only; an unknown side counts. -/
def enemies (attacker victim : EventPlayer) : Bool :=
  if attacker.slot < 0 ∨ victim.slot < 0 ∨ attacker.slot = victim.slot then false
  else
    match attacker.csTeam, victim.csTeam with
    | some ta, some tv => decide (ta ≠ tv)
    | _, _ => true

/-! ## The event counters -/

namespace MatchEvents

/-- `MaybeResetForMapLocked`. -/
def maybeResetForMap (ev : MatchEvents) (mapNumber : ℤ) : MatchEvents :=
  let mapNumber := if mapNumber ≤ 0 then 1 else mapNumber
  if ev.lastMapNumber ≠ mapNumber then
    { lastMapNumber := mapNumber, ignoreRoundEndsUntil := ev.ignoreRoundEndsUntil }
  else ev

/-- Writes through `g_stats[steam]`, with the player's name and team brought up to date. -/
def credit (ev : MatchEvents) (ctx : MatchContext) (p : EventPlayer) (steam : ℕ)
    (f : EventTotals → EventTotals) : MatchEvents :=
  let known := fun s : EventTotals =>
    { s with name := if p.name = [] then s.name else p.name, team := teamForSteam ctx steam }
  { ev with stats := ev.stats.modify steam fun s => f (known s) }

/-- `OnPlayerHurtLocked`: the health the hit took, not the damage the weapon reports. -/
def onPlayerHurt (ev : MatchEvents) (ctx : MatchContext) (victim attacker : EventPlayer)
    (dmgHealth health : ℤ) : MatchEvents :=
  let before := max 0 ((ev.health.lookup victim.slot).getD 100)
  let after := max 0 (min health before)
  let ev := if 0 ≤ victim.slot then { ev with health := ev.health.insert victim.slot after } else ev
  let dmg := if dmgHealth > 0 then before - after else 0
  match attacker.steam with
  | none => ev
  | some steam =>
    if enemies attacker victim then
      ev.credit ctx attacker steam fun s => { s with damage := s.damage + max 0 dmg }
    else ev

/-- `OnPlayerDeathLocked`. -/
def onPlayerDeath (ev : MatchEvents) (ctx : MatchContext)
    (victim attacker assister : EventPlayer) (headshot : Bool) : MatchEvents :=
  let ev :=
    match attacker.steam with
    | some steam =>
      if enemies attacker victim then
        ev.credit ctx attacker steam fun s =>
          { s with
            kills := s.kills + 1
            headshotKills := if headshot then s.headshotKills + 1 else s.headshotKills }
      else ev
    | none => ev
  let ev :=
    match victim.steam with
    | some steam => ev.credit ctx victim steam fun s => { s with deaths := s.deaths + 1 }
    | none => ev
  match assister.steam, attacker.steam, victim.steam with
  | some a, some k, some v =>
    if a ≠ k ∧ a ≠ v ∧ enemies assister victim then
      ev.credit ctx assister a fun s => { s with assists := s.assists + 1 }
    else ev
  | _, _, _ => ev

/-- The totals with one player of the rosters added. -/
def addDamage (ev : MatchEvents) (totals : ℤ × ℤ) (kv : Sigma fun _ : ℕ => Team) : ℤ × ℤ :=
  match ev.stats.lookup kv.1 with
  | none => totals
  | some s =>
    match kv.2 with
    | .team1 => (totals.1 + max 0 s.damage, totals.2)
    | .team2 => (totals.1, totals.2 + max 0 s.damage)
    | .unknown => totals

/-- `GetRosterTeamDamageTotals`. -/
def rosterTeamDamageTotals (ev : MatchEvents) (ctx : MatchContext) : ℤ × ℤ :=
  ctx.rosterTeam.entries.foldl ev.addDamage (0, 0)

/-- An entry of the tally as it is saved. -/
def totalsOf (kv : Sigma fun _ : ℕ => EventTotals) : Totals :=
  { steamid64 := kv.1
    name := kv.2.name
    team := kv.2.team.toInt
    kills := kv.2.kills
    deaths := kv.2.deaths
    assists := kv.2.assists
    headshotKills := kv.2.headshotKills
    damage := kv.2.damage }

/-- What a saved entry is restored to. -/
def ofTotals (t : Totals) : EventTotals :=
  { name := t.name
    team := Team.ofInt t.team
    kills := t.kills
    deaths := t.deaths
    assists := t.assists
    headshotKills := t.headshotKills
    damage := t.damage }

/-- `MatchEventsSnapshot`. -/
def snapshot (ev : MatchEvents) : MatchEventsState :=
  { roundNumber := ev.roundNumber
    lastMapNumber := ev.lastMapNumber
    swapCount := ev.swapCount
    lastHalfStartTotal := ev.lastHalfStartTotal
    lastOvertimeNumber := ev.lastOvertimeNumber
    players := ev.stats.entries.map totalsOf }

/-- A slot joins the set of those that have spawned. -/
def insertSpawned (spawned : List ℤ) (slot : ℤ) : List ℤ :=
  if slot ∈ spawned then spawned else spawned ++ [slot]

/-- `MatchEventsRestore`; `onTeams` are the slots of humans and bots on T or CT. -/
def restore (ev : MatchEvents) (s : MatchEventsState) (onTeams : List ℤ) : MatchEvents :=
  { ev with
    roundNumber := s.roundNumber
    lastMapNumber := s.lastMapNumber
    swapCount := s.swapCount
    lastHalfStartTotal := s.lastHalfStartTotal
    lastOvertimeNumber := s.lastOvertimeNumber
    stats := s.players.foldl (fun stats t => stats.insert t.steamid64 (ofTotals t)) ∅
    spawned := onTeams.foldl insertSpawned ev.spawned }

/-- The half that starts with this round, if one does: sides are switched once for it. -/
def startsHalf (ev : MatchEvents) (ctx : MatchContext) (sum : ℤ) : Bool :=
  let maxRounds := max 1 ctx.maxRounds
  let seg := max 1 ctx.overtimeSegments
  let regulation := decide (sum = maxRounds / 2 ∧ ev.lastHalfStartTotal ≠ sum)
  let overtime := ctx.overtimeEnabled && decide (maxRounds ≤ sum) &&
    decide ((sum - maxRounds) % (2 * seg) = seg ∧ ev.lastHalfStartTotal ≠ sum)
  regulation || overtime

/-- The overtime that starts with this round, if it has not been announced. -/
def startsOvertime (ev : MatchEvents) (ctx : MatchContext) (team1Score team2Score : ℤ) :
    Option ℤ :=
  let maxRounds := max 1 ctx.maxRounds
  let block := 2 * max 1 ctx.overtimeSegments
  let past := team1Score + team2Score - maxRounds
  if ctx.overtimeEnabled ∧ 0 ≤ past ∧ past % block = 0 ∧ team1Score = team2Score ∧
      past / block + 1 > ev.lastOvertimeNumber then
    some (past / block + 1)
  else none

/-- The counters of `OnRoundStartLocked`. -/
def onRoundStart (ev : MatchEvents) (ctx : MatchContext) (team1Score team2Score : ℤ) :
    MatchEvents :=
  let sum := team1Score + team2Score
  let half := ev.startsHalf ctx sum
  { ev with
    lastOvertimeNumber := (ev.startsOvertime ctx team1Score team2Score).getD ev.lastOvertimeNumber
    lastHalfStartTotal := if half then sum else ev.lastHalfStartTotal
    swapCount := if half then ev.swapCount + 1 else ev.swapCount
    roundNumber := ev.roundNumber + 1 }

/-- `MatchEventsOnMatchStart`, the part in this module. -/
def onMatchStart (ev : MatchEvents) : MatchEvents :=
  { ev with
    roundNumber := 0
    swapCount := 0
    lastHalfStartTotal := -1
    lastOvertimeNumber := 0
    stats := ∅ }

end MatchEvents

def initialTeam1IsCtForMap (ctx : MatchContext) (mapNumber : ℤ) : Bool :=
  match mapSide ctx mapNumber with
  | some side => decide (side ≠ "team2_ct")
  | none => true

def team1IsCtWithSwapCount (ctx : MatchContext) (mapNumber swapCount : ℤ) : Bool :=
  let team1IsCt := initialTeam1IsCtForMap ctx mapNumber
  if swapCount % 2 ≠ 0 then !team1IsCt else team1IsCt

namespace Server

/-- `StatsSyncSidesLocked`. -/
def statsSyncSides (s : Server) : Server :=
  let team1IsCt := team1IsCtWithSwapCount s.ctx s.matchState.map s.events.swapCount
  { s with stats := s.stats.setTeam1IsCt team1IsCt }

/-- `StatsRegisterRoundPlayersLocked`; `controllers` are the controllers of the slots. -/
def statsRegisterRoundPlayers (s : Server) (controllers : List (ℤ × Observed)) : Server :=
  let s := s.statsSyncSides
  let s := { s with stats := s.stats.onRoundStart }
  if s.stats.live then
    { s with stats := s.events.spawned.foldl (fun a slot =>
        match controllers.lookup slot with
        | some o => statsIdForController s.ctx a o
        | none => a) s.stats }
  else s

/-- `StatsOnRoundEndLocked`: everyone who spawned is seen once more, with the score on the
scoreboard when it can be read. -/
def statsOnRoundEnd (s : Server) (winner reason : ℤ)
    (controllers : List (ℤ × Observed × Option ℤ)) : Server :=
  let s := s.statsSyncSides
  let a := s.events.spawned.foldl (fun a slot =>
    match controllers.lookup slot with
    | some (o, score) =>
      let a := statsIdForController s.ctx a o
      match score with
      | some v => if o.id ≠ 0 ∧ 0 ≤ v ∧ v < 1000000 then a.setScore o.id v else a
      | none => a
    | none => a) s.stats
  { s with stats := a.onRoundEnd winner reason }

/-! ## Going live -/

/-- The end of `OnMatchRoundStarted` and of `ForceStartMatch`: the map is live, and its stats
begin unless they have for this map already. -/
def goLive (s : Server) : Server :=
  let mapNumber := s.matchState.map
  let fresh := s.modes.lifecycleMapNumber ≠ mapNumber ∨ s.modes.goingLiveSent = false
  { s with
    modes := { s.modes with
      mode := .matchLive
      startTriggered := false
      lifecycleMapNumber := mapNumber
      warmupEndedSent := true
      goingLiveSent := true }
    stats := if fresh then s.stats.beginMap (initialTeam1IsCtForMap s.ctx mapNumber) else s.stats }

/-- `OnMatchRoundStarted`; `justRestarted` says that the go-live restart is under 900 ms old. -/
def onMatchRoundStarted (s : Server) (justRestarted : Bool) : Server :=
  if s.modes.mode ≠ .matchWarmup then s
  else if s.modes.warmupEnabled && !s.modes.startTriggered then s
  else if s.modes.startTriggered && justRestarted then s
  else s.goLive

/-- `ForceStartMatch`; `allowed` is what `EsportsGoLiveAllowed` says. -/
def forceStartMatch (s : Server) (allowed : Bool) : Server := if allowed then s.goLive else s

/-- `MaybeGateMatchLocked` once the roster is connected and ready. A recovered match goes on as
it is; otherwise the restart that goes live is sent. -/
def maybeGateMatch (s : Server) : Server :=
  if s.modes.mode ≠ .matchWarmup ∨ s.modes.warmupEnabled = false then s
  else if s.modes.recoveryGate then
    { s with
      modes := { s.modes with mode := .matchLive, recoveryGate := false }
      stats :=
        if s.stats.live then s.stats
        else s.stats.beginMap (initialTeam1IsCtForMap s.ctx s.matchState.map) }
  else { s with modes := { s.modes with startTriggered := true } }

/-- `RestartMatch`: back to the warmup of the current map. -/
def restartMatch (s : Server) : Server :=
  { s with
    modes := { s.modes with
      mode := .matchWarmup
      startTriggered := false
      lifecycleMapNumber := 0
      warmupEndedSent := false
      goingLiveSent := false
      mapResultEmittedForMapNumber := 0
      seriesWinsTeam1 := 0
      seriesWinsTeam2 := 0
      recoveryGate := false }
    stats := s.stats.clear
    pending := none }

/-! ## The end of a map -/

/-- `FinishMapLocked`, with the part of `MatchEndOnMapComplete` that acts on the match. -/
def finishMap (s : Server) (mapNumber : ℤ) (map : String) (team1Score team2Score : ℤ)
    (winner : MapWinner) (forfeit : Bool) : Server :=
  let f := finishMapLocked s.modes s.ctx mapNumber map team1Score team2Score winner forfeit
    (s.events.rosterTeamDamageTotals s.ctx)
  { s with
    modes := f.modes
    mapResults := s.mapResults ++ [f.result]
    stats := s.stats.endMap
    pending := some (if f.input.seriesOver then .reset else .nextMap f.input.nextMap) }

/-- The name of the map, from the list when the server does not know it. -/
def mapNameOr (s : Server) (mapNumber : ℤ) (map : String) : String :=
  if map = "" ∧ 1 ≤ mapNumber then (s.ctx.maplist[(mapNumber - 1).toNat]?).getD map else map

def onMatchRoundEnded (s : Server) (mapNumber team1Score team2Score : ℤ) (mapName : String) :
    Server :=
  let mapNumber := if mapNumber ≤ 0 then 1 else mapNumber
  if s.modes.mapResultEmittedForMapNumber = mapNumber then s
  else
    match determineMapWinnerIfComplete s.ctx (playoutOn s.ctx s.playoutByDefault)
      (s.events.rosterTeamDamageTotals s.ctx) team1Score team2Score with
    | none => s
    | some winner =>
      s.finishMap mapNumber (s.mapNameOr mapNumber mapName) team1Score team2Score winner false

def forfeitCurrentMap (s : Server) (loser : Slot) : Server :=
  let mapNumber := s.matchState.map
  if s.modes.mode ≠ .matchLive ∨ s.modes.mapResultEmittedForMapNumber = mapNumber then s
  else
    let winner := match loser with
      | .team1 => MapWinner.team2
      | .team2 => MapWinner.team1
    s.finishMap mapNumber (s.mapNameOr mapNumber s.matchState.currentMap) s.matchState.team1Score
      s.matchState.team2Score winner true

/-- The task that `ModesOnEngineGameOver` schedules. -/
def onEngineGameOver (s : Server) (ctScore tScore : ℤ) : Server :=
  let mapNumber := s.matchState.map
  if s.modes.mode ≠ .matchLive ∨ s.modes.mapResultEmittedForMapNumber = mapNumber then s
  else
    let t1 := max 0 (if s.stats.team1IsCt then ctScore else tScore)
    let t2 := max 0 (if s.stats.team1IsCt then tScore else ctScore)
    let winner := if t1 > t2 then MapWinner.team1 else if t2 > t1 then .team2 else .none
    s.finishMap mapNumber (s.mapNameOr mapNumber s.matchState.currentMap) t1 t2 winner false

/-- The task that `ScheduleNextMap` leaves, with `ModesBeginNextMapWarmup`. -/
def beginNextMap (s : Server) : Server :=
  match s.pending with
  | some (.nextMap next) =>
    { s with
      pending := none
      modes :=
        if s.modes.mode = .postgame then
          { s.modes with
            mode := .matchWarmup
            startTriggered := false
            lifecycleMapNumber := 0
            warmupEndedSent := false
            goingLiveSent := false }
        else s.modes
      loading := if next = "" then s.loading else some next }
  | _ => s

/-- The place of a loaded map in the list, searched from the entry after map `mapNumber` on
and then from the front. -/
def loadedMapNumber (s : Server) (loaded : String) : ℤ :=
  let mapNumber := if s.log.mapNumber < 1 then 1 else s.log.mapNumber
  let isEntry := fun e => s.maps.entryMatchesLoaded e loaded
  match (s.ctx.maplist.drop mapNumber.toNat).findIdx? isEntry with
  | some k => mapNumber + k + 1
  | none =>
    match s.ctx.maplist.findIdx? isEntry with
    | some k => k + 1
    | none => if s.log.currentMap = "" then mapNumber else mapNumber + 1

/-- `MapChanged`, called for a map whose name is not the current one. -/
def mapLoaded (s : Server) (loaded : String) : Server :=
  let name := s.maps.loadedBaseName loaded
  let s := { s with loading := none }
  if name = s.log.currentMap then s
  else
    let number := s.loadedMapNumber loaded
    { s with
      log := { mapNumber := number, currentMap := name }
      matchState := ((s.matchState.setMap number name).setRound 0).setScore 0 0 }

/-! ## Rounds -/

/-- `OnRoundStartLocked`. A knife round leaves the counters alone. -/
def onRoundStart (s : Server) (justRestarted : Bool) (controllers : List (ℤ × Observed)) : Server :=
  let s := { s with events := s.events.maybeResetForMap s.matchState.mapNumber }
  if s.modes.mode = .matchKnife then s
  else
    let events := s.events.onRoundStart s.ctx s.matchState.team1Score s.matchState.team2Score
    let s := { s with events, matchState := s.matchState.setRound events.roundNumber }
    (s.onMatchRoundStarted justRestarted).statsRegisterRoundPlayers controllers

/-- The end-of-round notice in the log: CT and T score go to team1 and team2 as they are. -/
def onNotice (s : Server) (ct t : ℤ) : Server :=
  if s.modes.mode = .matchKnife then s
  else
    { s with
      log := { s.log with team1Score := ct, team2Score := t }
      matchState := s.matchState.setScore ct t }

/-- `EmitRoundEndLocked`: the stats model closes the round, and its score decides the map. -/
def emitRoundEnd (s : Server) (winner reason : ℤ)
    (controllers : List (ℤ × Observed × Option ℤ)) : Server :=
  let closed := if s.stats.live then s.statsOnRoundEnd winner reason controllers else s
  let score :=
    if s.stats.live then (closed.stats.t1.score, closed.stats.t2.score)
    else (s.matchState.team1Score, s.matchState.team2Score)
  closed.onMatchRoundEnded s.matchState.mapNumber score.1 score.2 s.matchState.currentMap

/-- `OnRoundEndLocked`: round ends right after a restore are the engine's, not the match's. -/
def onRoundEnd (s : Server) (winner reason : ℤ) (now : ℚ)
    (controllers : List (ℤ × Observed × Option ℤ)) : Server :=
  if now < s.events.ignoreRoundEndsUntil then s
  else
    let s := { s with events := s.events.maybeResetForMap s.matchState.mapNumber }
    if s.modes.mode = .matchKnife then s else s.emitRoundEnd winner reason controllers

/-- `player_hurt`, in the event tally and in the stats model. -/
def onPlayerHurt (s : Server) (victim attacker : EventPlayer) (dmgHealth health : ℤ)
    (weapon : String) : Server :=
  let events := (s.events.maybeResetForMap s.matchState.mapNumber).onPlayerHurt s.ctx victim
    attacker dmgHealth health
  let s := { s with events }
  if s.stats.live then
    let s := s.statsSyncSides
    let a := statsIdForController s.ctx (statsIdForController s.ctx s.stats victim.observed)
      attacker.observed
    let a := a.onPlayerHurt victim.observed.id attacker.observed.id dmgHealth health weapon
    { s with stats := a }
  else s

/-- `player_death`, in the event tally and in the stats model. -/
def onPlayerDeath (s : Server) (victim attacker assister : EventPlayer)
    (assistedFlash headshot : Bool) (weapon : String) (time : ℚ) : Server :=
  let events := (s.events.maybeResetForMap s.matchState.mapNumber).onPlayerDeath s.ctx victim
    attacker assister headshot
  let s := { s with events }
  if s.stats.live then
    let s := s.statsSyncSides
    let a := [victim, attacker, assister].foldl
      (fun a p => statsIdForController s.ctx a p.observed) s.stats
    let a := a.onPlayerDeath victim.observed.id attacker.observed.id assister.observed.id
      assistedFlash headshot weapon time
    { s with stats := a }
  else s

def onPlayerSpawn (s : Server) (slot : ℤ) : Server :=
  let ev := s.events.maybeResetForMap s.matchState.mapNumber
  { s with events :=
      if 0 ≤ slot then
        { ev with
          spawned := MatchEvents.insertSpawned ev.spawned slot
          health := ev.health.erase slot }
      else ev }

def onPlayerDisconnect (s : Server) (slot : ℤ) : Server :=
  let ev := s.events.maybeResetForMap s.matchState.mapNumber
  { s with events := if 0 ≤ slot then { ev with spawned := ev.spawned.erase slot } else ev }

/-- `World triggered "Match_Start"`: the counters of the map start over. -/
def onMatchStart (s : Server) : Server :=
  { s with
    events := s.events.onMatchStart
    matchState := (s.matchState.setRound 0).setScore 0 0 }

/-- `DoRestoreNow`: the rounds from `round` on are voided in the stats model, the round counters
and the scores. `scoreT1` and `scoreT2`, when known, win over the stats. -/
def doRestoreNow (s : Server) (round scoreT1 scoreT2 : ℤ) (now : ℚ) (onTeams : List ℤ) : Server :=
  let stats := s.stats.restoreRound round scoreT1 scoreT2
  let events := { s.events with ignoreRoundEndsUntil := now + 5 }
  let es := { events.snapshot with roundNumber := round - 1 }
  { s with
    stats
    matchState := (s.matchState.setRound (round - 1)).setScore stats.t1.score stats.t2.score
    events := events.restore es onTeams
    log := { s.log with
      roundNumber := round - 1
      team1Score := stats.t1.score
      team2Score := stats.t2.score } }

end Server

/-- What happens to a server with a loaded match. -/
inductive MatchEvent where
  | roundStart (justRestarted : Bool) (controllers : List (ℤ × Observed))
  | notice (ct t : ℤ)
  | roundEnd (winner reason : ℤ) (now : ℚ) (controllers : List (ℤ × Observed × Option ℤ))
  | playerHurt (victim attacker : EventPlayer) (dmgHealth health : ℤ) (weapon : String)
  | playerDeath (victim attacker assister : EventPlayer) (assistedFlash headshot : Bool)
      (weapon : String) (time : ℚ)
  | playerSpawn (slot : ℤ)
  | playerDisconnect (slot : ℤ)
  | matchStart
  | rosterReady
  | forceStart (allowed : Bool)
  | forfeit (loser : Slot)
  | engineGameOver (ctScore tScore : ℤ)
  | nextMap
  | mapLoaded (loaded : String)
  | restartMatch
  | restore (round scoreT1 scoreT2 : ℤ) (now : ℚ) (onTeams : List ℤ)
  deriving DecidableEq, Repr

def Server.step (s : Server) : MatchEvent → Server
  | .roundStart justRestarted controllers => s.onRoundStart justRestarted controllers
  | .notice ct t => s.onNotice ct t
  | .roundEnd winner reason now controllers => s.onRoundEnd winner reason now controllers
  | .playerHurt victim attacker dmgHealth health weapon =>
    s.onPlayerHurt victim attacker dmgHealth health weapon
  | .playerDeath victim attacker assister assistedFlash headshot weapon time =>
    s.onPlayerDeath victim attacker assister assistedFlash headshot weapon time
  | .playerSpawn slot => s.onPlayerSpawn slot
  | .playerDisconnect slot => s.onPlayerDisconnect slot
  | .matchStart => s.onMatchStart
  | .rosterReady => s.maybeGateMatch
  | .forceStart allowed => s.forceStartMatch allowed
  | .forfeit loser => s.forfeitCurrentMap loser
  | .engineGameOver ctScore tScore => s.onEngineGameOver ctScore tScore
  | .nextMap => s.beginNextMap
  | .mapLoaded loaded => s.mapLoaded loaded
  | .restartMatch => s.restartMatch
  | .restore round scoreT1 scoreT2 now onTeams => s.doRestoreNow round scoreT1 scoreT2 now onTeams

end ReadyUp.Match
