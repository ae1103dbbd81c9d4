import Mathlib.Algebra.Order.Ring.Rat
import ReadyUp.Config.Ruleset
import ReadyUp.Match.ReadyGate
import ReadyUp.Match.Series

/-!
# Pauses of a live map

`pause_state.cpp` keeps the pause of the match, which teams have asked to go on, and how many pauses
each team has had on the map. `match_features.cpp` starts and ends pauses for the teams and follows
the engine's own; admins, the platform, the backup restore and the match flow start and end them as
well. Every step adds what it did to a log.
-/
namespace ReadyUp.Match

open Support
open Config (MatchRules)

section PauseState

/-- The type of a pause, `PauseSnapshot::type`. -/
inductive PauseType where
  | tactical
  | technical
  | admin
  | offline
  | halftime
  | auto5v5
  | engine
  | restore
  deriving DecidableEq

/-- The pauses that are counted for a team. -/
inductive PauseKind where
  | tactical
  | technical
  deriving DecidableEq

/-- `TypeIndex` -/
def PauseType.kind : PauseType → Option PauseKind
  | .tactical => some .tactical
  | .technical => some .technical
  | _ => none

/-- `UsedIndex` -/
def Team.slot : Team → Option Slot
  | .unknown => none
  | .team1 => some .team1
  | .team2 => some .team2

def Slot.team : Slot → Team
  | .team1 => .team1
  | .team2 => .team2

structure PauseSnapshot where
  paused : Bool := false
  team1Ready : Bool := false
  team2Ready : Bool := false
  type : Option PauseType := none
  team : Team := .unknown

/-- The variables of `pause_state.cpp`. -/
structure PauseState extends PauseSnapshot where
  used : Slot → PauseKind → ℕ := fun _ _ => 0

namespace PauseState

variable (s : PauseState)

/-- `PauseStateOnPaused` -/
def onPaused (type : PauseType) (team : Team) : PauseState :=
  { s with paused := true, type := some type, team := team, team1Ready :=
    false, team2Ready := false }

/-- `PauseStateOnUnpaused` -/
def onUnpaused : PauseState := { s with paused := false, team1Ready := false, team2Ready := false }

def ready : Slot → Bool
  | .team1 => s.team1Ready
  | .team2 => s.team2Ready

/-- `PauseStateRequestUnpause` -/
def requestUnpause : Team → PauseState
  | .team1 => { s with team1Ready := true }
  | .team2 => { s with team2Ready := true }
  | .unknown => s

/-- `PauseStateCountUse` -/
def countUse (team : Team) (kind : PauseKind) : PauseState :=
  match team.slot with
  | none => s
  | some w => { s with used := fun v k => if v = w ∧ k = kind then s.used v k + 1 else s.used v k }

/-- `PauseStateUsed` -/
def usedBy (team : Team) (kind : PauseKind) : ℕ :=
  match team.slot with
  | none => 0
  | some w => s.used w kind

/-- `PauseStateResetUsage` -/
def resetUsage : PauseState := { s with used := fun _ _ => 0 }

/-- `PauseStateSave`: the type and the team only while there is a pause. -/
def save : PauseSnapshot :=
  if s.paused then s.toPauseSnapshot else { s.toPauseSnapshot with type := none, team := .unknown }

/-- `PauseStateRestore` with `PauseStateUsageRestore`, after a reload of the plugin. -/
def reloaded : PauseState := { s.save with used := s.used }

end PauseState

end PauseState

section Rules

def techPauseAllowed (used limit : ℤ) : Bool := limit ≤ 0 || used < limit

def techPauseSecondsLeft (elapsedSeconds maxSeconds : ℤ) : ℤ :=
  if maxSeconds ≤ 0 then -1 else max 0 (maxSeconds - max 0 elapsedSeconds)

def unpauseSatisfied (team1Confirmed team2Confirmed bothRequired : Bool) (pauser : Team) : Bool :=
  if bothRequired then team1Confirmed && team2Confirmed
  else
    match pauser with
    | .team1 => team1Confirmed
    | .team2 => team2Confirmed
    | .unknown => team1Confirmed || team2Confirmed

def auto5v5ShortSide (ctPlayers tPlayers : ℤ) : ℤ :=
  if kFullTeamPlayers ≤ ctPlayers ∧ kFullTeamPlayers ≤ tPlayers then 0
  else if ctPlayers ≤ tPlayers then 3 else 2

inductive Auto5v5Check where
  | done
  | wait
  | mark
  deriving DecidableEq

def auto5v5Decide (ruleOn liveMap alreadyPaused : Bool) (enginePaused ctPlayers tPlayers : ℤ) :
    Auto5v5Check :=
  if !ruleOn || !liveMap || alreadyPaused then .done
  else if enginePaused = 0 then .wait
  else if auto5v5ShortSide ctPlayers tPlayers ≠ 0 then .mark
  else .done

inductive EnginePauseAction where
  | none
  | clear
  | markAuto5v5
  | markEngine
  deriving DecidableEq

def kEnginePauseMarkHoldSeconds : ℚ := 3
def kAuto5v5FullHoldSeconds : ℚ := 5

def decideEnginePause (enginePaused : ℤ) (readyUpPause playing goLiveWindow autoRuleOn : Bool)
    (ct t fullTeam : ℤ) (unmarkedForSeconds : ℚ) : EnginePauseAction :=
  if enginePaused ≠ 1 || readyUpPause || !playing then .none
  else
    let full := if 0 < fullTeam then fullTeam else kFullTeamPlayers
    let shortSide := decide (ct < full) || decide (t < full)
    let mark := if shortSide && autoRuleOn then .markAuto5v5 else .markEngine
    if goLiveWindow then if shortSide then mark else .clear
    else if kEnginePauseMarkHoldSeconds ≤ unmarkedForSeconds then mark
    else .none

/-- `Auto5v5UnpauseReason` -/
inductive Auto5v5Reason where
  | full
  | timeout
  deriving DecidableEq

def auto5v5UnpauseReason (ctPlayers tPlayers : ℤ) (fullForSeconds pausedSeconds : ℚ)
    (maxSeconds : ℤ) : Option Auto5v5Reason :=
  if auto5v5ShortSide ctPlayers tPlayers = 0 ∧ kAuto5v5FullHoldSeconds ≤ fullForSeconds then
    some .full
  else if 0 < maxSeconds ∧ (maxSeconds : ℚ) ≤ pausedSeconds then some .timeout
  else none

end Rules

section Model

/-- Why a pause was over; `rule` is `both_teams_unpause` at that time. -/
inductive Resumed where
  | players (rule : Bool)
  | timeoutOver
  | freezeEnded
  | full
  | waitOver
  | timeUp
  | engineFree
  | admin
  | server
  deriving DecidableEq

def Auto5v5Reason.resumed : Auto5v5Reason → Resumed
  | .full => .full
  | .timeout => .waitOver

/-- Who is there to confirm: whether `dev_bots_ready` is on or a simulation runs, and for each team
whether a person of its roster is connected. -/
structure Present where
  devBotsReady : Bool
  simulation : Bool
  person : Slot → Bool

/-- `botOnly` of `MatchFeaturesUnpause`, asked only where bots may be ready. -/
def Present.botOnly (found : Present) (w : Slot) : Bool :=
  (found.devBotsReady || found.simulation) && !found.person w

/-- What a step did; `confirmed` is the server speaking for a team of which it found only bots. -/
inductive Sign where
  | paused (type : PauseType) (team : Team)
  | asked (team : Team)
  | confirmed (w : Slot) (found : Present)
  | resumed (why : Resumed)
  | newMap

/-- The variables of `match_features.cpp` about pauses; a time of 0 is none. -/
structure Features where
  roundStartSeq : ℕ := 0
  freezeEndSeq : ℕ := 0
  inFreeze : Bool := false
  rsSeqAuto5v5 : ℕ := 0
  auto5v5Pending : Bool := false
  auto5v5NextAt : ℚ := 0
  auto5v5CountAt : ℚ := 0
  auto5v5Ct : ℤ := 0
  auto5v5T : ℤ := 0
  auto5v5FullSince : ℚ := 0
  wasPaused : Bool := false
  epMode : ReadyUpMode := .idle
  epWindowFrom : ℚ := 0
  epWindowUntil : ℚ := 0
  epCleared : Bool := false
  epNextAt : ℚ := 0
  epUnmarkedSince : ℚ := 0
  epEngineFreeSince : ℚ := 0
  effectiveAt : ℚ := 0
  rsSeqAtPause : ℕ := 0
  feSeqAtPause : ℕ := 0

/-- The pauses of the plugin, with what has happened so far, the newest first. -/
structure Pauses where
  pause : PauseState := {}
  features : Features := {}
  log : List Sign := []

/-- What a command finds: whether a match is loaded, the mode, the rules, and whether the command
that it sends can be queued. -/
structure Scene where
  hasMatch : Bool
  mode : ReadyUpMode
  rules : MatchRules
  queued : Bool

/-- What a tick finds besides: `sv_matchpause_auto_5v5`, whether the engine is paused, the people on
each side, the size of a team, the side of team 1 and whether the command of `EnginePauseTick` can
be queued. -/
structure Tick extends Scene where
  now : ℚ
  autoRuleOn : Bool
  enginePaused : ℤ
  ct : ℤ
  t : ℤ
  playersPerTeam : ℤ
  team1Side : ℤ
  clearQueued : Bool

def Tick.teamOn (t : Tick) (side : ℤ) : Team := if t.team1Side = side then .team1 else .team2

/-- How long something has lasted; it began at no time if that is 0. -/
def lasted (since now : ℚ) : ℚ := if 0 < since then now - since else 0

def playing (m : ReadyUpMode) : Bool := m = .matchKnife || m = .matchLive

def liveMap (m : ReadyUpMode) : Bool := m = .matchLive

namespace Pauses

variable (s : Pauses)

def mark (type : PauseType) (team : Team) : Pauses :=
  { s with pause := s.pause.onPaused type team, log := .paused type team :: s.log }

/-- A pause that counts for the team. -/
def markUse (type : PauseType) (kind : PauseKind) (team : Team) : Pauses :=
  { s with pause := (s.pause.onPaused type team).countUse team kind, log :=
    .paused type team :: s.log }

def resume (why : Resumed) : Pauses :=
  { s with pause := s.pause.onUnpaused, log := .resumed why :: s.log }

/-- `Unpause` of `match_features.cpp`. -/
def unpause (why : Resumed) : Pauses :=
  { s with features := { s.features with wasPaused := false } }.resume why

def ask (team : Team) : Pauses :=
  { s with pause := s.pause.requestUnpause team, log := .asked team :: s.log }

/-- The counters of the map start again. -/
def newMap : Pauses := { s with pause := s.pause.resetUsage, log := .newMap :: s.log }

/-- `MatchFeaturesTechPause` -/
def techPause (c : Scene) (team : Team) : Pauses :=
  if !c.hasMatch || !liveMap c.mode || s.pause.paused then s
  else if !techPauseAllowed (s.pause.usedBy team .technical) c.rules.techPausesPerTeam then s
  else if !c.queued then s
  else s.markUse .technical .technical team

/-- `MatchFeaturesTacticalTimeout`; `timeoutMax` is the `mp_team_timeout_max` of the match. -/
def tacticalTimeout (c : Scene) (timeoutMax : Option ℤ) (team : Team) : Pauses :=
  if !c.hasMatch || !liveMap c.mode || s.pause.paused then s
  else if timeoutMax.any fun n => decide (n ≤ (s.pause.usedBy team .tactical : ℤ)) then s
  else if !c.queued then s
  else s.markUse .tactical .tactical team

def confirm (found : Present) (w : Slot) : Pauses :=
  { s with pause := s.pause.requestUnpause w.team, log := .confirmed w found :: s.log }

/-- It does so when the team has not asked and nobody of it is there who could. -/
def confirmFor (found : Present) (w : Slot) : Pauses :=
  if !s.pause.ready w && found.botOnly w then s.confirm found w else s

def nobodys (type : Option PauseType) : Bool :=
  type = some .halftime || type = some .auto5v5 || type = some .restore || type = some .engine

/-- `MatchFeaturesUnpause` -/
def playersUnpause (c : Scene) (found : Present) (team : Team) : Pauses :=
  if !c.hasMatch || !s.pause.paused then s
  else if s.pause.type = some .tactical || s.pause.type = some .admin then s
  else
    let rule := decide (c.rules.bothTeamsUnpause ≠ 0)
    let s := ((s.ask team).confirmFor found .team1).confirmFor found .team2
    let both := rule || nobodys s.pause.type
    if unpauseSatisfied s.pause.team1Ready s.pause.team2Ready both s.pause.team && c.queued then
      s.unpause (.players rule)
    else s

/-- A pause of an admin, of the platform, or for want of a link to it. -/
def serverPause (type : PauseType) (allowed queued : Bool) : Pauses :=
  if s.pause.paused || !allowed || !queued then s else s.mark type .unknown

/-- An admin, the platform or a timer of the server ends the pause. -/
def serverUnpause (why : Resumed) (queued : Bool) : Pauses :=
  if s.pause.paused && queued then s.resume why else s

/-- `MaybeMarkAuto5v5Pause`, and whether the check of this round is over. -/
def maybeMarkAuto5v5Pause (t : Tick) : Bool × Pauses :=
  if !t.hasMatch then (true, s)
  else
    match auto5v5Decide t.autoRuleOn (liveMap t.mode) s.pause.paused t.enginePaused t.ct t.t with
    | .wait => (false, s)
    | .done => (true, s)
    | .mark => (true, s.mark .auto5v5 (t.teamOn (auto5v5ShortSide t.ct t.t)))

/-- The part of `EnginePauseTick` that acts on an engine pause that is not recorded. -/
def recordEnginePause (t : Tick) (window : Bool) : Pauses :=
  let full := if 0 < t.playersPerTeam then t.playersPerTeam else kFullTeamPlayers
  let counted := t.enginePaused = 1 ∧ s.pause.paused = false
  let ct := if counted then t.ct else 0
  let tt := if counted then t.t else 0
  let shortTeam := if ct < full ∨ tt < full then t.teamOn (if ct ≤ tt then 3 else 2) else .unknown
  match decideEnginePause t.enginePaused s.pause.paused
    (playing t.mode) window t.autoRuleOn ct tt full
      (lasted s.features.epUnmarkedSince t.now) with
  | .none => s
  | .clear =>
    if t.clearQueued then
      { s with features := { s.features with epCleared := true, epUnmarkedSince := 0 } }
    else s
  | .markAuto5v5 =>
    { s with features := { s.features with epUnmarkedSince := 0 } }.mark .auto5v5 shortTeam
  | .markEngine =>
    { s with features := { s.features with epUnmarkedSince := 0 } }.mark .engine shortTeam

/-- The go-live window of `EnginePauseTick`: from a second after the map or its knife round starts,
for ten. -/
def watchMode (t : Tick) : Features :=
  let f := s.features
  let f :=
    if playing t.mode && f.epMode = .matchWarmup then
      { f with epWindowFrom := t.now + 1, epWindowUntil := t.now + 1 + 10, epCleared := false }
    else f
  { f with
    epWindowUntil := if playing t.mode then f.epWindowUntil else 0
    epMode := t.mode }

/-- `EnginePauseTick` behind its quarter of a second. -/
def enginePauseCheck (t : Tick) : Pauses :=
  let f := { s.features with epNextAt := t.now + 1 / 4 }
  if !t.hasMatch then { s with features := { f with epUnmarkedSince := 0, epEngineFreeSince := 0 } }
  else if s.pause.paused && s.pause.type = some .engine && t.enginePaused = 0 then
    let since := if f.epEngineFreeSince = 0 then t.now else f.epEngineFreeSince
    if 1 ≤ t.now - since then
      { s with features := { f with epEngineFreeSince := 0 } }.unpause .engineFree
    else { s with features := { f with epEngineFreeSince := since } }
  else
    let since := if f.epUnmarkedSince = 0 then t.now else f.epUnmarkedSince
    let f :=
      { f with
        epEngineFreeSince := 0
        epUnmarkedSince :=
          if t.enginePaused = 1 && !s.pause.paused && playing t.mode then since else 0 }
    if t.now < f.epWindowFrom ∧ 0 < f.epWindowUntil then { s with features := f }
    else
      { s with features := f }.recordEnginePause t
        (!f.epCleared && 0 < f.epWindowUntil && t.now ≤ f.epWindowUntil)

def enginePauseTick (t : Tick) : Pauses :=
  let s := { s with features := s.watchMode t }
  if t.now < s.features.epNextAt then s else s.enginePauseCheck t

/-- The auto 5v5 check is pending from the start of a round to the end of its freeze time. -/
def watchRound : Features :=
  let f := s.features
  let f :=
    if f.roundStartSeq ≠ f.rsSeqAuto5v5 then
      { f with rsSeqAuto5v5 := f.roundStartSeq, auto5v5Pending := true, auto5v5NextAt := 0 }
    else f
  if f.auto5v5Pending && !f.inFreeze then { f with auto5v5Pending := false } else f

/-- `MatchFeaturesTick`, up to the auto 5v5 check of the round. -/
def auto5v5Tick (t : Tick) : Pauses :=
  let s := { s with features := s.watchRound }
  if s.features.auto5v5Pending && s.features.auto5v5NextAt ≤ t.now then
    let (checked, s) :=
      { s with features :=
        { s.features with auto5v5NextAt := t.now + 1 / 4 } }.maybeMarkAuto5v5Pause t
    if checked then { s with features := { s.features with auto5v5Pending := false } } else s
  else s

/-- `MatchFeaturesTick` takes note of a pause, and of when it came into effect. -/
def follow (t : Tick) : Features :=
  let f := s.features
  if s.pause.paused then
    let f :=
      if f.wasPaused then f
      else
        { f with
          wasPaused := true
          effectiveAt := if f.inFreeze then t.now else 0
          rsSeqAtPause := f.roundStartSeq
          feSeqAtPause := f.freezeEndSeq }
    if f.effectiveAt = 0 ∧ f.roundStartSeq ≠ f.rsSeqAtPause then
      { f with effectiveAt := t.now }
    else f
  else { f with wasPaused := false, auto5v5FullSince := 0 }

/-- `CountSides` during a pause for a short team, every quarter of a second, and since when both are
full. -/
def countSides (t : Tick) : Features :=
  let f := s.features
  let f :=
    if f.auto5v5CountAt ≤ t.now then
      { f with auto5v5CountAt := t.now + 1 / 4, auto5v5Ct := t.ct, auto5v5T := t.t }
    else f
  if auto5v5ShortSide f.auto5v5Ct f.auto5v5T = 0 then
    if f.auto5v5FullSince = 0 then { f with auto5v5FullSince := t.now } else f
  else { f with auto5v5FullSince := 0 }

/-- The pause for a short team ends when the teams are full again, or after the time that it may
take. -/
def auto5v5Over (t : Tick) : Pauses :=
  let s := { s with features := s.countSides t }
  let f := s.features
  match auto5v5UnpauseReason f.auto5v5Ct f.auto5v5T (lasted f.auto5v5FullSince t.now)
    (lasted f.effectiveAt t.now)
      t.rules.disconnectPauseMaxSeconds with
  | none => s
  | some why =>
    if t.queued then { s with features := { f with auto5v5FullSince := 0 } }.unpause why.resumed
    else s

/-- The rest of `MatchFeaturesTick`: pauses that end by themselves. -/
def endTick (t : Tick) : Pauses :=
  let f := s.features
  if !s.pause.paused then s
  else if s.pause.type = some .tactical && f.freezeEndSeq ≠ f.feSeqAtPause then
    s.unpause .timeoutOver
  else if s.pause.type = some .auto5v5 && f.freezeEndSeq ≠ f.feSeqAtPause then
    s.unpause .freezeEnded
  else if s.pause.type = some .auto5v5 && liveMap t.mode then s.auto5v5Over t
  else if s.pause.type = some .technical && 0 < t.rules.techPauseMaxSeconds && 0 < f.effectiveAt &&
    liveMap t.mode then
    if techPauseSecondsLeft (Int.floor (t.now - f.effectiveAt)) t.rules.techPauseMaxSeconds = 0 &&
      t.queued then
      s.unpause .timeUp
    else s
  else s

/-- `MatchFeaturesTick` -/
def tick (t : Tick) : Pauses :=
  let s := (s.auto5v5Tick t).enginePauseTick t
  { s with features := s.follow t }.endTick t

end Pauses

inductive PauseEvent where
  | tech (c : Scene) (team : Team)
  | timeout (c : Scene) (timeoutMax : Option ℤ) (team : Team)
  | unpause (c : Scene) (found : Present) (team : Team)
  | adminPause (queued : Bool)
  | adminUnpause (queued : Bool)
  | cmdPause (technical : Bool) (c : Scene)
  | offline (ours : Bool) (c : Scene)
  | halftime (c : Scene)
  | restore
  | restored
  | recover
  | timer (queued : Bool)
  | stop
  | matchStart
  | nextMap
  | roundStart
  | freezeEnd
  | tick (t : Tick)
  | reload

namespace Pauses

def step (s : Pauses) : PauseEvent → Pauses
  | .tech c team => s.techPause c team
  | .timeout c timeoutMax team => s.tacticalTimeout c timeoutMax team
  | .unpause c found team => s.playersUnpause c found team
  | .adminPause queued => s.serverPause .admin true queued
  | .adminUnpause queued => s.serverUnpause .admin queued
  | .cmdPause technical c =>
    s.serverPause (if technical then .technical else .admin) (liveMap c.mode) c.queued
  | .offline ours c => s.serverPause .offline (ours && liveMap c.mode) c.queued
  | .halftime c => s.serverPause .halftime (liveMap c.mode) true
  | .restore => s.serverPause .restore true true
  | .restored => s.mark .technical .unknown
  | .recover => s.serverPause .admin true true
  | .timer queued => s.serverUnpause .server queued
  | .stop => s.serverUnpause .server true
  | .matchStart => (s.resume .server).newMap
  | .nextMap => s.newMap
  | .roundStart =>
    { s with features :=
      { s.features with inFreeze := true, roundStartSeq := s.features.roundStartSeq + 1 } }
  | .freezeEnd =>
    { s with features :=
      { s.features with inFreeze := false, freezeEndSeq := s.features.freezeEndSeq + 1 } }
  | .tick t => s.tick t
  | .reload => { s with pause := s.pause.reloaded, features := {} }

end Pauses

end Model

end ReadyUp.Match
