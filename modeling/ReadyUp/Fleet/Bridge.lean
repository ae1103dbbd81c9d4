import ReadyUp.Fleet.Fence
import ReadyUp.Match.Series

/-!
# The platform link

The handlers of `fleet_bridge.cpp`: match.assign, match.update, match.unassign and cmd, with the
restores they ask for and the tick that runs what was put off. What the source decodes from a
message, finds on disk or asks of the engine comes with the event. The match context, the mode and
the map are the ones of the match flow; the link sets them when it loads or unloads a match, and
the flow moves them on its own in between.
-/
namespace ReadyUp.Fleet

open ReadyUp.Support ReadyUp.Match

/-! ## Match ids -/

def isDigits (s : String) (maxLen : ℕ) : Bool :=
  let bytes := s.toUTF8.data.toList
  !bytes.isEmpty && decide (bytes.length ≤ maxLen) &&
    bytes.all fun c => decide (48 ≤ c.toNat ∧ c.toNat ≤ 57)

/-- `fs::NumericMatchId`: the id itself when it is a number, else 52 bits of its FNV-1a hash,
never 0. -/
def numericMatchId (matchId : String) : ℕ :=
  let bytes := matchId.toUTF8.data.toList
  let value := bytes.foldl (fun v c => v * 10 + (c.toNat - 48)) 0
  if isDigits matchId 15 ∧ value ≠ 0 then value
  else
    let h := bytes.foldl (fun h c => (h ^^^ c.toNat) * 1099511628211 % 2 ^ 64) 1469598103934665603
    let h := h % 2 ^ 52
    if h = 0 then 1 else h

/-! ## State -/

/-- The loaded match context, as far as the link reads it. -/
structure Loaded where
  matchid : ℕ
  slug : String := ""
  deriving DecidableEq, Repr

/-- The `reason` of a restore: cmd restore_round, an admin's `.restore`, a vote, the recovery after
a crash, a failover resume. -/
inductive RestoreReason where
  | restore
  | admin
  | stop
  | recovery
  | resume
  deriving DecidableEq, Repr

/-- Which match and which map the server is on. -/
structure Place where
  matchid : Option ℕ := none
  mapNumber : ℤ := 1
  map : String := ""
  deriving DecidableEq, Repr

/-- `DeferredRestore`. `asked` is not in the source: where the server was when the restore was
asked for. -/
structure DeferredRestore where
  active : Bool := false
  needRoundEnd : Bool := false
  mapNumber : ℤ := 0
  round : ℤ := 0
  scoreT1 : ℤ := -1
  scoreT2 : ℤ := -1
  file : String := ""
  sha : String := ""
  requestedBy : String := ""
  reason : RestoreReason := .restore
  asked : Place := {}
  deriving DecidableEq, Repr

/-- A run of `DoRestoreNow`: the restore, and where the server was. -/
structure Restored where
  restore : DeferredRestore
  place : Place
  deriving DecidableEq, Repr

/-- `fs::ResumePlan`, as far as the link reads it. -/
structure Resume where
  mapNumber : ℤ := 1
  round : ℤ := 0
  scoreTeam1 : ℤ := -1
  scoreTeam2 : ℤ := -1
  file : String := ""
  sha256 : String := ""
  deriving DecidableEq, Repr

/-- The console lines "assigned match" and "unassigned match", with those of a dropped copy. -/
inductive FenceLine where
  | assigned (matchId : String) (epoch : ℤ)
  | ended (matchId : String) (epoch : ℤ)
  deriving DecidableEq, Repr

structure Bridge where
  asg : Assignment := {}
  fence : Fence := ∅
  ctx : Option Loaded := none
  /-- The match of state.json. -/
  saved : Option ℕ := none
  mode : ReadyUpMode := .idle
  mapNumber : ℤ := 1
  map : String := ""
  roundOver : Bool := false
  inFreeze : Bool := false
  matchEndPending : Bool := false
  draining : Bool := false
  handOverPending : Bool := false
  handOverAt : ℚ := 0
  loading : Bool := false
  loadStarted : ℚ := 0
  loadFromMap : String := ""
  mapStarts : ℕ := 0
  loadMapStarts : ℕ := 0
  restoring : Bool := false
  serverReset : Bool := false
  resume : Resume := {}
  resumeActive : Bool := false
  resumeRestored : Bool := false
  resumeRestoreAt : Option ℚ := none
  deferred : DeferredRestore := {}
  /-- The `server_reset` signal is waiting for the tick. -/
  resetSignal : Bool := false
  /-- The `match_restored` signal is waiting for the tick. -/
  restoredSignal : Bool := false
  now : ℚ := 0
  lines : List FenceLine := []
  restored : List Restored := []

namespace Bridge

def place (s : Bridge) : Place :=
  { matchid := s.ctx.map Loaded.matchid, mapNumber := s.mapNumber, map := s.map }

def ctxIsOurs (s : Bridge) : Bool :=
  s.asg.active && s.ctx.any fun c => decide (c.matchid = numericMatchId s.asg.matchId)

/-- A real match that did not come from the platform. -/
def localMatchActive (s : Bridge) : Bool :=
  s.ctx.any (fun c => decide (c.slug ≠ "scrim")) && !s.ctxIsOurs

def localMatchIs (s : Bridge) (matchId : String) : Bool :=
  s.ctx.any fun c => decide (c.slug ≠ "scrim" ∧ c.matchid = numericMatchId matchId)

/-- `WebhookClearMatchContext` with `EndMatchResetServer`. -/
def unload (s : Bridge) : Bridge :=
  { s with ctx := none, saved := none, mode := .idle, matchEndPending := false }

/-! ## Restores -/

def doRestoreNow (s : Bridge) (d : DeferredRestore) : Bridge :=
  { s with
    restoring := true
    restored := s.restored ++ [{ restore := d, place := s.place }]
    restoredSignal := s.restoredSignal || s.asg.active }

/-- `DoRestore`: past freeze time a restore waits for the round to end, after the end of a round
for the next to start. -/
def doRestore (s : Bridge) (mapNumber round : ℤ) (file sha requestedBy : String)
    (reason : RestoreReason) (scoreT1 scoreT2 : ℤ) : Bridge :=
  let d : DeferredRestore :=
    { mapNumber, round, scoreT1, scoreT2, file, sha, requestedBy, reason, asked := s.place }
  if reason ≠ .resume ∧ s.roundOver = false ∧ s.inFreeze = false then
    { s with deferred := { d with active := true, needRoundEnd := true } }
  else if s.roundOver then { s with deferred := { d with active := true } }
  else s.doRestoreNow d

def runDeferredRestore (s : Bridge) : Bridge :=
  if s.deferred.active = false then s
  else if s.deferred.needRoundEnd then
    if s.roundOver then { s with deferred := { s.deferred with needRoundEnd := false } } else s
  else if s.roundOver then s
  else
    let d := s.deferred
    let s := { s with deferred := {} }
    if d.reason = .recovery ∧ (s.resumeActive ∨ s.asg.active) then s else s.doRestoreNow d

/-- `RestoreRoundFromLocalBackup`; `backup` is the file found, with its hash. -/
def restoreRoundFromLocalBackup (s : Bridge) (round : ℤ) (requestedBy : String)
    (reason : RestoreReason) (backup : Option (String × String)) : Bridge :=
  if s.ctx.isNone ∨ round < 1 then s
  else if reason = .recovery ∧ (s.resumeActive ∨ s.asg.active) then s
  else
    match backup with
    | none => s
    | some (file, sha) =>
      let s := s.doRestore (max 1 s.mapNumber) round file sha requestedBy reason (-1) (-1)
      if s.asg.active then s else { s with restoring := false }

/-! ## Loading -/

/-- `BeginLoad`; `parses` and `licensed` are what the parser and the licence say. -/
def beginLoad (s : Bridge) (parses licensed : Bool) : Bridge :=
  let s := { s with handOverPending := false }
  if !parses then s
  else
    let s := { s with loadFromMap := s.map, loadMapStarts := s.mapStarts }
    if !licensed then s
    else
      let matchid := numericMatchId s.asg.matchId
      { s with
        ctx := some { matchid, slug := s.asg.matchId }
        saved := some matchid
        mode := .matchWarmup
        matchEndPending := false
        mapNumber := max 1 (if s.resumeActive then s.resume.mapNumber else 1)
        loading := true
        loadStarted := s.now }

def checkLoaded (s : Bridge) : Bridge :=
  let changed := (decide (s.map ≠ "") && decide (s.map ≠ s.loadFromMap)) ||
    decide (s.mapStarts ≠ s.loadMapStarts)
  if s.loading && (changed || decide (s.now - s.loadStarted > 120)) &&
      decide (s.now - s.loadStarted > 1) then
    { s with loading := false }
  else s

def clearAssignment (s : Bridge) : Bridge :=
  { s with
    fence := s.fence.retire s.asg.matchId s.asg.epoch
    asg := {}
    handOverPending := false
    loading := false
    restoring := false
    serverReset := false
    resume := {}
    resumeActive := false
    resumeRestored := false
    resumeRestoreAt := none
    resetSignal := false
    restoredSignal := false }

/-! ## Messages -/

/-- The match and the epoch that a message is about. -/
structure Scope where
  matchId : String
  envelopeEpoch : ℤ := 0
  payloadEpoch : ℤ := 0
  deriving DecidableEq, Repr

/-- `MsgEpoch`: the epoch of the envelope, else that of the payload. -/
def Scope.epoch (m : Scope) : ℤ := if 0 < m.envelopeEpoch then m.envelopeEpoch else m.payloadEpoch

/-- A match.assign message: what `ValidateAssign`, `ParseResume`, `PrepareResumeBackup` and the
loader make of it. -/
structure Assign extends Scope where
  configRev : ℤ := 1
  valid : Bool := true
  resume : Option Resume := none
  resumeValid : Bool := true
  backupReady : Bool := true
  /-- People who are not in the match are connected. -/
  outsiders : Bool := false
  parses : Bool := true
  licensed : Bool := true
  deriving DecidableEq, Repr

/-- The assignment that `OnAssign` checks against: a finished one does not block another match. -/
def assignmentFor (s : Bridge) (matchId : String) : Assignment :=
  { s.asg with
    active := s.asg.active && !(s.serverReset && decide (s.asg.matchId ≠ matchId)) }

/-- The checks of `OnAssign`; `ok` is an assignment that goes through. -/
def assignVerdict (s : Bridge) (m : Assign) : Verdict :=
  let localBusy := s.localMatchActive && !(m.resume.isSome && s.localMatchIs m.matchId)
  s.fence.checkAssign (s.assignmentFor m.matchId) m.matchId m.epoch localBusy

def acceptsAssign (s : Bridge) (m : Assign) : Bool :=
  m.valid && m.resumeValid && decide (s.assignVerdict m = .ok) && !s.draining &&
    (m.resume.all (fun r : Resume => decide (r.round < 1)) || m.backupReady)

/-- The same match again with a newer epoch: it goes on as it is. -/
def reissue (s : Bridge) (m : Assign) : Bool :=
  s.asg.active && decide (s.asg.matchId = m.matchId) && s.ctxIsOurs && m.resume.isNone

/-- A scrim, practice or a plugin mode, which a hand-over ends. -/
def inScrim (s : Bridge) : Bool :=
  decide (s.mode = .scrimWarmup ∨ s.mode = .practice ∨ s.mode = .external) ||
    s.ctx.any fun c => decide (c.slug = "scrim")

/-- `OnAssign` past its checks, up to the reply. -/
def adopt (s : Bridge) (m : Assign) : Bridge :=
  let sameMatch := s.asg.active && decide (s.asg.matchId = m.matchId)
  let s := if s.asg.active && !sameMatch then s.clearAssignment else s
  { s with
    asg :=
      { active := true
        matchId := m.matchId
        epoch := m.epoch
        configRev := max 1 m.configRev }
    fence := s.fence.retire m.matchId m.epoch
    lines := s.lines ++ [.assigned m.matchId m.epoch] }

/-- `OnAssign` for a match that has to be loaded: what belongs to an earlier one goes, and the
resume's own copy with it. -/
def takeOver (s : Bridge) (m : Assign) : Bridge :=
  let s :=
    { s with
      serverReset := false
      resume := m.resume.getD {}
      resumeActive := m.resume.isSome
      resumeRestoreAt := none
      resumeRestored := false
      restoring := m.resume.any fun r : Resume => decide (1 ≤ r.round) }
  if m.resume.isSome && s.localMatchIs m.matchId then s.unload else s

/-- The end of `OnAssign`: a scrim ends and the people who are not in the match get five seconds
to leave, else the match loads at once. -/
def handOver (s : Bridge) (m : Assign) : Bridge :=
  if s.inScrim || m.outsiders then
    let s := if s.inScrim then s.unload else s
    { s with handOverPending := true, handOverAt := s.now + 5 }
  else s.beginLoad m.parses m.licensed

def onAssign (s : Bridge) (m : Assign) : Bridge :=
  if s.acceptsAssign m then
    if s.reissue m then s.adopt m else ((s.adopt m).takeOver m).handOver m
  else s

/-- A match.update message; `opsApply` says that its operations apply to the config. -/
structure Update extends Scope where
  baseConfigRev : ℤ
  configRev : ℤ
  opsApply : Bool := true
  deriving DecidableEq, Repr

/-- `OnUpdate`: the context that follows the new config is that of the same match. -/
def onUpdate (s : Bridge) (m : Update) : Bridge :=
  if s.fence.checkScoped s.asg m.matchId m.epoch ≠ .ok then s
  else if m.baseConfigRev ≠ s.asg.configRev then s
  else if m.configRev ≤ m.baseConfigRev then s
  else if m.opsApply then { s with asg := { s.asg with configRev := m.configRev } }
  else s

structure Unassign extends Scope where
  kickMessage : String := ""
  deriving DecidableEq, Repr

/-- `DropRecoveredCopy`: the copy of a match that a restarted server has loaded, or would load. -/
def dropRecoveredCopy (s : Bridge) (matchId : String) (epoch : ℤ) : Option Bridge :=
  let dropped :=
    if s.localMatchIs matchId then some s.unload
    else if s.saved = some (numericMatchId matchId) then some { s with saved := none }
    else none
  dropped.map fun s =>
    { s with
      fence := s.fence.retire matchId epoch
      lines := s.lines ++ [.ended matchId epoch] }

/-- The end card of the series is up, and its plan resets the server. -/
def endCardUp (s : Bridge) (m : Unassign) : Bool :=
  s.ctxIsOurs && decide (s.mode = .postgame) && s.matchEndPending && decide (m.kickMessage = "")

def onUnassign (s : Bridge) (m : Unassign) : Bridge :=
  if s.asg.active = false ∧ 0 < m.epoch ∧ m.epoch = s.fence.retiredEpoch m.matchId then s
  else
    let v := s.fence.checkScoped s.asg m.matchId m.epoch
    if v ≠ .ok then
      if s.asg.active = false ∧ v = .notAssigned ∧ 0 < m.epoch then
        (s.dropRecoveredCopy m.matchId m.epoch).getD s
      else s
    else
      let s := if s.ctxIsOurs && !s.endCardUp m then s.unload else s
      { s.clearAssignment with lines := s.lines ++ [.ended m.matchId m.epoch] }

/-! ## Commands -/

/-- The commands that act on what is modelled here; `other` are the rest, by name. -/
inductive Command where
  | restoreRound (mapNumber : Option ℤ) (round : ℤ) (backup : Option (String × String))
  | restartMap
  | endMatch (winner : String)
  | other (name : String)
  deriving DecidableEq, Repr

def Command.name : Command → String
  | .restoreRound .. => "restore_round"
  | .restartMap => "restart_map"
  | .endMatch _ => "end_match"
  | .other name => name

/-- `kMatchCmds`. -/
def matchCmds : List String :=
  ["pause", "unpause", "force_ready", "start", "restore_round", "restart_round", "restart_map",
    "end_match", "end", "change_map", "swap_teams"]

structure Cmd extends Scope where
  expired : Bool := false
  issuedBy : String := "?"
  command : Command
  deriving DecidableEq, Repr

/-- A command that names a match, or has to. -/
def Cmd.scoped (m : Cmd) : Bool := matchCmds.contains m.command.name || decide (m.matchId ≠ "")

def cmdRestore (s : Bridge) (mapNumber : Option ℤ) (round : ℤ) (backup : Option (String × String))
    (requestedBy : String) : Bridge :=
  if s.ctxIsOurs = false ∨ s.resumeActive = true then s
  else if s.mode ≠ .matchLive ∧ s.mode ≠ .matchWarmup then s
  else if mapNumber.getD s.mapNumber ≠ s.mapNumber ∨ round < 1 then s
  else
    match backup with
    | none => s
    | some (file, sha) => s.doRestore s.mapNumber round file sha requestedBy .restore (-1) (-1)

def cmdEnd (s : Bridge) (winner : String) : Bridge :=
  if s.ctxIsOurs = false then s
  else if winner ≠ "none" ∧ winner ≠ "team1" ∧ winner ≠ "team2" then s
  else s.unload

def runCommand (s : Bridge) (requestedBy : String) : Command → Bridge
  | .restoreRound mapNumber round backup => s.cmdRestore mapNumber round backup requestedBy
  | .restartMap =>
    if s.ctxIsOurs then { s with mode := .matchWarmup, matchEndPending := false } else s
  | .endMatch winner => s.cmdEnd winner
  | .other _ => s

def onCmd (s : Bridge) (m : Cmd) : Bridge :=
  if m.expired then s
  else if m.scoped ∧ (m.matchId = "" ∨ s.fence.checkScoped s.asg m.matchId m.epoch ≠ .ok) then s
  else s.runCommand ("platform:" ++ m.issuedBy) m.command

/-! ## The tick -/

/-- `RunResumeRestore`, without the seed of the stats model. -/
def runResumeRestore (s : Bridge) : Bridge :=
  s.doRestore s.resume.mapNumber s.resume.round s.resume.file s.resume.sha256 "platform:resume"
    .resume s.resume.scoreTeam1 s.resume.scoreTeam2

/-- The resumed map is the plan's map, whatever map tracking made of it. -/
def trackResumedMap (s : Bridge) : Bridge :=
  if s.mapNumber ≠ s.resume.mapNumber ∧ s.ctxIsOurs ∧ 1 ≤ s.resume.mapNumber then
    { s with mapNumber := s.resume.mapNumber }
  else s

/-- The part of the tick that takes a resume from the go-live round to its restore. -/
def tickResume (s : Bridge) : Bridge :=
  if s.resumeActive && !s.loading && !s.handOverPending then
    let s := s.trackResumedMap
    if s.resume.round < 1 then
      if s.mode ≠ .matchWarmup then { s with resumeActive := false } else s
    else if s.resumeRestored = false ∧ s.mode = .matchLive ∧ s.resumeRestoreAt = none then
      { s with resumeRestoreAt := some (s.now + 1) }
    else if s.resumeRestoreAt.any (fun due => decide (due ≤ s.now)) then
      { s with resumeRestoreAt := none, resumeRestored := true }.runResumeRestore
    else s
  else s

def tickSignals (s : Bridge) : Bridge :=
  let s := { s with serverReset := s.serverReset || s.resetSignal, resetSignal := false }
  if s.restoredSignal then
    { s with restoring := false, resumeActive := false, restoredSignal := false }
  else s

def tickHandOver (s : Bridge) (parses licensed : Bool) : Bridge :=
  if s.handOverPending && decide (s.handOverAt ≤ s.now) then s.beginLoad parses licensed else s

def tick (s : Bridge) (now : ℚ) (parses licensed : Bool) : Bridge :=
  let s := { s with now }.runDeferredRestore
  if s.asg.active = false then { s with resetSignal := false, restoredSignal := false }
  else (s.tickHandOver parses licensed).checkLoaded.tickResume.tickSignals

/-! ## The plugin reload -/

/-- `RestoreJson` of `SnapshotJson` in the image that is loaded next. A deferred restore and a
hand-over are not part of it. -/
def reload (s : Bridge) : Bridge :=
  { fence := .fromJson s.fence.toJson
    ctx := s.ctx
    saved := s.saved
    mode := s.mode
    mapNumber := s.mapNumber
    map := s.map
    matchEndPending := s.matchEndPending
    now := s.now
    lines := s.lines
    restored := s.restored
    asg := if s.asg.active then s.asg else {}
    loading := s.asg.active && (s.loading || s.handOverPending)
    serverReset := s.asg.active && s.serverReset
    restoring := s.asg.active && s.restoring
    resumeActive := s.asg.active && s.resumeActive
    resumeRestored := s.asg.active && s.resumeRestored
    resume := if s.asg.active && s.resumeActive then s.resume else {} }

end Bridge

/-! ## Events -/

/-- The game events that `MatchFeaturesOnGameEvent` follows. -/
inductive GameEvent where
  | roundStart
  | roundEnd
  | announceWarmup
  | freezeEnd
  deriving DecidableEq, Repr

inductive BridgeEvent where
  | assign (m : Bridge.Assign)
  | update (m : Bridge.Update)
  | unassign (m : Bridge.Unassign)
  | cmd (m : Bridge.Cmd)
  | localRestore (round : ℤ) (requestedBy : String) (reason : RestoreReason)
      (backup : Option (String × String))
  | game (e : GameEvent)
  | mapStart (map : String) (mapNumber : ℤ)
  | recoverMap (mapNumber : ℤ)
  | loadLocal (m : Loaded) (mapNumber : ℤ)
  | endLocal
  | finishSeries (scrim : Bool)
  | flow (mode : ReadyUpMode) (matchEndPending : Bool)
  | drain (draining : Bool)
  | tick (now : ℚ) (parses licensed : Bool)
  | reload
  deriving DecidableEq, Repr

namespace Bridge

def onGameEvent (s : Bridge) : GameEvent → Bridge
  | .roundStart => { s with inFreeze := true, roundOver := false }
  | .roundEnd => { s with roundOver := true }
  | .announceWarmup => { s with roundOver := false }
  | .freezeEnd => { s with inFreeze := false }

/-- `MatchStateSetMap`, the number. -/
def setMapNumber (s : Bridge) (mapNumber : ℤ) : Bridge :=
  if 1 ≤ mapNumber then { s with mapNumber } else s

/-- `ApplyLoadedMatch` for a match of the console or one that the recovery brings back. -/
def loadLocal (s : Bridge) (m : Loaded) (mapNumber : ℤ) : Bridge :=
  { s with
    ctx := some m
    saved := some m.matchid
    mode := .matchWarmup
    matchEndPending := false
    mapNumber := max 1 mapNumber }

/-- `ModesFinishSeriesResetToIdle`, with the `server_reset` signal. -/
def finishSeries (s : Bridge) (scrim : Bool) : Bridge :=
  { s with
    ctx := none
    saved := none
    mode := .idle
    resetSignal := s.resetSignal || (s.asg.active && !scrim) }

def step (s : Bridge) : BridgeEvent → Bridge
  | .assign m => s.onAssign m
  | .update m => s.onUpdate m
  | .unassign m => s.onUnassign m
  | .cmd m => s.onCmd m
  | .localRestore round requestedBy reason backup =>
    s.restoreRoundFromLocalBackup round requestedBy reason backup
  | .game e => s.onGameEvent e
  | .mapStart map mapNumber => { s.setMapNumber mapNumber with map, mapStarts := s.mapStarts + 1 }
  | .recoverMap mapNumber => s.setMapNumber mapNumber
  | .loadLocal m mapNumber => s.loadLocal m mapNumber
  | .endLocal => s.unload
  | .finishSeries scrim => s.finishSeries scrim
  | .flow mode matchEndPending => { s with mode, matchEndPending }
  | .drain draining => { s with draining }
  | .tick now parses licensed => s.tick now parses licensed
  | .reload => s.reload

end Bridge

end ReadyUp.Fleet
