import ReadyUp.Plugins.CoreCommands
import ReadyUp.Support.Runs

/-!
# The plugin host

The core loads plugins, keeps what they register, and calls them back on the game thread. This is
the host as one state with one step for every section that the source runs under its lock or
without plugin code in between, so a run of steps is an interleaving of the game thread, the code
of the plugins and the other threads.

A plugin is known to the host by the id of its instance: a plugin that is loaded again is another
instance. Every call into plugin code is noted in `calls`.
-/
namespace ReadyUp.Plugins

open Support

/-- A pointer of plugin code or data; 0 is null. -/
abbrev Ptr := ℕ

inductive RegKind where
  | chat
  | console
  | tick
  | event
  | gameEvent
  | logLine
  | ruSub
  | frame
  | clientFilter
  deriving DecidableEq

/-- The `RU_CMD_*` flags of a command. -/
structure CmdFlags where
  hide : Bool := false
  observe : Bool := false
  deriving DecidableEq

structure Reg where
  id : ℕ
  owner : ℕ
  kind : RegKind
  flags : CmdFlags := {}
  name : Bytes := []
  eventType : ℕ := 0
  fn : Ptr
  user : Ptr
  deriving DecidableEq

/-- A queued command. The instance that `owner` names is not in the source: it says for whom the
command was queued. -/
structure QueuedCmd where
  reg : ℕ := 0
  owner : ℕ := 0
  steamid64 : ℕ := 0
  slot : ℤ := -1
  console : Bool := false
  playerName : Bytes := []
  text : Bytes := []
  deriving DecidableEq

structure QueuedTask where
  owner : ℕ
  fn : Ptr
  user : Ptr
  deriving DecidableEq

structure LifecycleEvent where
  type : ℕ := 0
  source : ℕ := 0
  slot : ℤ := -1
  steamid64 : ℕ := 0
  name : Bytes := []
  map : Bytes := []
  team : ℤ := 0
  oldTeam : ℤ := 0
  winner : ℤ := 0
  reason : ℤ := 0
  round : ℤ := 0
  teamCtScore : ℤ := -1
  teamTScore : ℤ := -1
  deriving DecidableEq

inductive Verb where
  | load
  | unload
  | reload
  | enable
  | disable
  deriving DecidableEq

structure PendingOp where
  verb : Verb
  name : Bytes
  deriving DecidableEq

structure Iface where
  owner : ℕ
  version : ℕ
  ptr : Ptr
  deriving DecidableEq

structure ChatPrefix where
  owner : ℕ
  pre : Bytes
  deriving DecidableEq

structure AdminProvider where
  owner : ℕ
  fn : Ptr
  user : Ptr
  deriving DecidableEq

/-- A query for a cvar: no answer yet, an unknown name, or a value. The number `serial` is not in
the source: it tells the queries apart. -/
structure CvarQuery where
  serial : ℕ
  owner : ℕ
  name : Bytes
  fn : Ptr
  user : Ptr
  deadline : ℕ
  answer : Option (Option Bytes) := none
  deriving DecidableEq

structure Instance where
  name : Bytes
  id : ℕ
  unloading : Bool := false
  deriving DecidableEq

/-- A filter of client commands that was copied out of the lock. -/
structure Hit where
  owner : ℕ
  fn : Ptr
  user : Ptr
  deriving DecidableEq

/-- What a registered callback is called with. -/
inductive Arg where
  | command (c : QueuedCmd)
  | event (e : LifecycleEvent)
  | line (l : Bytes)
  | tick (simulating : Bool)
  | gameEvent (name : Bytes)
  deriving DecidableEq

inductive Call where
  | load (id : ℕ)
  | unload (id : ℕ)
  | reg (r : Reg) (arg : Arg)
  | task (t : QueuedTask)
  | cvar (q : CvarQuery)
  | filter (h : Hit)
  | admin (p : AdminProvider) (steamid64 : ℕ)
  | iface (i : Iface)
  deriving DecidableEq

def Call.owner : Call → ℕ
  | load id => id
  | unload id => id
  | reg r _ => r.owner
  | task t => t.owner
  | cvar q => q.owner
  | filter h => h.owner
  | admin p _ => p.owner
  | iface i => i.owner

/-- What the engine asks for on the game thread while it runs. -/
inductive Nested where
  | hits (l : List Hit)
  | events (name : Bytes) (ids : List ℕ)
  deriving DecidableEq

/-- The callback of a plugin that is being loaded or unloaded. -/
inductive Running where
  | load (name : Bytes) (id : ℕ)
  | unload (name : Bytes) (id : ℕ)
  deriving DecidableEq

inductive Work where
  | load (name : Bytes)
  | unload (name : Bytes)
  | ops
  | op (o : PendingOp)
  | queues
  | task (t : QueuedTask)
  | event (e : LifecycleEvent)
  | reg (id : ℕ) (arg : Arg)
  | logLines
  | cvars
  | answer (q : CvarQuery)
  | ticks (kind : RegKind) (simulating : Bool)
  deriving DecidableEq

/-- A call of `cvar_query` whose command is on its way to the engine. -/
structure Asking where
  serial : ℕ
  owner : ℕ
  name : Bytes
  fn : Ptr
  user : Ptr
  deriving DecidableEq

structure Host where
  loaded : List Instance := []
  regs : List Reg := []
  cmds : List QueuedCmd := []
  tasks : List QueuedTask := []
  events : List LifecycleEvent := []
  ops : List PendingOp := []
  currentMap : Bytes := []
  nextId : ℕ := 0
  nextHandle : ℕ := 0
  logLines : List Bytes := []
  ifaces : List (Bytes × Iface) := []
  chatPrefixes : List (ℕ × ChatPrefix) := []
  wantedGen : ℕ := 0
  gameEventRegs : ℤ := 0
  logLineRegs : ℤ := 0
  cvarQueries : List CvarQuery := []
  cvarPending : ℤ := 0
  admins : List AdminProvider := []
  initialized : Bool := false
  -- the game thread
  asking : Option Asking := none
  nested : List Nested := []
  running : Option Running := none
  work : List Work := []
  -- what happened
  nextSerial : ℕ := 0
  returned : List (ℕ × Bool) := []
  calls : List Call := []
  deriving DecidableEq

def maxQueued : ℕ := 1024

namespace Host

variable (s : Host)

/-- `FindLiveByIdLocked` -/
def findById (id : ℕ) : Option Instance := s.loaded.find? (·.id == id)

def findByName (name : Bytes) : Option Instance := s.loaded.find? (·.name == name)

/-- The instance, unless it is being unloaded. -/
def live (id : ℕ) : Option Instance := (s.findById id).filter (!·.unloading)

def ids : List ℕ := s.loaded.map (·.id)

section Api

/-- `AddReg`; the handle is 0 if another command has the name. -/
def addReg (owner : ℕ) (kind : RegKind) (name : Bytes) (type : ℕ) (fn user : Ptr)
    (flags : CmdFlags) : Host × ℕ :=
  if name ≠ [] ∧ flags.observe = false ∧
      s.regs.any (fun r => r.kind = kind ∧ r.name = name ∧ r.flags.observe = false) then (s, 0)
  else
    ({ s with
      nextHandle := s.nextHandle + 1
      regs :=
        s.regs ++
          [{ id := s.nextHandle + 1, owner, kind, flags, name, eventType := type, fn, user }] },
      s.nextHandle + 1)

/-- A name of `low` to `high` bytes. -/
def validName (low high : ℕ) (first rest : UInt8 → Bool) (n : Bytes) : Bool :=
  low ≤ n.length && n.length ≤ high && (n.take 1).all first && (n.drop 1).all rest

def isNameByte (c : UInt8) : Bool := isLower c || isDigit c || c == byte '_'

def registerChat (owner : ℕ) (name : Bytes) (flags : CmdFlags) (fn user : Ptr) : Host × ℕ :=
  let n := lower name
  if fn ≠ 0 ∧ validName 2 32 (fun c => c == byte '.' || c == byte '!')
      (fun c => isAlnum c || c == byte '_' || c == byte '-') n ∧ isCoreChatCommand n = false then
    s.addReg owner .chat n 0 fn user { flags with observe := false }
  else (s, 0)

/-- `ApiFilterClientCommand` -/
def filterClientCommand (owner : ℕ) (name : Bytes) (fn user : Ptr) : Host × ℕ :=
  let n := lower name
  if fn ≠ 0 ∧ validName 1 48 isNameByte isNameByte n ∧
      ¬[ascii "say", ascii "say_team", ascii "ru"].contains n then
    s.addReg owner .clientFilter n 0 fn user {}
  else (s, 0)

def registerConsole (owner : ℕ) (name : Bytes) (flags : CmdFlags) (fn user : Ptr) : Host × ℕ :=
  let n := lower name
  if fn ≠ 0 ∧ validName 2 48 isLower isNameByte n ∧ n ≠ ascii "ru" then
    s.addReg owner .console n 0 fn user { flags with hide := false }
  else (s, 0)

/-- `ApiRegisterRuSub` -/
def registerRuSub (owner : ℕ) (name : Bytes) (fn user : Ptr) : Host × ℕ :=
  let n := lower name
  let valid (c : UInt8) : Bool := isNameByte c || c == byte '-'
  if fn ≠ 0 ∧ validName 1 32 valid valid n ∧ isCoreRuSubcommand n = false then
    s.addReg owner .ruSub n 0 fn user {}
  else (s, 0)

/-- `ApiOnTick` and `ApiOnFrame` -/
def onTick (owner : ℕ) (kind : RegKind) (fn user : Ptr) : Host × ℕ :=
  if fn ≠ 0 then s.addReg owner kind [] 0 fn user {} else (s, 0)

/-- `ApiSubscribe` -/
def subscribe (owner type : ℕ) (fn user : Ptr) : Host × ℕ :=
  if fn ≠ 0 ∧ type < 8 then s.addReg owner .event [] type fn user {} else (s, 0)

/-- `ApiSubscribeGameEvent`: several plugins may want one event. -/
def subscribeGameEvent (owner : ℕ) (name : Bytes) (fn user : Ptr) : Host × ℕ :=
  let n := lower name
  if fn ≠ 0 ∧ validName 1 64 isNameByte isNameByte n then
    ({ s with
      nextHandle := s.nextHandle + 1
      regs := s.regs ++ [{ id := s.nextHandle + 1, owner, kind := .gameEvent, name := n, fn, user }]
      gameEventRegs := s.gameEventRegs + 1
      wantedGen := s.wantedGen + 1 }, s.nextHandle + 1)
  else (s, 0)

/-- `ApiSubscribeLogLine` -/
def subscribeLogLine (owner : ℕ) (fn user : Ptr) : Host × ℕ :=
  if fn ≠ 0 then
    let (t, h) := s.addReg owner .logLine [] 0 fn user {}
    if h ≠ 0 then ({ t with logLineRegs := t.logLineRegs + 1 }, h) else (t, h)
  else (s, 0)

/-- `ApiUnregister` -/
def unregister (owner handle : ℕ) : Host :=
  if handle = 0 then s
  else { s with regs := s.regs.eraseP fun r => r.id == handle && r.owner == owner }

/-- `ApiPostToGameThread` -/
def postToGameThread (self : ℕ) (fn user : Ptr) : Host :=
  if fn ≠ 0 ∧ (s.live self).isSome ∧ s.tasks.length < maxQueued * 4 then
    { s with tasks := s.tasks ++ [{ owner := self, fn, user }] }
  else s

/-- `ApiProvideInterface` -/
def provideInterface (owner : ℕ) (name : Bytes) (version : ℕ) (ptr : Ptr) : Host :=
  if name = [] ∨ ptr = 0 ∨ (s.ifaces.lookup name).any (·.owner ≠ owner) then s
  else { s with ifaces := (name, { owner, version, ptr }) :: s.ifaces.filter (·.1 ≠ name) }

/-- `ApiSetChatNamePrefix` -/
def setChatNamePrefix (owner steamid64 : ℕ) (pre : Bytes) : Host :=
  if steamid64 = 0 then s
  else if pre = [] then
    { s with chatPrefixes := s.chatPrefixes.filter fun p =>
      !(p.1 == steamid64 && p.2.owner == owner) }
  else { s with chatPrefixes := (steamid64, { owner, pre }) ::
    s.chatPrefixes.filter (·.1 ≠ steamid64) }

/-- `ApiSetAdminProvider` -/
def setAdminProvider (owner : ℕ) (fn user : Ptr) : Host :=
  let others := s.admins.filter (·.owner ≠ owner)
  { s with admins := if fn ≠ 0 then others ++ [{ owner, fn, user }] else others }

end Api

section Cvars

def validCvarName (name : Bytes) : Bool :=
  name ≠ [] && name.length ≤ 63 && name.all fun c => isAlnum c || c == byte '_' || c == byte '.'

/-- `ParseCvarAnswer`: none if the line is about something else. -/
def parseCvarAnswer (line name : Bytes) : Option (Option Bytes) :=
  let l := (line.rdropWhile fun c => c == byte '\n' || c == byte '\r').dropWhile fun c =>
    c == byte ' ' || c == byte '\t'
  let nameAt (t : Bytes) : Bool := lower (t.take name.length) = lower name
  let unknown := ascii "Unknown command '"
  let rest := l.drop unknown.length
  if name = [] then none
  else if nameAt l ∧ (l.drop name.length).take 3 = ascii " = " then
    some (some (l.drop (name.length + 3)))
  else if nameAt l ∧ l.drop name.length = ascii " =" then some (some [])
  else if l.take unknown.length = unknown ∧ nameAt rest ∧ (rest.drop name.length).take 1 =
    ascii "'" then some none
  else none

/-- `ApiCvarQuery` up to the command that goes to the engine. -/
def cvarQuery (owner : ℕ) (name : Bytes) (fn user : Ptr) (now : ℕ) : Host :=
  if fn ≠ 0 ∧ validCvarName name ∧ s.cvarQueries.length < 256 then
    { s with
      cvarQueries :=
        s.cvarQueries ++
          [{ serial := s.nextSerial, owner, name, fn, user, deadline := now + 3000000000 }]
      cvarPending := s.cvarPending + 1
      nextSerial := s.nextSerial + 1
      asking := some { serial := s.nextSerial, owner, name, fn, user } }
  else s

/-- The query is one like the one that is asked, and still waits for its line. -/
def Asking.isFor (a : Asking) (q : CvarQuery) : Bool :=
  q.owner = a.owner && q.fn = a.fn && q.user = a.user && q.name = a.name && q.answer = none

/-- The list without the last item of a kind. -/
def eraseLast {α : Type} (p : α → Bool) (l : List α) : List α := (l.reverse.eraseP p).reverse

/-- The rest of `ApiCvarQuery`: a query whose command was refused is taken back. -/
def enqueued (ok : Bool) : Host :=
  match s.asking with
  | none => s
  | some a =>
    let t := { s with asking := none, returned := s.returned ++ [(a.serial, ok)] }
    if ok then t
    else if s.cvarQueries.any (Asking.isFor a) then
      { t with
        cvarQueries := eraseLast (Asking.isFor a) s.cvarQueries
        cvarPending := s.cvarPending - 1 }
    else t

/-- A query with the answer of a console line, if it waits for it. -/
def answered (line : Bytes) (q : CvarQuery) : CvarQuery :=
  match q.answer with
  | some _ => q
  | none => { q with answer := parseCvarAnswer line q.name }

/-- The queries that wait for their line. -/
def pending (l : List CvarQuery) : ℕ := l.countP fun q => q.answer.isNone

/-- `MatchCvarLineLocked` -/
def matchCvarLine (line : Bytes) : Host :=
  { s with
    cvarQueries := s.cvarQueries.map (answered line)
    cvarPending := s.cvarPending -
      (s.cvarQueries.countP fun q => q.answer.isNone && (parseCvarAnswer line q.name).isSome : ℕ) }

/-- The line for the subscribers, if there are any. -/
def queueLine (line : Bytes) : Host :=
  if 0 < s.logLineRegs then
    { s with logLines :=
      (if maxQueued ≤ s.logLines.length then s.logLines.drop 1 else s.logLines) ++ [line] }
  else s

def postLogLine (line : Bytes) : Host :=
  if line = [] then s
  else (if 0 < s.cvarPending then s.matchCvarLine line else s).queueLine line

/-- A query that was answered or whose time is over. -/
def isReady (now : ℕ) (q : CvarQuery) : Bool := q.answer.isSome || q.deadline ≤ now

/-- `DeliverCvarQueries` up to the calls. -/
def takeReady (now : ℕ) : Host :=
  let ready := s.cvarQueries.filter (isReady now)
  { s with
    cvarQueries := s.cvarQueries.filter (!isReady now ·)
    cvarPending := s.cvarPending - (pending ready : ℕ)
    work := ready.map .answer ++ s.work }

end Cvars

section Dispatch

/-- `QueueCommandLocked` -/
def queueCommand (kind : RegKind) (token : Bytes) (c : QueuedCmd) : Host × Bool :=
  match s.regs.find? (fun r => r.kind = kind ∧ r.name = token ∧ r.flags.observe = false) with
  | none => (s, false)
  | some r =>
    if (s.live r.owner).isNone then (s, false)
    else if maxQueued ≤ s.cmds.length then (s, true)
    else ({ s with cmds := s.cmds ++ [{ c with reg := r.id, owner := r.owner }] }, true)

def tryDispatchChat (steamid64 : ℕ) (playerName text : Bytes) (slot : ℤ) : Host × Bool :=
  match splitWS text with
  | [] => (s, false)
  | first :: _ =>
    if steamid64 = 0 then (s, false)
    else s.queueCommand .chat (lower first) { steamid64, slot, playerName, text }

def tryDispatchRu (console : Bool) (steamid64 : ℕ) (playerName text : Bytes) (slot : ℤ) :
    Host × Bool :=
  match splitWS text with
  | _ :: sub :: _ =>
    if console = false ∧ steamid64 = 0 then (s, false)
    else
      s.queueCommand .ruSub (lower sub)
        (if console then { console := true, playerName := ascii "Console", text }
          else { steamid64, slot, playerName, text })
  | _ => (s, false)

def tryDispatchConsole (line : Bytes) : Host × Bool :=
  match splitWS line with
  | [] => (s, false)
  | first :: _ =>
    s.queueCommand .console (lower first)
      { console := true, playerName := ascii "Console", text := line }

/-- A command for an observer of the console. -/
def observe (token line : Bytes) (t : Host) (r : Reg) : Host :=
  if r.kind = .console ∧ r.flags.observe = true ∧ r.name = token ∧ (t.live r.owner).isSome ∧
      t.cmds.length < maxQueued then
    { t with cmds :=
      t.cmds ++ [{ reg := r.id, owner := r.owner, console := true, playerName := ascii "Console",
                                  text := line }] }
  else t

def observeConsole (line : Bytes) : Host :=
  match splitWS line with
  | [] => s
  | first :: _ => s.regs.foldl (observe (lower first) line) s

/-- `AnyRegLocked` for lifecycle events. -/
def wantsEvent (type : ℕ) (r : Reg) : Bool :=
  r.kind = .event && (r.eventType = 0 || r.eventType = type)

/-- The queue without its oldest item if it is full. -/
def pushEvent (e : LifecycleEvent) : Host :=
  if s.regs.any (wantsEvent e.type) then
    { s with events := (if maxQueued ≤ s.events.length then s.events.drop 1 else s.events) ++ [e] }
  else s

def postEvent (e : LifecycleEvent) : Host :=
  if e.type = 1 then
    if e.map = [] ∨ e.map = s.currentMap then s else { s with currentMap := e.map }.pushEvent e
  else s.pushEvent { e with map := s.currentMap }

end Dispatch

section Calls

def note (c : Call) : Host := { s with calls := s.calls ++ [c] }

def lookupReg (id : ℕ) : Option Reg :=
  (s.regs.find? (·.id == id)).filter fun r => (s.live r.owner).isSome

/-- Calls the callback of a handle, if it still has one, as `DeliverCommand` and the loops over
handles do. -/
def callReg (id : ℕ) (arg : Arg) : Host :=
  match s.lookupReg id with
  | none => s
  | some r => s.note (.reg r arg)

def regIds (p : Reg → Bool) : List ℕ := (s.regs.filter p).map (·.id)

/-- The filters for a client command. -/
def hitsFor (cmd : Bytes) : List Hit :=
  (s.regs.filter fun r => r.kind = .clientFilter && r.name = cmd && (s.live r.owner).isSome).map
    fun r =>
    { owner := r.owner, fn := r.fn, user := r.user }

/-- `FilterClientCommand` up to the calls. -/
def filterCommand (argv : List Bytes) : Host :=
  match argv with
  | [] => s
  | cmd :: _ => { s with nested := .hits (s.hitsFor (lower cmd)) :: s.nested }

/-- `DispatchGameEvent` up to the calls. -/
def dispatchGameEvent (name : Bytes) : Host :=
  if 0 < s.gameEventRegs then
    let n := lower name
    { s with nested := .events n (s.regIds fun r => r.kind = .gameEvent && r.name = n) :: s.nested }
  else s

/-- The providers that are asked: up to the first that says admin. -/
def asked (answer : AdminProvider → ℤ) : List AdminProvider → List AdminProvider
  | [] => []
  | p :: ps => p :: if 0 < answer p then [] else asked answer ps

/-- `PluginAdminVerdict`, under a lock that an unload waits for. -/
def adminVerdict (steamid64 : ℕ) (answer : AdminProvider → ℤ) : Host :=
  { s with calls := s.calls ++ (asked answer s.admins).map (.admin · steamid64) }

/-- `RunPluginSelftests`, under a lock that an unload waits for. -/
def runPluginSelftests : Host :=
  let ifaces := s.ifaces.filter fun i =>
    (ascii "readyup.selftest.").isPrefixOf i.1 && 1 ≤ i.2.version && (s.live i.2.owner).isSome
  { s with calls := s.calls ++ ifaces.map (.iface ·.2) }

/-- `CoreGetInterface` and the call through what it returns, on the game thread. -/
def callInterface (name : Bytes) (minVersion : ℕ) : Host :=
  match s.ifaces.lookup name with
  | none => s
  | some i => if minVersion ≤ i.version ∧ (s.live i.owner).isSome then s.note (.iface i) else s

end Calls

section Lifecycle

def validPluginName (n : Bytes) : Bool :=
  n ≠ [] && n.length ≤ 32 && n.all fun c => isNameByte c || c == byte '-'

/-- `DropOwnedLocked`, with the admin provider of the instance. -/
def dropOwned (id : ℕ) : Host :=
  let mine (r : Reg) : Bool := r.owner == id
  let gameEvents := s.regs.countP fun r => mine r && r.kind = .gameEvent
  { s with
    gameEventRegs := s.gameEventRegs - gameEvents
    wantedGen := if gameEvents = 0 then s.wantedGen else s.wantedGen + 1
    logLineRegs := s.logLineRegs - (s.regs.countP fun r => mine r && r.kind = .logLine : ℕ)
    ifaces := s.ifaces.filter (·.2.owner ≠ id)
    chatPrefixes := s.chatPrefixes.filter (·.2.owner ≠ id)
    regs := s.regs.filter (!mine ·)
    tasks := s.tasks.filter (·.owner ≠ id)
    cvarPending := s.cvarPending - (pending (s.cvarQueries.filter (·.owner = id)) : ℕ)
    cvarQueries := s.cvarQueries.filter (·.owner ≠ id)
    admins := s.admins.filter (·.owner ≠ id) }

/-- The end of `UnloadNow` and of a load that failed. -/
def close (name : Bytes) (id : ℕ) : Host :=
  { s.dropOwned id with loaded := s.loaded.filter (·.name ≠ name), running := none }

/-- `LoadNow` up to the load callback. The file passed its checks if `image` holds. -/
def loadNow (name : Bytes) (image : Bool) : Host :=
  if validPluginName name ∧ (s.findByName name).isNone ∧ image then
    { s with
      nextId := s.nextId + 1
      loaded := s.loaded ++ [{ name, id := s.nextId + 1 }]
      running := some (.load name (s.nextId + 1))
      calls := s.calls ++ [.load (s.nextId + 1)] }
  else s

/-- `UnloadNow` up to the unload callback. -/
def unloadNow (name : Bytes) : Host :=
  match s.findByName name with
  | none => s
  | some inst =>
    { s with
      loaded := s.loaded.map fun i => if i.name = name then { i with unloading := true } else i
      running := some (.unload name inst.id)
      calls := s.calls ++ [.unload inst.id] }

/-- What the outside decides in a step of the game thread. -/
structure Env where
  /-- `plugins.json` could be written. -/
  saved : Bool := true
  /-- The file of the plugin passes its checks. -/
  image : Bool := true
  /-- What the load callback returns. -/
  rc : ℤ := 0
  /-- A filter refuses the client command. -/
  blocked : Bool := false
  /-- The time in nanoseconds. -/
  now : ℕ := 0

def runOp (o : PendingOp) (env : Env) : Host :=
  let isLoaded := (s.findByName o.name).isSome
  match o.verb with
  | .load => { s with work := .load o.name :: s.work }
  | .unload => { s with work := .unload o.name :: s.work }
  | .reload =>
    { s with work := (if isLoaded then [.unload o.name, .load o.name] else [.load o.name]) ++
      s.work }
  | .enable => if env.saved ∧ isLoaded = false then { s with work := .load o.name :: s.work } else s
  | .disable =>
    if o.name ≠ ascii "addons" ∧ env.saved ∧ isLoaded then
      { s with work := .unload o.name :: s.work }
    else s

/-- One item of what is left to do in a frame. -/
def doWork (env : Env) : Work → Host
  | .load name => s.loadNow name env.image
  | .unload name => s.unloadNow name
  | .ops => { s with work := s.ops.map .op ++ s.work, ops := [] }
  | .op o => s.runOp o env
  | .queues =>
    { s with
      work :=
        s.tasks.map .task ++ s.cmds.map (fun c => .reg c.reg (.command c)) ++
          s.events.map .event ++ s.work
      tasks := []
      cmds := []
      events := [] }
  | .task t => if (s.live t.owner).isSome then s.note (.task t) else s
  | .event e => { s with work := (s.regIds (wantsEvent e.type)).map (.reg · (.event e)) ++ s.work }
  | .reg id arg => s.callReg id arg
  | .logLines =>
    if 0 < s.logLineRegs then
      let ids := s.regIds (·.kind = .logLine)
      { s with work := (s.logLines.flatMap fun l => ids.map (.reg · (.line l))) ++
        s.work, logLines := [] }
    else s
  | .cvars => s.takeReady env.now
  | .answer q => if (s.live q.owner).isSome then s.note (.cvar q) else s
  | .ticks kind simulating =>
    { s with work := (s.regIds (·.kind = kind)).map (.reg · (.tick simulating)) ++ s.work }

/-- A call that the engine asked for. -/
def doNested (env : Env) : Nested → Host
  | .hits [] => s
  | .hits (h :: hs) =>
    let t := s.note (.filter h)
    if env.blocked then t else { t with nested := .hits hs :: t.nested }
  | .events _ [] => s
  | .events n (id :: ids) =>
    { s with nested := .events n ids :: s.nested }.callReg id (.gameEvent n)

/-- The game thread goes on: with the calls of the engine, with the plugin that is being loaded or
unloaded, or with the frame. -/
def gameStep (env : Env) : Host :=
  match s.nested, s.running, s.work with
  | n :: rest, _, _ => { s with nested := rest }.doNested env n
  | [], some (.load name id), _ =>
    if env.rc = 0 then { s with running := none } else s.close name id
  | [], some (.unload name id), _ => s.close name id
  | [], none, w :: rest => { s with work := rest }.doWork env w
  | [], none, [] => s

/-- What a frame does, in order; the first one loads the plugins that it finds. -/
def frameWork (initialized simulating : Bool) (files : List Bytes) : List Work :=
  (if initialized then [] else files.map .load) ++ [.ops, .queues, .logLines, .cvars] ++
    (if simulating then [.ticks .tick true] else []) ++ [.ticks .frame simulating]

/-- `Frame` up to its first call; `files` are the plugins that the first frame loads. -/
def frame (simulating : Bool) (files : List Bytes) : Host :=
  if s.nested = [] ∧ s.running = none ∧ s.work = [] then
    { s with initialized := true, work := frameWork s.initialized simulating files }
  else s

/-- `UnloadPluginsAtQuit`: the process ends, so nothing else is gone on with. -/
def quit : Host :=
  { s with asking := none, nested := [], running := none, work :=
    s.loaded.reverse.map (.unload ·.name) }

end Lifecycle

end Host

/-- The functions that a plugin calls on the game thread. -/
inductive Api where
  | registerChat (name : Bytes) (flags : CmdFlags) (fn user : Ptr)
  | registerConsole (name : Bytes) (flags : CmdFlags) (fn user : Ptr)
  | registerRuSub (name : Bytes) (fn user : Ptr)
  | filterClientCommand (name : Bytes) (fn user : Ptr)
  | onTick (fn user : Ptr)
  | onFrame (fn user : Ptr)
  | subscribe (type : ℕ) (fn user : Ptr)
  | subscribeGameEvent (name : Bytes) (fn user : Ptr)
  | subscribeLogLine (fn user : Ptr)
  | unregister (handle : ℕ)
  | provideInterface (name : Bytes) (version : ℕ) (ptr : Ptr)
  | setChatNamePrefix (steamid64 : ℕ) (pre : Bytes)
  | setAdminProvider (fn user : Ptr)
  | cvarQuery (name : Bytes) (fn user : Ptr) (now : ℕ)

inductive Event where
  | api (self : ℕ) (call : Api)
  | enqueued (ok : Bool)
  | postToGameThread (self : ℕ) (fn user : Ptr)
  | postEvent (e : LifecycleEvent)
  | postLogLine (line : Bytes)
  | dispatchChat (steamid64 : ℕ) (playerName text : Bytes) (slot : ℤ)
  | dispatchRu (console : Bool) (steamid64 : ℕ) (playerName text : Bytes) (slot : ℤ)
  | dispatchConsole (line : Bytes)
  | observeConsole (line : Bytes)
  | pluginCommand (verb : Verb) (name : Bytes)
  | adminVerdict (steamid64 : ℕ) (answer : AdminProvider → ℤ)
  | runPluginSelftests
  | callInterface (name : Bytes) (minVersion : ℕ)
  | filterCommand (argv : List Bytes)
  | gameEvent (name : Bytes)
  | frame (simulating : Bool) (files : List Bytes)
  | game (env : Host.Env)
  | quit

namespace Host

/-- A function of the API for an instance that is loaded. -/
def apply (s : Host) (owner : ℕ) : Api → Host
  | .registerChat name flags fn user => (s.registerChat owner name flags fn user).1
  | .registerConsole name flags fn user => (s.registerConsole owner name flags fn user).1
  | .registerRuSub name fn user => (s.registerRuSub owner name fn user).1
  | .filterClientCommand name fn user => (s.filterClientCommand owner name fn user).1
  | .onTick fn user => (s.onTick owner .tick fn user).1
  | .onFrame fn user => (s.onTick owner .frame fn user).1
  | .subscribe type fn user => (s.subscribe owner type fn user).1
  | .subscribeGameEvent name fn user => (s.subscribeGameEvent owner name fn user).1
  | .subscribeLogLine fn user => (s.subscribeLogLine owner fn user).1
  | .unregister handle => s.unregister owner handle
  | .provideInterface name version ptr => s.provideInterface owner name version ptr
  | .setChatNamePrefix steamid64 pre => s.setChatNamePrefix owner steamid64 pre
  | .setAdminProvider fn user => s.setAdminProvider owner fn user
  | .cvarQuery name fn user now => s.cvarQuery owner name fn user now

/-- What only the game thread does waits for a `cvar_query` that it is in. -/
def onGameThread (s t : Host) : Host := if s.asking.isSome then s else t

def step (s : Host) : Event → Host
  | .api self call => s.onGameThread (if (s.findById self).isSome then s.apply self call else s)
  | .enqueued ok => s.enqueued ok
  | .postToGameThread self fn user => s.postToGameThread self fn user
  | .postEvent e => s.postEvent e
  | .postLogLine line => s.postLogLine line
  | .dispatchChat steamid64 playerName text slot =>
    (s.tryDispatchChat steamid64 playerName text slot).1
  | .dispatchRu console steamid64 playerName text slot =>
    (s.tryDispatchRu console steamid64 playerName text slot).1
  | .dispatchConsole line => (s.tryDispatchConsole line).1
  | .observeConsole line => s.observeConsole line
  | .pluginCommand verb name =>
    if validPluginName name then { s with ops := s.ops ++ [{ verb, name }] } else s
  | .adminVerdict steamid64 answer => s.adminVerdict steamid64 answer
  | .runPluginSelftests => s.runPluginSelftests
  | .callInterface name minVersion => s.onGameThread (s.callInterface name minVersion)
  | .filterCommand argv => s.onGameThread (s.filterCommand argv)
  | .gameEvent name => s.onGameThread (s.dispatchGameEvent name)
  | .frame simulating files => s.onGameThread (s.frame simulating files)
  | .game env => s.onGameThread (s.gameStep env)
  | .quit => s.quit

end Host

end ReadyUp.Plugins
