import Mathlib.Data.Finset.Card
import ReadyUp.Mapvote.Rules
import ReadyUp.Support.Assoc
import ReadyUp.Support.Runs
import ReadyUp.Support.Since
import ReadyUp.Support.Table

/-!
# The map votes of a server

The plugin counts who wants another map, keeps the nominations, runs one vote at a time and loads
the map that was picked. Every step adds what happened to a log.
-/
namespace ReadyUp.Mapvote

open Support

section Model

/-- What a command or a tick finds: whether a match owns the map, the people on the server and the
time. -/
structure Scene where
  matchOwnsMap : Bool
  humans : ℕ
  now : ℚ

/-- Who gives a command of `ru mapvote`. -/
structure Caller where
  isConsole : Bool
  isAdmin : Bool

def Caller.admin (who : Caller) : Bool := who.isConsole || who.isAdmin

inductive Why where
  | rtv
  | admin
  | endOfMap
  deriving DecidableEq

/-- `Vote`. The option without a name is to extend the map. -/
structure Vote where
  endOfMap : Bool
  options : List Bytes
  extendIndex : Option ℕ
  votes : Table ℕ ℕ
  endsAt : ℚ

inductive Sign where
  | mapStart (map : Bytes) (now : ℚ)
  | settings (s : Settings)
  | rtv (who : ℕ)
  | unrtv (who : ℕ)
  | nominated (who : ℕ) (entry : Bytes)
  | left (who : ℕ)
  | started (who : Caller)
  | opened (c : Scene) (why : Why) (options : List Bytes)
  | voted (who option : ℕ)
  | closed (winner : ℕ) (option : Bytes)
  | dropped
  | cancelled (who : Caller)
  | changed (who : Caller) (map : Bytes)
  | loaded (c : Scene) (map : Bytes)

/-- `State`, with what has happened so far, the newest first. -/
structure Plugin where
  s : Settings
  currentMap : Bytes
  mapStartedAt : ℚ
  extended : ℕ := 0
  recent : List Bytes := []
  rtv : Finset ℕ := ∅
  nominations : List (ℕ × Bytes) := []
  vote : Option Vote := none
  voted : Bool := false
  nextMap : Bytes := []
  changeAt : ℚ := 0
  log : List Sign

namespace Plugin

/-- `readyup_plugin_load` -/
def load (get : Bytes → Option Bytes) (currentMap : Bytes) (now : ℚ) : Plugin where
  s := loadedSettings get currentMap
  currentMap := currentMap
  mapStartedAt := now
  log := [.settings (loadedSettings get currentMap), .mapStart currentMap now]

variable (g : Plugin) (c : Scene) (pick : ℕ → (n : ℕ) → Fin (n + 1))

def active : Bool := g.s.enabled && g.s.maps ≠ [] && !c.matchOwnsMap

def extendAllowed (why : Why) : Bool :=
  why = .endOfMap && 0 < g.s.mapTimeMinutes && g.extended < g.s.maxExtends

def ballot : List Bytes :=
  buildBallot g.s.maps (g.nominations.map (·.2)) g.currentMap
    (g.recent.take g.s.recentMapsExcluded.toNat) g.s.voteOptions
    pick

def openVote (why : Why) (options : List Bytes) (extendIndex : Option ℕ) : Plugin :=
  let vote : Vote :=
    { endOfMap := why = .endOfMap, options, extendIndex, votes := ∅,
      endsAt := c.now + g.s.voteSeconds }
  { g with vote := some vote, log := .opened c why options :: g.log }

def startVote (why : Why) : Plugin :=
  let maps := g.ballot pick
  if g.extendAllowed why then g.openVote c why (maps ++ [[]]) (some maps.length)
  else if maps = [] then { g with vote := none }
  else g.openVote c why maps none

/-- The end of a vote that the option wins. -/
def closeVote (v : Vote) (w : ℕ) (now : ℚ) : Plugin :=
  let option := v.options.getD w []
  let g := { g with vote := none, rtv := ∅, log := .closed w option :: g.log }
  if option = [] then { g with extended := g.extended + 1, voted := false }
  else
    { g with
      voted := true
      nextMap := option
      nominations := []
      changeAt := if v.endOfMap then g.changeAt else now + 5 }

def finishVote (v : Vote) (now : ℚ) : Plugin :=
  match winner v.options.length (v.votes.entries.map (·.2)) v.extendIndex (pick 0) with
  | none => { g with vote := none, rtv := ∅ }
  | some w => g.closeVote v w now

def tryRtv : Plugin :=
  if rtvNeeded c.humans g.s.rtvRatio ≤ g.rtv.card ∧ g.s.rtvMinPlayers ≤ c.humans ∧
  g.vote.isNone then
    g.startVote c pick .rtv
  else g

def wantRtv (who : ℕ) : Plugin := { g with rtv := insert who g.rtv, log := .rtv who :: g.log }

def onRtv (who : ℕ) : Plugin :=
  if !g.active c || who = 0 then g
  else if g.voted && g.nextMap ≠ [] then g
  else if g.vote.isSome then g
  else if c.now - g.mapStartedAt < g.s.rtvDelaySeconds then g
  else if c.humans < g.s.rtvMinPlayers then g
  else (g.wantRtv who).tryRtv c pick

def onUnrtv (who : ℕ) : Plugin :=
  if g.active c then { g with rtv := g.rtv.erase who, log := .unrtv who :: g.log } else g

def setNomination (who : ℕ) (entry : Bytes) : Plugin :=
  { g with nominations := assign g.nominations who entry, log := .nominated who entry :: g.log }

/-- `OnNominate` with the words of the command. -/
def onNominate (who : ℕ) (args : List Bytes) : Plugin :=
  if !g.active c || who = 0 || args = [] || g.vote.isSome then g
  else
    match findMap g.s.maps ([byte ' '].intercalate args) with
    | .error _ => g
    | .ok entry =>
      if mapDisplayName entry = mapDisplayName g.currentMap || entry = g.currentMap then g
      else if g.nominations.any fun n => n.2 = entry && n.1 ≠ who then g
      else g.setNomination who entry

def castVote (v : Vote) (who i : ℕ) : Plugin :=
  { g with vote := some { v with votes := v.votes.insert who i }, log := .voted who i :: g.log }

def onVoteNumber (who n : ℕ) : Plugin :=
  match g.vote with
  | none => g
  | some v => if who = 0 || n < 1 || v.options.length < n then g else g.castVote v who (n - 1)

/-- A command of `ru mapvote`. -/
inductive RuCommand where
  | reload (get : Bytes → Option Bytes)
  | start
  | cancel
  | change (arg : Bytes)

def reload (get : Bytes → Option Bytes) : Plugin :=
  { g with s := loadedSettings get g.currentMap, log :=
    .settings (loadedSettings get g.currentMap) :: g.log }

def cancel (who : Caller) : Plugin :=
  { g with vote := none, changeAt := 0, nextMap := [], voted := false, log :=
    .cancelled who :: g.log }

def change (who : Caller) (entry : Bytes) : Plugin :=
  { g with nextMap := entry, voted := true, changeAt := c.now + 3, log :=
    .changed who entry :: g.log }

/-- `ru mapvote start`, before the vote. -/
def started (who : Caller) : Plugin := { g with log := .started who :: g.log }

def onRu (who : Caller) : RuCommand → Plugin
  | .reload get => if who.admin then g.reload get else g
  | .start =>
    if !who.admin || !g.active c || g.vote.isSome then g
    else (g.started who).startVote c pick .admin
  | .cancel => if !who.admin || g.vote.isNone && g.changeAt = 0 then g else g.cancel who
  | .change arg =>
    if who.admin then g.change c who ((findMap g.s.maps arg).toOption.getD arg) else g

def onMapStart (map : Bytes) (get : Bytes → Option Bytes) (now : ℚ) : Plugin :=
  { s := loadedSettings get map
    currentMap := map
    mapStartedAt := now
    recent := if g.currentMap ≠ [] ∧ g.currentMap ≠ map then
      (g.currentMap :: g.recent).take 20 else g.recent
    log := .settings (loadedSettings get map) :: .mapStart map now :: g.log }

def changeMap : Plugin :=
  let g := { g with changeAt := 0 }
  if g.nextMap ≠ [] && g.active c then { g with log := .loaded c g.nextMap :: g.log } else g

/-- The end of the map, with the time that is left. -/
def endOfMap (left : ℤ) : Plugin :=
  let g :=
    if !g.voted && left ≤ g.s.voteBeforeEndSeconds && 0 < c.humans then
      g.startVote c pick .endOfMap
    else g
  if left = 0 ∧ g.voted ∧ g.nextMap ≠ [] ∧ g.changeAt = 0 then
    { g with changeAt := c.now + 3 }
  else g

def onTick : Plugin :=
  match g.vote with
  | some v =>
    if !g.active c then { g with vote := none, log := .dropped :: g.log }
    else if v.endsAt ≤ c.now then g.finishVote pick v c.now
    else g
  | none =>
    if 0 < g.changeAt ∧ g.changeAt ≤ c.now then g.changeMap c
    else if !g.active c then g
    else
      match secondsLeft g.s g.mapStartedAt g.extended c.now with
      | none => g
      | some left => g.endOfMap c pick left

def leave (who : ℕ) : Plugin :=
  { g with
    rtv := g.rtv.erase who
    nominations := g.nominations.filter fun n => n.1 ≠ who
    vote := g.vote.map fun v => { v with votes := v.votes.erase who }
    log := .left who :: g.log }

/-- `OnPlayerEvent`, when a player disconnects. -/
def onDisconnect (who : ℕ) : Plugin :=
  let g := g.leave who
  if g.active c && g.vote.isNone && g.rtv.Nonempty then g.tryRtv c pick else g

end Plugin

/-- What happens to the plugin; `pick` are the random numbers. -/
inductive Event where
  | rtv (c : Scene) (pick : ℕ → (n : ℕ) → Fin (n + 1)) (who : ℕ)
  | unrtv (c : Scene) (who : ℕ)
  | nominate (c : Scene) (who : ℕ) (args : List Bytes)
  | number (who n : ℕ)
  | ru (c : Scene) (pick : ℕ → (n : ℕ) → Fin (n + 1)) (who : Caller)
      (command : Plugin.RuCommand)
  | mapStart (map : Bytes) (get : Bytes → Option Bytes) (now : ℚ)
  | tick (c : Scene) (pick : ℕ → (n : ℕ) → Fin (n + 1))
  | disconnect (c : Scene) (pick : ℕ → (n : ℕ) → Fin (n + 1)) (who : ℕ)

def Plugin.step (g : Plugin) : Event → Plugin
  | .rtv c pick who => g.onRtv c pick who
  | .unrtv c who => g.onUnrtv c who
  | .nominate c who args => g.onNominate c who args
  | .number who n => g.onVoteNumber who n
  | .ru c pick who command => g.onRu c pick who command
  | .mapStart map get now => g.onMapStart map get now
  | .tick c pick => g.onTick c pick
  | .disconnect c pick who => g.onDisconnect c pick who

end Model

end ReadyUp.Mapvote
