import ReadyUp.Config.Minijson
import ReadyUp.Support.Checks
import ReadyUp.Support.StableSort

/-!
# Scenarios

A scenario is one recorded round: the path and the state of every player over time, and the
grenades, deaths and bomb events. `parse` reads it from JSON, refuses what it cannot replay and
sorts the events by their ticks (`sound_parse`).
-/
namespace ReadyUp.Practice

open Support Config.Minijson

section Data

/-- The numbers that the floats stand for. -/
structure V3 where
  x : ℚ
  y : ℚ
  z : ℚ
  deriving DecidableEq

/-- Health, armor, money and items from tick `t` on. -/
structure State where
  t : ℤ
  hp : ℤ
  armor : ℤ
  helmet : Bool
  defuser : Bool
  money : ℤ
  items : List Bytes

/-- `team` is 2 for T and 3 for CT; `track` has five numbers for every sample. -/
structure Player where
  name : Bytes
  steamid : Bytes
  team : ℤ
  aliveUntil : ℤ
  track : List ℚ
  states : List State

inductive GrenadeType where
  | smoke
  | flash
  | he
  | molotov
  | incendiary
  | decoy
  deriving DecidableEq

structure Grenade where
  t : ℤ
  player : ℤ
  type : GrenadeType
  pos : V3
  vel : V3
  land : V3
  landT : ℤ

structure Death where
  t : ℤ
  player : ℤ
  killer : ℤ
  weapon : Bytes

/-- `pos` is none when `hasPos` is not set. -/
structure BombEvent where
  t : ℤ
  event : Bytes
  player : ℤ
  pos : Option V3

structure Source where
  event : Bytes := []
  matchName : Bytes := []
  teamT : Bytes := []
  teamCT : Bytes := []
  url : Bytes := []
  demo : Bytes := []
  note : Bytes := []

structure Scenario where
  id : Bytes
  title : Bytes
  map : Bytes
  tickrate : ℤ
  sampleTicks : ℤ
  round : ℤ
  freezeEndTick : ℤ
  length : ℤ
  defaultStart : ℤ
  winner : Bytes
  reason : Bytes
  source : Source
  players : List Player := []
  grenades : List Grenade := []
  deaths : List Death := []
  bomb : List BombEvent := []

/-- Why a text is refused. What the reader says of a text that is no JSON is left out. -/
inductive Refusal where
  | notJson
  | text (m : Bytes)

end Data

section Fields

def str (o : Value) (k : String) : Bytes :=
  match o.get k with
  | some (.string s) => s
  | _ => []

def num (o : Value) (k : String) : Option Binary64 :=
  match o.get k with
  | some (.number d) => if d.isFinite then some d else none
  | _ => none

def int (o : Value) (k : String) (dflt : ℤ) : ℤ :=
  match num o k with
  | some d => if |d.toRat| < 2 * 10 ^ 9 then d.toInt else dflt
  | none => dflt

def bool (o : Value) (k : String) : Bool :=
  match o.get k with
  | some (.bool b) => b
  | some (.number d) => d.mag.val ≠ 0
  | _ => false

def arr (o : Value) (k : String) : Option (List Value) :=
  match o.get k with
  | some (.array a) => some a
  | _ => none

/-- The cast to a float of 24 bits, of a number that no float overflows at. -/
def toFloat (x : Binary64) : ℚ :=
  let q := Binary64.magnitude x.mag
  let spacing := max (Int.log 2 q - 23) (-149)
  signed x.neg (roundEven (q / 2 ^ spacing) * 2 ^ spacing)

def coordinate : Value → Option ℚ
  | .number d => if d.isFinite && |d.toRat| < 65536 then some (toFloat d) else none
  | _ => none

def vec (o : Value) (k : String) : Option V3 :=
  match (arr o k).map (·.map coordinate) with
  | some [some x, some y, some z] => some { x, y, z }
  | _ => none

def parseType (s : Bytes) : Option GrenadeType :=
  [(ascii "smoke", .smoke), (ascii "flash", .flash), (ascii "hegrenade", .he),
    (ascii "molotov", .molotov), (ascii "incgrenade", .incendiary),
    (ascii "decoy", .decoy)].lookup s

def clamp (i low high : ℤ) : ℤ := max low (min i high)

end Fields

section Parse

def refuse {α : Type} (m : Bytes) : Except Refusal α := .error (.text m)

def require (ok : Bool) (m : Bytes) : Except Refusal Unit := check ok (.text m)

def isValidId (id : Bytes) : Bool :=
  id ≠ [] && id.length ≤ 64 && id.all fun c =>
    isLower c || isDigit c || c == byte '_' || c == byte '-'

def readSource (r : Value) : Source :=
  match r.get "source" with
  | some (.object o) =>
    let s := Value.object o
    let teams := match s.get "teams" with
      | some (.object t) => (str (.object t) "T", str (.object t) "CT")
      | _ => ([], [])
    { event := str s "event", matchName := str s "match", teamT := teams.1, teamCT := teams.2
      url := str s "url", demo := str s "demo", note := str s "note" }
  | _ => {}

def readHead (r : Value) : Except Refusal Scenario := do
  require r.isObject (ascii "not a JSON object")
  require (str r "format" = ascii "readyup.scenario") (ascii "format is not \"readyup.scenario\"")
  require (int r "version" (-1) = 1)
    (ascii "version " ++ toDecimal (int r "version" (-1)) ++ ascii " (this build reads 1)")
  require (isValidId (str r "id")) (ascii "id must be 1-64 chars of [a-z0-9_-]")
  require (str r "map" ≠ []) (ascii "map missing")
  let tickrate := int r "tickrate" 0
  require (16 ≤ tickrate && tickrate ≤ 256) (ascii "tickrate must be 16..256")
  let sampleTicks := int r "sample_ticks" 0
  require (1 ≤ sampleTicks && sampleTicks ≤ 64) (ascii "sample_ticks must be 1..64")
  let length := int r "length" 0
  require (0 < length) (ascii "length must be > 0")
  return {
    id := str r "id", title := str r "title", map := str r "map", tickrate, sampleTicks
    round := int r "round" 0, freezeEndTick := int r "freeze_end_tick" 0, length
    defaultStart := clamp (int r "default_start" 0) 0 (length - 1)
    winner := str r "winner", reason := str r "reason", source := readSource r }

def readState (sv : Value) : State where
  t := int sv "t" (-1)
  hp := clamp (int sv "hp" 100) 1 100
  armor := clamp (int sv "armor" 0) 0 100
  helmet := bool sv "helmet"
  defuser := bool sv "defuser"
  money := clamp (int sv "money" 0) 0 1000000
  items := ((arr sv "items").getD []).filterMap fun it => it.asString.bind fun s =>
    if (ascii "weapon_").isPrefixOf s && s.length < 48 then some s else none

/-- The states of a player, after one at the tick `last`. -/
def readStates (who : Bytes) (last : Option ℤ) : List Value → Except Refusal (List State)
  | [] => .ok []
  | sv :: rest => do
    require sv.isObject (who ++ ascii "state entry not an object")
    let s := readState sv
    require (0 ≤ s.t && !last.any (s.t < ·)) (who ++ ascii "state t must ascend")
    let more ← readStates who (some s.t) rest
    return s :: more

def readTrackValue (who : Bytes) (v : Value) : Except Refusal ℚ :=
  match coordinate v with
  | some q => .ok q
  | none => refuse (who ++ ascii "track value out of range")

def readPlayer (pv : Value) (i : ℕ) : Except Refusal Player := do
  let who := ascii "player " ++ decimal (i + 1) ++ ascii ": "
  require pv.isObject (who ++ ascii "not an object")
  let team := str pv "team"
  let side := if team = ascii "T" then 2 else if team = ascii "CT" then 3 else 0
  require (side ≠ 0) (who ++ ascii "team must be T or CT")
  let samples := (arr pv "track").getD []
  require (5 ≤ samples.length && samples.length % 5 = 0)
    (who ++ ascii "track must be groups of 5 numbers")
  let track ← collect (readTrackValue who) samples
  let entries := (arr pv "state").getD []
  require (entries ≠ []) (who ++ ascii "state missing")
  let states ← readStates who none entries
  require (states.head?.any (·.t = 0)) (who ++ ascii "state must start at t=0")
  return {
    name := str pv "name", steamid := str pv "steamid", team := side, aliveUntil :=
      int pv "alive_until" (-1)
    track, states }

def readPlayers (r : Value) : Except Refusal (List Player) := do
  let players := (arr r "players").getD []
  require (players ≠ [] && players.length ≤ 10) (ascii "players: 1..10 entries")
  collect (fun pv => readPlayer pv.1 pv.2) players.zipIdx

def readGrenade (np : ℕ) (gv : Value) : Except Refusal Grenade :=
  let t := int gv "t" (-1)
  let player := int gv "player" (-1)
  match parseType (str gv "type") with
  | none => refuse (ascii "grenade type \"" ++ str gv "type" ++ ascii "\"")
  | some type =>
    if player < 0 ∨ np ≤ player then refuse (ascii "grenade player index out of range")
    else match vec gv "pos", vec gv "vel", vec gv "land" with
      | some pos, some vel, some land =>
        if t < 0 then refuse (ascii "grenade t < 0")
        else .ok { t, player, type, pos, vel, land, landT := int gv "land_t" t }
      | _, _, _ => refuse (ascii "grenade pos / vel / land need 3 numbers")

/-- A player who is not in the scenario counts as none. -/
def knownPlayer (np : ℕ) (i : ℤ) : ℤ := if np ≤ i then -1 else i

def readDeath (np : ℕ) (dv : Value) : Except Refusal Death :=
  let t := int dv "t" (-1)
  let player := int dv "player" (-1)
  if player < 0 ∨ np ≤ player ∨ t < 0 then refuse (ascii "death player index / t out of range")
  else .ok { t, player, killer := knownPlayer np (int dv "killer" (-1)), weapon := str dv "weapon" }

/-- An event without a tick or a name is passed over. -/
def readBombEvent (np : ℕ) (bv : Value) : Option BombEvent :=
  let t := int bv "t" (-1)
  let event := str bv "event"
  if t < 0 ∨ event = [] then none
  else some { t, event, player := knownPlayer np (int bv "player" (-1)), pos := vec bv "pos" }

def readScenario (r : Value) : Except Refusal Scenario := do
  let head ← readHead r
  let players ← readPlayers r
  let np := players.length
  let grenades ← collect (readGrenade np) ((arr r "grenades").getD [])
  let deaths ← collect (readDeath np) ((arr r "deaths").getD [])
  let bomb := ((arr r "bomb").getD []).filterMap (readBombEvent np)
  return { head with
    players, grenades := sortBy (·.t) grenades, deaths := sortBy (·.t) deaths, bomb :=
      sortBy (·.t) bomb }

def parse (json : Bytes) : Except Refusal Scenario :=
  match Config.Minijson.parse json with
  | none => .error .notJson
  | some r => readScenario r

end Parse

section Accepted

/-- What the replay relies on of the events. -/
structure Sound (sc : Scenario) : Prop where
  grenades : ∀ g ∈ sc.grenades, 0 ≤ g.t ∧ 0 ≤ g.player ∧ g.player < sc.players.length
  deaths : ∀ d ∈ sc.deaths, 0 ≤ d.t ∧ 0 ≤ d.player ∧ d.player < sc.players.length ∧
    d.killer < sc.players.length
  bomb : ∀ b ∈ sc.bomb, 0 ≤ b.t ∧ b.event ≠ [] ∧ b.player < sc.players.length
  inOrder : InOrder (·.t) sc.grenades ∧ InOrder (·.t) sc.deaths ∧ InOrder (·.t) sc.bomb

variable {np : ℕ} {v : Value}

theorem knownPlayer_lt (np : ℕ) (i : ℤ) : knownPlayer np i < np := by
  unfold knownPlayer
  split_ifs with h
  · omega
  · exact not_le.mp h

theorem readGrenade_spec {g : Grenade} (h : readGrenade np v = .ok g) :
    0 ≤ g.t ∧ 0 ≤ g.player ∧ g.player < np := by
  unfold readGrenade at h
  simp only [refuse] at h
  split at h
  · cases h
  · by_cases hplayer : int v "player" (-1) < 0 ∨ np ≤ int v "player" (-1)
    · rw [if_pos hplayer] at h
      cases h
    · rw [if_neg hplayer] at h
      rw [not_or, not_lt, not_le] at hplayer
      split at h
      · by_cases ht : int v "t" (-1) < 0
        · rw [if_pos ht] at h
          cases h
        · rw [if_neg ht] at h
          cases h
          exact ⟨not_lt.mp ht, hplayer⟩
      · cases h

theorem readDeath_spec {d : Death} (h : readDeath np v = .ok d) :
    0 ≤ d.t ∧ 0 ≤ d.player ∧ d.player < np ∧ d.killer < np := by
  unfold readDeath at h
  simp only [refuse] at h
  split_ifs at h with hrange
  cases h
  rw [not_or, not_or, not_lt, not_le, not_lt] at hrange
  exact ⟨hrange.2.2, hrange.1, hrange.2.1, knownPlayer_lt _ _⟩

theorem readBombEvent_spec {b : BombEvent} (h : readBombEvent np v = some b) :
    0 ≤ b.t ∧ b.event ≠ [] ∧ b.player < np := by
  unfold readBombEvent at h
  simp only at h
  split_ifs at h with hskip
  cases h
  rw [not_or, not_lt] at hskip
  exact ⟨hskip.1, hskip.2, knownPlayer_lt _ _⟩

theorem sound_readScenario {sc : Scenario} (h : readScenario v = .ok sc) : Sound sc := by
  unfold readScenario at h
  obtain ⟨head, -, h⟩ := bind_eq_ok.mp h
  obtain ⟨players, -, h⟩ := bind_eq_ok.mp h
  obtain ⟨grenades, hgrenades, h⟩ := bind_eq_ok.mp h
  obtain ⟨deaths, hdeaths, h⟩ := bind_eq_ok.mp h
  cases h
  constructor
  · intro g hg
    obtain ⟨gv, -, hread⟩ := exists_of_mem_collect hgrenades (mem_sortBy.mp hg)
    exact readGrenade_spec hread
  · intro d hd
    obtain ⟨dv, -, hread⟩ := exists_of_mem_collect hdeaths (mem_sortBy.mp hd)
    exact readDeath_spec hread
  · intro b hb
    obtain ⟨bv, -, hread⟩ := List.mem_filterMap.mp (mem_sortBy.mp hb)
    exact readBombEvent_spec hread
  · exact ⟨inOrder_sortBy _ _, inOrder_sortBy _ _, inOrder_sortBy _ _⟩

theorem sound_parse {json : Bytes} {sc : Scenario} (h : parse json = .ok sc) : Sound sc := by
  unfold parse at h
  split at h
  · cases h
  · exact sound_readScenario h

end Accepted

end ReadyUp.Practice
