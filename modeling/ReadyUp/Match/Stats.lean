import Mathlib.Data.Finset.Basic
import Mathlib.Data.List.Sort
import Mathlib.Data.Rat.Defs
import ReadyUp.Support.Decimal
import ReadyUp.Support.Table

/-!
# The match statistics model

The accumulator of `match_stats.cpp`: per-player totals of the map, the round in
progress, and one summary for each closed round. Sides are CS team numbers
(2 = T, 3 = CT), team slots are 1 and 2, and 0 stands for unknown in both.

`rewindTo` takes rounds back out of a snapshot. It sees the closed rounds only, so it
undoes what a round's own records carry and nothing else.
-/
namespace ReadyUp.Stats

open ReadyUp.Support

structure PlayerStats where
  kills : ℤ := 0
  deaths : ℤ := 0
  assists : ℤ := 0
  flashAssists : ℤ := 0
  teamKills : ℤ := 0
  suicides : ℤ := 0
  headshotKills : ℤ := 0
  knifeKills : ℤ := 0
  damage : ℤ := 0
  utilityDamage : ℤ := 0
  enemiesFlashed : ℤ := 0
  friendliesFlashed : ℤ := 0
  bombPlants : ℤ := 0
  bombDefuses : ℤ := 0
  entryKillsT : ℤ := 0
  entryKillsCt : ℤ := 0
  entryDeathsT : ℤ := 0
  entryDeathsCt : ℤ := 0
  tradeKills : ℤ := 0
  tradedDeaths : ℤ := 0
  kastRounds : ℤ := 0
  roundsPlayed : ℤ := 0
  mvp : ℤ := 0
  score : ℤ := 0
  multiKills : Vector ℤ 5 := Vector.replicate 5 0
  clutchesWon : Vector ℤ 5 := Vector.replicate 5 0
  deriving DecidableEq, Repr

instance : Inhabited PlayerStats := ⟨{}⟩

/-- One player's part in one round. Economy fields hold -1 when they were not read. -/
structure PlayerRound where
  id : ℕ := 0
  team : ℤ := 0
  side : ℤ := 0
  kills : ℤ := 0
  assists : ℤ := 0
  flashAssists : ℤ := 0
  damage : ℤ := 0
  utilityDamage : ℤ := 0
  headshotKills : ℤ := 0
  died : Bool := false
  survived : Bool := false
  traded : Bool := false
  kast : Bool := false
  entryKill : Bool := false
  entryDeath : Bool := false
  mvp : Bool := false
  clutchVs : ℤ := 0
  clutchWon : Bool := false
  moneyStart : ℤ := -1
  moneyAfterBuy : ℤ := -1
  armor : ℤ := -1
  helmet : Bool := false
  defuser : Bool := false
  loadout : List Bytes := []
  deriving DecidableEq, Repr

instance : Inhabited PlayerRound := ⟨{}⟩

structure RoundSummary where
  roundNumber : ℤ := 0
  winnerSide : ℤ := 0
  winnerTeam : ℤ := 0
  reason : ℤ := 0
  team1Score : ℤ := 0
  team2Score : ℤ := 0
  team1WasCt : Bool := true
  players : List PlayerRound := []
  deriving DecidableEq, Repr

structure PlayerLine where
  id : ℕ := 0
  name : Bytes := []
  team : ℤ := 0
  lastSide : ℤ := 0
  bot : Bool := false
  stats : PlayerStats := {}
  deriving DecidableEq, Repr

structure TeamLine where
  score : ℤ := 0
  scoreCt : ℤ := 0
  scoreT : ℤ := 0
  deriving DecidableEq, Repr

def TeamLine.credit (t : TeamLine) (ct : Bool) : TeamLine :=
  { score := t.score + 1
    scoreCt := if ct then t.scoreCt + 1 else t.scoreCt
    scoreT := if ct then t.scoreT else t.scoreT + 1 }

/-- Snapshot of one map: players by team and id, rounds in play order. -/
structure MapStats where
  live : Bool := false
  team1IsCt : Bool := true
  team1 : TeamLine := {}
  team2 : TeamLine := {}
  players : List PlayerLine := []
  rounds : List RoundSummary := []
  deriving DecidableEq, Repr

structure Player where
  name : Bytes := []
  team : ℤ := 0
  lastSide : ℤ := 0
  bot : Bool := false
  s : PlayerStats := {}
  deriving DecidableEq, Repr

instance : Inhabited Player := ⟨{}⟩

/-- The round in progress. `deathBy` holds killer and time, `clutch` the last player
of a side and the number of enemies left against him. -/
structure Round where
  side : Table ℕ ℤ := ∅
  dead : Finset ℕ := ∅
  pr : Table ℕ PlayerRound := ∅
  health : Table ℕ ℤ := ∅
  deathBy : Table ℕ (ℕ × ℚ) := ∅
  entryDone : Bool := false
  clutch : Table ℤ (ℕ × ℤ) := ∅

structure StatsAccumulator where
  live : Bool := false
  team1IsCt : Bool := true
  players : Table ℕ Player := ∅
  round : Round := {}
  t1 : TeamLine := {}
  t2 : TeamLine := {}
  rounds : List RoundSummary := []

def kTradeWindowSeconds : ℚ := 5

def isUtilityWeapon (w : String) : Bool :=
  w == "hegrenade" || w == "inferno" || w == "molotov" || w == "incgrenade" ||
    w == "weapon_hegrenade" || w == "weapon_molotov" || w == "weapon_incgrenade"

def isKnifeWeapon (w : String) : Bool :=
  decide ("knife".toList <:+: w.toList) || decide ("bayonet".toList <:+: w.toList)

/-- T or CT, as opposed to spectators and players without a team. -/
abbrev IsSide (side : ℤ) : Prop := side = 2 ∨ side = 3

/-- `arr[n] = f(arr[n])` on a counter array; the callers keep `n` in range. -/
def updateAt (arr : Vector ℤ 5) (n : ℤ) (f : ℤ → ℤ) : Vector ℤ 5 :=
  Vector.ofFn fun i => if (i : ℤ) = n then f arr[i] else arr[i]

namespace StatsAccumulator

/-- `team1IsCt_` is the only member that stays. -/
def clear (a : StatsAccumulator) : StatsAccumulator := { team1IsCt := a.team1IsCt }

def beginMap (a : StatsAccumulator) (team1IsCt : Bool) : StatsAccumulator :=
  { a.clear with team1IsCt := team1IsCt, live := true }

def endMap (a : StatsAccumulator) : StatsAccumulator := { a with live := false }

def setTeam1IsCt (a : StatsAccumulator) (team1IsCt : Bool) : StatsAccumulator :=
  { a with team1IsCt := team1IsCt }

def slotForSide (a : StatsAccumulator) (side : ℤ) : ℤ :=
  if side = 3 then if a.team1IsCt then 1 else 2
  else if side = 2 then if a.team1IsCt then 2 else 1
  else 0

/-- The side in this round, else the last one seen; 0 for a stranger. -/
def sideOf (a : StatsAccumulator) (id : ℕ) : ℤ :=
  match a.round.side.lookup id with
  | some side => side
  | none => (a.players.read id).lastSide

/-- Writes through `P(id).s`. -/
def modP (a : StatsAccumulator) (id : ℕ) (f : PlayerStats → PlayerStats) : StatsAccumulator :=
  { a with players := a.players.modify id fun p => { p with s := f p.s } }

/-- Writes through `R(id)`, which also stamps the record with its id. -/
def modR (a : StatsAccumulator) (id : ℕ) (f : PlayerRound → PlayerRound) : StatsAccumulator :=
  { a with round := { a.round with pr := a.round.pr.modify id fun r => f { r with id := id } } }

/-- The player entry after `ObservePlayer`: a known name, bot flag or team stays unless a
new one is given, and a missing team follows from the side. -/
def observed (a : StatsAccumulator) (id : ℕ) (name : Bytes) (side teamSlot : ℤ) (bot : Bool) :
    Player :=
  let p := a.players.read id
  let lastSide := if IsSide side then side else p.lastSide
  { p with
    name := if name = [] then p.name else name
    bot := bot || p.bot
    lastSide := lastSide
    team :=
      if teamSlot = 1 ∨ teamSlot = 2 then teamSlot
      else if p.team = 0 then a.slotForSide lastSide
      else p.team }

def observePlayer (a : StatsAccumulator) (id : ℕ) (name : Bytes) (side teamSlot : ℤ)
    (bot : Bool) : StatsAccumulator :=
  if id = 0 then a
  else
    let p := a.observed id name side teamSlot bot
    let a := { a with players := a.players.insert id p }
    if a.live ∧ IsSide side then
      { a with round := { a.round with side := a.round.side.insert id side } }.modR id
        fun r => { r with side := side, team := p.team }
    else a

def onRoundStart (a : StatsAccumulator) : StatsAccumulator := { a with round := {} }

/-- A death of `mate` by the hand of the present victim, within the trade window, is
traded by the attacker. The flag says whether the loop has found one. -/
def tradeStep (victim attacker : ℕ) (attackerSide : ℤ) (time : ℚ)
    (st : StatsAccumulator × Bool) (kv : Sigma fun _ : ℕ => ℕ × ℚ) : StatsAccumulator × Bool :=
  let mate := kv.1
  if kv.2.1 ≠ victim ∨ mate = attacker then st
  else if time - kv.2.2 > kTradeWindowSeconds then st
  else if st.1.sideOf mate ≠ attackerSide then st
  else
    let traded := (st.1.round.pr.read mate).traded
    let a := st.1.modR mate fun r => if traded then r else { r with traded := true, kast := true }
    (if traded then a else a.modP mate fun s => { s with tradedDeaths := s.tradedDeaths + 1 }, true)

/-- The first kill of the round, split by the sides the two players are on. -/
def creditEntry (a : StatsAccumulator) (victim attacker : ℕ) (victimSide attackerSide : ℤ) :
    StatsAccumulator :=
  if a.round.entryDone then a
  else
    let a := { a with round := { a.round with entryDone := true } }
    let a := a.modR attacker fun r => { r with entryKill := true }
    let a := a.modR victim fun r => { r with entryDeath := true }
    let a := a.modP attacker fun s =>
      if attackerSide = 2 then { s with entryKillsT := s.entryKillsT + 1 }
      else if attackerSide = 3 then { s with entryKillsCt := s.entryKillsCt + 1 }
      else s
    a.modP victim fun s =>
      if victimSide = 2 then { s with entryDeathsT := s.entryDeathsT + 1 }
      else if victimSide = 3 then { s with entryDeathsCt := s.entryDeathsCt + 1 }
      else s

/-- The branch of `OnPlayerDeath` for a kill that is neither a suicide nor a team kill. -/
def creditKill (a : StatsAccumulator) (victim attacker : ℕ) (victimSide attackerSide : ℤ)
    (headshot : Bool) (weapon : String) (time : ℚ) : StatsAccumulator :=
  let a := a.modP attacker fun s =>
    { s with
      kills := s.kills + 1
      headshotKills := if headshot then s.headshotKills + 1 else s.headshotKills
      knifeKills := if isKnifeWeapon weapon then s.knifeKills + 1 else s.knifeKills }
  let a := a.modR attacker fun r =>
    { r with
      kills := r.kills + 1
      kast := true
      headshotKills := if headshot then r.headshotKills + 1 else r.headshotKills }
  let a := a.creditEntry victim attacker victimSide attackerSide
  let st := a.round.deathBy.entries.foldl (tradeStep victim attacker attackerSide time) (a, false)
  if st.2 then st.1.modP attacker fun s => { s with tradeKills := s.tradeKills + 1 } else st.1

def creditAssist (a : StatsAccumulator) (victim attacker assister : ℕ) (victimSide : ℤ)
    (assistedFlash : Bool) : StatsAccumulator :=
  if assister ≠ 0 ∧ assister ≠ attacker ∧ assister ≠ victim then
    let assisterSide := a.sideOf assister
    if assisterSide = 0 ∨ assisterSide ≠ victimSide then
      let a := a.modP assister fun s =>
        if assistedFlash then { s with flashAssists := s.flashAssists + 1 }
        else { s with assists := s.assists + 1 }
      a.modR assister fun r =>
        if assistedFlash then { r with flashAssists := r.flashAssists + 1, kast := true }
        else { r with assists := r.assists + 1, kast := true }
    else a
  else a

/-- The victim's side is down to its last player. -/
def noteClutch (a : StatsAccumulator) (victimSide : ℤ) : StatsAccumulator :=
  if IsSide victimSide ∧ a.round.clutch.lookup victimSide = none then
    let standing := a.round.side.entries.filter fun kv => kv.1 ∉ a.round.dead
    let enemies : ℤ :=
      (standing.filter fun kv => kv.2 ≠ victimSide ∧ IsSide kv.2).length
    match standing.filter fun kv => kv.2 = victimSide with
    | [last] =>
      if 1 ≤ enemies then
        { a with round := { a.round with
            clutch := a.round.clutch.insert victimSide (last.1, min enemies 5) } }.modR last.1
          fun r => { r with clutchVs := min enemies 5 }
      else a
    | _ => a
  else a

/-- The victim takes part in the round, dies in it, and the death counts whoever caused it. -/
def noteDeath (a : StatsAccumulator) (victim : ℕ) (victimSide : ℤ) : StatsAccumulator :=
  let side :=
    if IsSide victimSide ∧ victim ∉ a.round.side then a.round.side.insert victim victimSide
    else a.round.side
  let a := { a with round := { a.round with side := side } }
  let a := a.modP victim fun s => { s with deaths := s.deaths + 1 }
  let a := { a with round := { a.round with dead := insert victim a.round.dead } }
  a.modR victim fun r => { r with died := true }

def onPlayerDeath (a : StatsAccumulator) (victim attacker assister : ℕ)
    (assistedFlash headshot : Bool) (weapon : String) (time : ℚ) : StatsAccumulator :=
  if !a.live || victim == 0 then a
  else
    let victimSide := a.sideOf victim
    let a := a.noteDeath victim victimSide
    let suicide := attacker = 0 ∨ attacker = victim
    let attackerSide := if suicide then 0 else a.sideOf attacker
    let teamKill := ¬suicide ∧ attackerSide ≠ 0 ∧ attackerSide = victimSide
    let a :=
      if suicide then a.modP victim fun s => { s with suicides := s.suicides + 1 }
      else if teamKill then a.modP attacker fun s => { s with teamKills := s.teamKills + 1 }
      else a.creditKill victim attacker victimSide attackerSide headshot weapon time
    let a :=
      if suicide then a
      else { a with round := { a.round with
        deathBy := a.round.deathBy.insert victim (attacker, time) } }
    let a := a.creditAssist victim attacker assister victimSide assistedFlash
    a.noteClutch victimSide

def onPlayerHurt (a : StatsAccumulator) (victim attacker : ℕ) (dmgHealth healthAfter : ℤ)
    (weapon : String) : StatsAccumulator :=
  if !a.live || victim == 0 then a
  else
    let before := max 0 ((a.round.health.lookup victim).getD 100)
    let after := max 0 (min healthAfter before)
    let actual := if dmgHealth > 0 then before - after else 0
    let a := { a with round := { a.round with health := a.round.health.insert victim after } }
    if attacker = 0 ∨ attacker = victim then a
    else if a.sideOf attacker ≠ 0 ∧ a.sideOf attacker = a.sideOf victim then a
    else
      let a := a.modP attacker fun s =>
        { s with
          damage := s.damage + actual
          utilityDamage := if isUtilityWeapon weapon then s.utilityDamage + actual
            else s.utilityDamage }
      a.modR attacker fun r =>
        { r with
          damage := r.damage + actual
          utilityDamage := if isUtilityWeapon weapon then r.utilityDamage + actual
            else r.utilityDamage }

def onPlayerBlind (a : StatsAccumulator) (victim attacker : ℕ) (duration : ℚ) :
    StatsAccumulator :=
  if !a.live || victim == 0 || attacker == 0 || attacker == victim || decide (duration ≤ 0) then a
  else
    let side := a.sideOf attacker
    let friendly := side ≠ 0 ∧ side = a.sideOf victim
    a.modP attacker fun s =>
      if friendly then { s with friendliesFlashed := s.friendliesFlashed + 1 }
      else { s with enemiesFlashed := s.enemiesFlashed + 1 }

def onBombPlanted (a : StatsAccumulator) (id : ℕ) : StatsAccumulator :=
  if a.live ∧ id ≠ 0 then a.modP id fun s => { s with bombPlants := s.bombPlants + 1 } else a

def onBombDefused (a : StatsAccumulator) (id : ℕ) : StatsAccumulator :=
  if a.live ∧ id ≠ 0 then a.modP id fun s => { s with bombDefuses := s.bombDefuses + 1 } else a

def onRoundMvp (a : StatsAccumulator) (id : ℕ) : StatsAccumulator :=
  if !a.live || id == 0 then a
  else
    (a.modP id fun s => { s with mvp := s.mvp + 1 }).modR id fun r => { r with mvp := true }

def setScore (a : StatsAccumulator) (id : ℕ) (score : ℤ) : StatsAccumulator :=
  if id ≠ 0 ∧ 0 ≤ score then a.modP id fun s => { s with score := score } else a

def setMoneyStart (a : StatsAccumulator) (id : ℕ) (money : ℤ) : StatsAccumulator :=
  if !a.live || id == 0 then a else a.modR id fun r => { r with moneyStart := money }

def setLoadout (a : StatsAccumulator) (id : ℕ) (moneyAfterBuy armor : ℤ) (helmet defuser : Bool)
    (loadout : List Bytes) : StatsAccumulator :=
  if !a.live || id == 0 then a
  else a.modR id fun r =>
    { r with
      moneyAfterBuy := moneyAfterBuy
      armor := armor
      helmet := helmet
      defuser := defuser
      loadout := loadout }

/-- First loop of `OnRoundEnd`: everyone who was on a side played the round. -/
def closeParticipant (a : StatsAccumulator) (kv : Sigma fun _ : ℕ => ℤ) : StatsAccumulator :=
  let survived := decide (kv.1 ∉ a.round.dead)
  let team := (a.players.read kv.1).team
  let a := a.modR kv.1 fun r =>
    { r with
      side := kv.2
      team := if r.team = 0 then team else r.team
      survived := survived
      kast := r.kast || survived }
  let kast := (a.round.pr.read kv.1).kast
  a.modP kv.1 fun s =>
    { s with
      roundsPlayed := s.roundsPlayed + 1
      kastRounds := if kast then s.kastRounds + 1 else s.kastRounds }

/-- Second loop of `OnRoundEnd`: every record is closed and moved to the summary. -/
def closeRecord (winnerSide : ℤ) (st : StatsAccumulator × List PlayerRound)
    (kv : Sigma fun _ : ℕ => PlayerRound) : StatsAccumulator × List PlayerRound :=
  let r := kv.2
  let won := 0 < r.clutchVs ∧
    (st.1.round.clutch.lookup winnerSide).map Prod.fst = some kv.1
  let a := st.1.modP kv.1 fun s =>
    { s with
      multiKills := if 0 < r.kills then updateAt s.multiKills (min r.kills 5 - 1) (· + 1)
        else s.multiKills
      clutchesWon := if won then updateAt s.clutchesWon (r.clutchVs - 1) (· + 1)
        else s.clutchesWon }
  let r := { r with
    clutchWon := r.clutchWon || decide won
    team := if r.team = 0 then (a.players.read kv.1).team else r.team }
  (a, st.2 ++ [r])

/-- The order of `std::sort` on records and lines: team first, then id. -/
abbrev ByTeamThenId (team₁ : ℤ) (id₁ : ℕ) (team₂ : ℤ) (id₂ : ℕ) : Prop :=
  if team₁ ≠ team₂ then team₁ < team₂ else id₁ ≤ id₂

/-- The winner's team line takes the round. -/
def creditRound (a : StatsAccumulator) (winnerSide : ℤ) : StatsAccumulator :=
  let slot := a.slotForSide winnerSide
  { a with
    t1 := if slot = 1 then a.t1.credit (winnerSide = 3) else a.t1
    t2 := if slot = 2 then a.t2.credit (winnerSide = 3) else a.t2 }

/-- Both loops of `OnRoundEnd`, with the records they leave. -/
def closeRound (a : StatsAccumulator) (winnerSide : ℤ) : StatsAccumulator × List PlayerRound :=
  let b := a.round.side.entries.foldl closeParticipant a
  b.round.pr.entries.foldl (closeRecord winnerSide) (b, [])

/-- The summary that `OnRoundEnd` appends: the score is the one after the round, the
records are the closed ones. -/
def summary (a : StatsAccumulator) (winnerSide reason : ℤ) : RoundSummary :=
  { roundNumber := a.rounds.length + 1
    winnerSide := if IsSide winnerSide then winnerSide else 0
    winnerTeam := a.slotForSide winnerSide
    reason := reason
    team1Score := (a.creditRound winnerSide).t1.score
    team2Score := (a.creditRound winnerSide).t2.score
    team1WasCt := a.team1IsCt
    players := ((a.creditRound winnerSide).closeRound winnerSide).2.insertionSort
      fun x y => ByTeamThenId x.team x.id y.team y.id }

def onRoundEnd (a : StatsAccumulator) (winnerSide reason : ℤ) : StatsAccumulator :=
  if !a.live then a
  else
    { ((a.creditRound winnerSide).closeRound winnerSide).1 with
      rounds := a.rounds ++ [a.summary winnerSide reason]
      round := {} }

def snapshot (a : StatsAccumulator) : MapStats :=
  { live := a.live
    team1IsCt := a.team1IsCt
    team1 := a.t1
    team2 := a.t2
    players := (a.players.entries.map fun kv =>
      ({ id := kv.1
         name := kv.2.name
         team := kv.2.team
         lastSide := kv.2.lastSide
         bot := kv.2.bot
         stats := kv.2.s } : PlayerLine)).insertionSort
      fun x y => ByTeamThenId x.team x.id y.team y.id
    rounds := a.rounds }

def restoreLine (players : Table ℕ Player) (l : PlayerLine) : Table ℕ Player :=
  players.insert l.id
    { name := l.name, team := l.team, lastSide := l.lastSide, bot := l.bot, s := l.stats }

/-- Continues a map from a snapshot; the round in progress starts over empty. -/
def restore (m : MapStats) : StatsAccumulator :=
  { live := m.live
    team1IsCt := m.team1IsCt
    players := m.players.foldl restoreLine ∅
    t1 := m.team1
    t2 := m.team2
    rounds := m.rounds }

end StatsAccumulator

def dec (v d : ℤ) : ℤ := if v - d < 0 then 0 else v - d

/-- What one record of a dropped round takes back from the player's totals. -/
def PlayerStats.takeBack (s : PlayerStats) (pr : PlayerRound) : PlayerStats :=
  { s with
    kills := dec s.kills pr.kills
    assists := dec s.assists pr.assists
    flashAssists := dec s.flashAssists pr.flashAssists
    damage := dec s.damage pr.damage
    utilityDamage := dec s.utilityDamage pr.utilityDamage
    headshotKills := dec s.headshotKills pr.headshotKills
    deaths := if pr.died then dec s.deaths 1 else s.deaths
    kastRounds := if pr.kast then dec s.kastRounds 1 else s.kastRounds
    roundsPlayed := dec s.roundsPlayed 1
    mvp := if pr.mvp then dec s.mvp 1 else s.mvp
    entryKillsT := if pr.entryKill ∧ pr.side = 2 then dec s.entryKillsT 1 else s.entryKillsT
    entryKillsCt := if pr.entryKill ∧ pr.side ≠ 2 then dec s.entryKillsCt 1 else s.entryKillsCt
    entryDeathsT := if pr.entryDeath ∧ pr.side = 2 then dec s.entryDeathsT 1 else s.entryDeathsT
    entryDeathsCt := if pr.entryDeath ∧ pr.side ≠ 2 then dec s.entryDeathsCt 1
      else s.entryDeathsCt
    tradedDeaths := if pr.traded then dec s.tradedDeaths 1 else s.tradedDeaths
    multiKills := if 0 < pr.kills then updateAt s.multiKills (min pr.kills 5 - 1) (dec · 1)
      else s.multiKills
    clutchesWon := if pr.clutchWon ∧ 1 ≤ pr.clutchVs ∧ pr.clutchVs ≤ 5 then
        updateAt s.clutchesWon (pr.clutchVs - 1) (dec · 1)
      else s.clutchesWon }

/-- `find_if` by id and a write to the line it finds. -/
def updateLine (id : ℕ) (f : PlayerStats → PlayerStats) : List PlayerLine → List PlayerLine
  | [] => []
  | l :: ls => if l.id = id then { l with stats := f l.stats } :: ls else l :: updateLine id f ls

def TeamLine.takeBack (t : TeamLine) (winnerCt : Bool) : TeamLine :=
  { score := dec t.score 1
    scoreCt := if winnerCt then dec t.scoreCt 1 else t.scoreCt
    scoreT := if winnerCt then t.scoreT else dec t.scoreT 1 }

/-- A dropped round's contribution to the team lines and the player totals. -/
def MapStats.takeBack (m : MapStats) (r : RoundSummary) : MapStats :=
  { m with
    team1 := if r.winnerTeam = 1 then m.team1.takeBack r.team1WasCt else m.team1
    team2 := if r.winnerTeam = 2 then m.team2.takeBack (!r.team1WasCt) else m.team2
    players := r.players.foldl (fun ls pr => updateLine pr.id (·.takeBack pr) ls) m.players }

/-- Loop variables of `RewindTo`. -/
structure Rewind where
  m : MapStats
  kept : List RoundSummary := []
  dropped : ℤ := 0
  sideSet : Bool := false

def rewindStep (fromRound : ℤ) (w : Rewind) (r : RoundSummary) : Rewind :=
  if r.roundNumber < fromRound then { w with kept := w.kept ++ [r] }
  else
    let m := if w.sideSet then w.m else { w.m with team1IsCt := r.team1WasCt }
    { w with m := m.takeBack r, dropped := w.dropped + 1, sideSet := true }

/-- Drops the rounds from `fromRound` on; the second value is how many they were. -/
def rewindTo (m : MapStats) (fromRound : ℤ) : MapStats × ℤ :=
  if fromRound < 1 then (m, 0)
  else
    let w := m.rounds.foldl (rewindStep fromRound) { m := m }
    ({ w.m with rounds := w.kept }, w.dropped)

/-- The calls that feed the model while a map is live. -/
inductive StatsOp where
  | onRoundStart
  | observePlayer (id : ℕ) (name : Bytes) (side teamSlot : ℤ) (bot : Bool)
  | onPlayerDeath (victim attacker assister : ℕ) (assistedFlash headshot : Bool)
      (weapon : String) (time : ℚ)
  | onPlayerHurt (victim attacker : ℕ) (dmgHealth healthAfter : ℤ) (weapon : String)
  | onPlayerBlind (victim attacker : ℕ) (duration : ℚ)
  | onBombPlanted (id : ℕ)
  | onBombDefused (id : ℕ)
  | onRoundMvp (id : ℕ)
  | setScore (id : ℕ) (score : ℤ)
  | setMoneyStart (id : ℕ) (money : ℤ)
  | setLoadout (id : ℕ) (moneyAfterBuy armor : ℤ) (helmet defuser : Bool) (loadout : List Bytes)
  | onRoundEnd (winnerSide reason : ℤ)
  deriving DecidableEq, Repr

def StatsAccumulator.step (a : StatsAccumulator) : StatsOp → StatsAccumulator
  | .onRoundStart => a.onRoundStart
  | .observePlayer id name side teamSlot bot => a.observePlayer id name side teamSlot bot
  | .onPlayerDeath victim attacker assister assistedFlash headshot weapon time =>
    a.onPlayerDeath victim attacker assister assistedFlash headshot weapon time
  | .onPlayerHurt victim attacker dmgHealth healthAfter weapon =>
    a.onPlayerHurt victim attacker dmgHealth healthAfter weapon
  | .onPlayerBlind victim attacker duration => a.onPlayerBlind victim attacker duration
  | .onBombPlanted id => a.onBombPlanted id
  | .onBombDefused id => a.onBombDefused id
  | .onRoundMvp id => a.onRoundMvp id
  | .setScore id score => a.setScore id score
  | .setMoneyStart id money => a.setMoneyStart id money
  | .setLoadout id moneyAfterBuy armor helmet defuser loadout =>
    a.setLoadout id moneyAfterBuy armor helmet defuser loadout
  | .onRoundEnd winnerSide reason => a.onRoundEnd winnerSide reason

end ReadyUp.Stats
