import ReadyUp.Support.Table

/-!
# The loaded match

The parts of `WebhookMatchContext` that the match flow reads: the length of a map and how
ties are broken, the maps of the series with the sides they start on, and the roster.
-/
namespace ReadyUp.Match

open ReadyUp.Support

/-- `WebhookTeam`. -/
inductive Team where
  | unknown
  | team1
  | team2
  deriving DecidableEq, Repr

/-- The number of a team in the enumeration. -/
def Team.toInt : Team → ℤ
  | .unknown => 0
  | .team1 => 1
  | .team2 => 2

/-- The team with that number; another number is none of the teams. -/
def Team.ofInt (n : ℤ) : Team :=
  if n = 1 then .team1 else if n = 2 then .team2 else .unknown

@[simp] theorem Team.ofInt_toInt (t : Team) : Team.ofInt t.toInt = t := by cases t <;> rfl

inductive Slot where
  | team1
  | team2
  deriving DecidableEq, Repr

/-- `WebhookMatchContext`. The parsers bound the round counts, so that no sum or product
of the match flow leaves the range of `int`. -/
structure MatchContext where
  matchid : ℕ := 0
  numMaps : ℤ := 0
  maxRounds : ℤ := 24
  overtimeEnabled : Bool := false
  overtimeSegments : ℤ := 3
  maxOvertimes : ℤ := -1
  damageTiebreakEnabled : Bool := false
  suddenDeathOnDamageTie : Bool := true
  mapSides : List String := []
  clinchSeries : Bool := true
  maplist : List String := []
  rosterTeam : Table ℕ Team := ∅
  playout : ℤ := -1

/-- `match_settings::PlayoutOn`; `byDefault` is the server's `playout_enabled_default`. -/
def playoutOn (ctx : MatchContext) (byDefault : Bool) : Bool :=
  if 0 ≤ ctx.playout then decide (ctx.playout ≠ 0) else byDefault

/-- `ctx.map_sides[map_number - 1]`, when the context lists a side for that map. -/
def mapSide (ctx : MatchContext) (mapNumber : ℤ) : Option String :=
  if 1 ≤ mapNumber then ctx.mapSides[(mapNumber - 1).toNat]? else none

end ReadyUp.Match
