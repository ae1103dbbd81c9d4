import ReadyUp.Config.Minijson
import ReadyUp.Config.Ruleset
import ReadyUp.Match.Context

/-!
# The context of a match

`parseWebhookMatchContextFromJson` reads the text of a match configuration into the context that
the match flow plays by. It reads the text twice: with the small reader for the fields, and with
the reader of the status library for the ruleset and its overrides.
-/
namespace ReadyUp.Config

open Support Status Minijson
open Match (Team)

section SteamId

def steamBase : ℕ := 76561197960265728

/-- `Steam2ToSteam64` of `STEAM_X:Y:Z`. -/
def steam2ToSteam64 (s : Bytes) : ℕ :=
  match s.dropWhile (· ≠ byte ':') with
  | [] => 0
  | _ :: t =>
    match t.dropWhile (· ≠ byte ':') with
    | [] => 0
    | _ :: z => (steamBase + strtoull z * 2 + strtoull (t.takeWhile (· ≠ byte ':'))) % 2 ^ 64

/-- `Steam3ToSteam64` of `[U:1:ID]`, with or without the brackets. -/
def steam3ToSteam64 (s : Bytes) : ℕ :=
  let s :=
    if s.head? = some (byte '[') ∧ s.getLast? = some (byte ']') then (s.drop 1).dropLast else s
  if (ascii "U:1:").isPrefixOf s ∧ s.drop 4 ≠ [] then
    (steamBase + strtoull (s.drop 4)) % 2 ^ 64
  else 0

/-- `ParseSteamId64Loose`; 0 for anything else. -/
def parseSteamId64Loose (s : Bytes) : ℕ :=
  if s = [] then 0
  else if s.all isDigit then strtoull s
  else if (ascii "STEAM_").isPrefixOf s then steam2ToSteam64 s
  else if (ascii "[U:").isPrefixOf s ∨ (ascii "U:").isPrefixOf s then steam3ToSteam64 s
  else 0

end SteamId

structure WebhookMatchContext where
  matchid : ℕ := 0
  slug : Bytes := []
  numMaps : ℤ := 0
  team1Name : Bytes := []
  team2Name : Bytes := []
  team1Id : Bytes := []
  team2Id : Bytes := []
  team1CaptainSteamid64 : ℕ := 0
  team2CaptainSteamid64 : ℕ := 0
  knifeDecisionSeconds : ℤ := 60
  maxRounds : ℤ := 24
  overtimeEnabled : Bool := false
  overtimeSegments : ℤ := 3
  maxOvertimes : ℤ := -1
  damageTiebreakEnabled : Bool := false
  suddenDeathOnDamageTie : Bool := true
  mapSides : List Bytes := []
  clinchSeries : Bool := true
  maplist : List Bytes := []
  spectators : List ℕ := []
  admins : List ℕ := []
  cvars : List (Bytes × Bytes) := []
  rosterTeam : List (ℕ × Team) := []
  substitutes : List ℕ := []
  team1Flag : Bytes := []
  team2Flag : Bytes := []
  rules : MatchRules := {}
  ruleset : Bytes := []
  overridesJson : Bytes := []
  coaches : List ℕ := []
  coachTeam : List (ℕ × Team) := []
  coachesPerTeam : ℤ := 2
  playersPerTeam : ℤ := 0
  playout : ℤ := -1
  whitelist : ℤ := -1
  autoready : ℤ := -1
  rulesetNotes : List Bytes := []
  rosterNames : List (ℕ × Bytes) := []
  rosterNamesRule : ℤ := -1
  wingman : Bool := false
  demoRecord : ℤ := -1
  demoUpload : ℤ := -1
  botFill : Bool := false
  fullTeamDeadlineMs : ℤ := 0
  walkoverShort : Team := .unknown
  walkoverExpiresMs : ℤ := 0
  walkoverChoosers : List ℕ := []
  simulation : Bool := false
  simulationTimescale : Binary64 := Binary64.ofInt 1
  deriving DecidableEq

section Values

/-- A number below 10000 and at least `low`, as a number or as text. -/
def parseIntFrom (low : ℤ) (v : Option Value) : Option ℤ :=
  match v with
  | some (.number d) => some d.toInt64 |>.filter fun i => low ≤ i ∧ i < 10000
  | some (.string s) => (stoi s).filter fun i => low ≤ i ∧ i < 10000
  | _ => none

def parsePositiveInt (v : Option Value) : Option ℤ := parseIntFrom 1 v

def parseNonNegativeInt (v : Option Value) : Option ℤ := parseIntFrom 0 v

def parseBool : Option Value → Option Bool
  | some (.bool b) => some b
  | some (.number d) => some ((d.mag : ℕ) ≠ 0)
  | some (.string s) =>
    if [ascii "1", ascii "true", ascii "TRUE", ascii "yes", ascii "YES"].contains s then some true
    else if [ascii "0", ascii "false", ascii "FALSE", ascii "no", ascii "NO"].contains s then
      some false
    else none
  | _ => none

/-- A switch of the match: -1 if it is not set. -/
def ruleBool (v : Option Value) : ℤ :=
  match parseBool v with
  | none => -1
  | some b => if b then 1 else 0

/-- A number of the match: -1 if it is not set. -/
def ruleInt (v : Option Value) : ℤ := (parseNonNegativeInt v).getD (-1)

def withoutTrailing (c : UInt8) (s : Bytes) : Bytes := s.rdropWhile (· == c)

def fmtNum (x : Binary64) : Bytes :=
  if |x.toRat - x.round| < Binary64.magnitude (Binary64.nearest (1 / 10 ^ 9)) then
    toDecimal (Binary64.ofInt x.round).toInt64
  else
    let s := withoutTrailing (byte '0') x.toFixed
    let s := if s.getLast? = some (byte '.') then s.dropLast else s
    if s = [] then ascii "0" else s

/-- The text of a cvar; none if it is not taken over. -/
def cvarOf (key : Bytes) (v : Value) : Option Bytes :=
  if key = [] then none
  else
    match v with
    | .string s => if s = [] then none else some s
    | .number d => some (fmtNum d)
    | .bool b => some (if b then ascii "1" else ascii "0")
    | _ => none

/-- The texts of an array that are not empty. -/
def textsOf (v : Option Value) : List Bytes :=
  ((v.map Value.items).getD []).filterMap fun v => v.asString.filter (· ≠ [])

/-- `std::stod`; none where it throws. -/
def stod (s : Bytes) : Option Binary64 :=
  match floatPrefix s with
  | none => none
  | some (neg, .num q, _) => if rangeError q then none else some (Binary64.ofRat neg q)
  | some (neg, t, _) => some (t.value neg)

def clampTimescale (ts : Binary64) : Binary64 :=
  let low := Binary64.ofRat false (1 / 10)
  let high := Binary64.ofInt 4
  if ts.isFinite = false ∨ ts.toRat ≤ 0 then Binary64.ofInt 1
  else if ts.toRat < low.toRat then low
  else if high.toRat < ts.toRat then high
  else ts

def timescaleOf : Option Value → Option Binary64
  | some (.number d) => some (clampTimescale d)
  | some (.string s) => (stod s).map clampTimescale
  | _ => none

def teamOfText (s : Bytes) : Team :=
  if s = ascii "team1" then .team1 else if s = ascii "team2" then .team2 else .unknown

/-- `gg_threshold` as a percentage; -1 if it is not set. -/
def ggThresholdPct (v : Option Value) : ℤ :=
  let pct := match v with
    | some (.number d) => ggThresholdPctFromText d.toFixed
    | some (.string s) => ggThresholdPctFromText s
    | _ => -1
  if 0 < pct then pct else -1

/-- `static_cast<uint64_t>` of a `long long`. -/
def toUInt64 (i : ℤ) : ℕ := (i % 2 ^ 64).toNat

/-- `static_cast<int>` -/
def toInt32 (i : ℤ) : ℤ := Int.bmod i (2 ^ 32)

end Values

section Ids

/-- `insert` into a set of ids; 0 is no id. -/
def insertId (ids : List ℕ) (sid : ℕ) : List ℕ := if sid = 0 ∨ sid ∈ ids then ids else ids ++ [sid]

def insertIds (ids sids : List ℕ) : List ℕ := sids.foldl insertId ids

/-- The ids that are the keys of an object, with the texts that are their values. -/
def keyIds (v : Option Value) : List (ℕ × Bytes) :=
  ((v.map Value.members).getD []).filterMap fun kv =>
    let sid := parseSteamId64Loose kv.1
    if sid = 0 then none else some (sid, (kv.2.asString).getD [])

/-- The ids that are the texts of an array. -/
def itemIds (v : Option Value) : List ℕ :=
  ((v.map Value.items).getD []).filterMap fun v =>
    v.asString.bind fun s =>
      if parseSteamId64Loose s = 0 then none else some (parseSteamId64Loose s)

/-- An object of ids or an array of ids. -/
def listedIds (v : Option Value) : List (ℕ × Bytes) := keyIds v ++ (itemIds v).map (·, [])

/-- An admin, as text or as a number. -/
def adminId : Value → ℕ
  | .string s => parseSteamId64Loose s
  | .number d =>
    if 0 ≤ d.toInt ∧ d.toInt < 2 ^ 64 then d.toInt.toNat
    else if d.toInt64 = -2 ^ 63 then 2 ^ 63 else toUInt64 d.toInt64
  | _ => 0

/-- The object of a team, or nothing to read. -/
def teamValue (cfg : Value) (key : String) : Value :=
  match cfg.get key with
  | some (.object o) => .object o
  | _ => .null

def teamCoaches (t : Value) : List (ℕ × Bytes) := listedIds (t.get "coaches")

def teamSubstitutes (t : Value) : List (ℕ × Bytes) := listedIds (t.get "substitutes")

/-- The substitutes and the players of a team. -/
def teamRoster (t : Value) : List (ℕ × Bytes) := teamSubstitutes t ++ keyIds (t.get "players")

/-- `map[sid] = team` for every id. -/
def assignTeam (team : Team) (ids : List (ℕ × Bytes)) (m : List (ℕ × Team)) : List (ℕ × Team) :=
  ids.foldl (fun m p => assign m p.1 team) m

/-- A name is kept unless it is empty. -/
def assignNames (ids : List (ℕ × Bytes)) (m : List (ℕ × Bytes)) : List (ℕ × Bytes) :=
  ids.foldl (fun m p => if p.2 = [] then m else assign m p.1 p.2) m

def teamId (t : Value) : Bytes :=
  match (t.get "id").bind Value.asString, (t.get "id").bind Value.asInt with
  | some s, _ => s
  | none, some i => toDecimal i
  | none, none => []

def teamCaptain (t : Value) : ℕ :=
  match (t.get "captain_steamid64").bind Value.asString,
    (t.get "captain_steamid64").bind Value.asInt with
  | some s, _ => parseSteamId64Loose s
  | none, some i => toUInt64 i
  | none, none => 0

def textField (t : Value) (key : String) : Bytes := ((t.get key).bind Value.asString).getD []

end Ids

section Read

variable (cfg : Value)

def wingmanOf : Bool := (parseBool (cfg.get "wingman")).getD false

def cvarsOf : List (Bytes × Bytes) :=
  assignAll cvarOf [] (((cfg.get "cvars").map Value.members).getD [])

/-- The rounds of a map: the number that the cvars give goes before the field. -/
def maxRoundsOf : ℤ :=
  let field := (parsePositiveInt (cfg.get "maxRounds")).getD (if wingmanOf cfg then 16 else 24)
  match ((cvarsOf cfg).lookup (ascii "mp_maxrounds")).bind stoi with
  | none => field
  | some n => if 0 < n ∧ n < 10000 then n else field

def overtimeSegmentsOf : ℤ :=
  match parsePositiveInt (cfg.get "overtimeSegments") with
  | some n => max 1 (min 60 n)
  | none => if wingmanOf cfg then 2 else 3

def overtimeEnabledOf : Bool :=
  (cfg.get "overtimeMode").bind Value.asString = some (ascii "enabled")

def rulesOf : MatchRules where
  techPausesPerTeam := ruleInt (cfg.get "max_tech_pauses_per_team")
  techPauseMaxSeconds := ruleInt (cfg.get "tech_pause_max_seconds")
  disconnectPauseMaxSeconds := ruleInt (cfg.get "disconnect_pause_max_seconds")
  bothTeamsUnpause := ruleBool (cfg.get "both_teams_unpause_required")
  allowForceReady := ruleBool (cfg.get "allow_force_ready")
  teamReady := ruleBool (cfg.get "team_ready")
  minPlayersToReady := ruleInt (cfg.get "min_players_to_ready")
  minSpectatorsToReady := ruleInt (cfg.get "min_spectators_to_ready")
  forfeitAfterSeconds := ruleInt (cfg.get "forfeit_after_seconds")
  ggEnabled := ruleBool (cfg.get "gg_enabled")
  ggThresholdPct := ggThresholdPct (cfg.get "gg_threshold")
  ggMinScoreDiff := ruleInt (cfg.get "gg_min_score_diff")
  stopCommandAvailable := ruleBool (cfg.get "stop_command_available")
  stopCommandNoDamage := ruleBool (cfg.get "stop_command_no_damage")
  stopVoteSeconds := ruleInt (cfg.get "stop_vote_seconds")
  pauseAfterRestore := ruleBool (cfg.get "pause_after_restore")

def rosterTeamOf : List (ℕ × Team) :=
  assignTeam .team2 (teamRoster (teamValue cfg "team2"))
    (assignTeam .team1 (teamRoster (teamValue cfg "team1")) [])

def substitutesOf : List ℕ :=
  insertIds []
    ((teamSubstitutes (teamValue cfg "team1") ++ teamSubstitutes (teamValue cfg "team2")).map
      Prod.fst)

/-- The team of the listed coaches; a player of a roster is no coach. -/
def coachTeamOf : List (ℕ × Team) :=
  (assignTeam .team2 (teamCoaches (teamValue cfg "team2"))
    (assignTeam .team1 (teamCoaches (teamValue cfg "team1")) [])).filter fun kv =>
      ((rosterTeamOf cfg).lookup kv.1).isNone

def coachesOf : List ℕ :=
  insertIds (insertIds [] (itemIds (cfg.get "coaches"))) (keys (coachTeamOf cfg))

def spectatorsOf : List ℕ :=
  insertIds [] ((keyIds ((cfg.get "spectators").bind fun s => s.get "players")).map Prod.fst)

def rosterNamesOf : List (ℕ × Bytes) :=
  let names (t : Value) := teamCoaches t ++ teamRoster t
  assignNames (names (teamValue cfg "team1") ++ names (teamValue cfg "team2")) []

/-- The starting players of a team by the roster. -/
def startersOf (team : Team → Bool) : ℕ :=
  ((rosterTeamOf cfg).filter fun kv => !(substitutesOf cfg).contains kv.1 && team kv.2).length

/-- The size of a full team; 0 if nothing says it. -/
def playersPerTeamOf : ℤ :=
  let n := ((parseNonNegativeInt (cfg.get "players_per_team")).map (min · 32)).getD 0
  let n := if wingmanOf cfg ∧ n = 0 then 2 else n
  if substitutesOf cfg ≠ [] ∧ n = 0 then
    min 32 (max (startersOf cfg (· ≠ .team2)) (startersOf cfg (· = .team2)))
  else n

def deadlineOf (key : String) : ℤ := (((cfg.get key).bind Value.asInt).filter (0 < ·)).getD 0

/-- The context that the small reader gives. -/
def readContext (slug : Bytes) (matchid : ℕ) : WebhookMatchContext :=
  let botFill := (parseBool (cfg.get "bot_fill")).getD false
  { matchid, slug
    numMaps := (((cfg.get "num_maps").bind Value.asInt).map toInt32).getD 0
    clinchSeries := match cfg.get "clinch_series" with
      | some (.bool b) => b
      | _ => true
    cvars := cvarsOf cfg
    maxRounds := maxRoundsOf cfg
    overtimeEnabled := overtimeEnabledOf cfg
    overtimeSegments := overtimeSegmentsOf cfg
    wingman := wingmanOf cfg
    demoRecord := ruleBool (cfg.get "demo_record")
    demoUpload := ruleBool (cfg.get "demo_upload")
    simulation := !botFill && (parseBool (cfg.get "simulation")).getD false
    simulationTimescale :=
      if botFill then Binary64.ofInt 1
      else (timescaleOf (cfg.get "simulation_timescale")).getD (Binary64.ofInt 1)
    botFill
    fullTeamDeadlineMs := deadlineOf cfg "full_team_deadline_ms"
    walkoverShort := (((cfg.get "walkover_short").bind Value.asString).map teamOfText).getD .unknown
    walkoverExpiresMs := deadlineOf cfg "walkover_expires_ms"
    walkoverChoosers :=
      (((cfg.get "walkover_choosers").map Value.items).getD []).foldl (fun ids v =>
      match v.asString.bind stoull with
      | none => ids
      | some sid => if sid ∈ ids then ids else ids ++ [sid]) []
    maxOvertimes := (parseNonNegativeInt (cfg.get "maxOvertimes")).getD (-1)
    damageTiebreakEnabled := (parseBool (cfg.get "damageTiebreak")).getD false
    suddenDeathOnDamageTie := (parseBool (cfg.get "damageTiebreakSuddenDeath")).getD true
    knifeDecisionSeconds :=
      max 5 (min 300 ((parsePositiveInt (cfg.get "knifeDecisionSeconds")).getD 60))
    rules := rulesOf cfg
    playersPerTeam := playersPerTeamOf cfg
    playout := ruleBool (cfg.get "playout")
    whitelist := ruleBool (cfg.get "whitelist")
    autoready := ruleBool (cfg.get "autoready")
    rosterNamesRule := ruleBool (cfg.get "roster_names")
    mapSides := textsOf (cfg.get "map_sides")
    maplist := textsOf (cfg.get "maplist")
    spectators := spectatorsOf cfg
    admins := insertIds [] ((((cfg.get "admins").map Value.items).getD []).map adminId)
    team1Name := textField (teamValue cfg "team1") "name"
    team2Name := textField (teamValue cfg "team2") "name"
    team1Id := teamId (teamValue cfg "team1")
    team2Id := teamId (teamValue cfg "team2")
    team1Flag := textField (teamValue cfg "team1") "flag"
    team2Flag := textField (teamValue cfg "team2") "flag"
    team1CaptainSteamid64 := teamCaptain (teamValue cfg "team1")
    team2CaptainSteamid64 := teamCaptain (teamValue cfg "team2")
    rosterTeam := rosterTeamOf cfg
    substitutes := substitutesOf cfg
    rosterNames := rosterNamesOf cfg
    coachTeam := coachTeamOf cfg
    coaches := coachesOf cfg
    coachesPerTeam := (((cfg.get "coaches_per_team").bind Value.asInt).map toInt32).getD 2 }

end Read

section Apply

/-- The ruleset that a configuration names, under the server's own. -/
def namedRuleset (server : Ruleset) (cfg : Json) : Except Bytes Ruleset :=
  match cfg.find (ascii "ruleset") with
  | none => .ok server
  | some (.string s) =>
    match parseRuleset s with
    | some rs => .ok rs
    | none => .error (ascii "ruleset must be \"default\" or \"valve\"")
  | some _ => .error (ascii "ruleset must be \"default\" or \"valve\"")

def namedOverrides (cfg : Json) : Except Bytes RuleMap :=
  match cfg.find (ascii "overrides") with
  | none => .ok []
  | some o => parseOverrides o

def wingmanNote : Bytes :=
  ascii "wingman: ruleset default for this match (readyup.cfg sets valve, which is 5v5)"

def overtimeNote : Bytes :=
  ascii
    "maxOvertimes / damageTiebreak ignored (ruleset valve: overtime is the engine's, mp_overtime_limit)"

/-- The ruleset and its name; a wingman match does not play the server's valve ruleset. -/
def withRuleset (ctx : WebhookMatchContext) (cfg : Json) (rs : Ruleset) :
    Except Bytes (WebhookMatchContext × Ruleset) :=
  let named := (cfg.find (ascii "ruleset")).isSome
  let ctx := if named then { ctx with ruleset := rulesetName rs } else ctx
  if ctx.wingman ∧ rs = .valve then
    if named then .error (ascii "wingman needs ruleset \"default\" (the valve ruleset is 5v5)")
    else .ok ({ ctx with
      ruleset := rulesetName .default
      rulesetNotes := ctx.rulesetNotes ++ [wingmanNote] }, .default)
  else .ok (ctx, rs)

/-- Under valve overtime is the engine's. -/
def engineOvertime (ctx : WebhookMatchContext) (rs : Ruleset) : WebhookMatchContext :=
  if rs = .valve ∧ (0 ≤ ctx.maxOvertimes ∨ ctx.damageTiebreakEnabled) then
    { ctx with
      rulesetNotes := ctx.rulesetNotes ++ [overtimeNote]
      maxOvertimes := -1
      damageTiebreakEnabled := false }
  else ctx

/-- The overtime that the rules give. -/
def ruleOvertime (ctx : WebhookMatchContext) (rs : Ruleset) (overrides : RuleMap)
    (e : EffectiveRuleSet) : WebhookMatchContext :=
  let has (key : String) : Bool := rs = .valve || (overrides.lookup (ascii key)).isSome
  { ctx with
    overtimeEnabled :=
      if has "overtime.enabled" then e.bool (ascii "overtime.enabled") true else ctx.overtimeEnabled
    overtimeSegments :=
      if has "overtime.maxrounds" then
        max 1 (toInt32 (Int.tdiv (e.int (ascii "overtime.maxrounds") 6) 2))
      else ctx.overtimeSegments }

/-- The coaches among the spectators, or not. -/
def seatCoaches (ctx : WebhookMatchContext) (e : EffectiveRuleSet) : WebhookMatchContext :=
  if ctx.coaches = [] then ctx
  else if coachesAdmitted e then { ctx with spectators := insertIds ctx.spectators ctx.coaches }
  else
    { ctx with
      spectators := ctx.spectators.filter (!ctx.coaches.contains ·)
      rulesetNotes := ctx.rulesetNotes ++ [decimal ctx.coaches.length ++
        ascii " coach(es) not admitted (online match: lan false, coaches_online false)"] }

/-- What the ruleset resolves to for a context. -/
def contextRules (ctx : WebhookMatchContext) (rs : Ruleset) (overrides : RuleMap) :
    EffectiveRuleSet :=
  resolveEffective { ruleset := rs, overrides, matchRules := ctx.rules, cvars := ctx.cvars }

/-- The sides of the maps under the rules; a scrim keeps its knife round. -/
def checkSides (ctx : WebhookMatchContext) (e : EffectiveRuleSet) : Except Bytes Unit :=
  if ctx.slug = ascii "scrim" then .ok () else checkMapSides e ctx.mapSides

/-- What the rules change in a context. -/
def ruled (ctx : WebhookMatchContext) (rs : Ruleset) (overrides : RuleMap) : WebhookMatchContext :=
  let e := contextRules ctx rs overrides
  seatCoaches (ruleOvertime (engineOvertime ctx rs) rs overrides e) e

/-- The ruleset of a configuration applied to a context. -/
def applyRuleset (server : Ruleset) (cfg : Json) (ctx : WebhookMatchContext) :
    Except Bytes WebhookMatchContext := do
  let named ← namedRuleset server cfg
  let chosen ← withRuleset ctx cfg named
  let overrides ← namedOverrides cfg
  let ctx := { chosen.1 with overridesJson := overridesToText overrides }
  checkSides ctx (contextRules ctx chosen.2 overrides)
  .ok (ruled ctx chosen.2 overrides)

/-- The member of an object that is an object, or the value itself. -/
def configOf (root : Json) : Json := ((root.find (ascii "config")).filter (·.isObject)).getD root

def applyRulesetToContext (server : Ruleset) (json : Bytes) (ctx : WebhookMatchContext) :
    Except Bytes WebhookMatchContext :=
  match Json.parse json with
  | some (.object ms) => applyRuleset server (configOf (.object ms)) ctx
  | _ => .ok ctx

end Apply

section Frame

/-- The context without what a ruleset changes. -/
def WebhookMatchContext.unruled (ctx : WebhookMatchContext) : WebhookMatchContext :=
  { ctx with
    ruleset := []
    overridesJson := []
    rulesetNotes := []
    maxOvertimes := -1
    damageTiebreakEnabled := false
    overtimeEnabled := false
    overtimeSegments := 0
    spectators := [] }

variable {ctx ctx' : WebhookMatchContext} {cfg : Json} {rs rs' : Ruleset}

theorem unruled_withRuleset (h : withRuleset ctx cfg rs = .ok (ctx', rs')) :
    ctx'.unruled = ctx.unruled := by
  rw [withRuleset] at h
  split_ifs at h <;> cases h <;> rfl

theorem unruled_engineOvertime (ctx : WebhookMatchContext) (rs : Ruleset) :
    (engineOvertime ctx rs).unruled = ctx.unruled := by
  rw [engineOvertime]
  split_ifs <;> rfl

theorem unruled_seatCoaches (ctx : WebhookMatchContext) (e : EffectiveRuleSet) :
    (seatCoaches ctx e).unruled = ctx.unruled := by
  rw [seatCoaches]
  split_ifs <;> rfl

theorem unruled_applyRuleset {server : Ruleset} (h : applyRuleset server cfg ctx = .ok ctx') :
    ctx'.unruled = ctx.unruled := by
  obtain ⟨named, -, h⟩ := bind_eq_ok.mp h
  obtain ⟨⟨ctx₁, rs⟩, hruleset, h⟩ := bind_eq_ok.mp h
  obtain ⟨overrides, -, h⟩ := bind_eq_ok.mp h
  obtain ⟨-, -, h⟩ := bind_eq_ok.mp h
  cases h
  rw [ruled, unruled_seatCoaches, ← unruled_withRuleset hruleset]
  exact unruled_engineOvertime _ _

theorem unruled_applyRulesetToContext {server : Ruleset} {json : Bytes}
    (h : applyRulesetToContext server json ctx = .ok ctx') : ctx'.unruled = ctx.unruled := by
  unfold applyRulesetToContext at h
  split at h
  · exact unruled_applyRuleset h
  · cases h
    rfl

end Frame

def matchidOf (root cfg : Value) : ℕ :=
  let id := (((cfg.get "matchid").bind Value.asInt).map toUInt64).getD 0
  if id ≠ 0 then id else (((root.get "id").bind Value.asInt).map toUInt64).getD 0

/-- `ParseWebhookMatchContextFromJson` under the server's own ruleset; the reader's own message
is left out. -/
def parseWebhookMatchContextFromJson (server : Ruleset) (json : Bytes) :
    Except Bytes WebhookMatchContext :=
  match Minijson.parse json with
  | none => .error (ascii "json parse error")
  | some root =>
    let inner := (root.get "config").filter (·.isObject)
    let cfg := inner.getD root
    let slug := if inner.isSome then textField root "slug" else []
    if matchidOf root cfg = 0 then .error (ascii "missing matchid")
    else applyRulesetToContext server json (readContext cfg slug (matchidOf root cfg))

end ReadyUp.Config
