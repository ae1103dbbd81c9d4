import ReadyUp.Config.Broadcast
import ReadyUp.Config.Fields
import ReadyUp.Config.MapNames

/-!
# Match assignments

The platform assigns a match with a configuration of its own. `validateAssign` says what a
server accepts, and `assignToMatConfig` translates the configuration into the one that the match
plugin loads.
-/
namespace ReadyUp.Config.Assign

open Support Status

section Access

/-- `Find` with a key as it stands in the source. -/
def get (o : Json) (key : String) : Option Json := o.find (ascii key)

def items : Json → List Json
  | .array a => a
  | _ => []

def asString : Json → Bytes
  | .string s => s
  | _ => []

def obj (o : Json) (key : String) : Option Json := (get o key).filter (·.isObject)

def arr (o : Json) (key : String) : Option (List Json) :=
  match get o key with
  | some (.array a) => some a
  | _ => none

def str (o : Json) (key : String) (dflt : Bytes) : Bytes :=
  match get o key with
  | some (.string s) => s
  | _ => dflt

def int (o : Json) (key : String) (dflt : ℤ) : ℤ :=
  match get o key with
  | some (.int i) => i
  | some (.double d) => d.toInt64
  | _ => dflt

def bool (o : Json) (key : String) (dflt : Bool) : Bool :=
  match get o key with
  | some (.bool b) => b
  | _ => dflt

def isDigits (s : Bytes) (maxLen : ℕ) : Bool := s ≠ [] && s.length ≤ maxLen && s.all isDigit

end Access

section Validate

def validSteam : Json → Bool
  | .string s => isDigits s 20
  | _ => false

def isRole (role : Bytes) : Bool :=
  role == ascii "player" || role == ascii "sub" || role == ascii "coach"

def validPlayer (p : Json) : Except Bytes Unit := do
  check ((get p "steamid64").any validSteam) (ascii "player without a valid steamid64")
  let role := str p "role" (ascii "player")
  check (isRole role) (ascii "bad role " ++ role)

/-- `ValidTeam`, without the name of the team before its messages. -/
def checkTeam : Option Json → Except Bytes Unit
  | none => .error (ascii "missing")
  | some t => do
    let name := str t "name" []
    check (name ≠ [] && name.length ≤ 64) (ascii "name must be 1..64 bytes")
    match arr t "players" with
    | none => .error (ascii "players must be an array")
    | some players =>
      check (players.length ≤ 32) (ascii "more than 32 players")
      checkAll validPlayer players
      check ((get t "captain").all validSteam) (ascii "bad captain")

def validTeam (t : Option Json) (which : Bytes) : Except Bytes Unit :=
  (checkTeam t).mapError fun why => which ++ ascii ": " ++ why

/-- The ruleset that the rules of a configuration name. -/
def chosenRuleset (server : Ruleset) (rules : Json) : Except Bytes Ruleset :=
  match get rules "ruleset" with
  | none => .ok server
  | some (.string s) =>
    match parseRuleset s with
    | some rs => .ok rs
    | none => .error (ascii "rules.ruleset must be \"default\" or \"valve\"")
  | some _ => .error (ascii "rules.ruleset must be \"default\" or \"valve\"")

/-- The overrides of the rules of a configuration. -/
def chosenOverrides (rules : Json) : Except Bytes RuleMap :=
  match get rules "overrides" with
  | none => .ok []
  | some o => (parseOverrides o).mapError fun e => ascii "rules.overrides: " ++ e

def ruleChoice (server : Ruleset) (rules : Json) : Except Bytes (Ruleset × RuleMap) := do
  let rs ← chosenRuleset server rules
  let overrides ← chosenOverrides rules
  .ok (rs, overrides)

/-- The rules of a configuration, or none of them. -/
def rulesOf (config : Json) : Json := (obj config "rules").getD (.object [])

/-- `ValidateRuleset` under the server's own ruleset. -/
def validateRuleset (server : Ruleset) (cfg : Json) : Except Bytes Unit := do
  let choice ← ruleChoice server (rulesOf cfg)
  let sides := ((arr cfg "maps").getD []).map fun m => str m "sides" (ascii "knife")
  checkMapSides (resolveEffective { ruleset := choice.1, overrides := choice.2 }) sides

def validPassword (password : Bytes) : Bool :=
  password.length ≤ 64 && password.all fun c =>
    !(c ≤ 0x20 || 0x7f ≤ c || c == byte '"' || c == byte ';' || c == byte '\\' || c == byte '\'')

def isIdByte (c : UInt8) : Bool :=
  isAlnum c || c == byte '_' || c == byte '-' || c == byte '.' || c == byte ':'

def isSides (sides : Bytes) : Bool :=
  sides == ascii "team1_ct" || sides == ascii "team2_ct" || sides == ascii "knife"

def validMap (m : Json) : Except Bytes Unit := do
  let name := str m "name" []
  let ws := str m "workshop_id" []
  check (MapNames.parseEntry name).isSome (ascii "bad map name \"" ++ name ++ ascii "\"")
  check (ws = [] || isDigits ws 20) (ascii "bad workshop_id")
  let sides := str m "sides" (ascii "knife")
  check (isSides sides) (ascii "bad sides \"" ++ sides ++ ascii "\"")

/-- A list of players that may be missing. -/
def validList (cfg : Json) (list : String) : Except Bytes Unit :=
  match get cfg list with
  | none => .ok ()
  | some (.array a) =>
    checkAll (fun s => check (validSteam s) (ascii list ++ ascii ": bad steamid64")) a
  | some _ => .error (ascii list ++ ascii " must be an array")

/-- `rules.bot_fill` -/
def validBotFill (cfg : Json) : Except Bytes Unit :=
  match (obj cfg "rules").bind fun rules => get rules "bot_fill" with
  | none => .ok ()
  | some fill =>
    let isInt := match get fill "players_per_team" with
      | some (.int _) => true
      | _ => false
    check (fill.isObject && isInt && 1 ≤ int fill "players_per_team" 0 &&
      int fill "players_per_team" 0 ≤ 32)
      (ascii "bot_fill.players_per_team must be an integer 1..32")

def validEpoch (payload : Json) : Bool :=
  match get payload "epoch" with
  | some (.int i) => 1 ≤ i
  | _ => false

/-- The configuration of an assignment. -/
def validConfig (server : Ruleset) (cfg : Json) : Except Bytes Unit := do
  let numMaps := int cfg "num_maps" 0
  check (1 ≤ numMaps && numMaps ≤ 9) (ascii "num_maps must be 1..9")
  let maps := (arr cfg "maps").getD []
  check (maps ≠ [] && maps.length ≤ 9) (ascii "maps must list 1..9 maps")
  check (numMaps ≤ maps.length) (ascii "fewer maps than num_maps")
  checkAll validMap maps
  validTeam (obj cfg "team1") (ascii "team1")
  validTeam (obj cfg "team2") (ascii "team2")
  validList cfg "spectators"
  validList cfg "admins"
  match get cfg "password" with
  | some (.string pw) =>
    check (validPassword pw) (ascii "password has characters that cannot go into sv_password")
    check ((get cfg "rules").all (·.isObject)) (ascii "rules must be an object")
    check ((get cfg "cvars").all (·.isObject)) (ascii "cvars must be an object")
    validBotFill cfg
    validateRuleset server cfg
    Broadcast.validateAssignConfigText cfg.dump
  | _ => .error (ascii "password must be a string")

def validateAssign (server : Ruleset) (payload : Json) : Except Bytes Unit := do
  let mid := str payload "match_id" []
  check (mid ≠ [] && mid.length ≤ 64) (ascii "match_id must be 1..64 bytes")
  check (mid.all isIdByte) (ascii "match_id has a bad character")
  check (validEpoch payload) (ascii "epoch must be an integer >= 1")
  match obj payload "config" with
  | none => .error (ascii "config must be an object")
  | some cfg => validConfig server cfg

/-- What an accepted configuration has. -/
structure Accepted (server : Ruleset) (cfg : Json) : Prop where
  team1 : checkTeam (obj cfg "team1") = .ok ()
  team2 : checkTeam (obj cfg "team2") = .ok ()
  spectators : validList cfg "spectators" = .ok ()
  password : ∃ pw, get cfg "password" = some (.string pw) ∧ validPassword pw = true
  rules : (get cfg "rules").all (·.isObject) = true
  ruleset : validateRuleset server cfg = .ok ()
  readable : Broadcast.validateAssignConfigText cfg.dump = .ok ()

theorem checkTeam_of_validTeam {t : Option Json} {which : Bytes} (h : validTeam t which = .ok ()) :
    checkTeam t = .ok () := by
  rw [validTeam] at h
  cases hteam : checkTeam t with
  | error e =>
    rw [hteam] at h
    cases h
  | ok u => rfl

theorem accepted_of_validConfig {server : Ruleset} {cfg : Json}
    (h : validConfig server cfg = .ok ()) : Accepted server cfg := by
  obtain ⟨-, -, h⟩ := bind_eq_ok.mp h
  obtain ⟨-, -, h⟩ := bind_eq_ok.mp h
  obtain ⟨-, -, h⟩ := bind_eq_ok.mp h
  obtain ⟨-, -, h⟩ := bind_eq_ok.mp h
  obtain ⟨⟨⟩, hteam1, h⟩ := bind_eq_ok.mp h
  obtain ⟨⟨⟩, hteam2, h⟩ := bind_eq_ok.mp h
  obtain ⟨⟨⟩, hspectators, h⟩ := bind_eq_ok.mp h
  obtain ⟨-, -, h⟩ := bind_eq_ok.mp h
  split at h
  · rename_i pw hpw
    obtain ⟨⟨⟩, hvalid, h⟩ := bind_eq_ok.mp h
    obtain ⟨⟨⟩, hrules, h⟩ := bind_eq_ok.mp h
    obtain ⟨-, -, h⟩ := bind_eq_ok.mp h
    obtain ⟨-, -, h⟩ := bind_eq_ok.mp h
    obtain ⟨⟨⟩, hruleset, h⟩ := bind_eq_ok.mp h
    exact ⟨checkTeam_of_validTeam hteam1, checkTeam_of_validTeam hteam2, hspectators,
      ⟨pw, hpw, check_eq_ok.mp hvalid⟩, check_eq_ok.mp hrules, hruleset, h⟩
  · cases h

def mapsOk (cfg : Json) : Except Bytes Unit := do
  let numMaps := int cfg "num_maps" 0
  check (1 ≤ numMaps && numMaps ≤ 9) (ascii "num_maps must be 1..9")
  let maps := (arr cfg "maps").getD []
  check (maps ≠ [] && maps.length ≤ 9) (ascii "maps must list 1..9 maps")
  check (numMaps ≤ maps.length) (ascii "fewer maps than num_maps")
  checkAll validMap maps

theorem validTeam_iff {t : Option Json} {which : Bytes} :
    validTeam t which = .ok () ↔ checkTeam t = .ok () := by
  constructor
  · exact checkTeam_of_validTeam
  · intro h
    rw [validTeam, h]
    rfl

theorem validConfig_iff {server : Ruleset} {c : Json} : validConfig server c = .ok () ↔
    (mapsOk c = .ok () ∧ checkTeam (obj c "team1") = .ok () ∧ checkTeam (obj c "team2") = .ok ()) ∧
      (validList c "spectators" = .ok () ∧ validList c "admins" = .ok ()) ∧
      (∃ pw, get c "password" = some (.string pw) ∧ validPassword pw = true) ∧
      ((get c "rules").all (·.isObject) = true ∧ (get c "cvars").all (·.isObject) = true) ∧
      validBotFill c = .ok () ∧ validateRuleset server c = .ok () ∧
      Broadcast.validateAssignConfigText c.dump = .ok () := by
  unfold validConfig mapsOk
  simp only [bind_eq_ok]
  constructor
  · rintro ⟨u₁, h₁, u₂, h₂, u₃, h₃, u₄, h₄, ⟨⟩, h₅, ⟨⟩, h₆, ⟨⟩, h₇, ⟨⟩, h₈, h⟩
    split at h
    · rename_i pw hpw
      simp only [bind_eq_ok, check_eq_ok] at h
      obtain ⟨⟨⟩, h₉, ⟨⟩, h₁₀, ⟨⟩, h₁₁, ⟨⟩, h₁₂, ⟨⟩, h₁₃, h₁₄⟩ := h
      exact ⟨⟨⟨u₁, h₁, u₂, h₂, u₃, h₃, h₄⟩, validTeam_iff.mp h₅, validTeam_iff.mp h₆⟩, ⟨h₇, h₈⟩,
        ⟨pw, hpw, h₉⟩, ⟨h₁₀, h₁₁⟩, h₁₂, h₁₃, h₁₄⟩
    · cases h
  · rintro ⟨⟨⟨u₁, h₁, u₂, h₂, u₃, h₃, h₄⟩, h₅, h₆⟩, ⟨h₇, h₈⟩, ⟨pw, hpw, h₉⟩, ⟨h₁₀, h₁₁⟩,
      h₁₂, h₁₃, h₁₄⟩
    refine ⟨u₁, h₁, u₂, h₂, u₃, h₃, (), h₄, (), validTeam_iff.mpr h₅, (), validTeam_iff.mpr h₆, (),
      h₇, (), h₈, ?_⟩
    simp only [hpw, bind_eq_ok, check_eq_ok]
    exact ⟨(), h₉, (), h₁₀, (), h₁₁, (), h₁₂, (), h₁₃, h₁₄⟩

theorem validMap_of_validConfig {server : Ruleset} {cfg : Json}
    (h : validConfig server cfg = .ok ()) :
    ∀ m ∈ (arr cfg "maps").getD [], validMap m = .ok () := by
  have hmaps := (validConfig_iff.mp h).1.1
  unfold mapsOk at hmaps
  obtain ⟨⟨⟩, -, hmaps⟩ := bind_eq_ok.mp hmaps
  obtain ⟨⟨⟩, -, hmaps⟩ := bind_eq_ok.mp hmaps
  obtain ⟨⟨⟩, -, hmaps⟩ := bind_eq_ok.mp hmaps
  exact checkAll_eq_ok.mp hmaps

/-- An accepted assignment has a configuration that is accepted. -/
theorem accepted_of_validateAssign {server : Ruleset} {payload : Json}
    (h : validateAssign server payload = .ok ()) :
    ∃ cfg, obj payload "config" = some cfg ∧ Accepted server cfg := by
  obtain ⟨-, -, h⟩ := bind_eq_ok.mp h
  obtain ⟨-, -, h⟩ := bind_eq_ok.mp h
  obtain ⟨-, -, h⟩ := bind_eq_ok.mp h
  split at h
  · cases h
  · rename_i cfg hcfg
    exact ⟨cfg, hcfg, accepted_of_validConfig h⟩

theorem exists_of_checkTeam {t : Option Json} (h : checkTeam t = .ok ()) :
    ∃ src, t = some src ∧ str src "name" [] ≠ [] := by
  cases t with
  | none => cases h
  | some src =>
    obtain ⟨⟨⟩, hname, -⟩ := bind_eq_ok.mp h
    rw [check_eq_ok, Bool.and_eq_true] at hname
    exact ⟨src, rfl, by simpa using hname.1⟩

end Validate

section MatConfig

/-- `NumericMatchId`: a short decimal id is itself, any other one is hashed. -/
def numericMatchId (matchId : Bytes) : ℕ :=
  let v := if isDigits matchId 15 then strtoull matchId else 0
  if v ≠ 0 then v
  else
    let h := matchId.foldl (fun h c => (h ^^^ c.toNat) * 1099511628211 % 2 ^ 64) 1469598103934665603
    let h := h &&& (2 ^ 52 - 1)
    if h = 0 then 1 else h

/-- A player of a team with the role and the name. -/
structure Player where
  sid : Bytes
  role : Bytes
  name : Bytes

def readPlayer (p : Json) : Player where
  sid := str p "steamid64" []
  role := str p "role" (ascii "player")
  name := str p "name" []

/-- The players of a team of the configuration. -/
def teamPlayers (config : Json) (key : String) : List Player :=
  match (obj config key).bind fun t => arr t "players" with
  | none => []
  | some ps => ps.map readPlayer

def isCoach (p : Player) : Bool := p.role == ascii "coach"

def isSub (p : Player) : Bool := p.role == ascii "sub"

/-- `{sid: name}` in order. -/
def nameList (ps : List Player) : Json := ofMembers (ps.map fun p => (p.sid, some (.string p.name)))

def nonempty (s : Bytes) : Option Json := if s = [] then none else some (.string s)

/-- The players, unless there are none. -/
def nonemptyList (ps : List Player) : Option Json := if ps = [] then none else some (nameList ps)

/-- A team of the translated configuration, field by field. -/
def teamFields (src : Json) (ps : List Player) : List (String × Option Json) :=
  [("name", some (.string (str src "name" []))),
    ("tag", nonempty (str src "tag" [])),
    ("flag", nonempty (str src "flag" [])),
    ("players", some (nameList (ps.filter (!isCoach ·)))),
    ("coaches", nonemptyList (ps.filter isCoach)),
    ("substitutes", nonemptyList (ps.filter isSub)),
    ("captain_steamid64", nonempty (str src "captain" []))]

def team (config : Json) (key : String) : Json :=
  match obj config key with
  | none => .object []
  | some src => ofFields (teamFields src (teamPlayers config key))

def allPlayers (config : Json) : List Player :=
  teamPlayers config "team1" ++ teamPlayers config "team2"

/-- The starting players of a team, counted in a `long long`. -/
def starters (config : Json) (key : String) : ℤ :=
  Int.bmod ((teamPlayers config key).filter fun p => !isSub p && !isCoach p).length (2 ^ 64)

/-- A full team, if a team has substitutes. -/
def startersPerTeam (config : Json) : Option Json :=
  let n := max 0 (max (starters config "team1") (starters config "team2"))
  if (allPlayers config).any isSub ∧ 0 < n then some (.int n) else none

/-- A spectator who is no coach has no name. -/
def addSpectator (specs : Json) (s : Json) : Json :=
  if (specs.find (asString s)).isSome then specs else specs.set (asString s) (.string [])

def spectatorPlayers (config : Json) : Json :=
  ((arr config "spectators").getD []).foldl addSpectator
    (nameList ((allPlayers config).filter isCoach))

/-- `std::to_string(n * 2)` of a `long long`. -/
def doubled (n : ℤ) : ℤ := Int.bmod (n * 2) (2 ^ 64)

def number : Json → Option Json
  | .int i => some (.double (Binary64.ofInt i))
  | .double d => some (.double d)
  | _ => none

/-- The text of a cvar; empty for a value that has none. -/
def cvarText : Json → Bytes
  | .string s => s
  | .int i => toDecimal i
  | .double d => (Json.double d).dump
  | .bool b => if b then ascii "1" else ascii "0"
  | _ => []

/-- The name of a cvar of the engine. -/
def isEngineCvar (k : Bytes) : Bool :=
  [ascii "mp_", ascii "sv_", ascii "tv_", ascii "bot_"].any fun p => p.isPrefixOf k

def isSafeName (k : Bytes) : Bool :=
  k ≠ [] && k.length ≤ 64 && k.all fun c => isLower c || isDigit c || c == byte '_'

def isSafeValue (v : Bytes) : Bool :=
  v.length ≤ 128 && v.all fun c => !(c < 0x20 || c == byte ';' || c == byte '"')

def forbiddenCvars : List Bytes := [ascii "sv_password", ascii "rcon_password", ascii "sv_cheats"]

/-- A cvar of the configuration that goes to the match. -/
def accepted (kv : Bytes × Json) : Bool :=
  isEngineCvar kv.1 && isSafeName kv.1 && isSafeValue (cvarText kv.2) &&
    !forbiddenCvars.contains kv.1

def maxRounds (config : Json) : ℤ := int (rulesOf config) "max_rounds" 24

def overtimeOn (config : Json) : Bool :=
  match obj (rulesOf config) "overtime" with
  | none => true
  | some ot => bool ot "enabled" true

def overtimeHalf (config : Json) : ℤ :=
  match obj (rulesOf config) "overtime" with
  | none => 3
  | some ot => int ot "rounds_per_half" 3

def flag (b : Bool) : Bytes := if b then ascii "1" else ascii "0"

/-- A member of a group of rules as a field, if it is there. -/
def ruleField (group : Option Json) (key : String) (f : Json → Json) : Option Json :=
  group.bind fun g => (get g key).map fun _ => f g

/-- The cvars that the rules of the configuration set. -/
def ruleCvars (config : Json) : List (Bytes × Option Json) :=
  let pause := obj (rulesOf config) "pause"
  [(ascii "mp_maxrounds", some (.string (toDecimal (maxRounds config)))),
    (ascii "mp_overtime_enable", some (.string (flag (overtimeOn config)))),
    (ascii "mp_overtime_maxrounds", some (.string (toDecimal (doubled (overtimeHalf config))))),
    (ascii "mp_team_timeout_max", ruleField pause "tactical_per_team" fun p =>
      .string (toDecimal (int p "tactical_per_team" 3))),
    (ascii "mp_team_timeout_time", ruleField pause "tactical_seconds" fun p =>
      .string (toDecimal (int p "tactical_seconds" 30)))]

/-- The cvars of the configuration that are accepted. -/
def ownCvars (config : Json) : List (Bytes × Option Json) :=
  (((obj config "cvars").map (·.members)).getD []).filter accepted |>.map fun kv =>
    (kv.1, some (.string (cvarText kv.2)))

def cvars (config : Json) : Json := ofMembers (ruleCvars config ++ ownCvars config)

def switch : Json → Option Json
  | .bool b => some (.bool b)
  | _ => none

def texts (a : List Json) : List Bytes :=
  a.filterMap fun v =>
    match v with
    | .string s => some s
    | _ => none

/-- The walkover choice of the full-team timer. -/
def walkoverFields (ft : Option Json) : List (String × Option Json) :=
  let w := ft.bind fun f => obj f "walkover"
  [("full_team_deadline_ms", ft.map fun f => .int (int f "deadline_ms" 0)),
    ("walkover_short", w.map fun w => .string (str w "short" [])),
    ("walkover_expires_ms", w.map fun w => .int (int w "expires_ms" 0)),
    ("walkover_choosers", w.map fun w => .array ((texts ((arr w "choosers").getD [])).map .string))]

/-- The rules of the configuration as fields of the translated one. -/
def ruleFields (config : Json) : List (String × Option Json) :=
  let r := rulesOf config
  let ot := obj r "overtime"
  let tb := obj r "tiebreak"
  let demo := obj r "demo"
  let sm := obj r "simulation"
  let fill := obj r "bot_fill"
  let pause := obj r "pause"
  let ready := obj r "ready"
  let ff := obj r "forfeit"
  let gg := ff.bind fun f => obj f "gg_vote"
  [("maxRounds", some (.int (maxRounds config))),
    ("overtimeMode",
      some (.string (if overtimeOn config then ascii "enabled" else ascii "disabled"))),
    ("overtimeSegments", some (.int (overtimeHalf config))),
    ("maxOvertimes", ot.bind fun o =>
      if 0 ≤ int o "max_overtimes" (-1) then some (.int (int o "max_overtimes" (-1))) else none),
    ("damageTiebreak", tb.map fun t => .bool (bool t "damage" false)),
    ("damageTiebreakSuddenDeath", tb.map fun t => .bool (bool t "sudden_death_on_tie" true)),
    ("knifeDecisionSeconds", (obj r "knife").map fun k => .int (int k "side_pick_seconds" 60)),
    ("clinch_series", some (.bool (bool r "clinch_series" true))),
    ("wingman", if bool r "wingman" false then some (.bool true) else none),
    ("demo_record", (demo.bind fun d => get d "record").bind switch),
    ("demo_upload", (demo.bind fun d => get d "upload").bind switch),
    ("simulation", sm.map fun _ => .bool true),
    ("simulation_timescale", sm.bind fun s => (get s "timescale").bind number)] ++
  walkoverFields (obj r "full_team") ++
  [("bot_fill", fill.map fun _ => .bool true),
    ("players_per_team", fill.map fun f => .int (int f "players_per_team" 5)),
    ("simulation", fill.map fun _ => .bool false),
    ("ruleset", get r "ruleset"),
    ("overrides", get r "overrides"),
    ("max_tech_pauses_per_team", ruleField pause "technical_per_team" fun p =>
      .int (int p "technical_per_team" 0)),
    ("tech_pause_max_seconds", ruleField pause "technical_seconds" fun p =>
      .int (int p "technical_seconds" 0)),
    ("both_teams_unpause_required", pause.bind fun p =>
      if str p "unpause" [] = [] then none
      else some (.bool (str p "unpause" [] ≠ ascii "caller_team"))),
    ("pause_after_restore", ruleField pause "pause_after_restore" fun p =>
      .bool (bool p "pause_after_restore" true)),
    ("allow_force_ready", ruleField ready "allow_force_ready" fun g =>
      .bool (bool g "allow_force_ready" true)),
      ("team_ready", ruleField ready "team_ready" fun g => .bool (bool g "team_ready" false)),
    ("min_players_to_ready", ruleField ready "min_per_team" fun g => .int (int g "min_per_team" 0)),
    ("autoready", ruleField ready "autoready" fun g => .bool (bool g "autoready" false)),
    ("playout", ruleField (some r) "playout" fun g => .bool (bool g "playout" false)),
    ("whitelist", ruleField (some r) "whitelist" fun g => .bool (bool g "whitelist" true)),
    ("roster_names", ruleField (some r) "roster_names" fun g => .bool (bool g "roster_names" true)),
    ("forfeit_after_seconds", ruleField ff "team_absent_seconds" fun g =>
      .int (int g "team_absent_seconds" 240)),
    ("gg_enabled", ruleField gg "enabled" fun g => .bool (bool g "enabled" false)),
    ("gg_threshold", gg.bind fun g => (get g "threshold").bind number),
    ("gg_min_score_diff", ruleField gg "min_score_diff" fun g => .int (int g "min_score_diff" 8))]

/-- The maps of the configuration as entries and sides. -/
def mapFields (config : Json) : List (String × Option Json) :=
  let maps := (arr config "maps").getD []
  [("num_maps", some (.int (int config "num_maps" 1))),
    ("maplist", some (.array (maps.map fun m =>
      .string (MapNames.makeEntry (str m "name" []) (str m "workshop_id" []))))),
    ("map_sides", some (.array (maps.map fun m => .string (str m "sides" (ascii "knife")))))]

/-- The translated configuration, field by field. -/
def configFields (matchId : Bytes) (config : Json) : List (String × Option Json) :=
  ("matchid", some (.int (numericMatchId matchId))) :: mapFields config ++
  [("team1", some (team config "team1")),
    ("team2", some (team config "team2")),
    ("players_per_team", startersPerTeam config),
    ("spectators", some (ofFields [("players", some (spectatorPlayers config))])),
    ("coaches", some (.array (((allPlayers config).filter isCoach).map fun p => .string p.sid))),
    ("admins",
      some (.array (((arr config "admins").getD []).map fun s => .string (asString s))))] ++
  ruleFields config ++ [("cvars", some (cvars config))]

/-- The configuration that the match plugin loads. -/
def matConfig (matchId : Bytes) (config : Json) : Json := ofFields (configFields matchId config)

def assignToMatConfig (matchId : Bytes) (config : Json) : Json :=
  ofFields [("slug", some (.string matchId)), ("config", some (matConfig matchId config))]

end MatConfig

end ReadyUp.Config.Assign
