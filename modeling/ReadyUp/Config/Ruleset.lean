import ReadyUp.Status.JsonText
import ReadyUp.Support.Checks
import ReadyUp.Support.Console
import ReadyUp.Support.Strto

/-!
# Rulesets

A preset of match rules with named overrides. `parseOverrides` reads the overrides of a match,
`resolveEffective` lays the preset, the match's own pause rules, its cvars and the overrides
over one another, and `ruleCommands` are the commands for what was overridden.
-/
namespace ReadyUp.Config

open Support Status

inductive Ruleset where
  | default
  | valve
  deriving DecidableEq

def rulesetName : Ruleset → Bytes
  | .default => ascii "default"
  | .valve => ascii "valve"

section Text

def lower (s : Bytes) : Bytes := s.map toLower

def isBlank (c : UInt8) : Bool := c == byte ' ' || c == 9 || c == 13 || c == 10

def trim (s : Bytes) : Bytes := trimBy isBlank s

/-- `IsDigits` of the ruleset. -/
def allDigits (s : Bytes) : Bool := s ≠ [] && s.all isDigit

/-- `SafeQuoted`: what may go into a quoted cvar. -/
def safeQuoted (s : Bytes) : Bool :=
  s.all fun c => !(c ≤ 0x20 || 0x7F ≤ c || c == byte '"' || c == byte ';' || c == byte '\\')

def parseRuleset (s : Bytes) : Option Ruleset :=
  let v := lower (trim s)
  if v = ascii "default" then some .default else if v = ascii "valve" then some .valve else none

end Text

section MatchRules

/-- `MatchRules`: -1 is not set. -/
structure MatchRules where
  techPausesPerTeam : ℤ := -1
  techPauseMaxSeconds : ℤ := -1
  disconnectPauseMaxSeconds : ℤ := -1
  bothTeamsUnpause : ℤ := -1
  allowForceReady : ℤ := -1
  teamReady : ℤ := -1
  minPlayersToReady : ℤ := -1
  minSpectatorsToReady : ℤ := -1
  forfeitAfterSeconds : ℤ := -1
  ggEnabled : ℤ := -1
  ggThresholdPct : ℤ := -1
  ggMinScoreDiff : ℤ := -1
  stopCommandAvailable : ℤ := -1
  stopCommandNoDamage : ℤ := -1
  stopVoteSeconds : ℤ := -1
  pauseAfterRestore : ℤ := -1
  deriving DecidableEq

def builtinDefaultRules : MatchRules where
  techPausesPerTeam := 3
  techPauseMaxSeconds := 300
  disconnectPauseMaxSeconds := 300
  bothTeamsUnpause := 1
  allowForceReady := 1
  teamReady := 0
  minPlayersToReady := 0
  minSpectatorsToReady := 0
  forfeitAfterSeconds := 240
  ggEnabled := 0
  ggThresholdPct := 80
  ggMinScoreDiff := 8
  stopCommandAvailable := 0
  stopCommandNoDamage := 0
  stopVoteSeconds := 30
  pauseAfterRestore := 1

/-- `ResolveRules`: what the match leaves open comes from the server, then from the defaults. -/
def resolveRules (m base : MatchRules) : MatchRules :=
  let pick (f : MatchRules → ℤ) : ℤ :=
    if 0 ≤ f m then f m else if 0 ≤ f base then f base else f builtinDefaultRules
  let flag (f : MatchRules → ℤ) : ℤ := if pick f = 0 then 0 else 1
  { techPausesPerTeam := pick (·.techPausesPerTeam)
    techPauseMaxSeconds := pick (·.techPauseMaxSeconds)
    disconnectPauseMaxSeconds := pick (·.disconnectPauseMaxSeconds)
    bothTeamsUnpause := flag (·.bothTeamsUnpause)
    allowForceReady := flag (·.allowForceReady)
    teamReady := flag (·.teamReady)
    minPlayersToReady := pick (·.minPlayersToReady)
    minSpectatorsToReady := pick (·.minSpectatorsToReady)
    forfeitAfterSeconds := pick (·.forfeitAfterSeconds)
    ggEnabled := flag (·.ggEnabled)
    ggThresholdPct := max 1 (min 100 (pick (·.ggThresholdPct)))
    ggMinScoreDiff := pick (·.ggMinScoreDiff)
    stopCommandAvailable := flag (·.stopCommandAvailable)
    stopCommandNoDamage := flag (·.stopCommandNoDamage)
    stopVoteSeconds := max 5 (min 300 (pick (·.stopVoteSeconds)))
    pauseAfterRestore := flag (·.pauseAfterRestore) }

/-- `GgThresholdPctFromText`: a fraction or a percentage; -1 if it is neither. -/
def ggThresholdPctFromText (text : Bytes) : ℤ :=
  match strtod text with
  | none => -1
  | some (v, _) =>
    if v.isFinite = false ∨ v.toRat ≤ 0 then -1
    else
      let pct := if v.toRat ≤ 1 then Binary64.ofRat false (v.toRat * 100) else v
      if 100 < pct.toRat then -1 else max 1 pct.round

end MatchRules

section Rules

inductive RuleValue where
  | none
  | int (i : ℤ)
  | bool (b : Bool)
  | str (s : Bytes)
  deriving DecidableEq

namespace RuleValue

/-- `RuleValue::Kind` of a rule. -/
inductive Kind where
  | int
  | bool
  | str
  deriving DecidableEq

def isSet : RuleValue → Bool
  | .none => false
  | _ => true

def hasKind : RuleValue → Kind → Bool
  | .int _, .int => true
  | .bool _, .bool => true
  | .str _, .str => true
  | _, _ => false

def toJson : RuleValue → Json
  | .none => .null
  | .int i => .int i
  | .bool b => .bool b
  | .str s => .string s

def cvarValue : RuleValue → Bytes
  | .bool b => if b then ascii "1" else ascii "0"
  | .int i => toDecimal i
  | .str s => s
  | .none => []

end RuleValue

open RuleValue (Kind)

/-- `RuleInfo`; the cvar is what the value is written to after the go-live configuration. -/
structure RuleInfo where
  key : Bytes
  kind : Kind
  cvar : Option Bytes := none
  min : ℤ := 0
  max : ℤ := 0

def ruleTable : List RuleInfo :=
  [{ key := ascii "freezetime", kind := .int, cvar := ascii "mp_freezetime", min := 0, max := 120 },
    { key := ascii "tac_timeouts", kind := .int, cvar := ascii "mp_team_timeout_max",
      min := 0, max := 10 },
    { key := ascii "tac_timeout_seconds", kind := .int, cvar := ascii "mp_team_timeout_time",
      min := 1, max := 300 },
    { key := ascii "tech_pauses_per_team", kind := .int, min := 0, max := 20 },
    { key := ascii "tech_pause_seconds", kind := .int, min := 0, max := 3600 },
    { key := ascii "allow_knife", kind := .bool, min := 0, max := 1 },
    { key := ascii "overtime.enabled", kind := .bool, cvar := ascii "mp_overtime_enable",
      min := 0, max := 1 },
    { key := ascii "overtime.maxrounds", kind := .int, cvar := ascii "mp_overtime_maxrounds",
      min := 2, max := 30 },
    { key := ascii "overtime.startmoney", kind := .int, cvar := ascii "mp_overtime_startmoney",
      min := 0, max := 65535 },
    { key := ascii "overtime.limit", kind := .int, cvar := ascii "mp_overtime_limit",
      min := 0, max := 100 },
    { key := ascii "zeus", kind := .int, cvar := ascii "mp_weapons_allow_zeus",
      min := -1, max := 10 },
    { key := ascii "spectators_max", kind := .int, cvar := ascii "mp_spectators_max",
      min := 0, max := 64 },
    { key := ascii "halftime_pausematch", kind := .bool, cvar := ascii "mp_halftime_pausematch",
      min := 0, max := 1 },
    { key := ascii "tv_delay", kind := .int, cvar := ascii "tv_delay", min := 0, max := 960 },
    { key := ascii "tv_broadcast_url", kind := .str },
    { key := ascii "camera_man_steamid", kind := .str },
    { key := ascii "lan", kind := .bool, min := 0, max := 1 },
    { key := ascii "coaches_online", kind := .bool, min := 0, max := 1 },
    { key := ascii "default_models", kind := .bool, min := 0, max := 1 },
    { key := ascii "cosmetics", kind := .str }]

def findRule (key : Bytes) : Option RuleInfo := ruleTable.find? fun r => r.key == key

theorem key_of_findRule {key : Bytes} {r : RuleInfo} (h : findRule key = some r) : r.key = key := by
  simpa using List.find?_some h

def knownKeys : Bytes := List.intercalate (ascii ", ") (ruleTable.map (·.key))

abbrev RuleMap := List (Bytes × RuleValue)

def presetRules : Ruleset → RuleMap
  | .valve =>
    [(ascii "freezetime", .int 20), (ascii "tac_timeouts", .int 3),
      (ascii "tac_timeout_seconds", .int 31), (ascii "tech_pauses_per_team", .int 1),
      (ascii "tech_pause_seconds", .int 120), (ascii "allow_knife", .bool false),
      (ascii "overtime.enabled", .bool true), (ascii "overtime.maxrounds", .int 6),
      (ascii "overtime.startmoney", .int 10000), (ascii "overtime.limit", .int 0),
      (ascii "zeus", .int 5), (ascii "spectators_max", .int 10),
      (ascii "halftime_pausematch", .bool true), (ascii "tv_delay", .int 105),
      (ascii "tv_broadcast_url", .str []), (ascii "camera_man_steamid", .str []),
      (ascii "lan", .bool false), (ascii "coaches_online", .bool false),
      (ascii "default_models", .bool false), (ascii "cosmetics", .str (ascii "inventory"))]
  | .default =>
    [(ascii "freezetime", .int 18), (ascii "tac_timeouts", .int 3),
      (ascii "tac_timeout_seconds", .int 30), (ascii "allow_knife", .bool true),
      (ascii "overtime.enabled", .bool true), (ascii "overtime.maxrounds", .int 6),
      (ascii "overtime.startmoney", .int 10000), (ascii "overtime.limit", .none),
      (ascii "zeus", .int 1), (ascii "spectators_max", .int 20),
      (ascii "halftime_pausematch", .bool false), (ascii "tv_delay", .none),
      (ascii "tv_broadcast_url", .str []), (ascii "camera_man_steamid", .str []),
      (ascii "lan", .bool false), (ascii "coaches_online", .bool true),
      (ascii "default_models", .bool false), (ascii "cosmetics", .str (ascii "plugin"))]

end Rules

section Overrides

/-- A refused override names its key. -/
def refuse (info : RuleInfo) (why : Bytes) : Bytes :=
  ascii "override \"" ++ info.key ++ ascii "\": " ++ why

/-- The integer of a value that is one. -/
def wholeNumber : Json → Option ℤ
  | .int i => some i
  | .double d => if d.isFinite ∧ d.isWhole ∧ |d.toRat| < 10 ^ 12 then some d.toInt else none
  | _ => none

/-- The truth value of a value that is one. -/
def truthValue : Json → Option Bool
  | .bool b => some b
  | .int i => if i = 0 then some false else if i = 1 then some true else none
  | _ => none

/-- What is wrong with the text of a rule. -/
def wrongText (key s : Bytes) : Option Bytes :=
  if key = ascii "cosmetics" then
    if s ≠ ascii "inventory" ∧ s ≠ ascii "plugin" then
      some (ascii "must be \"inventory\" or \"plugin\"")
    else none
  else if key = ascii "camera_man_steamid" then
    if s ≠ [] ∧ (allDigits s = false ∨ s.length ≠ 17) then
      some (ascii "must be a SteamID64 (17 digits) or \"\"")
    else none
  else if key = ascii "tv_broadcast_url" then
    if s ≠ [] ∧ (ascii "http://").isPrefixOf s = false ∧
      (ascii "https://").isPrefixOf s = false then
      some (ascii "must start with http:// or https:// (or be \"\")")
    else if 256 < s.length ∨ safeQuoted s = false then
      some (ascii "has characters that cannot go into a cvar (or is too long)")
    else none
  else none

def parseLeaf (info : RuleInfo) (v : Json) : Except Bytes RuleValue :=
  match info.kind with
  | .int =>
    match wholeNumber v with
    | none => .error (refuse info (ascii "must be an integer"))
    | some n =>
      if n < info.min ∨ info.max < n then
        .error (refuse info (ascii "must be " ++ toDecimal info.min ++ ascii ".." ++
          toDecimal info.max ++ ascii " (got " ++ toDecimal n ++ ascii ")"))
      else .ok (.int n)
  | .bool =>
    match truthValue v with
    | none => .error (refuse info (ascii "must be true or false"))
    | some b => .ok (.bool b)
  | .str =>
    match v with
    | .string raw =>
      match wrongText info.key (trim raw) with
      | none => .ok (.str (trim raw))
      | some why => .error (refuse info why)
    | _ => .error (refuse info (ascii "must be a string"))

def unknownOverride (key : Bytes) : Bytes :=
  ascii "unknown override \"" ++ key ++ ascii "\" (known: " ++ knownKeys ++ ascii ")"

def parseRule (m : RuleMap) (key : Bytes) (v : Json) : Except Bytes RuleMap :=
  match findRule key with
  | none => .error (unknownOverride key)
  | some info => parseLeaf info v >>= fun x => .ok (assign m key x)

/-- A member of the overrides: a rule, or a group of dotted rules. -/
def parseMember (m : RuleMap) (kv : Bytes × Json) : Except Bytes RuleMap :=
  match kv.2 with
  | .object sub =>
    let group := kv.1 ++ [byte '.']
    if ruleTable.any fun r => group.isPrefixOf r.key then
      sub.foldlM (fun m kv => parseRule m (group ++ kv.1) kv.2) m
    else .error (unknownOverride kv.1)
  | v => parseRule m kv.1 v

def parseOverrides : Json → Except Bytes RuleMap
  | .object ms => ms.foldlM parseMember []
  | _ => .error (ascii "overrides must be an object")

/-- `ParseOverridesText`, without its messages. -/
def parseOverridesText (json : Bytes) : Option RuleMap :=
  if trim json = [] then some []
  else
    match Json.parse json with
    | none => none
    | some v => (parseOverrides v).toOption

def setPath (obj : Json) (key : Bytes) (v : Json) : Json :=
  match key.span (· ≠ byte '.') with
  | (_, []) => obj.set key v
  | (group, _ :: rest) => obj.set group (((obj.find group).getD .null).set rest v)

def overridesToText (overrides : RuleMap) : Bytes :=
  if overrides = [] then []
  else
    (ruleTable.foldl (fun (j : Json) (r : RuleInfo) =>
      match overrides.lookup r.key with
      | none => j
      | some v => if v.isSet then setPath j r.key v.toJson else j) (.object [])).dump

theorem hasKind_parseLeaf {info : RuleInfo} {v : Json} {x : RuleValue}
    (h : parseLeaf info v = .ok x) : x.hasKind info.kind = true := by
  unfold parseLeaf at h
  split at h
  · rename_i hkind
    rw [hkind]
    split at h
    · cases h
    · split_ifs at h
      cases h
      rfl
  · rename_i hkind
    rw [hkind]
    split at h
    · cases h
    · cases h
      rfl
  · rename_i hkind
    rw [hkind]
    split at h
    · split at h
      · cases h
        rfl
      · cases h
    · cases h

section Values

variable {P : RuleInfo → RuleValue → Prop}

/-- Every rule is known and has a value that it may have. -/
def RuleMap.Values (P : RuleInfo → RuleValue → Prop) (m : RuleMap) : Prop :=
  ∀ kv ∈ m, ∃ r, findRule kv.1 = some r ∧ P r kv.2

theorem values_parseRule (hleaf : ∀ info v x, parseLeaf info v = .ok x → P info x) {m m' : RuleMap}
    {key : Bytes}
    {v : Json} (hm : RuleMap.Values P m) (h : parseRule m key v = .ok m') :
    RuleMap.Values P m' := by
  rw [parseRule] at h
  split at h
  · cases h
  · rename_i info hinfo
    obtain ⟨x, hx, hassign⟩ := bind_eq_ok.mp h
    obtain rfl : assign m key x = m' := Except.ok.inj hassign
    intro kv hkv
    rcases mem_assign hkv with rfl | hkv
    · exact ⟨info, hinfo, hleaf info v x hx⟩
    · exact hm kv hkv

theorem values_parseMember (hleaf : ∀ info v x, parseLeaf info v = .ok x → P info x)
    {m m' : RuleMap}
    {kv : Bytes × Json} (hm : RuleMap.Values P m) (h : parseMember m kv = .ok m') :
    RuleMap.Values P m' := by
  rw [parseMember] at h
  split at h
  · dsimp only at h
    split_ifs at h
    exact foldlM_invariant hm (fun s a t _ hs ht => values_parseRule hleaf hs ht) h
  · exact values_parseRule hleaf hm h

/-- What holds of a value that is read holds of all overrides. -/
theorem values_parseOverrides (hleaf : ∀ info v x, parseLeaf info v = .ok x → P info x) {obj : Json}
    {m : RuleMap} (h : parseOverrides obj = .ok m) : RuleMap.Values P m := by
  cases obj with
  | object ms =>
    refine foldlM_invariant ?_ (fun s a t _ hs ht => values_parseMember hleaf hs ht) h
    intro kv hkv
    cases hkv
  | _ => cases h

theorem values_parseOverridesText (hleaf : ∀ info v x, parseLeaf info v = .ok x → P info x)
    (json : Bytes) : RuleMap.Values P ((parseOverridesText json).getD []) := by
  have hnil : RuleMap.Values P [] := fun kv hkv => by cases hkv
  rw [parseOverridesText]
  split_ifs
  · exact hnil
  · split
    · exact hnil
    · rename_i v hv
      cases hov : parseOverrides v with
      | error e => exact hnil
      | ok m => exact values_parseOverrides hleaf hov

end Values

/-- Every rule is known and has a value of its kind. -/
def RuleMap.Typed (m : RuleMap) : Prop :=
  ∀ kv ∈ m, ∃ r, findRule kv.1 = some r ∧ kv.2.hasKind r.kind = true

theorem bounds_of_parseLeaf {info : RuleInfo} {v : Json} {i : ℤ}
    (h : parseLeaf info v = .ok (.int i)) : info.min ≤ i ∧ i ≤ info.max := by
  unfold parseLeaf at h
  split at h
  · split at h
    · cases h
    · split_ifs at h with hbounds
      cases h
      rw [not_or, not_lt, not_lt] at hbounds
      exact hbounds
  · split at h <;> cases h
  · split at h
    · split at h <;> cases h
    · cases h

theorem depth_of_parseLeaf {info : RuleInfo} {v : Json} {x : RuleValue}
    (h : parseLeaf info v = .ok x) : v.depth = 0 := by
  cases v with
  | object ms =>
    unfold parseLeaf at h
    split at h <;> cases h
  | array vs =>
    unfold parseLeaf at h
    split at h <;> cases h
  | _ => rfl

theorem depth_of_parseRule {m m' : RuleMap} {key : Bytes} {v : Json}
    (h : parseRule m key v = .ok m') : v.depth = 0 := by
  rw [parseRule] at h
  split at h
  · cases h
  · obtain ⟨x, hx, -⟩ := bind_eq_ok.mp h
    exact depth_of_parseLeaf hx

theorem depth_of_parseMember {m m' : RuleMap} {kv : Bytes × Json} (h : parseMember m kv = .ok m') :
    kv.2.depth ≤ 1 := by
  rw [parseMember] at h
  split at h
  · rename_i sub hsub
    dsimp only at h
    split_ifs at h
    rw [hsub, Json.depth, Json.depthMembers_le]
    intro k v hv
    obtain ⟨s, t, ht⟩ := exists_step_of_foldlM h hv
    rw [depth_of_parseRule ht]
  · rw [depth_of_parseRule h]
    exact Nat.zero_le 1

theorem depth_of_parseOverrides {obj : Json} {m : RuleMap} (h : parseOverrides obj = .ok m) :
    obj.depth ≤ 2 := by
  cases obj with
  | object ms =>
    rw [Json.depth, Json.depthMembers_le]
    intro k v hv
    have hfold : ms.foldlM parseMember [] = .ok m := h
    obtain ⟨s, t, ht⟩ := exists_step_of_foldlM hfold hv
    exact Nat.succ_le_succ (depth_of_parseMember ht)
  | _ => cases h

end Overrides

section Effective

/-- Where the value of a rule comes from. -/
inductive Source where
  | preset
  | override
  | matchConfig
  | cvars
  | cfg
  deriving DecidableEq

structure RulesInput where
  ruleset : Ruleset := .default
  overrides : RuleMap := []
  /-- The pause, ready and forfeit rules of the match. -/
  matchRules : MatchRules := {}
  /-- The same rules in the server's configuration. -/
  cfg : MatchRules := {}
  cvars : List (Bytes × Bytes) := []

structure EffectiveRuleSet where
  ruleset : Ruleset
  values : RuleMap
  preset : RuleMap
  source : List (Bytes × Source)
  matchRules : MatchRules

namespace EffectiveRuleSet

def int (e : EffectiveRuleSet) (key : Bytes) (dflt : ℤ) : ℤ :=
  match e.values.lookup key with
  | some (.int i) => i
  | _ => dflt

def bool (e : EffectiveRuleSet) (key : Bytes) (dflt : Bool) : Bool :=
  match e.values.lookup key with
  | some (.bool b) => b
  | _ => dflt

def str (e : EffectiveRuleSet) (key : Bytes) : Bytes :=
  match e.values.lookup key with
  | some (.str s) => s
  | _ => []

/-- `values[key] = v` with its source. -/
def setRule (e : EffectiveRuleSet) (key : Bytes) (v : RuleValue) (src : Source) :
    EffectiveRuleSet :=
  { e with values := assign e.values key v, source := assign e.source key src }

end EffectiveRuleSet

def fromCvarText (info : RuleInfo) (raw : Bytes) : Option RuleValue :=
  let s := lower (trim raw)
  match info.kind with
  | .bool =>
    if s = ascii "1" ∨ s = ascii "true" then some (.bool true)
    else if s = ascii "0" ∨ s = ascii "false" then some (.bool false)
    else none
  | .int =>
    if s = [] then none
    else
      -- the text of the source ends at a zero byte
      match strtod s with
      | none => if s.head? = some 0 then some (.int 0) else none
      | some (d, rest) =>
        if (rest = [] ∨ rest.head? = some 0) ∧ d.isWhole then some (.int d.toInt64) else none
  | .str => none

/-- The preset, with the pause rules of the match where the default ruleset has them. -/
def presetOf (i : RulesInput) (chain : MatchRules) : RuleMap :=
  match i.ruleset with
  | .valve => presetRules .valve
  | .default =>
    assign (assign (presetRules .default) (ascii "tech_pauses_per_team")
      (.int chain.techPausesPerTeam))
      (ascii "tech_pause_seconds") (.int chain.techPauseMaxSeconds)

/-- The sources under the default ruleset. -/
def chainSource (m c : ℤ) : Source :=
  if 0 ≤ m then .matchConfig else if 0 ≤ c then .cfg else .preset

/-- The values before cvars and overrides. -/
def startRules (i : RulesInput) : EffectiveRuleSet :=
  let chain := resolveRules i.matchRules i.cfg
  let preset := presetOf i chain
  let e : EffectiveRuleSet :=
    { ruleset := i.ruleset, values := preset, preset, matchRules := chain
      source := ruleTable.map fun r => (r.key, .preset) }
  let pauses := i.matchRules.techPausesPerTeam
  let seconds := i.matchRules.techPauseMaxSeconds
  match i.ruleset with
  | .default =>
    let source := assign e.source (ascii "tech_pauses_per_team")
      (chainSource pauses i.cfg.techPausesPerTeam)
    { e with
      source := assign source (ascii "tech_pause_seconds")
        (chainSource seconds i.cfg.techPauseMaxSeconds) }
  | .valve =>
    let e :=
      if 0 ≤ pauses then e.setRule (ascii "tech_pauses_per_team") (.int pauses) .matchConfig else e
    if 0 ≤ seconds then e.setRule (ascii "tech_pause_seconds") (.int seconds) .matchConfig else e

/-- The cvar of a rule, if the match sets it. -/
def applyCvar (cvars : List (Bytes × Bytes)) (e : EffectiveRuleSet) (r : RuleInfo) :
    EffectiveRuleSet :=
  match (r.cvar.bind fun c => cvars.lookup c).bind (fromCvarText r) with
  | none => e
  | some v => e.setRule r.key v .cvars

def applyOverride (e : EffectiveRuleSet) (kv : Bytes × RuleValue) : EffectiveRuleSet :=
  if (findRule kv.1).isSome ∧ kv.2.isSet then e.setRule kv.1 kv.2 .override else e

def resolveEffective (i : RulesInput) : EffectiveRuleSet :=
  let e := i.overrides.foldl applyOverride (ruleTable.foldl (applyCvar i.cvars) (startRules i))
  let chain := resolveRules i.matchRules i.cfg
  { e with matchRules :=
      { chain with
        techPausesPerTeam := e.int (ascii "tech_pauses_per_team") chain.techPausesPerTeam
        techPauseMaxSeconds := e.int (ascii "tech_pause_seconds") chain.techPauseMaxSeconds } }

/-- The command for an overridden rule that has a cvar. -/
def ruleCommand (e : EffectiveRuleSet) (r : RuleInfo) : Option Command :=
  match r.cvar, e.source.lookup r.key, e.values.lookup r.key with
  | some cvar, some .override, some v =>
    if v.isSet then some { verb := cvar, args := [.bare v.cvarValue] } else none
  | _, _, _ => none

def ruleCommands (e : EffectiveRuleSet) : List Command :=
  let url := e.str (ascii "tv_broadcast_url")
  let cam := e.str (ascii "camera_man_steamid")
  ruleTable.filterMap (ruleCommand e) ++
    (if url ≠ [] ∧ safeQuoted url then
      [{ verb := ascii "tv_broadcast_url", args := [.quoted url] },
        { verb := ascii "tv_broadcast", args := [.bare (ascii "1")] }]
    else []) ++
    if cam ≠ [] ∧ allDigits cam then
      [{ verb := ascii "tv_allow_camera_man_steamid", args := [.bare cam] }]
    else []

def checkMapSides (e : EffectiveRuleSet) (mapSides : List Bytes) : Except Bytes Unit :=
  if e.bool (ascii "allow_knife") true then .ok ()
  else
    match mapSides.findIdx? (· == ascii "knife") with
    | none => .ok ()
    | some i =>
      .error (ascii "ruleset " ++ rulesetName e.ruleset ++ ascii ": map " ++ decimal (i + 1) ++
        ascii
        " has map_sides \"knife\", but knife rounds are off (Valve has no knife round; sides come from the veto: team1_ct / team2_ct). Set \"overrides\": \x7b\"allow_knife\": true\x7d to allow it.")

def coachesAdmitted (e : EffectiveRuleSet) : Bool :=
  e.bool (ascii "lan") false || e.bool (ascii "coaches_online") true

section Lookup

variable {e : EffectiveRuleSet} {k : Bytes}

@[simp] theorem values_setRule (e : EffectiveRuleSet) (key : Bytes) (v : RuleValue) (src : Source) :
    (e.setRule key v src).values.lookup k = if k = key then some v else e.values.lookup k :=
  lookup_assign _ _ _ _

@[simp] theorem source_setRule (e : EffectiveRuleSet) (key : Bytes) (v : RuleValue) (src : Source) :
    (e.setRule key v src).source.lookup k = if k = key then some src else e.source.lookup k :=
  lookup_assign _ _ _ _

/-- What is overridden has the value of an override. -/
def EffectiveRuleSet.Overridden (overrides : RuleMap) (e : EffectiveRuleSet) : Prop :=
  ∀ k, e.source.lookup k = some .override → ∃ v, (k, v) ∈ overrides ∧ e.values.lookup k = some v

theorem EffectiveRuleSet.Overridden.setRule {overrides : RuleMap} (h : e.Overridden overrides)
    {key : Bytes} {v : RuleValue} {src : Source} (hv : src = .override → (key, v) ∈ overrides) :
    (e.setRule key v src).Overridden overrides := by
  intro k hk
  rw [source_setRule] at hk
  rw [values_setRule]
  split_ifs at hk ⊢ with hkey
  · exact ⟨v, hkey ▸ hv (Option.some.inj hk), rfl⟩
  · exact h k hk

theorem source_startRules (i : RulesInput) (k : Bytes) {src : Source} (hpreset : src ≠ .preset)
    (hmatch : src ≠ .matchConfig) (hcfg : src ≠ .cfg) :
    (startRules i).source.lookup k ≠ some src := by
  have hchain : ∀ m c, some (chainSource m c) ≠ some src := by
    intro m c h
    rw [chainSource] at h
    split_ifs at h
    · exact hmatch (Option.some.inj h).symm
    · exact hcfg (Option.some.inj h).symm
    · exact hpreset (Option.some.inj h).symm
  have hsource : some Source.matchConfig ≠ some src := fun h => hmatch (Option.some.inj h).symm
  have htable : (ruleTable.map fun r => (r.key, Source.preset)).lookup k ≠ some src := by
    intro h
    obtain ⟨r, -, hr⟩ := List.mem_map.mp (mem_of_lookup h)
    exact hpreset (Prod.mk.inj hr).2.symm
  rw [startRules]
  cases i.ruleset with
  | default =>
    dsimp only
    rw [lookup_assign, lookup_assign]
    split_ifs
    · exact hchain _ _
    · exact hchain _ _
    · exact htable
  | valve =>
    dsimp only
    split_ifs
    · rw [source_setRule, source_setRule]
      split_ifs <;> assumption
    · rw [source_setRule]
      split_ifs <;> assumption
    · rw [source_setRule]
      split_ifs <;> assumption
    · exact htable

theorem overridden_foldl_applyCvar {overrides : RuleMap} (cvars : List (Bytes × Bytes))
    (table : List RuleInfo) (h : e.Overridden overrides) :
    (table.foldl (applyCvar cvars) e).Overridden overrides := by
  induction table generalizing e with
  | nil => exact h
  | cons r table ih =>
    refine ih ?_
    rw [applyCvar]
    split
    · exact h
    · exact h.setRule fun hsrc => by cases hsrc

theorem overridden_foldl_applyOverride {overrides l : RuleMap} (hl : ∀ kv ∈ l, kv ∈ overrides)
    (h : e.Overridden overrides) : (l.foldl applyOverride e).Overridden overrides := by
  induction l generalizing e with
  | nil => exact h
  | cons kv l ih =>
    refine ih (fun x hx => hl x (List.mem_cons_of_mem _ hx)) ?_
    rw [applyOverride]
    split_ifs
    · exact h.setRule fun _ => hl kv List.mem_cons_self
    · exact h

theorem overridden_resolveEffective (i : RulesInput) :
    (resolveEffective i).Overridden i.overrides := by
  have hstart : (startRules i).Overridden i.overrides :=
    fun k hk => absurd hk (source_startRules i k (by decide) (by decide) (by decide))
  exact overridden_foldl_applyOverride (fun _ h => h) (overridden_foldl_applyCvar _ _ hstart)

end Lookup

section Commands

open Command

theorem bareClean_of_forall {s : Bytes}
    (h : ∀ c ∈ s, c ≠ byte ';' ∧ c ≠ byte '"' ∧ isLineEnd c = false) : bareClean s = true := by
  rw [bareClean, List.all_eq_true]
  intro c hc
  obtain ⟨hsemi, hquote, hend⟩ := h c hc
  simp [hsemi, hquote, hend]

theorem bareClean_digits {s : Bytes} (h : ∀ c ∈ s, isDigit c = true) : bareClean s = true := by
  apply bareClean_of_forall
  intro c hc
  obtain ⟨d, hd, rfl⟩ := exists_digit (h c hc)
  interval_cases d <;> decide

theorem bareClean_append {s t : Bytes} (hs : bareClean s = true) (ht : bareClean t = true) :
    bareClean (s ++ t) = true := by
  rw [bareClean, List.all_append, Bool.and_eq_true]
  exact ⟨hs, ht⟩

theorem bareClean_toDecimal (i : ℤ) : bareClean (toDecimal i) = true := by
  refine bareClean_append ?_ (bareClean_digits (decimal_isDigit _))
  split_ifs <;> decide

theorem bareClean_cvarValue {v : RuleValue} {kind : RuleValue.Kind} (h : v.hasKind kind = true)
    (hkind : kind ≠ .str) : bareClean v.cvarValue = true := by
  cases v with
  | int i => exact bareClean_toDecimal i
  | bool b => cases b <;> decide
  | str s =>
    cases kind with
    | str => exact absurd rfl hkind
    | _ => cases h
  | none => rfl

theorem kind_of_findRule : ∀ r ∈ ruleTable, (findRule r.key).map (·.kind) = some r.kind := by decide

theorem kind_of_cvar : ∀ r ∈ ruleTable, r.cvar ≠ none → r.kind ≠ .str := by decide

theorem bareClean_cvar : ∀ r ∈ ruleTable, ∀ c ∈ r.cvar, bareClean c = true := by decide

theorem quotedClean_of_safeQuoted {s : Bytes} (h : safeQuoted s = true) : quotedClean s = true := by
  rw [safeQuoted, List.all_eq_true] at h
  rw [quotedClean, List.all_eq_true]
  intro c hc
  have hsafe := h c hc
  simp only [Bool.not_eq_true', Bool.or_eq_false_iff, decide_eq_false_iff_not,
    beq_eq_false_iff_ne] at hsafe
  obtain ⟨⟨⟨⟨hlow, -⟩, hquote⟩, -⟩, -⟩ := hsafe
  have hend : isLineEnd c = false := by
    rw [isLineEnd, Bool.or_eq_false_iff, beq_eq_false_iff_ne, beq_eq_false_iff_ne]
    constructor
    · rintro rfl
      exact hlow (by decide)
    · rintro rfl
      exact hlow (by decide)
  simp [hquote, hend]

/-- The commands of the rules are clean, whatever the overrides say. -/
theorem clean_ruleCommands {i : RulesInput} (h : RuleMap.Typed i.overrides) :
    ∀ c ∈ ruleCommands (resolveEffective i), c.Clean := by
  intro c hc
  rw [ruleCommands] at hc
  rcases List.mem_append.mp hc with hc | hc
  · rcases List.mem_append.mp hc with hc | hc
    · obtain ⟨r, hr, hcommand⟩ := List.mem_filterMap.mp hc
      rw [ruleCommand] at hcommand
      split at hcommand
      · rename_i cvar v hcvar hsource hvalue
        split_ifs at hcommand
        cases hcommand
        obtain ⟨w, hw, hlookup⟩ := overridden_resolveEffective i _ hsource
        obtain rfl : w = v := Option.some.inj (hlookup.symm.trans hvalue)
        obtain ⟨r', hr', hkind⟩ := h _ hw
        have hsame : r'.kind = r.kind := by
          have := kind_of_findRule r hr
          rw [hr'] at this
          exact Option.some.inj this
        have hnum := kind_of_cvar r hr (by simp [hcvar])
        refine ⟨bareClean_cvar r hr cvar hcvar, ?_⟩
        intro a ha
        rw [List.mem_singleton.mp ha]
        exact bareClean_cvarValue hkind (hsame ▸ hnum)
      · cases hcommand
    · split_ifs at hc with hurl
      · rcases List.mem_pair.mp hc with rfl | rfl
        · have hverb : bareClean (ascii "tv_broadcast_url") = true := by decide
          refine ⟨hverb, ?_⟩
          intro a ha
          rw [List.mem_singleton.mp ha]
          exact quotedClean_of_safeQuoted hurl.2
        · decide
      · cases hc
  · split_ifs at hc with hcam
    · have hverb : bareClean (ascii "tv_allow_camera_man_steamid") = true := by decide
      rw [List.mem_singleton.mp hc]
      refine ⟨hverb, ?_⟩
      intro a ha
      rw [List.mem_singleton.mp ha]
      have hdigits := hcam.2
      rw [allDigits, Bool.and_eq_true, List.all_eq_true] at hdigits
      exact bareClean_digits hdigits.2
    · cases hc

end Commands

end Effective

end ReadyUp.Config
