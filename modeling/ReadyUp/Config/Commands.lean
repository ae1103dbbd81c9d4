import ReadyUp.Config.Translate
import ReadyUp.Status.Hub

/-!
# The console commands of a match

A match sets the names of the teams, its cvars, the overridden rules and the password, loads its
maps, and at the end of the series kicks everybody with the name of the winner, unless it is a
scrim. Each value goes through a filter of its own; the kick only replaces quotes.
-/
namespace ReadyUp.Config

open Support Command Status
open Match (Team)

section Names

def isNameClean (c : UInt8) : Bool :=
  !(c < 0x20 || c == byte '"' || c == byte ';' || c == byte '\\' || c == 0x7F)

/-- The longest part of a text of at most 32 bytes that ends between two characters. -/
def cutName (s : Bytes) : Bytes :=
  if s.length ≤ 32 then s
  else s.take (((List.range 33).reverse.find? fun n => n = 0 ∨ (s.getD n 0) &&& 0xC0 ≠ 0x80).getD 0)

def sanitizeTeamName (s : Bytes) : Bytes := cutName (trimBy (· == byte ' ') (s.filter isNameClean))

end Names

/-- What the commands depend on besides the match: the map, the sides, the server's settings, the
winner of the series and the players who are kicked. -/
structure CommandEnv where
  server : Ruleset := .default
  cfgRules : MatchRules := {}
  playoutDefault : Bool := false
  mapNumber : ℕ := 1
  mapSides : List Bytes := []
  seriesWinner : Team := .unknown
  userids : List ℕ := []

section Commands

variable (env : CommandEnv) (ctx : WebhookMatchContext)

/-- The team that starts the map as counter-terrorists is the first one. -/
def team1Ct : Bool := env.mapSides.getD (max 1 env.mapNumber - 1) [] ≠ ascii "team2_ct"

def nameCommand (verb : String) (s : Bytes) : Command := { verb := ascii verb, args := [.quoted s] }

def shortFlag (s : Bytes) : Bytes :=
  if 3 < (sanitizeTeamName s).length then [] else sanitizeTeamName s

/-- `AppendTeamNameCmds` -/
def teamNameCmds : List Command :=
  if ctx.slug = ascii "scrim" then
    [nameCommand "mp_teamname_1" [], nameCommand "mp_teamname_2" [], nameCommand "mp_teamflag_1" [],
      nameCommand "mp_teamflag_2" []]
  else
    let pick (a b : Bytes) : Bytes × Bytes := if team1Ct env then (a, b) else (b, a)
    let names := pick ctx.team1Name ctx.team2Name
    let flags := pick ctx.team1Flag ctx.team2Flag
    [nameCommand "mp_teamname_1" (sanitizeTeamName names.1),
      nameCommand "mp_teamname_2" (sanitizeTeamName names.2),
      nameCommand "mp_teamflag_1" (shortFlag flags.1),
      nameCommand "mp_teamflag_2" (shortFlag flags.2)]

def playoutOn : Bool := if 0 ≤ ctx.playout then ctx.playout ≠ 0 else env.playoutDefault

/-- The clinch of the engine, unless a cvar of the match sets it. -/
def clinchCmds : List Command :=
  if (ctx.cvars.lookup (ascii "mp_match_can_clinch")).isSome then []
  else [{ verb := ascii "mp_match_can_clinch", args :=
    [.bare (if playoutOn env ctx then ascii "0" else ascii "1")] }]

def isSafeConvarKey (s : Bytes) : Bool := s ≠ [] && s.all fun c => isAlnum c || c == byte '_'

def isValueByte (c : UInt8) : Bool :=
  isAlnum c || c == byte '_' || c == byte '.' || c == byte '-' || c == byte '/' || c == byte ':'

def isSafeConvarValue (s : Bytes) : Bool := s ≠ [] && s.all isValueByte

/-- The commands for the cvars of the match. -/
def cvarCmds : List Command :=
  ctx.cvars.filterMap fun kv =>
    if isSafeConvarKey kv.1 ∧ isSafeConvarValue kv.2 then
      some { verb := kv.1, args := [.bare kv.2] }
    else none

def ctxRuleset : Ruleset := (parseRuleset ctx.ruleset).getD env.server

def effectiveRulesFor : EffectiveRuleSet :=
  resolveEffective
    { ruleset := ctxRuleset env ctx, overrides := (parseOverridesText ctx.overridesJson).getD []
      matchRules := ctx.rules, cfg := env.cfgRules, cvars := ctx.cvars }

/-- `ApplyMatchCvarsLocked` -/
def applyMatchCvars : List Command :=
  teamNameCmds env ctx ++ clinchCmds env ctx ++ cvarCmds ctx ++
    ruleCommands (effectiveRulesFor env ctx)

def setPassword (pw : Bytes) : Command := { verb := ascii "sv_password", args := [.quoted pw] }

/-- The name of the team that won the series. -/
def winnerName : Bytes :=
  match env.seriesWinner with
  | .team1 => ctx.team1Name
  | .team2 => ctx.team2Name
  | .unknown => []

/-- Why everybody is kicked at the end of a series. -/
def kickReason : Bytes :=
  if winnerName env ctx = [] then ascii "Series over. Thanks for playing!"
  else winnerName env ctx ++ ascii " won the match"

def withoutQuotes (s : Bytes) : Bytes := s.map fun c => if c = byte '"' then byte '\'' else c

def kickAllHumans (reason : Bytes) : List Command :=
  env.userids.map fun userid =>
    { verb := ascii "kickid", args := [.bare (decimal userid), .quoted (withoutQuotes reason)] }

/-- The kick of `MatchEndOnMapComplete` at the end of a series; a scrim just unloads. -/
def seriesEndCmds : List Command :=
  if ctx.slug = ascii "scrim" then [] else kickAllHumans env (kickReason env ctx)

def matchCommands (pw : Bytes) : List Command :=
  setPassword pw :: ctx.maplist.filterMap MapNames.loadCommand ++ applyMatchCvars env ctx ++
    seriesEndCmds env ctx

end Commands

section Clean

theorem quotedClean_of_forall {s : Bytes} (h : ∀ c ∈ s, c ≠ byte '"' ∧ isLineEnd c = false) :
    quotedClean s = true := by
  rw [quotedClean, List.all_eq_true]
  intro c hc
  obtain ⟨hquote, hend⟩ := h c hc
  simp [hquote, hend]

theorem mem_trimBy {p : UInt8 → Bool} {s : Bytes} {c : UInt8} (h : c ∈ trimBy p s) : c ∈ s :=
  (List.dropWhile_sublist p).subset ((List.rdropWhile_prefix p _).subset h)

theorem mem_cutName {s : Bytes} {c : UInt8} (h : c ∈ cutName s) : c ∈ s := by
  rw [cutName] at h
  split_ifs at h
  · exact h
  · exact List.mem_of_mem_take h

theorem quotedClean_sanitizeTeamName (s : Bytes) : quotedClean (sanitizeTeamName s) = true := by
  apply quotedClean_of_forall
  intro c hc
  have hclean := (List.mem_filter.mp (mem_trimBy (mem_cutName hc))).2
  rw [isLineEnd, Bool.or_eq_false_iff, beq_eq_false_iff_ne, beq_eq_false_iff_ne]
  refine ⟨?_, ?_, ?_⟩
  all_goals
    rintro rfl
    exact absurd hclean (by decide)

theorem quotedClean_shortFlag (s : Bytes) : quotedClean (shortFlag s) = true := by
  rw [shortFlag]
  split_ifs
  · rfl
  · exact quotedClean_sanitizeTeamName s

theorem clean_quoted {verb s : Bytes} (hverb : bareClean verb = true) (hs : quotedClean s = true) :
    ({ verb, args := [.quoted s] } : Command).Clean := by
  refine ⟨hverb, ?_⟩
  rw [List.forall_mem_singleton]
  exact hs

theorem clean_bare {verb s : Bytes} (hverb : bareClean verb = true) (hs : bareClean s = true) :
    ({ verb, args := [.bare s] } : Command).Clean := by
  refine ⟨hverb, ?_⟩
  rw [List.forall_mem_singleton]
  exact hs

variable (env : CommandEnv) (ctx : WebhookMatchContext)

theorem clean_teamNameCmds : ∀ c ∈ teamNameCmds env ctx, c.Clean := by
  have hverbs : ∀ v ∈ ["mp_teamname_1", "mp_teamname_2", "mp_teamflag_1", "mp_teamflag_2"],
      bareClean (ascii v) = true := by decide
  simp only [List.forall_mem_cons, List.not_mem_nil, false_imp_iff, implies_true,
    and_true] at hverbs
  obtain ⟨hn1, hn2, hf1, hf2⟩ := hverbs
  rw [teamNameCmds]
  split
  · decide
  · simp only [List.forall_mem_cons, List.not_mem_nil, false_imp_iff, implies_true, and_true]
    exact ⟨clean_quoted hn1 (quotedClean_sanitizeTeamName _),
      clean_quoted hn2 (quotedClean_sanitizeTeamName _),
      clean_quoted hf1 (quotedClean_shortFlag _), clean_quoted hf2 (quotedClean_shortFlag _)⟩

theorem clean_clinchCmds : ∀ c ∈ clinchCmds env ctx, c.Clean := by
  have hverb : bareClean (ascii "mp_match_can_clinch") = true := by decide
  rw [clinchCmds]
  split_ifs
  · simp
  · rw [List.forall_mem_singleton]
    apply clean_bare hverb
    decide
  · rw [List.forall_mem_singleton]
    apply clean_bare hverb
    decide

theorem isValueByte_clean {c : UInt8} (h : isValueByte c = true) :
    c ≠ byte ';' ∧ c ≠ byte '"' ∧ isLineEnd c = false := by
  rw [isLineEnd, Bool.or_eq_false_iff, beq_eq_false_iff_ne, beq_eq_false_iff_ne]
  refine ⟨?_, ?_, ?_, ?_⟩
  all_goals
    rintro rfl
    exact absurd h (by decide)

theorem clean_cvarCmds : ∀ c ∈ cvarCmds ctx, c.Clean := by
  intro c hc
  obtain ⟨kv, -, hkv⟩ := List.mem_filterMap.mp hc
  split_ifs at hkv with hsafe
  cases hkv
  simp only [isSafeConvarKey, isSafeConvarValue, Bool.and_eq_true, List.all_eq_true] at hsafe
  apply clean_bare
  · apply bareClean_of_forall
    intro c hc
    refine isValueByte_clean ?_
    have hkey := hsafe.1.2 c hc
    rw [isValueByte]
    rcases Bool.or_eq_true_iff.mp hkey with h | h <;> simp [h]
  · exact bareClean_of_forall fun c hc => isValueByte_clean (hsafe.2.2 c hc)

theorem typed_parseOverridesText
    (json : Bytes) : RuleMap.Typed ((parseOverridesText json).getD []) :=
  values_parseOverridesText (fun _ _ _ hx => hasKind_parseLeaf hx) json

theorem clean_applyMatchCvars : ∀ c ∈ applyMatchCvars env ctx, c.Clean := by
  intro c hc
  rw [applyMatchCvars, List.mem_append, List.mem_append, List.mem_append] at hc
  obtain ((hc | hc) | hc) | hc := hc
  · exact clean_teamNameCmds env ctx c hc
  · exact clean_clinchCmds env ctx c hc
  · exact clean_cvarCmds ctx c hc
  · exact clean_ruleCommands (typed_parseOverridesText _) c hc

theorem clean_setPassword {pw : Bytes} (h : Assign.validPassword pw = true) :
    (setPassword pw).Clean := by
  have hverb : bareClean (ascii "sv_password") = true := by decide
  apply clean_quoted hverb
  simp only [Assign.validPassword, Bool.and_eq_true, List.all_eq_true] at h
  apply quotedClean_of_forall
  intro c hc
  have hclean := h.2 c hc
  rw [isLineEnd, Bool.or_eq_false_iff, beq_eq_false_iff_ne, beq_eq_false_iff_ne]
  refine ⟨?_, ?_, ?_⟩
  all_goals
    rintro rfl
    exact absurd hclean (by decide)

def oneLine (s : Bytes) : Bool := s.all fun c => !isLineEnd c

theorem quotedClean_withoutQuotes (s : Bytes) : quotedClean (withoutQuotes s) = oneLine s := by
  rw [quotedClean, withoutQuotes, oneLine, List.all_map]
  congr 1
  funext c
  by_cases hc : c = byte '"'
  · subst hc
    decide
  · simp [hc]

end Clean

section Assigned

open Assign

/-- The configuration of an assignment. -/
def assigned (payload : Json) : Json := (obj payload "config").getD .null

def matchIdOf (payload : Json) : Bytes := str payload "match_id" []

def passwordOf (config : Json) : Bytes := str config "password" []

/-- The name of a team of a configuration. -/
def teamNameOf (config : Json) (key : String) : Bytes := str ((obj config key).getD .null) "name" []

variable {server : Ruleset} {matchId : Bytes} {config : Json} {ctx : WebhookMatchContext}

/-- The id of the match is the slug, which says whether it is a scrim. -/
theorem slug_contextOf (hsound : Sound config) (hctx : contextOf server matchId config = .ok ctx) :
    ctx.slug = matchId := by
  obtain ⟨cfg, id, -, happly⟩ := contextOf_ok hsound hctx
  exact congrArg (·.slug) (unruled_applyRulesetToContext happly)

theorem teamNames_contextOf (hsound : Sound config) (haccepted : Accepted server config)
    (hctx : contextOf server matchId config = .ok ctx) :
    ctx.team1Name = teamNameOf config "team1" ∧ ctx.team2Name = teamNameOf config "team2" := by
  obtain ⟨cfg, id, hcfg, happly⟩ := contextOf_ok hsound hctx
  have hframe := unruled_applyRulesetToContext happly
  obtain ⟨src₁, hsrc₁, -⟩ := exists_of_checkTeam haccepted.team1
  obtain ⟨src₂, hsrc₂, -⟩ := exists_of_checkTeam haccepted.team2
  constructor
  · refine (congrArg (·.team1Name) hframe).trans
      ((teamName_matConfig hcfg (.inl rfl) hsrc₁).trans ?_)
    rw [teamNameOf, hsrc₁]
    rfl
  · refine (congrArg (·.team2Name) hframe).trans
      ((teamName_matConfig hcfg (.inr rfl) hsrc₂).trans ?_)
    rw [teamNameOf, hsrc₂]
    rfl

theorem notMem_forbidden_of_mem_cvars {k : Bytes} (h : k ∈ keys (cvars config).members) :
    k ∉ forbiddenCvars := by
  obtain ⟨⟨k, v⟩, hkv, rfl⟩ := List.mem_map.mp h
  rcases List.mem_append.mp (mem_ofMembers hkv) with hm | hm
  · have hrule : ∀ kv ∈ ruleCvars config, kv.1 ∉ forbiddenCvars := by
      simp only [ruleCvars, List.forall_mem_cons, List.not_mem_nil, false_imp_iff,
        implies_true, and_true]
      decide
    exact hrule _ hm
  · obtain ⟨⟨j, w⟩, hj, heq⟩ := List.mem_map.mp hm
    have haccepted := (List.mem_filter.mp hj).2
    simp only [accepted, Bool.and_eq_true] at haccepted
    obtain ⟨rfl, -⟩ := Prod.mk.inj heq
    simpa using haccepted.2

theorem notMem_forbidden_of_contextOf (hsound : Sound config)
    (hctx : contextOf server matchId config = .ok ctx) :
    ∀ kv ∈ ctx.cvars, kv.1 ∉ forbiddenCvars := by
  obtain ⟨cfg, id, hcfg, happly⟩ := contextOf_ok hsound hctx
  have hcvars : ctx.cvars = cvarsOf cfg := congrArg (·.cvars) (unruled_applyRulesetToContext happly)
  rintro ⟨k, t⟩ hkv
  rw [hcvars, cvarsOf] at hkv
  rcases mem_assignAll hkv with hkv | ⟨v, hv, -⟩
  · cases hkv
  · have hfind : (matConfig matchId config).find (ascii "cvars") = some (cvars config) := by
      rw [find_matConfig (by decide)]
      simp [lastField, configFields, mapFields, ruleFields, walkoverFields]
    obtain ⟨x, hx⟩ := exists_ofJson_of_find hcfg hfind
    rw [get_matConfig_of_find hcfg hfind hx] at hv
    have hkey : k ∈ keys (cvars config).members := by
      rw [← Minijson.keys_members_ofJson hx]
      exact mem_keys_of_mem hv
    exact notMem_forbidden_of_mem_cvars hkey

/-- No command of the match can hold another one, and its cvars leave the password, the remote
console and the cheats alone. -/
def NoInjection (pw : Bytes) (ctx : WebhookMatchContext) : Prop :=
  (∀ env, ∀ c ∈ matchCommands env ctx pw, c.Clean) ∧ ∀ c ∈ cvarCmds ctx, c.verb ∉ forbiddenCvars

theorem oneLine_append {s t : Bytes} :
    oneLine (s ++ t) = true ↔ oneLine s = true ∧ oneLine t = true := by
  rw [oneLine, List.all_append, Bool.and_eq_true]
  rfl

theorem clean_kickAllHumans {env : CommandEnv} {reason : Bytes} (h : oneLine reason = true) :
    ∀ c ∈ kickAllHumans env reason, c.Clean := by
  intro c hc
  obtain ⟨userid, -, rfl⟩ := List.mem_map.mp hc
  have hverb : bareClean (ascii "kickid") = true := by decide
  refine ⟨hverb, ?_⟩
  simp only [List.forall_mem_cons, List.not_mem_nil, false_imp_iff, implies_true, and_true]
  exact ⟨bareClean_digits (decimal_isDigit userid), (quotedClean_withoutQuotes reason).trans h⟩

theorem oneLine_kickReason {env : CommandEnv} (h1 : oneLine ctx.team1Name = true)
    (h2 : oneLine ctx.team2Name = true) : oneLine (kickReason env ctx) = true := by
  have hwon : oneLine (ascii " won the match") = true := by decide
  rw [kickReason]
  split_ifs
  · decide
  · refine oneLine_append.mpr ⟨?_, hwon⟩
    rw [winnerName]
    split
    · exact h1
    · exact h2
    · rfl

/-- A winner with a name in one line, from the commands at the end of the series. -/
theorem oneLine_of_clean_kick {env : CommandEnv} (huser : 0 ∈ env.userids)
    (hname : winnerName env ctx ≠ [])
    (h : ∀ c ∈ kickAllHumans env (kickReason env ctx), c.Clean) :
    oneLine (winnerName env ctx) = true := by
  have hclean :=
    (h _ (List.mem_map_of_mem huser)).2 (.quoted (withoutQuotes (kickReason env ctx))) (by simp)
  have hline : oneLine (kickReason env ctx) = true :=
    (quotedClean_withoutQuotes _).symm.trans hclean
  rw [kickReason, if_neg hname] at hline
  exact (oneLine_append.mp hline).1

/-- The kick at the end of a series is clean for every winner exactly when there is none, or the
names of both teams are in one line. -/
theorem clean_seriesEndCmds_iff (h1 : ctx.team1Name ≠ []) (h2 : ctx.team2Name ≠ []) :
    (∀ env, ∀ c ∈ seriesEndCmds env ctx, c.Clean) ↔
      ctx.slug = ascii "scrim" ∨ (oneLine ctx.team1Name = true ∧ oneLine ctx.team2Name = true) := by
  constructor
  · intro h
    by_cases hscrim : ctx.slug = ascii "scrim"
    · exact .inl hscrim
    have hkick : ∀ winner, winnerName { seriesWinner := winner, userids := [0] } ctx ≠ [] →
        oneLine (winnerName { seriesWinner := winner, userids := [0] } ctx) = true := by
      intro winner hne
      refine oneLine_of_clean_kick (by simp) hne fun c hc => ?_
      refine h { seriesWinner := winner, userids := [0] } c ?_
      rw [seriesEndCmds, if_neg hscrim]
      exact hc
    exact .inr ⟨hkick .team1 h1, hkick .team2 h2⟩
  · intro h env c hc
    rw [seriesEndCmds] at hc
    split_ifs at hc with hscrim
    · cases hc
    · obtain ⟨hline1, hline2⟩ := h.resolve_left hscrim
      exact clean_kickAllHumans (oneLine_kickReason hline1 hline2) c hc

/-- The commands of an assigned match are clean exactly when it is a scrim, whose players are not
kicked, or the names of both teams are in one line. -/
theorem noInjection_iff {payload : Document} (hvalid : validateAssign server payload.value = .ok ())
    (hctx : contextOf server (matchIdOf payload.value) (assigned payload.value) = .ok ctx) :
    NoInjection (passwordOf (assigned payload.value)) ctx ↔
      matchIdOf payload.value = ascii "scrim" ∨
        (oneLine (teamNameOf (assigned payload.value) "team1") = true ∧
          oneLine (teamNameOf (assigned payload.value) "team2") = true) := by
  have hpayload : Sound payload.value := ⟨payload.uniqueKeys, payload.inRange⟩
  obtain ⟨config, hconfig, haccepted⟩ := accepted_of_validateAssign hvalid
  have hassigned : assigned payload.value = config := by rw [assigned, hconfig, Option.getD_some]
  rw [hassigned] at hctx ⊢
  have hsound := hpayload.obj hconfig
  obtain ⟨hname1, hname2⟩ := teamNames_contextOf hsound haccepted hctx
  have hne : ctx.team1Name ≠ [] ∧ ctx.team2Name ≠ [] := by
    obtain ⟨src₁, hsrc₁, hne₁⟩ := exists_of_checkTeam haccepted.team1
    obtain ⟨src₂, hsrc₂, hne₂⟩ := exists_of_checkTeam haccepted.team2
    rw [hname1, hname2, teamNameOf, teamNameOf, hsrc₁, hsrc₂]
    exact ⟨hne₁, hne₂⟩
  rw [← hname1, ← hname2, ← slug_contextOf hsound hctx, ← clean_seriesEndCmds_iff hne.1 hne.2]
  constructor
  · exact fun h env c hc => h.1 env c (List.mem_append_right _ hc)
  · intro h
    constructor
    · intro env c hc
      rw [matchCommands, List.mem_append, List.mem_append, List.mem_cons] at hc
      obtain ((rfl | hc) | hc) | hc := hc
      · obtain ⟨pw, hpw, hvalid⟩ := haccepted.password
        have hpassword : passwordOf config = pw := by rw [passwordOf, str, hpw]
        rw [hpassword]
        exact clean_setPassword hvalid
      · obtain ⟨entry, -, hload⟩ := List.mem_filterMap.mp hc
        exact MapNames.clean_loadCommand hload
      · exact clean_applyMatchCvars env ctx c hc
      · exact h env c hc
    · intro c hc
      obtain ⟨kv, hkv, hcommand⟩ := List.mem_filterMap.mp hc
      split_ifs at hcommand
      cases hcommand
      exact notMem_forbidden_of_contextOf hsound hctx kv hkv

example :
    oneLine (ascii "Alpha") = true ∧ oneLine (ascii "Alpha\nquit") = false := by decide +kernel

def sampleTeam (name sid : String) : Json :=
  ofFields [("name", some (.string (ascii name))),
    ("players", some (.array [ofFields [("steamid64", some (.string (ascii sid)))]]))]

def samplePayload (name : String) : Json :=
  ofFields [("match_id", some (.string (ascii "7"))), ("epoch", some (.int 1)),
    ("config", some (ofFields [("num_maps", some (.int 1)),
      ("maps", some (.array [ofFields [("name", some (.string (ascii "de_dust2")))]])),
      ("team1", some (sampleTeam name "76561197960265729")),
      ("team2", some (sampleTeam "Beta" "76561197960265730")),
      ("password", some (.string (ascii "secret")))]))]

def plainPayload : Document where
  value := samplePayload "Alpha"
  uniqueKeys := by decide
  inRange := by decide

theorem valid_plainPayload : validateAssign .default plainPayload.value = .ok () := by
  have hvalid : (validateAssign .default plainPayload.value).toOption = some () := by decide +kernel
  exact eq_ok_of_toOption hvalid

theorem built_plainPayload : ∃ ctx,
    contextOf .default (matchIdOf plainPayload.value) (assigned plainPayload.value) = .ok ctx := by
  have hctx : (contextOf .default (matchIdOf plainPayload.value)
      (assigned plainPayload.value)).toOption.isSome = true := by decide +kernel
  obtain ⟨ctx, hctx⟩ := Option.isSome_iff_exists.mp hctx
  exact ⟨ctx, eq_ok_of_toOption hctx⟩

theorem noInjection_plain : ∃ ctx,
    contextOf .default (matchIdOf plainPayload.value) (assigned plainPayload.value) = .ok ctx ∧
      NoInjection (passwordOf (assigned plainPayload.value)) ctx := by
  have hnames : oneLine (teamNameOf (assigned plainPayload.value) "team1") = true ∧
      oneLine (teamNameOf (assigned plainPayload.value) "team2") = true := by decide
  obtain ⟨ctx, hctx⟩ := built_plainPayload
  exact ⟨ctx, hctx, (noInjection_iff valid_plainPayload hctx).mpr (.inr hnames)⟩

/-- A name of two lines is accepted, and the kick at the end of the series has two lines. -/
theorem name_injects : validateAssign .default (samplePayload "Alpha\nquit") = .ok () ∧ ∃ ctx,
    contextOf .default (matchIdOf (samplePayload "Alpha\nquit"))
      (assigned (samplePayload "Alpha\nquit")) = .ok ctx ∧
      ∃ c ∈ matchCommands { seriesWinner := .team1, userids := [2] } ctx (ascii "secret"),
        10 ∈ c.text := by
  have hvalid : (validateAssign .default (samplePayload "Alpha\nquit")).toOption = some () := by
    decide +kernel
  have hctx : ((contextOf .default (matchIdOf (samplePayload "Alpha\nquit"))
      (assigned (samplePayload "Alpha\nquit"))).toOption.any fun ctx =>
        (matchCommands { seriesWinner := .team1, userids := [2] } ctx (ascii "secret")).any fun c =>
          c.text.contains 10) = true := by decide +kernel
  refine ⟨eq_ok_of_toOption hvalid, ?_⟩
  obtain ⟨ctx, hctx, hany⟩ := (Option.any_eq_true _ _).mp hctx
  obtain ⟨c, hc, hline⟩ := List.any_eq_true.mp hany
  exact ⟨ctx, eq_ok_of_toOption hctx, c, hc, by simpa using hline⟩

end Assigned

end ReadyUp.Config
