import ReadyUp.Config.Commands

/-!
# The rounds of a match

The rounds of a map, the rounds of half an overtime and whether there is an overtime travel twice:
as fields, by which the match flow ends a map, and as cvars, by which the engine does. The fields
are bounded and defaulted, the cvars are not, and a configuration may set the cvars itself.

`sameRounds_iff` says for which configurations both play the same number of rounds.
-/
namespace ReadyUp.Config

open Support Status Minijson JsonScan

/-- The match flow and the engine play the same number of rounds. -/
def SameRounds (ctx : WebhookMatchContext) : Prop :=
  (ctx.cvars.lookup (ascii "mp_maxrounds")).bind stoi = some ctx.maxRounds ∧
    (ctx.cvars.lookup (ascii "mp_overtime_maxrounds")).bind stoi = some (2 * ctx.overtimeSegments) ∧
      (ctx.overtimeEnabled = true ↔
        ctx.cvars.lookup (ascii "mp_overtime_enable") = some (ascii "1"))

namespace Assign

section Condition

variable (config : Json)

/-- The text that the configuration itself sets a cvar to. -/
def ownCvar (name : String) : Option Bytes :=
  (((obj config "cvars").map (·.members)).getD []).lookup (ascii name) |>.filter
    (fun v => accepted (ascii name, v)) |>.map cvarText

def wingman : Bool := bool (rulesOf config) "wingman" false

/-- The rounds of half an overtime that the match flow plays. -/
def playedHalf : ℤ :=
  if 1 ≤ overtimeHalf config ∧ overtimeHalf config < 10000 then min 60 (overtimeHalf config)
  else if wingman config then 2 else 3

/-- The rounds of a map are a number from 1 to 9999, whoever sets them. -/
def RoundsInRange : Prop :=
  match ownCvar config "mp_maxrounds" with
  | none => 1 ≤ maxRounds config ∧ maxRounds config < 10000
  | some t => ∃ n, stoi t = some n ∧ 1 ≤ n ∧ n < 10000

/-- Half an overtime has from 1 to 60 rounds, or the configuration sets the cvar to what the match
flow plays. The first number is doubled in 64 bits, where it may wrap around. -/
def OvertimeInRange : Prop :=
  match ownCvar config "mp_overtime_maxrounds" with
  | none => 1 ≤ overtimeHalf config ∧ overtimeHalf config ≤ 60 ∨
      overtimeHalf config = playedHalf config - 2 ^ 63
  | some t => stoi t = some (2 * playedHalf config)

/-- The configuration does not set the switch of the overtime, or to what its rules say. -/
def OvertimeNamed : Prop :=
  match ownCvar config "mp_overtime_enable" with
  | none => True
  | some t => overtimeOn config = true ↔ t = ascii "1"

/-- The match plays the default ruleset without overrides. A wingman match that names no ruleset
does so even where the server's own is the valve one. -/
def PlaysDefault (server : Ruleset) : Prop :=
  ∃ rs, ruleChoice server (rulesOf config) = .ok (rs, []) ∧
    (rs = .default ∨ wingman config = true ∧ get (rulesOf config) "ruleset" = none)

end Condition

end Assign

section Numbers

theorem parsePositiveInt_range {v : Option Value} {n : ℤ} (h : parsePositiveInt v = some n) :
    1 ≤ n ∧ n < 10000 := by
  unfold parsePositiveInt parseIntFrom at h
  split at h
  · simpa using (Option.filter_eq_some_iff.mp h).2
  · simpa using (Option.filter_eq_some_iff.mp h).2
  · cases h

theorem parsePositiveInt_ofInt (i : ℤ) : parsePositiveInt (some (.number (Binary64.ofInt i))) =
    if 1 ≤ i ∧ i < 10000 then some i else none := by
  rw [parsePositiveInt, parseIntFrom]
  by_cases hsmall : i.natAbs < 2 ^ 53
  · rw [Binary64.toInt64_ofInt hsmall, Option.filter_some]
    simp only [decide_eq_true_eq]
  · have hlarge := Binary64.le_natAbs_toInt64_ofInt (not_lt.mp hsmall)
    rw [Option.filter_some, if_neg (by simp; omega), if_neg (by omega)]

theorem doubled_eq_iff {h n : ℤ} (hh : InInt64 h) (hn : 1 ≤ n ∧ n ≤ 60) :
    Assign.doubled h = 2 * n ↔ h = n ∨ h = n - 2 ^ 63 := by
  obtain ⟨hlow, hhigh⟩ := hh
  rw [Assign.doubled, Int.bmod]
  split_ifs <;> omega

end Numbers

namespace Assign

section Read

variable {server : Ruleset} {matchId : Bytes} {config : Json} {cfg : Value}

theorem find_cvars (hsound : Sound config) (name : String) : (cvars config).find (ascii name) =
    ((ownCvar config name).map Json.string).or (lastMember (ascii name) (ruleCvars config)) := by
  have hkeys : (keys (((obj config "cvars").map (·.members)).getD [])).Nodup := by
    cases hobj : obj config "cvars" with
    | none => exact nodup_keys_nil
    | some o => exact (Json.uniqueKeys_members (hsound.obj hobj).1).1
  have hown := lastMember_filter hkeys accepted (fun v => .string (cvarText v)) (ascii name)
  rw [cvars, find_ofMembers, lastMember_append, ownCvars, hown, ownCvar, Option.map_map]
  rfl

/-- A cvar goes to the engine with its text, and not at all if that is empty. -/
theorem lookup_cvarsOf_of_find (hcfg : ofJson (matConfig matchId config) = some cfg) {name : String}
    {o : Option Bytes} (hname : ascii name ≠ [])
    (htext : (cvars config).find (ascii name) = o.map Json.string) :
    (cvarsOf cfg).lookup (ascii name) = o.filter (· ≠ []) := by
  have hfind : (matConfig matchId config).find (ascii "cvars") = some (cvars config) := by
    rw [find_matConfig (by decide)]
    simp [lastField, configFields, mapFields, ruleFields, walkoverFields]
  obtain ⟨x, hx⟩ := exists_ofJson_of_find hcfg hfind
  have hkeys : (keys x.members).Nodup := by
    rw [keys_members_ofJson hx]
    exact (Json.uniqueKeys_members (sound_cvars config).1).1
  have hlookup : x.members.lookup (ascii name) = o.map Value.string := by
    have hobject : x.isObject = true := (isObject_ofJson hx).trans (isObject_ofMembers _)
    have hget := get_ofJson hx name
    rw [htext] at hget
    cases x with
    | object ms =>
      refine Eq.trans hget ?_
      cases o <;> rfl
    | _ => cases hobject
  rw [cvarsOf, get_matConfig_of_find hcfg hfind hx, Option.map_some, Option.getD_some,
    lookup_assignAll hkeys, hlookup]
  cases o with
  | none => rfl
  | some t =>
    rw [Option.map_some, Option.bind_some, cvarOf, if_neg hname, Option.filter_some]
    by_cases hnil : t = []
    · simp [hnil]
    · simp [hnil]

/-- A cvar that the rules set goes to the engine with the text of the configuration, if there is
one, and not at all if that is empty. -/
theorem lookup_cvarsOf (hsound : Sound config) (hcfg : ofJson (matConfig matchId config) = some cfg)
    {name : String} {dflt : Bytes} (hname : ascii name ≠ [])
    (hrule : lastMember (ascii name) (ruleCvars config) = some (.string dflt)) :
    (cvarsOf cfg).lookup (ascii name) =
      (some ((ownCvar config name).getD dflt)).filter (· ≠ []) := by
  apply lookup_cvarsOf_of_find hcfg hname
  rw [find_cvars hsound, hrule]
  cases ownCvar config name <;> rfl

theorem bind_stoi_nonempty (t : Bytes) : ((some t).filter (· ≠ [])).bind stoi = stoi t := by
  cases t with
  | nil => rfl
  | cons c t => rfl

theorem wingmanOf_matConfig (hcfg : ofJson (matConfig matchId config) = some cfg) :
    wingmanOf cfg = wingman config := by
  rw [wingmanOf, get_matConfig hcfg (by decide)]
  simp only [lastField, configFields, mapFields, ruleFields, walkoverFields, List.cons_append,
    List.nil_append]
  rw [wingman]
  cases bool (rulesOf config) "wingman" false <;> simp <;> rfl

theorem inInt64_overtimeHalf (hsound : Sound config) : InInt64 (overtimeHalf config) := by
  rw [overtimeHalf]
  split
  · decide
  · rename_i ot hot
    exact (hsound.rulesOf.obj hot).int _ (by decide)

theorem overtimeSegmentsOf_matConfig (hcfg : ofJson (matConfig matchId config) = some cfg) :
    overtimeSegmentsOf cfg = playedHalf config := by
  have hget :
      cfg.get "overtimeSegments" = some (.number (Binary64.ofInt (overtimeHalf config))) := by
    rw [get_matConfig hcfg (by decide)]
    simp [lastField, configFields, mapFields, ruleFields, walkoverFields]
    rfl
  rw [overtimeSegmentsOf, hget, parsePositiveInt_ofInt, wingmanOf_matConfig hcfg, playedHalf]
  by_cases hrange : 1 ≤ overtimeHalf config ∧ overtimeHalf config < 10000
  · rw [if_pos hrange, if_pos hrange]
    dsimp only
    omega
  · rw [if_neg hrange, if_neg hrange]

theorem overtimeEnabledOf_matConfig (hcfg : ofJson (matConfig matchId config) = some cfg) :
    overtimeEnabledOf cfg = overtimeOn config := by
  have hget : cfg.get "overtimeMode" =
      some (.string (if overtimeOn config then ascii "enabled" else ascii "disabled")) := by
    rw [get_matConfig hcfg (by decide)]
    simp [lastField, configFields, mapFields, ruleFields, walkoverFields]
    rfl
  rw [overtimeEnabledOf, hget]
  cases overtimeOn config <;> decide

theorem playedHalf_range (config : Json) : 1 ≤ playedHalf config ∧ playedHalf config ≤ 60 := by
  rw [playedHalf]
  split_ifs <;> omega

/-- The match flow takes the rounds of the cvar exactly when they are in range. -/
theorem maxRoundsOf_eq_iff (cfg : Value) :
    ((cvarsOf cfg).lookup (ascii "mp_maxrounds")).bind stoi = some (maxRoundsOf cfg) ↔
      ∃ n, ((cvarsOf cfg).lookup (ascii "mp_maxrounds")).bind stoi = some n ∧
      1 ≤ n ∧ n < 10000 := by
  have hfield :
      ∀ dflt : ℤ, 1 ≤ dflt → dflt < 10000 → 1 ≤ (parsePositiveInt (cfg.get "maxRounds")).getD dflt ∧
      (parsePositiveInt (cfg.get "maxRounds")).getD dflt < 10000 := by
    intro dflt hlow hhigh
    cases hparse : parsePositiveInt (cfg.get "maxRounds") with
    | none => exact ⟨hlow, hhigh⟩
    | some n => exact parsePositiveInt_range hparse
  obtain ⟨hlow, hhigh⟩ := hfield (if wingmanOf cfg then 16 else 24) (by split_ifs <;> decide)
    (by split_ifs <;> decide)
  rw [maxRoundsOf]
  generalize (parsePositiveInt (cfg.get "maxRounds")).getD (if wingmanOf cfg then 16 else 24) =
    field at *
  cases hcvar : ((cvarsOf cfg).lookup (ascii "mp_maxrounds")).bind stoi with
  | none => simp
  | some n =>
    simp only [Option.some.injEq, exists_eq_left']
    split_ifs <;> omega

theorem rounds_iff (hsound : Sound config) (hcfg : ofJson (matConfig matchId config) = some cfg) :
    ((cvarsOf cfg).lookup (ascii "mp_maxrounds")).bind stoi = some (maxRoundsOf cfg) ↔
      RoundsInRange config := by
  have hrule : lastMember (ascii "mp_maxrounds") (ruleCvars config) =
      some (.string (toDecimal (maxRounds config))) := by
    simp [ruleCvars, lastMember, ascii_inj, isAscii]
  rw [maxRoundsOf_eq_iff, lookup_cvarsOf hsound hcfg (by decide) hrule, bind_stoi_nonempty,
    RoundsInRange]
  cases ownCvar config "mp_maxrounds" with
  | none =>
    rw [Option.getD_none, stoi_toDecimal]
    split_ifs
    · simp
    · simp
      omega
  | some t => rfl

theorem overtime_iff (hsound : Sound config) (hcfg : ofJson (matConfig matchId config) = some cfg) :
    ((cvarsOf cfg).lookup (ascii "mp_overtime_maxrounds")).bind stoi =
      some (2 * overtimeSegmentsOf cfg) ↔ OvertimeInRange config := by
  have hrule : lastMember (ascii "mp_overtime_maxrounds") (ruleCvars config) =
      some (.string (toDecimal (doubled (overtimeHalf config)))) := by
    simp [ruleCvars, lastMember, ascii_inj, isAscii]
  have hhalf := inInt64_overtimeHalf hsound
  have hplayed := playedHalf_range config
  rw [lookup_cvarsOf hsound hcfg (by decide) hrule, bind_stoi_nonempty,
    overtimeSegmentsOf_matConfig hcfg, OvertimeInRange]
  cases ownCvar config "mp_overtime_maxrounds" with
  | none =>
    have hdoubled := doubled_eq_iff hhalf hplayed
    have hvalue : overtimeHalf config = playedHalf config ↔
        1 ≤ overtimeHalf config ∧ overtimeHalf config ≤ 60 := by
      rw [playedHalf]
      split_ifs <;> omega
    dsimp only
    rw [Option.getD_none, stoi_toDecimal, ← hvalue, ← hdoubled]
    split_ifs
    · rw [Option.some.injEq]
    · simp
      omega
  | some t => rfl

theorem enabled_iff (hsound : Sound config) (hcfg : ofJson (matConfig matchId config) = some cfg) :
    (overtimeEnabledOf cfg = true ↔
      (cvarsOf cfg).lookup (ascii "mp_overtime_enable") = some (ascii "1")) ↔
        OvertimeNamed config := by
  have hrule : lastMember (ascii "mp_overtime_enable") (ruleCvars config) =
      some (.string (flag (overtimeOn config))) := by
    simp [ruleCvars, lastMember, ascii_inj, isAscii]
  have hone : ∀ t : Bytes, (some t).filter (· ≠ []) = some (ascii "1") ↔ t = ascii "1" := by
    intro t
    rw [Option.filter_eq_some_iff, Option.some.injEq]
    exact ⟨fun h => h.1, fun h => ⟨h, by decide⟩⟩
  rw [lookup_cvarsOf hsound hcfg (by decide) hrule, overtimeEnabledOf_matConfig hcfg,
    OvertimeNamed, hone]
  cases ownCvar config "mp_overtime_enable" with
  | none =>
    rw [Option.getD_none, iff_true]
    cases overtimeOn config <;> decide
  | some t => rfl

end Read

section Ruled

variable {server rs : Ruleset} {matchId : Bytes} {config : Json} {ctx ctx' : WebhookMatchContext}

/-- What a ruleset changes of the overtime. -/
def SameOvertime (ctx ctx' : WebhookMatchContext) : Prop :=
  ctx'.overtimeEnabled = ctx.overtimeEnabled ∧ ctx'.overtimeSegments = ctx.overtimeSegments

theorem sameOvertime_seatCoaches (ctx : WebhookMatchContext) (e : EffectiveRuleSet) :
    SameOvertime ctx (seatCoaches ctx e) := by
  rw [seatCoaches]
  split_ifs <;> exact ⟨rfl, rfl⟩

theorem sameOvertime_ruled (ctx : WebhookMatchContext) :
    SameOvertime ctx (ruled ctx .default []) := by
  have hengine : engineOvertime ctx .default = ctx := if_neg (by simp)
  have hrule : ∀ e, SameOvertime ctx (ruleOvertime ctx .default [] e) := fun e => ⟨rfl, rfl⟩
  obtain ⟨henabled, hsegments⟩ := sameOvertime_seatCoaches
    (ruleOvertime ctx .default [] (contextRules ctx .default [])) (contextRules ctx .default [])
  rw [ruled, hengine]
  exact ⟨henabled.trans (hrule _).1, hsegments.trans (hrule _).2⟩

theorem sameOvertime_withRuleset {cfg : Json} (hdefault : rs = .default ∨
      ctx.wingman = true ∧ cfg.find (ascii "ruleset") = none)
    (h : withRuleset ctx cfg rs = .ok (ctx', rs')) : SameOvertime ctx ctx' ∧ rs' = .default := by
  rw [withRuleset] at h
  rcases hdefault with rfl | ⟨hwingman, hnone⟩
  · rw [if_neg (by simp)] at h
    cases h
    split_ifs <;> exact ⟨⟨rfl, rfl⟩, rfl⟩
  · rw [hnone] at h
    cases rs with
    | valve =>
      rw [if_pos ⟨hwingman, rfl⟩] at h
      cases h
      exact ⟨⟨rfl, rfl⟩, rfl⟩
    | default =>
      rw [if_neg (by simp)] at h
      cases h
      exact ⟨⟨rfl, rfl⟩, rfl⟩

/-- Under the default ruleset the overtime is the one that was read. -/
theorem sameOvertime_contextOf (hsound : Sound config) (hdefault : PlaysDefault config server)
    (hwingman : ctx.wingman = wingman config)
    (h : applyRulesetToContext server (assignToMatConfig matchId config).dump ctx = .ok ctx') :
    SameOvertime ctx ctx' := by
  obtain ⟨rs, hchoice, hrs⟩ := hdefault
  rw [applyRulesetToContext_assigned hsound hchoice] at h
  obtain ⟨named, hnamed, h⟩ := bind_eq_ok.mp h
  obtain rfl : rs = named := Except.ok.inj ((namedRuleset_assigned hchoice).symm.trans hnamed)
  obtain ⟨⟨ctx₁, rs₁⟩, hruleset, h⟩ := bind_eq_ok.mp h
  obtain ⟨overrides, hoverrides, h⟩ := bind_eq_ok.mp h
  obtain rfl : [] = overrides :=
    Except.ok.inj ((namedOverrides_assigned hchoice).symm.trans hoverrides)
  obtain ⟨-, -, h⟩ := bind_eq_ok.mp h
  have hplays : rs = .default ∨ ctx.wingman = true ∧
      (matConfig matchId config).wire.find (ascii "ruleset") = none := by
    refine hrs.imp_right ?_
    rintro ⟨hw, hnone⟩
    rw [find_ruleset, hnone]
    exact ⟨hwingman.trans hw, rfl⟩
  obtain ⟨hsame, rfl⟩ := sameOvertime_withRuleset hplays hruleset
  cases h
  obtain ⟨henabled, hsegments⟩ :=
    sameOvertime_ruled { ctx₁ with overridesJson := overridesToText [] }
  exact ⟨henabled.trans hsame.1, hsegments.trans hsame.2⟩

end Ruled

end Assign

section SameRounds

open Assign

variable {server : Ruleset} {ctx : WebhookMatchContext}

/-- The match flow and the engine play the same number of rounds exactly when the numbers of the
configuration are in range and its own cvars do not contradict its rules. -/
theorem sameRounds_iff {payload : Document} (hvalid : validateAssign server payload.value = .ok ())
    (hdefault : PlaysDefault (assigned payload.value) server)
    (hctx : contextOf server (matchIdOf payload.value) (assigned payload.value) = .ok ctx) :
    SameRounds ctx ↔ RoundsInRange (assigned payload.value) ∧
      OvertimeInRange (assigned payload.value) ∧ OvertimeNamed (assigned payload.value) := by
  have hpayload : Sound payload.value := ⟨payload.uniqueKeys, payload.inRange⟩
  obtain ⟨config, hconfig, -⟩ := accepted_of_validateAssign hvalid
  have hassigned : assigned payload.value = config := by rw [assigned, hconfig, Option.getD_some]
  rw [hassigned] at hctx hdefault ⊢
  have hsound := hpayload.obj hconfig
  obtain ⟨cfg, id, hcfg, happly⟩ := contextOf_ok hsound hctx
  have hframe := unruled_applyRulesetToContext happly
  have hcvars : ctx.cvars = cvarsOf cfg := congrArg (·.cvars) hframe
  have hrounds : ctx.maxRounds = maxRoundsOf cfg := congrArg (·.maxRounds) hframe
  obtain ⟨henabled, hsegments⟩ :=
    sameOvertime_contextOf hsound hdefault (wingmanOf_matConfig hcfg) happly
  have hon : ctx.overtimeEnabled = overtimeEnabledOf cfg := henabled
  have hhalf : ctx.overtimeSegments = overtimeSegmentsOf cfg := hsegments
  rw [SameRounds, hcvars, hrounds, hon, hhalf, rounds_iff hsound hcfg, overtime_iff hsound hcfg,
    enabled_iff hsound hcfg]

example : stoi (ascii "122") = some 122 ∧ stoi (ascii "no") = none := by decide +kernel

theorem sameRounds_plain : ∃ ctx,
    contextOf .default (matchIdOf plainPayload.value) (assigned plainPayload.value) = .ok ctx ∧
      SameRounds ctx := by
  have hchoice : (ruleChoice .default (Assign.rulesOf (assigned plainPayload.value))).toOption =
      some (.default, []) := by decide
  have hown : ["mp_maxrounds", "mp_overtime_maxrounds", "mp_overtime_enable"].all (fun name =>
      (ownCvar (assigned plainPayload.value) name).isNone) = true := by decide
  have hrounds : maxRounds (assigned plainPayload.value) = 24 := by decide
  have hhalf : overtimeHalf (assigned plainPayload.value) = 3 := by decide
  obtain ⟨ctx, hctx⟩ := built_plainPayload
  simp only [List.all_cons, List.all_nil, Bool.and_true, Bool.and_eq_true,
    Option.isNone_iff_eq_none] at hown
  refine ⟨ctx, hctx, (sameRounds_iff valid_plainPayload
    ⟨.default, eq_ok_of_toOption hchoice, .inl rfl⟩ hctx).mpr ⟨?_, ?_, ?_⟩⟩
  · rw [RoundsInRange, hown.1, hrounds]
    decide
  · rw [OvertimeInRange, hown.2.1, hhalf]
    exact .inl (by decide)
  · rw [OvertimeNamed, hown.2.2]
    trivial

/-- An assignment of one map with 61 rounds in half an overtime. -/
def longOvertimePayload : Json :=
  let config := assigned plainPayload.value
  let overtime := ofFields [("rounds_per_half", some (.int 61))]
  plainPayload.value.set (ascii "config")
    (config.set (ascii "rules") (ofFields [("overtime", some overtime)]))

/-- The match flow plays 60 rounds in half an overtime where the engine plays 61. -/
theorem overtime_differs : validateAssign .default longOvertimePayload = .ok () ∧
    ruleChoice .default (Assign.rulesOf (assigned longOvertimePayload)) = .ok (.default, []) ∧
    ∃ ctx,
      contextOf .default (matchIdOf longOvertimePayload) (assigned longOvertimePayload) = .ok ctx ∧
        ctx.overtimeSegments = 60 ∧
          ctx.cvars.lookup (ascii "mp_overtime_maxrounds") = some (ascii "122") ∧
          ¬SameRounds ctx := by
  have hvalid : (validateAssign .default longOvertimePayload).toOption =
      some () := by decide +kernel
  have hchoice : (ruleChoice .default (Assign.rulesOf (assigned longOvertimePayload))).toOption =
      some (.default, []) := by decide
  have hctx : ((contextOf .default (matchIdOf longOvertimePayload)
      (assigned longOvertimePayload)).toOption.any fun ctx =>
        ctx.overtimeSegments = 60 ∧
          ctx.cvars.lookup (ascii "mp_overtime_maxrounds") = some (ascii "122")) =
          true := by decide +kernel
  have hstoi : stoi (ascii "122") = some 122 := by decide
  refine ⟨eq_ok_of_toOption hvalid, eq_ok_of_toOption hchoice, ?_⟩
  obtain ⟨ctx, hctx, hany⟩ := (Option.any_eq_true _ _).mp hctx
  obtain ⟨hsegments, hcvar⟩ := of_decide_eq_true hany
  refine ⟨ctx, eq_ok_of_toOption hctx, hsegments, hcvar, ?_⟩
  rintro ⟨-, hsame, -⟩
  rw [hcvar, hsegments, Option.bind_some, hstoi] at hsame
  exact absurd hsame (by decide)

end SameRounds

end ReadyUp.Config
