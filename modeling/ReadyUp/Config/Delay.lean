import ReadyUp.Config.Reported
import ReadyUp.Config.Rounds

/-!
# The delay of the broadcast

The match has a delay for its broadcast among its effective rules. The profile of the broadcast
may ask for another one, and `delayFloor` reads off the configuration how low it may be. Both read
the same configuration, but in two ways: the rules take the ruleset in any spelling and from the
server, and a cvar without a bound. `neverBelow_iff` says where the profile cannot go below the
rules.
-/
namespace ReadyUp.Config

open Support Status Minijson JsonScan

def tvDelayRule : RuleInfo :=
  { key := ascii "tv_delay", kind := .int, cvar := ascii "tv_delay", min := 0, max := 960 }

theorem findRule_tvDelay : findRule (ascii "tv_delay") = some tvDelayRule := rfl

theorem mem_tvDelay : tvDelayRule ∈ ruleTable := mem_of_findRule findRule_tvDelay

section Numbers

variable {t rest : Bytes} {i : ℤ} {d : Binary64}

theorem strtod_of_fromCvarText (h : fromCvarText tvDelayRule t = some (.int i)) (hi : 0 < i) :
    ∃ d rest, strtod (lower (trim t)) = some (d, rest) ∧ (rest = [] ∨ rest.head? = some 0) ∧
      d.isFinite = true ∧ d.isWhole = true ∧ d.toRat = i := by
  unfold fromCvarText tvDelayRule at h
  dsimp only at h
  by_cases hnil : lower (trim t) = []
  · rw [if_pos hnil] at h
    cases h
  rw [if_neg hnil] at h
  split at h
  · split_ifs at h
    cases h
    exact absurd hi (lt_irrefl 0)
  · rename_i d rest hstrtod
    split_ifs at h with hcond
    obtain rfl : d.toInt64 = i := RuleValue.int.inj (Option.some.inj h)
    rw [Binary64.toInt64] at hi ⊢
    split_ifs at hi ⊢ with hrange
    · exact ⟨d, rest, hstrtod, hcond.1, hrange.1, hcond.2,
        (Binary64.toInt_of_isWhole hrange.1 hcond.2).symm⟩
    · omega

theorem isSpace_of_isBlank (c : UInt8) (h : isBlank c = true) : isSpace c = true := by
  simp only [isBlank, Bool.or_eq_true, beq_iff_eq] at h
  rcases h with ((rfl | rfl) | rfl) | rfl <;> decide

theorem floatPrefix_blanks {a s : Bytes} (ha : ∀ c ∈ a, isSpace c = true) :
    floatPrefix (a ++ s) = floatPrefix s := by
  rw [floatPrefix_eq, floatPrefix_eq, List.dropWhile_append_of_pos ha]

/-- Trimming a text and lowering its letters leave its number as it is, and blanks behind it. -/
theorem strtod_of_lower_trim (h : strtod (lower (trim t)) = some (d, rest))
    (hend : rest = [] ∨ rest.head? = some 0) :
    ∃ rest', strtod t = some (d, rest') ∧ (rest'.takeWhile (· ≠ 0)).all isSpace = true := by
  obtain ⟨e, he, hblank⟩ := dropWhile_eq_trimBy isBlank t
  have hstops : Stops e := fun c hc => isSpace_of_isBlank c (hblank c (List.mem_of_mem_head? hc))
  have ht : t = t.takeWhile isBlank ++ (trim t ++ e) := by
    rw [trim, ← he, List.takeWhile_append_dropWhile]
  rw [strtod, lower, floatPrefix_lower, Option.map_map] at h
  obtain ⟨⟨neg, x, r⟩, hfloat, heq⟩ := Option.map_eq_some_iff.mp h
  obtain ⟨rfl, rfl⟩ := Prod.mk.inj heq
  have hwhole : floatPrefix t = some (neg, x, r ++ e) := by
    rw [ht, floatPrefix_blanks fun c hc => isSpace_of_isBlank c (List.mem_takeWhile_imp hc)]
    exact floatPrefix_append hstops hfloat
  refine ⟨r ++ e, by rw [strtod, hwhole]; rfl, ?_⟩
  rw [List.all_eq_true]
  intro c hc
  cases r with
  | nil => exact isSpace_of_isBlank c (hblank c ((List.takeWhile_prefix _).subset hc))
  | cons b r =>
    have hzero : toLower b = 0 := by simpa using hend
    have hb : b = 0 := (toLower_eq_iff (by decide) (by decide) b).mp hzero
    rw [List.cons_append, List.takeWhile_cons_of_neg (by simp [hb])] at hc
    cases hc

/-- Both readers of a cvar read the same number of seconds. -/
theorem cvarInt_of_fromCvarText (h : fromCvarText tvDelayRule t = some (.int i)) (hi : 0 < i)
    (hmax : i ≤ 10 ^ 6) : Broadcast.cvarInt t = i := by
  obtain ⟨d, rest, hstrtod, hend, hfinite, hwhole, hrat⟩ := strtod_of_fromCvarText h hi
  obtain ⟨rest', ht, hspace⟩ := strtod_of_lower_trim hstrtod hend
  have hint : d.toInt = i := by
    have hcast := (Binary64.toInt_of_isWhole hfinite hwhole).trans hrat
    exact_mod_cast hcast
  have hlow : 0 ≤ d.toRat := by
    rw [hrat]
    exact_mod_cast hi.le
  have hhigh : d.toRat ≤ 10 ^ 6 := by
    rw [hrat]
    exact_mod_cast hmax
  rw [Broadcast.cvarInt, ht]
  dsimp only
  rw [if_pos ⟨hfinite, hlow, hhigh, hspace⟩, hint]

theorem cvarInt_toDecimal (hi : 0 ≤ i) (hmax : i ≤ 10 ^ 6) :
    Broadcast.cvarInt (toDecimal i) = i := by
  have hsmall : i.natAbs < 2 ^ 53 := by omega
  obtain ⟨hfinite, hrat⟩ := Binary64.toRat_ofInt hsmall
  have hlow : 0 ≤ (Binary64.ofInt i).toRat := by
    rw [hrat]
    exact_mod_cast hi
  have hhigh : (Binary64.ofInt i).toRat ≤ 10 ^ 6 := by
    rw [hrat]
    exact_mod_cast hmax
  rw [Broadcast.cvarInt, ← intToken_text, strtod_text (intToken_wellFormed i), strtod_intToken]
  dsimp only
  rw [if_pos ⟨hfinite, hlow, hhigh, rfl⟩, Binary64.toInt_ofInt hsmall]

/-- A number that the match reads as so many seconds is that many seconds for the profile. -/
theorem cvarInt_of_token {n : NumToken} (hn : n.WellFormed)
    (h : fromCvarText tvDelayRule n.text = some (.int i)) (hi : 0 < i) (hmax : i ≤ 10 ^ 6) :
    ∃ t, Broadcast.cvarText (.number n.strtod) = some t ∧ Broadcast.cvarInt t = i := by
  obtain ⟨d, rest, hstrtod, -, hfinite, hwhole, hrat⟩ := strtod_of_fromCvarText h hi
  rw [lower_trim_text hn, strtod_text hn] at hstrtod
  cases hstrtod
  have hint : (n.strtod).toInt64 = i := by
    have hcast : (n.strtod).toInt = i := by
      have heq := (Binary64.toInt_of_isWhole hfinite hwhole).trans hrat
      exact_mod_cast heq
    rw [Binary64.toInt64, hcast, if_pos ⟨hfinite, by omega, by omega⟩]
  refine ⟨toDecimal i, ?_, cvarInt_toDecimal hi.le hmax⟩
  rw [Broadcast.cvarText, if_pos ⟨hfinite, hwhole⟩, hint]

/-- The number of seconds that the match reads of a cvar is the one that the profile reads. -/
theorem cvarInt_ofJson {v : Json} {x : Value} (hx : ofJson v = some x)
    (h : fromCvarText tvDelayRule (Assign.cvarText v) = some (.int i)) (hi : 0 < i)
    (hmax : i ≤ 10 ^ 6) : ∃ t, Broadcast.cvarText x = some t ∧ Broadcast.cvarInt t = i := by
  cases v with
  | string s =>
    cases hx
    exact ⟨s, rfl, cvarInt_of_fromCvarText h hi hmax⟩
  | bool b =>
    cases hx
    exact ⟨_, rfl, cvarInt_of_fromCvarText h hi hmax⟩
  | int j =>
    cases hx
    rw [Assign.cvarText, ← intToken_text] at h
    rw [← strtod_intToken]
    exact cvarInt_of_token (intToken_wellFormed j) h hi hmax
  | double d =>
    rw [Assign.cvarText, Json.dump] at h
    by_cases hfinite : d.isFinite = true
    · rw [if_pos hfinite] at h
      rw [ofJson, Json.readAs, if_pos hfinite, ofDouble] at hx
      split_ifs at hx
      cases hx
      exact cvarInt_of_token (d.formatG_wellFormed 10) h hi hmax
    · rw [if_neg hfinite] at h
      have hnull : fromCvarText tvDelayRule (ascii "null") = none := by decide
      rw [hnull] at h
      cases h
  | _ =>
    have hnone : (none : Option RuleValue) = some (.int i) := h
    cases hnone

end Numbers

namespace Assign

section Effective

variable {env : CommandEnv} {ctx : WebhookMatchContext} {server rs : Ruleset} {overrides : RuleMap}
  {matchId : Bytes} {config : Json}

/-- The override of the delay in a configuration. -/
def delayOverride (config : Json) : Option Json :=
  (get (rulesOf config) "overrides").bind (·.find (ascii "tv_delay"))

/-- The delay that the match reads of the cvars of a configuration. -/
def delayOfCvars (config : Json) : Option RuleValue :=
  (ownCvar config "tv_delay").bind (fromCvarText tvDelayRule)

/-- The ruleset that a match plays: a wingman match does not play the server's valve one. -/
def playedRuleset (rs : Ruleset) (config : Json) : Ruleset :=
  if rs = .valve ∧ wingman config = true then .default else rs

theorem ruled_frame (ctx : WebhookMatchContext) (rs : Ruleset) (overrides : RuleMap) :
    (ruled ctx rs overrides).ruleset = ctx.ruleset ∧
    (ruled ctx rs overrides).overridesJson = ctx.overridesJson := by
  rw [ruled, seatCoaches, ruleOvertime, engineOvertime]
  split_ifs <;> exact ⟨rfl, rfl⟩

theorem parseRuleset_rulesetName (rs : Ruleset) : parseRuleset (rulesetName rs) = some rs := by
  cases rs <;> decide

/-- The ruleset is named where the configuration names it, and where it is not the server's. -/
theorem ruleset_withRuleset {ctx ctx' : WebhookMatchContext} {cfg : Json} {rs rs' : Ruleset}
    (h : withRuleset ctx cfg rs = .ok (ctx', rs')) :
    (rs' = if rs = .valve ∧ ctx.wingman = true then .default else rs) ∧
      (ctx'.ruleset = rulesetName rs' ∨ ctx'.ruleset = ctx.ruleset ∧ rs' = rs ∧
        cfg.find (ascii "ruleset") = none) := by
  rw [withRuleset] at h
  cases hnamed : cfg.find (ascii "ruleset") with
  | none =>
    rw [hnamed] at h
    dsimp only [Option.isSome_none] at h
    simp only [Bool.false_eq_true, if_false] at h
    split_ifs at h with hvalve
    · cases h
      exact ⟨(if_pos hvalve.symm).symm, .inl rfl⟩
    · cases h
      exact ⟨(if_neg fun h => hvalve h.symm).symm, .inr ⟨rfl, rfl, rfl⟩⟩
  | some v =>
    rw [hnamed] at h
    dsimp only [Option.isSome_some] at h
    simp only [if_true] at h
    split_ifs at h with hvalve
    cases h
    exact ⟨(if_neg fun h => hvalve h.symm).symm, .inl rfl⟩

theorem ctxRuleset_contextOf (hsound : Sound config) (henv : env.server = server)
    (hchoice : ruleChoice server (rulesOf config) = .ok (rs, overrides))
    (hctx : contextOf server matchId config = .ok ctx) :
    ctxRuleset env ctx = playedRuleset rs config := by
  obtain ⟨cfg, id, ctx₁, rs₁, hcfg, hruleset, rfl⟩ := ruled_contextOf hsound hchoice hctx
  have hwingman : (readContext cfg matchId id).wingman = wingman config := wingmanOf_matConfig hcfg
  obtain ⟨hrs₁, hname⟩ := ruleset_withRuleset hruleset
  rw [hwingman] at hrs₁
  rw [ctxRuleset, (ruled_frame _ _ _).1, playedRuleset, ← hrs₁]
  dsimp only
  rcases hname with hname | ⟨hname, hsame, hnone⟩
  · rw [hname, parseRuleset_rulesetName]
    rfl
  · have hempty : parseRuleset [] = none := by decide
    have hserver : rs = server := by
      rcases chosenRuleset_ok (ruleChoice_ok hchoice).1 with ⟨-, hrs⟩ | ⟨s, hs, -⟩
      · exact hrs
      · rw [find_ruleset, hs] at hnone
        cases hnone
    have hread : (readContext cfg matchId id).ruleset = [] := rfl
    rw [hname, hread, hempty, hsame, hserver, henv]
    rfl

theorem startRules_tvDelay (i : RulesInput) : (startRules i).values.lookup (ascii "tv_delay") =
    some (match i.ruleset with
      | .valve => .int 105
      | .default => .none) := by
  rw [startRules, presetOf]
  cases i.ruleset with
  | default =>
    dsimp only
    rw [lookup_assign, lookup_assign, if_neg (by decide), if_neg (by decide)]
    decide
  | valve =>
    have hpreset : (presetRules .valve).lookup (ascii "tv_delay") = some (.int 105) := by decide
    dsimp only
    split_ifs
    · rw [values_setRule, values_setRule, if_neg (by decide), if_neg (by decide)]
      exact hpreset
    · rw [values_setRule, if_neg (by decide)]
      exact hpreset
    · rw [values_setRule, if_neg (by decide)]
      exact hpreset
    · exact hpreset

/-- The overrides of the context are those of its configuration. -/
theorem overrideOf_contextOf (hsound : Sound config)
    (hchoice : ruleChoice server (rulesOf config) = .ok (rs, overrides))
    (hctx : contextOf server matchId config = .ok ctx) (key : Bytes) :
    overrideOf (overridesOf ctx) key = overrides.lookup key := by
  obtain ⟨cfg, id, ctx₁, rs₁, -, -, rfl⟩ := ruled_contextOf hsound hchoice hctx
  have hacc : RuleMap.Accepted overrides := by
    rcases chosenOverrides_ok (ruleChoice_ok hchoice).2 with ⟨-, rfl⟩ | ⟨o, -, hparse⟩
    · exact fun kv hkv => by cases hkv
    · exact accepted_parseOverrides hparse
  obtain ⟨m, hm, hnodup, hlookup⟩ := lookup_parseOverridesText hacc
  have hoverrides : overridesOf
      (ruled { ctx₁ with overridesJson := overridesToText overrides } rs₁ overrides) = m := by
    rw [overridesOf, (ruled_frame _ _ _).2, hm]
    rfl
  have hset : ∀ kv ∈ m, kv.2.isSet = true := by
    intro kv hkv
    have hmem := (hlookup kv.1).symm.trans (lookup_of_mem hnodup hkv)
    obtain ⟨r, -, v, hv⟩ := hacc _ (mem_of_lookup hmem)
    exact isSet_of_parseLeaf hv
  rw [hoverrides, overrideOf_eq_lookup hnodup hset, hlookup]

/-- The delay of the match: its override, else its cvar, else the one of its ruleset. -/
theorem values_tvDelay (hsound : Sound config) (henv : env.server = server)
    (hchoice : ruleChoice server (rulesOf config) = .ok (rs, overrides))
    (hctx : contextOf server matchId config = .ok ctx) :
    (effectiveRulesFor env ctx).values.lookup (ascii "tv_delay") =
      ((overrides.lookup (ascii "tv_delay")).or (delayOfCvars config)).or
        (some (match playedRuleset rs config with
          | .valve => .int 105
          | .default => .none)) := by
  have hvalues := values_resolveEffective
    { ruleset := ctxRuleset env ctx,
      overrides := overridesOf ctx, matchRules := ctx.rules, cfg := env.cfgRules
      cvars := ctx.cvars } mem_tvDelay
  have hcvars : valueOfCvars ctx.cvars tvDelayRule = delayOfCvars config := by
    obtain ⟨cfg, id, hcfg, happly⟩ := contextOf_ok hsound hctx
    have hread : ctx.cvars = cvarsOf cfg :=
      congrArg (·.cvars) (unruled_applyRulesetToContext happly)
    have hrule : lastMember (ascii "tv_delay") (ruleCvars config) = none := by
      simp [ruleCvars, lastMember, ascii_inj, isAscii]
    have hfind :
        (cvars config).find (ascii "tv_delay") = (ownCvar config "tv_delay").map Json.string := by
      rw [find_cvars hsound, hrule, Option.or_none]
    have hlookup := lookup_cvarsOf_of_find hcfg (by decide) hfind
    have hnil : fromCvarText tvDelayRule [] = none := rfl
    rw [valueOfCvars, delayOfCvars, hread]
    dsimp only [tvDelayRule, Option.bind_some]
    rw [hlookup]
    cases ownCvar config "tv_delay" with
    | none => rfl
    | some t =>
      rw [Option.filter_some]
      split_ifs with hne
      · rfl
      · obtain rfl : t = [] := by simpa using hne
        exact hnil.symm
  rw [effectiveRulesFor, ← overridesOf]
  have hkey : tvDelayRule.key = ascii "tv_delay" := rfl
  refine hvalues.trans ?_
  rw [hcvars, hkey, startRules_tvDelay]
  dsimp only
  rw [overrideOf_contextOf hsound hchoice hctx, ctxRuleset_contextOf hsound henv hchoice hctx]

end Effective

section Floor

variable {server rs : Ruleset} {overrides : RuleMap} {config : Json} {value : Value}

/-- The override of the delay, in the rules and for the profile. -/
theorem override_tvDelay (hsound : Sound config)
    (hchoice : ruleChoice server (rulesOf config) = .ok (rs, overrides)) :
    delayOverride config = none ∧ overrides.lookup (ascii "tv_delay") = none ∨
      ∃ v x, delayOverride config = some v ∧ parseLeaf tvDelayRule v = .ok x ∧
        overrides.lookup (ascii "tv_delay") = some x := by
  rcases chosenOverrides_ok (ruleChoice_ok hchoice).2 with ⟨hnone, rfl⟩ | ⟨o, ho, hparse⟩
  · refine .inl ⟨?_, rfl⟩
    rw [delayOverride, hnone]
    rfl
  · rw [delayOverride, ho, Option.bind_some]
    exact lookup_parseOverrides findRule_tvDelay (by decide) (by decide)
      (hsound.rulesOf.get ho).1 hparse

theorem exists_ofJson_delayOverride {v : Json} (hvalue : ofJson config = some value)
    (h : delayOverride config = some v) : ∃ x, ofJson v = some x := by
  obtain ⟨o, ho, hv⟩ := Option.bind_eq_some_iff.mp h
  rw [rulesOf] at ho
  cases hr : obj config "rules" with
  | none =>
    rw [hr] at ho
    cases ho
  | some r =>
    rw [hr] at ho
    obtain ⟨rv, hrv⟩ := exists_ofJson_of_find hvalue (Option.filter_eq_some_iff.mp hr).1
    obtain ⟨ov, hov⟩ := exists_ofJson_of_find hrv ho
    exact exists_ofJson_of_find hov hv

theorem intIn_of_toRat {x : Binary64} {n bound : ℤ} (hfinite : x.isFinite = true) (h : x.toRat = n)
    (hlow : 0 ≤ n) (hhigh : n ≤ bound) : Broadcast.intIn (.number x) bound = some n := by
  have hwhole := Binary64.isWhole_of_toRat hfinite h
  have hint : x.toInt = n := by
    have hcast := (Binary64.toInt_of_isWhole hfinite hwhole).trans h
    exact_mod_cast hcast
  rw [Broadcast.intIn, if_pos, hint]
  rw [h]
  exact ⟨hfinite, hwhole, by exact_mod_cast hlow, by exact_mod_cast hhigh⟩

/-- A delay that the rules take as an override is the same integer for the profile. -/
theorem intIn_ofJson {v : Json} {x : Value} {y : RuleValue} (hx : ofJson v = some x)
    (h : parseLeaf tvDelayRule v = .ok y) : ∃ n : ℤ, y = .int n ∧ 0 ≤ n ∧
      Broadcast.intIn x Broadcast.maxDelaySeconds = some n := by
  unfold parseLeaf tvDelayRule at h
  dsimp only at h
  split at h
  · cases h
  · rename_i n hn
    split_ifs at h with hrange
    cases h
    rw [not_or, not_lt, not_lt] at hrange
    refine ⟨n, rfl, hrange.1, ?_⟩
    have hsmall : n.natAbs < 2 ^ 53 := by omega
    cases v with
    | int i =>
      cases hn
      cases hx
      obtain ⟨hfinite, hrat⟩ := Binary64.toRat_ofInt hsmall
      exact intIn_of_toRat hfinite hrat hrange.1 hrange.2
    | double d =>
      rw [wholeNumber] at hn
      split_ifs at hn with hwhole
      cases hn
      have hmag := Binary64.magnitude_of_isWhole hwhole.1 hwhole.2.1
      have htoken := Binary64.formatG_whole hmag (by omega : d.toInt.natAbs < 10 ^ 10)
      have hvalue : (d.formatG 10).strtod = Binary64.ofRat d.neg (d.toInt.natAbs : ℕ) := by
        rw [NumToken.strtod, htoken]
        simp [NumToken.value, NumToken.expValue, ofDigits_decimal]
      have hsigned : signed d.neg (d.toInt.natAbs : ℕ) = d.toInt := by
        rw [← hmag, Binary64.toInt_of_isWhole hwhole.1 hwhole.2.1]
        rfl
      obtain ⟨hfinite, hrat⟩ := Binary64.toRat_ofRat_natCast d.neg hsmall
      rw [ofJson, Json.readAs, if_pos hwhole.1, ofDouble, hvalue] at hx
      split_ifs at hx
      cases hx
      exact intIn_of_toRat hfinite (hrat.trans hsigned) hrange.1 hrange.2
    | _ => cases hn

theorem ofJson_eq_string {v : Json} {s : Bytes} :
    (ofJson v).bind Value.asString = some s ↔ v = .string s := by
  constructor
  · intro h
    obtain ⟨x, hx, hs⟩ := Option.bind_eq_some_iff.mp h
    cases v with
    | string t =>
      cases hx
      cases hs
      rfl
    | double d =>
      rw [ofJson, Json.readAs, ofDouble] at hx
      split_ifs at hx <;> cases hx <;> cases hs
    | object ms =>
      obtain ⟨o, -, rfl⟩ := Option.map_eq_some_iff.mp hx
      cases hs
    | array vs =>
      obtain ⟨o, -, rfl⟩ := Option.map_eq_some_iff.mp hx
      cases hs
    | _ =>
      cases hx
      cases hs
  · rintro rfl
    rfl

/-- The profile reads off the rules of the configuration: the override of the delay, or else
whether the ruleset is spelled as `valve`. -/
theorem rulesFloor_ofJson (hrules : (get config "rules").all (·.isObject) = true)
    (hvalue : ofJson config = some value) : Broadcast.rulesFloor value =
      match ((delayOverride config).bind ofJson).bind
        (Broadcast.intIn · Broadcast.maxDelaySeconds) with
      | some n => max 0 n
      | none =>
        if str (rulesOf config) "ruleset" [] = ascii "valve" then Broadcast.valveDelaySeconds
        else 0 := by
  have hget := get_ofJson hvalue "rules"
  rw [Broadcast.rulesFloor, hget, delayOverride, rulesOf, obj]
  have hfind : config.find (ascii "rules") = get config "rules" := rfl
  rw [hfind]
  cases hr : get config "rules" with
  | none => rfl
  | some r =>
    obtain ⟨rv, hrv⟩ := exists_ofJson_of_find hvalue hr
    rw [hr, Option.all_some] at hrules
    rw [Option.bind_some, hrv, Option.filter_some, if_pos hrules, Option.getD_some]
    have hobject : rv.isObject = true := (isObject_ofJson hrv).trans hrules
    cases rv with
    | object o =>
      dsimp only
      have hoverrides : ((Value.object o).get "overrides").bind (fun ov => (ov.get "tv_delay").bind
          (Broadcast.intIn · Broadcast.maxDelaySeconds)) =
            (((get r "overrides").bind (·.find (ascii "tv_delay"))).bind ofJson).bind
              (Broadcast.intIn · Broadcast.maxDelaySeconds) := by
        rw [get_ofJson hrv]
        have hkey : r.find (ascii "overrides") = get r "overrides" := rfl
        rw [hkey]
        cases ho : get r "overrides" with
        | none => rfl
        | some o =>
          obtain ⟨ov, hov⟩ := exists_ofJson_of_find hrv ho
          rw [Option.bind_some, hov, Option.bind_some, Option.bind_some, get_ofJson hov]
      have hruleset : ((Value.object o).get "ruleset").bind Value.asString = some (ascii "valve") ↔
          str r "ruleset" [] = ascii "valve" := by
        rw [get_ofJson hrv, str]
        have hkey : r.find (ascii "ruleset") = get r "ruleset" := rfl
        rw [hkey]
        have hnil : [] ≠ ascii "valve" := by decide
        cases get r "ruleset" with
        | none => exact iff_of_false (fun h => by cases h) hnil
        | some v =>
          rw [Option.bind_some, ofJson_eq_string]
          cases v with
          | string s => exact ⟨fun h => Json.string.inj h, fun h => congrArg Json.string h⟩
          | _ => exact iff_of_false (fun h => by cases h) hnil
      rw [hoverrides]
      generalize (((get r "overrides").bind _).bind ofJson).bind _ = override
      cases override with
      | some n => rfl
      | none => exact if_congr hruleset rfl rfl
    | _ => cases hobject

/-- The text of the delay among the cvars, as the profile reads it. -/
def cvarDelayText (value : Value) : Option Bytes :=
  (value.get "cvars").bind fun cv => (cv.get "tv_delay").bind Broadcast.cvarText

/-- The floor that the cvars of the match give. -/
def cvarsFloor (value : Value) : ℤ :=
  match cvarDelayText value with
  | none => 0
  | some t => min (Broadcast.cvarInt t) Broadcast.maxDelaySeconds

theorem delayFloor_eq (value : Value) :
    Broadcast.delayFloor value = max (max (Broadcast.rulesFloor value) (cvarsFloor value)) 0 := by
  unfold Broadcast.delayFloor cvarsFloor cvarDelayText
  generalize (value.get "cvars").bind _ = seconds
  cases seconds with
  | none =>
    dsimp only
    omega
  | some t => rfl

theorem cvarsFloor_le (value : Value) : cvarsFloor value ≤ 960 := by
  rw [cvarsFloor]
  split
  · decide
  · exact min_le_right _ _

theorem valve_le_cvarsFloor :
    105 ≤ cvarsFloor value ↔ ∃ t, cvarDelayText value = some t ∧ 105 ≤ Broadcast.cvarInt t := by
  rw [cvarsFloor]
  cases cvarDelayText value with
  | none => simp
  | some t => simp [Broadcast.maxDelaySeconds]

theorem rulesFloor_le (value : Value) : Broadcast.rulesFloor value ≤ 960 := by
  have hbound : ∀ v n, Broadcast.intIn v Broadcast.maxDelaySeconds = some n → n ≤ 960 := by
    intro v n h
    unfold Broadcast.intIn at h
    split at h
    · rename_i d
      split_ifs at h with hd
      cases h
      have hint := Binary64.toInt_of_isWhole hd.1 hd.2.1
      have hle : (d.toInt : ℚ) ≤ (960 : ℤ) := by
        rw [hint]
        exact hd.2.2.2
      exact_mod_cast hle
    · cases h
  rw [Broadcast.rulesFloor]
  split
  · dsimp only
    split
    · rename_i n hn
      obtain ⟨ov, -, hn⟩ := Option.bind_eq_some_iff.mp hn
      obtain ⟨v, -, hn⟩ := Option.bind_eq_some_iff.mp hn
      exact max_le (by decide) (hbound v n hn)
    · split_ifs <;> decide
  · decide

/-- What the match reads of its cvars is the floor that they give, up to the bound of the
profile. -/
theorem cvarsFloor_of_delayOfCvars {i : ℤ} (hvalue : ofJson config = some value)
    (h : delayOfCvars config = some (.int i)) (hi : 0 < i) (hmax : i ≤ 960) :
    cvarsFloor value = i := by
  obtain ⟨t, ht, hread⟩ := Option.bind_eq_some_iff.mp h
  obtain ⟨v, hv, rfl⟩ := Option.map_eq_some_iff.mp ht
  have hlookup := (Option.filter_eq_some_iff.mp hv).1
  cases hc : obj config "cvars" with
  | none =>
    rw [hc] at hlookup
    cases hlookup
  | some c =>
    rw [hc] at hlookup
    have hfind : config.find (ascii "cvars") = some c := (Option.filter_eq_some_iff.mp hc).1
    have hmember : c.find (ascii "tv_delay") = some v := hlookup
    obtain ⟨cv, hcv⟩ := exists_ofJson_of_find hvalue hfind
    obtain ⟨x, hx⟩ := exists_ofJson_of_find hcv hmember
    obtain ⟨t, hxt, hint⟩ := cvarInt_ofJson hx hread hi (by omega)
    rw [cvarsFloor, cvarDelayText, get_ofJson hvalue, hfind, Option.bind_some, hcv,
      Option.bind_some, get_ofJson hcv, hmember, Option.bind_some, hx, Option.bind_some, hxt]
    dsimp only
    rw [hint]
    exact min_eq_left hmax

theorem int_of_delayOfCvars {x : RuleValue} (h : delayOfCvars config = some x) :
    ∃ i, x = .int i := by
  obtain ⟨t, -, hread⟩ := Option.bind_eq_some_iff.mp h
  unfold fromCvarText tvDelayRule at hread
  dsimp only at hread
  by_cases hnil : lower (trim t) = []
  · rw [if_pos hnil] at hread
    cases hread
  rw [if_neg hnil] at hread
  split at hread
  · split_ifs at hread
    cases hread
    exact ⟨_, rfl⟩
  · split_ifs at hread
    cases hread
    exact ⟨_, rfl⟩

end Floor

end Assign

section NeverBelow

open Assign

/-- Whatever the profile asks for, the broadcast is not ahead of what the match allows. -/
def NeverBelow (env : CommandEnv) (ctx : WebhookMatchContext) (value : Value) : Prop :=
  ∀ (p : Broadcast.Profile) (t : Bytes),
    (Broadcast.desiredCvars p (Broadcast.delayFloor value)).lookup "tv_delay" = some t →
    ∀ n, (effectiveRulesFor env ctx).values.lookup (ascii "tv_delay") = some (.int n) →
    ∃ d : ℤ, t = toDecimal d ∧ n ≤ d

/-- The configuration overrides the delay; or its cvars set one of at most 960 seconds; or they set
none, and the match does not play the valve ruleset, or the configuration spells it as `valve`, or
its cvars hold a number from 105 that only the profile reads. -/
def DelayCovered (server : Ruleset) (config : Json) (value : Value) : Prop :=
  delayOverride config ≠ none ∨
    match delayOfCvars config with
    | some (.int i) => i ≤ 960
    | _ =>
      chosenRuleset server (Assign.rulesOf config) = .ok .valve → wingman config = false →
        str (Assign.rulesOf config) "ruleset" [] = ascii "valve" ∨
          ∃ t, cvarDelayText value = some t ∧ 105 ≤ Broadcast.cvarInt t

variable {env : CommandEnv} {server : Ruleset} {ctx : WebhookMatchContext} {value : Value}

theorem lookup_desiredCvars (p : Broadcast.Profile) (floor : ℤ) :
    (Broadcast.desiredCvars p floor).lookup "tv_delay" =
      p.delaySeconds.map fun d => toDecimal (max d (max floor 0)) := by
  obtain ⟨delay, insecure, clients, chat, voice⟩ := p
  cases delay with
  | some d => rfl
  | none =>
    refine Eq.trans (lookup_eq_none.mpr ?_) rfl
    simp only [Broadcast.desiredCvars]
    cases insecure with
    | none => cases clients <;> cases chat <;> cases voice <;> simp
    | some b => cases b <;> cases clients <;> cases chat <;> cases voice <;> simp

theorem neverBelow_iff_le : NeverBelow env ctx value ↔
    ∀ n, (effectiveRulesFor env ctx).values.lookup (ascii "tv_delay") = some (.int n) →
      n ≤ Broadcast.delayFloor value := by
  have hfloor : 0 ≤ Broadcast.delayFloor value := by
    rw [delayFloor_eq]
    exact le_max_right _ _
  constructor
  · intro h n hn
    obtain ⟨d, hd, hle⟩ := h { delaySeconds := some 0 } _ (lookup_desiredCvars _ _) n hn
    rw [← toDecimal_injective hd] at hle
    omega
  · intro h p t ht n hn
    rw [lookup_desiredCvars] at ht
    obtain ⟨d, -, rfl⟩ := Option.map_eq_some_iff.mp ht
    refine ⟨_, rfl, ?_⟩
    have hle := h n hn
    omega

theorem delayFloor_le (value : Value) : Broadcast.delayFloor value ≤ 960 := by
  have hrules := rulesFloor_le value
  have hcvars := cvarsFloor_le value
  rw [delayFloor_eq]
  omega

/-- The broadcast is never ahead of what the match allows exactly where the profile reads the delay
that the rules read. -/
theorem neverBelow_iff {payload : Document} (hvalid : validateAssign server payload.value = .ok ())
    (henv : env.server = server)
    (hctx : contextOf server (matchIdOf payload.value) (assigned payload.value) = .ok ctx)
    (hvalue : Minijson.parse (assigned payload.value).dump = some value) :
    NeverBelow env ctx value ↔ DelayCovered server (assigned payload.value) value := by
  have hpayload : Sound payload.value := ⟨payload.uniqueKeys, payload.inRange⟩
  obtain ⟨config, hconfig, haccepted⟩ := accepted_of_validateAssign hvalid
  have hassigned : assigned payload.value = config := by rw [assigned, hconfig, Option.getD_some]
  rw [hassigned] at hctx hvalue ⊢
  have hsound := hpayload.obj hconfig
  obtain ⟨⟨rs, overrides⟩, hchoice⟩ := exists_ruleChoice haccepted.ruleset
  rw [parse_dump hsound.1 hsound.2] at hvalue
  have hrules := rulesFloor_ofJson haccepted.rules hvalue
  have hbound := delayFloor_le value
  rw [neverBelow_iff_le, values_tvDelay hsound henv hchoice hctx, DelayCovered]
  rcases override_tvDelay hsound hchoice with ⟨hnone, hlookup⟩ | ⟨v, x, hv, hleaf, hlookup⟩
  · rw [hnone] at hrules ⊢
    rw [hlookup, Option.none_or, or_iff_right (not_not.mpr rfl)]
    cases hcvar : delayOfCvars config with
    | some y =>
      obtain ⟨i, rfl⟩ := int_of_delayOfCvars hcvar
      rw [Option.some_or]
      constructor
      · intro h
        exact (h i rfl).trans hbound
      · rintro hle n hn
        cases hn
        rcases le_or_gt i 0 with hi | hi
        · rw [delayFloor_eq]
          omega
        · have hfloor := cvarsFloor_of_delayOfCvars hvalue hcvar hi hle
          rw [delayFloor_eq]
          omega
    | none =>
      rw [Option.none_or, (ruleChoice_ok hchoice).1, ← valve_le_cvarsFloor]
      cases hplayed : playedRuleset rs config with
      | default =>
        refine iff_of_true (fun n hn => by cases hn) ?_
        rintro hvalve hwingman
        cases hvalve
        rw [playedRuleset, if_neg (by rw [hwingman]; simp)] at hplayed
        cases hplayed
      | valve =>
        obtain ⟨rfl, hwingman⟩ : rs = .valve ∧ wingman config = false := by
          rw [playedRuleset] at hplayed
          split_ifs at hplayed with hcond
          exact ⟨hplayed, by simpa [hplayed] using hcond⟩
        have hfloor : 105 ≤ Broadcast.delayFloor value ↔
            str (Assign.rulesOf config) "ruleset" [] = ascii "valve" ∨ 105 ≤ cvarsFloor value := by
          dsimp only [Option.bind_none] at hrules
          rw [delayFloor_eq, hrules]
          by_cases hnamed : str (Assign.rulesOf config) "ruleset" [] = ascii "valve"
          · simp [hnamed, Broadcast.valveDelaySeconds]
          · simp [hnamed]
        rw [← hfloor]
        constructor
        · intro h _ _
          exact h 105 rfl
        · intro h n hn
          cases hn
          exact h rfl hwingman
  · obtain ⟨y, hy⟩ := exists_ofJson_delayOverride hvalue hv
    obtain ⟨n, rfl, hn, hint⟩ := intIn_ofJson hy hleaf
    rw [hv, Option.bind_some, hy, Option.bind_some, hint] at hrules
    rw [hlookup, Option.some_or, Option.some_or, hv]
    refine iff_of_true ?_ (.inl (Option.some_ne_none v))
    rintro m hm
    cases hm
    rw [delayFloor_eq, hrules]
    exact le_max_of_le_left (le_max_of_le_left (le_max_right 0 n))

example : Broadcast.cvarInt (ascii "105") = 105 := by decide +kernel

theorem neverBelow_plain : ∃ ctx value,
    contextOf .default (matchIdOf plainPayload.value) (assigned plainPayload.value) = .ok ctx ∧
      Minijson.parse (assigned plainPayload.value).dump = some value ∧ NeverBelow {} ctx value := by
  have hvalue : (Minijson.parse (assigned plainPayload.value).dump).isSome =
      true := by decide +kernel
  have hcvars : delayOfCvars (assigned plainPayload.value) = none := by decide
  have hplayed :
      chosenRuleset .default (Assign.rulesOf (assigned plainPayload.value)) = .ok .default := by rfl
  obtain ⟨ctx, hctx⟩ := built_plainPayload
  obtain ⟨value, hvalue⟩ := Option.isSome_iff_exists.mp hvalue
  refine ⟨ctx, value, hctx, hvalue,
    (neverBelow_iff valid_plainPayload rfl hctx hvalue).mpr (.inr ?_)⟩
  rw [hcvars, hplayed]
  exact fun h => by cases h

/-- A match whose sides are set, as the valve ruleset asks for. -/
def sidedPayload : Document where
  value :=
    let map :=
      ofFields [("name", some (.string (ascii "de_dust2"))),
        ("sides", some (.string (ascii "team1_ct")))]
    plainPayload.value.set (ascii "config")
      ((assigned plainPayload.value).set (ascii "maps") (.array [map]))
  uniqueKeys := by decide
  inRange := by decide

/-- The valve ruleset of the server delays the broadcast of this match by 105 seconds; the profile
may ask for none at all. -/
theorem live_below_valve : ∃ ctx value,
    validateAssign .valve sidedPayload.value = .ok () ∧
      contextOf .valve (matchIdOf sidedPayload.value) (assigned sidedPayload.value) = .ok ctx ∧
      Minijson.parse (assigned sidedPayload.value).dump = some value ∧
      (effectiveRulesFor { server := .valve } ctx).values.lookup (ascii "tv_delay") =
        some (.int 105) ∧
      (Broadcast.desiredCvars { delaySeconds := some 0 } (Broadcast.delayFloor value)).lookup
        "tv_delay" = some (ascii "0") ∧
      ¬NeverBelow { server := .valve } ctx value := by
  have hvalid : (validateAssign .valve sidedPayload.value).toOption = some () := by decide +kernel
  have hdelay :
      (contextOf .valve (matchIdOf sidedPayload.value) (assigned sidedPayload.value)).toOption.bind
        (fun ctx =>
      (effectiveRulesFor { server := .valve } ctx).values.lookup (ascii "tv_delay")) =
      some (.int 105) := by
    decide +kernel
  have hfloor :
      (Minijson.parse (assigned sidedPayload.value).dump).map Broadcast.delayFloor = some 0 := by
    decide +kernel
  obtain ⟨ctx, hctx, hdelay⟩ := Option.bind_eq_some_iff.mp hdelay
  obtain ⟨value, hvalue, hfloor⟩ := Option.map_eq_some_iff.mp hfloor
  have hsent :
      (Broadcast.desiredCvars { delaySeconds := some 0 } (Broadcast.delayFloor value)).lookup
        "tv_delay" =
      some (ascii "0") := by
    rw [hfloor]
    decide
  refine ⟨ctx, value, eq_ok_of_toOption hvalid, eq_ok_of_toOption hctx, hvalue, hdelay, hsent,
    fun h => ?_⟩
  have hle := neverBelow_iff_le.mp h 105 hdelay
  omega

end NeverBelow

end ReadyUp.Config
