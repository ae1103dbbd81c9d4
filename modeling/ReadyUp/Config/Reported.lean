import ReadyUp.Config.Commands
import ReadyUp.Config.Effective
import ReadyUp.Support.FloatText

/-!
# Reported rules and sent rules

The effective rules of a match are reported to the platform, and its commands set them. An override
is reported and sent from the same value. A cvar of the match is read one way for the report
(`FromCvarText` trims it and takes any number) and filtered another way before it is sent
(`IsSafeConvarValue`), so a rule can be reported that was never sent (`reportedAsSent_iff`).

The console does not tell capital letters apart in the name of a cvar, the map of the match does:
with two spellings of one name the report looks at one, and the console keeps the one that comes
last in the order in which the map is gone through. The list of cvars is in that order.
-/
namespace ReadyUp.Config

open Support Command Status

section Sent

def argumentValue : Argument → Bytes
  | .bare s => s
  | .quoted s => s

/-- The arguments of the last command for a cvar, in capital letters or not. -/
def lastSent (commands : List Command) (cvar : Bytes) : Option (List Bytes) :=
  (commands.reverse.find? (lower ·.verb == lower cvar)).map fun c => c.args.map argumentValue

theorem lastSent_append (l l' : List Command) (cvar : Bytes) :
    lastSent (l ++ l') cvar = (lastSent l' cvar).or (lastSent l cvar) := by
  rw [lastSent, List.reverse_append, List.find?_append, Option.map_or]
  rfl

theorem lastSent_cons (c : Command) (l : List Command) (cvar : Bytes) :
    lastSent (c :: l) cvar =
      (lastSent l cvar).or (if lower c.verb = lower cvar then
        some (c.args.map argumentValue) else none) := by
  rw [← List.singleton_append, lastSent_append]
  congr 1
  by_cases h : lower c.verb = lower cvar <;> simp [lastSent, h]

theorem lastSent_eq_none {l : List Command} {cvar : Bytes}
    (h : ∀ c ∈ l, lower c.verb ≠ lower cvar) : lastSent l cvar = none := by
  rw [lastSent, Option.map_eq_none_iff, List.find?_eq_none]
  intro c hc
  rw [beq_iff_eq]
  exact h c (List.mem_reverse.mp hc)

/-- Commands for the members of a list, each with a verb of its own. -/
theorem lastSent_filterMap {α : Type} (f : α → Option Command) (verb : α → Option Bytes)
    (hverb : ∀ a c, f a = some c → verb a = some (lower c.verb)) {l : List α}
    (hnodup : (l.filterMap verb).Nodup) {a : α} (ha : a ∈ l) {cvar : Bytes}
    (hcvar : verb a = some (lower cvar)) :
    lastSent (l.filterMap f) cvar = (f a).map fun c => c.args.map argumentValue := by
  induction l with
  | nil => cases ha
  | cons b l ih =>
    have hother : ∀ l : List α, lower cvar ∉ l.filterMap verb →
        ∀ c ∈ l.filterMap f, lower c.verb ≠ lower cvar := by
      intro l hnot c hc heq
      obtain ⟨x, hx, hfx⟩ := List.mem_filterMap.mp hc
      exact hnot (List.mem_filterMap.mpr ⟨x, hx, heq ▸ hverb x c hfx⟩)
    have hrest : (l.filterMap verb).Nodup :=
      hnodup.sublist ((List.sublist_cons_self b l).filterMap verb)
    rcases List.mem_cons.mp ha with rfl | hmem
    · rw [List.filterMap_cons_some hcvar, List.nodup_cons] at hnodup
      cases hf : f a with
      | none =>
        rw [List.filterMap_cons_none hf]
        exact lastSent_eq_none (hother l hnodup.1)
      | some c =>
        rw [List.filterMap_cons_some hf, lastSent_cons, lastSent_eq_none (hother l hnodup.1)]
        have hsame : lower c.verb = lower cvar := Option.some.inj ((hverb a c hf).symm.trans hcvar)
        rw [if_pos hsame]
        rfl
    · rw [← ih hrest hmem]
      cases hf : f b with
      | none => rw [List.filterMap_cons_none hf]
      | some c =>
        rw [List.filterMap_cons_some (hverb b c hf), List.nodup_cons] at hnodup
        have hne : lower c.verb ≠ lower cvar := by
          intro heq
          exact hnodup.1 (List.mem_filterMap.mpr ⟨a, hmem, heq ▸ hcvar⟩)
        rw [List.filterMap_cons_some hf, lastSent_cons, if_neg hne, Option.or_none]

end Sent

section Reported

variable (env : CommandEnv) (ctx : WebhookMatchContext)

def overridesOf : RuleMap := (parseOverridesText ctx.overridesJson).getD []

/-- The text of a cvar means the value of a rule, a number to the last digit. -/
def Means (text : Bytes) : RuleValue → Prop
  | .bool b => lower (trim text) ∈ if b then [ascii "1", ascii "true"]
      else [ascii "0", ascii "false"]
  | .int i => numberIn (lower (trim text)) = some (i : ℚ)
  | _ => False

/-- A rule that comes from the cvars of the match or an override is the one that was sent last. -/
def ReportedAsSent (r : RuleInfo) : Prop :=
  ∀ cvar v, r.cvar = some cvar → (effectiveRulesFor env ctx).values.lookup r.key = some v →
    (effectiveRulesFor env ctx).source.lookup r.key = some .cvars ∨
      (effectiveRulesFor env ctx).source.lookup r.key = some .override →
    ∃ text, lastSent (applyMatchCvars env ctx) cvar = some [text] ∧ Means text v

/-- The text is a whole number of 64 bits that is a double. -/
def Exact (text : Bytes) : Prop :=
  ∃ n : ℤ, numberIn (lower (trim text)) = some (n : ℚ) ∧ -2 ^ 63 ≤ n ∧ n < 2 ^ 63 ∧
  (Binary64.ofInt n).toRat = n

/-- The last of the cvars that is set under this name, in capital letters or not. -/
def lastCvar (cvars : List (Bytes × Bytes)) (cvar : Bytes) : Option (Bytes × Bytes) :=
  cvars.reverse.find? fun kv =>
    lower kv.1 == lower cvar && isSafeConvarKey kv.1 && isSafeConvarValue kv.2

/-- Where the rule can read its cvar and has no override, the last cvar of that name that passes the
filters of the commands reads as the same value, and its number is exact. -/
def Playable (r : RuleInfo) : Prop :=
  ∀ cvar text v, r.cvar = some cvar → ctx.cvars.lookup cvar = some text →
    fromCvarText r text = some v →
    overrideOf (overridesOf ctx) r.key = none →
    ∃ kv, lastCvar ctx.cvars cvar = some kv ∧ fromCvarText r kv.2 = some v ∧
    (r.kind = .int → Exact kv.2)

variable {env ctx} {r : RuleInfo} {cvar text : Bytes} {v : RuleValue}

section Values

/-- The text of a number has no blanks and no capital letters. -/
theorem lower_trim_text {n : NumToken} (h : n.WellFormed) : lower (trim n.text) = n.text := by
  have hmarks :
      ∀ c ∈ [byte '-', byte '.', byte 'e', byte '+'], isBlank c = false ∧ toLower c = c := by
    simp only [List.forall_mem_cons]
    exact ⟨by decide, by decide, by decide, by decide, fun _ h => by cases h⟩
  have hbyte : ∀ c ∈ n.text, isBlank c = false ∧ toLower c = c := by
    intro c hc
    rcases JsonScan.byte_of_mem_text h hc with hdigit | hmark
    · refine ⟨?_, toLower_digit hdigit⟩
      obtain ⟨d, hd, rfl⟩ := exists_digit hdigit
      interval_cases d <;> rfl
    · exact hmarks c hmark
  rw [trim, trimBy_eq_self fun c hc => (hbyte c hc).1, lower, List.map_congr_left fun c hc =>
    (hbyte c hc).2, List.map_id']

theorem lower_trim_toDecimal (i : ℤ) : lower (trim (toDecimal i)) = toDecimal i := by
  rw [← JsonScan.intToken_text, lower_trim_text (JsonScan.intToken_wellFormed i)]

theorem means_cvarValue {kind : RuleValue.Kind} (hkind : v.hasKind kind = true)
    (hstr : kind ≠ .str) : Means v.cvarValue v := by
  cases v with
  | bool b =>
    rw [Means]
    cases b <;> decide
  | int i =>
    rw [Means, RuleValue.cvarValue, lower_trim_toDecimal]
    exact numberIn_toDecimal i
  | str s =>
    cases kind with
    | str => exact absurd rfl hstr
    | _ => cases hkind
  | none => cases hkind

theorem means_int_iff (h : fromCvarText r text = some v) (hkind : r.kind = .int) :
    Means text v ↔ Exact text := by
  unfold fromCvarText at h
  dsimp only at h
  rw [hkind] at h
  dsimp only at h
  by_cases hnil : lower (trim text) = []
  · rw [if_pos hnil] at h
    cases h
  rw [if_neg hnil, strtod] at h
  cases hfloat : floatPrefix (lower (trim text)) with
  | none =>
    rw [hfloat, Option.map_none] at h
    dsimp only at h
    split_ifs at h
    cases h
    simp [Means, Exact, numberIn, hfloat]
  | some x =>
    obtain ⟨neg, t, rest⟩ := x
    rw [hfloat, Option.map_some] at h
    dsimp only at h
    split_ifs at h with hcond
    cases h
    cases t with
    | inf => simp [Means, Exact, numberIn, hfloat]
    | nan => simp [Means, Exact, numberIn, hfloat]
    | num q =>
      have hnumber : numberIn (lower (trim text)) = some (signed neg q) := by
        rw [numberIn, hfloat]
        exact if_pos hcond.1
      rw [Means, Exact, hnumber]
      constructor
      · intro hmeans
        have hsigned := Option.some.inj hmeans
        have hconv := (Binary64.toInt64_ofRat (nonneg_floatPrefix hfloat) hcond.2 hsigned).mp rfl
        exact ⟨_, hmeans, hconv⟩
      · rintro ⟨n, hn, hexact⟩
        have hconv :=
          (Binary64.toInt64_ofRat (nonneg_floatPrefix hfloat) hcond.2 (Option.some.inj hn)).mpr
            hexact
        rw [hn, FloatText.value, hconv]

/-- A text that is read means what is read, unless its number is not exact. -/
theorem means_iff (h : fromCvarText r text = some v) :
    Means text v ↔ (r.kind = .int → Exact text) := by
  cases hkind : r.kind with
  | int =>
    rw [means_int_iff h hkind]
    exact ⟨fun hexact _ => hexact, fun hexact => hexact rfl⟩
  | bool =>
    refine iff_of_true ?_ (fun hint => by cases hint)
    unfold fromCvarText at h
    dsimp only at h
    rw [hkind] at h
    dsimp only at h
    split_ifs at h with htrue hfalse
    · cases h
      simpa [Means] using htrue
    · cases h
      simpa [Means] using hfalse
  | str =>
    unfold fromCvarText at h
    dsimp only at h
    rw [hkind] at h
    cases h

/-- What is read is of the kind of the rule, and a number is exact. -/
theorem hasKind_fromCvarText (h : fromCvarText r text = some v) :
    v.hasKind r.kind = true ∧ ∀ i, v = .int i →
      -2 ^ 63 ≤ i ∧ i < 2 ^ 63 ∧ (Binary64.ofInt i).toRat = i := by
  unfold fromCvarText at h
  cases hkind : r.kind with
  | bool =>
    rw [hkind] at h
    dsimp only at h
    split_ifs at h <;> cases h <;> exact ⟨rfl, fun i hi => by cases hi⟩
  | int =>
    rw [hkind] at h
    dsimp only at h
    by_cases hnil : lower (trim text) = []
    · rw [if_pos hnil] at h
      cases h
    rw [if_neg hnil] at h
    cases hread : strtod (lower (trim text)) with
    | none =>
      rw [hread] at h
      dsimp only at h
      split_ifs at h
      cases h
      refine ⟨rfl, fun i hi => ?_⟩
      cases hi
      exact ⟨by decide, by decide, (Binary64.toRat_ofInt (by decide)).2⟩
    | some x =>
      rw [hread] at h
      dsimp only at h
      split_ifs at h with hcond
      cases h
      refine ⟨rfl, fun i hi => ?_⟩
      cases hi
      exact Binary64.exact_toInt64 hcond.2
  | str =>
    rw [hkind] at h
    cases h

theorem fromCvarText_of_numberIn {i : ℤ} (hkind : r.kind = .int)
    (hnumber : numberIn (lower (trim text)) = some (i : ℚ)) (hlow : -2 ^ 63 ≤ i)
    (hhigh : i < 2 ^ 63)
    (hrat : (Binary64.ofInt i).toRat = i) : fromCvarText r text = some (.int i) := by
  rw [numberIn] at hnumber
  split at hnumber
  · rename_i neg q rest hfloat
    split_ifs at hnumber with hend
    have hq := nonneg_floatPrefix hfloat
    have hsigned := Option.some.inj hnumber
    obtain ⟨hfinite, hint⟩ := Binary64.toRat_ofRat_of_exact hq hsigned hlow hhigh hrat
    have hwhole := Binary64.isWhole_of_toRat hfinite hint
    have hvalue := (Binary64.toInt64_ofRat hq hwhole hsigned).mpr ⟨hlow, hhigh, hrat⟩
    have hne : lower (trim text) ≠ [] := by
      intro hnil
      rw [hnil] at hfloat
      cases hfloat
    rw [fromCvarText, hkind]
    dsimp only
    rw [if_neg hne, strtod, hfloat, Option.map_some]
    dsimp only [FloatText.value]
    rw [if_pos ⟨hend, hwhole⟩, hvalue]
  · cases hnumber

/-- Another text means what was read exactly when it reads so and is exact. -/
theorem means_iff_read (h : fromCvarText r text = some v) (t : Bytes) :
    Means t v ↔ fromCvarText r t = some v ∧ (r.kind = .int → Exact t) := by
  refine ⟨fun hmeans => ?_, fun hread => (means_iff hread.1).mpr hread.2⟩
  suffices hread : fromCvarText r t = some v from ⟨hread, (means_iff hread).mp hmeans⟩
  obtain ⟨hkind, hexact⟩ := hasKind_fromCvarText h
  cases v with
  | bool b =>
    have hkind : r.kind = .bool := by
      cases hk : r.kind with
      | bool => rfl
      | int | str => rw [hk] at hkind; cases hkind
    rw [fromCvarText, hkind]
    dsimp only
    rw [Means] at hmeans
    cases b with
    | true => rw [if_pos (by simpa using hmeans)]
    | false =>
      have hfalse :
          lower (trim t) = ascii "0" ∨ lower (trim t) = ascii "false" := by simpa using hmeans
      have htrue : ¬(lower (trim t) = ascii "1" ∨ lower (trim t) = ascii "true") := by
        rcases hfalse with heq | heq
        · rw [heq]
          decide
        · rw [heq]
          decide
      rw [if_neg htrue, if_pos hfalse]
  | int i =>
    have hkind : r.kind = .int := by
      cases hk : r.kind with
      | int => rfl
      | bool | str => rw [hk] at hkind; cases hkind
    obtain ⟨hlow, hhigh, hrat⟩ := hexact i rfl
    exact fromCvarText_of_numberIn hkind hmeans hlow hhigh hrat
  | str s => cases hmeans
  | none => cases hmeans

end Values

section Commands

theorem nodup_cvars : (ruleTable.filterMap fun r => r.cvar.map lower).Nodup := by decide

theorem cvar_ne : ∀ r ∈ ruleTable, ∀ c ∈ r.cvar,
    lower c ∉ [ascii "mp_teamname_1", ascii "mp_teamname_2", ascii "mp_teamflag_1",
      ascii "mp_teamflag_2",
      ascii "mp_match_can_clinch", ascii "tv_broadcast_url", ascii "tv_broadcast",
      ascii "tv_allow_camera_man_steamid"].map lower := by
  decide

theorem lastSent_teamNameCmds (hr : r ∈ ruleTable) (hcvar : r.cvar = some cvar) :
    lastSent (teamNameCmds env ctx ++ clinchCmds env ctx) cvar = none := by
  have hne := cvar_ne r hr cvar hcvar
  simp only [List.map_cons, List.map_nil, List.mem_cons, List.not_mem_nil, or_false, not_or] at hne
  apply lastSent_eq_none
  intro c hc
  rw [List.mem_append, teamNameCmds, clinchCmds] at hc
  rcases hc with hc | hc
  · split at hc
    · simp only [List.mem_cons, List.not_mem_nil, or_false] at hc
      rcases hc with rfl | rfl | rfl | rfl
      exacts [Ne.symm hne.1, Ne.symm hne.2.1, Ne.symm hne.2.2.1, Ne.symm hne.2.2.2.1]
    · simp only [List.mem_cons, List.not_mem_nil, or_false] at hc
      rcases hc with rfl | rfl | rfl | rfl
      exacts [Ne.symm hne.1, Ne.symm hne.2.1, Ne.symm hne.2.2.1, Ne.symm hne.2.2.2.1]
  · split at hc
    · cases hc
    · rw [List.mem_singleton] at hc
      subst hc
      exact Ne.symm hne.2.2.2.2.1

theorem lastSent_cvarCmds (cvar : Bytes) :
    lastSent (cvarCmds ctx) cvar = (lastCvar ctx.cvars cvar).map fun kv => [kv.2] := by
  rw [lastSent, cvarCmds, ← List.filterMap_reverse, List.find?_filterMap, lastCvar]
  have hsame : ∀ kv : Bytes × Bytes,
      ((if isSafeConvarKey kv.1 ∧ isSafeConvarValue kv.2 then
        some { verb := kv.1, args := [.bare kv.2] : Command } else none).any
        (lower ·.verb == lower cvar)) =
        (lower kv.1 == lower cvar && isSafeConvarKey kv.1 && isSafeConvarValue kv.2) := by
    intro kv
    by_cases hsafe : isSafeConvarKey kv.1 = true ∧ isSafeConvarValue kv.2 = true
    · simp [hsafe]
    · rw [if_neg hsafe, Bool.and_assoc]
      rw [← Bool.and_eq_true, Bool.not_eq_true] at hsafe
      rw [hsafe, Bool.and_false]
      rfl
  simp only [hsame]
  cases hfind : ctx.cvars.reverse.find? fun kv =>
      lower kv.1 == lower cvar && isSafeConvarKey kv.1 && isSafeConvarValue kv.2 with
  | none => rfl
  | some kv =>
    have hprop := List.find?_some hfind
    simp only [Bool.and_eq_true] at hprop
    rw [Option.bind_some, if_pos ⟨hprop.1.2, hprop.2⟩]
    rfl

theorem lastSent_ruleCommands (e : EffectiveRuleSet) (hr : r ∈ ruleTable)
    (hcvar : r.cvar = some cvar) :
    lastSent (ruleCommands e) cvar = (ruleCommand e r).map fun c => c.args.map argumentValue := by
  have hne := cvar_ne r hr cvar hcvar
  simp only [List.map_cons, List.map_nil, List.mem_cons, List.not_mem_nil, or_false, not_or] at hne
  have hverb : ∀ r c, ruleCommand e r = some c → r.cvar.map lower = some (lower c.verb) := by
    intro r c hc
    rw [ruleCommand] at hc
    split at hc
    · rename_i hcv _ _
      split_ifs at hc
      cases hc
      rw [hcv, Option.map_some]
    · cases hc
  rw [ruleCommands, lastSent_append, lastSent_append,
    lastSent_filterMap _ _ hverb nodup_cvars hr (by rw [hcvar, Option.map_some])]
  rw [lastSent_eq_none, lastSent_eq_none, Option.none_or, Option.none_or]
  · intro c hc
    split_ifs at hc
    · rcases List.mem_pair.mp hc with rfl | rfl
      exacts [Ne.symm hne.2.2.2.2.2.1, Ne.symm hne.2.2.2.2.2.2.1]
    · cases hc
  · intro c hc
    split_ifs at hc
    · rw [List.mem_singleton.mp hc]
      exact Ne.symm hne.2.2.2.2.2.2.2
    · cases hc

end Commands

section Match

theorem ruleCommand_effectiveRulesFor (hr : r ∈ ruleTable) (hcvar : r.cvar = some cvar) :
    ruleCommand (effectiveRulesFor env ctx) r =
      (overrideOf (overridesOf ctx) r.key).map fun v =>
        { verb := cvar, args := [.bare v.cvarValue] } := by
  rw [ruleCommand, effectiveRulesFor, values_resolveEffective _ hr,
    source_resolveEffective _ hr, hcvar]
  dsimp only
  rw [← overridesOf]
  cases hover : overrideOf (overridesOf ctx) r.key with
  | some v =>
    dsimp only [Option.map_some, Option.some_or]
    rw [if_pos (isSet_of_overrideOf hover).2]
  | none =>
    rw [Option.map_none, Option.none_or]
    split
    · rename_i hsource _
      cases hvalue : valueOfCvars ctx.cvars r with
      | some w =>
        rw [hvalue] at hsource
        cases hsource
      | none =>
        rw [hvalue, Option.map_none, Option.none_or] at hsource
        exact absurd hsource (source_startRules _ _ (by decide) (by decide) (by decide))
    · rfl

/-- What is sent for a rule: its override, or else the last of its cvars that passes the filters. -/
theorem lastSent_applyMatchCvars (hr : r ∈ ruleTable) (hcvar : r.cvar = some cvar) :
    lastSent (applyMatchCvars env ctx) cvar =
      ((overrideOf (overridesOf ctx) r.key).map fun v => [v.cvarValue]).or
        ((lastCvar ctx.cvars cvar).map fun kv => [kv.2]) := by
  rw [applyMatchCvars, lastSent_append, lastSent_append, lastSent_teamNameCmds hr hcvar,
    Option.or_none, lastSent_cvarCmds, lastSent_ruleCommands _ hr hcvar,
    ruleCommand_effectiveRulesFor hr hcvar, Option.map_map]
  rfl

/-- What is reported for a rule as set by the match: its override, or else the value of the
cvars. -/
theorem reported_iff (hr : r ∈ ruleTable) :
    ((effectiveRulesFor env ctx).values.lookup r.key = some v ∧
      ((effectiveRulesFor env ctx).source.lookup r.key = some .cvars ∨
        (effectiveRulesFor env ctx).source.lookup r.key = some .override)) ↔
      (overrideOf (overridesOf ctx) r.key).or (valueOfCvars ctx.cvars r) = some v := by
  rw [effectiveRulesFor, values_resolveEffective _ hr, source_resolveEffective _ hr, ← overridesOf]
  dsimp only
  cases overrideOf (overridesOf ctx) r.key with
  | some w => simp
  | none =>
    cases valueOfCvars ctx.cvars r with
    | some w => simp
    | none =>
      simp only [Option.map_none, Option.none_or, reduceCtorEq, iff_false, not_and, not_or]
      intro _
      exact ⟨source_startRules _ _ (by decide) (by decide) (by decide),
        source_startRules _ _ (by decide) (by decide) (by decide)⟩

theorem means_override (hr : r ∈ ruleTable) (hcvar : r.cvar = some cvar)
    (h : overrideOf (overridesOf ctx) r.key = some v) : Means v.cvarValue v := by
  obtain ⟨r', hr', hkind⟩ := typed_parseOverridesText ctx.overridesJson _ (isSet_of_overrideOf h).1
  have hsame : r'.kind = r.kind := by
    have hfind := kind_of_findRule r hr
    rw [hr'] at hfind
    exact Option.some.inj hfind
  exact means_cvarValue hkind (hsame ▸ kind_of_cvar r hr (by simp [hcvar]))

/-- Without an override, what is sent means what is read when the last cvar of the name reads so. -/
theorem sent_iff (hr : r ∈ ruleTable) (hcvar : r.cvar = some cvar)
    (hover : overrideOf (overridesOf ctx) r.key = none) (hvalue : fromCvarText r text = some v) :
    (∃ t, lastSent (applyMatchCvars env ctx) cvar = some [t] ∧ Means t v) ↔
      ∃ kv, lastCvar ctx.cvars cvar = some kv ∧ fromCvarText r kv.2 = some v ∧
      (r.kind = .int → Exact kv.2) := by
  rw [lastSent_applyMatchCvars hr hcvar, hover, Option.map_none, Option.none_or]
  cases lastCvar ctx.cvars cvar with
  | none => simp
  | some kv => simp [means_iff_read hvalue]

/-- A rule is reported as it was sent exactly when the last cvar of its name that passes the filters
of the commands says the value that is read from the cvar itself and is exact, or an override sets
the rule. -/
theorem reportedAsSent_iff (hr : r ∈ ruleTable) : ReportedAsSent env ctx r ↔ Playable ctx r := by
  constructor
  · intro h cvar text v hcvar htext hvalue hover
    have hreported :
        (overrideOf (overridesOf ctx) r.key).or (valueOfCvars ctx.cvars r) = some v := by
      rw [hover, valueOfCvars, hcvar, Option.none_or, Option.bind_some, htext]
      exact hvalue
    obtain ⟨hv, hsource⟩ := (@reported_iff env ctx r v hr).mpr hreported
    exact (sent_iff hr hcvar hover hvalue).mp (h cvar v hcvar hv hsource)
  · intro h cvar v hcvar hv hsource
    have hreported := (reported_iff hr).mp ⟨hv, hsource⟩
    cases hover : overrideOf (overridesOf ctx) r.key with
    | some w =>
      rw [hover] at hreported
      obtain rfl : w = v := Option.some.inj hreported
      refine ⟨w.cvarValue, ?_, means_override hr hcvar hover⟩
      rw [lastSent_applyMatchCvars hr hcvar, hover]
      rfl
    | none =>
      rw [hover, Option.none_or, valueOfCvars, hcvar, Option.bind_some] at hreported
      obtain ⟨text, htext, hvalue⟩ := Option.bind_eq_some_iff.mp hreported
      exact (sent_iff hr hcvar hover hvalue).mpr (h cvar text v hcvar htext hvalue hover)

example :
    isSafeConvarValue (ascii "15") = true ∧
    isSafeConvarValue (ascii " 15 ") = false := by decide +kernel

def freezetimeRule : RuleInfo :=
  { key := ascii "freezetime", kind := .int, cvar := ascii "mp_freezetime", min := 0, max := 120 }

/-- A match that sets the time before a round. -/
def freezetimeMatch (cvars : List (String × String)) : WebhookMatchContext :=
  { cvars := cvars.map fun kv => (ascii kv.1, ascii kv.2) }

/-- Two spellings of one cvar that say the same. -/
theorem reportedAsSent_freezetime : freezetimeRule ∈ ruleTable ∧
    ReportedAsSent {} (freezetimeMatch [("mp_freezetime", "15"), ("MP_FREEZETIME", "15.0")])
      freezetimeRule := by
  have hr : freezetimeRule ∈ ruleTable := List.mem_cons_self
  refine ⟨hr, (reportedAsSent_iff hr).mpr ?_⟩
  intro cvar text v hcvar htext hvalue _
  obtain rfl : ascii "mp_freezetime" = cvar := Option.some.inj hcvar
  obtain rfl : ascii "15" = text := Option.some.inj htext
  have hread :
      fromCvarText freezetimeRule (ascii "15.0") = fromCvarText freezetimeRule (ascii "15") := by
    decide +kernel
  exact ⟨(ascii "MP_FREEZETIME", ascii "15.0"), by decide, hread.trans hvalue,
    fun _ => ⟨15, by decide +kernel, by decide, by decide, by decide +kernel⟩⟩

/-- With blanks around it the time is reported, and nothing is sent. -/
theorem reported_not_sent :
    (effectiveRulesFor {} (freezetimeMatch [("mp_freezetime", " 15 ")])).values.lookup
      (ascii "freezetime") = some (.int 15) ∧
      (effectiveRulesFor {} (freezetimeMatch [("mp_freezetime", " 15 ")])).source.lookup
        (ascii "freezetime") = some .cvars ∧
      lastSent (applyMatchCvars {} (freezetimeMatch [("mp_freezetime", " 15 ")]))
        (ascii "mp_freezetime") = none ∧
      ¬ReportedAsSent {} (freezetimeMatch [("mp_freezetime", " 15 ")]) freezetimeRule := by
  have hvalue :
      (effectiveRulesFor {} (freezetimeMatch [("mp_freezetime", " 15 ")])).values.lookup
        (ascii "freezetime") =
      some (.int 15) := by decide +kernel
  have hsource :
      (effectiveRulesFor {} (freezetimeMatch [("mp_freezetime", " 15 ")])).source.lookup
        (ascii "freezetime") =
      some .cvars := by decide +kernel
  have hsent :
      lastSent (applyMatchCvars {} (freezetimeMatch [("mp_freezetime", " 15 ")]))
        (ascii "mp_freezetime") = none := by
    decide +kernel
  refine ⟨hvalue, hsource, hsent, ?_⟩
  intro h
  obtain ⟨text, htext, -⟩ := h _ _ rfl hvalue (.inl hsource)
  rw [hsent] at htext
  cases htext

end Match

end Reported

end ReadyUp.Config
