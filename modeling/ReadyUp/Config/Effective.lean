import ReadyUp.Config.Ruleset

/-!
# What decides a rule

`ResolveEffective` lays the layers of a match over each other: the preset of the ruleset, the rules
of the match, its cvars, its overrides. For one rule the last layer that has something to say
decides (`values_resolveEffective`), and the source names it (`source_resolveEffective`).
-/
namespace ReadyUp.Config

open Support

def overrideOf (overrides : RuleMap) (key : Bytes) : Option RuleValue :=
  (overrides.reverse.find? fun kv => kv.1 == key && kv.2.isSet).map (·.2)

/-- The value that the cvars of the match give a rule. -/
def valueOfCvars (cvars : List (Bytes × Bytes)) (r : RuleInfo) : Option RuleValue :=
  (r.cvar.bind fun c => cvars.lookup c).bind (fromCvarText r)

theorem isSet_of_overrideOf {overrides : RuleMap} {key : Bytes} {v : RuleValue}
    (h : overrideOf overrides key = some v) : (key, v) ∈ overrides ∧ v.isSet = true := by
  obtain ⟨⟨k, w⟩, hkv, rfl⟩ := Option.map_eq_some_iff.mp h
  have hprop := List.find?_some hkv
  rw [Bool.and_eq_true, beq_iff_eq] at hprop
  obtain ⟨rfl, hset⟩ := hprop
  exact ⟨List.mem_reverse.mp (List.mem_of_find?_eq_some hkv), hset⟩

theorem overrideOf_eq_lookup {overrides : RuleMap} (hnodup : (keys overrides).Nodup)
    (hset : ∀ kv ∈ overrides, kv.2.isSet = true) (key : Bytes) :
    overrideOf overrides key = overrides.lookup key := by
  cases hover : overrideOf overrides key with
  | some v => exact (lookup_of_mem hnodup (isSet_of_overrideOf hover).1).symm
  | none =>
    symm
    rw [lookup_eq_none]
    intro hmem
    obtain ⟨kv, hkv, rfl⟩ := List.mem_map.mp hmem
    rw [overrideOf, Option.map_eq_none_iff, List.find?_eq_none] at hover
    have hnot := hover kv (List.mem_reverse.mpr hkv)
    simp [hset kv hkv] at hnot

section Layers

variable {e : EffectiveRuleSet} {key : Bytes}

theorem lookup_foldl_applyOverride (hkey : (findRule key).isSome = true) (l : RuleMap) :
    (l.foldl applyOverride e).values.lookup key = (overrideOf l key).or (e.values.lookup key) ∧
      (l.foldl applyOverride e).source.lookup key =
        ((overrideOf l key).map fun _ => Source.override).or (e.source.lookup key) := by
  rw [List.foldl_eq_foldr_reverse, overrideOf]
  induction l.reverse with
  | nil => exact ⟨rfl, rfl⟩
  | cons kv l ih =>
    rw [List.foldr_cons, applyOverride, List.find?_cons]
    by_cases hkv : kv.1 = key
    · rw [hkv, beq_self_eq_true, Bool.true_and]
      cases hset : kv.2.isSet with
      | false =>
        rw [if_neg fun h => by cases h.2]
        exact ih
      | true =>
        rw [if_pos ⟨hkey, rfl⟩, values_setRule, source_setRule, if_pos rfl, if_pos rfl]
        exact ⟨rfl, rfl⟩
    · rw [beq_eq_false_iff_ne.mpr hkv, Bool.false_and]
      split_ifs
      · rw [values_setRule, source_setRule, if_neg (Ne.symm hkv), if_neg (Ne.symm hkv)]
        exact ih
      · exact ih

theorem lookup_foldl_applyCvar_of_notMem (cvars : List (Bytes × Bytes)) {table : List RuleInfo}
    (h : key ∉ table.map (·.key)) :
    (table.foldl (applyCvar cvars) e).values.lookup key = e.values.lookup key ∧
      (table.foldl (applyCvar cvars) e).source.lookup key = e.source.lookup key := by
  induction table generalizing e with
  | nil => exact ⟨rfl, rfl⟩
  | cons r table ih =>
    rw [List.map_cons, List.mem_cons, not_or] at h
    obtain ⟨hvalue, hsource⟩ := ih (e := applyCvar cvars e r) h.2
    rw [List.foldl_cons, hvalue, hsource, applyCvar]
    split
    · exact ⟨rfl, rfl⟩
    · rw [values_setRule, source_setRule, if_neg h.1, if_neg h.1]
      exact ⟨rfl, rfl⟩

theorem lookup_foldl_applyCvar (cvars : List (Bytes × Bytes)) {table : List RuleInfo}
    (hnodup : (table.map (·.key)).Nodup) {r : RuleInfo} (hr : r ∈ table) :
    (table.foldl (applyCvar cvars) e).values.lookup r.key =
      (valueOfCvars cvars r).or (e.values.lookup r.key) ∧
      (table.foldl (applyCvar cvars) e).source.lookup r.key =
        ((valueOfCvars cvars r).map fun _ => Source.cvars).or (e.source.lookup r.key) := by
  induction table generalizing e with
  | nil => cases hr
  | cons r' table ih =>
    rw [List.map_cons, List.nodup_cons] at hnodup
    rw [List.foldl_cons]
    rcases List.mem_cons.mp hr with rfl | hr
    · obtain ⟨hvalue, hsource⟩ :=
        lookup_foldl_applyCvar_of_notMem (e := applyCvar cvars e r) cvars hnodup.1
      rw [hvalue, hsource, applyCvar, ← valueOfCvars]
      cases valueOfCvars cvars r with
      | none => exact ⟨rfl, rfl⟩
      | some v =>
        dsimp only
        rw [values_setRule, source_setRule, if_pos rfl, if_pos rfl]
        exact ⟨rfl, rfl⟩
    · have hne : r.key ≠ r'.key := by
        intro heq
        exact hnodup.1 (heq ▸ List.mem_map_of_mem hr)
      obtain ⟨hvalue, hsource⟩ := ih (e := applyCvar cvars e r') hnodup.2 hr
      rw [hvalue, hsource, applyCvar]
      split
      · exact ⟨rfl, rfl⟩
      · rw [values_setRule, source_setRule, if_neg hne, if_neg hne]
        exact ⟨rfl, rfl⟩

end Layers

section Rules

variable {r : RuleInfo}

theorem nodup_ruleTable : (ruleTable.map (·.key)).Nodup := by decide

theorem isSome_findRule (hr : r ∈ ruleTable) : (findRule r.key).isSome = true := by
  have hkind := kind_of_findRule r hr
  cases h : findRule r.key with
  | none =>
    rw [h] at hkind
    cases hkind
  | some r' => rfl

/-- The value of a rule: an override, else a cvar of the match, else what comes before. -/
theorem values_resolveEffective (i : RulesInput) (hr : r ∈ ruleTable) :
    (resolveEffective i).values.lookup r.key =
      ((overrideOf i.overrides r.key).or (valueOfCvars i.cvars r)).or
        ((startRules i).values.lookup r.key) := by
  have hoverride :=
    lookup_foldl_applyOverride (e := ruleTable.foldl (applyCvar i.cvars) (startRules i))
    (isSome_findRule hr) i.overrides
  rw [(lookup_foldl_applyCvar i.cvars nodup_ruleTable hr).1, ← Option.or_assoc] at hoverride
  exact hoverride.1

theorem source_resolveEffective (i : RulesInput) (hr : r ∈ ruleTable) :
    (resolveEffective i).source.lookup r.key =
      (((overrideOf i.overrides r.key).map fun _ => Source.override).or
        ((valueOfCvars i.cvars r).map fun _ => Source.cvars)).or
          ((startRules i).source.lookup r.key) := by
  have hoverride :=
    lookup_foldl_applyOverride (e := ruleTable.foldl (applyCvar i.cvars) (startRules i))
    (isSome_findRule hr) i.overrides
  rw [(lookup_foldl_applyCvar i.cvars nodup_ruleTable hr).2, ← Option.or_assoc] at hoverride
  exact hoverride.2

end Rules

end ReadyUp.Config
