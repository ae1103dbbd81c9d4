import ReadyUp.Config.Ruleset
import ReadyUp.Status.Wire

/-!
# Overrides that are written and read again

The overrides of an assignment travel as text twice: in the translated configuration, and in the
context of the match, which keeps them as `overridesToText` writes them. Reading the first text
gives the same overrides (`parseOverrides_wire`), and reading the second one gives every rule the
same value (`lookup_parseOverridesText`).
-/
namespace ReadyUp.Config

open Support Status

section Wire

theorem bounds_ruleTable : ∀ r ∈ ruleTable, -1 ≤ r.min ∧ r.max ≤ 65535 := by decide

theorem mem_of_findRule {key : Bytes} {r : RuleInfo} (h : findRule key = some r) : r ∈ ruleTable :=
  List.mem_of_find?_eq_some h

/-- A whole number of at most ten digits is written as an integer. -/
theorem wire_whole {d : Binary64} (hfinite : d.isFinite = true) (hwhole : d.isWhole = true)
    (hsmall : d.toInt.natAbs < 10 ^ 10) : (Json.double d).wire = .int d.toInt := by
  have hmag := Binary64.magnitude_of_isWhole hfinite hwhole
  have hvalue : (if d.neg then -(d.toInt.natAbs : ℤ) else d.toInt.natAbs) = d.toInt := by
    have hfloor : ⌊Binary64.magnitude d.mag⌋ = (d.toInt.natAbs : ℤ) := by
      rw [hmag]
      exact Int.floor_natCast _
    rw [← hfloor]
    rfl
  rw [Json.wire, if_pos hfinite, Binary64.formatG_whole hmag hsmall, Json.ofToken]
  simp only [NumToken.isFloat, NumToken.toInt, ofDigits_decimal, hvalue]
  rw [if_pos]
  refine ⟨rfl, ?_, ?_⟩ <;> omega

theorem parseLeaf_wire {info : RuleInfo} (hinfo : info ∈ ruleTable) {v : Json} {x : RuleValue}
    (h : parseLeaf info v = .ok x) : parseLeaf info v.wire = .ok x := by
  cases v with
  | double d =>
    unfold parseLeaf at h
    split at h
    · rename_i hkind
      split at h
      · cases h
      · rename_i n hn
        split_ifs at h with hrange
        cases h
        rw [wholeNumber] at hn
        split_ifs at hn with hwhole
        cases hn
        obtain ⟨hmin, hmax⟩ := bounds_ruleTable info hinfo
        rw [wire_whole hwhole.1 hwhole.2.1 (by omega)]
        unfold parseLeaf
        rw [hkind]
        exact if_neg hrange
    · split at h
      · cases h
      · rename_i hb
        cases hb
    · cases h
  | object ms =>
    unfold parseLeaf at h
    split at h <;> cases h
  | array vs =>
    unfold parseLeaf at h
    split at h <;> cases h
  | _ => simpa [Json.wire] using h

theorem parseRule_wire {m m' : RuleMap} {key : Bytes} {v : Json} (h : parseRule m key v = .ok m') :
    parseRule m key v.wire = .ok m' := by
  rw [parseRule] at h ⊢
  split at h
  · cases h
  · rename_i info hinfo
    obtain ⟨x, hx, hassign⟩ := bind_eq_ok.mp h
    exact bind_eq_ok.mpr ⟨x, parseLeaf_wire (mem_of_findRule hinfo) hx, hassign⟩

theorem parseMember_of_not_object {m : RuleMap} {kv : Bytes × Json} (h : kv.2.isObject = false) :
    parseMember m kv = parseRule m kv.1 kv.2 := by
  rw [parseMember]
  split
  · rename_i hobject
    rw [hobject] at h
    cases h
  · rfl

theorem parseMember_wire {m m' : RuleMap} {kv : Bytes × Json} (h : parseMember m kv = .ok m') :
    parseMember m (kv.1, kv.2.wire) = .ok m' := by
  obtain ⟨k, v⟩ := kv
  cases hobject : v.isObject with
  | false =>
    have hwire : v.wire.isObject = false := (Json.isObject_wire v).trans hobject
    rw [parseMember_of_not_object hobject] at h
    rw [parseMember_of_not_object hwire]
    exact parseRule_wire h
  | true =>
    cases v with
    | object sub =>
      rw [parseMember] at h ⊢
      rw [Json.wire, Json.wireMembers_eq]
      dsimp only at h ⊢
      split_ifs at h ⊢
      exact foldlM_map_eq_ok (fun s t kv _ hstep => parseRule_wire hstep) h
    | _ => cases hobject

theorem parseOverrides_wire {obj : Json} {m : RuleMap} (h : parseOverrides obj = .ok m) :
    parseOverrides obj.wire = .ok m := by
  cases obj with
  | object ms =>
    rw [Json.wire, Json.wireMembers_eq]
    exact foldlM_map_eq_ok (fun s t kv _ hstep => parseMember_wire hstep) h
  | _ => cases h

end Wire

section Written

variable (overrides : RuleMap)

/-- The value that is written for a rule. -/
def leaf (r : RuleInfo) : Option Json :=
  ((overrides.lookup r.key).filter RuleValue.isSet).map RuleValue.toJson

def writeRule (j : Json) (r : RuleInfo) : Json :=
  match leaf overrides r with
  | none => j
  | some w => setPath j r.key w

/-- The members of rules that are in no group. -/
def plainMembers (rules : List RuleInfo) : List (Bytes × Json) :=
  rules.filterMap fun r => (leaf overrides r).map (r.key, ·)

/-- The members of the rules of a group. -/
def groupMembers (group : Bytes) (rules : List RuleInfo) : List (Bytes × Json) :=
  rules.filterMap fun r => (leaf overrides r).map (r.key.drop (group.length + 1), ·)

def groupMember (group : Bytes) (sub : List (Bytes × Json)) : List (Bytes × Json) :=
  if sub = [] then [] else [(group, .object sub)]

variable {overrides}

theorem setPath_plain {key : Bytes} (h : byte '.' ∉ key) (obj v : Json) :
    setPath obj key v = obj.set key v := by
  have hspan : key.span (· ≠ byte '.') = (key, []) := by
    have hall : ∀ c ∈ key, decide (c ≠ byte '.') = true := by
      intro c hc
      exact decide_eq_true fun heq => h (heq ▸ hc)
    rw [List.span_eq_takeWhile_dropWhile, List.takeWhile_eq_self_iff.mpr hall,
      List.dropWhile_eq_nil_iff.mpr hall]
  rw [setPath, hspan]

theorem setPath_group {group rest : Bytes} (h : byte '.' ∉ group) (obj v : Json) :
    setPath obj (group ++ byte '.' :: rest) v =
      obj.set group (((obj.find group).getD .null).set rest v) := by
  have hspan : (group ++ byte '.' :: rest).span (· ≠ byte '.') = (group, byte '.' :: rest) := by
    have hall : ∀ c ∈ group, decide (c ≠ byte '.') = true := by
      intro c hc
      exact decide_eq_true fun heq => h (heq ▸ hc)
    rw [List.span_eq_takeWhile_dropWhile, List.takeWhile_append_of_pos hall,
      List.dropWhile_append_of_pos hall]
    simp
  rw [setPath, hspan]

theorem keys_plainMembers_sublist (rules : List RuleInfo) :
    (keys (plainMembers overrides rules)).Sublist (rules.map (·.key)) := by
  induction rules with
  | nil => exact List.Sublist.refl _
  | cons r rules ih =>
    rw [plainMembers, List.map_cons]
    cases hleaf : leaf overrides r with
    | none =>
      rw [List.filterMap_cons_none (by rw [hleaf]; rfl)]
      exact ih.cons _
    | some w =>
      rw [List.filterMap_cons_some (by rw [hleaf]; rfl)]
      exact ih.cons_cons _

theorem foldl_writeRule_plain {rules : List RuleInfo} (hplain : ∀ r ∈ rules, byte '.' ∉ r.key)
    {ms : List (Bytes × Json)} (hnodup : (keys ms ++ rules.map (·.key)).Nodup) :
    rules.foldl (writeRule overrides) (.object ms) =
      .object (ms ++ plainMembers overrides rules) := by
  induction rules generalizing ms with
  | nil => rw [plainMembers, List.filterMap_nil, List.append_nil, List.foldl_nil]
  | cons r rules ih =>
    rw [List.forall_mem_cons] at hplain
    rw [List.map_cons] at hnodup
    rw [List.foldl_cons, writeRule, plainMembers]
    cases hleaf : leaf overrides r with
    | none =>
      rw [List.filterMap_cons_none (by rw [hleaf]; rfl)]
      exact ih hplain.2 (hnodup.sublist (List.Sublist.append_left (List.sublist_cons_self _ _) _))
    | some w =>
      have hnew : r.key ∉ keys ms := by
        intro hmem
        exact (List.nodup_append.mp hnodup).2.2 _ hmem _ List.mem_cons_self rfl
      rw [List.filterMap_cons_some (by rw [hleaf]; rfl)]
      dsimp only
      rw [setPath_plain hplain.1, Json.set, Json.members_object, assign_of_notMem hnew, ih hplain.2,
        List.append_assoc]
      · rfl
      · rw [keys, List.map_append, List.append_assoc]
        exact hnodup

theorem foldl_writeRule_group {group : Bytes} (hgroup : byte '.' ∉ group) {rules : List RuleInfo}
    (hrules : ∀ r ∈ rules, (group ++ [byte '.']).isPrefixOf r.key = true)
    {ms sub : List (Bytes × Json)}
    (hms : group ∉ keys ms)
    (hnodup : (keys sub ++ rules.map fun r => r.key.drop (group.length + 1)).Nodup) :
    rules.foldl (writeRule overrides) (.object (ms ++ groupMember group sub)) =
      .object (ms ++ groupMember group (sub ++ groupMembers overrides group rules)) := by
  induction rules generalizing sub with
  | nil => rw [groupMembers, List.filterMap_nil, List.append_nil, List.foldl_nil]
  | cons r rules ih =>
    rw [List.forall_mem_cons] at hrules
    rw [List.map_cons] at hnodup
    rw [List.foldl_cons, writeRule, groupMembers]
    cases hleaf : leaf overrides r with
    | none =>
      rw [List.filterMap_cons_none (by rw [hleaf]; rfl)]
      exact ih hrules.2 (hnodup.sublist (List.Sublist.append_left (List.sublist_cons_self _ _) _))
    | some w =>
      obtain ⟨rest, hrest⟩ := List.isPrefixOf_iff_prefix.mp hrules.1
      have hkey : r.key = group ++ byte '.' :: rest := by
        rw [← hrest, List.append_assoc]
        rfl
      have hdrop : r.key.drop (group.length + 1) = rest := by
        rw [hkey, List.drop_append]
        simp
      have hnew : rest ∉ keys sub := by
        intro hmem
        exact (List.nodup_append.mp hnodup).2.2 _ hmem _ List.mem_cons_self hdrop.symm
      have hset : setPath (.object (ms ++ groupMember group sub)) r.key w =
          .object (ms ++ groupMember group (sub ++ [(rest, w)])) := by
        have hgrown :
            groupMember group (sub ++ [(rest, w)]) = [(group, .object (sub ++ [(rest, w)]))] :=
          if_neg (by simp)
        rw [hkey, setPath_group hgroup, Json.find, Json.members_object, Json.set,
          Json.members_object, hgrown, groupMember]
        by_cases hsub : sub = []
        · subst hsub
          rw [if_pos rfl, List.append_nil, lookup_eq_none.mpr hms, assign_of_notMem hms]
          rfl
        · rw [if_neg hsub, assign_append_self hms, List.lookup_append, lookup_eq_none.mpr hms,
            Option.none_or, lookup_cons_eq, if_pos rfl, Option.getD_some, Json.set,
            Json.members_object, assign_of_notMem hnew]
      rw [List.filterMap_cons_some (by rw [hleaf]; rfl)]
      dsimp only
      rw [hset, ih hrules.2, hdrop, List.append_assoc]
      · rfl
      · rw [keys, List.map_append, List.append_assoc]
        rw [hdrop] at hnodup
        exact hnodup

/-- The rules before those of the overtime, those of the overtime and those after them. -/
def firstRules : List RuleInfo := ruleTable.take 6

def overtimeRules : List RuleInfo := (ruleTable.drop 6).take 4

def lastRules : List RuleInfo := ruleTable.drop 10

theorem ruleTable_eq : ruleTable = firstRules ++ overtimeRules ++ lastRules := rfl

theorem overtimeRules_group :
    ∀ r ∈ overtimeRules, (ascii "overtime" ++ [byte '.']).isPrefixOf r.key = true := by
  decide

/-- The members of the overrides as they are written. -/
def written (overrides : RuleMap) : List (Bytes × Json) :=
  plainMembers overrides firstRules ++
    groupMember (ascii "overtime") (groupMembers overrides (ascii "overtime") overtimeRules) ++
      plainMembers overrides lastRules

theorem keys_groupMember_sublist (group : Bytes) (sub : List (Bytes × Json)) :
    (keys (groupMember group sub)).Sublist [group] := by
  rw [groupMember]
  split_ifs
  · exact List.nil_sublist _
  · exact List.Sublist.refl _

theorem keys_groupMembers_sublist (group : Bytes) (rules : List RuleInfo) :
    (keys (groupMembers overrides group rules)).Sublist
      (rules.map fun r => r.key.drop (group.length + 1)) := by
  induction rules with
  | nil => exact List.Sublist.refl _
  | cons r rules ih =>
    rw [groupMembers, List.map_cons]
    cases hleaf : leaf overrides r with
    | none =>
      rw [List.filterMap_cons_none (by rw [hleaf]; rfl)]
      exact ih.cons _
    | some w =>
      rw [List.filterMap_cons_some (by rw [hleaf]; rfl)]
      exact ih.cons_cons _

theorem keys_append {l l' : List (Bytes × Json)} : keys (l ++ l') = keys l ++ keys l' :=
  List.map_append

theorem nodup_keys_written : (keys (written overrides)).Nodup := by
  have hall :
      (firstRules.map (·.key) ++ [ascii "overtime"] ++ lastRules.map (·.key)).Nodup := by decide
  rw [written, keys_append, keys_append]
  exact hall.sublist (((keys_plainMembers_sublist _).append (keys_groupMember_sublist _ _)).append
    (keys_plainMembers_sublist _))

theorem foldl_writeRule :
    ruleTable.foldl (writeRule overrides) (.object []) = .object (written overrides) := by
  have hfirst : (keys ([] : List (Bytes × Json)) ++ firstRules.map (·.key)).Nodup := by decide
  have hgroup : ascii "overtime" ∉ keys (plainMembers overrides firstRules) := by
    have hnot : ascii "overtime" ∉ firstRules.map (·.key) := by decide
    exact fun hmem => hnot ((keys_plainMembers_sublist _).subset hmem)
  have hsub : (keys ([] : List (Bytes × Json)) ++
      overtimeRules.map fun r => r.key.drop ((ascii "overtime").length + 1)).Nodup := by decide
  have hlast : (keys (plainMembers overrides firstRules ++ groupMember (ascii "overtime")
      (groupMembers overrides (ascii "overtime") overtimeRules)) ++
      lastRules.map (·.key)).Nodup := by
    have hall :
        (firstRules.map (·.key) ++ [ascii "overtime"] ++ lastRules.map (·.key)).Nodup := by decide
    rw [keys_append]
    exact hall.sublist (((keys_plainMembers_sublist _).append (keys_groupMember_sublist _ _)).append
      (List.Sublist.refl _))
  have htime := @foldl_writeRule_group overrides _ (by decide) _ overtimeRules_group _ _ hgroup hsub
  rw [groupMember, if_pos rfl, List.append_nil, List.nil_append] at htime
  rw [ruleTable_eq, List.foldl_append, List.foldl_append, foldl_writeRule_plain (by decide) hfirst,
    List.nil_append, htime, foldl_writeRule_plain (by decide) hlast, written]

end Written

section Read

/-- Every rule is known and has a value that was read for it. -/
def RuleMap.Accepted (m : RuleMap) : Prop :=
  RuleMap.Values (fun r x => ∃ v, parseLeaf r v = .ok x) m

theorem accepted_parseOverrides {obj : Json} {m : RuleMap} (h : parseOverrides obj = .ok m) :
    RuleMap.Accepted m :=
  values_parseOverrides (fun _ v _ hx => ⟨v, hx⟩) h

variable {overrides m : RuleMap} {r : RuleInfo} {x : RuleValue} {w : Json}

/-- A value that was read is read again from what is written of it. -/
theorem parseLeaf_toJson {v : Json} (h : parseLeaf r v = .ok x) : parseLeaf r x.toJson = .ok x := by
  unfold parseLeaf at h ⊢
  split at h
  · split at h
    · cases h
    · split_ifs at h with hrange
      cases h
      exact if_neg hrange
  · split at h
    · cases h
    · cases h
      rfl
  · split at h
    · rename_i raw
      split at h
      · rename_i hwrong
        cases h
        rw [RuleValue.toJson]
        have htrim : trim (trim raw) = trim raw := trimBy_trimBy isBlank raw
        dsimp only
        rw [htrim, hwrong]
      · cases h
    · cases h

theorem isSet_of_parseLeaf {v : Json} (h : parseLeaf r v = .ok x) : x.isSet = true := by
  have hkind := hasKind_parseLeaf h
  cases x with
  | none => cases hkind
  | _ => rfl

/-- The overrides of a rule laid over others. -/
def extend (overrides m : RuleMap) (r : RuleInfo) : RuleMap :=
  match (overrides.lookup r.key).filter RuleValue.isSet with
  | none => m
  | some x => assign m r.key x

theorem exists_of_leaf (h : leaf overrides r = some w) :
    ∃ x, overrides.lookup r.key = some x ∧ x.isSet = true ∧ w = x.toJson ∧
      ∀ m, extend overrides m r = assign m r.key x := by
  obtain ⟨x, hx, rfl⟩ := Option.map_eq_some_iff.mp h
  obtain ⟨hlookup, hset⟩ := Option.filter_eq_some_iff.mp hx
  refine ⟨x, hlookup, hset, rfl, fun m => ?_⟩
  rw [extend, hx]

theorem extend_of_leaf_none (h : leaf overrides r = none) (m : RuleMap) :
    extend overrides m r = m := by
  rw [extend, Option.map_eq_none_iff.mp h]

theorem isObject_toJson (x : RuleValue) : x.toJson.isObject = false := by
  cases x <;> rfl

theorem parseRule_leaf (hacc : RuleMap.Accepted overrides) (h : leaf overrides r = some w)
    (m : RuleMap) : parseRule m r.key w = .ok (extend overrides m r) := by
  obtain ⟨x, hlookup, -, rfl, hextend⟩ := exists_of_leaf h
  obtain ⟨r', hr', v, hv⟩ := hacc _ (mem_of_lookup hlookup)
  rw [parseRule, hr']
  dsimp only
  rw [parseLeaf_toJson hv, hextend]
  rfl

theorem foldlM_plainMembers (hacc : RuleMap.Accepted overrides) (rules : List RuleInfo)
    (m : RuleMap) :
    (plainMembers overrides rules).foldlM parseMember m =
      .ok (rules.foldl (extend overrides) m) := by
  induction rules generalizing m with
  | nil => rfl
  | cons r rules ih =>
    rw [plainMembers, List.foldl_cons]
    cases hleaf : leaf overrides r with
    | none =>
      rw [List.filterMap_cons_none (by rw [hleaf]; rfl), extend_of_leaf_none hleaf]
      exact ih m
    | some w =>
      have hobject : w.isObject = false := by
        obtain ⟨x, -, -, rfl, -⟩ := exists_of_leaf hleaf
        exact isObject_toJson x
      rw [List.filterMap_cons_some (by rw [hleaf]; rfl), List.foldlM_cons,
        parseMember_of_not_object hobject, parseRule_leaf hacc hleaf]
      exact ih _

theorem foldlM_groupMembers (hacc : RuleMap.Accepted overrides) {group : Bytes}
    {rules : List RuleInfo}
    (hrules : ∀ r ∈ rules, (group ++ [byte '.']).isPrefixOf r.key = true) (m : RuleMap) :
    (groupMembers overrides group rules).foldlM
      (fun m kv => parseRule m (group ++ [byte '.'] ++ kv.1) kv.2) m =
      .ok (rules.foldl (extend overrides) m) := by
  induction rules generalizing m with
  | nil => rfl
  | cons r rules ih =>
    rw [List.forall_mem_cons] at hrules
    rw [groupMembers, List.foldl_cons]
    cases hleaf : leaf overrides r with
    | none =>
      rw [List.filterMap_cons_none (by rw [hleaf]; rfl), extend_of_leaf_none hleaf]
      exact ih hrules.2 m
    | some w =>
      have hkey : group ++ [byte '.'] ++ r.key.drop (group.length + 1) = r.key := by
        obtain ⟨rest, hrest⟩ := List.isPrefixOf_iff_prefix.mp hrules.1
        have hlength : group.length + 1 = (group ++ [byte '.']).length := by simp
        rw [← hrest, hlength, List.drop_left]
      rw [List.filterMap_cons_some (by rw [hleaf]; rfl), List.foldlM_cons, hkey,
        parseRule_leaf hacc hleaf]
      exact ih hrules.2 _

theorem parseOverrides_written (hacc : RuleMap.Accepted overrides) :
    parseOverrides (.object (written overrides)) = .ok (ruleTable.foldl (extend overrides) []) := by
  have hovertime : ∀ m, (groupMember (ascii "overtime")
      (groupMembers overrides (ascii "overtime") overtimeRules)).foldlM parseMember m =
        .ok (overtimeRules.foldl (extend overrides) m) := by
    intro m
    rw [← foldlM_groupMembers hacc overtimeRules_group, groupMember]
    split_ifs with hnil
    · rw [hnil]
      rfl
    · have hany :
          ruleTable.any (fun r => (ascii "overtime" ++ [byte '.']).isPrefixOf r.key) = true := by
        decide
      rw [List.foldlM_cons, parseMember]
      dsimp only
      rw [if_pos hany]
      exact bind_pure _
  rw [parseOverrides, written, List.foldlM_append, List.foldlM_append, foldlM_plainMembers hacc,
    ruleTable_eq, List.foldl_append, List.foldl_append]
  refine bind_eq_ok.mpr ⟨_, ?_, foldlM_plainMembers hacc lastRules _⟩
  exact bind_eq_ok.mpr ⟨_, rfl, hovertime _⟩

theorem lookup_foldl_extend (rules : List RuleInfo) (m : RuleMap) (k : Bytes) :
    (rules.foldl (extend overrides) m).lookup k =
      if k ∈ rules.map (·.key) then ((overrides.lookup k).filter RuleValue.isSet).or (m.lookup k)
      else m.lookup k := by
  induction rules generalizing m with
  | nil => rfl
  | cons r rules ih =>
    have hstep : (extend overrides m r).lookup k =
        if k = r.key then ((overrides.lookup k).filter RuleValue.isSet).or (m.lookup k)
        else m.lookup k := by
      rw [extend]
      split
      · rename_i hnone
        split_ifs with hk
        · rw [hk, hnone, Option.none_or]
        · rfl
      · rename_i x hx
        rw [lookup_assign]
        split_ifs with hk
        · rw [hk, hx, Option.some_or]
        · rfl
    rw [List.foldl_cons, ih, hstep, List.map_cons]
    simp only [List.mem_cons]
    by_cases hk : k = r.key
    · simp only [hk, true_or, if_true]
      split_ifs
      · rw [← Option.or_assoc, Option.or_self]
      · rfl
    · simp only [hk, false_or, if_false]

theorem lookup_foldl_extend_ruleTable (hacc : RuleMap.Accepted overrides) (k : Bytes) :
    (ruleTable.foldl (extend overrides) []).lookup k = overrides.lookup k := by
  rw [lookup_foldl_extend]
  cases hlookup : overrides.lookup k with
  | none =>
    split_ifs <;> rfl
  | some x =>
    obtain ⟨r, hr, v, hv⟩ := hacc _ (mem_of_lookup hlookup)
    have hmem : k ∈ ruleTable.map (·.key) :=
      List.mem_map.mpr ⟨r, mem_of_findRule hr, key_of_findRule hr⟩
    rw [if_pos hmem, Option.filter_some, if_pos (isSet_of_parseLeaf hv)]
    rfl

/-- A value that was read is a plain one: no object, no double, and an integer of 64 bits. -/
theorem plain_of_leaf (hacc : RuleMap.Accepted overrides) (h : leaf overrides r = some w) :
    w.UniqueKeys ∧ w.InRange ∧ w.NoDoubles ∧ w.depth = 0 := by
  obtain ⟨x, hlookup, -, rfl, -⟩ := exists_of_leaf h
  obtain ⟨r', hr', v, hv⟩ := hacc _ (mem_of_lookup hlookup)
  cases x with
  | int i =>
    obtain ⟨hlow, hhigh⟩ := bounds_of_parseLeaf hv
    obtain ⟨hmin, hmax⟩ := bounds_ruleTable r' (mem_of_findRule hr')
    have hrange : JsonScan.InInt64 i := by constructor <;> omega
    exact ⟨rfl, decide_eq_true hrange, rfl, rfl⟩
  | _ => exact ⟨rfl, rfl, rfl, rfl⟩

theorem nodup_keys_extend (h : (keys m).Nodup) (r : RuleInfo) :
    (keys (extend overrides m r)).Nodup := by
  rw [extend]
  split
  · exact h
  · exact nodup_keys_assign h _ _

theorem nodup_keys_foldl_extend (rules : List RuleInfo) (h : (keys m).Nodup) :
    (keys (rules.foldl (extend overrides) m)).Nodup := by
  induction rules generalizing m with
  | nil => exact h
  | cons r rules ih => exact ih (nodup_keys_extend h r)

/-- What the text keeps: no key twice, integers of 64 bits, no double and few levels. -/
def Plain (v : Json) (levels : ℕ) : Prop :=
  v.UniqueKeys ∧ v.InRange ∧ v.NoDoubles ∧ v.depth ≤ levels

theorem plain_object {ms : List (Bytes × Json)} {levels : ℕ} (hkeys : (keys ms).Nodup)
    (h : ∀ k v, (k, v) ∈ ms → Plain v levels) : Plain (.object ms) (levels + 1) :=
  ⟨Json.uniqueKeys_object.mpr ⟨hkeys, fun k v hm => (h k v hm).1⟩,
    Json.all_object.mpr ⟨rfl, fun k v hm => (h k v hm).2.1⟩,
    Json.all_object.mpr ⟨rfl, fun k v hm => (h k v hm).2.2.1⟩,
    Json.depthMembers_le.mpr fun k v hm => Nat.succ_le_succ (h k v hm).2.2.2⟩

theorem plain_members (hacc : RuleMap.Accepted overrides) {f : RuleInfo → Bytes}
    {rules : List RuleInfo} {k : Bytes}
    (h : (k, w) ∈ rules.filterMap fun r => (leaf overrides r).map (f r, ·)) (levels : ℕ) :
    Plain w levels := by
  obtain ⟨r, -, hr⟩ := List.mem_filterMap.mp h
  obtain ⟨w', hleaf, heq⟩ := Option.map_eq_some_iff.mp hr
  cases heq
  obtain ⟨hkeys, hrange, hdoubles, hdepth⟩ := plain_of_leaf hacc hleaf
  exact ⟨hkeys, hrange, hdoubles, hdepth ▸ Nat.zero_le _⟩

theorem plain_written (hacc : RuleMap.Accepted overrides) :
    Plain (.object (written overrides)) 2 := by
  apply plain_object nodup_keys_written
  intro k v hm
  rw [written, List.mem_append, List.mem_append] at hm
  rcases hm with (hm | hm) | hm
  · exact plain_members hacc hm 1
  · rw [groupMember] at hm
    split_ifs at hm
    · cases hm
    · cases List.mem_singleton.mp hm
      have hsub :
          (overtimeRules.map fun r => r.key.drop ((ascii "overtime").length + 1)).Nodup := by decide
      exact plain_object (hsub.sublist (keys_groupMembers_sublist _ _)) fun k v hm =>
        plain_members hacc hm 0
  · exact plain_members hacc hm 1

theorem trim_dump_object (ms : List (Bytes × Json)) : trim (Json.object ms).dump ≠ [] := by
  have hbrace : isBlank (byte '{') = false := by decide
  intro hnil
  rw [Json.dump, trim, trimBy, List.dropWhile_cons_of_neg (by simp [hbrace]),
    List.rdropWhile_eq_nil_iff] at hnil
  have hblank := hnil (byte '{') List.mem_cons_self
  rw [hbrace] at hblank
  cases hblank

/-- The overrides are read from their text with the value of every rule. -/
theorem lookup_parseOverridesText (hacc : RuleMap.Accepted overrides) :
    ∃ m, parseOverridesText (overridesToText overrides) = some m ∧ (keys m).Nodup ∧
      ∀ k, m.lookup k = overrides.lookup k := by
  by_cases hnil : overrides = []
  · subst hnil
    exact ⟨[], rfl, nodup_keys_nil, fun _ => rfl⟩
  · obtain ⟨hkeys, hrange, hdoubles, hdepth⟩ := plain_written hacc
    have htext : overridesToText overrides = (Json.object (written overrides)).dump := by
      rw [overridesToText, if_neg hnil, ← foldl_writeRule]
      congr 2
      funext j r
      rw [writeRule, leaf]
      cases overrides.lookup r.key with
      | none => rfl
      | some x =>
        rw [Option.filter_some]
        dsimp only
        by_cases hset : x.isSet = true
        · rw [if_pos hset, if_pos hset]
          rfl
        · rw [if_neg hset, if_neg hset]
          rfl
    refine ⟨ruleTable.foldl (extend overrides) [], ?_,
      nodup_keys_foldl_extend ruleTable nodup_keys_nil, lookup_foldl_extend_ruleTable hacc⟩
    rw [parseOverridesText, htext, if_neg (trim_dump_object _),
      Json.parse_dump hkeys hrange (hdepth.trans (by decide)), Json.wire_eq_self hdoubles]
    dsimp only
    rw [parseOverrides_written hacc]
    rfl

end Read

section Member

variable {m m' : RuleMap} {k : Bytes} {v : Json}

theorem lookup_parseRule_of_ne {key : Bytes} (hne : k ≠ key) (h : parseRule m key v = .ok m') :
    m'.lookup k = m.lookup k := by
  rw [parseRule] at h
  split at h
  · cases h
  · obtain ⟨x, -, hassign⟩ := bind_eq_ok.mp h
    obtain rfl : assign m key x = m' := Except.ok.inj hassign
    rw [lookup_assign, if_neg hne]

/-- A member sets only the rule that it names, or the rules of its group. -/
theorem lookup_parseMember_of_ne {kv : Bytes × Json} (hplain : byte '.' ∉ k) (hne : k ≠ kv.1)
    (h : parseMember m kv = .ok m') : m'.lookup k = m.lookup k := by
  obtain ⟨key, v⟩ := kv
  cases hobject : v.isObject with
  | false =>
    rw [parseMember_of_not_object hobject] at h
    exact lookup_parseRule_of_ne hne h
  | true =>
    cases v with
    | object sub =>
      rw [parseMember] at h
      dsimp only at h
      split_ifs at h
      refine foldlM_invariant (P := fun s : RuleMap => s.lookup k = m.lookup k) rfl ?_ h
      intro s a t _ hs ht
      refine (lookup_parseRule_of_ne ?_ ht).trans hs
      rintro rfl
      exact hplain (by simp)
    | _ => cases hobject

/-- A member that is no group sets the rule that it names to what is read of it. -/
theorem lookup_parseMember {r : RuleInfo} (hr : findRule k = some r)
    (hgroup : (ruleTable.any fun r => (k ++ [byte '.']).isPrefixOf r.key) = false)
    (h : parseMember m (k, v) = .ok m') : ∃ x, parseLeaf r v = .ok x ∧ m'.lookup k = some x := by
  cases hobject : v.isObject with
  | false =>
    rw [parseMember_of_not_object hobject, parseRule, hr] at h
    obtain ⟨x, hx, hassign⟩ := bind_eq_ok.mp h
    obtain rfl : assign m k x = m' := Except.ok.inj hassign
    exact ⟨x, hx, by rw [lookup_assign, if_pos rfl]⟩
  | true =>
    cases v with
    | object sub =>
      rw [parseMember] at h
      dsimp only at h
      rw [if_neg (by rw [hgroup]; exact Bool.false_ne_true)] at h
      cases h
    | _ => cases hobject

/-- The override of a rule that is in no group is what is read of the member with its name. -/
theorem lookup_parseOverrides {r : RuleInfo} (hr : findRule k = some r) (hplain : byte '.' ∉ k)
    (hgroup : (ruleTable.any fun r => (k ++ [byte '.']).isPrefixOf r.key) = false) {obj : Json}
    (hkeys : obj.UniqueKeys) (h : parseOverrides obj = .ok m) :
    obj.find k = none ∧ m.lookup k = none ∨
      ∃ v x, obj.find k = some v ∧ parseLeaf r v = .ok x ∧ m.lookup k = some x := by
  cases obj with
  | object ms =>
    have hnodup := (Json.uniqueKeys_object.mp hkeys).1
    have hfold : ms.foldlM parseMember [] = .ok m := h
    have hrest : ∀ {ms : List (Bytes × Json)} {m m' : RuleMap}, k ∉ keys ms →
        ms.foldlM parseMember m = .ok m' →
        m'.lookup k = m.lookup k := by
      intro ms m m' hnot hrun
      refine foldlM_invariant (P := fun s : RuleMap => s.lookup k = m.lookup k) rfl ?_ hrun
      intro s a t ha hs ht
      refine (lookup_parseMember_of_ne hplain ?_ ht).trans hs
      rintro rfl
      exact hnot (mem_keys_of_mem ha)
    by_cases hmem : k ∈ keys ms
    · obtain ⟨⟨key, v⟩, hkv, heq⟩ := List.mem_map.mp hmem
      obtain rfl : key = k := heq
      obtain ⟨before, after, rfl⟩ := List.append_of_mem hkv
      have hafter : key ∉ keys after := by
        intro hin
        rw [keys, List.map_append, List.map_cons, List.nodup_append] at hnodup
        exact (List.nodup_cons.mp hnodup.2.1).1 hin
      rw [List.foldlM_append] at hfold
      obtain ⟨s, -, hfold⟩ := bind_eq_ok.mp hfold
      rw [List.foldlM_cons] at hfold
      obtain ⟨t, ht, hfold⟩ := bind_eq_ok.mp hfold
      obtain ⟨x, hx, hlookup⟩ := lookup_parseMember hr hgroup ht
      exact .inr ⟨v, x, lookup_of_mem hnodup hkv, hx, (hrest hafter hfold).trans hlookup⟩
    · exact .inl ⟨lookup_eq_none.mpr hmem, hrest hmem hfold⟩
  | _ => cases h

end Member

section Out

/-- `ParseOverrides` with the map that it is given: a message, or none and the map that was read. -/
def parseOverridesTo (obj : Json) (out : RuleMap) : Option Bytes × RuleMap :=
  match obj with
  | .object ms =>
    match ms.foldlM parseMember [] with
    | .error e => (some e, out)
    | .ok m => (none, m)
  | _ => (some (ascii "overrides must be an object"), out)

/-- `ParseOverridesText` with the map that it is given; whether the text was read. -/
def parseOverridesTextTo (json : Bytes) (out : RuleMap) : Bool × RuleMap :=
  if trim json = [] then (true, [])
  else
    match Json.parse json with
    | none => (false, out)
    | some v => ((parseOverridesTo v out).1.isNone, (parseOverridesTo v out).2)

theorem parseOverridesTo_eq (obj : Json) (out : RuleMap) : parseOverridesTo obj out =
    match parseOverrides obj with
    | .error e => (some e, out)
    | .ok m => (none, m) := by
  cases obj with
  | object ms => rfl
  | _ => rfl

theorem parseOverridesTo_eq_none {obj : Json} {out m : RuleMap}
    (h : parseOverridesTo obj out = (none, m)) : parseOverrides obj = .ok m := by
  rw [parseOverridesTo_eq] at h
  cases hread : parseOverrides obj with
  | error e =>
    rw [hread] at h
    cases h
  | ok m' =>
    rw [hread] at h
    cases h
    rfl

theorem parseOverridesTextTo_of_some {json : Bytes} {m : RuleMap}
    (h : parseOverridesText json = some m)
    (out : RuleMap) : parseOverridesTextTo json out = (true, m) := by
  rw [parseOverridesText] at h
  rw [parseOverridesTextTo]
  split_ifs at h ⊢
  · cases h
    rfl
  · cases hparse : Json.parse json with
    | none =>
      rw [hparse] at h
      cases h
    | some v =>
      rw [hparse] at h
      dsimp only at h ⊢
      rw [parseOverridesTo_eq]
      cases hread : parseOverrides v with
      | error e =>
        rw [hread] at h
        cases h
      | ok m' =>
        rw [hread] at h
        cases h
        rfl

theorem parseOverridesTextTo_refused {json : Bytes} {out m : RuleMap}
    (h : parseOverridesTextTo json out = (false, m)) : m = out := by
  rw [parseOverridesTextTo] at h
  split_ifs at h
  · cases h
  split at h
  · cases h
    rfl
  · rename_i v _
    rw [parseOverridesTo_eq] at h
    cases hread : parseOverrides v with
    | error e =>
      rw [hread] at h
      cases h
      rfl
    | ok m' =>
      rw [hread] at h
      cases h

/-- Overrides that were accepted come back from their text with the value of every rule, and a value
or a text that is refused leaves the map that it was to fill. -/
theorem overrides_roundTrip (obj : Json) (out : RuleMap) :
    (∀ m, parseOverridesTo obj out = (none, m) → ∀ other, ∃ m',
        parseOverridesTextTo (overridesToText m) other = (true, m') ∧ (keys m').Nodup ∧
          ∀ k, m'.lookup k = m.lookup k) ∧
      (∀ e m, parseOverridesTo obj out = (some e, m) → m = out) ∧
      ∀ json m, parseOverridesTextTo json out = (false, m) → m = out := by
  refine ⟨?_, ?_, fun json m => parseOverridesTextTo_refused⟩
  · intro m hread other
    obtain ⟨m', htext, hnodup, hlookup⟩ :=
      lookup_parseOverridesText (accepted_parseOverrides (parseOverridesTo_eq_none hread))
    exact ⟨m', parseOverridesTextTo_of_some htext other, hnodup, hlookup⟩
  · intro e m hrefused
    rw [parseOverridesTo_eq] at hrefused
    cases hread : parseOverrides obj with
    | error e' =>
      rw [hread] at hrefused
      cases hrefused
      rfl
    | ok m' =>
      rw [hread] at hrefused
      cases hrefused

/-- A group of two rules and a rule of its own. -/
def overtimeGroup : Json :=
  .object [(ascii "overtime", .object [(ascii "enabled", .bool true), (ascii "maxrounds", .int 6)]),
    (ascii "zeus", .int 5)]

def overtimeOverrides : RuleMap :=
  [(ascii "overtime.enabled", .bool true), (ascii "overtime.maxrounds", .int 6),
    (ascii "zeus", .int 5)]

theorem overrides_roundTrip_overtime :
    ∃ m', parseOverridesTextTo (overridesToText overtimeOverrides) [] = (true, m') ∧
    (keys m').Nodup ∧ ∀ k, m'.lookup k = overtimeOverrides.lookup k :=
  (overrides_roundTrip overtimeGroup []).1 overtimeOverrides (by decide) []

end Out

end ReadyUp.Config
