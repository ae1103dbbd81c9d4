import ReadyUp.Config.UpdateValid

/-!
# Which team a player is on

`teamOf` asks the configuration, by the text of an id; `contextSeat` asks the context that was
loaded from it, by its number. Both go through the same `listings`. The context has an id in the
seats of every text that names it, the configuration in the seat of the first text that is the
number as it is written. So the answers are the same for an id whose listings agree (`Agreed`), but
for a coach whom the rules do not admit (`contextSeat_eq`). Nothing asks that they agree: a player
of two teams is accepted, and so is an id that is not written as its number is.
-/
namespace ReadyUp.Config.Assign

open Support Status
open Minijson (Value ofJson)

/-- The answers of `TeamOf`; the empty one is none. -/
inductive Seat where
  | team1
  | team2
  | spectator
  deriving DecidableEq, Repr

section Answers

variable (config : Json) (id : ℕ)

/-- The seat of a player that a team lists. -/
def rosterSeat (key : String) (seat : Seat) : Option Seat :=
  ((teamPlayers config key).find? fun p => p.sid == decimal id).map fun p =>
    if isCoach p then .spectator else seat

def spectatorIds : List Bytes := ((arr config "spectators").getD []).map asString

def teamOf : Option Seat :=
  (rosterSeat config id "team1" .team1).or <| (rosterSeat config id "team2" .team2).or <|
    if decimal id ∈ spectatorIds config then some .spectator else none

/-- The team of the context: the roster, else the spectators. -/
def contextSeat (ctx : WebhookMatchContext) : Option Seat :=
  match ctx.rosterTeam.lookup id with
  | some .team1 => some .team1
  | some .team2 => some .team2
  | some .unknown => none
  | none => if id ∈ ctx.spectators then some .spectator else none

/-- The rules that a context is played by admit coaches. -/
def admits (server : Ruleset) (ctx : WebhookMatchContext) : Bool :=
  match ruleChoice server (rulesOf config) with
  | .ok (rs, overrides) =>
    coachesAdmitted (contextRules ctx (if ctx.wingman then .default else rs) overrides)
  | .error _ => true

end Answers

section Listings

variable (config : Json) (id : ℕ)

/-- The text of an id as the match plugin reads it. -/
def Names (s : Bytes) (id : ℕ) : Prop := id ≠ 0 ∧ parseSteamId64Loose s = id

instance (s : Bytes) (id : ℕ) : Decidable (Names s id) := inferInstanceAs (Decidable (_ ∧ _))

def teamListings (key : String) (seat : Seat) : List (Bytes × Seat) :=
  (teamPlayers config key).map fun p => (p.sid, if isCoach p then .spectator else seat)

/-- Every id over both teams and the spectators, with its seat. -/
def listings : List (Bytes × Seat) :=
  teamListings config "team1" .team1 ++ teamListings config "team2" .team2 ++
    (spectatorIds config).map (·, .spectator)

/-- Every id over both teams and the spectators. -/
def listed : List Bytes := (listings config).map Prod.fst

def isCoachOf : Bool := (allPlayers config).any fun p => isCoach p && decide (Names p.sid id)

/-- The listings of an id are all for one seat, one of them as its number is written. A text that is
a number as it is written names that number. -/
structure Agreed : Prop where
  seats : ∀ p ∈ listings config, ∀ q ∈ listings config, Names p.1 id → Names q.1 id → p.2 = q.2
  found : ∀ s ∈ listed config, Names s id → decimal id ∈ listed config
  named : decimal id ∈ listed config → Names (decimal id) id

end Listings

section Lists

variable {id : ℕ} {sids : List ℕ} {team : Match.Team}

theorem mem_insertIds {ids : List ℕ} (h0 : 0 ∉ sids) :
    id ∈ insertIds ids sids ↔ id ∈ ids ∨ id ∈ sids := by
  unfold insertIds
  induction sids generalizing ids with
  | nil => simp
  | cons sid sids ih =>
    rw [List.mem_cons, not_or] at h0
    rw [List.foldl_cons, ih h0.2, insertId]
    split_ifs with hold
    · have hmem := hold.resolve_left (Ne.symm h0.1)
      rw [List.mem_cons]
      constructor
      · rintro (h | h)
        · exact .inl h
        · exact .inr (.inr h)
      · rintro (h | rfl | h)
        · exact .inl h
        · exact .inl hmem
        · exact .inr h
    · rw [List.mem_append, List.mem_singleton, List.mem_cons, or_assoc]

theorem lookup_assignTeam (ids : List (ℕ × Bytes)) (m : List (ℕ × Match.Team)) :
    (assignTeam team ids m).lookup id = if id ∈ ids.map Prod.fst then
      some team else m.lookup id := by
  unfold assignTeam
  induction ids generalizing m with
  | nil => rfl
  | cons p ids ih =>
    rw [List.foldl_cons, ih, lookup_assign, List.map_cons]
    by_cases hp : id = p.1
    · simp [hp]
    · have hmem : id ∈ p.1 :: ids.map Prod.fst ↔ id ∈ ids.map Prod.fst :=
        List.mem_cons.trans (or_iff_right hp)
      simp only [if_neg hp, hmem]

theorem mem_keyIds {v : Value} : id ∈ (keyIds (some v)).map Prod.fst ↔
    id ≠ 0 ∧ ∃ k ∈ keys v.members, parseSteamId64Loose k = id := by
  unfold keyIds keys
  simp only [Option.map_some, Option.getD_some, List.mem_map, List.mem_filterMap]
  constructor
  · rintro ⟨x, ⟨kv, hkv, hx⟩, rfl⟩
    split_ifs at hx with hzero
    cases hx
    exact ⟨hzero, kv.1, ⟨kv, hkv, rfl⟩, rfl⟩
  · rintro ⟨hzero, k, ⟨kv, hkv, rfl⟩, rfl⟩
    exact ⟨_, ⟨kv, hkv, if_neg hzero⟩, rfl⟩

theorem lastMember_names {ps : List Player} {k : Bytes} :
    lastMember k (ps.map fun p => (p.sid, some (Json.string p.name))) = none ↔
      ∀ p ∈ ps, p.sid ≠ k := by
  induction ps with
  | nil => simp [lastMember]
  | cons p ps ih =>
    rw [List.map_cons, lastMember, List.forall_mem_cons, Option.or_eq_none_iff, ih]
    by_cases hk : k = p.sid
    · simp [hk]
    · simp [hk, Ne.symm hk]

theorem mem_keys_nameList {ps : List Player} {k : Bytes} :
    k ∈ keys (nameList ps).members ↔ ∃ p ∈ ps, p.sid = k := by
  have hfind : (nameList ps).members.lookup k = none ↔ ∀ p ∈ ps, p.sid ≠ k := by
    rw [← lastMember_names]
    exact iff_of_eq (congrArg (· = none) (find_ofMembers _ k))
  rw [← not_iff_not, ← lookup_eq_none, hfind]
  simp

/-- The ids of a list of players as the match plugin reads it. -/
theorem mem_keyIds_nameList {ps : List Player} {x : Value} (h : ofJson (nameList ps) = some x) :
    id ∈ (keyIds (some x)).map Prod.fst ↔ id ≠ 0 ∧ ∃ p ∈ ps, parseSteamId64Loose p.sid = id := by
  rw [mem_keyIds, Minijson.keys_members_ofJson h]
  simp only [mem_keys_nameList]
  constructor
  · rintro ⟨hzero, k, ⟨p, hp, rfl⟩, hid⟩
    exact ⟨hzero, p, hp, hid⟩
  · rintro ⟨hzero, p, hp, hid⟩
    exact ⟨hzero, p.sid, ⟨p, hp, rfl⟩, hid⟩

end Lists

section Read

variable {matchId : Bytes} {config : Json} {cfg : Value} {id : ℕ}

theorem noDoubles_nameList (ps : List Player) : (nameList ps).NoDoubles := by
  apply all_ofMembers (fun _ => rfl)
  intro k v hm
  obtain ⟨p, -, heq⟩ := List.mem_map.mp hm
  cases (Prod.mk.inj heq).2
  rfl

/-- The names of some players as the match plugin reads them. -/
theorem ofJson_nameList (ps : List Player) : ∃ o, ofJson (nameList ps) = some (.object o) := by
  have hread := Minijson.ofJson_of_noDoubles (noDoubles_nameList ps)
  have hobject := (Minijson.isObject_ofJson hread).trans (isObject_ofMembers _)
  cases hvalue : Minijson.ofPlain (nameList ps) with
  | object o => exact ⟨o, hread.trans (congrArg some hvalue)⟩
  | _ =>
    rw [hvalue] at hobject
    cases hobject

theorem mem_listedIds_nameList (ps : List Player) :
    id ∈ (listedIds ((some (nameList ps)).bind ofJson)).map Prod.fst ↔
      id ≠ 0 ∧ ∃ p ∈ ps, parseSteamId64Loose p.sid = id := by
  obtain ⟨o, ho⟩ := ofJson_nameList ps
  have hitems : itemIds (some (.object o)) = [] := rfl
  rw [Option.bind_some, ho, listedIds, hitems, List.map_nil, List.append_nil]
  exact mem_keyIds_nameList ho

theorem mem_listedIds_nonemptyList (ps : List Player) :
    id ∈ (listedIds ((nonemptyList ps).bind ofJson)).map Prod.fst ↔
      id ≠ 0 ∧ ∃ p ∈ ps, parseSteamId64Loose p.sid = id := by
  unfold nonemptyList
  split_ifs with hnil
  · subst hnil
    simp [listedIds, keyIds, itemIds]
  · exact mem_listedIds_nameList ps

/-- A team lists the id as a player or a substitute. -/
def Plays (config : Json) (key : String) (id : ℕ) : Prop :=
  ∃ p ∈ teamPlayers config key, isCoach p = false ∧ Names p.sid id

def Coaches (config : Json) (key : String) (id : ℕ) : Prop :=
  ∃ p ∈ teamPlayers config key, isCoach p = true ∧ Names p.sid id

def Spectates (config : Json) (id : ℕ) : Prop := ∃ s ∈ spectatorIds config, Names s id

theorem exists_coach_iff :
    (∃ p ∈ allPlayers config, isCoach p = true ∧ Names p.sid id) ↔ isCoachOf config id = true := by
  unfold isCoachOf
  simp

theorem isCoachOf_iff :
    isCoachOf config id = true ↔ Coaches config "team1" id ∨ Coaches config "team2" id := by
  rw [← exists_coach_iff]
  unfold allPlayers Coaches
  simp only [List.mem_append, or_and_right, exists_or]

theorem not_coach_zero : isCoachOf config 0 = false := by
  rw [Bool.eq_false_iff]
  intro hcoach
  obtain ⟨p, -, -, hzero, -⟩ := exists_coach_iff.mpr hcoach
  exact hzero rfl

theorem exists_player_iff {ps : List Player} (q : Player → Bool) :
    (id ≠ 0 ∧ ∃ p ∈ ps.filter q, parseSteamId64Loose p.sid = id) ↔
      ∃ p ∈ ps, q p = true ∧ Names p.sid id := by
  constructor
  · rintro ⟨hzero, p, hp, hid⟩
    obtain ⟨hp, hq⟩ := List.mem_filter.mp hp
    exact ⟨p, hp, hq, hzero, hid⟩
  · rintro ⟨p, hp, hq, hzero, hid⟩
    exact ⟨hzero, p, List.mem_filter.mpr ⟨hp, hq⟩, hid⟩

section Team

variable {key : String} {src : Json} (hcfg : ofJson (matConfig matchId config) = some cfg)
  (hkey : key = "team1" ∨ key = "team2") (hsrc : obj config key = some src)

include hcfg hkey hsrc

theorem mem_teamRoster :
    id ∈ (teamRoster (teamValue cfg key)).map Prod.fst ↔ Plays config key id := by
  have hplayers : (teamValue cfg key).get "players" =
      (some (nameList ((teamPlayers config key).filter (!isCoach ·)))).bind ofJson := by
    rw [get_teamValue hcfg hkey hsrc (by decide)]
    simp [lastField, teamFields]
  have hsubs : (teamValue cfg key).get "substitutes" =
      (nonemptyList ((teamPlayers config key).filter isSub)).bind ofJson := by
    rw [get_teamValue hcfg hkey hsrc (by decide)]
    simp [lastField, teamFields]
  obtain ⟨o, ho⟩ := ofJson_nameList ((teamPlayers config key).filter (!isCoach ·))
  unfold teamRoster teamSubstitutes
  rw [List.map_append, List.mem_append, hsubs, hplayers, mem_listedIds_nonemptyList,
    Option.bind_some, ho, mem_keyIds_nameList ho, exists_player_iff, exists_player_iff]
  simp only [Bool.not_eq_true']
  refine ⟨?_, .inr⟩
  rintro (⟨p, hp, hsub, hid⟩ | h)
  · -- a substitute is listed among the players too
    refine ⟨p, hp, ?_, hid⟩
    rw [isSub, beq_iff_eq] at hsub
    rw [isCoach, hsub]
    decide
  · exact h

theorem mem_teamCoaches :
    id ∈ (Config.teamCoaches (teamValue cfg key)).map Prod.fst ↔ Coaches config key id := by
  have hcoaches : (teamValue cfg key).get "coaches" =
      (nonemptyList ((teamPlayers config key).filter isCoach)).bind ofJson := by
    rw [get_teamValue hcfg hkey hsrc (by decide)]
    simp [lastField, teamFields]
  unfold Config.teamCoaches
  rw [hcoaches, mem_listedIds_nonemptyList]
  exact exists_player_iff isCoach

end Team

end Read

section Context

variable {matchId : Bytes} {config : Json} {cfg : Value} {id : ℕ} {src₁ src₂ : Json}

theorem mem_itemIds_texts {l : List Bytes} :
    id ∈ itemIds ((some (Json.array (l.map .string))).bind ofJson) ↔
    id ≠ 0 ∧ ∃ s ∈ l, parseSteamId64Loose s = id := by
  have hplain : (Json.array (l.map .string)).NoDoubles :=
    Json.all_array.mpr ⟨rfl, List.forall_mem_map.mpr fun s _ => rfl⟩
  rw [Option.bind_some, Minijson.ofJson_of_noDoubles hplain, Minijson.ofPlain,
    Minijson.ofPlainItems_eq, List.map_map]
  unfold itemIds
  simp only [Option.map_some, Option.getD_some, Value.items, List.mem_filterMap, List.mem_map]
  constructor
  · rintro ⟨x, ⟨s, hs, rfl⟩, hx⟩
    simp only [Function.comp_apply, Minijson.ofPlain, Value.asString, Option.bind_some] at hx
    split_ifs at hx with hzero
    cases hx
    exact ⟨hzero, s, hs, rfl⟩
  · rintro ⟨hzero, s, hs, rfl⟩
    exact ⟨_, ⟨s, hs, rfl⟩, if_neg hzero⟩

theorem mem_keys_addSpectator {j s : Json} {k : Bytes} :
    k ∈ keys (addSpectator j s).members ↔ k ∈ keys j.members ∨ k = asString s := by
  unfold addSpectator
  split_ifs with hold
  · obtain ⟨v, hv⟩ := Option.isSome_iff_exists.mp hold
    have hmem : asString s ∈ keys j.members := mem_keys_of_mem (mem_of_lookup hv)
    constructor
    · exact .inl
    · rintro (h | rfl)
      · exact h
      · exact hmem
  · unfold Json.set
    exact mem_keys_assign.trans or_comm

/-- The ids among the spectators: the coaches and the ones that are listed. -/
theorem mem_keys_spectatorPlayers {k : Bytes} : k ∈ keys (spectatorPlayers config).members ↔
    (∃ p ∈ allPlayers config, isCoach p = true ∧ p.sid = k) ∨ k ∈ spectatorIds config := by
  have hfold : ∀ (ss : List Json) (j : Json), k ∈ keys (ss.foldl addSpectator j).members ↔
      k ∈ keys j.members ∨ k ∈ ss.map asString := by
    intro ss
    induction ss with
    | nil => simp
    | cons s ss ih =>
      intro j
      rw [List.foldl_cons, ih, mem_keys_addSpectator, List.map_cons, List.mem_cons, or_assoc]
  unfold spectatorPlayers spectatorIds
  rw [hfold, mem_keys_nameList]
  simp only [List.mem_filter, and_assoc]

theorem noDoubles_spectatorPlayers (config : Json) : (spectatorPlayers config).NoDoubles := by
  apply spectatorPlayers_invariant (noDoubles_nameList _)
  intro specs k h _
  unfold Json.set
  rw [Json.NoDoubles, Json.all_object]
  refine ⟨rfl, fun j v hm => ?_⟩
  rcases mem_assign hm with heq | hm
  · cases (Prod.mk.inj heq).2
    rfl
  · cases specs with
    | object ms => exact (Json.all_object.mp h).2 j v hm
    | _ => cases hm

theorem zero_notMem_keyIds {v : Option Value} : 0 ∉ (keyIds v).map Prod.fst := by
  cases v with
  | none => simp [keyIds]
  | some v =>
    rw [mem_keyIds]
    exact fun h => h.1 rfl

theorem ascii_players :
    [("players", some (spectatorPlayers config))].all (fun kv => isAscii kv.1) = true := by
  simp only [List.all_cons, List.all_nil]
  decide

theorem zero_notMem_itemIds {v : Option Value} : 0 ∉ itemIds v := by
  unfold itemIds
  rw [List.mem_filterMap]
  rintro ⟨x, -, hx⟩
  obtain ⟨s, -, hs⟩ := Option.bind_eq_some_iff.mp hx
  split_ifs at hs with hzero
  exact hzero (Option.some.inj hs)

section Loaded

variable (hcfg : ofJson (matConfig matchId config) = some cfg)

include hcfg

theorem mem_itemIds_coaches : id ∈ itemIds (cfg.get "coaches") ↔ isCoachOf config id = true := by
  have hget : cfg.get "coaches" =
      (some (Json.array ((((allPlayers config).filter isCoach).map (·.sid)).map .string))).bind
        ofJson := by
    rw [get_matConfig hcfg (by decide), List.map_map]
    simp [lastField, configFields, mapFields, ruleFields, walkoverFields]
    rfl
  rw [hget, mem_itemIds_texts, ← exists_coach_iff, ← exists_player_iff]
  simp only [List.mem_map, exists_exists_and_eq_and]

theorem mem_spectatorsOf :
    id ∈ Config.spectatorsOf cfg ↔ isCoachOf config id = true ∨ Spectates config id := by
  have hget : cfg.get "spectators" =
      (some (ofFields [("players", some (spectatorPlayers config))])).bind ofJson := by
    rw [get_matConfig hcfg (by decide)]
    simp [lastField, configFields, mapFields, ruleFields, walkoverFields]
  have hnoDoubles := noDoubles_spectatorPlayers config
  have hread := Minijson.ofJson_of_noDoubles hnoDoubles
  have hplayers : ((cfg.get "spectators").bind fun s => s.get "players") =
      some (Minijson.ofPlain (spectatorPlayers config)) := by
    obtain ⟨x, hx⟩ :
        ∃ x, ofJson (ofFields [("players", some (spectatorPlayers config))]) = some x := by
      have hall : (ofFields [("players", some (spectatorPlayers config))]).NoDoubles := by
        apply all_ofMembers (fun _ => rfl)
        intro k v hm
        obtain ⟨p, hp, heq⟩ := List.mem_map.mp hm
        rw [List.mem_singleton.mp hp] at heq
        cases (Prod.mk.inj heq).2
        exact hnoDoubles
      exact ⟨_, Minijson.ofJson_of_noDoubles hall⟩
    rw [hget, Option.bind_some, hx, Option.bind_some, Minijson.get_ofJson hx,
      find_ofFields (by decide) ascii_players]
    simp [lastField, hread]
  rw [Config.spectatorsOf, hplayers, mem_insertIds zero_notMem_keyIds, mem_keyIds,
    Minijson.keys_members_ofJson hread]
  simp only [mem_keys_spectatorPlayers, List.not_mem_nil, false_or]
  rw [← exists_coach_iff]
  constructor
  · rintro ⟨hzero, k, (⟨p, hp, hcoach, rfl⟩ | hk), hid⟩
    · exact .inl ⟨p, hp, hcoach, hzero, hid⟩
    · exact .inr ⟨k, hk, hzero, hid⟩
  · rintro (⟨p, hp, hcoach, hzero, hid⟩ | ⟨k, hk, hzero, hid⟩)
    · exact ⟨hzero, p.sid, .inl ⟨p, hp, hcoach, rfl⟩, hid⟩
    · exact ⟨hzero, k, .inr hk, hid⟩

end Loaded

section Teams

variable (hcfg : ofJson (matConfig matchId config) = some cfg)
    (hsrc₁ : obj config "team1" = some src₁)
  (hsrc₂ : obj config "team2" = some src₂)

include hcfg hsrc₁ hsrc₂

open Classical in
theorem lookup_rosterTeamOf : (Config.rosterTeamOf cfg).lookup id =
    if Plays config "team2" id then some .team2
    else if Plays config "team1" id then some .team1 else none := by
  rw [Config.rosterTeamOf, lookup_assignTeam, lookup_assignTeam]
  simp only [mem_teamRoster hcfg (.inl rfl) hsrc₁, mem_teamRoster hcfg (.inr rfl) hsrc₂]
  rfl

theorem isCoachOf_of_mem_coachTeamOf (h : id ∈ keys (Config.coachTeamOf cfg)) :
    isCoachOf config id = true := by
  classical
  obtain ⟨kv, hkv, rfl⟩ := List.mem_map.mp h
  have hkey : kv.1 ∈ keys (assignTeam .team2 (Config.teamCoaches (teamValue cfg "team2"))
      (assignTeam .team1 (Config.teamCoaches (teamValue cfg "team1")) [])) :=
    List.mem_map_of_mem (List.mem_of_mem_filter hkv)
  have hsome := lookup_eq_none.not.mpr (not_not.mpr hkey)
  rw [lookup_assignTeam, lookup_assignTeam] at hsome
  simp only [mem_teamCoaches hcfg (.inl rfl) hsrc₁, mem_teamCoaches hcfg (.inr rfl) hsrc₂] at hsome
  rw [isCoachOf_iff]
  by_contra hno
  obtain ⟨hno₁, hno₂⟩ := not_or.mp hno
  rw [if_neg hno₂, if_neg hno₁] at hsome
  exact hsome rfl

theorem mem_coachesOf : id ∈ Config.coachesOf cfg ↔ isCoachOf config id = true := by
  have hzero : 0 ∉ keys (Config.coachTeamOf cfg) := by
    intro h
    have hcoach := isCoachOf_of_mem_coachTeamOf hcfg hsrc₁ hsrc₂ h
    rw [not_coach_zero] at hcoach
    cases hcoach
  rw [Config.coachesOf, mem_insertIds hzero, mem_insertIds zero_notMem_itemIds,
    mem_itemIds_coaches hcfg]
  simp only [List.not_mem_nil, false_or, or_iff_left_iff_imp]
  exact isCoachOf_of_mem_coachTeamOf hcfg hsrc₁ hsrc₂

end Teams

end Context

section Loaded

variable {server rs rs' : Ruleset} {overrides : RuleMap} {matchId : Bytes}
    {config : Json} {c : Json}
  {ctx ctx' : WebhookMatchContext} {id : ℕ}

theorem spectators_withRuleset (h : withRuleset ctx c rs = .ok (ctx', rs')) :
    ctx'.spectators = ctx.spectators := by
  rw [withRuleset] at h
  split_ifs at h <;> cases h <;> rfl

theorem wingman_withRuleset (h : withRuleset ctx c rs = .ok (ctx', rs')) :
    rs' = if ctx.wingman then .default else rs := by
  have hwingman : ctx'.wingman = ctx.wingman := congrArg (·.wingman) (unruled_withRuleset h)
  rw [withRuleset] at h
  cases rs with
  | default =>
    simp only [reduceCtorEq, and_false, if_false, Except.ok.injEq, Prod.mk.injEq] at h
    rw [← h.2, ite_self]
  | valve =>
    cases hw : ctx.wingman <;> split_ifs at h <;> simp_all

theorem spectators_engineOvertime (ctx : WebhookMatchContext) (rs : Ruleset) :
    (engineOvertime ctx rs).spectators = ctx.spectators := by
  rw [engineOvertime]
  split_ifs <;> rfl

theorem mem_seatCoaches {e : EffectiveRuleSet} (hzero : 0 ∉ ctx.coaches) :
    id ∈ (seatCoaches ctx e).spectators ↔
    if coachesAdmitted e = true then id ∈ ctx.spectators ∨ id ∈ ctx.coaches
    else id ∈ ctx.spectators ∧ id ∉ ctx.coaches := by
  unfold seatCoaches
  split_ifs with hnone hadmitted hadmitted
  · simp [hnone]
  · simp [hnone]
  · exact mem_insertIds hzero
  · simp

/-- The coaches among the spectators of a context that plays by the rules. -/
theorem mem_spectators_ruled (hzero : 0 ∉ ctx.coaches) : id ∈ (ruled ctx rs overrides).spectators ↔
    if coachesAdmitted (contextRules ctx rs overrides) = true then
      id ∈ ctx.spectators ∨ id ∈ ctx.coaches
    else id ∈ ctx.spectators ∧ id ∉ ctx.coaches := by
  have hcoaches : (engineOvertime ctx rs).coaches = ctx.coaches :=
    congrArg (·.coaches) (unruled_engineOvertime ctx rs)
  have hruled :
      (ruleOvertime (engineOvertime ctx rs) rs overrides (contextRules ctx rs overrides)).coaches =
      ctx.coaches := hcoaches
  have hspectators :
      (ruleOvertime (engineOvertime ctx rs) rs overrides
        (contextRules ctx rs overrides)).spectators =
      ctx.spectators := spectators_engineOvertime ctx rs
  rw [ruled, mem_seatCoaches (by rwa [hruled]), hruled, hspectators]

theorem unruled_ruled (ctx : WebhookMatchContext) (rs : Ruleset) (overrides : RuleMap) :
    (ruled ctx rs overrides).unruled = ctx.unruled := by
  rw [ruled, unruled_seatCoaches]
  exact unruled_engineOvertime ctx rs

variable {src₁ src₂ : Json} (hsound : Sound config)
    (hruleset : validateRuleset server config = .ok ())
  (hsrc₁ : obj config "team1" = some src₁) (hsrc₂ : obj config "team2" = some src₂)
  (hctx : contextOf server matchId config = .ok ctx)

include hsound hruleset hsrc₁ hsrc₂ hctx

open Classical in
/-- The seats of the context, by what the configuration lists. -/
theorem seats_contextOf :
    ctx.rosterTeam.lookup id =
        (if Plays config "team2" id then some .team2 else if Plays config "team1" id then
          some .team1 else none) ∧
      (id ∈ ctx.spectators ↔ if admits config server ctx = true
        then isCoachOf config id = true ∨ Spectates config id
        else Spectates config id ∧ isCoachOf config id = false) := by
  obtain ⟨⟨rs, overrides⟩, hchoice⟩ := exists_ruleChoice hruleset
  obtain ⟨cfg, num, ctx₁, rs₁, hcfg, hwith, hruled⟩ := ruled_contextOf hsound hchoice hctx
  generalize hctx₂ : { ctx₁ with overridesJson := overridesToText overrides } = ctx₂ at hruled
  subst hruled
  have hread : ctx₂.unruled = (Config.readContext cfg matchId num).unruled := by
    rw [← unruled_withRuleset hwith, ← hctx₂]
    rfl
  have hspectators : ctx₂.spectators = Config.spectatorsOf cfg := by
    rw [← hctx₂]
    exact spectators_withRuleset hwith
  have hcoaches : ctx₂.coaches = Config.coachesOf cfg := congrArg (·.coaches) hread
  have hzero : 0 ∉ ctx₂.coaches := by
    rw [hcoaches, mem_coachesOf hcfg hsrc₁ hsrc₂, not_coach_zero]
    exact Bool.false_ne_true
  have hframe := unruled_ruled ctx₂ rs₁ overrides
  constructor
  · rw [← lookup_rosterTeamOf hcfg hsrc₁ hsrc₂]
    exact congrArg (fun ctx => ctx.rosterTeam.lookup id) (hframe.trans hread)
  · have hadmits : admits config server (ruled ctx₂ rs₁ overrides) =
        coachesAdmitted (contextRules ctx₂ rs₁ overrides) := by
      have hrules : (ruled ctx₂ rs₁ overrides).rules = ctx₂.rules := congrArg (·.rules) hframe
      have hcvars : (ruled ctx₂ rs₁ overrides).cvars = ctx₂.cvars := congrArg (·.cvars) hframe
      have hwingman :
          (ruled ctx₂ rs₁ overrides).wingman = (Config.readContext cfg matchId num).wingman :=
        congrArg (·.wingman) (hframe.trans hread)
      unfold admits contextRules
      simp only [hchoice, hwingman, ← wingman_withRuleset hwith, hrules, hcvars]
    rw [mem_spectators_ruled hzero, hadmits, hspectators, hcoaches, mem_spectatorsOf hcfg,
      mem_coachesOf hcfg hsrc₁ hsrc₂]
    cases isCoachOf config id <;> simp

end Loaded

section Agreement

variable {config : Json} {id : ℕ} {s : Bytes} {seat : Seat}

/-- `TeamOf` answers with the first listing of the number as it is written. -/
theorem teamOf_eq (config : Json) (id : ℕ) :
    teamOf config id = ((listings config).find? (·.1 == decimal id)).map (·.2) := by
  have hteam : ∀ key seat, rosterSeat config id key seat =
      ((teamListings config key seat).find? (·.1 == decimal id)).map (·.2) := by
    intro key seat
    rw [rosterSeat, teamListings, List.find?_map, Option.map_map]
    rfl
  have hspectators : (if decimal id ∈ spectatorIds config then some Seat.spectator else none) =
      (((spectatorIds config).map (·, Seat.spectator)).find? (·.1 == decimal id)).map (·.2) := by
    rw [List.find?_map, Option.map_map]
    cases hfind : (spectatorIds config).find?
      ((fun p : Bytes × Seat => p.1 == decimal id) ∘ (·, .spectator)) with
    | none =>
      have hnot : decimal id ∉ spectatorIds config := fun hmem => by
        simpa using List.find?_eq_none.mp hfind _ hmem
      rw [if_neg hnot]
      rfl
    | some s =>
      have hs : s = decimal id := by simpa using List.find?_some hfind
      rw [if_pos (hs ▸ List.mem_of_find?_eq_some hfind)]
      rfl
  rw [teamOf, hteam, hteam, hspectators, listings, List.find?_append, List.find?_append,
    Option.map_or, Option.map_or, Option.or_assoc]

/-- The seat of a listing of a team, by what the player is. -/
theorem exists_teamListings {key : String} {team : Seat} (hteam : team ≠ .spectator) :
    (∃ s, (s, seat) ∈ teamListings config key team ∧ Names s id) ↔
      (seat = team ∧ Plays config key id) ∨ (seat = .spectator ∧ Coaches config key id) := by
  unfold teamListings Plays Coaches
  constructor
  · rintro ⟨s, hmem, hid⟩
    obtain ⟨p, hp, heq⟩ := List.mem_map.mp hmem
    obtain ⟨rfl, rfl⟩ := Prod.mk.inj heq
    cases hcoach : isCoach p with
    | true => exact .inr ⟨if_pos rfl, p, hp, hcoach, hid⟩
    | false => exact .inl ⟨if_neg Bool.false_ne_true, p, hp, hcoach, hid⟩
  · rintro (⟨rfl, p, hp, hcoach, hid⟩ | ⟨rfl, p, hp, hcoach, hid⟩)
    · exact ⟨p.sid, List.mem_map.mpr ⟨p, hp, by rw [hcoach]; rfl⟩, hid⟩
    · exact ⟨p.sid, List.mem_map.mpr ⟨p, hp, by rw [hcoach]; rfl⟩, hid⟩

theorem exists_listings_iff :
    (∃ s, (s, seat) ∈ listings config ∧ Names s id) ↔
      match seat with
      | .team1 => Plays config "team1" id
      | .team2 => Plays config "team2" id
      | .spectator => isCoachOf config id = true ∨ Spectates config id := by
  have hspectators : (∃ s, (s, seat) ∈ (spectatorIds config).map (·, Seat.spectator) ∧ Names s id) ↔
      seat = .spectator ∧ Spectates config id := by
    unfold Spectates
    simp only [List.mem_map, Prod.mk.injEq]
    constructor
    · rintro ⟨s, ⟨t, ht, rfl, rfl⟩, hid⟩
      exact ⟨rfl, t, ht, hid⟩
    · rintro ⟨rfl, t, ht, hid⟩
      exact ⟨t, ⟨t, ht, rfl, rfl⟩, hid⟩
  unfold listings
  simp only [List.mem_append, or_and_right, exists_or, hspectators,
    exists_teamListings (show Seat.team1 ≠ .spectator by decide),
    exists_teamListings (show Seat.team2 ≠ .spectator by decide),
    isCoachOf_iff]
  cases seat <;> simp [or_assoc]

/-- The seat of the context is the one that the configuration answers, but for a coach who is not
admitted. -/
theorem contextSeat_eq {server : Ruleset} {matchId : Bytes} {ctx : WebhookMatchContext}
    {src₁ src₂ : Json} (hsound : Sound config) (hruleset : validateRuleset server config = .ok ())
    (hsrc₁ : obj config "team1" = some src₁) (hsrc₂ : obj config "team2" = some src₂)
    (hctx : contextOf server matchId config = .ok ctx) (h : Agreed config id) : contextSeat id ctx =
      if isCoachOf config id = true ∧ admits config server ctx = false then none
      else teamOf config id := by
  classical
  obtain ⟨hroster, hspectators⟩ :=
    @seats_contextOf server matchId config ctx id src₁ src₂ hsound hruleset hsrc₁ hsrc₂ hctx
  -- the listings of the id, by the seat they are for
  have hteam1 : Plays config "team1" id ↔ ∃ s, (s, Seat.team1) ∈ listings config ∧ Names s id :=
    (@exists_listings_iff config id .team1).symm
  have hteam2 : Plays config "team2" id ↔ ∃ s, (s, Seat.team2) ∈ listings config ∧ Names s id :=
    (@exists_listings_iff config id .team2).symm
  have hspectator : (isCoachOf config id = true ∨ Spectates config id) ↔
      ∃ s, (s, Seat.spectator) ∈ listings config ∧ Names s id :=
    (@exists_listings_iff config id .spectator).symm
  unfold contextSeat
  rw [hroster, teamOf_eq]
  cases hfind : (listings config).find? (·.1 == decimal id) with
  | none =>
    have hlisted : decimal id ∉ listed config := by
      intro hmem
      obtain ⟨p, hp, hid⟩ := List.mem_map.mp hmem
      simpa [hid] using List.find?_eq_none.mp hfind p hp
    have hnone : ∀ seat, ¬∃ s, (s, seat) ∈ listings config ∧ Names s id := by
      rintro seat ⟨s, hs, hid⟩
      exact hlisted (h.found s (List.mem_map_of_mem hs) hid)
    have hno := hspectator.not.mpr (hnone .spectator)
    rw [not_or, Bool.not_eq_true] at hno
    rw [if_neg (hteam2.not.mpr (hnone _)), if_neg (hteam1.not.mpr (hnone _))]
    simp [hspectators, hno.1, hno.2]
  | some p =>
    obtain ⟨t, seat⟩ := p
    have hp := List.mem_of_find?_eq_some hfind
    obtain rfl : t = decimal id := by simpa using List.find?_some hfind
    have hid := h.named (List.mem_map_of_mem hp)
    have hseat : ∀ seat', (∃ s, (s, seat') ∈ listings config ∧ Names s id) ↔ seat' = seat := by
      intro seat'
      constructor
      · rintro ⟨s, hs, hname⟩
        exact h.seats _ hs _ hp hname hid
      · rintro rfl
        exact ⟨_, hp, hid⟩
    rw [hseat] at hteam1 hteam2 hspectator
    cases seat with
    | team1 => simp_all
    | team2 => simp_all
    | spectator =>
      have hlisted := hspectator.mpr rfl
      simp only [hteam1, hteam2, reduceCtorEq, if_false, hspectators, Option.map_some]
      cases hcoach : isCoachOf config id with
      | false =>
        have hspectates : Spectates config id :=
          hlisted.resolve_left (by rw [hcoach]; exact Bool.false_ne_true)
        simp [hspectates]
      | true => cases admits config server ctx <;> simp

end Agreement

end ReadyUp.Config.Assign
