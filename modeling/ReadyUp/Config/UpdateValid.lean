import Mathlib.Logic.Function.Basic
import ReadyUp.Config.Commands
import ReadyUp.Config.JsonEdits

/-!
# When an update leaves a configuration that is accepted

Of everything that `validateAssign` looks at, an accepted update can break three things: the number
of players of a team, `rules.bot_fill`, and what `rules.broadcast` and the text of the rules are to
the tv plugin. `rosterStep` and `rulesStep` follow the teams and the rules of a configuration
through the operations, `Kept` is what holds of the copy after each of them, and `update_valid_iff`
says that the updated configuration is accepted exactly when the teams and the rules that come out
are.
-/
namespace ReadyUp.Config.Assign

open Support Status

section Rosters

/-- The id of a player of a roster list. -/
def playerId (p : Json) : Bytes := str p "steamid64" []

/-- The ids of the players of a team. -/
def rosterOf (config : Json) (key : String) : List Bytes :=
  (((obj config key).bind fun t => arr t "players").getD []).map playerId

/-- What an operation does to the teams. -/
def rosterStep (ids : String → List Bytes) (op : Json) : String → List Bytes :=
  let kind := str op "op" []
  let sid := str op "steamid64" []
  let left := fun key => (ids key).filter (· ≠ sid)
  if kind = ascii "add_player" then
    if isTeam (str op "team" []) then
      Function.update left (teamKey (str op "team" [])) (left (teamKey (str op "team" [])) ++ [sid])
    else left
  else if kind = ascii "remove_player" then left
  else ids

/-- What an operation does to the rules. -/
def rulesStep (rules : Option Json) (op : Json) : Option Json :=
  if str op "op" [] = ascii "set_rules" then
    match obj op "rules" with
    | some r => some (mergePatchApply (rules.getD (.object [])) r)
    | none => rules
  else rules

/-- A team that is accepted, up to the number of its players. -/
def TeamOk (ids : List Bytes) (t : Json) : Prop :=
  t.isObject = true ∧ Within plainScalar t ∧
  (str t "name" [] ≠ [] ∧ (str t "name" []).length ≤ 64) ∧
    (get t "captain").all validSteam = true ∧
    ∃ ps, arr t "players" = some ps ∧ ps.map playerId = ids ∧ ∀ p ∈ ps, validPlayer p = .ok ()

theorem checkTeam_iff {ids : List Bytes} {t : Json} (h : TeamOk ids t) :
    checkTeam (some t) = .ok () ↔ ids.length ≤ 32 := by
  obtain ⟨-, -, hname, hcaptain, ps, hps, rfl, hplayers⟩ := h
  unfold checkTeam
  simp only [hps]
  rw [List.length_map]
  constructor
  · intro hok
    obtain ⟨-, -, hok⟩ := bind_eq_ok.mp hok
    obtain ⟨⟨⟩, hlen, -⟩ := bind_eq_ok.mp hok
    simpa using hlen
  · intro hlen
    simp only [bind_eq_ok, check_eq_ok, checkAll_eq_ok]
    refine ⟨(), by simpa using hname, (), by simpa using hlen, (), fun p hp =>
      hplayers p hp, hcaptain⟩

theorem teamOk_of_checkTeam {t : Json} (hobj : t.isObject = true) (hplain : Within plainScalar t)
    (h : checkTeam (some t) = .ok ()) :
    ∃ ps, arr t "players" = some ps ∧ TeamOk (ps.map playerId) t := by
  unfold checkTeam at h
  obtain ⟨⟨⟩, hname, h⟩ := bind_eq_ok.mp h
  split at h
  · cases h
  · rename_i ps hps
    obtain ⟨-, -, h⟩ := bind_eq_ok.mp h
    obtain ⟨⟨⟩, hplayers, hcaptain⟩ := bind_eq_ok.mp h
    rw [checkAll_eq_ok] at hplayers
    rw [check_eq_ok] at hcaptain hname
    exact ⟨ps, hps, hobj, hplain, by simpa using hname, hcaptain, ps, hps, rfl, hplayers⟩

theorem TeamOk.putPlayers {ids : List Bytes} {t : Json} (h : TeamOk ids t) {ps : List Json}
    (hplain : ∀ p ∈ ps, Within plainScalar p) (hvalid : ∀ p ∈ ps, validPlayer p = .ok ()) :
    TeamOk (ps.map playerId) (put t "players" (.array ps)) := by
  obtain ⟨-, hwithin, hname, hcaptain, -⟩ := h
  refine ⟨rfl, hwithin.put scalar_plainScalar ((within_array_iff scalar_plainScalar).mpr hplain) _,
    ?_, ?_, ps, arr_put_self ps, rfl, hvalid⟩
  · unfold str at hname ⊢
    rw [get_put_of_ne (by decide)]
    exact hname
  · rw [get_put_of_ne (by decide)]
    exact hcaptain

theorem TeamOk.putName {ids : List Bytes} {t : Json} (h : TeamOk ids t) {name : Bytes}
    (hname : name ≠ [] ∧ name.length ≤ 64) : TeamOk ids (put t "name" (.string name)) := by
  obtain ⟨-, hwithin, -, hcaptain, ps, hps, hids, hvalid⟩ := h
  refine ⟨rfl, hwithin.put scalar_plainScalar (within_string scalar_plainScalar name) _, ?_, ?_, ps,
    ?_, hids, hvalid⟩
  · unfold str
    rw [get_put_self]
    exact hname
  · rw [get_put_of_ne (by decide)]
    exact hcaptain
  · rw [arr_congr (get_put_of_ne (by decide) t (.string name))]
    exact hps

theorem isPlayer_iff {p : Json} (hp : validPlayer p = .ok ()) (sid : Bytes) :
    isPlayer sid p = true ↔ playerId p = sid := by
  obtain ⟨⟨⟩, hsid, -⟩ := bind_eq_ok.mp hp
  rw [check_eq_ok] at hsid
  unfold isPlayer playerId str
  cases hget : get p "steamid64" with
  | none =>
    rw [hget] at hsid
    cases hsid
  | some s =>
    rw [hget, Option.any_some] at hsid
    cases s with
    | string x => simp [asString]
    | _ => cases hsid

theorem map_filter_isPlayer {ps : List Json} (hps : ∀ p ∈ ps, validPlayer p = .ok ())
    (sid : Bytes) :
    (ps.filter fun p => !isPlayer sid p).map playerId = (ps.map playerId).filter (· ≠ sid) := by
  induction ps with
  | nil => rfl
  | cons p ps ih =>
    rw [List.forall_mem_cons] at hps
    have hp := isPlayer_iff hps.1 sid
    rw [List.map_cons, List.filter_cons, List.filter_cons, ← ih hps.2]
    cases hplayer : isPlayer sid p with
    | true => simp [hp.mp hplayer]
    | false =>
      have hne : playerId p ≠ sid := by
        intro heq
        rw [hp.mpr heq] at hplayer
        cases hplayer
      simp [hne]

theorem newPlayer_ok {sid name role : Bytes} (hsid : isDigits sid 20 = true)
    (hrole : isRole role = true) :
    validPlayer (newPlayer sid name role) = .ok () ∧ playerId (newPlayer sid name role) = sid ∧
      Within plainScalar (newPlayer sid name role) := by
  have hget : get (newPlayer sid name role) "steamid64" = some (.string sid) := by
    unfold newPlayer
    rw [get_put_of_ne (by decide), get_put_of_ne (by decide), get_put_self]
  have hrole' : str (newPlayer sid name role) "role" (ascii "player") = role := by
    unfold str newPlayer
    rw [get_put_self]
  refine ⟨?_, ?_, ?_⟩
  · unfold validPlayer
    rw [hget, hrole']
    simp [bind_eq_ok, validSteam, hsid, hrole]
  · unfold playerId str
    rw [hget]
  · have hempty : Within plainScalar (.object []) := ⟨rfl, rfl⟩
    exact ((hempty.put scalar_plainScalar (within_string scalar_plainScalar _) _).put
        scalar_plainScalar (within_string scalar_plainScalar _) _).put
      scalar_plainScalar (within_string scalar_plainScalar _) _

theorem language_ok {p : Json} (hp : validPlayer p = .ok ()) (hplain : Within plainScalar p)
    (language : Bytes) : validPlayer (put p "language" (.string language)) = .ok () ∧
      playerId (put p "language" (.string language)) = playerId p ∧
      Within plainScalar (put p "language" (.string language)) := by
  refine ⟨?_, ?_, hplain.put scalar_plainScalar (within_string scalar_plainScalar _) _⟩
  · unfold validPlayer str at hp ⊢
    rw [get_put_of_ne (by decide), get_put_of_ne (by decide)]
    exact hp
  · unfold playerId str
    rw [get_put_of_ne (by decide)]

end Rosters

section Checks

variable {server : Ruleset} {c c' : Json}

theorem mapsOk_congr (hnum : get c' "num_maps" = get c "num_maps")
    (hmaps : get c' "maps" = get c "maps") : mapsOk c' = mapsOk c := by
  unfold mapsOk int
  rw [hnum, arr_congr hmaps]

theorem validBotFill_congr (hrules : get c' "rules" = get c "rules") :
    validBotFill c' = validBotFill c := by
  unfold validBotFill
  rw [obj_congr hrules]

theorem validList_congr {list : String} (h : get c' list = get c list) :
    validList c' list = validList c list := by
  unfold validList
  rw [h]

theorem validateAssignConfig_congr {x x' : Minijson.Value} (hrules : x'.get "rules" = x.get "rules")
    (hcvars : x'.get "cvars" = x.get "cvars") :
    Broadcast.validateAssignConfig x' = Broadcast.validateAssignConfig x := by
  unfold Broadcast.validateAssignConfig Broadcast.profileFromAssign Broadcast.delayFloor
    Broadcast.rulesFloor
    Broadcast.checkCvars
  rw [hrules, hcvars]

/-- The check of the broadcast reads the rules and the cvars, of a configuration that it can
read. -/
theorem validateAssignConfigText_congr (hc : Within Json.inRange c) (hc' : Within Json.inRange c')
    (hobj : c.isObject = true) (hobj' : c'.isObject = true)
    (hread : c'.all readable = true ↔ c.all readable = true)
    (hrules : get c' "rules" = get c "rules") (hcvars : get c' "cvars" = get c "cvars") :
    Broadcast.validateAssignConfigText c'.dump = Broadcast.validateAssignConfigText c.dump := by
  unfold Broadcast.validateAssignConfigText
  rw [Minijson.parse_dump hc.unique hc.all, Minijson.parse_dump hc'.unique hc'.all]
  rw [← isSome_ofJson_iff, ← isSome_ofJson_iff] at hread
  cases hx : Minijson.ofJson c with
  | none =>
    cases hx' : Minijson.ofJson c' with
    | none => rfl
    | some x' => simp [hx, hx'] at hread
  | some x =>
    cases hx' : Minijson.ofJson c' with
    | none => simp [hx, hx'] at hread
    | some x' =>
      have hget : ∀ key, get c' key = get c key → x'.get key = x.get key := by
        intro key hkey
        rw [Minijson.get_ofJson hx, Minijson.get_ofJson hx']
        exact congrArg (·.bind Minijson.ofJson) hkey
      have hsame := validateAssignConfig_congr (hget "rules" hrules) (hget "cvars" hcvars)
      have hxobj := (Minijson.isObject_ofJson hx).trans hobj
      have hxobj' := (Minijson.isObject_ofJson hx').trans hobj'
      cases x with
      | object o =>
        cases x' with
        | object o' => exact hsame
        | _ => cases hxobj'
      | _ => cases hxobj

end Checks

section Kept

variable {server : Ruleset} {config c : Json} {ids ids' : String → List Bytes} {rules : Option Json}

/-- What holds of the copy after each operation. -/
structure Kept (server : Ruleset) (config : Json) (ids : String → List Bytes) (rules : Option Json)
    (c : Json) : Prop where
  isObject : c.isObject = true
  nodup : (keys c.members).Nodup
  plain : ∀ k v, (k, v) ∈ c.members → k ≠ ascii "rules" → Within plainScalar v
  rulesOk : ∀ r, rules = some r → r.isObject = true ∧ Within Json.inRange r
  get_rules : get c "rules" = rules
  others : ∀ key ∈ ["num_maps", "maps", "admins", "cvars"], get c key = get config key
  team : ∀ key ∈ ["team1", "team2"], ∃ t, get c key = some t ∧ TeamOk (ids key) t
  spectators : validList c "spectators" = .ok ()
  password : ∃ pw, get c "password" = some (.string pw) ∧ validPassword pw = true
  ruleset : validateRuleset server c = .ok ()

theorem Kept.put (h : Kept server config ids rules c) {key : String} {v : Json}
    (hkey : key ∈ ["team1", "team2", "spectators", "password"]) (hv : Within plainScalar v)
    (hteam : ∀ k ∈ ["team1", "team2"], ∃ t, get (put c key v) k = some t ∧ TeamOk (ids' k) t)
    (hspectators : validList (put c key v) "spectators" = .ok ())
    (hpassword : ∃ pw, get (put c key v) "password" = some (.string pw) ∧ validPassword pw = true) :
    Kept server config ids' rules (put c key v) := by
  have hne : ∀ k ∈ ["num_maps", "maps", "admins", "cvars", "rules"],
      ∀ key ∈ ["team1", "team2", "spectators", "password"], ascii k ≠ ascii key := by decide
  have hrules : get (Assign.put c key v) "rules" = get c "rules" :=
    get_put_of_ne (hne "rules" (by decide) key hkey) c v
  have hothers : ∀ k ∈ ["num_maps", "maps", "admins", "cvars"], get (Assign.put c key v) k =
      get c k := fun k hk =>
    get_put_of_ne (hne k (List.mem_append_left ["rules"] hk) key hkey) c v
  constructor
  · rfl
  · exact nodup_keys_assign h.nodup _ v
  · intro k w hm hk
    rcases mem_assign hm with heq | hm
    · rw [(Prod.mk.inj heq).2]
      exact hv
    · exact h.plain k w hm hk
  · exact h.rulesOk
  · rw [hrules]
    exact h.get_rules
  · intro k hk
    rw [hothers k hk]
    exact h.others k hk
  · exact hteam
  · exact hspectators
  · exact hpassword
  · rw [validateRuleset_congr hrules (hothers "maps" (by decide))]
    exact h.ruleset

theorem Kept.putTeam (h : Kept server config ids rules c) {key : String}
    (hkey : key ∈ ["team1", "team2"]) {t : Json} {members : List Bytes} (ht : TeamOk members t) :
    Kept server config (Function.update ids key members) rules (Assign.put c key t) := by
  have hne : ∀ key ∈ ["team1", "team2"], ascii "spectators" ≠ ascii key ∧
      ascii "password" ≠ ascii key := by decide
  have hteams : ∀ k ∈ ["team1", "team2"], ∀ key ∈ ["team1", "team2"], k ≠ key →
      ascii k ≠ ascii key := by decide
  obtain ⟨hspectators, hpassword⟩ := hne key hkey
  refine h.put (List.mem_append_left ["spectators", "password"] hkey) ht.2.1 ?_ ?_ ?_
  · intro k hk
    by_cases heq : k = key
    · subst heq
      exact ⟨t, get_put_self c k t, by rw [Function.update_self]; exact ht⟩
    · obtain ⟨t', ht', hok⟩ := h.team k hk
      refine ⟨t', ?_, ?_⟩
      · rw [get_put_of_ne (hteams k hk key hkey heq)]
        exact ht'
      · rw [Function.update_of_ne heq]
        exact hok
  · rw [validList_congr (get_put_of_ne hspectators c t)]
    exact h.spectators
  · rw [get_put_of_ne hpassword]
    exact h.password

theorem Kept.putSpectators (h : Kept server config ids rules c) {ss : List Json}
    (hss : ∀ s ∈ ss, validSteam s = true) :
    Kept server config ids rules (Assign.put c "spectators" (.array ss)) := by
  have hne : ∀ k ∈ ["team1", "team2"], ascii k ≠ ascii "spectators" := by decide
  refine h.put (by decide) ((within_array_iff scalar_plainScalar).mpr ?_) ?_ ?_ ?_
  · intro s hs
    have hvalid := hss s hs
    cases s with
    | string x => exact within_string scalar_plainScalar x
    | _ => cases hvalid
  · intro k hk
    rw [get_put_of_ne (hne k hk)]
    exact h.team k hk
  · unfold validList
    simp only [get_put_self, checkAll_eq_ok, check_eq_ok]
    exact hss
  · rw [get_put_of_ne (by decide)]
    exact h.password

theorem Kept.putPassword (h : Kept server config ids rules c) {pw : Bytes}
    (hpw : validPassword pw = true) :
    Kept server config ids rules (Assign.put c "password" (.string pw)) := by
  have hne : ∀ k ∈ ["team1", "team2"], ascii k ≠ ascii "password" := by decide
  refine h.put (by decide) (within_string scalar_plainScalar pw) ?_ ?_ ⟨pw, get_put_self _ _ _, hpw⟩
  · intro k hk
    rw [get_put_of_ne (hne k hk)]
    exact h.team k hk
  · rw [validList_congr (get_put_of_ne (by decide) c _)]
    exact h.spectators

theorem Kept.putRules (h : Kept server config ids rules c) {r : Json} (hobj : r.isObject = true)
    (hr : Within Json.inRange r)
    (hruleset : validateRuleset server (Assign.put c "rules" r) = .ok ()) :
    Kept server config ids (some r) (Assign.put c "rules" r) := by
  have hne : ∀ k ∈ ["num_maps", "maps", "admins", "cvars", "team1", "team2"], ascii k ≠
      ascii "rules" := by decide
  constructor
  · rfl
  · exact nodup_keys_assign h.nodup _ r
  · intro k w hm hk
    rcases mem_assign hm with heq | hm
    · exact absurd (Prod.mk.inj heq).1 hk
    · exact h.plain k w hm hk
  · intro r' hr'
    cases hr'
    exact ⟨hobj, hr⟩
  · exact get_put_self _ _ _
  · intro k hk
    rw [get_put_of_ne (hne k (List.mem_append_left ["team1", "team2"] hk))]
    exact h.others k hk
  · intro k hk
    rw [get_put_of_ne (hne k (List.mem_append_right ["num_maps", "maps", "admins", "cvars"] hk))]
    exact h.team k hk
  · rw [validList_congr (get_put_of_ne (by decide) c r)]
    exact h.spectators
  · rw [get_put_of_ne (by decide)]
    exact h.password
  · exact hruleset

theorem Kept.congr (h : Kept server config ids rules c)
    (hids : ∀ key ∈ ["team1", "team2"], ids' key = ids key) : Kept server config ids' rules c := by
  refine { h with team := fun key hkey => ?_ }
  rw [hids key hkey]
  exact h.team key hkey

end Kept

section Operations

variable {server : Ruleset} {config op : Json} {ids : String → List Bytes} {rules : Option Json}

theorem opPlayer_eq_ok {why : String} {sid : Bytes} (h : opPlayer op why = .ok sid) :
    str op "steamid64" [] = sid ∧ isDigits sid 20 = true := by
  unfold opPlayer at h
  unfold str
  cases hget : get op "steamid64" with
  | none =>
    rw [hget] at h
    cases h
  | some v =>
    rw [hget] at h
    cases v with
    | string s =>
      dsimp only at h ⊢
      split_ifs at h with hdigits
      · cases h
        exact ⟨rfl, hdigits⟩
    | _ => cases h

theorem kept_removeFromTeam {s : Json × Bool} (h : Kept server config ids rules s.1) {key : String}
    (hkey : key ∈ ["team1", "team2"]) (sid : Bytes) :
    Kept server config (Function.update ids key ((ids key).filter (· ≠ sid))) rules
      (removeFromTeam sid s key).1 := by
  obtain ⟨t, ht, hok⟩ := h.team key hkey
  have hwithin := hok.2.1
  obtain ⟨-, -, -, -, ps, hps, hids, hvalid⟩ := id hok
  have hobj : obj s.1 key = some t := Option.filter_eq_some_iff.mpr ⟨ht, hok.1⟩
  unfold removeFromTeam
  simp only [hobj, hps]
  rw [← hids, ← map_filter_isPlayer hvalid]
  apply h.putTeam hkey
  apply hok.putPlayers
  · intro p hp
    exact hwithin.arr scalar_plainScalar hps p (List.mem_of_mem_filter hp)
  · intro p hp
    exact hvalid p (List.mem_of_mem_filter hp)

theorem validSteam_of_spectators {c : Json} (h : validList c "spectators" = .ok ()) {ss : List Json}
    (hss : get c "spectators" = some (.array ss)) : ∀ s ∈ ss, validSteam s = true := by
  unfold validList at h
  simp only [hss, checkAll_eq_ok, check_eq_ok] at h
  exact h

theorem kept_removeEverywhere {c : Json} (h : Kept server config ids rules c) (sid : Bytes) :
    Kept server config (fun key => (ids key).filter (· ≠ sid)) rules
      (removeEverywhere c sid).1 := by
  have hteam1 := @kept_removeFromTeam server config ids rules (c, false) h "team1" (by decide) sid
  have hteam2 := @kept_removeFromTeam server config _ rules _ hteam1 "team2" (by decide) sid
  have hboth : Kept server config (fun key => (ids key).filter (· ≠ sid)) rules
      (removeFromTeam sid (removeFromTeam sid (c, false) "team1") "team2").1 := by
    apply hteam2.congr
    intro key hkey
    simp only [List.mem_cons, List.not_mem_nil, or_false] at hkey
    rcases hkey with rfl | rfl <;> simp [Function.update]
  unfold removeEverywhere
  simp only
  split
  · exact hboth
  · rename_i ss hss
    apply hboth.putSpectators
    intro s hs
    unfold arr at hss
    split at hss
    · rename_i a ha
      cases hss
      exact validSteam_of_spectators hboth.spectators ha s (List.mem_of_mem_filter hs)
    · cases hss

theorem teamKey_mem (team : Bytes) : teamKey team ∈ ["team1", "team2"] := by
  unfold teamKey
  split_ifs <;> simp

theorem kept_addPlayer {c c' : Json} (h : Kept server config ids rules c)
    (hok : addPlayer c op = .ok c')
    (hop : str op "op" [] = ascii "add_player") :
    Kept server config (rosterStep ids op) rules c' := by
  unfold addPlayer at hok
  obtain ⟨sid, hsid, hok⟩ := bind_eq_ok.mp hok
  obtain ⟨hstr, hdigits⟩ := opPlayer_eq_ok hsid
  obtain ⟨⟨⟩, hrole, hok⟩ := bind_eq_ok.mp hok
  rw [check_eq_ok] at hrole
  have hleft := kept_removeEverywhere h sid
  unfold rosterStep
  simp only [hop, hstr, if_true]
  split_ifs at hok with hspectator hteam
  · have hnot : isTeam (str op "team" []) = false := by
      rw [hspectator]
      decide
    cases hok
    rw [hnot, if_neg Bool.false_ne_true]
    cases hss : get (removeEverywhere c sid).1 "spectators" with
    | none =>
      apply hleft.putSpectators
      simpa [items, validSteam] using hdigits
    | some v =>
      cases v with
      | array ss =>
        apply hleft.putSpectators
        have hvalid := validSteam_of_spectators hleft.spectators hss
        intro s hs
        rcases List.mem_append.mp hs with hs | hs
        · exact hvalid s hs
        · rw [List.mem_singleton.mp hs]
          exact hdigits
      | _ =>
        have hlist := hleft.spectators
        unfold validList at hlist
        rw [hss] at hlist
        cases hlist
  · cases hok
    rw [if_pos hteam]
    have hkey := teamKey_mem (str op "team" [])
    obtain ⟨t, ht, hgood⟩ := hleft.team _ hkey
    have hwithin := hgood.2.1
    obtain ⟨-, -, -, -, ps, hps, hids, hvalid⟩ := id hgood
    obtain ⟨hnew, hid, hplain⟩ := @newPlayer_ok sid (str op "name" []) _ hdigits hrole
    have hget : get t "players" = some (.array ps) := by
      unfold arr at hps
      split at hps
      · rename_i a ha
        cases hps
        exact ha
      · cases hps
    apply hleft.putTeam hkey
    unfold slot push
    rw [ht, Option.getD_some, hget, Option.getD_some, ← hids]
    have happend : ps.map playerId ++ [sid] =
        (ps ++ [newPlayer sid (str op "name" []) (str op "role" (ascii "player"))]).map
          playerId := by
      rw [List.map_append, List.map_singleton, hid]
    rw [happend]
    apply hgood.putPlayers
    · intro p hp
      rcases List.mem_append.mp hp with hp | hp
      · exact hwithin.arr scalar_plainScalar hps p hp
      · rw [List.mem_singleton.mp hp]
        exact hplain
    · intro p hp
      rcases List.mem_append.mp hp with hp | hp
      · exact hvalid p hp
      · rw [List.mem_singleton.mp hp]
        exact hnew

theorem kept_removePlayer {c c' : Json} (h : Kept server config ids rules c)
    (hok : removePlayer c op = .ok c')
    (hop : str op "op" [] = ascii "remove_player") :
    Kept server config (rosterStep ids op) rules c' := by
  unfold removePlayer at hok
  obtain ⟨sid, hsid, hok⟩ := bind_eq_ok.mp hok
  obtain ⟨hstr, -⟩ := opPlayer_eq_ok hsid
  obtain ⟨-, -, hok⟩ := bind_eq_ok.mp hok
  cases hok
  have hne : ascii "remove_player" ≠ ascii "add_player" := by decide
  unfold rosterStep
  simp only [hop, hstr, if_neg hne, if_true]
  exact kept_removeEverywhere h sid

theorem kept_renameTeam {c c' : Json} (h : Kept server config ids rules c)
    (hok : renameTeam c op = .ok c') : Kept server config ids rules c' := by
  unfold renameTeam at hok
  obtain ⟨-, -, hok⟩ := bind_eq_ok.mp hok
  obtain ⟨⟨⟩, hname, hok⟩ := bind_eq_ok.mp hok
  rw [check_eq_ok] at hname
  cases hok
  have hkey := teamKey_mem (str op "team" [])
  obtain ⟨t, ht, hgood⟩ := h.team _ hkey
  unfold slot
  rw [ht, Option.getD_some]
  have hput := h.putTeam hkey (hgood.putName (by simpa using hname))
  rwa [Function.update_eq_self] at hput

theorem kept_setPassword {c c' : Json} (h : Kept server config ids rules c)
    (hok : setPassword c op = .ok c') : Kept server config ids rules c' := by
  unfold setPassword at hok
  split at hok
  · split_ifs at hok with hpw
    cases hok
    exact h.putPassword hpw
  · cases hok

theorem kept_languageIn {c : Json} (h : Kept server config ids rules c) {key : String}
    (hkey : key ∈ ["team1", "team2"]) (sid language : Bytes) :
    Kept server config ids rules (languageIn sid language c key) := by
  obtain ⟨t, ht, hgood⟩ := h.team key hkey
  have hwithin := hgood.2.1
  obtain ⟨-, -, -, -, ps, hps, hids, hvalid⟩ := id hgood
  have hobj : obj c key = some t := Option.filter_eq_some_iff.mpr ⟨ht, hgood.1⟩
  have hplain := hwithin.arr scalar_plainScalar hps
  let f : Json → Json :=
    fun p => if str p "steamid64" [] = sid then put p "language" (.string language) else p
  have hf : ∀ p ∈ ps, validPlayer (f p) = .ok () ∧ playerId (f p) = playerId p ∧
      Within plainScalar (f p) := by
    intro p hp
    by_cases hsid : str p "steamid64" [] = sid
    · simp only [f, if_pos hsid]
      exact language_ok (hvalid p hp) (hplain p hp) language
    · simp only [f, if_neg hsid]
      exact ⟨hvalid p hp, trivial, hplain p hp⟩
  unfold languageIn
  simp only [hobj, hps]
  have hmap : (ps.map f).map playerId = ids key := by
    rw [← hids, List.map_map]
    exact List.map_congr_left fun p hp => (hf p hp).2.1
  have hput := h.putTeam hkey (@TeamOk.putPlayers _ t hgood (ps.map f)
    (List.forall_mem_map.mpr fun p hp => (hf p hp).2.2)
    (List.forall_mem_map.mpr fun p hp => (hf p hp).1))
  rwa [hmap, Function.update_eq_self] at hput

theorem kept_setLanguage {c c' : Json} (h : Kept server config ids rules c)
    (hok : setLanguage c op = .ok c') : Kept server config ids rules c' := by
  unfold setLanguage at hok
  obtain ⟨sid, -, hok⟩ := bind_eq_ok.mp hok
  obtain ⟨-, -, hok⟩ := bind_eq_ok.mp hok
  cases hok
  exact kept_languageIn (kept_languageIn h (by decide) sid _) (by decide) sid _

theorem kept_setRules {c c' : Json} (h : Kept server config ids rules c)
    (hwithin : Within Json.inRange op)
    (hok : setRules server c op = .ok c') (hop : str op "op" [] = ascii "set_rules") :
    Kept server config ids (rulesStep rules op) c' := by
  unfold setRules at hok
  unfold rulesStep
  rw [if_pos hop]
  cases hr : obj op "rules" with
  | none =>
    rw [hr] at hok
    cases hok
  | some r =>
    simp only [hr] at hok
    obtain ⟨⟨⟩, hruleset, hok⟩ := bind_eq_ok.mp hok
    cases hok
    obtain ⟨hget, hrobj⟩ := get_of_obj hr
    have hrules := h.get_rules
    have hold : Within Json.inRange (rules.getD (.object [])) := by
      cases hcur : rules with
      | none => exact ⟨rfl, rfl⟩
      | some cur => exact (h.rulesOk cur hcur).2
    rw [hrules] at hruleset ⊢
    apply h.putRules _ (hold.mergePatchApply scalar_inRange (hwithin.get scalar_inRange hget))
      hruleset
    cases r with
    | object ps => rfl
    | _ => cases hrobj

theorem rosterStep_other (h₁ : str op "op" [] ≠ ascii "add_player")
    (h₂ : str op "op" [] ≠ ascii "remove_player") : rosterStep ids op = ids := by
  unfold rosterStep
  simp only [if_neg h₁, if_neg h₂]

theorem rulesStep_other (h : str op "op" [] ≠ ascii "set_rules") : rulesStep rules op = rules := by
  unfold rulesStep
  rw [if_neg h]

theorem kept_applyOp {s s' : Json × Bool} (h : Kept server config ids rules s.1)
    (hwithin : Within Json.inRange op)
    (hok : applyOp server s op = .ok s') :
    Kept server config (rosterStep ids op) (rulesStep rules op) s'.1 := by
  have hdistinct : ∀ k ∈ ["rename_team", "set_password", "set_language", "set_rules"],
      ascii k ≠ ascii "add_player" ∧ ascii k ≠ ascii "remove_player" := by decide
  have hrules :
      ∀ k ∈ ["add_player", "remove_player", "rename_team", "set_password", "set_language"],
      ascii k ≠ ascii "set_rules" := by decide
  unfold applyOp at hok
  simp only at hok
  split_ifs at hok with hadd hremove hrename hpassword hlanguage hset
  · obtain ⟨c', hc', rfl⟩ := map_eq_ok.mp hok
    rw [rulesStep_other (hadd ▸ hrules "add_player" (by decide))]
    exact kept_addPlayer h hc' hadd
  · obtain ⟨c', hc', rfl⟩ := map_eq_ok.mp hok
    rw [rulesStep_other (hremove ▸ hrules "remove_player" (by decide))]
    exact kept_removePlayer h hc' hremove
  · obtain ⟨c', hc', rfl⟩ := map_eq_ok.mp hok
    rw [rulesStep_other (hrename ▸ hrules "rename_team" (by decide)), rosterStep_other hadd hremove]
    exact kept_renameTeam h hc'
  · obtain ⟨c', hc', rfl⟩ := map_eq_ok.mp hok
    rw [rulesStep_other (hpassword ▸ hrules "set_password" (by decide)),
      rosterStep_other hadd hremove]
    exact kept_setPassword h hc'
  · obtain ⟨c', hc', rfl⟩ := map_eq_ok.mp hok
    rw [rulesStep_other (hlanguage ▸ hrules "set_language" (by decide)),
      rosterStep_other hadd hremove]
    exact kept_setLanguage h hc'
  · obtain ⟨c', hc', rfl⟩ := map_eq_ok.mp hok
    rw [rosterStep_other hadd hremove]
    exact kept_setRules h hwithin hc' hset

theorem kept_foldlM {ops : List Json} {s s' : Json × Bool} (h : Kept server config ids rules s.1)
    (hwithin : ∀ op ∈ ops, Within Json.inRange op) (hok : ops.foldlM (applyOp server) s = .ok s') :
    Kept server config (ops.foldl rosterStep ids) (ops.foldl rulesStep rules) s'.1 := by
  induction ops generalizing s ids rules with
  | nil =>
    cases hok
    exact h
  | cons op ops ih =>
    rw [List.forall_mem_cons] at hwithin
    rw [List.foldlM_cons] at hok
    obtain ⟨t, ht, hok⟩ := bind_eq_ok.mp hok
    exact ih (kept_applyOp h hwithin.1 ht) hwithin.2 hok

end Operations

section Result

variable {server : Ruleset} {config c : Json} {ids : String → List Bytes} {rules : Option Json}

/-- The players of the teams after the operations. -/
def rosterAfter (config ops : Json) : String → List Bytes :=
  (items ops).foldl rosterStep (rosterOf config)

def rulesAfter (config ops : Json) : Option Json := (items ops).foldl rulesStep (get config "rules")

/-- The configuration with other rules. -/
def withRules (config : Json) : Option Json → Json
  | none => config
  | some r => put config "rules" r

/-- The teams are not too large, and the rules are ones that the bots and the broadcast can be set
up with. -/
structure Fits (config ops : Json) : Prop where
  team1 : (rosterAfter config ops "team1").length ≤ 32
  team2 : (rosterAfter config ops "team2").length ≤ 32
  botFill : validBotFill (withRules config (rulesAfter config ops)) = .ok ()
  broadcast : Broadcast.validateAssignConfigText (withRules config (rulesAfter config ops)).dump =
    .ok ()

theorem within_of_validConfig (hc : Within Json.inRange config)
    (h : validConfig server config = .ok ()) : Within plainScalar config := by
  have htext := (accepted_of_validConfig h).readable
  have hread := Broadcast.parse_of_validateAssignConfigText htext
  rw [Minijson.parse_dump hc.unique hc.all, isSome_ofJson_iff] at hread
  exact ⟨hc.unique, all_and.mpr ⟨hc.all, hread⟩⟩

theorem isObject_all {v : Option Json} (h : v.all (·.isObject) = true) {r : Json}
    (hr : v = some r) : r.isObject = true := by
  rw [hr] at h
  exact h

theorem kept_of_validConfig (hobj : config.isObject = true) (hc : Within Json.inRange config)
    (h : validConfig server config = .ok ()) :
    Kept server config (rosterOf config) (get config "rules") config := by
  have hplain := within_of_validConfig hc h
  have hmembers := hplain.members scalar_plainScalar
  obtain ⟨⟨-, hteam1, hteam2⟩, ⟨hspectators, -⟩, hpassword, ⟨hrules, -⟩, -, hruleset, -⟩ :=
    validConfig_iff.mp h
  constructor
  · exact hobj
  · exact hmembers.1
  · exact fun k v hm _ => hmembers.2 k v hm
  · exact fun r hr => ⟨isObject_all hrules hr, hc.get scalar_inRange hr⟩
  · rfl
  · exact fun _ _ => rfl
  · intro key hkey
    have hteam : checkTeam (obj config key) = .ok () := by
      simp only [List.mem_cons, List.not_mem_nil, or_false] at hkey
      rcases hkey with rfl | rfl
      · exact hteam1
      · exact hteam2
    obtain ⟨t, ht, -⟩ := exists_of_checkTeam hteam
    rw [ht] at hteam
    obtain ⟨hget, htobj⟩ := get_of_obj ht
    obtain ⟨ps, hps, hok⟩ := teamOk_of_checkTeam htobj (hplain.get scalar_plainScalar hget) hteam
    have hroster : rosterOf config key = ps.map playerId := by
      unfold rosterOf
      rw [ht, Option.bind_some, hps, Option.getD_some]
    exact ⟨t, hget, hroster ▸ hok⟩
  · exact hspectators
  · exact hpassword
  · exact hruleset

theorem Kept.within (h : Kept server config ids rules c) : Within Json.inRange c := by
  have hobj := h.isObject
  have hmembers : ∀ k v, (k, v) ∈ c.members → Within Json.inRange v := by
    intro k v hm
    by_cases hk : k = ascii "rules"
    · subst hk
      have hget : get c "rules" = some v := lookup_of_mem h.nodup hm
      exact (h.rulesOk v (h.get_rules ▸ hget)).2
    · have hplain := h.plain k v hm hk
      exact ⟨hplain.unique, (all_and.mp hplain.all).1⟩
  cases c with
  | object ms => exact (within_object_iff scalar_inRange).mpr ⟨h.nodup, hmembers⟩
  | _ => cases hobj

/-- Apart from the rules the small reader reads what is kept. -/
theorem Kept.readable_iff (h : Kept server config ids rules c) :
    c.all readable = true ↔ rules.all (fun r => r.all readable) = true := by
  have hobj := h.isObject
  have hrules := h.get_rules
  cases c with
  | object ms =>
    rw [Json.all_object, and_iff_right (show readable (.object ms) = true from rfl)]
    constructor
    · intro hall
      cases hr : rules with
      | none => rfl
      | some r => exact hall _ r (mem_of_lookup (hrules.trans hr))
    · intro hr k v hm
      by_cases hk : k = ascii "rules"
      · subst hk
        have hget : get (.object ms) "rules" = some v := lookup_of_mem h.nodup hm
        rw [← hrules, hget] at hr
        exact hr
      · exact (all_and.mp (h.plain k v hm hk).all).2
  | _ => cases hobj

/-- The configuration that was accepted, with the rules of the copy. -/
theorem Kept.withRules (h : Kept server config ids rules c) (hc : Within Json.inRange config)
    (hconfig : config.isObject = true) (hvalid : validConfig server config = .ok ())
    (hnone : rules = none → get config "rules" = none) :
    Kept server config (rosterOf config) rules (withRules config rules) := by
  have hkept := kept_of_validConfig hconfig hc hvalid
  cases hr : rules with
  | none =>
    rw [hnone hr] at hkept
    exact hkept
  | some r =>
    subst hr
    obtain ⟨hobj, hwithin⟩ := h.rulesOk r rfl
    refine hkept.putRules hobj hwithin ?_
    have hrules : get (Assign.put config "rules" r) "rules" = get c "rules" :=
      (get_put_self config "rules" r).trans h.get_rules.symm
    have hmaps : get (Assign.put config "rules" r) "maps" = get c "maps" :=
      (get_put_of_ne (by decide) config r).trans (h.others "maps" (by decide)).symm
    rw [validateRuleset_congr hrules hmaps]
    exact h.ruleset

/-- What is kept is accepted when the teams and the rules are. -/
theorem Kept.validConfig_iff (h : Kept server config ids rules c) (hc : Within Json.inRange config)
    (hconfig : config.isObject = true) (hvalid : validConfig server config = .ok ())
    (hnone : rules = none → get config "rules" = none) :
    validConfig server c = .ok () ↔ ((ids "team1").length ≤ 32 ∧ (ids "team2").length ≤ 32) ∧
      validBotFill (Assign.withRules config rules) = .ok () ∧
      Broadcast.validateAssignConfigText (Assign.withRules config rules).dump = .ok () := by
  have hbase := h.withRules hc hconfig hvalid hnone
  have hrules : get c "rules" = get (Assign.withRules config rules) "rules" :=
    h.get_rules.trans hbase.get_rules.symm
  have hcvars : get c "cvars" = get (Assign.withRules config rules) "cvars" :=
    (h.others "cvars" (by decide)).trans (hbase.others "cvars" (by decide)).symm
  have htext := validateAssignConfigText_congr hbase.within h.within hbase.isObject h.isObject
    (h.readable_iff.trans hbase.readable_iff.symm) hrules hcvars
  have hteam :
      ∀ key ∈ ["team1", "team2"], (checkTeam (obj c key) = .ok () ↔ (ids key).length ≤ 32) := by
    intro key hkey
    obtain ⟨t, ht, hok⟩ := h.team key hkey
    have hobj : obj c key = some t := Option.filter_eq_some_iff.mpr ⟨ht, hok.1⟩
    rw [hobj]
    exact checkTeam_iff hok
  obtain ⟨⟨hmaps, -, -⟩, ⟨-, hadmins⟩, -, ⟨-, hcvarsObj⟩, -⟩ := Assign.validConfig_iff.mp hvalid
  have hmapsOk : mapsOk c = .ok () :=
    (mapsOk_congr (h.others "num_maps" (by decide)) (h.others "maps" (by decide))).trans hmaps
  have hadminsOk : validList c "admins" = .ok () :=
    (validList_congr (h.others "admins" (by decide))).trans hadmins
  have hrulesObj : (get c "rules").all (·.isObject) = true := by
    rw [h.get_rules]
    cases hr : rules with
    | none => rfl
    | some r => exact (h.rulesOk r hr).1
  have hcvarsOk : (get c "cvars").all (·.isObject) = true := by
    rw [h.others "cvars" (by decide)]
    exact hcvarsObj
  rw [Assign.validConfig_iff, hteam "team1" (by decide), hteam "team2" (by decide),
    validBotFill_congr hrules, htext]
  constructor
  · rintro ⟨⟨-, h₁, h₂⟩, -, -, -, hbots, -, hbroadcast⟩
    exact ⟨⟨h₁, h₂⟩, hbots, hbroadcast⟩
  · rintro ⟨⟨h₁, h₂⟩, hbots, hbroadcast⟩
    exact ⟨⟨hmapsOk, h₁, h₂⟩, ⟨h.spectators, hadminsOk⟩, h.password, ⟨hrulesObj, hcvarsOk⟩, hbots,
      h.ruleset, hbroadcast⟩

theorem rulesStep_eq_none {op : Json} (h : rulesStep rules op = none) : rules = none := by
  unfold rulesStep at h
  split_ifs at h
  · split at h
    · cases h
    · exact h
  · exact h

theorem foldl_rulesStep_eq_none {ops : List Json} (h : ops.foldl rulesStep rules = none) :
    rules = none := by
  induction ops generalizing rules with
  | nil => exact h
  | cons op ops ih => exact rulesStep_eq_none (ih h)

variable {payload ops : Document} {s : Stored}

/-- A configuration of a payload is checked with the rest of the payload as it was. -/
theorem validateAssign_put_iff {p : Json} (h : validateAssign server p = .ok ())
    (hc : c.isObject = true) :
    validateAssign server (put p "config" c) = .ok () ↔ validConfig server c = .ok () := by
  have hid : str (put p "config" c) "match_id" [] = str p "match_id" [] := by
    unfold str
    rw [get_put_of_ne (by decide)]
  have hepoch : validEpoch (put p "config" c) = validEpoch p := by
    unfold validEpoch
    rw [get_put_of_ne (by decide)]
  unfold validateAssign at h ⊢
  rw [hid, hepoch, obj_put_self hc]
  obtain ⟨⟨⟩, h₁, h⟩ := bind_eq_ok.mp h
  obtain ⟨⟨⟩, h₂, h⟩ := bind_eq_ok.mp h
  obtain ⟨⟨⟩, h₃, h⟩ := bind_eq_ok.mp h
  simp only [h₁, h₂, h₃]
  rfl

/-- A refused update changes nothing, and an accepted update of an accepted configuration leaves one
that is accepted exactly when the teams and the rules that come out fit. -/
theorem update_valid_iff (hvalid : validateAssign server payload.value = .ok ())
    (hconfig : obj payload.value "config" = some s.config) :
    (∀ why, (applyUpdateOps server s ops.value).1 = .error why →
      (applyUpdateOps server s ops.value).2 = s) ∧ ((applyUpdateOps server s ops.value).1 = .ok () →
        (validateAssign server (put payload.value "config"
          (applyUpdateOps server s ops.value).2.config) = .ok () ↔ Fits s.config ops.value)) := by
  obtain ⟨hget, hobj⟩ := get_of_obj hconfig
  have hpayload : Within Json.inRange payload.value := ⟨payload.uniqueKeys, payload.inRange⟩
  have hops : Within Json.inRange ops.value := ⟨ops.uniqueKeys, ops.inRange⟩
  have hc := hpayload.get scalar_inRange hget
  have hconfigValid : validConfig server s.config = .ok () := by
    unfold validateAssign at hvalid
    obtain ⟨-, -, h⟩ := bind_eq_ok.mp hvalid
    obtain ⟨-, -, h⟩ := bind_eq_ok.mp h
    obtain ⟨-, -, h⟩ := bind_eq_ok.mp h
    simpa only [hconfig] using h
  unfold applyUpdateOps
  cases hrun : runOps server s.config ops.value with
  | error e => exact ⟨fun _ _ => rfl, fun h => by cases h⟩
  | ok r =>
    refine ⟨fun _ h => (by cases h), fun _ => ?_⟩
    unfold runOps at hrun
    obtain ⟨-, -, hrun⟩ := bind_eq_ok.mp hrun
    split at hrun
    · rename_i op rest hlist
      have hkept := kept_foldlM (kept_of_validConfig hobj hc hconfigValid) (s := (s.config, false))
        ((within_array_iff scalar_inRange).mp (hlist ▸ hops)) hrun
      have hitems : items ops.value = op :: rest := by
        rw [hlist]
        rfl
      rw [← hitems] at hkept
      rw [validateAssign_put_iff hvalid hkept.isObject,
        hkept.validConfig_iff hc hobj hconfigValid foldl_rulesStep_eq_none]
      constructor
      · rintro ⟨⟨h₁, h₂⟩, h₃, h₄⟩
        exact ⟨h₁, h₂, h₃, h₄⟩
      · rintro ⟨h₁, h₂, h₃, h₄⟩
        exact ⟨⟨h₁, h₂⟩, h₃, h₄⟩
    · cases hrun

/-- An update that asks for bots up to so many players in each team. -/
def botsUpTo (playersPerTeam : ℤ) : Json :=
  .array [ofFields [("op", some (.string (ascii "set_rules"))),
    ("rules",
      some
      (ofFields
        [("bot_fill", some (ofFields [("players_per_team", some (.int playersPerTeam))]))]))]]

def fiveEach : Document where
  value := botsUpTo 5
  uniqueKeys := by decide
  inRange := by decide

def noBots : Document where
  value := botsUpTo 0
  uniqueKeys := by decide
  inRange := by decide

/-- What is stored of the assignment of one map. -/
def plainStored : Stored where
  config := assigned plainPayload.value
  passwordChanged := false

theorem update_valid_iff_plain :
    (applyUpdateOps .default plainStored fiveEach.value).1 = .ok () ∧
      validateAssign .default
        (put plainPayload.value "config"
          (applyUpdateOps .default plainStored fiveEach.value).2.config) = .ok () := by
  have haccepted : (applyUpdateOps .default plainStored fiveEach.value).1.toOption =
      some () := by decide
  have hbots :
      (validBotFill (withRules plainStored.config
        (rulesAfter plainStored.config fiveEach.value))).toOption =
      some () := by decide
  have hbroadcast : (Broadcast.validateAssignConfigText
      (withRules plainStored.config (rulesAfter plainStored.config fiveEach.value)).dump).toOption =
      some () := by
    decide +kernel
  have hfits : Fits plainStored.config fiveEach.value :=
    ⟨by decide, by decide, eq_ok_of_toOption hbots, eq_ok_of_toOption hbroadcast⟩
  have hok := eq_ok_of_toOption haccepted
  exact ⟨hok, ((update_valid_iff valid_plainPayload rfl).2 hok).mpr hfits⟩

/-- The update is accepted and leaves a configuration that is refused. -/
theorem no_bots_accepted : validateAssign .default plainPayload.value = .ok () ∧
    (applyUpdateOps .default plainStored noBots.value).1 = .ok () ∧
      validateAssign .default
        (put plainPayload.value "config"
          (applyUpdateOps .default plainStored noBots.value).2.config) ≠ .ok () := by
  have haccepted : (applyUpdateOps .default plainStored noBots.value).1.toOption =
      some () := by decide
  have hrefused : (validateAssign .default (put plainPayload.value "config"
      (applyUpdateOps .default plainStored noBots.value).2.config)).toOption = none := by decide
  refine ⟨valid_plainPayload, eq_ok_of_toOption haccepted, fun h => ?_⟩
  rw [h] at hrefused
  cases hrefused

end Result

end ReadyUp.Config.Assign
