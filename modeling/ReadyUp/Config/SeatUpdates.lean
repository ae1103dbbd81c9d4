import ReadyUp.Config.Seats

/-!
# The seats after updates

No operation lists an id twice: what it adds it first takes out everywhere. So the updates of a
match keep an id listed once, as its number is written (`Sole`), when they add it so, whatever they
do to other ids; and an id that is listed so has one seat.
-/
namespace ReadyUp.Config.Assign

open Support Status

section Lists

variable {server : Ruleset} {config c c' op : Json} {ids : String → List Bytes}
    {rules : Option Json}

/-- What an operation does to the spectators. -/
def spectatorStep (specs : List Bytes) (op : Json) : List Bytes :=
  let kind := str op "op" []
  let sid := str op "steamid64" []
  let left := specs.filter (· ≠ sid)
  if kind = ascii "add_player" then if str op "team" [] = ascii "spectator" then
    left ++ [sid]
  else left
  else if kind = ascii "remove_player" then left
  else specs

theorem spectatorStep_other (h₁ : str op "op" [] ≠ ascii "add_player")
    (h₂ : str op "op" [] ≠ ascii "remove_player") (specs : List Bytes) :
    spectatorStep specs op = specs := by
  unfold spectatorStep
  simp only [if_neg h₁, if_neg h₂]

theorem spectatorIds_congr (h : get c' "spectators" = get c "spectators") :
    spectatorIds c' = spectatorIds c := by
  unfold spectatorIds
  rw [arr_congr h]

theorem spectatorIds_put {key : String} (h : ascii "spectators" ≠ ascii key) (c v : Json) :
    spectatorIds (put c key v) = spectatorIds c := spectatorIds_congr (get_put_of_ne h c v)

theorem spectatorIds_removeFromTeam {key : String} (h : ascii "spectators" ≠ ascii key)
    (sid : Bytes)
    (c : Json × Bool) : spectatorIds (removeFromTeam sid c key).1 = spectatorIds c.1 := by
  unfold removeFromTeam
  split
  · rfl
  · split
    · rfl
    · exact spectatorIds_put h _ _

theorem spectatorIds_removeEverywhere (c : Json) (sid : Bytes) :
    spectatorIds (removeEverywhere c sid).1 = (spectatorIds c).filter (· ≠ sid) := by
  have hteams :
      spectatorIds (removeFromTeam sid (removeFromTeam sid (c, false) "team1") "team2").1 =
      spectatorIds c :=
    (spectatorIds_removeFromTeam (by decide) sid _).trans
      (spectatorIds_removeFromTeam (by decide) sid _)
  rw [← hteams]
  unfold removeEverywhere spectatorIds
  simp only
  split
  · rename_i hnone
    rw [hnone]
    rfl
  · rename_i ss hss
    rw [arr_put_self, hss, Option.getD_some, Option.getD_some, List.filter_map]
    congr 1
    apply List.filter_congr
    intro s _
    simp [bne, beq_eq_decide]

theorem spectatorIds_languageIn {key : String} (h : ascii "spectators" ≠ ascii key)
    (sid language : Bytes) (c : Json) :
    spectatorIds (languageIn sid language c key) = spectatorIds c := by
  unfold languageIn
  split
  · rfl
  · split
    · rfl
    · exact spectatorIds_put h _ _

theorem teamKey_ne_spectators (team : Bytes) : ascii "spectators" ≠ ascii (teamKey team) := by
  unfold teamKey
  split_ifs <;> decide

theorem spectatorIds_addPlayer (hop : str op "op" [] = ascii "add_player")
    (hok : addPlayer c op = .ok c') : spectatorIds c' = spectatorStep (spectatorIds c) op := by
  unfold addPlayer at hok
  obtain ⟨sid, hsid, hok⟩ := bind_eq_ok.mp hok
  obtain ⟨hstr, -⟩ := opPlayer_eq_ok hsid
  obtain ⟨-, -, hok⟩ := bind_eq_ok.mp hok
  have hleft := spectatorIds_removeEverywhere c sid
  unfold spectatorStep
  simp only [hop, hstr, if_true, ← hleft]
  split_ifs at hok ⊢ with hspectator hteam
  · cases hok
    unfold spectatorIds push arr
    rw [get_put_self]
    cases hget : get (removeEverywhere c sid).1 "spectators" with
    | none => rfl
    | some v => cases v <;> simp [items, asString]
  · cases hok
    exact spectatorIds_put (teamKey_ne_spectators _) _ _

theorem spectatorIds_removePlayer (hop : str op "op" [] = ascii "remove_player")
    (hok : removePlayer c op = .ok c') : spectatorIds c' = spectatorStep (spectatorIds c) op := by
  unfold removePlayer at hok
  obtain ⟨sid, hsid, hok⟩ := bind_eq_ok.mp hok
  obtain ⟨hstr, -⟩ := opPlayer_eq_ok hsid
  obtain ⟨-, -, hok⟩ := bind_eq_ok.mp hok
  cases hok
  have hne : ascii "remove_player" ≠ ascii "add_player" := by decide
  unfold spectatorStep
  simp only [hop, hstr, if_neg hne, if_true]
  exact spectatorIds_removeEverywhere c sid

theorem spectatorIds_renameTeam (hok : renameTeam c op = .ok c') :
    spectatorIds c' = spectatorIds c := by
  unfold renameTeam at hok
  obtain ⟨-, -, hok⟩ := bind_eq_ok.mp hok
  obtain ⟨-, -, hok⟩ := bind_eq_ok.mp hok
  cases hok
  exact spectatorIds_put (teamKey_ne_spectators _) _ _

theorem spectatorIds_setPassword (hok : setPassword c op = .ok c') :
    spectatorIds c' = spectatorIds c := by
  unfold setPassword at hok
  split at hok
  · split_ifs at hok
    cases hok
    exact spectatorIds_put (by decide) _ _
  · cases hok

theorem spectatorIds_setLanguage (hok : setLanguage c op = .ok c') :
    spectatorIds c' = spectatorIds c := by
  unfold setLanguage at hok
  obtain ⟨sid, -, hok⟩ := bind_eq_ok.mp hok
  obtain ⟨-, -, hok⟩ := bind_eq_ok.mp hok
  cases hok
  rw [spectatorIds_languageIn (by decide), spectatorIds_languageIn (by decide)]

theorem spectatorIds_setRules (hok : setRules server c op = .ok c') :
    spectatorIds c' = spectatorIds c := by
  unfold setRules at hok
  split at hok
  · cases hok
  · obtain ⟨-, -, hok⟩ := bind_eq_ok.mp hok
    cases hok
    exact spectatorIds_put (by decide) _ _

theorem spectatorIds_applyOp {s s' : Json × Bool} (hok : applyOp server s op = .ok s') :
    spectatorIds s'.1 = spectatorStep (spectatorIds s.1) op := by
  unfold applyOp at hok
  simp only at hok
  split_ifs at hok with hadd hremove
  · obtain ⟨c', hc', rfl⟩ := map_eq_ok.mp hok
    exact spectatorIds_addPlayer hadd hc'
  · obtain ⟨c', hc', rfl⟩ := map_eq_ok.mp hok
    exact spectatorIds_removePlayer hremove hc'
  all_goals
    obtain ⟨c', hc', rfl⟩ := map_eq_ok.mp hok
    rw [spectatorStep_other hadd hremove]
  · exact spectatorIds_renameTeam hc'
  · exact spectatorIds_setPassword hc'
  · exact spectatorIds_setLanguage hc'
  · exact spectatorIds_setRules hc'

theorem Kept.rosterOf (h : Kept server config ids rules c) {key : String}
    (hkey : key ∈ ["team1", "team2"]) : rosterOf c key = ids key := by
  obtain ⟨t, ht, hok⟩ := h.team key hkey
  obtain ⟨-, -, -, -, ps, hps, hids, -⟩ := id hok
  have hobj : obj c key = some t := Option.filter_eq_some_iff.mpr ⟨ht, hok.1⟩
  unfold Assign.rosterOf
  rw [hobj, Option.bind_some, hps, Option.getD_some, hids]

theorem rosterOf_eq (config : Json) (key : String) :
    rosterOf config key = (teamPlayers config key).map (·.sid) := by
  unfold Assign.rosterOf teamPlayers
  cases (obj config key).bind fun t => arr t "players" with
  | none => rfl
  | some ps =>
    rw [Option.getD_some, List.map_map]
    rfl

theorem listed_eq (config : Json) :
    listed config = rosterOf config "team1" ++ rosterOf config "team2" ++ spectatorIds config := by
  have hspectators :
      ((spectatorIds config).map (·, Seat.spectator)).map Prod.fst = spectatorIds config := by
    rw [List.map_map]
    exact List.map_id _
  unfold listed listings teamListings
  rw [List.map_append, List.map_append, List.map_map, List.map_map, hspectators, rosterOf_eq,
    rosterOf_eq]
  rfl

theorem team_of_addPlayer (hok : addPlayer c op = .ok c') :
    str op "team" [] = ascii "spectator" ∨ isTeam (str op "team" []) = true := by
  unfold addPlayer at hok
  obtain ⟨sid, -, hok⟩ := bind_eq_ok.mp hok
  obtain ⟨-, -, hok⟩ := bind_eq_ok.mp hok
  split_ifs at hok with hspectator hteam
  · exact .inl hspectator
  · exact .inr hteam

/-- An operation lists an id once more only where it is not listed any more. -/
theorem listed_step {s s' : Json × Bool} (h : Kept server config (rosterOf s.1) rules s.1)
    (hwithin : Within Json.inRange op) (hok : applyOp server s op = .ok s') :
    (listed s'.1).Perm
      (if str op "op" [] = ascii "add_player" then
        str op "steamid64" [] :: (listed s.1).filter (· ≠ str op "steamid64" [])
      else if str op "op" [] = ascii "remove_player" then
        (listed s.1).filter (· ≠ str op "steamid64" [])
      else listed s.1) := by
  have hkept := kept_applyOp h hwithin hok
  rw [listed_eq, listed_eq]
  rw [hkept.rosterOf (by decide), hkept.rosterOf (by decide), spectatorIds_applyOp hok]
  have hnot : isTeam (ascii "spectator") = false := by decide
  unfold rosterStep spectatorStep
  simp only [List.filter_append]
  split_ifs with hadd hteam hspectator hspectator hremove
  · rw [hspectator, hnot] at hteam
    cases hteam
  · unfold teamKey
    split_ifs
    · rw [Function.update_self, Function.update_of_ne (by decide), List.append_assoc,
        List.append_assoc, List.append_assoc]
      exact List.perm_middle
    · rw [Function.update_self, Function.update_of_ne (by decide), ← List.append_assoc,
        List.append_assoc]
      exact List.perm_middle
  · rw [← List.append_assoc]
    exact List.perm_append_singleton _ _
  · rw [applyOp, if_pos hadd] at hok
    obtain ⟨c', hc', -⟩ := map_eq_ok.mp hok
    rcases team_of_addPlayer hc' with h | h
    · exact absurd h hspectator
    · exact absurd h hteam
  · exact .refl _
  · exact .refl _

end Lists

section Runs

variable {server : Ruleset} {c op : Json} {id : ℕ}

/-- An accepted configuration, or one that came of it. -/
def Reached (server : Ruleset) (c : Json) : Prop :=
  ∃ config rules, Kept server config (rosterOf c) rules c

theorem Reached.applyOp {s s' : Json × Bool} (h : Reached server s.1)
    (hwithin : Within Json.inRange op)
    (hok : applyOp server s op = .ok s') : Reached server s'.1 := by
  obtain ⟨config, rules, hkept⟩ := h
  have hkept' := kept_applyOp hkept hwithin hok
  exact ⟨config, _, hkept'.congr fun key hkey => hkept'.rosterOf hkey⟩

theorem Reached.of_validAssign {payload : Document} {config : Json}
    (hvalid : validateAssign server payload.value = .ok ())
    (hconfig : obj payload.value "config" = some config) : Reached server config := by
  obtain ⟨hget, hobj⟩ := get_of_obj hconfig
  have hpayload : Within Json.inRange payload.value := ⟨payload.uniqueKeys, payload.inRange⟩
  have hconfigValid : validConfig server config = .ok () := by
    unfold validateAssign at hvalid
    obtain ⟨-, -, h⟩ := bind_eq_ok.mp hvalid
    obtain ⟨-, -, h⟩ := bind_eq_ok.mp h
    obtain ⟨-, -, h⟩ := bind_eq_ok.mp h
    simpa only [hconfig] using h
  exact ⟨config, _, kept_of_validConfig hobj (hpayload.get scalar_inRange hget) hconfigValid⟩

/-- The updates of a match one after the other. -/
def applyUpdates (server : Ruleset) (s : Stored) (updates : List Document) : Stored :=
  updates.foldl (fun s ops => (applyUpdateOps server s ops.value).2) s

section Keeps

variable {P good : Json → Prop}
  (hstep : ∀ (s s' : Json × Bool) op, Reached server s.1 → P s.1 →
    Within Json.inRange op → good op → applyOp server s op = .ok s' → P s'.1)

include hstep

theorem foldlM_keeps {ops : List Json} {s s' : Json × Bool} (hreached : Reached server s.1)
    (hP : P s.1) (hwithin : ∀ op ∈ ops, Within Json.inRange op) (hgood : ∀ op ∈ ops, good op)
    (hok : ops.foldlM (applyOp server) s = .ok s') : Reached server s'.1 ∧ P s'.1 := by
  induction ops generalizing s with
  | nil =>
    cases hok
    exact ⟨hreached, hP⟩
  | cons op ops ih =>
    rw [List.forall_mem_cons] at hwithin hgood
    rw [List.foldlM_cons] at hok
    obtain ⟨t, ht, hok⟩ := bind_eq_ok.mp hok
    exact ih (hreached.applyOp hwithin.1 ht) (hstep _ _ _ hreached hP hwithin.1 hgood.1 ht)
      hwithin.2 hgood.2 hok

theorem applyUpdateOps_keeps {s : Stored} (hreached : Reached server s.config) (hP : P s.config)
    (ops : Document) (hgood : ∀ op ∈ items ops.value, good op) :
    Reached server (applyUpdateOps server s ops.value).2.config ∧
      P (applyUpdateOps server s ops.value).2.config := by
  have hops : Within Json.inRange ops.value := ⟨ops.uniqueKeys, ops.inRange⟩
  unfold applyUpdateOps
  cases hrun : runOps server s.config ops.value with
  | error why => exact ⟨hreached, hP⟩
  | ok r =>
    unfold runOps at hrun
    obtain ⟨-, -, hrun⟩ := bind_eq_ok.mp hrun
    split at hrun
    · rename_i op rest hlist
      rw [hlist] at hgood
      exact foldlM_keeps (s := (s.config, false)) hstep hreached hP
        ((within_array_iff scalar_inRange).mp (hlist ▸ hops)) hgood hrun
    · cases hrun

theorem applyUpdates_keeps {s : Stored} (hreached : Reached server s.config) (hP : P s.config)
    {updates : List Document} (hgood : ∀ ops ∈ updates, ∀ op ∈ items ops.value, good op) :
    Reached server (applyUpdates server s updates).config ∧
    P (applyUpdates server s updates).config := by
  unfold applyUpdates
  induction updates generalizing s with
  | nil => exact ⟨hreached, hP⟩
  | cons ops updates ih =>
    rw [List.forall_mem_cons] at hgood
    obtain ⟨hreached', hP'⟩ := applyUpdateOps_keeps hstep hreached hP ops hgood.1
    exact ih hreached' hP' hgood.2

end Keeps

theorem count_listed_step {s s' : Json × Bool} (h : Reached server s.1)
    (hwithin : Within Json.inRange op) (hok : applyOp server s op = .ok s') (t : Bytes) :
    (listed s'.1).count t ≤ max 1 ((listed s.1).count t) := by
  obtain ⟨config, rules, hkept⟩ := h
  have hfilter : ((listed s.1).filter (· ≠ str op "steamid64" [])).count t ≤ (listed s.1).count t :=
    List.filter_sublist.count_le t
  rw [(listed_step hkept hwithin hok).count_eq]
  split_ifs
  · rw [List.count_cons]
    split_ifs with hsame
    · have hzero : ((listed s.1).filter (· ≠ str op "steamid64" [])).count t = 0 := by
        rw [List.count_eq_zero, ← eq_of_beq hsame]
        simp
      omega
    · omega
  · omega
  · omega

/-- The id is listed at most once over both teams and the spectators, as its number is written. -/
structure Sole (config : Json) (id : ℕ) : Prop where
  written : ∀ s ∈ listed config, Names s id ↔ s = decimal id
  once : (listed config).count (decimal id) ≤ 1

/-- A player that an operation adds is not this id in another writing. -/
def AddsAs (id : ℕ) (op : Json) : Prop :=
  str op "op" [] = ascii "add_player" →
    (Names (str op "steamid64" []) id ↔ str op "steamid64" [] = decimal id)

instance (id : ℕ) (op : Json) : Decidable (AddsAs id op) := inferInstanceAs (Decidable (_ → _))

theorem Sole.applyOp {s s' : Json × Bool} (hreached : Reached server s.1) (h : Sole s.1 id)
    (hwithin : Within Json.inRange op) (hadds : AddsAs id op) (hok : applyOp server s op = .ok s') :
    Sole s'.1 id := by
  refine ⟨fun t ht => ?_, ?_⟩
  · obtain ⟨config, rules, hkept⟩ := hreached
    rw [(listed_step hkept hwithin hok).mem_iff] at ht
    split_ifs at ht with hadd
    · rcases List.mem_cons.mp ht with rfl | ht
      · exact hadds hadd
      · exact h.written t (List.mem_of_mem_filter ht)
    · exact h.written t (List.mem_of_mem_filter ht)
    · exact h.written t ht
  · have hcount := count_listed_step hreached hwithin hok (decimal id)
    have honce := h.once
    omega

theorem Sole.agreed (h : Sole c id) : Agreed c id where
  seats p hp q hq hpid hqid := by
    have hpsame := (h.written _ (List.mem_map_of_mem hp)).mp hpid
    have hqsame := (h.written _ (List.mem_map_of_mem hq)).mp hqid
    have hlisted : ((listings c).filter (·.1 == decimal id)).length ≤ 1 := by
      have hcount := h.once
      rw [listed, List.count_eq_length_filter, List.filter_map, List.length_map] at hcount
      exact hcount
    have hpmem : p ∈ (listings c).filter (·.1 == decimal id) :=
      List.mem_filter.mpr ⟨hp, by simp [hpsame]⟩
    have hqmem : q ∈ (listings c).filter (·.1 == decimal id) :=
      List.mem_filter.mpr ⟨hq, by simp [hqsame]⟩
    rcases Nat.le_one_iff_eq_zero_or_eq_one.mp hlisted with hzero | hone
    · rw [List.length_eq_zero_iff.mp hzero] at hpmem
      cases hpmem
    · obtain ⟨r, hr⟩ := List.length_eq_one_iff.mp hone
      rw [hr, List.mem_singleton] at hpmem hqmem
      rw [hpmem, hqmem]
  found s hs hid := (h.written s hs).mp hid ▸ hs
  named hmem := (h.written _ hmem).mpr rfl

/-- The context that is loaded has the seats of its configuration. -/
theorem Reached.contextSeat_eq (h : Reached server c) {matchId : Bytes} {ctx : WebhookMatchContext}
    (hctx : contextOf server matchId c = .ok ctx) (hagreed : Agreed c id) : contextSeat id ctx =
      if isCoachOf c id = true ∧ admits c server ctx = false then none else teamOf c id := by
  obtain ⟨config, rules, hkept⟩ := h
  have hwithin := hkept.within
  obtain ⟨t₁, ht₁, hok₁⟩ := hkept.team "team1" (by decide)
  obtain ⟨t₂, ht₂, hok₂⟩ := hkept.team "team2" (by decide)
  have hobj₁ : obj c "team1" = some t₁ := Option.filter_eq_some_iff.mpr ⟨ht₁, hok₁.1⟩
  have hobj₂ : obj c "team2" = some t₂ := Option.filter_eq_some_iff.mpr ⟨ht₂, hok₂.1⟩
  exact Assign.contextSeat_eq ⟨hwithin.unique, hwithin.all⟩ hkept.ruleset hobj₁ hobj₂ hctx hagreed

/-- After any updates of an assignment no text is listed more than once that was not listed more
often before. An id that was listed at most once, as its number is written, still is when the
updates add it so, and its listings agree. Every context that is loaded has an id whose listings
agree where `teamOf` says, but for the coaches that the rules do not admit: they have no seat. -/
theorem seats_after_updates {payload : Document} {s : Stored} {updates : List Document}
    (hvalid : validateAssign server payload.value = .ok ())
    (hconfig : obj payload.value "config" = some s.config) :
    let c := (applyUpdates server s updates).config
    (∀ t, (listed c).count t ≤ max 1 ((listed s.config).count t)) ∧
      (∀ id : ℕ, Sole s.config id → (∀ ops ∈ updates, ∀ op ∈ items ops.value, AddsAs id op) →
        Sole c id ∧ Agreed c id) ∧
      ∀ (matchId : Bytes) (ctx : WebhookMatchContext), contextOf server matchId c = .ok ctx →
        ∀ id : ℕ, Agreed c id → contextSeat id ctx =
          if isCoachOf c id = true ∧ admits c server ctx = false then none else teamOf c id := by
  intro c
  have hstart := Reached.of_validAssign hvalid hconfig
  have hanything : ∀ ops ∈ updates, ∀ op ∈ items ops.value, (fun _ => True) op :=
    fun _ _ _ _ => trivial
  refine ⟨fun t => ?_, fun id hsole hadds => ?_, fun matchId ctx hctx id hagreed => ?_⟩
  · refine (applyUpdates_keeps (P := fun c =>
      (listed c).count t ≤ max 1 ((listed s.config).count t))
      ?_ hstart (le_max_right _ _) hanything).2
    intro s₁ s₂ op hreached hP hwithin _ hok
    have hcount := count_listed_step hreached hwithin hok t
    omega
  · have hkept := (applyUpdates_keeps (P := fun c => Sole c id)
      (fun _ _ _ hreached hP hwithin hgood hok => Sole.applyOp hreached hP hwithin hgood hok)
      hstart hsole hadds).2
    exact ⟨hkept, hkept.agreed⟩
  · have hreached :=
      (applyUpdates_keeps (P := fun _ => True) (fun _ _ _ _ _ _ _ _ => trivial) hstart
        trivial hanything).1
    exact hreached.contextSeat_eq hctx hagreed

example : parseSteamId64Loose (ascii "76561197960265731") = 76561197960265731 := by decide +kernel

end Runs

section Examples

def oneMore : Document where
  value := .array [ofFields [("op", some (.string (ascii "add_player"))),
    ("steamid64", some (.string (ascii "76561197960265731"))),
    ("team", some (.string (ascii "spectator")))]]
  uniqueKeys := by decide
  inRange := by decide

/-- The assignment of one map with its sides set, for two other teams. -/
def teamsPayload (team1 team2 : Json) : Json :=
  let map :=
    ofFields [("name", some (.string (ascii "de_dust2"))),
      ("sides", some (.string (ascii "team1_ct")))]
  put plainPayload.value "config"
    (put (put (put (assigned plainPayload.value) "maps" (.array [map])) "team1" team1)
      "team2" team2)

/-- A team of one player and a coach. -/
def coachedTeam : Json :=
  let coach := newPlayer (ascii "76561197960265731") (ascii "Carol") (ascii "coach")
  put (sampleTeam "Alpha" "76561197960265729") "players"
    (.array [newPlayer (ascii "76561197960265729") (ascii "Ann") (ascii "player"), coach])

/-- The seats that the configuration and the context of an assignment give. -/
def seatsOf (server : Ruleset) (payload : Json) (id : ℕ) : Option Seat × Option (Option Seat) :=
  (teamOf (assigned payload) id,
    (contextOf server (matchIdOf payload) (assigned payload)).toOption.map (contextSeat id))

def coachPayload : Json := teamsPayload coachedTeam (sampleTeam "Beta" "76561197960265730")

def twicePayload : Json :=
  teamsPayload (sampleTeam "Alpha" "76561197960265729") (sampleTeam "Beta" "76561197960265729")

def zeroPayload : Json :=
  teamsPayload (sampleTeam "Alpha" "076561197960265729") (sampleTeam "Beta" "76561197960265730")

def twiceDocument : Document where
  value := twicePayload
  uniqueKeys := by decide
  inRange := by decide

/-- A player of both teams leaves the seat of another id alone. -/
theorem seats_after_updates_spectator : ∃ ctx,
    contextOf .default (matchIdOf twicePayload)
        (applyUpdates .default ⟨assigned twicePayload, false⟩ [oneMore]).config = .ok ctx ∧
      contextSeat 76561197960265731 ctx = some .spectator := by
  have hvalid : (validateAssign .default twiceDocument.value).toOption =
      some () := by decide +kernel
  have hctx : (contextOf .default (matchIdOf twicePayload)
      (applyUpdates .default ⟨assigned twicePayload, false⟩ [oneMore]).config).toOption.isSome =
      true := by
    decide +kernel
  have hsole : Sole (assigned twicePayload) 76561197960265731 := ⟨by decide, by decide⟩
  have hadds : ∀ ops ∈ [oneMore], ∀ op ∈ items ops.value, AddsAs 76561197960265731 op := by decide
  have hcoach : isCoachOf (applyUpdates .default ⟨assigned twicePayload, false⟩ [oneMore]).config
      76561197960265731 = false := by decide
  have hteam : teamOf (applyUpdates .default ⟨assigned twicePayload, false⟩ [oneMore]).config
      76561197960265731 = some .spectator := by decide
  obtain ⟨ctx, hctx⟩ := Option.isSome_iff_exists.mp hctx
  obtain ⟨-, hkeeps, hseats⟩ := @seats_after_updates .default twiceDocument
    ⟨assigned twicePayload, false⟩ [oneMore] (eq_ok_of_toOption hvalid) rfl
  refine ⟨ctx, eq_ok_of_toOption hctx, ?_⟩
  rw [hseats _ ctx (eq_ok_of_toOption hctx) _ (hkeeps _ hsole hadds).2, hcoach, hteam]
  rfl

/-- Under the valve ruleset a coach of an online match has no seat, where the configuration answers
spectator. A player of both teams is accepted, and the two answers are the two teams. An id that is
written with a zero in front is accepted, and is found in the context alone. -/
theorem seats_disagree :
    (validateAssign .valve coachPayload = .ok () ∧
      seatsOf .valve coachPayload 76561197960265731 = (some .spectator, some none)) ∧
    (validateAssign .default twicePayload = .ok () ∧ ¬(listed (assigned twicePayload)).Nodup ∧
      seatsOf .default twicePayload 76561197960265729 = (some .team1, some (some .team2))) ∧
    (validateAssign .default zeroPayload = .ok () ∧
      seatsOf .default zeroPayload 76561197960265729 = (none, some (some .team1))) := by
  have hvalid : (validateAssign .valve coachPayload).toOption = some () ∧
      (validateAssign .default twicePayload).toOption = some () ∧
        (validateAssign .default zeroPayload).toOption = some () := by decide +kernel
  obtain ⟨hcoach, htwice, hzero⟩ := hvalid
  exact ⟨⟨eq_ok_of_toOption hcoach, by decide +kernel⟩,
    ⟨eq_ok_of_toOption htwice, by decide, by decide +kernel⟩,
    eq_ok_of_toOption hzero, by decide +kernel⟩

end Examples

end ReadyUp.Config.Assign
