import ReadyUp.Match.Counters
import Mathlib.Algebra.Order.BigOperators.Group.List

/-!
# The damage tiebreak and restores

`GetRosterTeamDamageTotals` adds up the damage that the hurt events have credited to the players
of each roster. The tally only grows: `DoRestoreNow` takes it through a snapshot and back, with
the round number as the one change. So the totals after a restore are those of the start of the
round exactly when no rostered player has taken health from an enemy in between.
-/
namespace ReadyUp.Match

open ReadyUp.Support ReadyUp.Stats

/-! ## The damage of one player -/

namespace MatchEvents

/-- The damage that the events have credited to a player. -/
def damage (ev : MatchEvents) (id : ℕ) : ℤ := (ev.stats.read id).damage

/-- The health that a hit takes from its victim. -/
def healthTaken (ev : MatchEvents) (victim : EventPlayer) (dmgHealth health : ℤ) : ℤ :=
  let before := max 0 ((ev.health.lookup victim.slot).getD 100)
  let after := max 0 (min health before)
  if dmgHealth > 0 then before - after else 0

theorem healthTaken_nonneg (ev : MatchEvents) (victim : EventPlayer) (dmgHealth health : ℤ) :
    0 ≤ ev.healthTaken victim dmgHealth health := by
  unfold healthTaken
  dsimp only
  split_ifs <;> omega

/-- The damage that one hit credits to `id`. -/
def dealt (ev : MatchEvents) (victim attacker : EventPlayer) (dmgHealth health : ℤ) (id : ℕ) : ℤ :=
  if attacker.steam = some id ∧ enemies attacker victim = true then
    ev.healthTaken victim dmgHealth health
  else 0

theorem credit_damage (ev : MatchEvents) (ctx : MatchContext) (p : EventPlayer) (steam : ℕ)
    (f : EventTotals → EventTotals) {d : ℤ} (hf : ∀ t, (f t).damage = t.damage + d) (id : ℕ) :
    (ev.credit ctx p steam f).damage id = ev.damage id + if id = steam then d else 0 := by
  simp only [damage, credit, Table.read_modify]
  by_cases h : id = steam
  · rw [if_pos h, if_pos h, hf, h]
  · rw [if_neg h, if_neg h, add_zero]

theorem onPlayerHurt_damage (ev : MatchEvents) (ctx : MatchContext)
    (victim attacker : EventPlayer) (dmgHealth health : ℤ) (id : ℕ) :
    (ev.onPlayerHurt ctx victim attacker dmgHealth health).damage id =
      ev.damage id + ev.dealt victim attacker dmgHealth health id := by
  have htaken := ev.healthTaken_nonneg victim dmgHealth health
  -- the health table is written before the attacker is looked at
  have hhealth : ∀ t : Table ℤ ℤ, damage (if 0 ≤ victim.slot then { ev with health := t } else ev)
      id = ev.damage id := by
    intro t
    split <;> rfl
  unfold onPlayerHurt dealt
  dsimp only
  cases hsteam : attacker.steam with
  | none => simp [hhealth]
  | some steam =>
    dsimp only
    by_cases henemies : enemies attacker victim = true
    · rw [if_pos henemies, credit_damage _ _ _ _ _ (fun _ => rfl), hhealth]
      simp only [henemies, and_true, Option.some.injEq, eq_comm (a := steam)]
      congr 2
      exact max_eq_right htaken
    · simp [henemies, hhealth]

theorem onPlayerDeath_damage (ev : MatchEvents) (ctx : MatchContext)
    (victim attacker assister : EventPlayer) (headshot : Bool) (id : ℕ) :
    (ev.onPlayerDeath ctx victim attacker assister headshot).damage id = ev.damage id := by
  have hcredit : ∀ (ev : MatchEvents) (p : EventPlayer) (steam : ℕ) (f : EventTotals → EventTotals),
      (∀ t, (f t).damage = t.damage) → (ev.credit ctx p steam f).damage id = ev.damage id := by
    intro ev p steam f hf
    rw [credit_damage ev ctx p steam f (d := 0) (by simpa using hf), ite_self, add_zero]
  unfold onPlayerDeath
  dsimp only
  repeat' split
  all_goals simp only [hcredit, implies_true]

/-- The snapshot holds every entry of the tally, and the restore writes them all back. -/
theorem restore_damage (ev : MatchEvents) (round : ℤ) (onTeams : List ℤ) (id : ℕ) :
    (ev.restore { ev.snapshot with roundNumber := round } onTeams).damage id = ev.damage id := by
  have hview : ∀ (t : Table ℕ EventTotals) (kv : Sigma fun _ : ℕ => EventTotals) (j : ℕ),
      Table.read (t.insert kv.1 kv.2) j = if j = kv.1 then kv.2 else t.read j :=
    fun t kv j => Table.read_insert t kv.1 j kv.2
  unfold damage restore snapshot
  congr 1
  simp only [List.foldl_map, totalsOf, ofTotals, Team.ofInt_toInt]
  by_cases hmem : id ∈ ev.stats
  · exact foldl_view_of_mem (g := fun _ a _ => a) hview ev.stats.nodupKeys
      (Table.mem_entries_read hmem) ∅
  · rw [Table.read_of_notMem hmem]
    exact foldl_view_of_notMem (g := fun _ a _ => a) hview (mt AList.mem_keys.mpr hmem) ∅

/-! ## The totals of the rosters -/

/-- What one roster entry adds to the total of a team. -/
def share (ev : MatchEvents) (team : Team) (kv : Sigma fun _ : ℕ => Team) : ℤ :=
  if kv.2 = team then max 0 (ev.damage kv.1) else 0

theorem rosterTeamDamageTotals_eq (ev : MatchEvents) (ctx : MatchContext) :
    ev.rosterTeamDamageTotals ctx =
      ((ctx.rosterTeam.entries.map (ev.share .team1)).sum,
        (ctx.rosterTeam.entries.map (ev.share .team2)).sum) := by
  have hfold : ∀ (l : List (Sigma fun _ : ℕ => Team)) (acc : ℤ × ℤ), l.foldl ev.addDamage acc =
      (acc.1 + (l.map (ev.share .team1)).sum, acc.2 + (l.map (ev.share .team2)).sum) := by
    intro l
    induction l with
    | nil => simp
    | cons kv l ih =>
      intro acc
      obtain ⟨id, team⟩ := kv
      rw [List.foldl_cons, ih]
      cases hlookup : ev.stats.lookup id <;> cases team <;>
        simp [addDamage, share, damage, Table.read, hlookup, add_assoc, default]
  refine (hfold ctx.rosterTeam.entries (0, 0)).trans ?_
  simp

end MatchEvents

/-! ## The tally over a map -/

/-- A hit by a rostered player that takes health from an enemy. -/
def RosterHurt (s : Server) : MatchEvent → Prop
  | .playerHurt victim attacker dmgHealth health _ =>
    (attacker.steam.any fun id => decide (teamForSteam s.ctx id ≠ .unknown)) = true ∧
      enemies attacker victim = true ∧ 0 < s.events.healthTaken victim dmgHealth health
  | _ => False

namespace Server

/-- The damage that an event credits to a player. -/
def dealt (s : Server) (e : MatchEvent) (id : ℕ) : ℤ :=
  match e with
  | .playerHurt victim attacker dmgHealth health _ =>
    s.events.dealt victim attacker dmgHealth health id
  | _ => 0

/-- `GetRosterTeamDamageTotals`. -/
def damageTotals (s : Server) : ℤ × ℤ := s.events.rosterTeamDamageTotals s.ctx

/-- What an event on a map does to the tally. -/
structure TallyStep (s t : Server) (dealt : ℕ → ℤ) : Prop where
  ctx : t.ctx = s.ctx
  onItsMap : t.OnItsMap
  damage : ∀ id, t.events.damage id = s.events.damage id + dealt id

variable {s : Server}

theorem TallyStep.of_counters {t : Server} {dealt : ℕ → ℤ} {m : MatchState} {ev : MatchEvents}
    (h : t.counters = (s.ctx, m, ev)) (hmap : ev.lastMapNumber = m.map)
    (hdamage : ∀ id, ev.damage id = s.events.damage id + dealt id) : TallyStep s t dealt := by
  obtain ⟨hctx, rfl, rfl⟩ := counters_eq_iff.mp h
  exact ⟨hctx, hmap, hdamage⟩

theorem step_tally (hmap : s.OnItsMap) {e : MatchEvent} (he : e.OnMap) :
    TallyStep s (s.step e) (s.dealt e) := by
  have same : ∀ {t : Server}, t.counters = s.counters → TallyStep s t fun _ => 0 :=
    fun ht => .of_counters ht hmap fun _ => (add_zero _).symm
  cases e with
  | roundStart justRestarted controllers =>
    have hcounters := onRoundStart_counters hmap justRestarted controllers
    split_ifs at hcounters
    · exact same hcounters
    · exact .of_counters hcounters (hmap.trans (MatchState.setRound_map _ _).symm)
        fun _ => (add_zero _).symm
  | notice ct t =>
    simp only [step, onNotice]
    split
    · exact same rfl
    · exact .of_counters rfl hmap fun _ => (add_zero _).symm
  | roundEnd winner reason now controllers => exact same (onRoundEnd_counters hmap _ _ _ _)
  | playerHurt victim attacker dmgHealth health weapon =>
    refine .of_counters (s.onPlayerHurt_counters victim attacker dmgHealth health weapon) ?_ ?_
    · rw [maybeResetForMap_self hmap,
        MatchEvents.lastMapNumber_of_halves (MatchEvents.onPlayerHurt_halves ..)]
      exact hmap
    · rw [maybeResetForMap_self hmap]
      exact s.events.onPlayerHurt_damage s.ctx victim attacker dmgHealth health
  | playerDeath victim attacker assister assistedFlash headshot weapon time =>
    refine .of_counters (s.onPlayerDeath_counters victim attacker assister assistedFlash headshot
      weapon time) ?_ ?_
    · rw [maybeResetForMap_self hmap,
        MatchEvents.lastMapNumber_of_halves (MatchEvents.onPlayerDeath_halves ..)]
      exact hmap
    · intro id
      rw [maybeResetForMap_self hmap, MatchEvents.onPlayerDeath_damage]
      exact (add_zero _).symm
  | playerSpawn slot =>
    simp only [step, onPlayerSpawn, maybeResetForMap_self hmap]
    split
    · exact .of_counters rfl hmap fun _ => (add_zero _).symm
    · exact same rfl
  | playerDisconnect slot =>
    simp only [step, onPlayerDisconnect, maybeResetForMap_self hmap]
    split
    · exact .of_counters rfl hmap fun _ => (add_zero _).symm
    · exact same rfl
  | matchStart => exact he.elim
  | rosterReady => exact same s.maybeGateMatch_counters
  | forceStart allowed => cases allowed <;> exact same rfl
  | forfeit loser => exact same (s.forfeitCurrentMap_counters loser)
  | engineGameOver ctScore tScore => exact same (s.onEngineGameOver_counters _ _)
  | nextMap => exact same s.beginNextMap_counters
  | mapLoaded loaded => exact he.elim
  | restartMatch => exact same rfl
  | restore round scoreT1 scoreT2 now onTeams =>
    refine .of_counters rfl ?_ ?_
    · exact hmap.trans (MatchState.setRound_map _ _).symm
    · intro id
      exact (MatchEvents.restore_damage { s.events with ignoreRoundEndsUntil := now + 5 }
        _ _ id).trans
        (add_zero _).symm

theorem dealt_nonneg (s : Server) (e : MatchEvent) (id : ℕ) : 0 ≤ s.dealt e id := by
  unfold dealt
  split
  · unfold MatchEvents.dealt
    split
    · exact s.events.healthTaken_nonneg _ _ _
    · exact le_rfl
  · exact le_rfl

/-- A roster entry gives its own team what its player is credited with. -/
theorem TallyStep.share {t : Server} {dealt : ℕ → ℤ} (h : TallyStep s t dealt)
    (hnonneg : ∀ id, 0 ≤ s.events.damage id) (hdealt : ∀ id, 0 ≤ dealt id) (team : Team)
    (kv : Sigma fun _ : ℕ => Team) :
    t.events.share team kv = s.events.share team kv + if kv.2 = team then dealt kv.1 else 0 := by
  have := hnonneg kv.1
  have := hdealt kv.1
  simp only [MatchEvents.share, h.damage]
  split_ifs <;> omega

/-- The players of the rosters, and only they, count for the totals. -/
theorem TallyStep.damageTotals {t : Server} {dealt : ℕ → ℤ} (h : TallyStep s t dealt)
    (hnonneg : ∀ id, 0 ≤ s.events.damage id) (hdealt : ∀ id, 0 ≤ dealt id) :
    s.damageTotals ≤ t.damageTotals ∧
      (t.damageTotals = s.damageTotals ↔
        ∀ id, teamForSteam s.ctx id ≠ .unknown → dealt id = 0) := by
  have hshare := h.share hnonneg hdealt
  have hle : ∀ team, ∀ kv ∈ s.ctx.rosterTeam.entries,
      s.events.share team kv ≤ t.events.share team kv := by
    intro team kv _
    have := hdealt kv.1
    rw [hshare]
    split_ifs <;> omega
  simp only [Server.damageTotals, MatchEvents.rosterTeamDamageTotals_eq, h.ctx, Prod.mk_le_mk,
    Prod.mk.injEq]
  refine ⟨⟨List.sum_le_sum (hle .team1), List.sum_le_sum (hle .team2)⟩, ?_⟩
  constructor
  · rintro ⟨h1, h2⟩ id hid
    by_contra hne
    cases hlookup : s.ctx.rosterTeam.lookup id with
    | none => exact hid (by rw [teamForSteam, hlookup, Option.getD_none])
    | some team =>
      -- the total of the player's team has grown
      have hmem := AList.mem_lookup_iff.mp hlookup
      have hlt : s.events.share team ⟨id, team⟩ < t.events.share team ⟨id, team⟩ := by
        rw [hshare, if_pos rfl]
        exact lt_add_of_pos_right _ (lt_of_le_of_ne (hdealt id) (Ne.symm hne))
      have hsum := List.sum_lt_sum _ _ (hle team) ⟨_, hmem, hlt⟩
      cases team with
      | team1 => omega
      | team2 => omega
      | unknown => exact hid (by rw [teamForSteam, hlookup, Option.getD_some])
  · intro hzero
    have heq : ∀ team ≠ Team.unknown, s.ctx.rosterTeam.entries.map (t.events.share team) =
        s.ctx.rosterTeam.entries.map (s.events.share team) := by
      intro team hteam
      apply List.map_congr_left
      intro kv hkv
      rw [hshare]
      split_ifs with hkv2
      · have hlookup : s.ctx.rosterTeam.lookup kv.1 = some kv.2 := AList.mem_lookup_iff.mpr hkv
        rw [hzero kv.1 (by rw [teamForSteam, hlookup, Option.getD_some, hkv2]; exact hteam),
          add_zero]
      · rw [add_zero]
    rw [heq .team1 (by decide), heq .team2 (by decide)]
    exact ⟨rfl, rfl⟩

theorem rosterHurt_iff (s : Server) (e : MatchEvent) :
    ¬RosterHurt s e ↔ ∀ id, teamForSteam s.ctx id ≠ .unknown → s.dealt e id = 0 := by
  cases e with
  | playerHurt victim attacker dmgHealth health weapon =>
    have htaken := s.events.healthTaken_nonneg victim dmgHealth health
    simp only [RosterHurt, dealt, MatchEvents.dealt, Option.any_eq_true, decide_eq_true_eq,
      not_and, forall_exists_index]
    constructor
    · intro h id hid
      split_ifs with hattacker
      · have := h id ⟨hattacker.1, hid⟩ hattacker.2
        omega
      · rfl
    · intro h id hid henemies
      have := h id hid.2
      rw [if_pos ⟨hid.1, henemies⟩] at this
      omega
  | _ => simp [RosterHurt, dealt]

/-- The totals that the tiebreak compares right after a restore to round `k` are those of the
start of that round if and only if no rostered player has taken health from an enemy since. -/
theorem damageTotals_restore_iff (s : Server) (hmap : s.OnItsMap) (hfresh : s.events.stats = ∅)
    (es fs : List MatchEvent) (justRestarted : Bool) (controllers : List (ℤ × Observed))
    (hrun : Guarded Server.step (fun _ e => e.OnMap) s
      (es ++ [.roundStart justRestarted controllers] ++ fs))
    (scoreT1 scoreT2 : ℤ) (now : ℚ) (onTeams : List ℤ) :
    let started := run Server.step s (es ++ [.roundStart justRestarted controllers])
    let played := run Server.step started fs
    (played.doRestoreNow started.events.roundNumber scoreT1 scoreT2 now onTeams).damageTotals =
        started.damageTotals ↔
      Guarded Server.step (fun t e => ¬RosterHurt t e) started fs := by
  intro started played
  let InTally : Server → Prop := fun t => t.OnItsMap ∧ ∀ id, 0 ≤ t.events.damage id
  have hstep : ∀ t e, InTally t → e.OnMap → InTally (t.step e) := by
    intro t e ht he
    have htally := step_tally ht.1 he
    refine ⟨htally.onItsMap, ?_⟩
    intro id
    rw [htally.damage]
    exact add_nonneg (ht.2 id) (t.dealt_nonneg e id)
  have hstart : InTally s := ⟨hmap, fun id => by simp [MatchEvents.damage, hfresh, default]⟩
  obtain ⟨hbefore, hafter⟩ := guarded_append.mp hrun
  have hstarted : InTally started := hbefore.invariant hstart hstep
  have hplayed : InTally played := hafter.invariant hstarted hstep
  -- the restore itself credits nobody
  have hrestore :
      (played.doRestoreNow started.events.roundNumber scoreT1 scoreT2 now onTeams).damageTotals =
        played.damageTotals :=
    ((step_tally (e := .restore started.events.roundNumber scoreT1 scoreT2 now onTeams) hplayed.1
      trivial).damageTotals hplayed.2 fun _ => le_rfl).2.mpr fun _ _ => rfl
  have htotals := fun t (ht : InTally t) e (he : MatchEvent.OnMap e) =>
    (step_tally ht.1 he).damageTotals ht.2 (t.dealt_nonneg e)
  rw [hrestore, (hafter.measure_eq_iff hstarted fun t e ht he =>
    ⟨hstep t e ht he, (htotals t ht e he).1⟩).2]
  exact hafter.congr hstarted fun t e ht he =>
    ⟨hstep t e ht he, (htotals t ht e he).2.trans (t.rosterHurt_iff e).symm⟩

end Server

def duel : Server :=
  { maps := { entryMatchesLoaded := fun e loaded => e == loaded, loadedBaseName := id }
    ctx := { rosterTeam := ((∅ : Table ℕ Team).insert 1 .team1).insert 2 .team2 }
    events := { lastMapNumber := 1 }
    modes := { mode := .matchLive } }

/-- Player 2 takes 40 health from player 1. -/
def duelHit : MatchEvent :=
  .playerHurt { slot := 1, steam := some 1, csTeam := some 3 }
    { slot := 2, steam := some 2, csTeam := some 2 } 40 60 "ak47"

/-- Damage from before the round is not part of what a restore to it should undo. -/
theorem damageTotals_restore_earlier_round :
    ((run Server.step (run Server.step duel ([.roundStart false [], duelHit, .roundEnd 2 9 1 []] ++
        [.roundStart false []])) [.roundEnd 3 8 2 []]).doRestoreNow 2 (-1) (-1) 3 []).damageTotals =
      (run Server.step duel ([.roundStart false [], duelHit, .roundEnd 2 9 1 []] ++
        [.roundStart false []])).damageTotals :=
  (Server.damageTotals_restore_iff duel rfl rfl [.roundStart false [], duelHit, .roundEnd 2 9 1 []]
    [.roundEnd 3 8 2 []] false [] ⟨trivial, trivial, trivial, trivial, trivial, trivial⟩
    (-1) (-1) 3 []).mpr ⟨not_false, trivial⟩

/-- The 40 damage of a voided first round still count for the tiebreak. -/
theorem damageTotals_restore_voided_hit :
    ((run Server.step duel [.roundStart false [], duelHit, .roundEnd 2 9 1 []]).doRestoreNow
        1 (-1) (-1) 3 []).damageTotals ≠
      (run Server.step duel [.roundStart false []]).damageTotals := by
  decide

end ReadyUp.Match
