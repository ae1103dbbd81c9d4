import ReadyUp.Match.StatsRewind

/-!
# What a call books

Of a player's totals those are booked that have a counterpart: deaths against kills, team kills and
suicides, entry kills against the open round, and what only the end of a round counts. Most calls
book nothing (`SameBooks`); a death does what `deathKind` says, and the end of a round closes the
records.
-/
namespace ReadyUp.Stats

open ReadyUp.Support

/-- The totals that are balanced against something. -/
structure Booked where
  deaths : ℤ
  kills : ℤ
  teamKills : ℤ
  suicides : ℤ
  headshotKills : ℤ
  entryKills : ℤ
  kastRounds : ℤ
  roundsPlayed : ℤ
  multiKills : Vector ℤ 5
  clutchesWon : Vector ℤ 5

def PlayerStats.booked (s : PlayerStats) : Booked where
  deaths := s.deaths
  kills := s.kills
  teamKills := s.teamKills
  suicides := s.suicides
  headshotKills := s.headshotKills
  entryKills := s.entryKillsT + s.entryKillsCt
  kastRounds := s.kastRounds
  roundsPlayed := s.roundsPlayed
  multiKills := s.multiKills
  clutchesWon := s.clutchesWon

namespace StatsAccumulator

def books (a : StatsAccumulator) (id : ℕ) : Booked := (a.players.read id).s.booked

structure SameBooks (a b : StatsAccumulator) : Prop where
  roundOk : a.RoundOk → b.RoundOk
  books : ∀ id, b.books id = a.books id
  entryDone : b.round.entryDone = a.round.entryDone
  entryKill : ∀ id, (b.record id).entryKill = (a.record id).entryKill

section Frame

variable {a b c : StatsAccumulator}

theorem SameBooks.refl (a : StatsAccumulator) : a.SameBooks a :=
  ⟨id, fun _ => rfl, rfl, fun _ => rfl⟩

theorem SameBooks.trans (hab : a.SameBooks b) (hbc : b.SameBooks c) : a.SameBooks c :=
  ⟨fun h => hbc.roundOk (hab.roundOk h), fun id => (hbc.books id).trans (hab.books id),
    hbc.entryDone.trans hab.entryDone, fun id => (hbc.entryKill id).trans (hab.entryKill id)⟩

@[simp] theorem books_modP (a : StatsAccumulator) (k j : ℕ) (f : PlayerStats → PlayerStats) :
    (a.modP k f).books j = if j = k then (f (a.players.read k).s).booked else a.books j := by
  unfold books
  rw [read_modP]
  split_ifs <;> rfl

theorem books_modP_of {k : ℕ} {f : PlayerStats → PlayerStats} {g : Booked → Booked}
    (hf : ∀ s, (f s).booked = g s.booked) (j : ℕ) :
    (a.modP k f).books j = if j = k then g (a.books k) else a.books j := by
  rw [books_modP, hf]
  rfl

@[simp] theorem books_modR (a : StatsAccumulator) (k j : ℕ) (f : PlayerRound → PlayerRound) :
    (a.modR k f).books j = a.books j := rfl

theorem sameBooks_modP {k : ℕ} {f : PlayerStats → PlayerStats} (hf : ∀ s, (f s).booked = s.booked) :
    a.SameBooks (a.modP k f) := by
  refine ⟨fun h => h.modP k f, ?_, rfl, fun _ => rfl⟩
  intro id
  rw [books_modP]
  split_ifs with hid
  · rw [hf, hid]
    rfl
  · rfl

theorem sameBooks_modR {k : ℕ} {g : PlayerRound → PlayerRound}
    (hopen : ∀ r : PlayerRound, r.Open → (g r).Open) (hid : ∀ r, (g r).id = r.id)
    (hentry : ∀ r, (g r).entryKill = r.entryKill ∧ (g r).entryDeath = r.entryDeath) :
    a.SameBooks (a.modR k g) := by
  refine ⟨fun h => h.modR hopen hid hentry, fun _ => rfl, rfl, ?_⟩
  intro id
  rw [record_modR]
  split_ifs with hk
  · rw [(hentry _).1, hk]
  · rfl

theorem sameBooks_round (a : StatsAccumulator) (side : Table ℕ ℤ) (dead : Finset ℕ)
    (health : Table ℕ ℤ) (deathBy : Table ℕ (ℕ × ℚ)) (clutch : Table ℤ (ℕ × ℤ)) :
    a.SameBooks { a with round := { a.round with
      side := side, dead := dead, health := health, deathBy := deathBy, clutch := clutch } } :=
  ⟨fun h => ⟨h.opened, h.stamped, h.entry⟩, fun _ => rfl, rfl, fun _ => rfl⟩

theorem sameBooks_player (a : StatsAccumulator) (id : ℕ) {p : Player}
    (hp : p.s = (a.players.read id).s) :
    a.SameBooks { a with players := a.players.insert id p } := by
  refine ⟨fun h => ⟨h.opened, h.stamped, h.entry⟩, ?_, rfl, fun _ => rfl⟩
  intro j
  unfold books
  rw [Table.read_insert]
  split_ifs with hj
  · rw [hp, hj]
  · rfl

end Frame

/-! ## The calls that book nothing -/

section Calls

variable (a : StatsAccumulator)

theorem tradeStep_sameBooks (victim attacker : ℕ) (attackerSide : ℤ) (time : ℚ)
    (st : StatsAccumulator × Bool) (kv : Sigma fun _ : ℕ => ℕ × ℚ) :
    st.1.SameBooks (tradeStep victim attacker attackerSide time st kv).1 := by
  have htraded : ∀ b : StatsAccumulator, b.SameBooks (b.modR kv.1 fun r =>
      if (st.1.round.pr.read kv.1).traded then r else { r with traded := true, kast := true }) := by
    intro b
    cases (st.1.round.pr.read kv.1).traded
    · exact sameBooks_modR (fun r hr => ⟨hr.1, hr.2, hr.3, hr.4, hr.5, hr.6, hr.7, hr.8⟩)
        (fun _ => rfl)
        fun _ => ⟨rfl, rfl⟩
    · exact sameBooks_modR (fun r hr => hr) (fun _ => rfl) fun _ => ⟨rfl, rfl⟩
  unfold tradeStep
  dsimp only
  split_ifs with h1 h2 h3 h4
  · exact .refl _
  · exact .refl _
  · exact .refl _
  · have h := htraded st.1
    simp only [h4, if_true] at h
    exact h
  · have h := htraded st.1
    simp only [h4, Bool.false_eq_true, if_false] at h
    exact h.trans (sameBooks_modP (f := fun s => { s with tradedDeaths := s.tradedDeaths + 1 })
      fun _ => rfl)

theorem foldl_tradeStep_sameBooks (victim attacker : ℕ) (attackerSide : ℤ) (time : ℚ)
    (l : List (Sigma fun _ : ℕ => ℕ × ℚ)) :
    a.SameBooks (l.foldl (tradeStep victim attacker attackerSide time) (a, false)).1 := by
  refine List.foldlRecOn l _ (motive := fun st : StatsAccumulator × Bool => a.SameBooks st.1)
    (.refl a) ?_
  intro st hst kv _
  exact hst.trans (tradeStep_sameBooks victim attacker attackerSide time st kv)

theorem creditAssist_sameBooks (victim attacker assister : ℕ)
    (victimSide : ℤ) (assistedFlash : Bool) :
    a.SameBooks (a.creditAssist victim attacker assister victimSide assistedFlash) := by
  unfold creditAssist
  dsimp only
  split
  swap
  · exact .refl a
  split
  · refine (sameBooks_modP ?_).trans (sameBooks_modR ?_ ?_ ?_)
    · intro s
      cases assistedFlash <;> rfl
    · intro r hr
      have hassists := hr.assists
      have hflash := hr.flashAssists
      cases assistedFlash
      · exact ⟨hr.1, by change 0 ≤ r.assists + 1; omega, hr.3, hr.4, hr.5, hr.6, hr.7, hr.8⟩
      · exact ⟨hr.1, hr.2, by change 0 ≤ r.flashAssists + 1; omega, hr.4, hr.5, hr.6, hr.7, hr.8⟩
    · exact fun r => by cases assistedFlash <;> rfl
    · exact fun r => by cases assistedFlash <;> exact ⟨rfl, rfl⟩
  · exact .refl a

theorem noteClutch_sameBooks (victimSide : ℤ) : a.SameBooks (a.noteClutch victimSide) := by
  unfold noteClutch
  dsimp only
  split
  · split
    · split
      · refine (sameBooks_round a a.round.side a.round.dead a.round.health a.round.deathBy _).trans
          (sameBooks_modR ?_ ?_ ?_)
        · intro r hr
          exact ⟨hr.1, hr.2, hr.3, hr.4, hr.5, hr.6, min_le_right _ _, hr.8⟩
        · exact fun _ => rfl
        · exact fun _ => ⟨rfl, rfl⟩
      · exact .refl a
    · exact .refl a
  · exact .refl a

theorem onPlayerHurt_sameBooks (victim attacker : ℕ) (dmgHealth healthAfter : ℤ) (weapon : String) :
    a.SameBooks (a.onPlayerHurt victim attacker dmgHealth healthAfter weapon) := by
  unfold onPlayerHurt
  split
  · exact .refl a
  dsimp only
  set before := max 0 ((a.round.health.lookup victim).getD 100)
  have hactual : 0 ≤ (if dmgHealth > 0 then before - max 0 (min healthAfter before) else 0) := by
    have : 0 ≤ before := le_max_left _ _
    split_ifs <;> omega
  set actual := if dmgHealth > 0 then before - max 0 (min healthAfter before) else 0
  have hhealth := sameBooks_round a a.round.side a.round.dead
    (a.round.health.insert victim (max 0 (min healthAfter before))) a.round.deathBy a.round.clutch
  split
  · exact hhealth
  split
  · exact hhealth
  · refine (hhealth.trans (sameBooks_modP ?_)).trans (sameBooks_modR ?_ ?_ ?_)
    · exact fun _ => rfl
    · intro r hr
      have hdamage := hr.damage
      have hutility := hr.utilityDamage
      refine ⟨hr.1, hr.2, hr.3, hr.4, ?_, ?_, hr.7, hr.8⟩
      · change 0 ≤ r.damage + actual
        omega
      · change 0 ≤ if isUtilityWeapon weapon then r.utilityDamage + actual else r.utilityDamage
        split_ifs <;> omega
    · exact fun _ => rfl
    · exact fun _ => ⟨rfl, rfl⟩

theorem observePlayer_sameBooks (id : ℕ) (name : Bytes) (side teamSlot : ℤ) (bot : Bool) :
    a.SameBooks (a.observePlayer id name side teamSlot bot) := by
  have hplayer : a.SameBooks { a with
      players := a.players.insert id (a.observed id name side teamSlot bot) } :=
    sameBooks_player a id rfl
  unfold observePlayer
  split
  · exact .refl a
  dsimp only
  split
  · refine (hplayer.trans
      (sameBooks_round _ (a.round.side.insert id side) a.round.dead a.round.health
        a.round.deathBy a.round.clutch)).trans (sameBooks_modR ?_ ?_ ?_)
    · exact fun r hr => ⟨hr.1, hr.2, hr.3, hr.4, hr.5, hr.6, hr.7, hr.8⟩
    · exact fun _ => rfl
    · exact fun _ => ⟨rfl, rfl⟩
  · exact hplayer

/-- The calls other than a death and the ends of a round book nothing. -/
theorem step_sameBooks {op : StatsOp} (hstart : op ≠ .onRoundStart)
    (hdeath : ∀ victim attacker assister assistedFlash headshot weapon time,
      op ≠ .onPlayerDeath victim attacker assister assistedFlash headshot weapon time)
    (hend : ∀ winnerSide reason, op ≠ .onRoundEnd winnerSide reason) : a.SameBooks (a.step op) := by
  cases op with
  | onRoundStart => exact absurd rfl hstart
  | observePlayer => exact observePlayer_sameBooks ..
  | onPlayerDeath victim attacker assister assistedFlash headshot weapon time =>
    exact absurd rfl (hdeath victim attacker assister assistedFlash headshot weapon time)
  | onPlayerHurt => exact onPlayerHurt_sameBooks ..
  | onPlayerBlind =>
    simp only [step, onPlayerBlind]
    split
    · exact .refl a
    · exact sameBooks_modP fun s => by split_ifs <;> rfl
  | onBombPlanted =>
    simp only [step, onBombPlanted]
    split
    · refine sameBooks_modP ?_
      exact fun _ => rfl
    · exact .refl a
  | onBombDefused =>
    simp only [step, onBombDefused]
    split
    · refine sameBooks_modP ?_
      exact fun _ => rfl
    · exact .refl a
  | onRoundMvp =>
    simp only [step, onRoundMvp]
    split
    · exact .refl a
    · refine (sameBooks_modP ?_).trans (sameBooks_modR ?_ ?_ ?_)
      · exact fun _ => rfl
      · exact fun r hr => ⟨hr.1, hr.2, hr.3, hr.4, hr.5, hr.6, hr.7, hr.8⟩
      · exact fun _ => rfl
      · exact fun _ => ⟨rfl, rfl⟩
  | setScore =>
    simp only [step, setScore]
    split
    · refine sameBooks_modP ?_
      exact fun _ => rfl
    · exact .refl a
  | setMoneyStart =>
    simp only [step, setMoneyStart]
    split
    · exact .refl a
    · refine sameBooks_modR ?_ ?_ ?_
      · exact fun r hr => ⟨hr.1, hr.2, hr.3, hr.4, hr.5, hr.6, hr.7, hr.8⟩
      · exact fun _ => rfl
      · exact fun _ => ⟨rfl, rfl⟩
  | setLoadout =>
    simp only [step, setLoadout]
    split
    · exact .refl a
    · refine sameBooks_modR ?_ ?_ ?_
      · exact fun r hr => ⟨hr.1, hr.2, hr.3, hr.4, hr.5, hr.6, hr.7, hr.8⟩
      · exact fun _ => rfl
      · exact fun _ => ⟨rfl, rfl⟩
  | onRoundEnd winnerSide reason => exact absurd rfl (hend winnerSide reason)

end Calls

/-! ## A death -/

section Death

/-- Whom a death is booked on beside the victim. -/
def Suicide (victim attacker : ℕ) : Prop := attacker = 0 ∨ attacker = victim

def TeamKill (a : StatsAccumulator) (victim attacker : ℕ) : Prop :=
  ¬Suicide victim attacker ∧ a.sideOf attacker ≠ 0 ∧ a.sideOf attacker = a.sideOf victim

def Kill (a : StatsAccumulator) (victim attacker : ℕ) : Prop :=
  ¬Suicide victim attacker ∧ ¬(a.sideOf attacker ≠ 0 ∧ a.sideOf attacker = a.sideOf victim)

instance (victim attacker : ℕ) : Decidable (Suicide victim attacker) :=
  inferInstanceAs (Decidable (_ ∨ _))

instance (a : StatsAccumulator) (victim attacker : ℕ) : Decidable (a.TeamKill victim attacker) :=
  inferInstanceAs (Decidable (_ ∧ _))

instance (a : StatsAccumulator) (victim attacker : ℕ) : Decidable (a.Kill victim attacker) :=
  inferInstanceAs (Decidable (_ ∧ _))

variable {a : StatsAccumulator}

theorem noteDeath_eq (a : StatsAccumulator) (victim : ℕ) (side : ℤ) :
    a.noteDeath victim side =
      (modP { a with round := { a.round with
          side :=
  if IsSide side ∧ victim ∉ a.round.side then a.round.side.insert victim side else a.round.side
          dead := insert victim a.round.dead } } victim fun s =>
            { s with deaths := s.deaths + 1 }).modR victim
        fun r => { r with died := true } := rfl

/-- Joining the side that is reported already changes no answer. -/
theorem sideOf_noteDeath (a : StatsAccumulator) (victim j : ℕ) :
    (a.noteDeath victim (a.sideOf victim)).sideOf j = a.sideOf j := by
  rw [noteDeath_eq, sideOf_modR, sideOf_modP]
  by_cases hnew : IsSide (a.sideOf victim) ∧ victim ∉ a.round.side
  · simp only [if_pos hnew]
    by_cases hj : j = victim
    · subst hj
      rw [sideOf, AList.lookup_insert]
    · simp only [sideOf, AList.lookup_insert_ne hj]
  · simp only [if_neg hnew]
    rfl

theorem noteDeath_books (a : StatsAccumulator) (victim : ℕ) (side : ℤ) :
    (a.RoundOk → (a.noteDeath victim side).RoundOk) ∧
      (∀ id, (a.noteDeath victim side).books id =
        { a.books id with deaths := (a.books id).deaths + if id = victim then 1 else 0 }) ∧
      (a.noteDeath victim side).round.entryDone = a.round.entryDone ∧
      ∀ id, ((a.noteDeath victim side).record id).entryKill = (a.record id).entryKill := by
  have hround := sameBooks_round a
    (if IsSide side ∧ victim ∉ a.round.side then a.round.side.insert victim side else a.round.side)
    (insert victim a.round.dead) a.round.health a.round.deathBy a.round.clutch
  set b : StatsAccumulator := { a with round := { a.round with
      side := if IsSide side ∧ victim ∉ a.round.side then
        a.round.side.insert victim side else a.round.side
      dead := insert victim a.round.dead } }
  have hrecord :
      (b.modP victim fun s => { s with deaths := s.deaths + 1 }).SameBooks
        (a.noteDeath victim side) := by
    rw [noteDeath_eq]
    refine sameBooks_modR ?_ ?_ ?_
    · exact fun r hr => ⟨hr.1, hr.2, hr.3, hr.4, hr.5, hr.6, hr.7, hr.8⟩
    · exact fun _ => rfl
    · exact fun _ => ⟨rfl, rfl⟩
  refine ⟨fun h => hrecord.roundOk ((hround.roundOk h).modP _ _), ?_, hrecord.entryDone,
    hrecord.entryKill⟩
  intro id
  rw [hrecord.books, books_modP, ← hround.books]
  split_ifs with hid
  · rw [hid]
    rfl
  · simp

theorem booked_entryKill (s : PlayerStats) (side : ℤ) :
    PlayerStats.booked (if side = 2 then { s with entryKillsT := s.entryKillsT + 1 }
      else if side = 3 then { s with entryKillsCt := s.entryKillsCt + 1 } else s) =
      { s.booked with entryKills := s.booked.entryKills + if IsSide side then 1 else 0 } := by
  by_cases h2 : side = 2
  · subst h2
    simp only [PlayerStats.booked, if_true]
    rw [if_pos (.inl rfl)]
    congr 1
    omega
  · by_cases h3 : side = 3
    · subst h3
      rw [if_neg h2, if_pos rfl, if_pos (.inr rfl)]
      simp only [PlayerStats.booked, add_assoc]
    · simp [h2, h3, PlayerStats.booked]

theorem booked_entryDeath (s : PlayerStats) (side : ℤ) :
    PlayerStats.booked (if side = 2 then { s with entryDeathsT := s.entryDeathsT + 1 }
      else if side = 3 then { s with entryDeathsCt := s.entryDeathsCt + 1 } else s) = s.booked := by
  split_ifs <;> rfl

/-- The first kill of a round is booked for an attacker whose side is known. -/
theorem creditEntry_books (a : StatsAccumulator) (victim attacker : ℕ)
    (victimSide attackerSide : ℤ) :
    (a.RoundOk → (a.creditEntry victim attacker victimSide attackerSide).RoundOk) ∧
      (∀ id, (a.creditEntry victim attacker victimSide attackerSide).books id =
        { a.books id with entryKills := (a.books id).entryKills +
          if a.round.entryDone = false ∧ IsSide attackerSide ∧ id = attacker then 1 else 0 }) ∧
      (a.creditEntry victim attacker victimSide attackerSide).round.entryDone = true ∧
      ∀ id, ((a.creditEntry victim attacker victimSide attackerSide).record id).entryKill =
        ((a.record id).entryKill || (!a.round.entryDone && decide (id = attacker))) := by
  unfold creditEntry
  cases hdone : a.round.entryDone with
  | true =>
    refine ⟨id, ?_, hdone, ?_⟩ <;> simp
  | false =>
    simp only [Bool.false_eq_true, if_false]
    set b : StatsAccumulator := { a with round := { a.round with entryDone := true } } with hb
    have hbooks : ∀ j, b.books j = a.books j := fun _ => rfl
    have hrecord : ∀ j, b.record j = a.record j := fun _ => rfl
    refine ⟨?_, ?_, rfl, ?_⟩
    · intro h
      refine ⟨?_, ?_, fun hd => by simp [hb, modP, modR] at hd⟩
      · intro id
        obtain ⟨h1, h2, h3, h4, h5, h6, h7, h8⟩ := h.opened id
        simp only [record_modP, record_modR]
        split_ifs <;> subst_vars <;> exact ⟨h1, h2, h3, h4, h5, h6, h7, h8⟩
      · intro id hid
        have hmem : id = victim ∨ id = attacker ∨ id ∈ a.round.pr := by
          rcases (Table.mem_modify ..).mp hid with hid | hid
          · exact .inl hid
          · exact .inr ((Table.mem_modify ..).mp hid)
        simp only [record_modP, record_modR]
        by_cases hv : id = victim
        · simp [hv]
        by_cases ha : id = attacker
        · rw [if_neg hv, if_pos ha, ha]
        · rw [if_neg hv, if_neg ha]
          exact h.stamped id ((hmem.resolve_left hv).resolve_left ha)
    · intro id
      have hlast :=
        sameBooks_modP
          (a := ((b.modR attacker fun r => { r with entryKill := true }).modR victim
              fun r => { r with entryDeath := true }).modP attacker fun s =>
            if attackerSide = 2 then { s with entryKillsT := s.entryKillsT + 1 }
            else if attackerSide = 3 then { s with entryKillsCt := s.entryKillsCt + 1 } else s)
          (k := victim) fun s => booked_entryDeath s victimSide
      rw [hlast.books, books_modP, booked_entryKill, books_modR, books_modR, hbooks,
        read_modR, read_modR]
      by_cases hid : id = attacker
      · have hread : (b.players.read attacker).s.booked = a.books attacker := rfl
        rw [if_pos hid, hread, hid]
        simp
      · simp [hid]
    · intro id
      simp only [record_modP, record_modR, hrecord]
      clear_value b
      by_cases hv : id = victim
      · rw [if_pos hv, ← hv]
        by_cases ha : id = attacker
        · rw [if_pos ha]
          simp [ha]
        · rw [if_neg ha]
          simp [ha]
      · rw [if_neg hv]
        by_cases ha : id = attacker
        · rw [if_pos ha]
          simp [ha]
        · rw [if_neg ha]
          simp [ha]

theorem creditKill_books (a : StatsAccumulator) (victim attacker : ℕ) (victimSide attackerSide : ℤ)
    (headshot : Bool) (weapon : String) (time : ℚ) :
    (a.RoundOk →
      (a.creditKill victim attacker victimSide attackerSide headshot weapon time).RoundOk) ∧
      (∀ id, (a.creditKill victim attacker victimSide attackerSide headshot weapon time).books id =
        { a.books id with
          kills := (a.books id).kills + if id = attacker then 1 else 0
          headshotKills :=
            (a.books id).headshotKills + if headshot = true ∧ id = attacker then 1 else 0
          entryKills := (a.books id).entryKills +
            if a.round.entryDone = false ∧ IsSide attackerSide ∧ id = attacker then 1 else 0 }) ∧
      (a.creditKill victim attacker victimSide attackerSide headshot weapon time).round.entryDone =
        true ∧
      ∀ id,
        ((a.creditKill victim attacker victimSide attackerSide headshot weapon time).record
            id).entryKill =
          ((a.record id).entryKill || (!a.round.entryDone && decide (id = attacker))) := by
  unfold creditKill
  set f : PlayerStats → PlayerStats := fun s =>
    { s with
      kills := s.kills + 1
      headshotKills := if headshot then s.headshotKills + 1 else s.headshotKills
      knifeKills := if isKnifeWeapon weapon then s.knifeKills + 1 else s.knifeKills } with hf
  set g : PlayerRound → PlayerRound := fun r =>
    { r with
      kills := r.kills + 1
      kast := true
      headshotKills := if headshot then r.headshotKills + 1 else r.headshotKills }
  have hrecord : (a.modP attacker f).SameBooks ((a.modP attacker f).modR attacker g) := by
    refine sameBooks_modR ?_ ?_ ?_
    · intro r hr
      have hkills := hr.kills
      have hheads := hr.headshotKills
      refine ⟨?_, hr.2, hr.3, ?_, hr.5, hr.6, hr.7, hr.8⟩
      · change 0 ≤ r.kills + 1
        omega
      · change 0 ≤ if headshot then r.headshotKills + 1 else r.headshotKills
        split_ifs <;> omega
    · exact fun _ => rfl
    · exact fun _ => ⟨rfl, rfl⟩
  have hkill : ∀ id, ((a.modP attacker f).modR attacker g).books id =
      { a.books id with
        kills := (a.books id).kills + if id = attacker then 1 else 0
        headshotKills :=
          (a.books id).headshotKills + if headshot = true ∧ id = attacker then 1 else 0 } := by
    intro id
    rw [hrecord.books, books_modP]
    by_cases hid : id = attacker
    · rw [if_pos hid, hid]
      cases headshot <;> simp [hf, books, PlayerStats.booked]
    · simp [hid]
  set b := (a.modP attacker f).modR attacker g
  obtain ⟨hok, hbooks, hdone, hentry⟩ := creditEntry_books b victim attacker victimSide attackerSide
  set e := b.creditEntry victim attacker victimSide attackerSide
  have hloop :=
    foldl_tradeStep_sameBooks e victim attacker attackerSide time e.round.deathBy.entries
  have hall : e.SameBooks
      (if (e.round.deathBy.entries.foldl
          (tradeStep victim attacker attackerSide time) (e, false)).2 then
        (e.round.deathBy.entries.foldl
            (tradeStep victim attacker attackerSide time) (e, false)).1.modP attacker
          fun s => { s with tradeKills := s.tradeKills + 1 }
      else
        (e.round.deathBy.entries.foldl
          (tradeStep victim attacker attackerSide time) (e, false)).1) := by
    split_ifs
    · exact hloop.trans (sameBooks_modP (f := fun s => { s with tradeKills := s.tradeKills + 1 })
        fun _ => rfl)
    · exact hloop
  have hbdone : b.round.entryDone = a.round.entryDone := rfl
  have hbentry : ∀ id, (b.record id).entryKill = (a.record id).entryKill := hrecord.entryKill
  refine ⟨fun h => hall.roundOk (hok (hrecord.roundOk (h.modP _ _))), ?_,
    hall.entryDone.trans hdone, ?_⟩
  · intro id
    refine (hall.books id).trans ?_
    rw [hbooks, hkill, hbdone]
  · intro id
    refine (hall.entryKill id).trans ?_
    rw [hentry, hbentry, hbdone]

/-- What is booked for a player after a death. -/
def booksAfterDeath (a : StatsAccumulator) (victim attacker : ℕ) (headshot : Bool)
    (id : ℕ) : Booked :=
  { a.books id with
    deaths := (a.books id).deaths + if id = victim then 1 else 0
    suicides := (a.books id).suicides + if Suicide victim attacker ∧ id = victim then 1 else 0
    teamKills :=
      (a.books id).teamKills + if a.TeamKill victim attacker ∧ id = attacker then 1 else 0
    kills := (a.books id).kills + if a.Kill victim attacker ∧ id = attacker then 1 else 0
    headshotKills := (a.books id).headshotKills +
      if a.Kill victim attacker ∧ headshot = true ∧ id = attacker then 1 else 0
    entryKills := (a.books id).entryKills +
      if a.Kill victim attacker ∧ a.round.entryDone = false ∧ IsSide (a.sideOf attacker) ∧
      id = attacker then 1
      else 0 }

structure Dies (a b : StatsAccumulator) (victim attacker : ℕ) (headshot : Bool) : Prop where
  roundOk : a.RoundOk → b.RoundOk
  books : ∀ id, b.books id = a.booksAfterDeath victim attacker headshot id
  entryDone : b.round.entryDone = (a.round.entryDone || decide (a.Kill victim attacker))
  entryKill : ∀ id, (b.record id).entryKill =
    ((a.record id).entryKill || (decide (a.Kill victim attacker) && !a.round.entryDone &&
      decide (id = attacker)))

theorem onPlayerDeath_dies {victim : ℕ} (hlive : a.live = true) (hvictim : victim ≠ 0)
    (attacker assister : ℕ) (assistedFlash headshot : Bool) (weapon : String) (time : ℚ) :
    a.Dies (a.onPlayerDeath victim attacker assister assistedFlash headshot weapon time) victim
      attacker headshot := by
  obtain ⟨hok, hbooks, hdone, hentry⟩ := noteDeath_books a victim (a.sideOf victim)
  have hside := sideOf_noteDeath a victim attacker
  -- what follows the three cases books nothing
  have htail : ∀ c : StatsAccumulator, c.SameBooks ((creditAssist
      (if attacker = 0 ∨ attacker = victim then c
        else { c with round :=
          { c.round with deathBy := c.round.deathBy.insert victim (attacker, time) } })
      victim attacker assister (a.sideOf victim) assistedFlash).noteClutch (a.sideOf victim)) := by
    intro c
    refine SameBooks.trans ?_
      ((creditAssist_sameBooks _ victim attacker assister (a.sideOf victim) assistedFlash).trans
      (noteClutch_sameBooks _ _))
    split_ifs
    · exact .refl c
    · exact sameBooks_round c c.round.side c.round.dead c.round.health
        (c.round.deathBy.insert victim (attacker, time)) c.round.clutch
  unfold onPlayerDeath
  rw [if_neg (by simp [hlive, hvictim])]
  dsimp only
  rw [hside]
  set b := a.noteDeath victim (a.sideOf victim)
  by_cases hs : attacker = 0 ∨ attacker = victim
  · have hkill : ¬a.Kill victim attacker := fun h => h.1 hs
    have hkill_done : ∀ d, (d || decide (a.Kill victim attacker)) = d := by simp [hkill]
    have hkill_entry : ∀ id d,
        (d || (decide (a.Kill victim attacker) && !a.round.entryDone && decide (id = attacker))) =
          d := by simp [hkill]
    have hteam : ¬a.TeamKill victim attacker := fun h => h.1 hs
    have hsuicide : Suicide victim attacker := hs
    have ht := htail (b.modP victim fun s => { s with suicides := s.suicides + 1 })
    simp only [if_pos hs] at ht ⊢
    refine ⟨fun h => ht.roundOk ((hok h).modP _ _), ?_, ?_, ?_⟩
    · intro id
      rw [ht.books, books_modP_of (g := fun s => { s with suicides := s.suicides + 1 }) fun _ =>
        rfl, hbooks, hbooks]
      by_cases hid : id = victim
      · simp [booksAfterDeath, hkill, hteam, hsuicide, hid]
      · simp [booksAfterDeath, hkill, hteam, hid]
    · exact (ht.entryDone.trans hdone).trans (hkill_done _).symm
    · intro id
      exact ((ht.entryKill id).trans (hentry id)).trans (hkill_entry id _).symm
  have hsuicide : ¬Suicide victim attacker := hs
  simp only [hs, if_false, not_false_eq_true, true_and] at htail ⊢
  by_cases hsame : a.sideOf attacker ≠ 0 ∧ a.sideOf attacker = a.sideOf victim
  · have hteam : a.TeamKill victim attacker := ⟨hs, hsame⟩
    have hkill : ¬a.Kill victim attacker := fun h => h.2 hsame
    have ht := htail (b.modP attacker fun s => { s with teamKills := s.teamKills + 1 })
    have hkill_done : ∀ d, (d || decide (a.Kill victim attacker)) = d := by simp [hkill]
    have hkill_entry : ∀ id d,
        (d || (decide (a.Kill victim attacker) && !a.round.entryDone && decide (id = attacker))) =
          d := by simp [hkill]
    simp only [if_pos hsame]
    refine ⟨fun h => ht.roundOk ((hok h).modP _ _), ?_, ?_, ?_⟩
    · intro id
      rw [ht.books, books_modP_of (g := fun s => { s with teamKills := s.teamKills + 1 }) fun _ =>
        rfl, hbooks, hbooks]
      by_cases hid : id = attacker
      · simp [booksAfterDeath, hkill, hteam, hsuicide, hid]
      · simp [booksAfterDeath, hkill, hsuicide, hid]
    · exact (ht.entryDone.trans hdone).trans (hkill_done _).symm
    · intro id
      exact ((ht.entryKill id).trans (hentry id)).trans (hkill_entry id _).symm
  · have hteam : ¬a.TeamKill victim attacker := fun h => hsame h.2
    have hkill : a.Kill victim attacker := ⟨hs, hsame⟩
    obtain ⟨hok', hbooks', hdone', hentry'⟩ :=
      creditKill_books b victim attacker (a.sideOf victim) (a.sideOf attacker)
      headshot weapon time
    have ht :=
      htail (b.creditKill victim attacker (a.sideOf victim)
        (a.sideOf attacker) headshot weapon time)
    simp only [if_neg hsame]
    refine ⟨fun h => ht.roundOk (hok' (hok h)), ?_, ?_, ?_⟩
    · intro id
      rw [ht.books, hbooks', hbooks, hdone]
      by_cases hid : id = attacker
      · simp [booksAfterDeath, hkill, hteam, hsuicide, hid]
      · simp [booksAfterDeath, hsuicide, hid]
    · rw [ht.entryDone, hdone']
      simp [hkill]
    · intro id
      rw [ht.entryKill, hentry', hentry, hdone]
      simp [hkill]

end Death

/-! ## The end of a round -/

section RoundEnd

variable {a : StatsAccumulator} (winnerSide : ℤ) (id : ℕ)

/-- The player is the last one of the winning side, alone against some. -/
def ClutchWon (a : StatsAccumulator) (winnerSide : ℤ) (id : ℕ) : Prop :=
  0 < (a.record id).clutchVs ∧ (a.round.clutch.lookup winnerSide).map Prod.fst = some id

instance (a : StatsAccumulator) (winnerSide : ℤ) (id : ℕ) : Decidable (a.ClutchWon winnerSide id) :=
  inferInstanceAs (Decidable (_ ∧ _))

/-- What is booked for a player at the end of a round. -/
def booksAfterRound (a : StatsAccumulator) (winnerSide : ℤ) (id : ℕ) : Booked :=
  { a.books id with
    roundsPlayed := (a.books id).roundsPlayed + if id ∈ a.round.side then 1 else 0
    kastRounds := (a.books id).kastRounds +
      if id ∈ a.round.side ∧ ((a.record id).kast = true ∨ id ∉ a.round.dead) then 1 else 0
    multiKills :=
      if 0 < (a.record id).kills then
        updateAt (a.books id).multiKills (min (a.record id).kills 5 - 1) (· + 1)
      else (a.books id).multiKills
    clutchesWon :=
      if a.ClutchWon winnerSide id then
        updateAt (a.books id).clutchesWon ((a.record id).clutchVs - 1) (· + 1)
      else (a.books id).clutchesWon }

/-- The record of a player as the summary of the round has it. -/
def closedOf (a : StatsAccumulator) (winnerSide : ℤ) (id : ℕ) : PlayerRound :=
  a.joinedAll.closedRecord winnerSide ⟨id, a.joinedAll.record id⟩

theorem clutch_joinedAll (a : StatsAccumulator) : a.joinedAll.round.clutch = a.round.clutch :=
  foldl_fixed closeParticipant (fun b => b.round.clutch) (fun _ _ => rfl) _ a

theorem joinedAll_spec (a : StatsAccumulator) (id : ℕ) :
    (a.joinedAll.players.read id).s.booked =
        { a.books id with
          roundsPlayed := (a.books id).roundsPlayed + if id ∈ a.round.side then 1 else 0
          kastRounds := (a.books id).kastRounds +
            if id ∈ a.round.side ∧ ((a.record id).kast = true ∨ id ∉ a.round.dead) then 1 else 0 } ∧
      (a.joinedAll.record id).kills = (a.record id).kills ∧
      (a.joinedAll.record id).clutchVs = (a.record id).clutchVs ∧
      (a.joinedAll.record id).clutchWon = (a.record id).clutchWon ∧
      (a.joinedAll.record id).entryKill = (a.record id).entryKill ∧
      (id ∈ a.round.side → (a.joinedAll.record id).id = id) ∧
      (id ∉ a.round.side → a.joinedAll.record id = a.record id) := by
  by_cases hid : id ∈ a.round.side
  · obtain ⟨side, hside⟩ := Option.isSome_iff_exists.mp (AList.lookup_isSome.mpr hid)
    have hpart := participant_joinedAll_of_mem (AList.mem_lookup_iff.mp hside)
    have hplayer : a.joinedAll.players.read id = (joined id side (a.participant id)).1 :=
      congrArg Prod.fst hpart
    have hrecord : a.joinedAll.record id = (joined id side (a.participant id)).2.1 :=
      congrArg (fun v => v.2.1) hpart
    rw [hplayer, hrecord]
    refine ⟨?_, rfl, rfl, rfl, rfl, fun _ => rfl, fun h => absurd hid h⟩
    by_cases hkast : (a.record id).kast = true ∨ id ∉ a.round.dead
    · simp [joined, participant, books, PlayerStats.booked, hid, hkast]
    · simp [joined, participant, books, PlayerStats.booked, hid, hkast]
  · have hpart := participant_joinedAll_of_notMem hid
    have hplayer : a.joinedAll.players.read id = a.players.read id := congrArg Prod.fst hpart
    have hrecord : a.joinedAll.record id = a.record id := congrArg (fun v => v.2.1) hpart
    rw [hplayer, hrecord]
    refine ⟨?_, rfl, rfl, rfl, rfl, fun h => absurd h hid, fun _ => rfl⟩
    simp [books, hid]

theorem stamped_joinedAll (h : a.RoundOk) :
    ∀ kv ∈ a.joinedAll.round.pr.entries, kv.2.id = kv.1 := by
  intro kv hkv
  have hmem := Table.mem_of_mem_entries hkv
  have hread : kv.2 = a.joinedAll.record kv.1 := (Table.read_of_mem_entries hkv).symm
  obtain ⟨-, -, -, -, -, hin, hout⟩ := a.joinedAll_spec kv.1
  rw [hread]
  by_cases hside : kv.1 ∈ a.round.side
  · exact hin hside
  · rw [hout hside]
    exact h.stamped kv.1 ((mem_joinedAll.mp hmem).resolve_left hside)

/-- A player who is on no side and has no record has a blank one. -/
theorem record_of_notMem {id : ℕ} (h : id ∉ a.joinedAll.round.pr) : a.record id = default := by
  rw [mem_joinedAll, not_or] at h
  exact Table.read_of_notMem h.2

theorem closeRound_books (a : StatsAccumulator) (winnerSide : ℤ) (id : ℕ) :
    (a.closeRound winnerSide).1.books id = a.booksAfterRound winnerSide id := by
  obtain ⟨hbooked, hkills, hvs, -⟩ := a.joinedAll_spec id
  by_cases hmem : id ∈ a.joinedAll.round.pr
  · unfold books
    rw [read_closeRound_of_mem winnerSide hmem, clutch_joinedAll]
    have hclosed : (closed winnerSide id (a.joinedAll.record id)
        (a.joinedAll.players.read id, a.round.clutch)).1.s.booked =
        { (a.joinedAll.players.read id).s.booked with
          multiKills :=
            if 0 < (a.joinedAll.record id).kills then
              updateAt (a.joinedAll.players.read id).s.multiKills
              (min (a.joinedAll.record id).kills 5 - 1) (· + 1)
            else (a.joinedAll.players.read id).s.multiKills
          clutchesWon :=
            if 0 < (a.joinedAll.record id).clutchVs ∧
              (a.round.clutch.lookup winnerSide).map Prod.fst = some id then
              updateAt (a.joinedAll.players.read id).s.clutchesWon
              ((a.joinedAll.record id).clutchVs - 1) (· + 1)
            else (a.joinedAll.players.read id).s.clutchesWon } := rfl
    have hmulti : (a.joinedAll.players.read id).s.multiKills = (a.books id).multiKills :=
      congrArg Booked.multiKills hbooked
    have hclutches : (a.joinedAll.players.read id).s.clutchesWon = (a.books id).clutchesWon :=
      congrArg Booked.clutchesWon hbooked
    rw [hclosed, hbooked, hkills, hvs, hmulti, hclutches]
    rfl
  · unfold books
    rw [read_closeRound_of_notMem winnerSide hmem, hbooked]
    have hrecord := record_of_notMem hmem
    have hkill : ¬0 < (a.record id).kills := by
      rw [hrecord]
      decide
    have hclutch : ¬a.ClutchWon winnerSide id := by
      rintro ⟨hvs, -⟩
      rw [hrecord] at hvs
      exact absurd hvs (by decide)
    unfold booksAfterRound
    rw [if_neg hkill, if_neg hclutch]

theorem exists_closeRound_iff (h : a.RoundOk) (winnerSide : ℤ) (id : ℕ) (q : PlayerRound → Prop) :
    (∃ pr ∈ (a.closeRound winnerSide).2, pr.id = id ∧ q pr) ↔
      id ∈ a.joinedAll.round.pr ∧ q (a.closedOf winnerSide id) := by
  have hstamped := stamped_joinedAll h
  rw [closeRound_snd]
  simp only [List.mem_map]
  constructor
  · rintro ⟨pr, ⟨kv, hkv, rfl⟩, hpr, hq⟩
    have hid : kv.1 = id := (hstamped kv hkv).symm.trans hpr
    have hkey : kv = ⟨id, a.joinedAll.record id⟩ := by
      obtain ⟨k, r⟩ := kv
      obtain rfl : k = id := hid
      have hread : a.joinedAll.record k = r := Table.read_of_mem_entries hkv
      rw [hread]
    rw [hkey] at hq
    exact ⟨hid ▸ Table.mem_of_mem_entries hkv, hq⟩
  · rintro ⟨hmem, hq⟩
    refine ⟨a.closedOf winnerSide id, ⟨_, Table.mem_entries_read hmem, rfl⟩, ?_, hq⟩
    exact hstamped _ (Table.mem_entries_read hmem)

theorem closedOf_spec (h : a.RoundOk) (winnerSide : ℤ) (id : ℕ) :
    (a.closedOf winnerSide id).kills = (a.record id).kills ∧
      ((a.closedOf winnerSide id).clutchWon = true ↔ a.ClutchWon winnerSide id) ∧
      (a.closedOf winnerSide id).entryKill = (a.record id).entryKill := by
  obtain ⟨-, hkills, hvs, hwon, hentry, -⟩ := a.joinedAll_spec id
  refine ⟨hkills, ?_, hentry⟩
  unfold closedOf closedRecord ClutchWon
  simp only [hwon, (h.opened id).clutchWon, Bool.false_or, decide_eq_true_eq, hvs, clutch_joinedAll]

theorem onRoundEnd_books (hlive : a.live = true) (winnerSide reason : ℤ) (id : ℕ) :
    (a.onRoundEnd winnerSide reason).books id = a.booksAfterRound winnerSide id := by
  rw [onRoundEnd_of_live hlive]
  exact (a.creditRound winnerSide).closeRound_books winnerSide id

theorem RoundOk.creditRound (h : a.RoundOk) (winnerSide : ℤ) : (a.creditRound winnerSide).RoundOk :=
  ⟨h.opened, h.stamped, h.entry⟩

theorem exists_summary_iff (h : a.RoundOk) (winnerSide reason : ℤ) (id : ℕ)
    (q : PlayerRound → Prop) : (∃ pr ∈ (a.summary winnerSide reason).players, pr.id = id ∧ q pr) ↔
      id ∈ (a.creditRound winnerSide).joinedAll.round.pr ∧
      q ((a.creditRound winnerSide).closedOf winnerSide id) := by
  have hperm :
      (a.summary winnerSide reason).players.Perm
        ((a.creditRound winnerSide).closeRound winnerSide).2 :=
    List.perm_insertionSort _ _
  rw [← exists_closeRound_iff (h.creditRound winnerSide)]
  simp only [hperm.mem_iff]

/-- The summary has a kill of a player exactly when his open record has. -/
theorem exists_kill_iff (h : a.RoundOk) (winnerSide reason : ℤ) (id : ℕ) :
    (∃ pr ∈ (a.summary winnerSide reason).players, pr.id = id ∧ 0 < pr.kills) ↔
      0 < (a.record id).kills := by
  obtain ⟨hkills, -⟩ := closedOf_spec (h.creditRound winnerSide) winnerSide id
  rw [exists_summary_iff h, hkills]
  refine and_iff_right_of_imp ?_
  intro hpos
  by_contra hmem
  have hrecord : (a.creditRound winnerSide).record id = default := record_of_notMem hmem
  have hzero : ((a.creditRound winnerSide).record id).kills = 0 :=
    congrArg PlayerRound.kills hrecord
  omega

theorem exists_clutch_iff (h : a.RoundOk) (winnerSide reason : ℤ) (id : ℕ) :
    (∃ pr ∈ (a.summary winnerSide reason).players, pr.id = id ∧ pr.clutchWon = true) ↔
      a.ClutchWon winnerSide id := by
  obtain ⟨-, hwon, -⟩ := closedOf_spec (h.creditRound winnerSide) winnerSide id
  rw [exists_summary_iff h, hwon]
  refine and_iff_right_of_imp ?_
  intro hclutch
  by_contra hmem
  have hrecord : (a.creditRound winnerSide).record id = default := record_of_notMem hmem
  have hvs : (a.record id).clutchVs = 0 := congrArg PlayerRound.clutchVs hrecord
  have hpos : 0 < (a.record id).clutchVs := hclutch.1
  omega

theorem exists_entry_iff (h : a.RoundOk) (winnerSide reason : ℤ) (id : ℕ) :
    (∃ pr ∈ (a.summary winnerSide reason).players, pr.id = id ∧ pr.entryKill = true) ↔
      (a.record id).entryKill = true := by
  obtain ⟨-, -, hentry⟩ := closedOf_spec (h.creditRound winnerSide) winnerSide id
  rw [exists_summary_iff h, hentry]
  refine and_iff_right_of_imp ?_
  intro htrue
  by_contra hmem
  have hrecord : (a.creditRound winnerSide).record id = default := record_of_notMem hmem
  have hfalse : (a.record id).entryKill = false := congrArg PlayerRound.entryKill hrecord
  have htrue' : (a.record id).entryKill = true := htrue
  rw [hfalse] at htrue'
  cases htrue'

end RoundEnd

end StatsAccumulator

end ReadyUp.Stats
