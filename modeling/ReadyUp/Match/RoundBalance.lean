import ReadyUp.Match.PlayerLedger

/-!
# The balance of a round in progress

Every call that `RewindSafe` lets through leaves the slack of every total alone: what it
adds to a total it also writes to the open record that a later rewind takes back.
-/
namespace ReadyUp.Stats

open ReadyUp.Support

namespace StatsAccumulator

/-- The record of a player in the open round, blank when there is none. -/
def record (a : StatsAccumulator) (id : ℕ) : PlayerRound := a.round.pr.read id

/-- A total without the part that the open round has counted. -/
def slack (a : StatsAccumulator) (id : ℕ) (c : Counter) : ℤ :=
  (a.players.read id).s.count c - (a.record id).pending (a.sideOf id) c

/-- The kill that `creditEntry` would count as the first of the round. -/
def IsEntryKill (a : StatsAccumulator) (victim attacker : ℕ) : Prop :=
  attacker ≠ 0 ∧ attacker ≠ victim ∧ a.round.entryDone = false ∧
    ¬(a.sideOf attacker ≠ 0 ∧ a.sideOf attacker = a.sideOf victim)

instance (a : StatsAccumulator) (victim attacker : ℕ) : Decidable (a.IsEntryKill victim attacker) :=
  inferInstanceAs (Decidable (_ ∧ _))

/-- The calls whose contribution to the totals a later rewind can take back. -/
def RewindSafe (a : StatsAccumulator) : StatsOp → Prop
  | .onRoundStart => ∀ kv ∈ a.round.pr.entries, kv.2.Blank
  | .observePlayer id _ side _ _ =>
    IsSide side → (a.record id).entryKill = true ∨ (a.record id).entryDeath = true →
      side = a.sideOf id
  | .onPlayerDeath victim attacker _ _ _ _ _ =>
    (a.record victim).died = false ∧
      (a.IsEntryKill victim attacker → IsSide (a.sideOf attacker) ∧ IsSide (a.sideOf victim))
  | .onRoundMvp id => (a.record id).mvp = false
  | .onRoundEnd _ _ => ∀ kv ∈ a.round.pr.entries, kv.1 ∈ a.round.side
  | _ => True

instance (a : StatsAccumulator) : ∀ op, Decidable (a.RewindSafe op)
  | .onRoundStart => inferInstanceAs (Decidable (∀ kv ∈ a.round.pr.entries, kv.2.Blank))
  | .observePlayer id _ side _ _ => inferInstanceAs (Decidable (IsSide side →
      (a.record id).entryKill = true ∨ (a.record id).entryDeath = true → side = a.sideOf id))
  | .onPlayerDeath victim attacker _ _ _ _ _ =>
    inferInstanceAs (Decidable ((a.record victim).died = false ∧
      (a.IsEntryKill victim attacker → IsSide (a.sideOf attacker) ∧ IsSide (a.sideOf victim))))
  | .onRoundMvp id => inferInstanceAs (Decidable ((a.record id).mvp = false))
  | .onRoundEnd _ _ =>
    inferInstanceAs (Decidable (∀ kv ∈ a.round.pr.entries, kv.1 ∈ a.round.side))
  | .onPlayerHurt .. | .onPlayerBlind .. | .onBombPlanted .. | .onBombDefused ..
  | .setScore .. | .setMoneyStart .. | .setLoadout .. => inferInstanceAs (Decidable True)

/-- What holds of the round in progress whatever was called. -/
structure RoundOk (a : StatsAccumulator) : Prop where
  opened : ∀ id, (a.record id).Open
  stamped : ∀ id, id ∈ a.round.pr → (a.record id).id = id
  entry : a.round.entryDone = false →
    ∀ id, (a.record id).entryKill = false ∧ (a.record id).entryDeath = false

/-- Every slack is what the closed rounds carry. -/
structure Balanced (a : StatsAccumulator) : Prop where
  roundOk : a.RoundOk
  carries : Carries a.rounds
  slack : ∀ id c, a.slack id c = carriedBy a.rounds id c

/-! ## Views of the two writes -/

@[simp] theorem read_modP (a : StatsAccumulator) (k j : ℕ) (f : PlayerStats → PlayerStats) :
    (a.modP k f).players.read j =
      if j = k then { a.players.read k with s := f (a.players.read k).s } else a.players.read j :=
  Table.read_modify ..

@[simp] theorem record_modP (a : StatsAccumulator) (k j : ℕ) (f : PlayerStats → PlayerStats) :
    (a.modP k f).record j = a.record j := rfl

@[simp] theorem record_modR (a : StatsAccumulator) (k j : ℕ) (f : PlayerRound → PlayerRound) :
    (a.modR k f).record j = if j = k then f { a.record k with id := k } else a.record j :=
  Table.read_modify ..

@[simp] theorem read_modR (a : StatsAccumulator) (k j : ℕ) (f : PlayerRound → PlayerRound) :
    (a.modR k f).players.read j = a.players.read j := rfl

@[simp] theorem sideOf_modR (a : StatsAccumulator) (k j : ℕ) (f : PlayerRound → PlayerRound) :
    (a.modR k f).sideOf j = a.sideOf j := rfl

@[simp] theorem sideOf_modP (a : StatsAccumulator) (k j : ℕ) (f : PlayerStats → PlayerStats) :
    (a.modP k f).sideOf j = a.sideOf j := by
  unfold sideOf
  simp only [read_modP]
  by_cases h : j = k <;> simp [modP, h]

/-- A write to a player's totals and to his record that moves both by the same amount. -/
theorem slack_credit {a : StatsAccumulator} {k : ℕ} {f : PlayerStats → PlayerStats}
    {g : PlayerRound → PlayerRound}
    (h : ∀ s r c, r = { a.record k with id := k } → s = (a.players.read k).s →
      (f s).count c - (g r).pending (a.sideOf k) c = s.count c - r.pending (a.sideOf k) c)
    (id : ℕ) (c : Counter) : ((a.modP k f).modR k g).slack id c = a.slack id c := by
  unfold slack
  by_cases hid : id = k
  · subst hid
    have hr : (a.record id).pending (a.sideOf id) c =
        ({ a.record id with id := id } : PlayerRound).pending (a.sideOf id) c := by
      cases c <;> rfl
    simp only [read_modR, read_modP, record_modR, record_modP, sideOf_modR, sideOf_modP, if_true]
    rw [hr]
    exact h _ _ c rfl rfl
  · simp [hid]

theorem slack_modP {a : StatsAccumulator} {k : ℕ} {f : PlayerStats → PlayerStats}
    (h : ∀ s c, (f s).count c = s.count c) (id : ℕ) (c : Counter) :
    (a.modP k f).slack id c = a.slack id c := by
  unfold slack
  by_cases hid : id = k <;> simp [hid, h]

theorem slack_modR {a : StatsAccumulator} {k : ℕ} {g : PlayerRound → PlayerRound}
    (h : ∀ (r : PlayerRound) side c, (g { r with id := k }).pending side c = r.pending side c)
    (id : ℕ) (c : Counter) : (a.modR k g).slack id c = a.slack id c := by
  unfold slack
  by_cases hid : id = k <;> simp [hid, h]

theorem RoundOk.modP {a : StatsAccumulator} (h : a.RoundOk) (k : ℕ)
    (f : PlayerStats → PlayerStats) : (a.modP k f).RoundOk := ⟨h.opened, h.stamped, h.entry⟩

theorem RoundOk.modR {a : StatsAccumulator} (h : a.RoundOk) {k : ℕ}
    {g : PlayerRound → PlayerRound} (hopen : ∀ r : PlayerRound, r.Open → (g r).Open)
    (hid : ∀ r, (g r).id = r.id)
    (hentry : ∀ r, (g r).entryKill = r.entryKill ∧ (g r).entryDeath = r.entryDeath) :
    (a.modR k g).RoundOk where
  opened id := by
    rw [record_modR]
    split_ifs with hk
    · obtain ⟨h1, h2, h3, h4, h5, h6, h7, h8⟩ := h.opened k
      exact hopen _ ⟨h1, h2, h3, h4, h5, h6, h7, h8⟩
    · exact h.opened id
  stamped id hmem := by
    rw [record_modR]
    split_ifs with hk
    · rw [hid, hk]
    · exact h.stamped id (((Table.mem_modify ..).mp hmem).resolve_left hk)
  entry hdone id := by
    rw [record_modR]
    split_ifs with hk
    · rw [(hentry _).1, (hentry _).2]
      exact h.entry hdone k
    · exact h.entry hdone id

/-! ## The calls of a round -/

theorem roundOk_empty {a : StatsAccumulator} (h : a.round = {}) : a.RoundOk := by
  have hrec : ∀ id, a.record id = default := fun id => by simp [record, h]
  refine ⟨?_, ?_, ?_⟩
  · intro id
    rw [hrec]
    constructor <;> decide
  · intro id hid
    simp [h] at hid
  · intro _ id
    rw [hrec]
    exact ⟨rfl, rfl⟩

theorem Balanced.onRoundStart {a : StatsAccumulator} (h : a.Balanced)
    (hsafe : a.RewindSafe .onRoundStart) : a.onRoundStart.Balanced where
  roundOk := roundOk_empty rfl
  carries := h.carries
  slack id c := by
    have hblank : (a.record id).pending (a.sideOf id) c = 0 := by
      by_cases hid : id ∈ a.round.pr
      · exact pending_of_blank (hsafe _ (Table.mem_entries_read hid)) _ _
      · rw [record, Table.read_of_notMem hid, pending_default]
    have hnew : a.onRoundStart.record id = default := Table.read_empty id
    have := h.slack id c
    unfold StatsAccumulator.slack at this ⊢
    rw [hnew, pending_default, ← hblank]
    exact this

/-- A call that leaves sides and slacks alone. -/
structure Keeps (a b : StatsAccumulator) : Prop where
  roundOk : b.RoundOk
  slack : ∀ id c, b.slack id c = a.slack id c
  sideOf : ∀ id, b.sideOf id = a.sideOf id

section Keeps

variable {a b c : StatsAccumulator}

theorem RoundOk.keeps (h : a.RoundOk) : a.Keeps a := ⟨h, fun _ _ => rfl, fun _ => rfl⟩

theorem Keeps.trans (hab : a.Keeps b) (hbc : b.Keeps c) : a.Keeps c :=
  ⟨hbc.roundOk, fun id k => (hbc.slack id k).trans (hab.slack id k),
    fun id => (hbc.sideOf id).trans (hab.sideOf id)⟩

theorem RoundOk.keeps_modP (h : a.RoundOk) {k : ℕ} {f : PlayerStats → PlayerStats}
    (hf : ∀ s c, (f s).count c = s.count c) : a.Keeps (a.modP k f) :=
  ⟨h.modP k f, slack_modP hf, fun j => sideOf_modP a k j f⟩

theorem RoundOk.keeps_modR (h : a.RoundOk) {k : ℕ} {g : PlayerRound → PlayerRound}
    (hopen : ∀ r : PlayerRound, r.Open → (g r).Open) (hid : ∀ r, (g r).id = r.id)
    (hentry : ∀ r, (g r).entryKill = r.entryKill ∧ (g r).entryDeath = r.entryDeath)
    (hpending : ∀ (r : PlayerRound) side c, (g { r with id := k }).pending side c =
      r.pending side c) : a.Keeps (a.modR k g) :=
  ⟨h.modR hopen hid hentry, slack_modR hpending, fun _ => rfl⟩

theorem RoundOk.keeps_credit (h : a.RoundOk) {k : ℕ} {f : PlayerStats → PlayerStats}
    {g : PlayerRound → PlayerRound} (hopen : ∀ r : PlayerRound, r.Open → (g r).Open)
    (hid : ∀ r, (g r).id = r.id)
    (hentry : ∀ r, (g r).entryKill = r.entryKill ∧ (g r).entryDeath = r.entryDeath)
    (hcredit : ∀ s r c, r = { a.record k with id := k } → s = (a.players.read k).s →
      (f s).count c - (g r).pending (a.sideOf k) c = s.count c - r.pending (a.sideOf k) c) :
    a.Keeps ((a.modP k f).modR k g) :=
  ⟨(h.modP k f).modR hopen hid hentry, slack_credit hcredit, fun j => sideOf_modP a k j f⟩

theorem RoundOk.keeps_round (h : a.RoundOk) (dead : Finset ℕ) (health : Table ℕ ℤ)
    (deathBy : Table ℕ (ℕ × ℚ)) (clutch : Table ℤ (ℕ × ℤ)) :
    a.Keeps { a with round := { a.round with
      dead := dead, health := health, deathBy := deathBy, clutch := clutch } } :=
  ⟨⟨h.opened, h.stamped, h.entry⟩, fun _ _ => rfl, fun _ => rfl⟩

/-- Joining the side that `sideOf` reports already changes no answer of `sideOf`. -/
theorem RoundOk.keeps_emplace (h : a.RoundOk) (k : ℕ) :
    a.Keeps { a with round := { a.round with
      side := if IsSide (a.sideOf k) ∧ k ∉ a.round.side then a.round.side.insert k (a.sideOf k)
        else a.round.side } } := by
  set b : StatsAccumulator := { a with round := { a.round with
      side := if IsSide (a.sideOf k) ∧ k ∉ a.round.side then a.round.side.insert k (a.sideOf k)
        else a.round.side } } with hb
  have hside : ∀ j, b.sideOf j = a.sideOf j := by
    intro j
    by_cases hk : IsSide (a.sideOf k) ∧ k ∉ a.round.side
    · simp only [hb, if_pos hk]
      by_cases hj : j = k
      · subst hj
        rw [sideOf, AList.lookup_insert]
      · simp only [sideOf, AList.lookup_insert_ne hj]
    · have heq : b = a := by rw [hb, if_neg hk]
      rw [heq]
  refine ⟨⟨h.opened, h.stamped, h.entry⟩, ?_, hside⟩
  intro id c
  unfold StatsAccumulator.slack
  rw [hside]
  rfl

end Keeps

/-- The death counts once in the totals and once in the record. -/
theorem noteDeath_keeps {a : StatsAccumulator} (h : a.RoundOk) {victim : ℕ}
    (hdied : (a.record victim).died = false) :
    a.Keeps (a.noteDeath victim (a.sideOf victim)) := by
  have hside := h.keeps_emplace victim
  set b : StatsAccumulator := { a with round := { a.round with
      side := if IsSide (a.sideOf victim) ∧ victim ∉ a.round.side then
          a.round.side.insert victim (a.sideOf victim)
        else a.round.side } } with hb
  have hdead := hside.roundOk.keeps_round (insert victim b.round.dead) b.round.health
    b.round.deathBy b.round.clutch
  set d : StatsAccumulator := { b with round := { b.round with
      dead := insert victim b.round.dead } }
  have heq : a.noteDeath victim (a.sideOf victim) =
      (d.modP victim fun s => { s with deaths := s.deaths + 1 }).modR victim
        fun r => { r with died := true } := rfl
  rw [heq]
  refine (hside.trans hdead).trans (hdead.roundOk.keeps_credit ?_ ?_ ?_ ?_)
  · exact fun r hr => ⟨hr.1, hr.2, hr.3, hr.4, hr.5, hr.6, hr.7, hr.8⟩
  · exact fun _ => rfl
  · exact fun _ => ⟨rfl, rfl⟩
  · rintro s r c rfl -
    have hd : (d.record victim).died = false := hdied
    cases c <;> simp [PlayerStats.count, PlayerRound.pending, PlayerRound.carried, hd]

/-- Both halves of the entry duel are counted on the sides that `sideOf` reports. -/
theorem creditEntry_keeps {a : StatsAccumulator} (h : a.RoundOk) {victim attacker : ℕ}
    (hne : attacker ≠ victim)
    (hsides : a.round.entryDone = false →
      IsSide (a.sideOf attacker) ∧ IsSide (a.sideOf victim)) :
    a.Keeps (a.creditEntry victim attacker (a.sideOf victim) (a.sideOf attacker)) := by
  unfold creditEntry
  by_cases hdone : a.round.entryDone = true
  · rw [if_pos hdone]
    exact h.keeps
  rw [Bool.not_eq_true] at hdone
  obtain ⟨ha, hv⟩ := hsides hdone
  obtain ⟨hak, had⟩ := h.entry hdone attacker
  obtain ⟨hvk, hvd⟩ := h.entry hdone victim
  simp only [hdone, Bool.false_eq_true, if_false]
  set b : StatsAccumulator := { a with round := { a.round with entryDone := true } } with hb
  have hsb : ∀ j, b.sideOf j = a.sideOf j := fun _ => rfl
  refine ⟨⟨fun id => ?_, fun id hid => ?_, fun hd => by simp [hb, StatsAccumulator.modP,
    StatsAccumulator.modR] at hd⟩, fun id c => ?_, fun id => ?_⟩
  · obtain ⟨h1, h2, h3, h4, h5, h6, h7, h8⟩ := h.opened id
    simp only [record_modP, record_modR]
    split_ifs <;> subst_vars <;> exact ⟨h1, h2, h3, h4, h5, h6, h7, h8⟩
  · have hmem : id = victim ∨ id = attacker ∨ id ∈ a.round.pr := by
      rcases (Table.mem_modify ..).mp hid with hid | hid
      · exact .inl hid
      · exact .inr ((Table.mem_modify ..).mp hid)
    simp only [record_modP, record_modR, if_neg hne.symm]
    rcases hmem with rfl | rfl | hmem
    · rw [if_pos rfl]
    · rw [if_neg hne, if_pos rfl]
    · have := h.stamped id hmem
      split_ifs with h1 h2 <;> first | exact h1.symm | exact h2.symm | exact this
  · have hrb : ∀ j, b.record j = a.record j := fun _ => rfl
    have hpb : ∀ j, b.players.read j = a.players.read j := fun _ => rfl
    unfold StatsAccumulator.slack
    simp only [sideOf_modP, sideOf_modR, record_modP, record_modR, read_modP, read_modR, hsb, hrb,
      hpb]
    by_cases hiv : id = victim
    · subst hiv
      have hia : id ≠ attacker := hne.symm
      rcases hv with hv | hv <;> cases c <;>
        simp [hia, hv, hvk, hvd, PlayerStats.count, PlayerRound.pending, PlayerRound.carried]
    · by_cases hia : id = attacker
      · subst hia
        rcases ha with ha | ha <;> cases c <;>
          simp [hiv, ha, hak, had, PlayerStats.count, PlayerRound.pending, PlayerRound.carried]
      · simp [hiv, hia]
  · simp only [sideOf_modP, sideOf_modR, hsb]

/-- Each trade the loop finds is counted for the mate it avenges, once a round. -/
theorem tradeStep_keeps {st : StatsAccumulator × Bool} (h : st.1.RoundOk) (victim attacker : ℕ)
    (attackerSide : ℤ) (time : ℚ) (kv : Sigma fun _ : ℕ => ℕ × ℚ) :
    st.1.Keeps (tradeStep victim attacker attackerSide time st kv).1 := by
  unfold tradeStep
  dsimp only
  split_ifs with h1 h2 h3 h4
  · exact h.keeps
  · exact h.keeps
  · exact h.keeps
  · apply h.keeps_modR (fun r hr => hr) (fun _ => rfl) fun _ => ⟨rfl, rfl⟩
    intro r side c
    cases c <;> rfl
  · have hswap : ∀ (a : StatsAccumulator) k f g,
        (a.modR k f).modP k g = (a.modP k g).modR k f := fun _ _ _ _ => rfl
    dsimp only
    rw [hswap]
    apply h.keeps_credit
    · exact fun r hr => ⟨hr.1, hr.2, hr.3, hr.4, hr.5, hr.6, hr.7, hr.8⟩
    · exact fun _ => rfl
    · exact fun _ => ⟨rfl, rfl⟩
    · rintro s r c rfl -
      have ht : (st.1.record kv.1).traded = false := by simpa [record] using h4
      cases c <;> simp [PlayerStats.count, PlayerRound.pending, PlayerRound.carried, ht]

theorem foldl_tradeStep_keeps {a : StatsAccumulator} (h : a.RoundOk) (victim attacker : ℕ)
    (attackerSide : ℤ) (time : ℚ) (l : List (Sigma fun _ : ℕ => ℕ × ℚ)) :
    a.Keeps (l.foldl (tradeStep victim attacker attackerSide time) (a, false)).1 := by
  refine List.foldlRecOn l _ (motive := fun st : StatsAccumulator × Bool => a.Keeps st.1) h.keeps ?_
  intro st hst kv _
  exact hst.trans (tradeStep_keeps hst.roundOk victim attacker attackerSide time kv)

theorem creditKill_keeps {a : StatsAccumulator} (h : a.RoundOk) {victim attacker : ℕ}
    (hne : attacker ≠ victim)
    (hsides : a.round.entryDone = false →
      IsSide (a.sideOf attacker) ∧ IsSide (a.sideOf victim))
    (headshot : Bool) (weapon : String) (time : ℚ) :
    a.Keeps (a.creditKill victim attacker (a.sideOf victim) (a.sideOf attacker) headshot weapon
      time) := by
  unfold creditKill
  set f : PlayerStats → PlayerStats := fun s =>
    { s with
      kills := s.kills + 1
      headshotKills := if headshot then s.headshotKills + 1 else s.headshotKills
      knifeKills := if isKnifeWeapon weapon then s.knifeKills + 1 else s.knifeKills }
  set g : PlayerRound → PlayerRound := fun r =>
    { r with
      kills := r.kills + 1
      kast := true
      headshotKills := if headshot then r.headshotKills + 1 else r.headshotKills }
  have hkill : a.Keeps ((a.modP attacker f).modR attacker g) := by
    apply h.keeps_credit
    · intro r hr
      have := hr.kills
      have := hr.headshotKills
      refine ⟨?_, hr.2, hr.3, ?_, hr.5, hr.6, hr.7, hr.8⟩
      · change 0 ≤ r.kills + 1
        omega
      · change 0 ≤ if headshot then r.headshotKills + 1 else r.headshotKills
        split_ifs <;> omega
    · exact fun _ => rfl
    · exact fun _ => ⟨rfl, rfl⟩
    · rintro s r c rfl -
      cases c <;>
        simp only [PlayerStats.count, PlayerRound.pending, PlayerRound.carried, f, g] <;>
        (try split_ifs) <;> omega
  set b := (a.modP attacker f).modR attacker g
  have hentry := creditEntry_keeps hkill.roundOk hne fun hd => by
    rw [hkill.sideOf, hkill.sideOf]
    exact hsides hd
  rw [hkill.sideOf, hkill.sideOf] at hentry
  set e := b.creditEntry victim attacker (a.sideOf victim) (a.sideOf attacker)
  have hloop := foldl_tradeStep_keeps hentry.roundOk victim attacker (a.sideOf attacker) time
    e.round.deathBy.entries
  have hall := (hkill.trans hentry).trans hloop
  dsimp only
  split_ifs
  · exact hall.trans (hall.roundOk.keeps_modP fun s c => by cases c <;> rfl)
  · exact hall

theorem creditAssist_keeps {a : StatsAccumulator} (h : a.RoundOk)
    (victim attacker assister : ℕ) (victimSide : ℤ) (assistedFlash : Bool) :
    a.Keeps (a.creditAssist victim attacker assister victimSide assistedFlash) := by
  unfold creditAssist
  dsimp only
  split
  · split
    swap
    · exact h.keeps
    apply h.keeps_credit
    · intro r hr
      have := hr.assists
      have := hr.flashAssists
      cases assistedFlash
      · exact ⟨hr.1, by change 0 ≤ r.assists + 1; omega, hr.3, hr.4, hr.5, hr.6, hr.7, hr.8⟩
      · exact ⟨hr.1, hr.2, by change 0 ≤ r.flashAssists + 1; omega, hr.4, hr.5, hr.6, hr.7, hr.8⟩
    · exact fun r => by cases assistedFlash <;> rfl
    · exact fun r => by cases assistedFlash <;> exact ⟨rfl, rfl⟩
    · rintro s r c rfl -
      cases assistedFlash <;> cases c <;>
        simp [PlayerStats.count, PlayerRound.pending, PlayerRound.carried]
  · exact h.keeps

theorem noteClutch_keeps {a : StatsAccumulator} (h : a.RoundOk) (victimSide : ℤ) :
    a.Keeps (a.noteClutch victimSide) := by
  unfold noteClutch
  dsimp only
  split
  · split
    · split
      · have hround := h.keeps_round a.round.dead a.round.health a.round.deathBy
        refine (hround _).trans ((hround _).roundOk.keeps_modR ?_ ?_ ?_ ?_)
        · intro r hr
          exact ⟨hr.1, hr.2, hr.3, hr.4, hr.5, hr.6, min_le_right _ _, hr.8⟩
        · exact fun _ => rfl
        · exact fun _ => ⟨rfl, rfl⟩
        · intro r side c
          cases c <;> rfl
      · exact h.keeps
    · exact h.keeps
  · exact h.keeps

theorem onPlayerDeath_keeps {a : StatsAccumulator} (h : a.RoundOk) {victim attacker : ℕ}
    (hdied : (a.record victim).died = false)
    (hentry : a.IsEntryKill victim attacker →
      IsSide (a.sideOf attacker) ∧ IsSide (a.sideOf victim))
    (assister : ℕ) (assistedFlash headshot : Bool) (weapon : String) (time : ℚ) :
    a.Keeps (a.onPlayerDeath victim attacker assister assistedFlash headshot weapon time) := by
  unfold onPlayerDeath
  split_ifs with hlive
  · exact h.keeps
  have hdeath := noteDeath_keeps h hdied
  dsimp only
  set b := a.noteDeath victim (a.sideOf victim) with hb
  rw [hdeath.sideOf attacker]
  by_cases hsuicide : attacker = 0 ∨ attacker = victim
  · simp only [if_pos hsuicide]
    have h1 := hdeath.trans (hdeath.roundOk.keeps_modP
      (k := victim) (f := fun s => { s with suicides := s.suicides + 1 })
      fun s c => by cases c <;> rfl)
    have h2 := h1.trans (creditAssist_keeps h1.roundOk victim attacker assister (a.sideOf victim)
      assistedFlash)
    exact h2.trans (noteClutch_keeps h2.roundOk _)
  simp only [hsuicide, not_false_eq_true, true_and]
  have hcredit : a.Keeps (if a.sideOf attacker ≠ 0 ∧ a.sideOf attacker = a.sideOf victim then
      b.modP attacker fun s => { s with teamKills := s.teamKills + 1 }
    else b.creditKill victim attacker (a.sideOf victim) (a.sideOf attacker) headshot weapon
      time) := by
    split_ifs with hteam
    · exact hdeath.trans (hdeath.roundOk.keeps_modP fun s c => by cases c <;> rfl)
    · push Not at hsuicide
      have hkill := creditKill_keeps hdeath.roundOk hsuicide.2 (fun hdone => by
        rw [hdeath.sideOf, hdeath.sideOf]
        exact hentry ⟨hsuicide.1, hsuicide.2, hdone, hteam⟩) headshot weapon time
      rw [hdeath.sideOf, hdeath.sideOf] at hkill
      exact hdeath.trans hkill
  set d := if a.sideOf attacker ≠ 0 ∧ a.sideOf attacker = a.sideOf victim then
      b.modP attacker fun s => { s with teamKills := s.teamKills + 1 }
    else b.creditKill victim attacker (a.sideOf victim) (a.sideOf attacker) headshot weapon time
  have h1 := hcredit.trans (hcredit.roundOk.keeps_round d.round.dead d.round.health
    (d.round.deathBy.insert victim (attacker, time)) d.round.clutch)
  have h2 := h1.trans (creditAssist_keeps h1.roundOk victim attacker assister (a.sideOf victim)
    assistedFlash)
  exact h2.trans (noteClutch_keeps h2.roundOk _)

theorem onPlayerHurt_keeps {a : StatsAccumulator} (h : a.RoundOk) (victim attacker : ℕ)
    (dmgHealth healthAfter : ℤ) (weapon : String) :
    a.Keeps (a.onPlayerHurt victim attacker dmgHealth healthAfter weapon) := by
  unfold onPlayerHurt
  split
  · exact h.keeps
  dsimp only
  set before := max 0 ((a.round.health.lookup victim).getD 100)
  have hactual : 0 ≤ (if dmgHealth > 0 then before - max 0 (min healthAfter before) else 0) := by
    have : 0 ≤ before := le_max_left _ _
    split_ifs <;> omega
  set actual := if dmgHealth > 0 then before - max 0 (min healthAfter before) else 0
  have hhealth := h.keeps_round a.round.dead
    (a.round.health.insert victim (max 0 (min healthAfter before))) a.round.deathBy a.round.clutch
  split
  · exact hhealth
  split
  · exact hhealth
  · refine hhealth.trans (hhealth.roundOk.keeps_credit ?_ ?_ ?_ ?_)
    · intro r hr
      have := hr.damage
      have := hr.utilityDamage
      refine ⟨hr.1, hr.2, hr.3, hr.4, ?_, ?_, hr.7, hr.8⟩
      · change 0 ≤ r.damage + actual
        omega
      · change 0 ≤ if isUtilityWeapon weapon then r.utilityDamage + actual else r.utilityDamage
        split_ifs <;> omega
    · exact fun _ => rfl
    · exact fun _ => ⟨rfl, rfl⟩
    · rintro s r c rfl -
      cases c <;> simp only [PlayerStats.count, PlayerRound.pending, PlayerRound.carried] <;>
        (try split_ifs) <;> omega

theorem onRoundMvp_keeps {a : StatsAccumulator} (h : a.RoundOk) {id : ℕ}
    (hmvp : (a.record id).mvp = false) : a.Keeps (a.onRoundMvp id) := by
  unfold onRoundMvp
  split_ifs
  · exact h.keeps
  · apply h.keeps_credit
    · exact fun r hr => ⟨hr.1, hr.2, hr.3, hr.4, hr.5, hr.6, hr.7, hr.8⟩
    · exact fun _ => rfl
    · exact fun _ => ⟨rfl, rfl⟩
    · rintro s r c rfl -
      cases c <;> simp [PlayerStats.count, PlayerRound.pending, PlayerRound.carried, hmvp]

theorem pending_congr_side (r r' : PlayerRound) {side side' : ℤ}
    (hr : ∀ s c, r'.pending s c = r.pending s c)
    (h : r.entryKill = true ∨ r.entryDeath = true → side' = side) (c : Counter) :
    r'.pending side' c = r.pending side c := by
  rw [hr]
  by_cases hentry : r.entryKill = true ∨ r.entryDeath = true
  · rw [h hentry]
  · push Not at hentry
    simp only [ne_eq, Bool.not_eq_true] at hentry
    cases c <;> simp [PlayerRound.pending, PlayerRound.carried, hentry]

theorem Balanced.observePlayer {a : StatsAccumulator} (h : a.Balanced) (hlive : a.live = true)
    {id : ℕ} {side : ℤ} (name : Bytes) (teamSlot : ℤ) (bot : Bool)
    (hsafe : IsSide side → (a.record id).entryKill = true ∨ (a.record id).entryDeath = true →
      side = a.sideOf id) : (a.observePlayer id name side teamSlot bot).Balanced := by
  unfold StatsAccumulator.observePlayer
  split
  · exact h
  dsimp only
  set p := a.observed id name side teamSlot bot with hp
  have hread : ∀ j, Table.read (a.players.insert id p) j = if j = id then p else a.players.read j :=
    fun j => Table.read_insert ..
  have hstats : p.s = (a.players.read id).s := rfl
  split
  · next hside =>
    set b : StatsAccumulator := { a with
      players := a.players.insert id p
      round := { a.round with side := a.round.side.insert id side } } with hb
    have hbok : b.RoundOk := ⟨h.roundOk.opened, h.roundOk.stamped, h.roundOk.entry⟩
    refine ⟨hbok.modR ?_ ?_ ?_, h.carries, fun j c => ?_⟩
    · exact fun r hr => ⟨hr.1, hr.2, hr.3, hr.4, hr.5, hr.6, hr.7, hr.8⟩
    · exact fun _ => rfl
    · exact fun _ => ⟨rfl, rfl⟩
    refine Eq.trans ?_ (h.slack j c)
    unfold StatsAccumulator.slack
    rw [record_modR, read_modR, sideOf_modR]
    by_cases hj : j = id
    · subst hj
      have hnew : b.sideOf j = side := by
        simp only [StatsAccumulator.sideOf, hb, AList.lookup_insert]
      have hpend := pending_congr_side (a.record j)
        { a.record j with id := j, side := side, team := p.team }
        (fun s c => by cases c <;> rfl) (hsafe hside.2) c
      rw [hnew, if_pos rfl, show b.players.read j = p from by rw [hread, if_pos rfl], hstats]
      exact congrArg _ hpend
    · have hsame : b.sideOf j = a.sideOf j := by
        simp only [StatsAccumulator.sideOf, hb, AList.lookup_insert_ne hj, hread, if_neg hj]
      rw [if_neg hj, hsame, show b.players.read j = a.players.read j from by rw [hread, if_neg hj]]
      rfl
  · next hside =>
    have hno : ¬IsSide side := fun hc => hside ⟨hlive, hc⟩
    have hsame : ∀ j, sideOf { a with players := a.players.insert id p } j = a.sideOf j := by
      intro j
      simp only [StatsAccumulator.sideOf, hread]
      by_cases hj : j = id
      · subst hj
        simp [hp, observed, hno]
      · simp [hj]
    refine ⟨⟨h.roundOk.opened, h.roundOk.stamped, h.roundOk.entry⟩, h.carries, ?_⟩
    intro j c
    refine Eq.trans ?_ (h.slack j c)
    unfold StatsAccumulator.slack
    rw [hsame, hread]
    by_cases hj : j = id
    · subst hj
      rw [if_pos rfl, hstats]
      rfl
    · rw [if_neg hj]
      rfl

end StatsAccumulator

end ReadyUp.Stats
