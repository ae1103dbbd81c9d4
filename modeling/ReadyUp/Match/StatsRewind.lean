import ReadyUp.Match.RoundBalance

/-!
# A restore is a rewind

Closing a round moves the open records into the ledger and counts what only the end of a
round counts, so the balance of player totals and records holds along every run whose
calls are `RewindSafe`. At the start of a round nothing is pending: the totals are exactly
what the closed rounds carry, and rewinding to an earlier round gives back the snapshot
taken when that round started.
-/
namespace ReadyUp.Stats

open ReadyUp.Support

namespace StatsAccumulator

/-! ## Closing a round -/

/-- What the first loop of `OnRoundEnd` reads and writes for one player: his entry, his
record, and whether he is dead. -/
def participant (a : StatsAccumulator) (id : ℕ) : Player × PlayerRound × Bool :=
  (a.players.read id, a.record id, decide (id ∈ a.round.dead))

def joined (id : ℕ) (side : ℤ) (v : Player × PlayerRound × Bool) : Player × PlayerRound × Bool :=
  let r : PlayerRound := { v.2.1 with
    id := id
    side := side
    team := if v.2.1.team = 0 then v.1.team else v.2.1.team
    survived := !v.2.2
    kast := v.2.1.kast || !v.2.2 }
  let s : PlayerStats := { v.1.s with
    roundsPlayed := v.1.s.roundsPlayed + 1
    kastRounds := if r.kast then v.1.s.kastRounds + 1 else v.1.s.kastRounds }
  ({ v.1 with s := s }, r, v.2.2)

theorem participant_closeParticipant (a : StatsAccumulator) (kv : Sigma fun _ : ℕ => ℤ) (j : ℕ) :
    (closeParticipant a kv).participant j =
      if j = kv.1 then joined kv.1 kv.2 (a.participant kv.1) else a.participant j := by
  by_cases hj : j = kv.1
  · subst hj
    simp only [participant, closeParticipant, joined, record, modR, modP, Table.read_modify,
      if_true, decide_not]
    rfl
  · simp [participant, closeParticipant, record, modR, modP, hj]

def closed (winnerSide : ℤ) (id : ℕ) (r : PlayerRound) (v : Player × Table ℤ (ℕ × ℤ)) :
    Player × Table ℤ (ℕ × ℤ) :=
  let won := 0 < r.clutchVs ∧ (v.2.lookup winnerSide).map Prod.fst = some id
  let s : PlayerStats := { v.1.s with
    multiKills := if 0 < r.kills then updateAt v.1.s.multiKills (min r.kills 5 - 1) (· + 1)
      else v.1.s.multiKills
    clutchesWon := if won then updateAt v.1.s.clutchesWon (r.clutchVs - 1) (· + 1)
      else v.1.s.clutchesWon }
  ({ v.1 with s := s }, v.2)

def closing (st : StatsAccumulator × List PlayerRound) (id : ℕ) : Player × Table ℤ (ℕ × ℤ) :=
  (st.1.players.read id, st.1.round.clutch)

theorem closing_closeRecord (winnerSide : ℤ) (st : StatsAccumulator × List PlayerRound)
    (kv : Sigma fun _ : ℕ => PlayerRound) (j : ℕ) :
    closing (closeRecord winnerSide st kv) j =
      if j = kv.1 then closed winnerSide kv.1 kv.2 (closing st kv.1) else closing st j := by
  by_cases hj : j = kv.1
  · subst hj
    simp only [closing, closeRecord, closed, modP, Table.read_modify, if_true]
    rfl
  · simp [closing, closeRecord, modP, hj]

/-- The record that the second loop leaves in the summary. -/
def closedRecord (a : StatsAccumulator) (winnerSide : ℤ) (kv : Sigma fun _ : ℕ => PlayerRound) :
    PlayerRound :=
  { kv.2 with
    clutchWon := kv.2.clutchWon || decide (0 < kv.2.clutchVs ∧
      (a.round.clutch.lookup winnerSide).map Prod.fst = some kv.1)
    team := if kv.2.team = 0 then (a.players.read kv.1).team else kv.2.team }

theorem foldl_closeRecord_snd (winnerSide : ℤ) (l : List (Sigma fun _ : ℕ => PlayerRound))
    (st : StatsAccumulator × List PlayerRound) :
    (l.foldl (closeRecord winnerSide) st).2 = st.2 ++ l.map (st.1.closedRecord winnerSide) := by
  induction l generalizing st with
  | nil => simp
  | cons kv l ih =>
    have hteam : ∀ j, ((closeRecord winnerSide st kv).1.players.read j).team =
        (st.1.players.read j).team := by
      intro j
      by_cases hj : j = kv.1 <;> simp [closeRecord, modP, hj]
    have hclosed : (closeRecord winnerSide st kv).1.closedRecord winnerSide =
        st.1.closedRecord winnerSide := by
      funext kv'
      simp only [closedRecord, hteam]
      rfl
    have hhead : (closeRecord winnerSide st kv).2 =
        st.2 ++ [st.1.closedRecord winnerSide kv] := by
      have := hteam kv.1
      simp only [closeRecord] at this ⊢
      simp only [closedRecord, this]
    rw [List.foldl_cons, ih, hclosed, hhead]
    simp

/-- The accumulator between the two loops. -/
def joinedAll (a : StatsAccumulator) : StatsAccumulator :=
  a.round.side.entries.foldl closeParticipant a

theorem participant_joinedAll_of_mem {a : StatsAccumulator} {id : ℕ} {side : ℤ}
    (h : ⟨id, side⟩ ∈ a.round.side.entries) :
    a.joinedAll.participant id = joined id side (a.participant id) :=
  foldl_view_of_mem participant_closeParticipant a.round.side.nodupKeys h a

theorem participant_joinedAll_of_notMem {a : StatsAccumulator} {id : ℕ}
    (h : id ∉ a.round.side) : a.joinedAll.participant id = a.participant id :=
  foldl_view_of_notMem participant_closeParticipant h a

/-- After the first loop everyone on a side has a record, and nobody else gets one. -/
theorem mem_joinedAll {a : StatsAccumulator} {id : ℕ} :
    id ∈ a.joinedAll.round.pr ↔ id ∈ a.round.side ∨ id ∈ a.round.pr := by
  have hstep : ∀ s e, id ∈ (closeParticipant s e).round.pr ↔ id = e.1 ∨ id ∈ s.round.pr :=
    fun s e => Table.mem_modify ..
  have hloop : ∀ (l : List (Sigma fun _ : ℕ => ℤ)) s,
      id ∈ (l.foldl closeParticipant s).round.pr ↔ id ∈ l.keys ∨ id ∈ s.round.pr := by
    intro l
    induction l with
    | nil => simp
    | cons e l ih =>
      intro s
      rw [List.foldl_cons, ih, hstep, List.keys_cons, List.mem_cons]
      tauto
  exact hloop _ a

/-- A record at the end of a round, with the guard that its player was on a side. -/
theorem record_joinedAll {a : StatsAccumulator}
    (hsides : ∀ kv ∈ a.round.pr.entries, kv.1 ∈ a.round.side)
    {kv : Sigma fun _ : ℕ => PlayerRound} (h : kv ∈ a.joinedAll.round.pr.entries) :
    ∃ side, ⟨kv.1, side⟩ ∈ a.round.side.entries ∧
      kv.2 = (joined kv.1 side (a.participant kv.1)).2.1 := by
  have hmem : kv.1 ∈ a.round.side := by
    rcases mem_joinedAll.mp (Table.mem_of_mem_entries h) with hside | hpr
    · exact hside
    · exact hsides ⟨kv.1, a.round.pr.read kv.1⟩ (Table.mem_entries_read hpr)
  obtain ⟨side, hside⟩ := Option.isSome_iff_exists.mp (AList.lookup_isSome.mpr hmem)
  have hentry := AList.mem_lookup_iff.mp hside
  refine ⟨side, hentry, ?_⟩
  rw [← participant_joinedAll_of_mem hentry]
  exact (Table.read_of_mem_entries h).symm

/-- Both loops add to the totals what the closed record carries beyond the open one. -/
theorem count_closed {p : Player} {r : PlayerRound} (hr : r.Open) (winnerSide side : ℤ) (id : ℕ)
    (dead : Bool) (b : StatsAccumulator) (c : Counter) :
    (closed winnerSide id (joined id side (p, r, dead)).2.1
        ((joined id side (p, r, dead)).1, b.round.clutch)).1.s.count c =
      p.s.count c - r.pending side c +
        (b.closedRecord winnerSide ⟨id, (joined id side (p, r, dead)).2.1⟩).carried c := by
  obtain ⟨-, -, -, -, -, -, hvs, hwon⟩ := hr
  cases c <;> simp only [closed, joined, closedRecord, PlayerStats.count, PlayerRound.pending,
    PlayerRound.carried]
  case multiKills n =>
    by_cases hk : 0 < r.kills
    · simp only [hk, if_true, true_and, get_updateAt]
      split_ifs <;> omega
    · simp [hk]
  case clutchesWon n =>
    by_cases hc : 0 < r.clutchVs ∧ (b.round.clutch.lookup winnerSide).map Prod.fst = some id
    · have h1 : 1 ≤ r.clutchVs := hc.1
      simp only [hc, h1, hvs, and_self, if_true, decide_true, Bool.or_true, true_and,
        get_updateAt]
      split_ifs <;> omega
    · simp only [hc, hwon, if_false, decide_false, Bool.or_false, Bool.false_eq_true, false_and]
      omega
  all_goals (try split_ifs) <;> simp_all

theorem closeRound_snd (a : StatsAccumulator) (winnerSide : ℤ) :
    (a.closeRound winnerSide).2 =
      a.joinedAll.round.pr.entries.map (a.joinedAll.closedRecord winnerSide) :=
  (foldl_closeRecord_snd winnerSide _ _).trans (List.nil_append _)

/-- What the records of a closed round carry for one player. -/
theorem carried_closeRound {a : StatsAccumulator} (winnerSide : ℤ) (id : ℕ) (c : Counter)
    (hstamped : ∀ kv ∈ a.joinedAll.round.pr.entries, kv.2.id = kv.1) :
    (((a.closeRound winnerSide).2.filter (·.id = id)).map (·.carried c)).sum =
      if id ∈ a.joinedAll.round.pr then
        (a.joinedAll.closedRecord winnerSide ⟨id, a.joinedAll.record id⟩).carried c
      else 0 := by
  have hkey : a.joinedAll.round.pr.entries.filter
      ((fun r : PlayerRound => decide (r.id = id)) ∘ a.joinedAll.closedRecord winnerSide) =
      a.joinedAll.round.pr.entries.filter fun kv => decide (kv.1 = id) := by
    apply List.filter_congr
    intro kv hkv
    simp only [Function.comp_apply, closedRecord, hstamped kv hkv]
  rw [closeRound_snd, List.filter_map, hkey]
  split_ifs with hid
  · rw [filter_entries_of_mem (Table.mem_entries_read hid)]
    simp [record]
  · rw [List.filter_eq_nil_iff.mpr]
    · rfl
    · intro kv hkv heq
      exact hid (of_decide_eq_true heq ▸ Table.mem_of_mem_entries hkv)

theorem read_closeRound_of_mem {a : StatsAccumulator} (winnerSide : ℤ) {id : ℕ}
    (h : id ∈ a.joinedAll.round.pr) :
    (a.closeRound winnerSide).1.players.read id =
      (closed winnerSide id (a.joinedAll.record id)
        (a.joinedAll.players.read id, a.joinedAll.round.clutch)).1 :=
  congrArg Prod.fst (foldl_view_of_mem (closing_closeRecord winnerSide)
    a.joinedAll.round.pr.nodupKeys (Table.mem_entries_read h) (a.joinedAll, []))

theorem read_closeRound_of_notMem {a : StatsAccumulator} (winnerSide : ℤ) {id : ℕ}
    (h : id ∉ a.joinedAll.round.pr) :
    (a.closeRound winnerSide).1.players.read id = a.joinedAll.players.read id :=
  congrArg Prod.fst (foldl_view_of_notMem (closing_closeRecord winnerSide) h (a.joinedAll, []))

/-- Closing a round turns every slack into a total that the records account for. -/
theorem count_closeRound {a : StatsAccumulator} (h : a.RoundOk)
    (hsides : ∀ kv ∈ a.round.pr.entries, kv.1 ∈ a.round.side) (winnerSide : ℤ) (id : ℕ)
    (c : Counter) :
    ((a.closeRound winnerSide).1.players.read id).s.count c =
      a.slack id c +
        (((a.closeRound winnerSide).2.filter (·.id = id)).map (·.carried c)).sum := by
  have hstamped : ∀ kv ∈ a.joinedAll.round.pr.entries, kv.2.id = kv.1 := by
    intro kv hkv
    obtain ⟨side, -, heq⟩ := record_joinedAll hsides hkv
    rw [heq]
    rfl
  rw [carried_closeRound winnerSide id c hstamped]
  unfold slack
  by_cases hid : id ∈ a.round.side
  · obtain ⟨side, hside⟩ := Option.isSome_iff_exists.mp (AList.lookup_isSome.mpr hid)
    have hmem : id ∈ a.joinedAll.round.pr := mem_joinedAll.mpr (.inl hid)
    have hpart := participant_joinedAll_of_mem (AList.mem_lookup_iff.mp hside)
    have hplayer : a.joinedAll.players.read id = (joined id side (a.participant id)).1 :=
      congrArg Prod.fst hpart
    have hrecord : a.joinedAll.record id = (joined id side (a.participant id)).2.1 :=
      congrArg (fun v => v.2.1) hpart
    have hsideOf : a.sideOf id = side := by
      have : a.round.side.lookup id = some side := hside
      simp only [sideOf, this]
    rw [if_pos hmem, read_closeRound_of_mem winnerSide hmem, hplayer, hrecord, hsideOf]
    exact count_closed (h.opened id) winnerSide side id _ a.joinedAll c
  · have hpr : id ∉ a.round.pr := fun hmem =>
      hid (hsides ⟨id, a.round.pr.read id⟩ (Table.mem_entries_read hmem))
    have hmem : id ∉ a.joinedAll.round.pr := by
      rw [mem_joinedAll]
      tauto
    have hplayer : a.joinedAll.players.read id = a.players.read id :=
      congrArg Prod.fst (participant_joinedAll_of_notMem hid)
    rw [if_neg hmem, read_closeRound_of_notMem winnerSide hmem, hplayer, record,
      Table.read_of_notMem hpr, pending_default]
    omega

theorem Balanced.onRoundEnd {a : StatsAccumulator} (h : a.Balanced) (hlive : a.live = true)
    (winnerSide reason : ℤ) (hsides : ∀ kv ∈ a.round.pr.entries, kv.1 ∈ a.round.side) :
    (a.onRoundEnd winnerSide reason).Balanced := by
  rw [onRoundEnd_of_live hlive]
  set b := a.creditRound winnerSide with hb
  have hok : b.RoundOk := ⟨h.roundOk.opened, h.roundOk.stamped, h.roundOk.entry⟩
  have hperm : (a.summary winnerSide reason).players.Perm (b.closeRound winnerSide).2 :=
    List.perm_insertionSort _ _
  refine ⟨roundOk_empty rfl, ?_, ?_⟩
  · intro r hr pr hpr c
    rcases List.mem_append.mp hr with hr | hr
    · exact h.carries r hr pr hpr c
    · rw [List.mem_singleton.mp hr, hperm.mem_iff, closeRound_snd] at hpr
      obtain ⟨kv, hkv, rfl⟩ := List.mem_map.mp hpr
      obtain ⟨side, -, heq⟩ := record_joinedAll (a := b) hsides hkv
      have hopen := hok.opened kv.1
      apply PlayerRound.carried_nonneg
      simp only [closedRecord, heq]
      exact ⟨hopen.kills, hopen.assists, hopen.flashAssists, hopen.headshotKills, hopen.damage,
        hopen.utilityDamage⟩
  · intro id c
    have hslack : b.slack id c = carriedBy a.rounds id c := h.slack id c
    rw [carriedBy_append, ← hslack]
    have hnew : carriedBy [a.summary winnerSide reason] id c =
        (((b.closeRound winnerSide).2.filter (·.id = id)).map (·.carried c)).sum := by
      simp only [carriedBy, List.map_cons, List.map_nil, List.sum_cons, List.sum_nil, add_zero]
      exact ((hperm.filter _).map _).sum_eq
    rw [hnew, ← count_closeRound hok hsides]
    unfold StatsAccumulator.slack
    rw [show StatsAccumulator.record { (b.closeRound winnerSide).1 with
      rounds := a.rounds ++ [a.summary winnerSide reason], round := {} } id = default from
        Table.read_empty id, pending_default]
    exact sub_zero _

/-! ## Whole runs -/

theorem Balanced.of_keeps {a b : StatsAccumulator} (h : a.Balanced) (hkeeps : a.Keeps b)
    (hrounds : b.rounds = a.rounds) : b.Balanced :=
  ⟨hkeeps.roundOk, hrounds ▸ h.carries, fun id c => by rw [hkeeps.slack, h.slack, hrounds]⟩

theorem Balanced.step {a : StatsAccumulator} (h : a.Balanced) (hlive : a.live = true)
    {op : StatsOp} (hsafe : a.RewindSafe op) : (a.step op).Balanced := by
  by_cases hop : ∃ winnerSide reason, op = .onRoundEnd winnerSide reason
  · obtain ⟨winnerSide, reason, rfl⟩ := hop
    exact h.onRoundEnd hlive winnerSide reason hsafe
  push Not at hop
  have hrounds : (a.step op).rounds = a.rounds := congrArg Board.rounds (step_board a op hop)
  have hok := h.roundOk
  cases op with
  | onRoundStart => exact h.onRoundStart hsafe
  | observePlayer => exact h.observePlayer hlive _ _ _ hsafe
  | onPlayerDeath => exact h.of_keeps (onPlayerDeath_keeps hok hsafe.1 hsafe.2 ..) hrounds
  | onPlayerHurt => exact h.of_keeps (onPlayerHurt_keeps hok ..) hrounds
  | onRoundMvp => exact h.of_keeps (onRoundMvp_keeps hok hsafe) hrounds
  | onPlayerBlind =>
    refine h.of_keeps ?_ hrounds
    simp only [StatsAccumulator.step, onPlayerBlind]
    split
    · exact hok.keeps
    · exact hok.keeps_modP fun s c => by split_ifs <;> cases c <;> rfl
  | onBombPlanted =>
    refine h.of_keeps ?_ hrounds
    simp only [StatsAccumulator.step, onBombPlanted]
    split
    · exact hok.keeps_modP fun s c => by cases c <;> rfl
    · exact hok.keeps
  | onBombDefused =>
    refine h.of_keeps ?_ hrounds
    simp only [StatsAccumulator.step, onBombDefused]
    split
    · exact hok.keeps_modP fun s c => by cases c <;> rfl
    · exact hok.keeps
  | setScore =>
    refine h.of_keeps ?_ hrounds
    simp only [StatsAccumulator.step, setScore]
    split
    · exact hok.keeps_modP fun s c => by cases c <;> rfl
    · exact hok.keeps
  | setMoneyStart =>
    refine h.of_keeps ?_ hrounds
    simp only [StatsAccumulator.step, setMoneyStart]
    split
    · exact hok.keeps
    · exact hok.keeps_modR (fun r hr => ⟨hr.1, hr.2, hr.3, hr.4, hr.5, hr.6, hr.7, hr.8⟩)
        (fun _ => rfl) (fun _ => ⟨rfl, rfl⟩) fun r side c => by cases c <;> rfl
  | setLoadout =>
    refine h.of_keeps ?_ hrounds
    simp only [StatsAccumulator.step, setLoadout]
    split
    · exact hok.keeps
    · exact hok.keeps_modR (fun r hr => ⟨hr.1, hr.2, hr.3, hr.4, hr.5, hr.6, hr.7, hr.8⟩)
        (fun _ => rfl) (fun _ => ⟨rfl, rfl⟩) fun r side c => by cases c <;> rfl
  | onRoundEnd winnerSide reason => exact absurd rfl (hop winnerSide reason)

/-- No call of a run changes sides: the rounds on record were played on the present ones. -/
def OneSided (a : StatsAccumulator) : Prop := ∀ r ∈ a.rounds, r.team1WasCt = a.team1IsCt

theorem OneSided.step {a : StatsAccumulator} (h : a.OneSided) (hlive : a.live = true)
    (op : StatsOp) : (a.step op).OneSided := by
  by_cases hop : ∃ winnerSide reason, op = .onRoundEnd winnerSide reason
  · obtain ⟨winnerSide, reason, rfl⟩ := hop
    have hrounds := congrArg Board.rounds (onRoundEnd_board hlive winnerSide reason)
    have hct := congrArg Board.team1IsCt (onRoundEnd_board hlive winnerSide reason)
    simp only [board] at hrounds hct
    intro r hr
    rw [StatsAccumulator.step, hrounds] at hr
    rw [StatsAccumulator.step, hct]
    rcases List.mem_append.mp hr with hr | hr
    · exact h r hr
    · rw [List.mem_singleton.mp hr]
      rfl
  · push Not at hop
    have hrounds := congrArg Board.rounds (step_board a op hop)
    have hct := congrArg Board.team1IsCt (step_board a op hop)
    simp only [board] at hrounds hct
    intro r hr
    rw [hct]
    exact h r (hrounds ▸ hr)

/-- What a run that began with `BeginMap` keeps. -/
structure Rewindable (a : StatsAccumulator) : Prop where
  ledger : a.Ledger
  oneSided : a.OneSided
  balanced : a.Balanced

theorem rewindable_beginMap (a : StatsAccumulator) (team1IsCt : Bool) :
    (a.beginMap team1IsCt).Rewindable where
  ledger := ledger_beginMap a team1IsCt
  oneSided := fun r hr => by cases hr
  balanced :=
    { roundOk := roundOk_empty rfl
      carries := fun r hr => by cases hr
      slack := fun id c => by
        have hnew : (a.beginMap team1IsCt).record id = default := Table.read_empty id
        have hread : (a.beginMap team1IsCt).players.read id = default := Table.read_empty id
        rw [StatsAccumulator.slack, hnew, hread, pending_default, count_default]
        rfl }

theorem Rewindable.step {a : StatsAccumulator} (h : a.Rewindable) {op : StatsOp}
    (hsafe : a.RewindSafe op) : (a.step op).Rewindable :=
  ⟨h.ledger.step op, h.oneSided.step h.ledger.live op, h.balanced.step h.ledger.live hsafe⟩

theorem Rewindable.run {a : StatsAccumulator} (h : a.Rewindable) {ops : List StatsOp}
    (hsafe : Guarded StatsAccumulator.step RewindSafe a ops) :
    (run StatsAccumulator.step a ops).Rewindable :=
  hsafe.invariant h fun _ _ hs hop => hs.step hop

/-- Right after a round start the totals are what the closed rounds carry. -/
theorem Balanced.count_of_round_empty {a : StatsAccumulator} (h : a.Balanced)
    (hround : a.round = {})
    (id : ℕ) (c : Counter) : (a.players.read id).s.count c = carriedBy a.rounds id c := by
  have hrec : a.record id = default := by simp [record, hround]
  have := h.slack id c
  rwa [StatsAccumulator.slack, hrec, pending_default, sub_zero] at this

end StatsAccumulator

/-- The parts of a snapshot that a restore has to bring back. A player without a line
counts as a player with zeros. -/
def MapStats.Same (m m' : MapStats) : Prop :=
  m.rounds = m'.rounds ∧ m.team1 = m'.team1 ∧ m.team2 = m'.team2 ∧ m.team1IsCt = m'.team1IsCt ∧
    ∀ id c, m.stat id c = m'.stat id c

/-- The last call was the start of a round. -/
abbrev AtRoundStart (ops : List StatsOp) : Prop := ops.getLast? = some .onRoundStart

theorem round_of_atRoundStart {a : StatsAccumulator} {ops : List StatsOp} (h : AtRoundStart ops) :
    (run StatsAccumulator.step a ops).round = {} := by
  obtain ⟨ops', rfl⟩ := List.getLast?_eq_some_iff.mp h
  rw [run_append]
  rfl

/-- The accumulator after a restore to round `k`, as `DoRestoreNow` does it. -/
def StatsAccumulator.restoredTo (a : StatsAccumulator) (k : ℤ) : StatsAccumulator :=
  .restore (rewindTo a.snapshot k).1

open StatsAccumulator in
/-- Restoring round `k` gives the snapshot taken when round `k` started, along every run
whose calls are safe to rewind. -/
theorem restoredTo_same_snapshot (a : StatsAccumulator) (team1IsCt : Bool) (pre post : List StatsOp)
    (hpre : AtRoundStart pre) (hpost : AtRoundStart (pre ++ post))
    (hsafe : Guarded StatsAccumulator.step RewindSafe (a.beginMap team1IsCt) (pre ++ post))
    (k : ℤ) (hk : k = (run StatsAccumulator.step (a.beginMap team1IsCt) pre).rounds.length + 1) :
    ((run StatsAccumulator.step (a.beginMap team1IsCt) (pre ++ post)).restoredTo k).snapshot.Same
      (run StatsAccumulator.step (a.beginMap team1IsCt) pre).snapshot := by
  obtain ⟨hsafe₁, hsafe₂⟩ := guarded_append.mp hsafe
  have hx := (rewindable_beginMap a team1IsCt).run hsafe₁
  have hround := round_of_atRoundStart (a := a.beginMap team1IsCt) hpre
  have hround' := round_of_atRoundStart (a := a.beginMap team1IsCt) hpost
  rw [run_append] at hround' ⊢
  set x := run StatsAccumulator.step (a.beginMap team1IsCt) pre
  have hy := hx.run hsafe₂
  obtain ⟨hct, hprefix⟩ := hx.ledger.run post
  set y := run StatsAccumulator.step x post
  obtain ⟨dropped, hrounds⟩ := hprefix
  have htake : y.rounds.take x.rounds.length = x.rounds := by rw [← hrounds, List.take_left]
  have hdrop : y.rounds.drop x.rounds.length = dropped := by rw [← hrounds, List.drop_left]
  have hrewind := rewindTo_eq (m := y.snapshot) hy.ledger.numbered x.rounds.length
  rw [show y.snapshot.rounds = y.rounds from rfl, htake, hdrop] at hrewind
  rw [StatsAccumulator.restoredTo, hk, hrewind]
  set m : MapStats := { y.snapshot with team1IsCt := sideAt y.snapshot dropped }
  have hteams := foldl_takeBack_tally x.rounds dropped m
    (by rw [hrounds]; exact hy.ledger.team1) (by rw [hrounds]; exact hy.ledger.team2)
  refine ⟨rfl, ?_, ?_, ?_, ?_⟩
  · exact hteams.1.trans hx.ledger.team1.symm
  · exact hteams.2.trans hx.ledger.team2.symm
  · refine Eq.trans (foldl_takeBack_frame dropped m).2 ?_
    cases dropped with
    | nil => exact hct
    | cons r rs =>
      have hr : r ∈ y.rounds := by rw [← hrounds]; simp
      exact (hy.oneSided r hr).trans hct
  · intro id c
    have hcarries : Carries dropped := fun r hr =>
      hy.balanced.carries r (by rw [← hrounds]; exact List.mem_append_right _ hr)
    have hnodup : ((dropped.foldl MapStats.takeBack m).players.map (·.id)).Nodup := by
      rw [map_id_foldl_takeBack]
      exact snapshot_players_nodup y
    refine Eq.trans (stat_restore hnodup id c) ?_
    rw [stat_snapshot, hx.balanced.count_of_round_empty hround]
    apply foldl_takeBack_stat hcarries (hx.balanced.carries.carriedBy_nonneg id c)
    change y.snapshot.stat id c = _
    rw [stat_snapshot, hy.balanced.count_of_round_empty hround', ← carriedBy_append, hrounds]

/-- One round, with a kill for player 1 and an assist for player 3 before it is over. -/
theorem restoredTo_same_snapshot_first_round :
    ((run StatsAccumulator.step (StatsAccumulator.beginMap {} true)
        ([.onRoundStart] ++ [.observePlayer 1 (ascii "a") 3 1 false,
          .observePlayer 2 (ascii "b") 2 2 false,
          .observePlayer 3 (ascii "c") 3 1 false, .onPlayerHurt 2 1 100 0 "ak47",
          .onPlayerDeath 2 1 3 false true "ak47" 12, .onRoundMvp 1, .onRoundEnd 3 8,
          .onRoundStart])).restoredTo 1).snapshot.Same
      (run StatsAccumulator.step (StatsAccumulator.beginMap {} true) [.onRoundStart]).snapshot :=
  restoredTo_same_snapshot {} true [.onRoundStart] _ rfl rfl (by decide) 1 (by decide)

/-- A kill after the round is over stays in the totals when the round is taken back. -/
theorem restoredTo_late_kill_not_same :
    AtRoundStart [.onRoundStart] ∧
    ¬((run StatsAccumulator.step (StatsAccumulator.beginMap {} true)
        ([.onRoundStart] ++ [.observePlayer 1 (ascii "a") 3 1 false,
          .observePlayer 2 (ascii "b") 2 2 false,
          .onRoundEnd 3 8, .onPlayerDeath 2 1 0 false false "ak47" 12, .onRoundStart])).restoredTo
            1).snapshot.Same
      (run StatsAccumulator.step (StatsAccumulator.beginMap {} true) [.onRoundStart]).snapshot := by
  refine ⟨rfl, ?_⟩
  intro h
  have hkills := h.2.2.2.2 1 .kills
  revert hkills
  decide

end ReadyUp.Stats
