import Mathlib.Tactic.Linarith
import ReadyUp.Match.Stats
import ReadyUp.Support.Runs

/-!
# Round numbers and team lines

The list of closed rounds is the ledger behind the two team lines: `tally` recomputes a
line from it. Closing a round appends one entry and credits one line, and taking rounds
back leaves the lines of the rounds that stay, whatever was dropped and in which order.
-/
namespace ReadyUp.Stats

open ReadyUp.Support

/-- Rounds are numbered in play order from 1. -/
def Numbered (rs : List RoundSummary) : Prop :=
  ∀ i (h : i < rs.length), (rs[i]).roundNumber = (i : ℤ) + 1

instance (rs : List RoundSummary) : Decidable (Numbered rs) :=
  inferInstanceAs (Decidable (∀ i (h : i < rs.length), (rs[i]).roundNumber = (i : ℤ) + 1))

/-- The winner of the round played it as CT. -/
def RoundSummary.winnerCt (r : RoundSummary) : Bool :=
  if r.winnerTeam = 1 then r.team1WasCt else !r.team1WasCt

/-- The line of a team slot, recomputed from the rounds. -/
def tally (slot : ℤ) (rs : List RoundSummary) : TeamLine :=
  { score := rs.countP fun r => r.winnerTeam = slot
    scoreCt := rs.countP fun r => r.winnerTeam = slot ∧ r.winnerCt = true
    scoreT := rs.countP fun r => r.winnerTeam = slot ∧ r.winnerCt = false }

/-- The part of the accumulator outside the players and the round in progress. -/
structure Board where
  live : Bool
  team1IsCt : Bool
  t1 : TeamLine
  t2 : TeamLine
  rounds : List RoundSummary

def StatsAccumulator.board (a : StatsAccumulator) : Board :=
  ⟨a.live, a.team1IsCt, a.t1, a.t2, a.rounds⟩

namespace StatsAccumulator

@[simp] theorem modP_board (a : StatsAccumulator) (id : ℕ) (f : PlayerStats → PlayerStats) :
    (a.modP id f).board = a.board := rfl

@[simp] theorem modR_board (a : StatsAccumulator) (id : ℕ) (f : PlayerRound → PlayerRound) :
    (a.modR id f).board = a.board := rfl

@[simp] theorem round_board (a : StatsAccumulator) (r : Round) :
    ({ a with round := r } : StatsAccumulator).board = a.board := rfl

@[simp] theorem players_board (a : StatsAccumulator) (ps : Table ℕ Player) :
    ({ a with players := ps } : StatsAccumulator).board = a.board := rfl

theorem tradeStep_board (victim attacker : ℕ) (attackerSide : ℤ) (time : ℚ)
    (st : StatsAccumulator × Bool) (kv : Sigma fun _ : ℕ => ℕ × ℚ) :
    (tradeStep victim attacker attackerSide time st kv).1.board = st.1.board := by
  unfold tradeStep
  dsimp only
  split_ifs <;> simp

theorem creditEntry_board (a : StatsAccumulator) (victim attacker : ℕ)
    (victimSide attackerSide : ℤ) :
    (a.creditEntry victim attacker victimSide attackerSide).board = a.board := by
  unfold creditEntry
  split_ifs <;> simp

theorem creditKill_board (a : StatsAccumulator) (victim attacker : ℕ)
    (victimSide attackerSide : ℤ) (headshot : Bool) (weapon : String) (time : ℚ) :
    (a.creditKill victim attacker victimSide attackerSide headshot weapon time).board =
      a.board := by
  have hloop := foldl_fixed _ (fun st : StatsAccumulator × Bool => st.1.board)
    (tradeStep_board victim attacker attackerSide time)
  unfold creditKill
  dsimp only
  split_ifs <;> simp [hloop, creditEntry_board]

theorem creditAssist_board (a : StatsAccumulator) (victim attacker assister : ℕ)
    (victimSide : ℤ) (assistedFlash : Bool) :
    (a.creditAssist victim attacker assister victimSide assistedFlash).board = a.board := by
  unfold creditAssist
  dsimp only
  split_ifs <;> simp

theorem noteClutch_board (a : StatsAccumulator) (victimSide : ℤ) :
    (a.noteClutch victimSide).board = a.board := by
  unfold noteClutch
  dsimp only
  split_ifs
  · split <;> rfl
  · split <;> rfl
  · rfl

theorem onPlayerDeath_board (a : StatsAccumulator) (victim attacker assister : ℕ)
    (assistedFlash headshot : Bool) (weapon : String) (time : ℚ) :
    (a.onPlayerDeath victim attacker assister assistedFlash headshot weapon time).board =
      a.board := by
  unfold onPlayerDeath
  split_ifs
  · rfl
  · dsimp only
    rw [noteClutch_board, creditAssist_board]
    split_ifs <;> simp [creditKill_board, noteDeath]

theorem onPlayerHurt_board (a : StatsAccumulator) (victim attacker : ℕ)
    (dmgHealth healthAfter : ℤ) (weapon : String) :
    (a.onPlayerHurt victim attacker dmgHealth healthAfter weapon).board = a.board := by
  unfold onPlayerHurt
  dsimp only
  split_ifs <;> simp

theorem observePlayer_board (a : StatsAccumulator) (id : ℕ) (name : Bytes)
    (side teamSlot : ℤ) (bot : Bool) :
    (a.observePlayer id name side teamSlot bot).board = a.board := by
  unfold observePlayer
  dsimp only
  split_ifs <;> rfl

/-- Only the end of a round moves the score or the list of rounds. -/
theorem step_board (a : StatsAccumulator) (op : StatsOp)
    (hop : ∀ winnerSide reason, op ≠ .onRoundEnd winnerSide reason) :
    (a.step op).board = a.board := by
  cases op with
  | onRoundStart => rfl
  | observePlayer => exact observePlayer_board ..
  | onPlayerDeath => exact onPlayerDeath_board ..
  | onPlayerHurt => exact onPlayerHurt_board ..
  | onPlayerBlind => simp only [step, onPlayerBlind]; split_ifs <;> simp
  | onBombPlanted => simp only [step, onBombPlanted]; split_ifs <;> simp
  | onBombDefused => simp only [step, onBombDefused]; split_ifs <;> simp
  | onRoundMvp => simp only [step, onRoundMvp]; split_ifs <;> simp
  | setScore => simp only [step, setScore]; split_ifs <;> simp
  | setMoneyStart => simp only [step, setMoneyStart]; split_ifs <;> simp
  | setLoadout => simp only [step, setLoadout]; split_ifs <;> simp
  | onRoundEnd winnerSide reason => exact absurd rfl (hop winnerSide reason)

theorem closeRound_board (a : StatsAccumulator) (winnerSide : ℤ) :
    (a.closeRound winnerSide).1.board = a.board := by
  have hrecord := foldl_fixed (closeRecord winnerSide) (fun st => st.1.board) fun _ _ => rfl
  have hside := foldl_fixed closeParticipant board fun _ _ => rfl
  rw [closeRound, hrecord, hside]

theorem onRoundEnd_of_live {a : StatsAccumulator} (h : a.live = true) (winnerSide reason : ℤ) :
    a.onRoundEnd winnerSide reason =
      { ((a.creditRound winnerSide).closeRound winnerSide).1 with
        rounds := a.rounds ++ [a.summary winnerSide reason]
        round := {} } := by
  simp [onRoundEnd, h]

theorem onRoundEnd_board {a : StatsAccumulator} (h : a.live = true) (winnerSide reason : ℤ) :
    (a.onRoundEnd winnerSide reason).board =
      { a.board with
        t1 := (a.creditRound winnerSide).t1
        t2 := (a.creditRound winnerSide).t2
        rounds := a.rounds ++ [a.summary winnerSide reason] } := by
  have hb := closeRound_board (a.creditRound winnerSide) winnerSide
  simp only [board, Board.mk.injEq] at hb
  obtain ⟨hlive, hct, ht1, ht2, -⟩ := hb
  simp only [onRoundEnd_of_live h, board, hlive, hct, ht1, ht2]
  rfl

end StatsAccumulator

/-! ## Tallies -/

theorem tally_append (slot : ℤ) (rs : List RoundSummary) (r : RoundSummary) :
    tally slot (rs ++ [r]) =
      if r.winnerTeam = slot then (tally slot rs).credit r.winnerCt else tally slot rs := by
  by_cases hr : r.winnerTeam = slot
  · cases hc : r.winnerCt <;> simp [tally, TeamLine.credit, hr, hc]
  · simp [tally, hr]

/-- Subtraction at zero does not bite while the amount is there to be taken. -/
theorem dec_add {v : ℤ} (hv : 0 ≤ v) (d : ℤ) : dec (v + d) d = v := by
  unfold dec
  split_ifs <;> omega

/-- Taking a round back undoes its entry in the line wherever in the list it stands. -/
theorem tally_takeBack (slot : ℤ) (kept rest : List RoundSummary) (r : RoundSummary)
    (hr : r.winnerTeam = slot) :
    (tally slot (kept ++ r :: rest)).takeBack r.winnerCt = tally slot (kept ++ rest) := by
  have hdec : ∀ a b : ℕ, dec ((a : ℤ) + ((b : ℤ) + 1)) 1 = a + b := by
    intro a b
    rw [← add_assoc, dec_add (by omega)]
  cases hc : r.winnerCt <;> simp [tally, TeamLine.takeBack, hr, hc, hdec]

theorem tally_of_ne (slot : ℤ) (kept rest : List RoundSummary) (r : RoundSummary)
    (hr : r.winnerTeam ≠ slot) :
    tally slot (kept ++ r :: rest) = tally slot (kept ++ rest) := by
  simp [tally, hr]

/-! ## Rewinding -/

theorem numbered_take {rs : List RoundSummary} (h : Numbered rs) (n : ℕ) :
    Numbered (rs.take n) := by
  intro i hi
  rw [List.getElem_take]
  exact h i _

theorem Numbered.append {rs : List RoundSummary} (h : Numbered rs) {r : RoundSummary}
    (hr : r.roundNumber = rs.length + 1) : Numbered (rs ++ [r]) := by
  intro i hi
  rw [List.getElem_append]
  split_ifs with hlt
  · exact h i hlt
  · have : i = rs.length := by simp at hi; omega
    simp [this, hr]

theorem Numbered.lt_of_mem_take {rs : List RoundSummary} (h : Numbered rs) {n : ℕ}
    {r : RoundSummary} (hr : r ∈ rs.take n) : r.roundNumber < n + 1 := by
  obtain ⟨i, hi, rfl⟩ := List.mem_iff_getElem.mp hr
  rw [List.getElem_take, h]
  simp at hi
  omega

theorem Numbered.le_of_mem_drop {rs : List RoundSummary} (h : Numbered rs) {n : ℕ}
    {r : RoundSummary} (hr : r ∈ rs.drop n) : (n : ℤ) + 1 ≤ r.roundNumber := by
  obtain ⟨i, hi, rfl⟩ := List.mem_iff_getElem.mp hr
  rw [List.getElem_drop, h]
  push_cast
  omega

theorem foldl_rewindStep_kept {k : ℤ} {rs : List RoundSummary}
    (h : ∀ r ∈ rs, r.roundNumber < k) (w : Rewind) :
    rs.foldl (rewindStep k) w = { w with kept := w.kept ++ rs } := by
  induction rs generalizing w with
  | nil => simp
  | cons r rs ih =>
    have hr := h r List.mem_cons_self
    rw [List.foldl_cons, ih fun r' hr' => h r' (List.mem_cons_of_mem _ hr')]
    simp [rewindStep, hr]

theorem foldl_rewindStep_dropped {k : ℤ} {rs : List RoundSummary}
    (h : ∀ r ∈ rs, k ≤ r.roundNumber) (w : Rewind) (hw : w.sideSet = true) :
    rs.foldl (rewindStep k) w =
      { w with m := rs.foldl MapStats.takeBack w.m, dropped := w.dropped + rs.length } := by
  induction rs generalizing w with
  | nil => simp
  | cons r rs ih =>
    have hr := h r List.mem_cons_self
    have hstep : rewindStep k w r =
        { w with m := w.m.takeBack r, dropped := w.dropped + 1, sideSet := true } := by
      simp [rewindStep, hw, not_lt.mpr hr]
    rw [List.foldl_cons, hstep, ih (fun r' hr' => h r' (List.mem_cons_of_mem _ hr')) _ rfl, hw]
    simp only [List.foldl_cons, List.length_cons]
    push_cast
    congr 1
    omega

/-- team1's side in the first dropped round, if any round is dropped. -/
def sideAt (m : MapStats) (dropped : List RoundSummary) : Bool :=
  match dropped with
  | [] => m.team1IsCt
  | r :: _ => r.team1WasCt

/-- On numbered rounds a rewind splits the list in play order and takes the tail back. -/
theorem rewindTo_eq {m : MapStats} (hm : Numbered m.rounds) (n : ℕ) :
    rewindTo m (n + 1) =
      ({ (m.rounds.drop n).foldl MapStats.takeBack
            { m with team1IsCt := sideAt m (m.rounds.drop n) } with rounds := m.rounds.take n },
        ((m.rounds.drop n).length : ℤ)) := by
  have hpos : ¬((n : ℤ) + 1 < 1) := by omega
  have hsplit : m.rounds.foldl (rewindStep (n + 1)) { m := m } =
      (m.rounds.drop n).foldl (rewindStep (n + 1)) { m := m, kept := m.rounds.take n } := by
    conv_lhs => rw [← List.take_append_drop n m.rounds, List.foldl_append,
      foldl_rewindStep_kept fun r hr => hm.lt_of_mem_take hr]
    simp
  simp only [rewindTo, if_neg hpos, hsplit]
  have hdrop : ∀ r ∈ m.rounds.drop n, (n : ℤ) + 1 ≤ r.roundNumber :=
    fun r hr => hm.le_of_mem_drop hr
  cases hd : m.rounds.drop n with
  | nil => simp [sideAt]
  | cons r rs =>
    rw [hd] at hdrop
    have hr := hdrop r List.mem_cons_self
    simp only [List.foldl_cons, rewindStep, not_lt.mpr hr, if_false, Bool.false_eq_true]
    rw [foldl_rewindStep_dropped fun r' hr' => hdrop r' (List.mem_cons_of_mem _ hr')]
    · simp only [sideAt, List.length_cons]
      push_cast
      rw [add_comm (1 : ℤ)]
    · rfl

theorem foldl_takeBack_frame (rs : List RoundSummary) (m : MapStats) :
    (rs.foldl MapStats.takeBack m).live = m.live ∧
      (rs.foldl MapStats.takeBack m).team1IsCt = m.team1IsCt :=
  ⟨foldl_fixed MapStats.takeBack MapStats.live (fun _ _ => rfl) rs m,
    foldl_fixed MapStats.takeBack MapStats.team1IsCt (fun _ _ => rfl) rs m⟩

theorem foldl_takeBack_tally (kept rs : List RoundSummary) (m : MapStats)
    (h1 : m.team1 = tally 1 (kept ++ rs)) (h2 : m.team2 = tally 2 (kept ++ rs)) :
    (rs.foldl MapStats.takeBack m).team1 = tally 1 kept ∧
      (rs.foldl MapStats.takeBack m).team2 = tally 2 kept := by
  induction rs generalizing m with
  | nil => simpa using And.intro h1 h2
  | cons r rs ih =>
    rw [List.foldl_cons]
    apply ih
    · by_cases hr : r.winnerTeam = 1
      · have hc : r.winnerCt = r.team1WasCt := by simp [RoundSummary.winnerCt, hr]
        rw [MapStats.takeBack, if_pos hr, h1, ← hc, tally_takeBack _ _ _ _ hr]
      · rw [MapStats.takeBack, if_neg hr, h1, tally_of_ne _ _ _ _ hr]
    · by_cases hr : r.winnerTeam = 2
      · have hc : r.winnerCt = !r.team1WasCt := by simp [RoundSummary.winnerCt, hr]
        rw [MapStats.takeBack, if_pos hr, h2, ← hc, tally_takeBack _ _ _ _ hr]
      · rw [MapStats.takeBack, if_neg hr, h2, tally_of_ne _ _ _ _ hr]

/-! ## The ledger of a live map -/

namespace StatsAccumulator

/-- The team lines are what the closed rounds say. -/
structure Ledger (a : StatsAccumulator) : Prop where
  live : a.live = true
  numbered : Numbered a.rounds
  team1 : a.t1 = tally 1 a.rounds
  team2 : a.t2 = tally 2 a.rounds

theorem ledger_beginMap (a : StatsAccumulator) (team1IsCt : Bool) :
    (a.beginMap team1IsCt).Ledger :=
  ⟨rfl, fun i hi => absurd hi (Nat.not_lt_zero i), rfl, rfl⟩

theorem credit_winner (a : StatsAccumulator) (winnerSide reason : ℤ) {slot : ℤ}
    (hslot : a.slotForSide winnerSide = slot) (hs : slot = 1 ∨ slot = 2) :
    (a.summary winnerSide reason).winnerCt = decide (winnerSide = 3) := by
  subst hslot
  cases hct : a.team1IsCt <;> by_cases h3 : winnerSide = 3 <;> by_cases h2 : winnerSide = 2 <;>
    simp_all [RoundSummary.winnerCt, summary, slotForSide]

theorem creditRound_tally {a : StatsAccumulator} (h1 : a.t1 = tally 1 a.rounds)
    (h2 : a.t2 = tally 2 a.rounds) (winnerSide reason : ℤ) :
    (a.creditRound winnerSide).t1 = tally 1 (a.rounds ++ [a.summary winnerSide reason]) ∧
      (a.creditRound winnerSide).t2 = tally 2 (a.rounds ++ [a.summary winnerSide reason]) := by
  have hteam : (a.summary winnerSide reason).winnerTeam = a.slotForSide winnerSide := rfl
  rw [tally_append, tally_append, hteam, ← h1, ← h2]
  constructor
  · by_cases hs : a.slotForSide winnerSide = 1
    · rw [if_pos hs, credit_winner a winnerSide reason hs (.inl rfl)]
      simp [creditRound, hs]
    · simp [creditRound, hs]
  · by_cases hs : a.slotForSide winnerSide = 2
    · rw [if_pos hs, credit_winner a winnerSide reason hs (.inr rfl)]
      simp [creditRound, hs]
    · simp [creditRound, hs]

theorem Ledger.of_board {a b : StatsAccumulator} (h : a.Ledger) (hb : b.board = a.board) :
    b.Ledger := by
  simp only [board, Board.mk.injEq] at hb
  obtain ⟨hlive, -, ht1, ht2, hrounds⟩ := hb
  exact ⟨hlive.trans h.live, hrounds ▸ h.numbered, by rw [ht1, hrounds, h.team1],
    by rw [ht2, hrounds, h.team2]⟩

theorem Ledger.onRoundEnd {a : StatsAccumulator} (h : a.Ledger) (winnerSide reason : ℤ) :
    (a.onRoundEnd winnerSide reason).Ledger := by
  have hb := onRoundEnd_board h.live winnerSide reason
  simp only [board, Board.mk.injEq] at hb
  obtain ⟨hlive, -, ht1, ht2, hrounds⟩ := hb
  obtain ⟨htally1, htally2⟩ := creditRound_tally h.team1 h.team2 winnerSide reason
  exact ⟨hlive.trans h.live, hrounds ▸ h.numbered.append rfl, by rw [ht1, hrounds, htally1],
    by rw [ht2, hrounds, htally2]⟩

theorem Ledger.step {a : StatsAccumulator} (h : a.Ledger) (op : StatsOp) : (a.step op).Ledger := by
  by_cases hop : ∃ winnerSide reason, op = .onRoundEnd winnerSide reason
  · obtain ⟨winnerSide, reason, rfl⟩ := hop
    exact h.onRoundEnd winnerSide reason
  · push Not at hop
    exact h.of_board (step_board a op hop)

/-- A call leaves team1 on its side and the rounds on record in place. -/
theorem step_rounds {a : StatsAccumulator} (hlive : a.live = true) (op : StatsOp) :
    (a.step op).team1IsCt = a.team1IsCt ∧ a.rounds <+: (a.step op).rounds := by
  by_cases hop : ∃ winnerSide reason, op = .onRoundEnd winnerSide reason
  · obtain ⟨winnerSide, reason, rfl⟩ := hop
    have hrounds := congrArg Board.rounds (onRoundEnd_board hlive winnerSide reason)
    refine ⟨congrArg Board.team1IsCt (onRoundEnd_board hlive winnerSide reason), ?_⟩
    simp only [board] at hrounds
    rw [StatsAccumulator.step, hrounds]
    exact List.prefix_append _ _
  · push Not at hop
    have hrounds := congrArg Board.rounds (step_board a op hop)
    refine ⟨congrArg Board.team1IsCt (step_board a op hop), ?_⟩
    simp only [board] at hrounds
    rw [hrounds]

theorem Ledger.run {a : StatsAccumulator} (h : a.Ledger) (ops : List StatsOp) :
    (run StatsAccumulator.step a ops).team1IsCt = a.team1IsCt ∧
      a.rounds <+: (run StatsAccumulator.step a ops).rounds := by
  induction ops generalizing a with
  | nil => exact ⟨rfl, List.prefix_rfl⟩
  | cons op ops ih =>
    obtain ⟨hct, hrounds⟩ := step_rounds h.live op
    obtain ⟨hct', hrounds'⟩ := ih (h.step op)
    exact ⟨hct'.trans hct, hrounds.trans hrounds'⟩

end StatsAccumulator

end ReadyUp.Stats
