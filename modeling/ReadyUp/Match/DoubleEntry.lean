import Mathlib.Algebra.BigOperators.Fin
import ReadyUp.Match.Books
import ReadyUp.Support.TableTotal

/-!
# Double entry in the statistics

Whatever is called in whatever order, the totals of the players balance: every death is a kill, a
team kill or a suicide, and what the end of a round adds up is what its summary records. A snapshot
that is put back brings the balance with it.
-/
namespace ReadyUp.Stats

open ReadyUp.Support

/-- The recorded rounds in which a record of the player has some property. -/
def recordedRounds (rs : List RoundSummary) (id : ℕ) (q : PlayerRound → Prop)
    [DecidablePred q] : ℤ :=
  rs.countP fun r => ∃ pr ∈ r.players, pr.id = id ∧ q pr

/-- The recorded rounds that a team has won. -/
def roundsWon (rs : List RoundSummary) (slot : ℤ) : ℤ := rs.countP fun r => r.winnerTeam = slot

theorem recordedRounds_append (rs : List RoundSummary) (r : RoundSummary) (id : ℕ)
    (q : PlayerRound → Prop) [DecidablePred q] :
    recordedRounds (rs ++ [r]) id q = recordedRounds rs id q + if ∃ pr ∈ r.players, pr.id = id ∧
    q pr then 1 else 0 := by
  unfold recordedRounds
  rw [List.countP_append, List.countP_singleton]
  split_ifs <;> simp_all

namespace StatsAccumulator

/-- The sum of one number over all players. -/
def total (a : StatsAccumulator) (f : PlayerStats → ℤ) : ℤ := a.players.total fun p => f p.s

/-- The totals of the players balance. -/
structure DoubleEntry (a : StatsAccumulator) : Prop where
  deaths : a.total (·.deaths) = a.total (·.kills) + a.total (·.teamKills) + a.total (·.suicides)
  headshots : ∀ id, (a.players.read id).s.headshotKills ≤ (a.players.read id).s.kills
  kast : ∀ id, (a.players.read id).s.kastRounds ≤ (a.players.read id).s.roundsPlayed
  played : ∀ id, (a.players.read id).s.roundsPlayed ≤ a.rounds.length
  multiKills : ∀ id, ∑ i, (a.players.read id).s.multiKills.get i =
    recordedRounds a.rounds id (0 < ·.kills)
  clutches : ∀ id, ∑ i, (a.players.read id).s.clutchesWon.get i =
    recordedRounds a.rounds id (·.clutchWon = true)
  score1 : a.t1.score = roundsWon a.rounds 1 ∧ a.t1.score = a.t1.scoreCt + a.t1.scoreT
  score2 : a.t2.score = roundsWon a.rounds 2 ∧ a.t2.score = a.t2.scoreCt + a.t2.scoreT

variable {a b : StatsAccumulator}

/-! ## What keeps the balance -/

section Totals

theorem total_of_books {f : Booked → ℤ} (hf : f (default : Player).s.booked = 0)
    (h : ∀ id, f (b.books id) = f (a.books id)) : b.total (fun s => f s.booked) = a.total fun s =>
      f s.booked :=
  Table.total_congr (f := fun p : Player => f p.s.booked) hf h

theorem total_of_books_add {f : Booked → ℤ} (hf : f (default : Player).s.booked = 0) {k : ℕ} {d : ℤ}
    (h : ∀ id, f (b.books id) = f (a.books id) + if id = k then d else 0) :
    b.total (fun s => f s.booked) = a.total (fun s => f s.booked) + d :=
  Table.total_add (f := fun p : Player => f p.s.booked) hf h

theorem DoubleEntry.of_books (h : a.DoubleEntry) (hbooks : ∀ id, b.books id = a.books id)
    (ht1 : b.t1 = a.t1) (ht2 : b.t2 = a.t2) (hrounds : b.rounds = a.rounds) : b.DoubleEntry := by
  have hsame : ∀ (f : Booked → ℤ) id, f (b.books id) = f (a.books id) :=
    fun f id => congrArg f (hbooks id)
  refine ⟨?_, ?_, ?_, ?_, ?_, ?_, ?_, ?_⟩
  · have hdeaths : b.total (·.deaths) = a.total (·.deaths) :=
      total_of_books (f := Booked.deaths) rfl (hsame _)
    have hkills : b.total (·.kills) = a.total (·.kills) :=
      total_of_books (f := Booked.kills) rfl (hsame _)
    have hteam : b.total (·.teamKills) = a.total (·.teamKills) :=
      total_of_books (f := Booked.teamKills) rfl (hsame _)
    have hsuicides : b.total (·.suicides) = a.total (·.suicides) :=
      total_of_books (f := Booked.suicides) rfl (hsame _)
    rw [hdeaths, hkills, hteam, hsuicides]
    exact h.deaths
  · intro id
    have hle := h.headshots id
    have hheads := hsame Booked.headshotKills id
    have hkills := hsame Booked.kills id
    exact hheads.trans_le (hle.trans_eq hkills.symm)
  · intro id
    exact (hsame Booked.kastRounds id).trans_le
      ((h.kast id).trans_eq (hsame Booked.roundsPlayed id).symm)
  · intro id
    rw [hrounds]
    exact (hsame Booked.roundsPlayed id).trans_le (h.played id)
  · intro id
    rw [hrounds]
    exact (hsame (fun s => ∑ i, s.multiKills.get i) id).trans (h.multiKills id)
  · intro id
    rw [hrounds]
    exact (hsame (fun s => ∑ i, s.clutchesWon.get i) id).trans (h.clutches id)
  · rw [ht1, hrounds]
    exact h.score1
  · rw [ht2, hrounds]
    exact h.score2

end Totals

section Death

theorem one_of_three (a : StatsAccumulator) (victim attacker : ℕ) :
    (if a.Kill victim attacker then (1 : ℤ) else 0) +
      (if a.TeamKill victim attacker then 1 else 0) +
      (if Suicide victim attacker then 1 else 0) = 1 := by
  by_cases hs : Suicide victim attacker
  · simp [Kill, TeamKill, hs]
  by_cases hsame : a.sideOf attacker ≠ 0 ∧ a.sideOf attacker = a.sideOf victim
  · have hteam : a.TeamKill victim attacker := ⟨hs, hsame⟩
    have hkill : ¬a.Kill victim attacker := fun h => h.2 hsame
    simp [hs, hteam, hkill]
  · have hteam : ¬a.TeamKill victim attacker := fun h => hsame h.2
    have hkill : a.Kill victim attacker := ⟨hs, hsame⟩
    simp [hs, hteam, hkill]

theorem ite_and_swap (p q : Prop) [Decidable p] [Decidable q] :
    (if p ∧ q then (1 : ℤ) else 0) = if q then if p then 1 else 0 else 0 := by
  split_ifs <;> simp_all

theorem DoubleEntry.of_dies (h : a.DoubleEntry) {victim attacker : ℕ} {headshot : Bool}
    (hdies : a.Dies b victim attacker headshot) (hboard : b.board = a.board) : b.DoubleEntry := by
  simp only [board, Board.mk.injEq] at hboard
  obtain ⟨-, -, ht1, ht2, hrounds⟩ := hboard
  have hbooks := hdies.books
  have hclosing : ∀ id, (b.books id).kastRounds = (a.books id).kastRounds ∧
      (b.books id).roundsPlayed = (a.books id).roundsPlayed ∧
      (b.books id).multiKills = (a.books id).multiKills ∧
      (b.books id).clutchesWon = (a.books id).clutchesWon := by
    intro id
    rw [hbooks]
    exact ⟨rfl, rfl, rfl, rfl⟩
  refine ⟨?_, ?_, ?_, ?_, ?_, ?_, ?_, ?_⟩
  · have hdeaths : b.total (·.deaths) = a.total (·.deaths) + 1 :=
      total_of_books_add (f := Booked.deaths) rfl (k := victim) (by
        intro id
        rw [hbooks]
        rfl)
    have hsuicides :
        b.total (·.suicides) = a.total (·.suicides) + if Suicide victim attacker then 1 else 0 :=
      total_of_books_add (f := Booked.suicides) rfl (k := victim) (by
        intro id
        rw [hbooks]
        simp only [booksAfterDeath, ite_and_swap])
    have hteam :
        b.total (·.teamKills) = a.total (·.teamKills) +
          if a.TeamKill victim attacker then 1 else 0 :=
      total_of_books_add (f := Booked.teamKills) rfl (k := attacker) (by
        intro id
        rw [hbooks]
        simp only [booksAfterDeath, ite_and_swap])
    have hkills : b.total (·.kills) = a.total (·.kills) + if a.Kill victim attacker then 1 else 0 :=
      total_of_books_add (f := Booked.kills) rfl (k := attacker) (by
        intro id
        rw [hbooks]
        simp only [booksAfterDeath, ite_and_swap])
    have hone := one_of_three a victim attacker
    have hbefore := h.deaths
    omega
  · intro id
    have hle := h.headshots id
    have hheads : (b.players.read id).s.headshotKills = (a.players.read id).s.headshotKills +
        if a.Kill victim attacker ∧ headshot = true ∧ id = attacker then 1 else 0 :=
      congrArg Booked.headshotKills (hbooks id)
    have hkills : (b.players.read id).s.kills = (a.players.read id).s.kills +
        if a.Kill victim attacker ∧ id = attacker then 1 else 0 := congrArg Booked.kills (hbooks id)
    rw [hheads, hkills]
    by_cases hkill : a.Kill victim attacker ∧ id = attacker
    · rw [if_pos hkill]
      split_ifs <;> omega
    · rw [if_neg fun hc => hkill ⟨hc.1, hc.2.2⟩, if_neg hkill]
      exact add_le_add_left hle 0
  · intro id
    exact (hclosing id).1.trans_le ((h.kast id).trans_eq (hclosing id).2.1.symm)
  · intro id
    rw [hrounds]
    exact (hclosing id).2.1.trans_le (h.played id)
  · intro id
    rw [hrounds]
    exact (congrArg (fun v : Vector ℤ 5 => ∑ i, v.get i) (hclosing id).2.2.1).trans
      (h.multiKills id)
  · intro id
    rw [hrounds]
    exact (congrArg (fun v : Vector ℤ 5 => ∑ i, v.get i) (hclosing id).2.2.2).trans (h.clutches id)
  · rw [ht1, hrounds]
    exact h.score1
  · rw [ht2, hrounds]
    exact h.score2

end Death

section RoundEnd

theorem sum_updateAt (v : Vector ℤ 5) {n : ℤ} (h0 : 0 ≤ n) (h5 : n < 5) :
    ∑ i, (updateAt v n (· + 1)).get i = ∑ i, v.get i + 1 := by
  obtain ⟨k, rfl⟩ : ∃ k : Fin 5, (k : ℤ) = n := ⟨⟨n.toNat, by omega⟩, by simp [h0]⟩
  have hget : ∀ i, (updateAt v k (· + 1)).get i = v.get i + if i = k then 1 else 0 := by
    intro i
    have hi : ((i : ℤ) = k) = (i = k) := by simp [Fin.ext_iff]
    simp only [get_updateAt, hi]
    split_ifs <;> simp
  simp only [hget, Finset.sum_add_distrib]
  simp

theorem roundsWon_append (rs : List RoundSummary) (r : RoundSummary) (slot : ℤ) :
    roundsWon (rs ++ [r]) slot = roundsWon rs slot + if r.winnerTeam = slot then 1 else 0 := by
  unfold roundsWon
  rw [List.countP_append, List.countP_singleton]
  split_ifs <;> simp_all

theorem credit_score {t : TeamLine} {rs : List RoundSummary} {slot : ℤ}
    (h : t.score = roundsWon rs slot ∧ t.score = t.scoreCt + t.scoreT) (r : RoundSummary)
    (ct : Bool) :
    (if r.winnerTeam = slot then t.credit ct else t).score = roundsWon (rs ++ [r]) slot ∧
      (if r.winnerTeam = slot then t.credit ct else t).score =
        (if r.winnerTeam = slot then t.credit ct else t).scoreCt +
          (if r.winnerTeam = slot then t.credit ct else t).scoreT := by
  obtain ⟨hwon, hsides⟩ := h
  rw [roundsWon_append]
  by_cases hr : r.winnerTeam = slot
  · simp only [if_pos hr, TeamLine.credit]
    cases ct <;> simp only [Bool.false_eq_true, if_true, if_false] <;> omega
  · simp only [if_neg hr]
    omega

theorem DoubleEntry.onRoundEnd (h : a.DoubleEntry) (hok : a.RoundOk) (hlive : a.live = true)
    (winnerSide reason : ℤ) : (a.onRoundEnd winnerSide reason).DoubleEntry := by
  have hboard := onRoundEnd_board hlive winnerSide reason
  simp only [board, Board.mk.injEq] at hboard
  obtain ⟨-, -, ht1, ht2, hrounds⟩ := hboard
  have hbooks := onRoundEnd_books hlive winnerSide reason
  set b := a.onRoundEnd winnerSide reason
  have hsame : ∀ f : Booked → ℤ, (∀ id, f (a.booksAfterRound winnerSide id) = f (a.books id)) →
      ∀ id, f (b.books id) = f (a.books id) := by
    intro f hf id
    rw [hbooks, hf]
  have hplayed :
      ∀ id, (b.books id).roundsPlayed =
        (a.books id).roundsPlayed + if id ∈ a.round.side then 1 else 0 :=
    fun id => congrArg Booked.roundsPlayed (hbooks id)
  refine ⟨?_, ?_, ?_, ?_, ?_, ?_, ?_, ?_⟩
  · have hdeaths : b.total (·.deaths) = a.total (·.deaths) :=
      total_of_books (f := Booked.deaths) rfl (hsame _ fun _ => rfl)
    have hkills : b.total (·.kills) = a.total (·.kills) :=
      total_of_books (f := Booked.kills) rfl (hsame _ fun _ => rfl)
    have hteam : b.total (·.teamKills) = a.total (·.teamKills) :=
      total_of_books (f := Booked.teamKills) rfl (hsame _ fun _ => rfl)
    have hsuicides : b.total (·.suicides) = a.total (·.suicides) :=
      total_of_books (f := Booked.suicides) rfl (hsame _ fun _ => rfl)
    rw [hdeaths, hkills, hteam, hsuicides]
    exact h.deaths
  · intro id
    have hheads := hsame Booked.headshotKills (fun _ => rfl) id
    have hkills := hsame Booked.kills (fun _ => rfl) id
    exact hheads.trans_le ((h.headshots id).trans_eq hkills.symm)
  · intro id
    have hle := h.kast id
    have hkast : (b.books id).kastRounds = (a.books id).kastRounds +
        if id ∈ a.round.side ∧ ((a.record id).kast = true ∨ id ∉ a.round.dead) then 1 else 0 :=
      congrArg Booked.kastRounds (hbooks id)
    change (b.books id).kastRounds ≤ (b.books id).roundsPlayed
    change (a.books id).kastRounds ≤ (a.books id).roundsPlayed at hle
    rw [hkast, hplayed]
    by_cases hside : id ∈ a.round.side
    · rw [if_pos hside]
      split_ifs <;> omega
    · rw [if_neg hside, if_neg fun hc => hside hc.1]
      omega
  · intro id
    have hle := h.played id
    change (b.books id).roundsPlayed ≤ b.rounds.length
    change (a.books id).roundsPlayed ≤ a.rounds.length at hle
    rw [hplayed, hrounds, List.length_append, List.length_singleton]
    push_cast
    split_ifs <;> omega
  · intro id
    have hmulti : (b.books id).multiKills = if 0 < (a.record id).kills then
        updateAt (a.books id).multiKills (min (a.record id).kills 5 - 1) (· + 1)
          else (a.books id).multiKills :=
      congrArg Booked.multiKills (hbooks id)
    have hbefore : ∑ i, (a.books id).multiKills.get i = recordedRounds a.rounds id (0 < ·.kills) :=
      h.multiKills id
    change ∑ i, (b.books id).multiKills.get i = _
    rw [hmulti, hrounds, recordedRounds_append, ← hbefore]
    simp only [exists_kill_iff hok winnerSide reason id]
    by_cases hkill : 0 < (a.record id).kills
    · rw [if_pos hkill, if_pos hkill]
      exact sum_updateAt _ (by omega) (by omega)
    · rw [if_neg hkill, if_neg hkill, add_zero]
  · intro id
    have hwon : (b.books id).clutchesWon = if a.ClutchWon winnerSide id then
        updateAt (a.books id).clutchesWon ((a.record id).clutchVs - 1) (· + 1)
          else (a.books id).clutchesWon :=
      congrArg Booked.clutchesWon (hbooks id)
    have hbefore :
        ∑ i, (a.books id).clutchesWon.get i = recordedRounds a.rounds id (·.clutchWon = true) :=
          h.clutches id
    change ∑ i, (b.books id).clutchesWon.get i = _
    rw [hwon, hrounds, recordedRounds_append, ← hbefore]
    simp only [exists_clutch_iff hok winnerSide reason id]
    by_cases hclutch : a.ClutchWon winnerSide id
    · have hpos : 0 < (a.record id).clutchVs := hclutch.1
      have hmax := (hok.opened id).clutchVs
      rw [if_pos hclutch, if_pos hclutch]
      exact sum_updateAt _ (by omega) (by omega)
    · rw [if_neg hclutch, if_neg hclutch, add_zero]
  · rw [ht1, hrounds]
    exact credit_score h.score1 (a.summary winnerSide reason) (decide (winnerSide = 3))
  · rw [ht2, hrounds]
    exact credit_score h.score2 (a.summary winnerSide reason) (decide (winnerSide = 3))

end RoundEnd

/-! ## One call -/

section Calls

theorem doubleEntry_blank (hplayers : a.players = ∅) (ht1 : a.t1 = {}) (ht2 : a.t2 = {})
    (hrounds : a.rounds = []) : a.DoubleEntry := by
  have hread : ∀ id, a.players.read id = default := by
    intro id
    rw [hplayers]
    exact Table.read_empty id
  have htotal : ∀ f : PlayerStats → ℤ, a.total f = 0 := by
    intro f
    unfold total
    rw [hplayers]
    rfl
  refine ⟨?_, ?_, ?_, ?_, ?_, ?_, ?_, ?_⟩
  · simp only [htotal, add_zero]
  · intro id
    rw [hread]
    exact le_refl 0
  · intro id
    rw [hread]
    exact le_refl 0
  · intro id
    rw [hread, hrounds]
    exact le_refl 0
  · intro id
    rw [hread, hrounds]
    rfl
  · intro id
    rw [hread, hrounds]
    rfl
  · rw [ht1, hrounds]
    exact ⟨rfl, rfl⟩
  · rw [ht2, hrounds]
    exact ⟨rfl, rfl⟩

structure Sound (a : StatsAccumulator) : Prop where
  roundOk : a.RoundOk
  doubleEntry : a.DoubleEntry

theorem Sound.onPlayerDeath (h : a.Sound) (victim attacker assister : ℕ)
    (assistedFlash headshot : Bool) (weapon : String) (time : ℚ) :
    (a.onPlayerDeath victim attacker assister assistedFlash headshot weapon time).Sound := by
  by_cases hskip : (!a.live || victim == 0) = true
  · unfold StatsAccumulator.onPlayerDeath
    rw [if_pos hskip]
    exact h
  · simp only [Bool.or_eq_true, Bool.not_eq_eq_eq_not, Bool.not_true, beq_iff_eq, not_or,
      Bool.not_eq_false] at hskip
    obtain ⟨hlive, hvictim⟩ := hskip
    have hdies :=
      onPlayerDeath_dies hlive hvictim attacker assister assistedFlash headshot weapon time
    have hboard := onPlayerDeath_board a victim attacker assister assistedFlash headshot weapon time
    exact ⟨hdies.roundOk h.roundOk, h.doubleEntry.of_dies hdies hboard⟩

theorem Sound.onRoundEnd (h : a.Sound) (winnerSide reason : ℤ) :
    (a.onRoundEnd winnerSide reason).Sound := by
  by_cases hlive : a.live = true
  · refine ⟨?_, h.doubleEntry.onRoundEnd h.roundOk hlive winnerSide reason⟩
    rw [onRoundEnd_of_live hlive]
    exact roundOk_empty rfl
  · have hskip : a.onRoundEnd winnerSide reason = a := by
      unfold StatsAccumulator.onRoundEnd
      rw [if_pos (by simpa using hlive)]
    rw [hskip]
    exact h

theorem Sound.step (h : a.Sound) (op : StatsOp) : (a.step op).Sound := by
  by_cases hstart : op = .onRoundStart
  · subst hstart
    exact ⟨roundOk_empty rfl, h.doubleEntry.of_books (fun _ => rfl) rfl rfl rfl⟩
  by_cases hdeath : ∃ victim attacker assister assistedFlash headshot weapon time,
      op = .onPlayerDeath victim attacker assister assistedFlash headshot weapon time
  · obtain ⟨victim, attacker, assister, assistedFlash, headshot, weapon, time, rfl⟩ := hdeath
    exact h.onPlayerDeath victim attacker assister assistedFlash headshot weapon time
  by_cases hend : ∃ winnerSide reason, op = .onRoundEnd winnerSide reason
  · obtain ⟨winnerSide, reason, rfl⟩ := hend
    exact h.onRoundEnd winnerSide reason
  push Not at hdeath hend
  have hsame := a.step_sameBooks hstart hdeath hend
  have hboard := step_board a op hend
  simp only [board, Board.mk.injEq] at hboard
  obtain ⟨-, -, ht1, ht2, hrounds⟩ := hboard
  exact ⟨hsame.roundOk h.roundOk, h.doubleEntry.of_books hsame.books ht1 ht2 hrounds⟩

theorem read_restore_snapshot (a : StatsAccumulator) (id : ℕ) :
    (restore a.snapshot).players.read id = a.players.read id := by
  have hlookup : (restore a.snapshot).players.lookup id = a.players.lookup id := by
    unfold restore
    rw [lookup_foldl_restoreLine a.snapshot_players_nodup, find?_snapshot]
    cases a.players.lookup id with
    | none => rfl
    | some p => rfl
  unfold Table.read
  rw [hlookup]

theorem DoubleEntry.restore_snapshot (h : a.DoubleEntry) : (restore a.snapshot).DoubleEntry := by
  refine h.of_books ?_ rfl rfl rfl
  intro id
  unfold books
  rw [read_restore_snapshot]

end Calls

end StatsAccumulator

/-! ## Whole runs -/

/-- The calls of the accumulator; a restore takes one of the snapshots made before. -/
inductive StatsCall where
  | event (op : StatsOp)
  | beginMap (team1IsCt : Bool)
  | endMap
  | clear
  | setTeam1IsCt (team1IsCt : Bool)
  | snapshot
  | restore (i : ℕ)

/-- The accumulator and the snapshots that were taken of it. -/
structure Recorder where
  acc : StatsAccumulator
  snapshots : List MapStats := []

namespace Recorder

open StatsAccumulator

def step (s : Recorder) : StatsCall → Recorder
  | .event op => { s with acc := s.acc.step op }
  | .beginMap team1IsCt => { s with acc := s.acc.beginMap team1IsCt }
  | .endMap => { s with acc := s.acc.endMap }
  | .clear => { s with acc := s.acc.clear }
  | .setTeam1IsCt team1IsCt => { s with acc := s.acc.setTeam1IsCt team1IsCt }
  | .snapshot => { s with snapshots := s.snapshots ++ [s.acc.snapshot] }
  | .restore i => { s with acc := (s.snapshots[i]?.map restore).getD s.acc }

/-- The accumulator balances, and so did it whenever a snapshot was taken. -/
structure Sound (s : Recorder) : Prop where
  acc : s.acc.Sound
  snapshots : ∀ m ∈ s.snapshots, ∃ a : StatsAccumulator, a.DoubleEntry ∧ m = a.snapshot

variable {s : Recorder}

theorem sound_beginMap (a : StatsAccumulator) (team1IsCt : Bool) :
    (⟨a.beginMap team1IsCt, []⟩ : Recorder).Sound :=
  ⟨⟨roundOk_empty rfl, doubleEntry_blank rfl rfl rfl rfl⟩, fun m hm => by cases hm⟩

theorem Sound.step (h : s.Sound) (call : StatsCall) : (s.step call).Sound := by
  cases call with
  | event op => exact ⟨h.acc.step op, h.snapshots⟩
  | beginMap team1IsCt =>
    exact ⟨⟨roundOk_empty rfl, doubleEntry_blank rfl rfl rfl rfl⟩, h.snapshots⟩
  | endMap =>
    obtain ⟨⟨hopened, hstamped, hentry⟩, hbalance⟩ := h.acc
    exact ⟨⟨⟨hopened, hstamped, hentry⟩, hbalance.of_books (fun _ => rfl) rfl rfl rfl⟩, h.snapshots⟩
  | clear =>
    exact ⟨⟨roundOk_empty rfl, doubleEntry_blank rfl rfl rfl rfl⟩, h.snapshots⟩
  | setTeam1IsCt team1IsCt =>
    obtain ⟨⟨hopened, hstamped, hentry⟩, hbalance⟩ := h.acc
    exact ⟨⟨⟨hopened, hstamped, hentry⟩, hbalance.of_books (fun _ => rfl) rfl rfl rfl⟩, h.snapshots⟩
  | snapshot =>
    refine ⟨h.acc, ?_⟩
    intro m hm
    rcases List.mem_append.mp hm with hm | hm
    · exact h.snapshots m hm
    · exact ⟨s.acc, h.acc.doubleEntry, List.mem_singleton.mp hm⟩
  | restore i =>
    refine ⟨?_, h.snapshots⟩
    change ((s.snapshots[i]?.map StatsAccumulator.restore).getD s.acc).Sound
    cases hi : s.snapshots[i]? with
    | none => exact h.acc
    | some m =>
      obtain ⟨a, ha, rfl⟩ := h.snapshots m (List.mem_of_getElem? hi)
      exact ⟨roundOk_empty rfl, ha.restore_snapshot⟩

theorem Sound.run (h : s.Sound) (calls : List StatsCall) :
    (Support.run Recorder.step s calls).Sound :=
  run_invariant h fun call _ _ hs => hs.step call

end Recorder

/-- The totals balance after every run of calls, restores of earlier snapshots included. -/
theorem run_doubleEntry (a : StatsAccumulator) (team1IsCt : Bool) (calls : List StatsCall) :
    (run Recorder.step ⟨a.beginMap team1IsCt, []⟩ calls).acc.DoubleEntry :=
  ((Recorder.sound_beginMap a team1IsCt).run calls).acc.doubleEntry

end ReadyUp.Stats
