import ReadyUp.Match.DoubleEntry

/-!
# The score at a round

Two functions answer what the score was when a round started: one reads it in the summary of the
round before, the other takes the later rounds back. The summaries of a run hold the tally of the
rounds up to them, so the answers agree, and they still do after a round has been restored.
-/
namespace ReadyUp.Stats

open ReadyUp.Support

/-- The map score at the start of a round; nothing where the model does not have the round
before. -/
def scoreAtRoundStart (m : MapStats) (round : ℤ) : Option (ℤ × ℤ) :=
  if round = 1 then some (0, 0)
  else (m.rounds.find? (·.roundNumber = round - 1)).map fun r => (r.team1Score, r.team2Score)

/-- Every summary holds the score after its round. -/
def Scored (rs : List RoundSummary) : Prop :=
  ∀ i (h : i < rs.length),
    (rs[i]).team1Score = (tally 1 (rs.take (i + 1))).score ∧
    (rs[i]).team2Score = (tally 2 (rs.take (i + 1))).score

/-- Two team lines and the rounds behind them. -/
structure Posted (t1 t2 : TeamLine) (rs : List RoundSummary) : Prop where
  numbered : Numbered rs
  team1 : t1 = tally 1 rs
  team2 : t2 = tally 2 rs
  scored : Scored rs

theorem posted_nil : Posted {} {} [] :=
  ⟨fun i hi => absurd hi (Nat.not_lt_zero i), rfl, rfl, fun i hi => absurd hi (Nat.not_lt_zero i)⟩

theorem Numbered.find? {rs : List RoundSummary} (h : Numbered rs) {n : ℕ} (hn : n < rs.length) :
    rs.find? (·.roundNumber = (n : ℤ) + 1) = some rs[n] := by
  rw [List.find?_eq_some_iff_getElem]
  refine ⟨by simp [h n hn], n, hn, rfl, ?_⟩
  intro j hj
  have hnumber := h j (by omega)
  simp only [hnumber, Bool.not_eq_eq_eq_not, Bool.not_true, decide_eq_false_iff_not]
  omega

theorem Scored.take {rs : List RoundSummary} (h : Scored rs) (n : ℕ) : Scored (rs.take n) := by
  intro i hi
  have hlen : i < rs.length ∧ i < n := by
    rw [List.length_take] at hi
    omega
  have htake : (rs.take n).take (i + 1) = rs.take (i + 1) := by
    rw [List.take_take, min_eq_left (by omega)]
  rw [htake, List.getElem_take]
  exact h i hlen.1

theorem Scored.append {rs : List RoundSummary} (h : Scored rs) {r : RoundSummary}
    (h1 : r.team1Score = (tally 1 (rs ++ [r])).score)
    (h2 : r.team2Score = (tally 2 (rs ++ [r])).score) : Scored (rs ++ [r]) := by
  intro i hi
  by_cases hlt : i < rs.length
  · rw [List.getElem_append_left hlt, List.take_append_of_le_length (by omega)]
    exact h i hlt
  · have hlast : i = rs.length := by
      rw [List.length_append, List.length_singleton] at hi
      omega
    subst hlast
    rw [List.getElem_append_right (le_refl _), List.take_of_length_le (by simp)]
    simpa using And.intro h1 h2

variable {m : MapStats}

theorem Posted.rewindTo_succ (h : Posted m.team1 m.team2 m.rounds) (n : ℕ) :
    (rewindTo m (n + 1)).1.team1 = tally 1 (m.rounds.take n) ∧
      (rewindTo m (n + 1)).1.team2 = tally 2 (m.rounds.take n) ∧
      (rewindTo m (n + 1)).1.rounds = m.rounds.take n := by
  rw [rewindTo_eq h.numbered]
  have htally := foldl_takeBack_tally (m.rounds.take n) (m.rounds.drop n)
    { m with team1IsCt := sideAt m (m.rounds.drop n) }
    (by rw [List.take_append_drop]; exact h.team1) (by rw [List.take_append_drop]; exact h.team2)
  exact ⟨htally.1, htally.2, rfl⟩

theorem Posted.rewindTo (h : Posted m.team1 m.team2 m.rounds) (k : ℤ) :
    Posted (rewindTo m k).1.team1 (rewindTo m k).1.team2 (rewindTo m k).1.rounds := by
  by_cases hk : k < 1
  · unfold ReadyUp.Stats.rewindTo
    rw [if_pos hk]
    exact h
  · obtain ⟨n, rfl⟩ : ∃ n : ℕ, k = n + 1 := ⟨(k - 1).toNat, by omega⟩
    obtain ⟨h1, h2, hrounds⟩ := h.rewindTo_succ n
    rw [h1, h2, hrounds]
    exact ⟨numbered_take h.numbered n, rfl, rfl, h.scored.take n⟩

/-- What the summary of the round before says is what taking the later rounds back leaves. -/
theorem Posted.scoreAtRoundStart (h : Posted m.team1 m.team2 m.rounds) {k : ℤ} (hk : 1 ≤ k)
    (hlast : k ≤ m.rounds.length + 1) :
    scoreAtRoundStart m k = some ((ReadyUp.Stats.rewindTo m k).1.team1.score,
      (ReadyUp.Stats.rewindTo m k).1.team2.score) := by
  obtain ⟨n, rfl⟩ : ∃ n : ℕ, k = n + 1 := ⟨(k - 1).toNat, by omega⟩
  obtain ⟨h1, h2, -⟩ := h.rewindTo_succ n
  rw [h1, h2]
  unfold ReadyUp.Stats.scoreAtRoundStart
  cases n with
  | zero => simp [tally]
  | succ n =>
    have hn : n < m.rounds.length := by
      push_cast at hlast
      omega
    obtain ⟨hscore1, hscore2⟩ := h.scored n hn
    have hprev : ((n + 1 : ℕ) : ℤ) + 1 - 1 = n + 1 := by
      push_cast
      omega
    rw [if_neg (by push_cast; omega), hprev, h.numbered.find? hn, Option.map_some, hscore1, hscore2]

/-! ## Whole runs -/

namespace StatsAccumulator

theorem posted_onRoundEnd {a : StatsAccumulator} (h : Posted a.t1 a.t2 a.rounds)
    (hlive : a.live = true) (winnerSide reason : ℤ) :
    Posted (a.onRoundEnd winnerSide reason).t1 (a.onRoundEnd winnerSide reason).t2
      (a.onRoundEnd winnerSide reason).rounds := by
  have hboard := onRoundEnd_board hlive winnerSide reason
  simp only [board, Board.mk.injEq] at hboard
  obtain ⟨-, -, ht1, ht2, hrounds⟩ := hboard
  obtain ⟨htally1, htally2⟩ := creditRound_tally h.team1 h.team2 winnerSide reason
  rw [ht1, ht2, hrounds]
  exact ⟨h.numbered.append rfl, htally1, htally2,
    h.scored.append (congrArg TeamLine.score htally1) (congrArg TeamLine.score htally2)⟩

theorem posted_step {a : StatsAccumulator} (h : Posted a.t1 a.t2 a.rounds) (op : StatsOp) :
    Posted (a.step op).t1 (a.step op).t2 (a.step op).rounds := by
  by_cases hend : ∃ winnerSide reason, op = .onRoundEnd winnerSide reason
  · obtain ⟨winnerSide, reason, rfl⟩ := hend
    by_cases hlive : a.live = true
    · exact posted_onRoundEnd h hlive winnerSide reason
    · have hskip : a.step (.onRoundEnd winnerSide reason) = a := by
        simp only [step, onRoundEnd]
        rw [if_pos (by simpa using hlive)]
      rw [hskip]
      exact h
  · push Not at hend
    have hboard := step_board a op hend
    simp only [board, Board.mk.injEq] at hboard
    obtain ⟨-, -, ht1, ht2, hrounds⟩ := hboard
    rw [ht1, ht2, hrounds]
    exact h

end StatsAccumulator

/-- The calls of a run, with the restore of a round of a snapshot among them. -/
inductive RestoreCall where
  | call (c : StatsCall)
  | restoreRound (i : ℕ) (fromRound : ℤ)

namespace Recorder

open StatsAccumulator

def replay (s : Recorder) : RestoreCall → Recorder
  | .call c => s.step c
  | .restoreRound i fromRound =>
    { s with acc := (s.snapshots[i]?.map fun m => restore (rewindTo m fromRound).1).getD s.acc }

/-- The lines and the rounds agree, now and in every snapshot. -/
structure ScoresPosted (s : Recorder) : Prop where
  acc : Posted s.acc.t1 s.acc.t2 s.acc.rounds
  snapshots : ∀ m ∈ s.snapshots, Posted m.team1 m.team2 m.rounds

theorem ScoresPosted.step {s : Recorder} (h : s.ScoresPosted) (c : StatsCall) :
    (s.step c).ScoresPosted := by
  cases c with
  | event op => exact ⟨posted_step h.acc op, h.snapshots⟩
  | beginMap team1IsCt => exact ⟨posted_nil, h.snapshots⟩
  | endMap => exact ⟨h.acc, h.snapshots⟩
  | clear => exact ⟨posted_nil, h.snapshots⟩
  | setTeam1IsCt team1IsCt => exact ⟨h.acc, h.snapshots⟩
  | snapshot =>
    refine ⟨h.acc, ?_⟩
    intro m hm
    rcases List.mem_append.mp hm with hm | hm
    · exact h.snapshots m hm
    · rw [List.mem_singleton.mp hm]
      exact h.acc
  | restore i =>
    refine ⟨?_, h.snapshots⟩
    simp only [Recorder.step]
    cases hi : s.snapshots[i]? with
    | none => exact h.acc
    | some m => exact h.snapshots m (List.mem_of_getElem? hi)

theorem ScoresPosted.replay {s : Recorder} (h : s.ScoresPosted) (c : RestoreCall) :
    (s.replay c).ScoresPosted := by
  cases c with
  | call c => exact h.step c
  | restoreRound i fromRound =>
    refine ⟨?_, h.snapshots⟩
    simp only [Recorder.replay]
    cases hi : s.snapshots[i]? with
    | none => exact h.acc
    | some m => exact (h.snapshots m (List.mem_of_getElem? hi)).rewindTo fromRound

end Recorder

open StatsAccumulator in
/-- The score of a recorded round and the score after a rewind to it are one. -/
theorem scoreAtRoundStart_eq_rewindTo (a : StatsAccumulator) (team1IsCt : Bool)
    (calls : List RestoreCall)
    (m : MapStats) (hm : m = (run Recorder.replay ⟨a.beginMap team1IsCt, []⟩ calls).acc.snapshot)
    (k : ℤ) (hk : 1 ≤ k) (hlast : k ≤ m.rounds.length + 1) :
    scoreAtRoundStart m k = some ((rewindTo m k).1.team1.score, (rewindTo m k).1.team2.score) := by
  have hstart : (⟨a.beginMap team1IsCt, []⟩ : Recorder).ScoresPosted :=
    ⟨posted_nil, fun m hm => by cases hm⟩
  have hrun : (run Recorder.replay ⟨a.beginMap team1IsCt, []⟩ calls).ScoresPosted :=
    run_invariant hstart fun c _ _ hs => hs.replay c
  subst hm
  exact Posted.scoreAtRoundStart hrun.acc hk hlast

/-- Two rounds won on different sides, with a swap and a restore of the second between them. -/
theorem scoreAtRoundStart_eq_rewindTo_swapped :
    scoreAtRoundStart (run Recorder.replay ⟨StatsAccumulator.beginMap {} true, []⟩
        [.call (.event (.onRoundEnd 3 8)), .call (.setTeam1IsCt false),
          .call (.event (.onRoundEnd 3 8)),
          .call .snapshot, .restoreRound 0 2, .call (.event (.onRoundEnd 2 8))]).acc.snapshot 2 =
            some (1, 0) :=
  (scoreAtRoundStart_eq_rewindTo {} true _ _ rfl 2 (by decide) (by decide)).trans (by decide)

end ReadyUp.Stats
