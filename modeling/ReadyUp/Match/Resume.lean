import Mathlib.Data.List.Induction
import ReadyUp.Match.ScoreLedger

/-!
# Restores and failover resumes in the stats model

`DoRestoreNow` rewinds the model and may then put a score given from outside over the one it
computed. `RunResumeRestore` goes first on a fresh server and seeds the model, with the rounds
the platform has kept or with a bare score. Round numbers come from the list of rounds and the
score from the team lines; a seed or a score that does not belong to the rounds on record
separates the two for the rest of the map.
-/
namespace ReadyUp.Stats

open ReadyUp.Support

/-- The score given from outside, when both halves of it are known. -/
def MapStats.overrideScore (m : MapStats) (scoreT1 scoreT2 : ℤ) : MapStats :=
  if 0 ≤ scoreT1 ∧ 0 ≤ scoreT2 then
    { m with
      team1 := { m.team1 with score := scoreT1 }
      team2 := { m.team2 with score := scoreT2 } }
  else m

/-- What `DoRestoreNow` does to the stats model. -/
def StatsAccumulator.restoreRound (a : StatsAccumulator) (round scoreT1 scoreT2 : ℤ) :
    StatsAccumulator :=
  .restore ((rewindTo a.snapshot round).1.overrideScore scoreT1 scoreT2)

/-- `fs::ResumePlan`. `mapStats` is what `stats::FromJson` makes of the platform's `map_stats`,
and -1 stands for an unknown score. -/
structure ResumePlan where
  mapNumber : ℤ := 1
  round : ℤ := 1
  mapStats : Option MapStats := none
  scoreTeam1 : ℤ := -1
  scoreTeam2 : ℤ := -1
  team1Side : String := ""
  deriving DecidableEq, Repr

/-- The seed of `RunResumeRestore`. -/
def ResumePlan.seed (g : ResumePlan) (a : StatsAccumulator) : MapStats :=
  let seed :=
    match g.mapStats with
    | some m => m
    | none =>
      { a.snapshot with
        rounds := []
        team1 := if 0 ≤ g.scoreTeam1 then { score := g.scoreTeam1 } else {}
        team2 := if 0 ≤ g.scoreTeam1 then { score := g.scoreTeam2 } else {} }
  { seed with
    live := true
    team1IsCt := if g.team1Side = "" then seed.team1IsCt else g.team1Side == "ct" }

/-- `RunResumeRestore`. Between the end of a round and the next round start the restore itself
is put off. -/
def StatsAccumulator.runResumeRestore (a : StatsAccumulator) (g : ResumePlan) (roundOver : Bool) :
    StatsAccumulator :=
  let a := restore (g.seed a)
  if roundOver then a else a.restoreRound g.round g.scoreTeam1 g.scoreTeam2

inductive MapStart where
  | beginMap (team1IsCt : Bool)
  | resume (plan : ResumePlan) (roundOver : Bool)
  deriving DecidableEq, Repr

def MapStart.apply (a : StatsAccumulator) : MapStart → StatsAccumulator
  | .beginMap team1IsCt => a.beginMap team1IsCt
  | .resume plan roundOver => a.runResumeRestore plan roundOver

/-- What happens to the model of a live map: the game events, the sides synced at each of
them, and restores. -/
inductive LedgerOp where
  | stats (op : StatsOp)
  | setTeam1IsCt (team1IsCt : Bool)
  | restore (round scoreT1 scoreT2 : ℤ)
  deriving DecidableEq, Repr

def StatsAccumulator.ledgerStep (a : StatsAccumulator) : LedgerOp → StatsAccumulator
  | .stats op => a.step op
  | .setTeam1IsCt team1IsCt => a.setTeam1IsCt team1IsCt
  | .restore round scoreT1 scoreT2 => a.restoreRound round scoreT1 scoreT2

/-! ## When score and rounds stay together -/

def keptRounds (rs : List RoundSummary) (round : ℤ) : List RoundSummary :=
  if round < 1 then rs else rs.take (round - 1).toNat

/-- A score from outside is absent or the score of these rounds. -/
def ScoreOf (rs : List RoundSummary) (scoreT1 scoreT2 : ℤ) : Prop :=
  scoreT1 < 0 ∨ scoreT2 < 0 ∨ scoreT1 = (tally 1 rs).score ∧ scoreT2 = (tally 2 rs).score

/-- Every round was won by one of the teams. -/
def AllDecided (rs : List RoundSummary) : Prop := ∀ r ∈ rs, r.winnerTeam = 1 ∨ r.winnerTeam = 2

/-- A seed that carries the rounds behind its score. -/
def ResumePlan.Consistent (g : ResumePlan) : Prop :=
  match g.mapStats with
  | some m =>
    Numbered m.rounds ∧ AllDecided m.rounds ∧ m.team1 = tally 1 m.rounds ∧
      m.team2 = tally 2 m.rounds ∧ ScoreOf (keptRounds m.rounds g.round) g.scoreTeam1 g.scoreTeam2
  | none => g.scoreTeam1 < 0 ∨ g.scoreTeam1 = 0 ∧ g.scoreTeam2 = 0

def MapStart.Consistent : MapStart → Prop
  | .beginMap _ => True
  | .resume plan _ => plan.Consistent

/-- Rounds are decided, and a score that comes with a restore is the one on record. -/
def StatsAccumulator.Consistent (a : StatsAccumulator) : LedgerOp → Prop
  | .stats (.onRoundEnd winnerSide _) => IsSide winnerSide
  | .restore round scoreT1 scoreT2 => ScoreOf (keptRounds a.rounds round) scoreT1 scoreT2
  | _ => True

instance (rs : List RoundSummary) (scoreT1 scoreT2 : ℤ) : Decidable (ScoreOf rs scoreT1 scoreT2) :=
  inferInstanceAs (Decidable (_ ∨ _))

instance (rs : List RoundSummary) : Decidable (AllDecided rs) :=
  inferInstanceAs (Decidable (∀ r ∈ rs, _))

instance (a : StatsAccumulator) : ∀ op, Decidable (a.Consistent op)
  | .stats (.onRoundEnd winnerSide _) => inferInstanceAs (Decidable (IsSide winnerSide))
  | .restore round scoreT1 scoreT2 =>
    inferInstanceAs (Decidable (ScoreOf (keptRounds a.rounds round) scoreT1 scoreT2))
  | .setTeam1IsCt _ | .stats .onRoundStart | .stats (.observePlayer ..)
  | .stats (.onPlayerDeath ..) | .stats (.onPlayerHurt ..) | .stats (.onPlayerBlind ..)
  | .stats (.onBombPlanted ..) | .stats (.onBombDefused ..) | .stats (.onRoundMvp ..)
  | .stats (.setScore ..) | .stats (.setMoneyStart ..) | .stats (.setLoadout ..) =>
    inferInstanceAs (Decidable True)

namespace StatsAccumulator

/-- The ledger of a map whose rounds are all decided. -/
structure Settled (a : StatsAccumulator) : Prop where
  ledger : a.Ledger
  decided : AllDecided a.rounds

end StatsAccumulator

theorem tally_score_add {rs : List RoundSummary} (h : AllDecided rs) :
    (tally 1 rs).score + (tally 2 rs).score = rs.length := by
  induction rs with
  | nil => rfl
  | cons r rs ih =>
    have ih := ih fun r' hr' => h r' (List.mem_cons_of_mem _ hr')
    simp only [tally] at ih ⊢
    rcases h r List.mem_cons_self with hr | hr <;> simp [hr] <;> omega

theorem tally_score_split (slot : ℤ) (rs : List RoundSummary) :
    (tally slot rs).score = (tally slot rs).scoreCt + (tally slot rs).scoreT := by
  induction rs using List.reverseRecOn with
  | nil => rfl
  | append_singleton rs r ih =>
    rw [tally_append]
    split_ifs
    · cases r.winnerCt <;> simp only [TeamLine.credit] <;> simp <;> omega
    · exact ih

theorem rewindTo_rounds {m : MapStats} (hm : Numbered m.rounds) (round : ℤ) :
    (rewindTo m round).1.rounds = keptRounds m.rounds round := by
  unfold keptRounds
  split_ifs with h
  · simp [rewindTo, h]
  · obtain ⟨n, rfl⟩ : ∃ n : ℕ, round = n + 1 := ⟨(round - 1).toNat, by omega⟩
    rw [rewindTo_eq hm]
    simp

theorem rewindTo_teams {m : MapStats} (hm : Numbered m.rounds) (h1 : m.team1 = tally 1 m.rounds)
    (h2 : m.team2 = tally 2 m.rounds) (round : ℤ) :
    (rewindTo m round).1.team1 = tally 1 (keptRounds m.rounds round) ∧
      (rewindTo m round).1.team2 = tally 2 (keptRounds m.rounds round) ∧
      (rewindTo m round).1.live = m.live := by
  unfold keptRounds
  split_ifs with h
  · simp [rewindTo, h, h1, h2]
  · obtain ⟨n, rfl⟩ : ∃ n : ℕ, round = n + 1 := ⟨(round - 1).toNat, by omega⟩
    rw [rewindTo_eq hm, show ((n : ℤ) + 1 - 1).toNat = n by omega]
    have hsplit := List.take_append_drop n m.rounds
    obtain ⟨ht1, ht2⟩ := foldl_takeBack_tally (m.rounds.take n) (m.rounds.drop n)
      { m with team1IsCt := sideAt m (m.rounds.drop n) } (by rw [hsplit]; exact h1)
      (by rw [hsplit]; exact h2)
    exact ⟨ht1, ht2, (foldl_takeBack_frame _ _).1⟩

/-- Putting the score on record over itself changes nothing. -/
theorem overrideScore_of_scoreOf {m : MapStats} {rs : List RoundSummary} {scoreT1 scoreT2 : ℤ}
    (h1 : m.team1 = tally 1 rs) (h2 : m.team2 = tally 2 rs) (h : ScoreOf rs scoreT1 scoreT2) :
    m.overrideScore scoreT1 scoreT2 = m := by
  unfold MapStats.overrideScore
  split_ifs with hpos
  · rcases h with hneg | hneg | ⟨hs1, hs2⟩
    · omega
    · omega
    · rw [hs1, hs2, ← h1, ← h2]
  · rfl

namespace StatsAccumulator

theorem Settled.restoreRound {a : StatsAccumulator} (h : a.Settled) {round scoreT1 scoreT2 : ℤ}
    (hscore : ScoreOf (keptRounds a.rounds round) scoreT1 scoreT2) :
    (a.restoreRound round scoreT1 scoreT2).Settled ∧
      (a.restoreRound round scoreT1 scoreT2).rounds = keptRounds a.rounds round := by
  have hnum : Numbered a.snapshot.rounds := h.ledger.numbered
  have hrounds := rewindTo_rounds hnum round
  obtain ⟨h1, h2, hlive⟩ := rewindTo_teams hnum h.ledger.team1 h.ledger.team2 round
  have hkept : ∀ r ∈ keptRounds a.rounds round, r ∈ a.rounds := by
    unfold keptRounds
    split_ifs
    · exact fun r hr => hr
    · exact fun r hr => List.mem_of_mem_take hr
  have hnumbered : Numbered (keptRounds a.rounds round) := by
    unfold keptRounds
    split_ifs
    · exact h.ledger.numbered
    · exact numbered_take h.ledger.numbered _
  rw [StatsAccumulator.restoreRound, overrideScore_of_scoreOf h1 h2 hscore]
  refine ⟨⟨⟨?_, ?_, ?_, ?_⟩, ?_⟩, hrounds⟩
  · exact hlive.trans h.ledger.live
  · change Numbered (rewindTo a.snapshot round).1.rounds
    rw [hrounds]
    exact hnumbered
  · exact h1.trans (by rw [← hrounds]; rfl)
  · exact h2.trans (by rw [← hrounds]; rfl)
  · intro r hr
    have hr : r ∈ (rewindTo a.snapshot round).1.rounds := hr
    rw [hrounds] at hr
    exact h.decided r (hkept r hr)

theorem settled_seed (a : StatsAccumulator) {g : ResumePlan} (hg : g.Consistent) :
    (restore (g.seed a)).Settled ∧
      ScoreOf (keptRounds (restore (g.seed a)).rounds g.round) g.scoreTeam1 g.scoreTeam2 := by
  unfold ResumePlan.Consistent at hg
  cases hm : g.mapStats with
  | some m =>
    simp only [hm] at hg
    obtain ⟨hnum, hdecided, h1, h2, hscore⟩ := hg
    have hrounds : (restore (g.seed a)).rounds = m.rounds := by
      simp [restore, ResumePlan.seed, hm]
    refine ⟨⟨⟨rfl, hrounds ▸ hnum, ?_, ?_⟩, hrounds ▸ hdecided⟩, hrounds ▸ hscore⟩
    · rw [hrounds, ← h1]
      simp [restore, ResumePlan.seed, hm]
    · rw [hrounds, ← h2]
      simp [restore, ResumePlan.seed, hm]
  | none =>
    simp only [hm] at hg
    have hrounds : (restore (g.seed a)).rounds = [] := by
      simp [restore, ResumePlan.seed, hm]
    have hlines : (restore (g.seed a)).t1 = {} ∧ (restore (g.seed a)).t2 = {} := by
      simp only [restore, ResumePlan.seed, hm]
      split_ifs with hs
      · rcases hg with hneg | ⟨hs1, hs2⟩
        · omega
        · simp [hs1, hs2]
      · exact ⟨rfl, rfl⟩
    refine ⟨⟨⟨rfl, ?_, ?_, ?_⟩, ?_⟩, ?_⟩ <;> rw [hrounds]
    · exact fun i hi => absurd hi (Nat.not_lt_zero i)
    · exact hlines.1
    · exact hlines.2
    · exact fun r hr => by cases hr
    · have hnil : keptRounds [] g.round = [] := by simp [keptRounds]
      rw [hnil]
      exact hg.imp id fun h => .inr h

theorem settled_start (a : StatsAccumulator) {s : MapStart} (hs : s.Consistent) :
    (s.apply a).Settled := by
  cases s with
  | beginMap team1IsCt => exact ⟨ledger_beginMap a team1IsCt, fun r hr => by cases hr⟩
  | resume plan roundOver =>
    obtain ⟨hseed, hscore⟩ := settled_seed a hs
    simp only [MapStart.apply, runResumeRestore]
    split_ifs
    · exact hseed
    · exact (hseed.restoreRound hscore).1

theorem slotForSide_of_isSide (a : StatsAccumulator) {side : ℤ} (h : IsSide side) :
    a.slotForSide side = 1 ∨ a.slotForSide side = 2 := by
  rcases h with rfl | rfl <;> cases hct : a.team1IsCt <;> simp [slotForSide, hct]

theorem Settled.ledgerStep {a : StatsAccumulator} (h : a.Settled) {op : LedgerOp}
    (hop : a.Consistent op) : (a.ledgerStep op).Settled := by
  cases op with
  | setTeam1IsCt team1IsCt =>
    exact ⟨⟨h.ledger.live, h.ledger.numbered, h.ledger.team1, h.ledger.team2⟩, h.decided⟩
  | restore round scoreT1 scoreT2 => exact (h.restoreRound hop).1
  | stats op =>
    refine ⟨h.ledger.step op, ?_⟩
    by_cases hend : ∃ winnerSide reason, op = .onRoundEnd winnerSide reason
    · obtain ⟨winnerSide, reason, rfl⟩ := hend
      have hrounds := congrArg Board.rounds (onRoundEnd_board h.ledger.live winnerSide reason)
      simp only [board] at hrounds
      intro r hr
      simp only [StatsAccumulator.ledgerStep, step, hrounds] at hr
      rcases List.mem_append.mp hr with hr | hr
      · exact h.decided r hr
      · rw [List.mem_singleton.mp hr]
        exact a.slotForSide_of_isSide hop
    · push Not at hend
      have hrounds := congrArg Board.rounds (step_board a op hend)
      simp only [board] at hrounds
      exact fun r hr => h.decided r (hrounds ▸ hr)

/-- What the numbering of rounds and the score owe each other. -/
structure InStep (a : StatsAccumulator) : Prop where
  nextRound : ∀ winnerSide reason, ∃ r,
    (a.onRoundEnd winnerSide reason).rounds = a.rounds ++ [r] ∧
      r.roundNumber = a.t1.score + a.t2.score + 1
  team1Split : a.t1.score = a.t1.scoreCt + a.t1.scoreT
  team2Split : a.t2.score = a.t2.scoreCt + a.t2.scoreT
  rewound : ∀ k, 1 ≤ k → k ≤ a.t1.score + a.t2.score + 1 →
    (rewindTo a.snapshot k).1.team1.score + (rewindTo a.snapshot k).1.team2.score = k - 1

theorem Settled.score_add {a : StatsAccumulator} (h : a.Settled) :
    a.t1.score + a.t2.score = a.rounds.length := by
  rw [h.ledger.team1, h.ledger.team2]
  exact tally_score_add h.decided

theorem Settled.inStep {a : StatsAccumulator} (h : a.Settled) : a.InStep where
  nextRound winnerSide reason := by
    have hrounds := congrArg Board.rounds (onRoundEnd_board h.ledger.live winnerSide reason)
    refine ⟨a.summary winnerSide reason, hrounds, ?_⟩
    rw [h.score_add]
    rfl
  team1Split := by rw [h.ledger.team1, tally_score_split]
  team2Split := by rw [h.ledger.team2, tally_score_split]
  rewound k hk1 hk2 := by
    have hnum : Numbered a.snapshot.rounds := h.ledger.numbered
    obtain ⟨h1, h2, -⟩ := rewindTo_teams hnum h.ledger.team1 h.ledger.team2 k
    rw [h.score_add] at hk2
    have hkept : keptRounds a.rounds k = a.rounds.take (k - 1).toNat := by
      rw [keptRounds, if_neg (by omega)]
    have hdecided : AllDecided (a.rounds.take (k - 1).toNat) :=
      fun r hr => h.decided r (List.mem_of_mem_take hr)
    rw [h1, h2, show a.snapshot.rounds = a.rounds from rfl, hkept, tally_score_add hdecided,
      List.length_take]
    omega

/-- Along every run from a consistent start, the number of the next round, the team lines and
the score after any rewind agree. -/
theorem inStep_of_consistent_run (a : StatsAccumulator) (start : MapStart)
    (hstart : start.Consistent) (ops : List LedgerOp)
    (hops : Guarded ledgerStep Consistent (start.apply a) ops) :
    (run ledgerStep (start.apply a) ops).InStep :=
  (hops.invariant (settled_start a hstart) fun _ _ h hop => h.ledgerStep hop).inStep

/-- A resume that brings its one round along, a second round, and a restore of it. -/
theorem inStep_of_consistent_run_resumed :
    (run ledgerStep (MapStart.apply {} (.resume
        { round := 2
          mapStats := some
            { team1 := ⟨1, 1, 0⟩, rounds :=
              [{ roundNumber := 1, winnerSide := 3, winnerTeam := 1 }] }
          scoreTeam1 := 1
          scoreTeam2 := 0 } false))
      [.stats .onRoundStart, .stats (.onRoundEnd 2 9), .restore 2 (-1) (-1)]).InStep := by
  refine inStep_of_consistent_run {} _ ?_ _ (by decide)
  exact ⟨by decide, by decide, by decide, by decide, by decide⟩

/-- A resume with a bare score of 5-4: no side has won the rounds, and the next round would be
round 1. -/
theorem resume_bare_score_not_inStep :
    ¬(run ledgerStep (MapStart.apply {} (.resume
        { round := 10, scoreTeam1 := 5, scoreTeam2 := 4 } false)) []).InStep :=
  fun h => absurd h.team1Split (by decide)

end StatsAccumulator

end ReadyUp.Stats
