import Mathlib.Data.Finset.Card
import Mathlib.Data.Rat.Defs
import Mathlib.Logic.Function.Basic
import Mathlib.Tactic.Linarith
import ReadyUp.Match.Server
import ReadyUp.Support.Runs

/-!
# The votes of the players

Two votes run on a live map. With `.gg` the players of a team give the map up: a share of its
connected players has to say so within a minute. With `.stop` the players go back to the start of
the round: a player of each team has to ask for it. `Votes` holds the running votes and a
`VoteWorld` what a call reads of the server, which is different at every call.
-/
namespace ReadyUp.Match

open Support

/-! ### The surrender vote -/

def ggVotesNeeded (eligible thresholdPct : ℤ) : ℤ :=
  if eligible ≤ 0 then 0
  else max 1 (min ((eligible * max 1 (min thresholdPct 100) + 99) / 100) eligible)

def ggScoreAllowed (teamScore otherScore minScoreDiff : ℤ) : Bool :=
  minScoreDiff ≤ 0 || minScoreDiff ≤ otherScore - teamScore

structure GgVote where
  voters : Finset ℕ := ∅
  deadline : ℚ := 0

namespace GgVote

inductive Result where
  | counted
  | alreadyVoted
  | passed
  deriving DecidableEq, Repr

def expire (v : GgVote) (now : ℚ) : Bool × GgVote :=
  if v.voters = ∅ ∨ now < v.deadline then (false, v) else (true, {})

/-- Those whose vote counts once the voter has voted. -/
def counted (v : GgVote) (voter : ℕ) (now : ℚ) : Finset ℕ := insert voter (v.expire now).2.voters

def add (v : GgVote) (voter : ℕ) (now : ℚ) (eligible thresholdPct : ℤ) (windowSeconds : ℚ) :
    Result × GgVote :=
  let running := (v.expire now).2
  let deadline := if running.voters = ∅ then now + windowSeconds else running.deadline
  if voter ∈ running.voters then (.alreadyVoted, { running with deadline })
  else
    let need := ggVotesNeeded eligible thresholdPct
    if 0 < need ∧ need ≤ (v.counted voter now).card then (.passed, {})
    else (.counted, { voters := v.counted voter now, deadline })

end GgVote

/-! ### The restore vote -/

structure StopVote where
  /-- When each team asked, 0 for never. -/
  requested : Team → ℚ := fun _ => 0
  window : ℚ := 0

def Team.other : Team → Team
  | .unknown => .unknown
  | .team1 => .team2
  | .team2 => .team1

namespace StopVote

inductive Result where
  | waiting
  | alreadyRequested
  | passed
  deriving DecidableEq, Repr

/-- `Expire`: the first request that timed out is dropped. -/
def expire (v : StopVote) (now : ℚ) : Team × StopVote :=
  if 0 < v.requested .team1 ∧ v.window ≤ now - v.requested .team1 then
    (.team1, { v with requested := Function.update v.requested .team1 0 })
  else if 0 < v.requested .team2 ∧ v.window ≤ now - v.requested .team2 then
    (.team2, { v with requested := Function.update v.requested .team2 0 })
  else (.unknown, v)

/-- `Reset` keeps the window. -/
def reset (v : StopVote) : StopVote := { v with requested := fun _ => 0 }

def request (v : StopVote) (team : ℤ) (now windowSeconds : ℚ) : Result × StopVote :=
  let t := Team.ofInt team
  if t = .unknown then (.waiting, v)
  else
    let running := (v.expire now).2
    if 0 < running.requested t.other then (.passed, running.reset)
    else if 0 < running.requested t then (.alreadyRequested, running)
    else
      (.waiting,
        { requested := Function.update running.requested t (if 0 < now then now else 1 / 10 ^ 9)
          window := windowSeconds })

def pending (v : StopVote) : Team :=
  if 0 < v.requested .team1 then .team1 else if 0 < v.requested .team2 then .team2 else .unknown

end StopVote

/-! ### The calls -/

structure BotIdentity where
  pseudoId : ℕ
  team : ℤ

structure VoteRules where
  ggEnabled : Bool := false
  ggMinScoreDiff : ℤ := 8
  ggThresholdPct : ℤ := 80
  stopCommandAvailable : Bool := false
  stopCommandNoDamage : Bool := false
  stopVoteSeconds : ℤ := 30

structure VoteWorld where
  now : ℚ
  ctx : Option MatchContext
  mapNumber : ℤ
  swapCount : ℤ
  matchLive : Bool
  playerExtrasAllowed : Bool
  rules : VoteRules
  humans : List ℕ
  bots : List BotIdentity
  /-- One of the two debug flags is on. -/
  devBots : Bool
  team1Score : ℤ
  team2Score : ℤ
  /-- An enemy was hurt this round. -/
  enemyDamage : Bool

namespace VoteWorld

def csSideOf (w : VoteWorld) (ctx : MatchContext) (team : Team) : ℤ :=
  if decide (team = .team1) = team1IsCtWithSwapCount ctx (max 1 w.mapNumber) w.swapCount then 3
  else 2

def rosterOf (ctx : MatchContext) (team : Team) : List ℕ :=
  (ctx.rosterTeam.entries.filter fun e => e.2 = team).map (·.1)

def eligibleVoters (w : VoteWorld) (ctx : MatchContext) (team : Team) : ℕ :=
  (rosterOf ctx team).countP (· ∈ w.humans) +
    if rosterOf ctx team = [] ∨ w.devBots = true then
      w.bots.countP (·.team = w.csSideOf ctx team)
    else 0

/-- Somebody who is on the server, a player or a bot. -/
def Connected (w : VoteWorld) (id : ℕ) : Prop := id ∈ w.humans ∨ ∃ b ∈ w.bots, b.pseudoId = id

instance (w : VoteWorld) : DecidablePred w.Connected := fun _ => inferInstanceAs (Decidable (_ ∨ _))

def matchid (w : VoteWorld) : ℕ := (w.ctx.map (·.matchid)).getD 0

end VoteWorld

def kGgWindowSeconds : ℚ := 60

structure Votes where
  gg : Team → GgVote := fun _ => {}
  stop : StopVote := {}
  voteMatch : ℕ := 0
  voteMap : ℤ := 0

/-- What a `.gg` comes to. -/
inductive GgReply where
  | off
  | noTeam
  | liveOnly
  | needsTrail
  | answered (r : GgVote.Result)
  deriving DecidableEq, Repr

/-- What a `.stop` comes to. -/
inductive StopReply where
  | ignored
  | disabled
  | liveOnly
  | damageDealt
  | answered (r : StopVote.Result)
  deriving DecidableEq, Repr

namespace Votes

/-- `SyncMatch`: another match or map drops every vote. -/
def syncMatch (s : Votes) (w : VoteWorld) : Votes :=
  if w.matchid = s.voteMatch ∧ w.mapNumber = s.voteMap then s
  else { gg := fun _ => {}, stop := s.stop.reset, voteMatch := w.matchid, voteMap := w.mapNumber }

/-- `VotesGg`; the map is forfeited when the answer is `passed`. -/
def votesGg (s : Votes) (w : VoteWorld) (voter : ℕ) (team : Team) : GgReply × Votes :=
  let s := s.syncMatch w
  if w.playerExtrasAllowed = false then (.off, s)
  else
    match w.ctx with
    | none => (.off, s)
    | some ctx =>
      if w.rules.ggEnabled = false then (.off, s)
      else if team = .unknown then (.noTeam, s)
      else if w.matchLive = false then (.liveOnly, s)
      else
        let mine := if team = .team1 then w.team1Score else w.team2Score
        let theirs := if team = .team1 then w.team2Score else w.team1Score
        if ggScoreAllowed mine theirs w.rules.ggMinScoreDiff = false then (.needsTrail, s)
        else
          let added :=
            (s.gg team).add voter w.now (w.eligibleVoters ctx team) w.rules.ggThresholdPct
              kGgWindowSeconds
          (.answered added.1, { s with gg := Function.update s.gg team added.2 })

/-- `VotesStop`; the round is restored when the answer is `passed`. -/
def votesStop (s : Votes) (w : VoteWorld) (team : Team) : StopReply × Votes :=
  let s := s.syncMatch w
  if w.playerExtrasAllowed = false then (.ignored, s)
  else if w.ctx = none ∨ team = .unknown then (.ignored, s)
  else if w.rules.stopCommandAvailable = false then (.disabled, s)
  else if w.matchLive = false then (.liveOnly, s)
  else if w.rules.stopCommandNoDamage = true ∧ w.enemyDamage = true then (.damageDealt, s)
  else
    let requested := s.stop.request team.toInt w.now w.rules.stopVoteSeconds
    (.answered requested.1, { s with stop := requested.2 })

def votesTick (s : Votes) (w : VoteWorld) : Votes :=
  let s := s.syncMatch w
  { s with
    gg := fun t => if t = .unknown then s.gg t else ((s.gg t).expire w.now).2
    stop := (s.stop.expire w.now).2 }

/-- `OnGameEvent` of a round that starts. -/
def onRoundStart (s : Votes) : Votes := { s with stop := s.stop.reset }

end Votes

inductive VoteEvent where
  | gg (w : VoteWorld) (voter : ℕ) (team : Team)
  | stop (w : VoteWorld) (team : Team)
  | tick (w : VoteWorld)
  | roundStart

namespace Votes

def step (s : Votes) : VoteEvent → Votes
  | .gg w voter team => (s.votesGg w voter team).2
  | .stop w team => (s.votesStop w team).2
  | .tick w => s.votesTick w
  | .roundStart => s.onRoundStart

/-- Those whose vote for the team counts at a `.gg`. -/
def counted (s : Votes) (w : VoteWorld) (voter : ℕ) (team : Team) : Finset ℕ :=
  ((s.syncMatch w).gg team).counted voter w.now

/-- The votes that a team has to reach. -/
def needed (w : VoteWorld) (ctx : MatchContext) (team : Team) : ℤ :=
  ggVotesNeeded (w.eligibleVoters ctx team) w.rules.ggThresholdPct

/-- A team that forfeits the map has enough of its voters on the server. -/
def Reflects (s : Votes) : VoteEvent → Prop
  | .gg w voter team =>
    (s.votesGg w voter team).1 = .answered .passed →
      ∀ ctx ∈ w.ctx, needed w ctx team ≤ ((s.counted w voter team).filter w.Connected).card
  | _ => True

/-- Nobody whose vote counts is gone when the votes reach the number that is needed. -/
def NobodyLeft (s : Votes) : VoteEvent → Prop
  | .gg w voter team =>
    ∀ ctx ∈ w.ctx, needed w ctx team ≤ (s.counted w voter team).card →
      ∀ id ∈ s.counted w voter team, w.Connected id
  | _ => True

end Votes

theorem GgVote.passed_iff {v : GgVote} {voter : ℕ} {now : ℚ} {eligible pct : ℤ} {window : ℚ} :
    (v.add voter now eligible pct window).1 = .passed ↔ voter ∉ (v.expire now).2.voters ∧
      0 < ggVotesNeeded eligible pct ∧ ggVotesNeeded eligible pct ≤ (v.counted voter now).card := by
  unfold GgVote.add
  by_cases hvoted : voter ∈ (v.expire now).2.voters
  · simp [hvoted]
  · by_cases hreached : 0 < ggVotesNeeded eligible pct ∧
      ggVotesNeeded eligible pct ≤ (v.counted voter now).card
    · simp [hvoted, hreached]
    · simp [hvoted, hreached]

namespace Votes

variable {s : Votes} {w : VoteWorld} {voter : ℕ} {team : Team} {ctx : MatchContext}

theorem needed_le_of_passed (h : (s.votesGg w voter team).1 = .answered .passed)
    (hctx : w.ctx = some ctx) : needed w ctx team ≤ (s.counted w voter team).card := by
  unfold votesGg at h
  simp only [hctx] at h
  split_ifs at h with _ _ _ _ hfirst
  · exact (GgVote.passed_iff.mp (GgReply.answered.inj h)).2.2
  · exact (GgVote.passed_iff.mp (GgReply.answered.inj h)).2.2

theorem reflects_of_nobodyLeft {e : VoteEvent} (h : s.NobodyLeft e) : s.Reflects e := by
  cases e with
  | gg w voter team =>
    intro hpassed ctx hctx
    have hreached := needed_le_of_passed hpassed hctx
    rwa [Finset.filter_true_of_mem (h ctx hctx hreached)]
  | stop w team => trivial
  | tick w => trivial
  | roundStart => trivial

/-- Votes that only just reach the number do not reflect the players once a voter is gone. -/
theorem not_reflects_of_left (hpassed : (s.votesGg w voter team).1 = .answered .passed)
    (hctx : w.ctx = some ctx)
    (hjust : (s.counted w voter team).card ≤ needed w ctx team) {id : ℕ}
    (hid : id ∈ s.counted w voter team)
    (hgone : ¬w.Connected id) : ¬s.Reflects (.gg w voter team) := by
  intro h
  have hfewer :
      ((s.counted w voter team).filter w.Connected).card < (s.counted w voter team).card :=
    Finset.card_lt_card (Finset.filter_ssubset.mpr ⟨id, hid, hgone⟩)
  have hneeded := h hpassed ctx hctx
  omega

/-- In a run in which nobody whose vote counts is gone when the votes reach the number, every team
that forfeits has enough of its voters on the server. -/
theorem surrender_reflects {events : List VoteEvent} (h : Guarded step NobodyLeft {} events) :
    Guarded step Reflects {} events :=
  @Guarded.imp _ _ _ _ _ (fun _ => True) _ _ h trivial fun _ _ _ he =>
    ⟨trivial, reflects_of_nobodyLeft he⟩

/-- A team of five at 80 %; the players whose ids are given are there. -/
def fiveWorld (now : ℚ) (humans : List ℕ) : VoteWorld where
  now
  ctx :=
    some { matchid := 7, rosterTeam := [1, 2, 3, 4, 5].foldl (fun t id => t.insert id .team1) ∅ }
  mapNumber := 1
  swapCount := 0
  matchLive := true
  playerExtrasAllowed := true
  rules := { ggEnabled := true }
  humans
  bots := []
  devBots := false
  team1Score := 0
  team2Score := 8
  enemyDamage := false

/-- Three of five vote and leave, then one of the two that are left votes. -/
def threeLeft : List VoteEvent :=
  [.gg (fiveWorld 0 [1, 2, 3, 4, 5]) 1 .team1, .gg (fiveWorld 1 [1, 2, 3, 4, 5]) 2 .team1,
    .gg (fiveWorld 2 [1, 2, 3, 4, 5]) 3 .team1, .gg (fiveWorld 9 [4, 5]) 4 .team1]

theorem three_left_forfeit : ¬Guarded step Reflects {} threeLeft := by
  simp only [threeLeft, guarded_cons]
  rintro ⟨-, -, -, h, -⟩
  have henough := h (by decide +kernel) _ rfl
  revert henough
  decide +kernel

/-- Four of five vote, with everybody there. -/
def fourOfFive : List VoteEvent :=
  [1, 2, 3, 4].map fun id : ℕ => .gg (fiveWorld id [1, 2, 3, 4, 5]) id .team1

theorem surrender_reflects_four : Guarded step Reflects {} fourOfFive :=
  surrender_reflects (by
    simp only [fourOfFive, List.map_cons, List.map_nil, guarded_cons]
    refine ⟨?_, ?_, ?_, ?_, trivial⟩
    all_goals
      intro ctx hctx hreached id hid
      obtain rfl := Option.some.inj hctx
      revert id
      decide +kernel)

end Votes

end ReadyUp.Match
