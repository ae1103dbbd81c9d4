import Mathlib.Algebra.Order.Ring.Int
import Mathlib.Tactic.Common

/-!
# The ready gate

A team goes live when enough of its connected players are ready, and the players see a count of
them. The count is against a full team; the gate also asks for the minimum of the match, which may
be larger. `ShowsWhatIsAsked` says that a team that is shown as ready may go live.
-/
namespace ReadyUp.Match

def kFullTeamPlayers : ℤ := 5

def fullTeamSize (rosterSize playersPerTeam : ℤ) : ℤ :=
  if rosterSize ≤ 0 then 0
  else min rosterSize (if 0 < playersPerTeam then playersPerTeam else kFullTeamPlayers)

def forceReadyRequired (rosterSize minPlayers playersPerTeam : ℤ) : ℤ :=
  if rosterSize ≤ 0 then 0
  else if minPlayers ≤ 0 then fullTeamSize rosterSize playersPerTeam
  else min minPlayers rosterSize

def teamReadyNeeded (rosterSize connected minPlayers playersPerTeam : ℤ) : ℤ :=
  if rosterSize ≤ 0 then 0
  else
    max (forceReadyRequired rosterSize minPlayers playersPerTeam)
      (min (max 0 connected) (fullTeamSize rosterSize playersPerTeam))

def teamReadyToGoLive (rosterSize connected ready minPlayers playersPerTeam : ℤ) : Bool :=
  rosterSize ≤ 0 || teamReadyNeeded rosterSize connected minPlayers playersPerTeam ≤ ready

structure ReadyTally where
  ready : ℤ
  total : ℤ
  deriving DecidableEq

def teamReadyTally (rosterSize ready playersPerTeam : ℤ) : ReadyTally where
  total := fullTeamSize rosterSize playersPerTeam
  ready := min (max 0 ready) (fullTeamSize rosterSize playersPerTeam)

structure TeamHudState where
  here : ℤ
  total : ℤ
  allHere : Bool
  ready : Bool
  deriving DecidableEq

def teamHudStatus (rosterSize connected readyConnected playersPerTeam : ℤ) : TeamHudState :=
  let total := fullTeamSize rosterSize playersPerTeam
  let here := min (max 0 connected) total
  { here, total
    allHere := 0 < total && total ≤ here
    ready := 0 < total && total ≤ min (max 0 readyConnected) total }

def resumeMayGoLive (rosterTotal presentTotal : ℤ) : Bool :=
  0 < presentTotal && rosterTotal ≤ presentTotal

structure ResumeHeadcount where
  needed : ℤ
  back : ℤ
  deriving DecidableEq

/-- `ResumeCount`, for the two teams. -/
def resumeCount (roster present : Fin 2 → ℤ) (playersPerTeam : ℤ) : ResumeHeadcount :=
  let full (t : Fin 2) := fullTeamSize (roster t) playersPerTeam
  { needed := full 0 + full 1
    back := min (max 0 (present 0)) (full 0) + min (max 0 (present 1)) (full 1) }

section FullTeam

variable {roster ppt : ℤ}

theorem fullTeamSize_nonneg (roster ppt : ℤ) : 0 ≤ fullTeamSize roster ppt := by
  unfold fullTeamSize kFullTeamPlayers
  split_ifs <;> omega

theorem fullTeamSize_pos_iff : 0 < fullTeamSize roster ppt ↔ 0 < roster := by
  unfold fullTeamSize kFullTeamPlayers
  split_ifs <;> omega

end FullTeam

section Gate

variable {roster connected ready minPlayers ppt : ℤ}

theorem tally_complete_iff :
    (teamReadyTally roster ready ppt).ready = (teamReadyTally roster ready ppt).total ↔
    fullTeamSize roster ppt ≤ max 0 ready := by
  unfold teamReadyTally
  exact min_eq_right_iff

theorem hud_ready_iff (hroster : 0 < roster) :
    (teamHudStatus roster connected ready ppt).ready = true ↔
    fullTeamSize roster ppt ≤ max 0 ready := by
  have hfull : 0 < fullTeamSize roster ppt := fullTeamSize_pos_iff.mpr hroster
  simp [teamHudStatus, hfull]

/-- Once a full team is ready, only the minimum can hold the match up. -/
theorem teamReadyToGoLive_of_full (hroster : 0 < roster) (hfull : fullTeamSize roster ppt ≤ ready) :
    teamReadyToGoLive roster connected ready minPlayers ppt = true ↔
      min minPlayers roster ≤ ready := by
  have hpos : 0 < fullTeamSize roster ppt := fullTeamSize_pos_iff.mpr hroster
  unfold teamReadyToGoLive teamReadyNeeded forceReadyRequired
  rw [if_neg (not_le.mpr hroster), if_neg (not_le.mpr hroster)]
  simp only [not_le.mpr hroster, decide_false, Bool.false_or, decide_eq_true_eq]
  split_ifs
  all_goals omega

/-- A team that is shown as ready may go live. -/
structure ShowsWhatIsAsked (roster connected ready minPlayers ppt : ℤ) : Prop where
  tally : (teamReadyTally roster ready ppt).ready = (teamReadyTally roster ready ppt).total →
    teamReadyToGoLive roster connected ready minPlayers ppt = true
  hud : 0 < roster → (teamHudStatus roster connected ready ppt).ready = true →
    teamReadyToGoLive roster connected ready minPlayers ppt = true

theorem showsWhatIsAsked_iff (hready : 0 ≤ ready) (hconnected : ready ≤ connected)
    (hroster : connected ≤ roster) : ShowsWhatIsAsked roster connected ready minPlayers ppt ↔
      ¬(fullTeamSize roster ppt ≤ ready ∧ ready < min minPlayers roster) := by
  have hmax : max 0 ready = ready := max_eq_right hready
  rcases (hready.trans (hconnected.trans hroster)).eq_or_lt with hzero | hpos
  · -- an empty roster always goes live
    have hlive : teamReadyToGoLive roster connected ready minPlayers ppt = true := by
      simp [teamReadyToGoLive, ← hzero]
    exact ⟨fun _ h => by omega, fun _ => ⟨fun _ => hlive, fun _ _ => hlive⟩⟩
  · have hlive : fullTeamSize roster ppt ≤ ready →
        (teamReadyToGoLive roster connected ready minPlayers ppt = true ↔
          min minPlayers roster ≤ ready) :=
      teamReadyToGoLive_of_full hpos
    constructor
    · rintro h ⟨hfull, hminimum⟩
      have hgate := h.tally (tally_complete_iff.mpr (hmax.symm ▸ hfull))
      exact absurd ((hlive hfull).mp hgate) (not_le.mpr hminimum)
    · intro h
      have hgate :
          fullTeamSize roster ppt ≤ ready →
            teamReadyToGoLive roster connected ready minPlayers ppt = true :=
        fun hfull => (hlive hfull).mpr (not_lt.mp fun hlt => h ⟨hfull, hlt⟩)
      constructor
      · intro htally
        exact hgate (hmax ▸ tally_complete_iff.mp htally)
      · intro _ hhud
        exact hgate (hmax ▸ (hud_ready_iff hpos).mp hhud)

/-- A resume waits until some team has a roster and every such team is back. -/
theorem resumeMayGoLive_iff (rosters presents : Fin 2 → ℤ) (ppt : ℤ) :
    resumeMayGoLive (resumeCount rosters presents ppt).needed
      (resumeCount rosters presents ppt).back = true ↔
      (∃ t, 0 < rosters t) ∧ ∀ t, 0 < rosters t → fullTeamSize (rosters t) ppt ≤ presents t := by
  have hpos := fun t => @fullTeamSize_pos_iff (rosters t) ppt
  have hnonneg := fun t => fullTeamSize_nonneg (rosters t) ppt
  unfold resumeMayGoLive resumeCount
  dsimp only
  rw [Bool.and_eq_true, decide_eq_true_iff, decide_eq_true_iff, Fin.exists_fin_two,
    Fin.forall_fin_two]
  simp only [← hpos]
  have h0 := hnonneg 0
  have h1 := hnonneg 1
  omega

/-- What is shown is what the gate asks unless a full team is ready and the minimum is not met. -/
theorem shown_iff (hready : 0 ≤ ready) (hconnected : ready ≤ connected)
    (hroster : connected ≤ roster) (rosters presents : Fin 2 → ℤ) :
    (ShowsWhatIsAsked roster connected ready minPlayers ppt ∧
        (resumeMayGoLive (resumeCount rosters presents ppt).needed
          (resumeCount rosters presents ppt).back = true ↔
          (∃ t, 0 < rosters t) ∧ ∀ t, 0 < rosters t → fullTeamSize (rosters t) ppt ≤ presents t)) ↔
      ¬(fullTeamSize roster ppt ≤ ready ∧ ready < min minPlayers roster) := by
  rw [and_iff_left (resumeMayGoLive_iff rosters presents ppt)]
  exact showsWhatIsAsked_iff hready hconnected hroster

theorem shown_iff_five :
    ShowsWhatIsAsked 5 5 5 0 5 ∧
      (resumeMayGoLive (resumeCount (fun _ => 5) (fun _ => 4) 5).needed
        (resumeCount (fun _ => 5) (fun _ => 4) 5).back =
          true ↔
        (∃ _ : Fin 2, (0 : ℤ) < 5) ∧ ∀ _ : Fin 2, (0 : ℤ) < 5 → fullTeamSize 5 5 ≤ 4) :=
  (shown_iff (by decide) (by decide) (by decide) (fun _ => 5) fun _ => 4).mpr (by decide)

/-- Five of seven players are there and ready, which is a full team; the match asks for six. -/
theorem six_of_seven_not_shown : ¬ShowsWhatIsAsked 7 5 5 6 5 := by
  intro h
  have hgate : teamReadyToGoLive 7 5 5 6 5 = true := h.tally (by decide)
  exact absurd hgate (by decide)

end Gate

end ReadyUp.Match
