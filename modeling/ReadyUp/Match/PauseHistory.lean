import ReadyUp.Match.Pauses
import ReadyUp.Support.Runs
import ReadyUp.Support.Since

/-!
# What the log of the pauses says

Over any run the log says what the state is (`Kept`): the counters are the pauses that the teams
were given on this map, and a team is ready to go on only if it has asked since the pause began, or
the server has confirmed for it.
-/
namespace ReadyUp.Match

open Support

section History

def inForce : List Sign → Option (PauseType × Team)
  | [] => none
  | .paused type team :: _ => some (type, team)
  | .resumed _ :: _ => none
  | .asked _ :: log => inForce log
  | .confirmed _ _ :: log => inForce log
  | .newMap :: log => inForce log

/-- The team has asked to go on since the pause began. -/
def hasAsked (w : Slot) : List Sign → Bool
  | [] => false
  | .paused _ _ :: _ => false
  | .resumed _ :: _ => false
  | .asked team :: log => decide (team = w.team) || hasAsked w log
  | .confirmed _ _ :: log => hasAsked w log
  | .newMap :: log => hasAsked w log

/-- Since the pause began the server has confirmed for the team, of which it found only bots. -/
def hasConfirmed (w : Slot) : List Sign → Bool
  | [] => false
  | .paused _ _ :: _ => false
  | .resumed _ :: _ => false
  | .asked _ :: log => hasConfirmed w log
  | .confirmed v found :: log => decide (v = w) && found.botOnly w || hasConfirmed w log
  | .newMap :: log => hasConfirmed w log

/-- The pauses of a kind that the team was given on this map. -/
def given (w : Slot) (k : PauseKind) : List Sign → ℕ
  | [] => 0
  | .paused type team :: log =>
    given w k log + if type.kind = some k ∧ team.slot = some w then 1 else 0
  | .resumed _ :: log => given w k log
  | .asked _ :: log => given w k log
  | .confirmed _ _ :: log => given w k log
  | .newMap :: _ => 0

/-- The team wants to go on, or only bots of it were there to ask. -/
def Agrees (w : Slot) (before : List Sign) : Prop := hasAsked w before ∨ hasConfirmed w before

/-- The teams may end the pause: it is not a timeout and not an admin's, and both teams agree, or
the one that may end it alone. -/
def Entitled (rule : Bool) (before : List Sign) : Prop :=
  ∃ type team, inForce before = some (type, team) ∧ type ≠ .tactical ∧ type ≠ .admin ∧
    (Agrees .team1 before ∧ Agrees .team2 before ∨
      rule = false ∧ Pauses.nobodys (some type) = false ∧
        ∃ w, Agrees w before ∧ (team = .unknown ∨ team = w.team))

end History

namespace Pauses

variable {s : Pauses}

section Steps

/-- What the server does by itself: nothing of it counts for a team or is the teams' doing. -/
inductive Moves : Pauses → Pauses → Prop where
  | features (s : Pauses) (f : Features) : Moves s { s with features := f }
  | mark (s : Pauses) {type : PauseType} {team : Team} (h : type.kind = none ∨ team.slot = none) :
      Moves s (s.mark type team)
  | resume (s : Pauses) {why : Resumed} (h : ∀ rule, why ≠ .players rule) : Moves s (s.resume why)
  | trans {s₁ s₂ s₃ : Pauses} : Moves s₁ s₂ → Moves s₂ s₃ → Moves s₁ s₃

theorem Moves.refl (s : Pauses) : Moves s s := .features s s.features

theorem moves_unpause (s : Pauses) {why : Resumed} (h : ∀ rule, why ≠ .players rule) :
    Moves s (s.unpause why) :=
  .trans (.features s _) (.resume _ h)

theorem moves_serverPause (s : Pauses) (type : PauseType) (allowed queued : Bool) :
    Moves s (s.serverPause type allowed queued) := by
  unfold serverPause
  split_ifs
  · exact .refl s
  · exact .mark s (.inr rfl)

theorem moves_serverUnpause (s : Pauses) {why : Resumed} (h : ∀ rule, why ≠ .players rule)
    (queued : Bool) : Moves s (s.serverUnpause why queued) := by
  unfold serverUnpause
  split_ifs
  · exact .resume s h
  · exact .refl s

theorem moves_maybeMark (s : Pauses) (t : Tick) : Moves s (s.maybeMarkAuto5v5Pause t).2 := by
  unfold maybeMarkAuto5v5Pause
  split_ifs
  · exact .refl s
  · split
    · exact .refl s
    · exact .refl s
    · exact .mark s (.inl rfl)

theorem moves_auto5v5Tick (s : Pauses) (t : Tick) : Moves s (s.auto5v5Tick t) := by
  unfold auto5v5Tick
  dsimp only
  split_ifs
  · exact .trans (.features s _) (.trans (moves_maybeMark _ t) (.features _ _))
  · exact .trans (.features s _) (moves_maybeMark _ t)
  · exact .features s _

theorem moves_recordEnginePause (s : Pauses) (t : Tick) (window : Bool) :
    Moves s (s.recordEnginePause t window) := by
  unfold recordEnginePause
  dsimp only
  split
  · exact .refl s
  · split_ifs
    · exact .features s _
    · exact .refl s
  · exact .trans (.features s _) (.mark _ (.inl rfl))
  · exact .trans (.features s _) (.mark _ (.inl rfl))

theorem moves_enginePauseCheck (s : Pauses) (t : Tick) : Moves s (s.enginePauseCheck t) := by
  unfold enginePauseCheck
  dsimp only
  by_cases hmatch : (!t.hasMatch) = true
  · rw [if_pos hmatch]
    exact .features s _
  rw [if_neg hmatch]
  by_cases hengine :
    (s.pause.paused && decide (s.pause.type = some .engine) && decide (t.enginePaused = 0)) = true
  · rw [if_pos hengine]
    split_ifs
    · exact .trans (.features s _) (moves_unpause _ (by simp))
    · exact .features s _
    · exact .trans (.features s _) (moves_unpause _ (by simp))
    · exact .features s _
  rw [if_neg hengine]
  split_ifs
  all_goals
    first
      | exact .features s _
      | exact .trans (.features s _) (moves_recordEnginePause _ t _)

theorem moves_enginePauseTick (s : Pauses) (t : Tick) : Moves s (s.enginePauseTick t) := by
  unfold enginePauseTick
  dsimp only
  split_ifs
  · exact .features s _
  · exact .trans (.features s _) (moves_enginePauseCheck _ t)

theorem moves_auto5v5Over (s : Pauses) (t : Tick) : Moves s (s.auto5v5Over t) := by
  unfold auto5v5Over
  dsimp only
  split
  · exact .features s _
  · rename_i why _
    split_ifs
    · refine .trans (.features s _) (moves_unpause _ fun rule => ?_)
      cases why <;> simp [Auto5v5Reason.resumed]
    · exact .features s _

theorem moves_endTick (s : Pauses) (t : Tick) : Moves s (s.endTick t) := by
  unfold endTick
  dsimp only
  split_ifs
  · exact .refl s
  · exact moves_unpause s (by simp)
  · exact moves_unpause s (by simp)
  · exact moves_auto5v5Over s t
  · exact moves_unpause s (by simp)
  · exact .refl s
  · exact .refl s

theorem moves_tick (s : Pauses) (t : Tick) : Moves s (s.tick t) :=
  .trans (moves_auto5v5Tick s t)
    (.trans (moves_enginePauseTick _ t) (.trans (.features _ _) (moves_endTick _ t)))

theorem techPause_spec (s : Pauses) (c : Scene) (team : Team) :
    s.techPause c team = s ∨
      techPauseAllowed (s.pause.usedBy team .technical) c.rules.techPausesPerTeam = true ∧
        s.techPause c team = s.markUse .technical .technical team := by
  unfold techPause
  split_ifs with hlive hallowed hqueued
  · exact .inl rfl
  · exact .inl rfl
  · exact .inl rfl
  · exact .inr ⟨by simpa using hallowed, rfl⟩

theorem tacticalTimeout_spec (s : Pauses) (c : Scene) (timeoutMax : Option ℤ) (team : Team) :
    s.tacticalTimeout c timeoutMax team = s ∨
      (∀ n, timeoutMax = some n → (s.pause.usedBy team .tactical : ℤ) < n) ∧
        s.tacticalTimeout c timeoutMax team = s.markUse .tactical .tactical team := by
  unfold tacticalTimeout
  split_ifs with hlive hmax hqueued
  · exact .inl rfl
  · exact .inl rfl
  · exact .inl rfl
  · refine .inr ⟨fun n hn => ?_, rfl⟩
    simpa [hn] using hmax

theorem playersUnpause_spec (s : Pauses) (c : Scene) (found : Present) (team : Team) :
    s.playersUnpause c found team = s ∨
      ∃ s', s' = ((s.ask team).confirmFor found .team1).confirmFor found .team2 ∧
        s.pause.paused = true ∧ s.pause.type ≠ some .tactical ∧ s.pause.type ≠ some .admin ∧
        (s.playersUnpause c found team = s' ∨
          unpauseSatisfied s'.pause.team1Ready s'.pause.team2Ready
              (decide (c.rules.bothTeamsUnpause ≠ 0) || nobodys s'.pause.type) s'.pause.team =
                true ∧
            s.playersUnpause c found team =
              s'.unpause (.players (decide (c.rules.bothTeamsUnpause ≠ 0)))) := by
  unfold playersUnpause
  dsimp only
  split_ifs with hpaused htype hready
  · exact .inl rfl
  · exact .inl rfl
  · simp only [Bool.or_eq_true, Bool.not_eq_true', not_or, Bool.not_eq_false] at hpaused
    simp only [Bool.or_eq_true, decide_eq_true_eq, not_or] at htype
    refine .inr ⟨_, rfl, hpaused.2, htype.1, htype.2, .inr ⟨?_, rfl⟩⟩
    exact (Bool.and_eq_true_iff.mp hready).1
  · simp only [Bool.or_eq_true, Bool.not_eq_true', not_or, Bool.not_eq_false] at hpaused
    simp only [Bool.or_eq_true, decide_eq_true_eq, not_or] at htype
    exact .inr ⟨_, rfl, hpaused.2, htype.1, htype.2, .inl rfl⟩

/-- What an event does: the moves of the server, or what the teams and the match flow do. -/
theorem step_cases (s : Pauses) (e : PauseEvent) :
    Moves s (s.step e) ∨
      (∃ c team, e = .tech c team ∧
        techPauseAllowed (s.pause.usedBy team .technical) c.rules.techPausesPerTeam = true ∧
        s.step e = s.markUse .technical .technical team) ∨
      (∃ c timeoutMax team, e = .timeout c timeoutMax team ∧
        (∀ n, timeoutMax = some n → (s.pause.usedBy team .tactical : ℤ) < n) ∧
        s.step e = s.markUse .tactical .tactical team) ∨
      (∃ c found team, s.step e = s.playersUnpause c found team) ∨
      s.step e = (s.resume .server).newMap ∨ s.step e = s.newMap ∨
      s.step e = { s with pause := s.pause.reloaded, features := {} } := by
  cases e with
  | tech c team =>
    obtain hsame | ⟨hallowed, heq⟩ := techPause_spec s c team
    · exact .inl (by simpa only [step, hsame] using Moves.refl s)
    · exact .inr (.inl ⟨c, team, rfl, hallowed, heq⟩)
  | timeout c timeoutMax team =>
    obtain hsame | ⟨hallowed, heq⟩ := tacticalTimeout_spec s c timeoutMax team
    · exact .inl (by simpa only [step, hsame] using Moves.refl s)
    · exact .inr (.inr (.inl ⟨c, timeoutMax, team, rfl, hallowed, heq⟩))
  | unpause c found team => exact .inr (.inr (.inr (.inl ⟨c, found, team, rfl⟩)))
  | adminPause queued => exact .inl (moves_serverPause s _ _ _)
  | adminUnpause queued => exact .inl (moves_serverUnpause s (by simp) _)
  | cmdPause technical c => exact .inl (moves_serverPause s _ _ _)
  | offline ours c => exact .inl (moves_serverPause s _ _ _)
  | halftime c => exact .inl (moves_serverPause s _ _ _)
  | restore => exact .inl (moves_serverPause s _ _ _)
  | restored => exact .inl (.mark s (.inr rfl))
  | recover => exact .inl (moves_serverPause s _ _ _)
  | timer queued => exact .inl (moves_serverUnpause s (by simp) _)
  | stop => exact .inl (moves_serverUnpause s (by simp) _)
  | matchStart => exact .inr (.inr (.inr (.inr (.inl rfl))))
  | nextMap => exact .inr (.inr (.inr (.inr (.inr (.inl rfl)))))
  | roundStart => exact .inl (.features s _)
  | freezeEnd => exact .inl (.features s _)
  | tick t => exact .inl (moves_tick s t)
  | reload => exact .inr (.inr (.inr (.inr (.inr (.inr rfl)))))

end Steps

section Kept

structure Kept (s : Pauses) : Prop where
  current : inForce s.log = if s.pause.paused then s.pause.type.map (·, s.pause.team) else none
  typed : s.pause.paused = true → s.pause.type.isSome = true
  agreed : ∀ w, s.pause.ready w = (hasAsked w s.log || hasConfirmed w s.log)
  used : ∀ w k, s.pause.used w k = given w k s.log
  entitled : ∀ rule before, (.resumed (.players rule) :: before) <:+ s.log → Entitled rule before

theorem kept_start : Kept {} where
  current := rfl
  typed h := by cases h
  agreed w := by cases w <;> rfl
  used _ _ := rfl
  entitled rule before h := by simp at h

theorem Kept.features (h : s.Kept) (f : Features) : ({ s with features := f } : Pauses).Kept :=
  ⟨h.current, h.typed, h.agreed, h.used, h.entitled⟩

/-- A sign that is not of a pause that the teams ended keeps that they were entitled. -/
theorem entitled_cons {sign : Sign} {log : List Sign}
    (h : ∀ rule before, (.resumed (.players rule) :: before) <:+ log → Entitled rule before)
    (hsign : ∀ rule, sign = .resumed (.players rule) → Entitled rule log) (rule : Bool)
    (before : List Sign)
    (hbefore : (.resumed (.players rule) :: before) <:+ sign :: log) : Entitled rule before := by
  have hall :=
    forall_suffix_cons (P := fun before sign => ∀ rule, sign = .resumed (.players rule) →
      Entitled rule before)
    (fun d before hd rule heq => h rule before (heq ▸ hd)) hsign
  exact hall _ before hbefore rule rfl

theorem Kept.mark (h : s.Kept) {type : PauseType} {team : Team}
    (hplain : type.kind = none ∨ team.slot = none) : (s.mark type team).Kept where
  current := rfl
  typed _ := rfl
  agreed w := by cases w <;> rfl
  used w k := by
    have hnot : ¬(type.kind = some k ∧ team.slot = some w) := by
      rintro ⟨hkind, hslot⟩
      simp [hkind, hslot] at hplain
    simp only [Pauses.mark, PauseState.onPaused, given, if_neg hnot, h.used w k, Nat.add_zero]
  entitled := entitled_cons h.entitled fun rule heq => by cases heq

theorem Kept.markUse (h : s.Kept) {type : PauseType} {kind : PauseKind}
    (hkind : type.kind = some kind) (team : Team) : (s.markUse type kind team).Kept := by
  have hpause :
      (s.markUse type kind team).pause.toPauseSnapshot =
        (s.pause.onPaused type team).toPauseSnapshot := by
    unfold Pauses.markUse PauseState.countUse
    cases team.slot <;> rfl
  have hasked :
      ∀ w, (s.markUse type kind team).pause.ready w = (s.pause.onPaused type team).ready w := by
    intro w
    cases w <;> simp only [PauseState.ready, hpause]
  constructor
  · rw [hpause]
    rfl
  · intro _
    rw [hpause]
    rfl
  · intro w
    rw [hasked]
    cases w <;> rfl
  · intro w k
    simp only [Pauses.markUse, PauseState.countUse, given, hkind, Option.some.injEq]
    cases hslot : team.slot with
    | none => simp [PauseState.onPaused, h.used w k]
    | some v =>
      by_cases hsame : w = v ∧ k = kind
      · obtain ⟨rfl, rfl⟩ := hsame
        simp [PauseState.onPaused, h.used w k]
      · have hnot : ¬(kind = k ∧ some v = some w) := by
          rintro ⟨rfl, hv⟩
          exact hsame ⟨(Option.some.inj hv).symm, rfl⟩
        simp only [if_neg hsame, if_neg hnot, PauseState.onPaused, h.used w k, Nat.add_zero]
  · exact entitled_cons h.entitled fun rule heq => by cases heq

theorem Kept.resume (h : s.Kept) {why : Resumed}
    (hwhy : ∀ rule, why = .players rule → Entitled rule s.log) : (s.resume why).Kept where
  current := rfl
  typed hpaused := by cases hpaused
  agreed w := by cases w <;> rfl
  used w k := h.used w k
  entitled := entitled_cons h.entitled fun rule heq => hwhy rule (by cases heq; rfl)

theorem ready_requestUnpause (p : PauseState) (w : Slot) (team : Team) :
    (p.requestUnpause team).ready w = (decide (team = w.team) || p.ready w) := by
  cases team <;> cases w <;> simp [PauseState.requestUnpause, PauseState.ready, Slot.team]

theorem requestUnpause_frame (p : PauseState) (team : Team) :
    (p.requestUnpause team).paused = p.paused ∧ (p.requestUnpause team).type = p.type ∧
      (p.requestUnpause team).team = p.team ∧ (p.requestUnpause team).used = p.used := by
  cases team <;> exact ⟨rfl, rfl, rfl, rfl⟩

theorem Kept.request (h : s.Kept) {team : Team} {sign : Sign}
    (hforce : inForce (sign :: s.log) = inForce s.log)
    (hagreed : ∀ w, (hasAsked w (sign :: s.log) || hasConfirmed w (sign :: s.log)) =
      (decide (team = w.team) || (hasAsked w s.log || hasConfirmed w s.log)))
    (hgiven : ∀ w k, given w k (sign :: s.log) = given w k s.log)
    (hsign : ∀ rule, sign ≠ .resumed (.players rule)) :
    ({ s with pause := s.pause.requestUnpause team, log := sign :: s.log } : Pauses).Kept := by
  obtain ⟨hpaused, htype, hteam, hused⟩ := requestUnpause_frame s.pause team
  constructor
  · rw [hforce, hpaused, htype, hteam]
    exact h.current
  · rw [hpaused, htype]
    exact h.typed
  · intro w
    rw [hagreed, ready_requestUnpause, h.agreed w]
  · intro w k
    rw [hgiven, hused]
    exact h.used w k
  · exact entitled_cons h.entitled fun rule heq => absurd heq (hsign rule)

theorem Kept.ask (h : s.Kept) (team : Team) : (s.ask team).Kept :=
  h.request rfl (fun _ => Bool.or_assoc ..) (fun _ _ => rfl) (by simp)

theorem team_eq_team_iff {v w : Slot} : v.team = w.team ↔ v = w := by
  cases v <;> cases w <;> simp [Slot.team]

theorem Kept.confirm (h : s.Kept) {found : Present} {v : Slot} (hbots : found.botOnly v = true) :
    (s.confirm found v).Kept := by
  refine h.request rfl (fun w => ?_) (fun _ _ => rfl) (by simp)
  have hown : (decide (v = w) && found.botOnly w) = decide (v.team = w.team) := by
    by_cases hv : v = w
    · subst hv
      simp [hbots]
    · simp [hv, team_eq_team_iff]
  simp only [hasAsked, hasConfirmed, hown]
  exact Bool.or_left_comm ..

theorem Kept.newMap (h : s.Kept) : s.newMap.Kept where
  current := h.current
  typed := h.typed
  agreed w := (h.agreed w : _)
  used _ _ := rfl
  entitled := entitled_cons h.entitled fun rule heq => by cases heq

theorem Kept.reloaded (h : s.Kept) :
    ({ s with pause := s.pause.reloaded, features := {} } : Pauses).Kept := by
  cases hpaused : s.pause.paused with
  | true =>
    have hsame :
        s.pause.reloaded = s.pause := by simp [PauseState.reloaded, PauseState.save, hpaused]
    rw [hsame]
    exact h.features {}
  | false =>
    have hcurrent := h.current
    simp only [hpaused, Bool.false_eq_true, if_false] at hcurrent
    refine ⟨?_, ?_, fun w => ?_, h.used, h.entitled⟩
    · simp [PauseState.reloaded, PauseState.save, hpaused, hcurrent]
    · simp [PauseState.reloaded, PauseState.save, hpaused]
    · rw [← h.agreed w]
      cases w <;> simp [PauseState.reloaded, PauseState.save, hpaused, PauseState.ready]

theorem Kept.moves {s s' : Pauses} (h : s.Kept) (hmoves : Moves s s') : s'.Kept := by
  induction hmoves with
  | features s f => exact h.features f
  | mark s hplain => exact h.mark hplain
  | resume s hwhy => exact h.resume fun rule heq => absurd heq (hwhy rule)
  | trans _ _ ih₁ ih₂ => exact ih₂ (ih₁ h)

theorem Kept.confirmFor (h : s.Kept) (found : Present) (w : Slot) :
    (s.confirmFor found w).Kept := by
  unfold Pauses.confirmFor
  split_ifs with halone
  · exact h.confirm (Bool.and_eq_true_iff.mp halone).2
  · exact h

theorem pause_confirmFor (found : Present) (w : Slot) :
    (s.confirmFor found w).pause.paused = s.pause.paused ∧
    (s.confirmFor found w).pause.type = s.pause.type := by
  unfold confirmFor
  split_ifs
  · exact ⟨(requestUnpause_frame s.pause w.team).1, (requestUnpause_frame s.pause w.team).2.1⟩
  · exact ⟨rfl, rfl⟩

theorem Kept.agrees (h : s.Kept) {w : Slot} (hready : s.pause.ready w = true) : Agrees w s.log := by
  rw [h.agreed w, Bool.or_eq_true] at hready
  exact hready

/-- The teams that are ready are the ones that may end the pause. -/
theorem Kept.entitles (h : s.Kept) {rule : Bool} (hpaused : s.pause.paused = true)
    (htactical : s.pause.type ≠ some .tactical) (hadmin : s.pause.type ≠ some .admin)
    (hready : unpauseSatisfied s.pause.team1Ready s.pause.team2Ready
      (rule || nobodys s.pause.type) s.pause.team = true) :
    Entitled rule s.log := by
  obtain ⟨type, htype⟩ := Option.isSome_iff_exists.mp (h.typed hpaused)
  have hforce : inForce s.log = some (type, s.pause.team) := by
    simp [h.current, hpaused, htype]
  rw [htype] at htactical hadmin hready
  refine ⟨type, s.pause.team, hforce, fun heq => htactical (by rw [heq]), fun heq =>
    hadmin (by rw [heq]), ?_⟩
  unfold unpauseSatisfied at hready
  split_ifs at hready with hboth
  · rw [Bool.and_eq_true] at hready
    exact .inl ⟨h.agrees (w := .team1) hready.1, h.agrees (w := .team2) hready.2⟩
  · simp only [Bool.or_eq_true, not_or, Bool.not_eq_true] at hboth
    refine .inr ⟨hboth.1, hboth.2, ?_⟩
    cases hteam : s.pause.team with
    | team1 =>
      rw [hteam] at hready
      exact ⟨.team1, h.agrees (w := .team1) hready, .inr rfl⟩
    | team2 =>
      rw [hteam] at hready
      exact ⟨.team2, h.agrees (w := .team2) hready, .inr rfl⟩
    | unknown =>
      simp only [hteam, Bool.or_eq_true] at hready
      obtain hready | hready := hready
      · exact ⟨.team1, h.agrees (w := .team1) hready, .inl rfl⟩
      · exact ⟨.team2, h.agrees (w := .team2) hready, .inl rfl⟩

theorem Kept.playersUnpause (h : s.Kept) (c : Scene) (found : Present) (team : Team) :
    (s.playersUnpause c found team).Kept := by
  obtain hsame | ⟨s', hs', hpaused, htactical, hadmin, hdone⟩ := playersUnpause_spec s c found team
  · rwa [hsame]
  have h' : s'.Kept := by
    rw [hs']
    exact ((h.ask team).confirmFor found .team1).confirmFor found .team2
  have hpause : s'.pause.paused = s.pause.paused ∧ s'.pause.type = s.pause.type := by
    simp only [hs', pause_confirmFor]
    exact ⟨(requestUnpause_frame s.pause team).1, (requestUnpause_frame s.pause team).2.1⟩
  obtain heq | ⟨hready, heq⟩ := hdone
  · rwa [heq]
  · rw [heq]
    refine (h'.features _).resume fun rule hrule => ?_
    cases hrule
    exact h'.entitles (hpause.1.trans hpaused) (by rwa [hpause.2]) (by rwa [hpause.2]) hready

theorem Kept.step (h : s.Kept) (e : PauseEvent) : (s.step e).Kept := by
  obtain hmoves | ⟨c, team, -, -, heq⟩ | ⟨c, timeoutMax, team, -, -, heq⟩ | ⟨c, found, team,
      heq⟩ | heq | heq | heq :=
    step_cases s e
  · exact h.moves hmoves
  · rw [heq]
    exact h.markUse rfl team
  · rw [heq]
    exact h.markUse rfl team
  · rw [heq]
    exact h.playersUnpause c found team
  · rw [heq]
    exact (h.resume (by simp)).newMap
  · rw [heq]
    exact h.newMap
  · rw [heq]
    exact h.reloaded

theorem kept_run (es : List PauseEvent) : (run step {} es).Kept :=
  run_invariant kept_start fun e _ _ h => h.step e

/-- The teams end a pause only when those who may end it agree, and never a timeout or a pause of an
admin. -/
theorem players_entitled (es : List PauseEvent) (rule : Bool) (before : List Sign)
    (h : (.resumed (.players rule) :: before) <:+ (run step {} es).log) : Entitled rule before :=
  (kept_run es).entitled rule before h

/-- A live map under the rules of the server. -/
def liveScene : Scene where
  hasMatch := true
  mode := .matchLive
  rules := Config.builtinDefaultRules
  queued := true

/-- People of the first team alone, with or without `dev_bots_ready`. -/
def onlyTeam1 (devBotsReady : Bool) : Present where
  devBotsReady := devBotsReady
  simulation := false
  person w := decide (w = .team1)

/-- The second team asks for itself, or the server confirms for its bots. -/
theorem players_entitled_both :
    Entitled true [.asked .team2, .asked .team1, .paused .technical .team1] ∧
      Entitled true [.confirmed .team2 (onlyTeam1 true), .asked .team1,
        .paused .technical .team1] :=
  ⟨players_entitled
      [.tech liveScene .team1, .unpause liveScene (onlyTeam1 false) .team1,
        .unpause liveScene (onlyTeam1 false) .team2]
      true _ (List.suffix_refl _),
    players_entitled [.tech liveScene .team1, .unpause liveScene (onlyTeam1 true) .team1] true _
      (List.suffix_refl _)⟩

end Kept

section Limits

/-- The rules that a pause of the event is given under allow no more than `limit`. -/
def Limited (limit : PauseKind → ℕ) : PauseEvent → Prop
  | .tech c _ => 0 < c.rules.techPausesPerTeam ∧ c.rules.techPausesPerTeam ≤ limit .technical
  | .timeout _ timeoutMax _ => ∃ n, timeoutMax = some n ∧ n ≤ limit .tactical
  | _ => True

variable {limit : PauseKind → ℕ}

theorem given_moves {s s' : Pauses} (h : Moves s s') (w : Slot) (k : PauseKind) :
    given w k s'.log = given w k s.log := by
  induction h with
  | features s f => rfl
  | mark s hplain =>
    rename_i type team
    have hnot : ¬(type.kind = some k ∧ team.slot = some w) := by
      rintro ⟨hkind, hslot⟩
      simp [hkind, hslot] at hplain
    simp only [mark, given, if_neg hnot, Nat.add_zero]
  | resume s hwhy => rfl
  | trans _ _ ih₁ ih₂ => exact ih₂.trans ih₁

theorem given_confirmFor (found : Present) (v w : Slot) (k : PauseKind) :
    given w k (s.confirmFor found v).log = given w k s.log := by
  unfold confirmFor
  split_ifs <;> rfl

theorem given_playersUnpause (s : Pauses) (c : Scene) (found : Present) (team : Team) (w : Slot)
    (k : PauseKind) : given w k (s.playersUnpause c found team).log = given w k s.log := by
  obtain hsame | ⟨s', hs', -, -, -, hdone⟩ := playersUnpause_spec s c found team
  · rw [hsame]
  have hasked : given w k s'.log = given w k s.log := by
    simp only [hs', given_confirmFor, ask, given]
  obtain heq | ⟨-, heq⟩ := hdone
  · rw [heq, hasked]
  · simpa only [heq, unpause, resume, given] using hasked

/-- A pause of a team that had fewer than `limit` leaves it with no more. -/
theorem given_markUse (h : s.Kept) {type : PauseType} {kind : PauseKind} {team : Team}
    (hkind : type.kind = some kind)
    (hroom : s.pause.usedBy team kind < limit kind) (hle : ∀ w k, given w k s.log ≤ limit k)
    (w : Slot) (k : PauseKind) : given w k (s.markUse type kind team).log ≤ limit k := by
  simp only [markUse, given]
  split_ifs with hcounts
  · obtain ⟨hk, hslot⟩ := hcounts
    obtain rfl : kind = k := Option.some.inj (hkind.symm.trans hk)
    have hused : s.pause.usedBy team kind = given w kind s.log := by
      simp only [PauseState.usedBy, hslot, h.used w kind]
    omega
  · exact hle w k

theorem given_step (h : s.Kept) {e : PauseEvent} (he : Limited limit e)
    (hle : ∀ w k, given w k s.log ≤ limit k)
    (w : Slot) (k : PauseKind) : given w k (s.step e).log ≤ limit k := by
  obtain hmoves | ⟨c, team, rfl, hallowed, heq⟩ | ⟨c, timeoutMax, team, rfl, hallowed, heq⟩ | ⟨c,
      found, team, heq⟩ | heq |
    heq | heq := step_cases s e
  · simpa only [given_moves hmoves] using hle w k
  · obtain ⟨hpos, hmax⟩ :
        0 < c.rules.techPausesPerTeam ∧ c.rules.techPausesPerTeam ≤ limit .technical := he
    simp only [techPauseAllowed, Bool.or_eq_true, decide_eq_true_eq] at hallowed
    rw [heq]
    exact given_markUse h rfl (by omega) hle w k
  · obtain ⟨n, hn, hmax⟩ : ∃ n, timeoutMax = some n ∧ n ≤ limit .tactical := he
    have hroom := hallowed n hn
    rw [heq]
    exact given_markUse h rfl (by omega) hle w k
  · simpa only [heq, given_playersUnpause] using hle w k
  · simp [heq, newMap, given]
  · simp [heq, newMap, given]
  · simpa only [heq] using hle w k

/-- While the rules allow no more than `limit` pauses on a map, no team is given more, and the
counters of the teams are the pauses that they were given. -/
theorem pauses_within_limit (es : List PauseEvent) (hes : ∀ e ∈ es, Limited limit e) (w : Slot)
    (k : PauseKind) :
    (run step {} es).pause.used w k = given w k (run step {} es).log ∧
    given w k (run step {} es).log ≤ limit k := by
  have hrun : (run step {} es).Kept ∧ ∀ w k, given w k (run step {} es).log ≤ limit k :=
    run_invariant (P := fun s : Pauses => s.Kept ∧ ∀ w k, given w k s.log ≤ limit k)
      ⟨kept_start, fun _ _ => Nat.zero_le _⟩
      fun e he s hs => ⟨hs.1.step e, given_step hs.1 (hes e he) hs.2⟩
  exact ⟨hrun.1.used w k, hrun.2 w k⟩

theorem pauses_within_limit_three :
    (run step {} [.tech liveScene .team1, .timer true, .tech liveScene .team1]).pause.used .team1
      .technical =
        given .team1 .technical [.paused .technical .team1, .resumed .server,
          .paused .technical .team1] ∧
      given .team1 .technical [.paused .technical .team1, .resumed .server,
        .paused .technical .team1] ≤ 3 :=
  @pauses_within_limit (fun _ => 3) [.tech liveScene .team1, .timer true, .tech liveScene .team1]
    (by simp [Limited, liveScene, Config.builtinDefaultRules]) .team1 .technical

end Limits

end Pauses

end ReadyUp.Match
