import ReadyUp.Fleet.Bridge

/-!
# Epochs over a run

An assignment goes through only with an epoch above every epoch that the fence remembers for its
match, and what ends an assignment leaves its epoch in the fence. As long as the fence has room for
every match it hears of, the epochs accepted for a match rise, and no epoch that was assigned or
ended comes back. Messages about a match change nothing unless they are about the current
assignment. One message does more: on a server without an assignment, match.unassign drops the copy
of the match that the server has recovered by itself.
-/
namespace ReadyUp.Fleet

open ReadyUp.Support ReadyUp.Match

namespace Fence

variable {f : Fence} {m : String}

/-- A fence that knows only matches of a set of 64 has room for another one of them. -/
theorem retire_within {ids : Finset String} (hids : ids.card ≤ 64)
    (hwithin : ∀ id ∈ f.order, id ∈ ids) (hm : m ∈ ids) (hne : m ≠ "") {epoch : ℤ}
    (hepoch : 0 ≤ epoch) :
    (∀ id ∈ (f.retire m epoch).order, id ∈ ids) ∧ ∀ id, (f.retire m epoch).retiredEpoch id =
      if id = m then max (f.retiredEpoch m) epoch else f.retiredEpoch id := by
  by_cases hmem : m ∈ f.order
  · obtain ⟨horder, hread⟩ := retire_of_mem hmem hne epoch
    exact ⟨horder ▸ hwithin, hread⟩
  · have hroom : f.order.length < 64 := by
      have hsub : f.order.toFinset ⊂ ids := by
        refine Finset.ssubset_iff_subset_ne.mpr ⟨?_, ?_⟩
        · intro id hid
          exact hwithin id (List.mem_toFinset.mp hid)
        · intro heq
          exact hmem (List.mem_toFinset.mp (heq ▸ hm))
      have := Finset.card_lt_card hsub
      rw [List.toFinset_card_of_nodup f.nodup] at this
      omega
    obtain ⟨horder, hread⟩ := retire_of_room hmem hne hroom epoch
    constructor
    · intro id hid
      rw [horder, List.mem_append, List.mem_singleton] at hid
      exact hid.elim (hwithin id) fun heq => heq ▸ hm
    · rw [retiredEpoch_of_notMem hmem, max_eq_right hepoch]
      exact hread

theorem checkAssign_eq_ok {cur : Assignment} {epoch : ℤ} {localMatchActive : Bool}
    (h : f.checkAssign cur m epoch localMatchActive = .ok) :
    m ≠ "" ∧ 1 ≤ epoch ∧ f.retiredEpoch m ≤ epoch ∧
      (cur.active = true → cur.matchId = m ∧ cur.epoch < epoch) ∧
      (cur.active = false → f.retiredEpoch m ≠ epoch) := by
  unfold checkAssign at h
  split_ifs at h <;> grind

/-- A scoped message passes exactly when it is about the current assignment. -/
theorem checkScoped_eq_ok_iff {cur : Assignment} {epoch : ℤ} :
    f.checkScoped cur m epoch = .ok ↔
      cur.active = true ∧ cur.matchId = m ∧ cur.epoch = epoch := by
  unfold checkScoped
  split_ifs <;> grind

theorem checkScoped_eq_notAssigned {cur : Assignment} {epoch : ℤ} (hcur : cur.active = false)
    (hepoch : 0 < epoch) (h : f.checkScoped cur m epoch = .notAssigned) :
    f.retiredEpoch m < epoch := by
  have hempty : f.retiredEpoch "" = 0 := retiredEpoch_of_notMem f.named
  unfold checkScoped at h
  split_ifs at h <;> grind

end Fence

/-! ## What the fence sees of an event -/

namespace FenceLine

def matchId : FenceLine → String
  | .assigned matchId _ | .ended matchId _ => matchId

def epoch : FenceLine → ℤ
  | .assigned _ epoch | .ended _ epoch => epoch

/-- The second line, if it accepts an assignment, has a higher epoch than the first. -/
def Fences (first second : FenceLine) : Prop :=
  ∀ m e, second = .assigned m e → first.matchId = m → first.epoch < e

end FenceLine

namespace Bridge

variable {s t : Bridge}

/-- The assignment, the fence and the lines about them. -/
def fencing (s : Bridge) : Assignment × Fence × List FenceLine := (s.asg, s.fence, s.lines)

@[simp] theorem doRestore_fencing (s : Bridge) (mapNumber round : ℤ)
    (file sha requestedBy : String) (reason : RestoreReason) (scoreT1 scoreT2 : ℤ) :
    (s.doRestore mapNumber round file sha requestedBy reason scoreT1 scoreT2).fencing =
      s.fencing := by
  unfold doRestore
  dsimp only
  split_ifs <;> rfl

@[simp] theorem runDeferredRestore_fencing (s : Bridge) :
    s.runDeferredRestore.fencing = s.fencing := by
  unfold runDeferredRestore
  dsimp only
  split_ifs <;> rfl

@[simp] theorem restoreRoundFromLocalBackup_fencing (s : Bridge) (round : ℤ)
    (requestedBy : String) (reason : RestoreReason) (backup : Option (String × String)) :
    (s.restoreRoundFromLocalBackup round requestedBy reason backup).fencing = s.fencing := by
  unfold restoreRoundFromLocalBackup
  split_ifs
  · rfl
  · rfl
  · split
    · rfl
    · dsimp only
      split_ifs
      · exact doRestore_fencing ..
      · exact doRestore_fencing ..

@[simp] theorem beginLoad_fencing (s : Bridge) (parses licensed : Bool) :
    (s.beginLoad parses licensed).fencing = s.fencing := by
  cases parses <;> cases licensed <;> rfl

@[simp] theorem checkLoaded_fencing (s : Bridge) : s.checkLoaded.fencing = s.fencing := by
  unfold checkLoaded
  dsimp only
  split_ifs <;> rfl

@[simp] theorem tickHandOver_fencing (s : Bridge) (parses licensed : Bool) :
    (s.tickHandOver parses licensed).fencing = s.fencing := by
  unfold tickHandOver
  split_ifs
  · exact beginLoad_fencing ..
  · rfl

@[simp] theorem trackResumedMap_fencing (s : Bridge) : s.trackResumedMap.fencing = s.fencing := by
  unfold trackResumedMap
  split_ifs <;> rfl

@[simp] theorem tickResume_fencing (s : Bridge) : s.tickResume.fencing = s.fencing := by
  have htrack := s.trackResumedMap_fencing
  unfold tickResume
  dsimp only
  split_ifs
  · exact htrack
  · exact htrack
  · exact htrack
  · exact (doRestore_fencing ..).trans htrack
  · exact htrack
  · rfl

@[simp] theorem tickSignals_fencing (s : Bridge) : s.tickSignals.fencing = s.fencing := by
  unfold tickSignals
  dsimp only
  split_ifs <;> rfl

theorem tick_fencing (s : Bridge) (now : ℚ) (parses licensed : Bool) :
    (s.tick now parses licensed).fencing = s.fencing := by
  have hrun : ({ s with now } : Bridge).runDeferredRestore.fencing = s.fencing :=
    runDeferredRestore_fencing _
  unfold tick
  dsimp only
  split_ifs
  · exact hrun
  · simp only [tickSignals_fencing, tickResume_fencing, checkLoaded_fencing, tickHandOver_fencing,
      hrun]

theorem takeOver_fencing (s : Bridge) (m : Assign) : (s.takeOver m).fencing = s.fencing := by
  unfold takeOver
  dsimp only
  split <;> rfl

theorem handOver_fencing (s : Bridge) (m : Assign) : (s.handOver m).fencing = s.fencing := by
  unfold handOver
  split_ifs
  · rfl
  · rfl
  · exact beginLoad_fencing ..

theorem cmdRestore_fencing (s : Bridge) (mapNumber : Option ℤ) (round : ℤ)
    (backup : Option (String × String)) (requestedBy : String) :
    (s.cmdRestore mapNumber round backup requestedBy).fencing = s.fencing := by
  unfold cmdRestore
  split_ifs
  · rfl
  · rfl
  · rfl
  · split
    · rfl
    · exact doRestore_fencing ..

theorem cmdEnd_fencing (s : Bridge) (winner : String) : (s.cmdEnd winner).fencing = s.fencing := by
  unfold cmdEnd
  split_ifs <;> rfl

theorem runCommand_fencing (s : Bridge) (requestedBy : String) (c : Command) :
    (s.runCommand requestedBy c).fencing = s.fencing := by
  cases c with
  | restoreRound mapNumber round backup => exact cmdRestore_fencing ..
  | restartMap =>
    unfold runCommand
    split_ifs <;> rfl
  | endMatch winner => exact cmdEnd_fencing ..
  | other name => rfl

theorem onCmd_fencing (s : Bridge) (m : Cmd) : (s.onCmd m).fencing = s.fencing := by
  unfold onCmd
  split_ifs
  · rfl
  · rfl
  · exact runCommand_fencing ..

/-! ## What the fence knows -/

/-- The fence holds the epoch of the current assignment and every epoch in the lines. -/
structure Fenced (ids : Finset String) (s : Bridge) : Prop where
  within : ∀ id ∈ s.fence.order, id ∈ ids
  current : s.asg.active = true → s.asg.matchId ∈ ids ∧ s.asg.matchId ≠ "" ∧ 1 ≤ s.asg.epoch ∧
    s.fence.retiredEpoch s.asg.matchId = s.asg.epoch
  known : ∀ l ∈ s.lines, l.matchId ≠ "" → l.epoch ≤ s.fence.retiredEpoch l.matchId
  rising : s.lines.Pairwise FenceLine.Fences

theorem Fenced.of_fencing {ids : Finset String} (h : Fenced ids s) (ht : t.fencing = s.fencing) :
    Fenced ids t := by
  simp only [fencing, Prod.mk.injEq] at ht
  obtain ⟨hasg, hfence, hlines⟩ := ht
  exact ⟨hfence ▸ h.within, by rw [hasg, hfence]; exact h.current,
    by rw [hlines, hfence]; exact h.known, hlines ▸ h.rising⟩

/-- An accepted epoch is above all that the fence knows of the match. -/
theorem Fenced.lt_of_accepts {ids : Finset String} (h : Fenced ids s) {m : Assign}
    (hm : s.acceptsAssign m = true) :
    m.matchId ≠ "" ∧ 1 ≤ m.epoch ∧ s.fence.retiredEpoch m.matchId < m.epoch := by
  simp only [acceptsAssign, Bool.and_eq_true, decide_eq_true_eq] at hm
  obtain ⟨hne, hpos, hle, hactive, hidle⟩ := Fence.checkAssign_eq_ok hm.1.1.2
  refine ⟨hne, hpos, lt_of_le_of_ne hle ?_⟩
  cases hcur : (s.assignmentFor m.matchId).active with
  | false => exact hidle hcur
  | true =>
    obtain ⟨hsame, hlt⟩ := hactive hcur
    have hasg : s.asg.active = true := by
      simp only [assignmentFor, Bool.and_eq_true] at hcur
      exact hcur.1
    have hepoch := (h.current hasg).2.2.2
    rw [show s.asg.matchId = m.matchId from hsame] at hepoch
    have hlt : s.asg.epoch < m.epoch := hlt
    omega

/-- The epoch of the assignment is in the fence before it is cleared. -/
theorem Fenced.clearAssignment {ids : Finset String} (hids : ids.card ≤ 64) (h : Fenced ids s)
    (hactive : s.asg.active = true) :
    Fenced ids s.clearAssignment ∧ ∀ id,
      s.clearAssignment.fence.retiredEpoch id = s.fence.retiredEpoch id := by
  obtain ⟨hmem, hne, hpos, hepoch⟩ := h.current hactive
  obtain ⟨hwithin, hread⟩ := Fence.retire_within hids h.within hmem hne
    (show 0 ≤ s.asg.epoch by omega)
  have hsame : ∀ id, s.clearAssignment.fence.retiredEpoch id = s.fence.retiredEpoch id := by
    intro id
    refine (hread id).trans ?_
    split_ifs with hid
    · rw [hid, hepoch, max_self]
    · rfl
  exact ⟨⟨hwithin, nofun, fun l hl hne => (hsame _).symm ▸ h.known l hl hne, h.rising⟩, hsame⟩

theorem Fenced.adopt {ids : Finset String} (hids : ids.card ≤ 64) (h : Fenced ids s) {m : Assign}
    (hmem : m.matchId ∈ ids) (haccept : s.acceptsAssign m = true) : Fenced ids (s.adopt m) := by
  obtain ⟨hne, hpos, hlt⟩ := h.lt_of_accepts haccept
  let cleared := if s.asg.active && !(s.asg.active && decide (s.asg.matchId = m.matchId)) then
    s.clearAssignment else s
  obtain ⟨hcleared, hsame⟩ : Fenced ids cleared ∧
      ∀ id, cleared.fence.retiredEpoch id = s.fence.retiredEpoch id := by
    simp only [cleared]
    split_ifs with hother
    · exact h.clearAssignment hids (by simp only [Bool.and_eq_true] at hother; exact hother.1)
    · exact ⟨h, fun _ => rfl⟩
  obtain ⟨hwithin, hread⟩ := Fence.retire_within hids hcleared.within hmem hne
    (show 0 ≤ m.epoch by omega)
  have hepoch : (cleared.fence.retire m.matchId m.epoch).retiredEpoch m.matchId = m.epoch := by
    rw [hread, if_pos rfl, hsame]
    exact max_eq_right hlt.le
  have hmono : ∀ id, cleared.fence.retiredEpoch id ≤
      (cleared.fence.retire m.matchId m.epoch).retiredEpoch id := by
    intro id
    rw [hread]
    split_ifs with hid
    · exact hid ▸ le_max_left _ _
    · exact le_rfl
  refine ⟨hwithin, fun _ => ⟨hmem, hne, hpos, hepoch⟩, ?_, ?_⟩
  · intro l hl hlne
    rcases List.mem_append.mp hl with hl | hl
    · exact (hcleared.known l hl hlne).trans (hmono _)
    · obtain rfl := List.mem_singleton.mp hl
      exact hepoch.ge
  · refine List.pairwise_append.mpr ⟨hcleared.rising, List.pairwise_singleton _ _, ?_⟩
    intro l hl _ hnew m' e' heq hlm
    obtain rfl := List.mem_singleton.mp hnew
    obtain ⟨rfl, rfl⟩ := FenceLine.assigned.inj heq
    have := hcleared.known l hl (hlm ▸ hne)
    rw [hlm, hsame] at this
    omega

/-- A line about the end of a match asks nothing of those before it. -/
theorem Fenced.ended {ids : Finset String} (h : Fenced ids s) {m : String} {e : ℤ}
    (he : m ≠ "" → e ≤ s.fence.retiredEpoch m) :
    Fenced ids { s with lines := s.lines ++ [.ended m e] } := by
  refine ⟨h.within, h.current, ?_, ?_⟩
  · intro l hl hlne
    rcases List.mem_append.mp hl with hl | hl
    · exact h.known l hl hlne
    · obtain rfl := List.mem_singleton.mp hl
      exact he hlne
  · refine List.pairwise_append.mpr ⟨h.rising, List.pairwise_singleton _ _, ?_⟩
    intro l _ x hx m' e' heq
    rw [List.mem_singleton.mp hx] at heq
    exact (by cases heq)

theorem Fenced.retire {ids : Finset String} (hids : ids.card ≤ 64) (h : Fenced ids s)
    (hidle : s.asg.active = false) {m : String} (hmem : m ≠ "" → m ∈ ids) {e : ℤ} (hpos : 0 < e) :
    Fenced ids { s with fence := s.fence.retire m e } ∧
      (m ≠ "" → e ≤ (s.fence.retire m e).retiredEpoch m) := by
  rcases eq_or_ne m "" with rfl | hne
  · rw [Fence.retire_empty]
    exact ⟨h, fun hne => absurd rfl hne⟩
  · obtain ⟨hwithin, hread⟩ := Fence.retire_within hids h.within (hmem hne) hne hpos.le
    refine ⟨⟨hwithin, ?_, ?_, h.rising⟩, ?_⟩
    · intro hactive
      rw [show s.asg.active = true from hactive] at hidle
      exact (by cases hidle)
    · intro l hl hlne
      refine (h.known l hl hlne).trans ((hread l.matchId).symm ▸ ?_)
      split_ifs with hid
      · exact hid ▸ le_max_left _ _
      · exact le_rfl
    · intro _
      rw [hread, if_pos rfl]
      exact le_max_right _ _

theorem Fenced.dropRecoveredCopy {ids : Finset String} (hids : ids.card ≤ 64) (h : Fenced ids s)
    {m : String} {e : ℤ} (hmem : m ≠ "" → m ∈ ids) (hidle : s.asg.active = false) (hpos : 0 < e)
    (ht : s.dropRecoveredCopy m e = some t) : Fenced ids t := by
  obtain ⟨u, hu, rfl⟩ := Option.map_eq_some_iff.mp ht
  have hfencing : u.fencing = s.fencing := by
    split_ifs at hu
    · exact Option.some.inj hu ▸ rfl
    · exact Option.some.inj hu ▸ rfl
  have hactive : u.asg.active = false := by
    rw [show u.asg = s.asg from congrArg Prod.fst hfencing, hidle]
  obtain ⟨hretired, hepoch⟩ := (h.of_fencing hfencing).retire hids hactive hmem hpos
  exact hretired.ended hepoch

theorem Fenced.onUnassign {ids : Finset String} (hids : ids.card ≤ 64) (h : Fenced ids s)
    {m : Unassign} (hmem : m.matchId ≠ "" → m.matchId ∈ ids) : Fenced ids (s.onUnassign m) := by
  unfold Bridge.onUnassign
  dsimp only
  by_cases hreplayed : s.asg.active = false ∧ 0 < m.epoch ∧
      m.epoch = s.fence.retiredEpoch m.matchId
  · rw [if_pos hreplayed]
    exact h
  rw [if_neg hreplayed]
  by_cases hok : s.fence.checkScoped s.asg m.matchId m.epoch = .ok
  · rw [if_neg (not_not.mpr hok)]
    obtain ⟨hactive, hid, hepoch⟩ := Fence.checkScoped_eq_ok_iff.mp hok
    have hunloaded : ∀ u : Bridge, u.fencing = s.fencing →
        Fenced ids { u.clearAssignment with lines := u.lines ++ [.ended m.matchId m.epoch] } := by
      intro u hu
      have hasg : u.asg = s.asg := congrArg Prod.fst hu
      obtain ⟨hcleared, hsame⟩ := (h.of_fencing hu).clearAssignment hids (hasg ▸ hactive)
      apply hcleared.ended
      intro _
      rw [hsame, show u.fence = s.fence from congrArg (·.2.1) hu, ← hid, (h.current hactive).2.2.2,
        hepoch]
    split <;> exact hunloaded _ rfl
  · rw [if_pos hok]
    split_ifs with hdrop
    · cases hcopy : s.dropRecoveredCopy m.matchId m.epoch with
      | none => exact h
      | some u => exact h.dropRecoveredCopy hids hmem hdrop.1 hdrop.2.2 hcopy
    · exact h

theorem Fenced.onUpdate {ids : Finset String} (h : Fenced ids s) (m : Update) :
    Fenced ids (s.onUpdate m) := by
  unfold Bridge.onUpdate
  split_ifs
  · exact h
  · exact h
  · exact h
  · exact ⟨h.within, h.current, h.known, h.rising⟩
  · exact h

theorem Fenced.reload {ids : Finset String} (h : Fenced ids s) : Fenced ids s.reload := by
  obtain ⟨horder, hread⟩ := s.fence.fromJson_toJson
  refine ⟨fun id hid => h.within id (horder ▸ hid), ?_, ?_, h.rising⟩
  · intro hactive
    have hasg : s.asg.active = true := by
      by_contra hidle
      rw [Bridge.reload, if_neg hidle] at hactive
      exact (by cases hactive)
    have heq : s.reload.asg = s.asg := if_pos hasg
    rw [heq]
    obtain ⟨hmem, hne, hpos, hepoch⟩ := h.current hasg
    exact ⟨hmem, hne, hpos, (hread _).trans hepoch⟩
  · intro l hl hlne
    exact (h.known l hl hlne).trans (hread _).ge

end Bridge

/-! ## Runs -/

/-- The match that a message is about. -/
def BridgeEvent.matchId : BridgeEvent → Option String
  | .assign m => some m.matchId
  | .update m => some m.matchId
  | .unassign m => some m.matchId
  | .cmd m => some m.matchId
  | _ => none

namespace Bridge

variable {s : Bridge}

theorem Fenced.step {ids : Finset String} (hids : ids.card ≤ 64) (h : Fenced ids s)
    {e : BridgeEvent} (he : ∀ m ∈ e.matchId, m ≠ "" → m ∈ ids) : Fenced ids (s.step e) := by
  cases e with
  | assign m =>
    simp only [Bridge.step, Bridge.onAssign]
    by_cases haccept : s.acceptsAssign m = true
    · rw [if_pos haccept]
      have hadopted := h.adopt hids (he _ rfl (h.lt_of_accepts haccept).1) haccept
      split_ifs
      · exact hadopted
      · exact hadopted.of_fencing ((handOver_fencing _ m).trans (takeOver_fencing _ m))
    · rw [if_neg haccept]
      exact h
  | update m => exact h.onUpdate m
  | unassign m => exact h.onUnassign hids (he _ rfl)
  | cmd m => exact h.of_fencing (s.onCmd_fencing m)
  | localRestore round requestedBy reason backup =>
    exact h.of_fencing (s.restoreRoundFromLocalBackup_fencing ..)
  | game e => cases e <;> exact h.of_fencing rfl
  | mapStart map mapNumber =>
    apply h.of_fencing
    simp only [Bridge.step, setMapNumber]
    split <;> rfl
  | recoverMap mapNumber =>
    apply h.of_fencing
    simp only [Bridge.step, setMapNumber]
    split <;> rfl
  | loadLocal m mapNumber => exact h.of_fencing rfl
  | endLocal => exact h.of_fencing rfl
  | finishSeries scrim => exact h.of_fencing rfl
  | flow mode matchEndPending => exact h.of_fencing rfl
  | drain draining => exact h.of_fencing rfl
  | tick now parses licensed => exact h.of_fencing (s.tick_fencing now parses licensed)
  | reload => exact h.reload

/-- The message is about the current assignment. -/
def IsCurrent (s : Bridge) (m : Scope) : Prop :=
  s.asg.active = true ∧ s.asg.matchId = m.matchId ∧ s.asg.epoch = m.epoch

/-- The server runs, or would recover, its own copy of a match that has ended elsewhere. -/
def HoldsCopy (s : Bridge) (m : Scope) : Prop :=
  s.asg.active = false ∧ s.fence.retiredEpoch m.matchId < m.epoch ∧
    (s.localMatchIs m.matchId = true ∨ s.saved = some (numericMatchId m.matchId))

theorem onUpdate_of_not_isCurrent {m : Update} (h : ¬s.IsCurrent m.toScope) :
    s.onUpdate m = s :=
  if_pos (mt Fence.checkScoped_eq_ok_iff.mp h)

theorem onCmd_of_not_isCurrent {m : Cmd} (hscoped : m.scoped = true)
    (h : ¬s.IsCurrent m.toScope) : s.onCmd m = s := by
  unfold onCmd
  split_ifs with hexpired hrefused
  · rfl
  · rfl
  · exact absurd ⟨hscoped, .inr (mt Fence.checkScoped_eq_ok_iff.mp h)⟩ hrefused

/-- An unassign that is not about the current assignment can only drop a copy. -/
theorem onUnassign_of_not_isCurrent {m : Unassign} (h : ¬s.IsCurrent m.toScope)
    (hcopy : ¬s.HoldsCopy m.toScope) : s.onUnassign m = s := by
  have hverdict : s.fence.checkScoped s.asg m.matchId m.epoch ≠ .ok :=
    mt Fence.checkScoped_eq_ok_iff.mp h
  unfold onUnassign
  dsimp only
  split_ifs with hreplayed hdrop
  · rfl
  · obtain ⟨hidle, hnotAssigned, hpos⟩ := hdrop
    have hlt := Fence.checkScoped_eq_notAssigned hidle hpos hnotAssigned
    have hnone : s.dropRecoveredCopy m.matchId m.epoch = none := by
      simp only [dropRecoveredCopy, Option.map_eq_none_iff]
      rw [if_neg fun hlocal => hcopy ⟨hidle, hlt, .inl hlocal⟩,
        if_neg fun hsaved => hcopy ⟨hidle, hlt, .inr hsaved⟩]
    rw [hnone, Option.getD_none]
  · rfl

/-- In every run that hears of at most 64 matches, each accepted epoch of a match is above every
epoch of it that was assigned or ended before. Updates and scoped commands change nothing unless
they are about the current assignment; an unassign changes nothing unless it is, or unless it is
for a copy that a server without an assignment holds. -/
theorem fences_of_run (s : Bridge) (hidle : s.asg.active = false) (hfence : s.fence = ∅)
    (hlines : s.lines = []) (ids : Finset String) (hids : ids.card ≤ 64) (es : List BridgeEvent)
    (hes : ∀ e ∈ es, ∀ m ∈ e.matchId, m ≠ "" → m ∈ ids) :
    let t := run Bridge.step s es
    t.lines.Pairwise FenceLine.Fences ∧
      (∀ m : Update, ¬t.IsCurrent m.toScope → t.onUpdate m = t) ∧
      (∀ m : Cmd, m.scoped = true → ¬t.IsCurrent m.toScope → t.onCmd m = t) ∧
      ∀ m : Unassign, ¬t.IsCurrent m.toScope → ¬t.HoldsCopy m.toScope → t.onUnassign m = t := by
  have hstart : Fenced ids s :=
    ⟨by simp [hfence, EmptyCollection.emptyCollection], by simp [hidle], by simp [hlines],
      by simp [hlines]⟩
  have hfenced : Fenced ids (run Bridge.step s es) :=
    run_invariant hstart fun e he _ h => h.step hids (hes e he)
  exact ⟨hfenced.rising, fun _ => onUpdate_of_not_isCurrent, fun _ => onCmd_of_not_isCurrent,
    fun _ => onUnassign_of_not_isCurrent⟩

/-- A match that is assigned, unassigned, replayed with its old epoch, and assigned again after a
reload. -/
theorem fences_of_run_replay :
    let es : List BridgeEvent :=
      [.assign { matchId := "7", payloadEpoch := 1 },
        .unassign { matchId := "7", payloadEpoch := 1 },
        .assign { matchId := "7", payloadEpoch := 1 }, .reload,
        .assign { matchId := "7", payloadEpoch := 2 }]
    (run Bridge.step {} es).lines = [.assigned "7" 1, .ended "7" 1, .assigned "7" 2] ∧
      (run Bridge.step {} es).lines.Pairwise FenceLine.Fences :=
  ⟨by decide, (fences_of_run {} rfl rfl rfl {"7"} (by decide) _ (by decide)).1⟩

/-- A server that has recovered match 7 after a restart and has no assignment. -/
def recovered : Bridge :=
  { ctx := some { matchid := 7, slug := "7" }, saved := some 7, mode := .matchLive }

/-- An unassign that is not about a current assignment ends the recovered match. -/
theorem unassign_drops_recovered_copy :
    ¬recovered.IsCurrent { matchId := "7", payloadEpoch := 3 } ∧
      recovered.ctx.isSome = true ∧
      (recovered.step (.unassign { matchId := "7", payloadEpoch := 3 })).ctx = none := by
  refine ⟨?_, ?_, ?_⟩
  · exact fun h => by cases h.1
  · rfl
  · decide

end Bridge

end ReadyUp.Fleet
