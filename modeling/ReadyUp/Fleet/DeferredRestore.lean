import ReadyUp.Fleet.Fencing

/-!
# Restores that wait

A restore that is asked for in the middle of a round waits for the next round start and then runs
on whatever the server is on. Nothing takes it back in between: an assignment that ends, a match
that is unloaded or replaced and a map change leave `g_deferredRestore` as it is. The one case
looked after is a crash recovery that the platform has overtaken. So a restore runs where it was
asked for as long as nothing moves the match while it waits.
-/
namespace ReadyUp.Fleet

open ReadyUp.Support ReadyUp.Match

namespace Bridge

variable {s t : Bridge}

/-- The restore that waits and the restores that have run. -/
def queue (s : Bridge) : DeferredRestore × List Restored := (s.deferred, s.restored)

/-- Every restore has run where it was asked for. The one that waits, if any, is still there, or it
is a crash recovery that the platform has overtaken. -/
structure RestoresInPlace (s : Bridge) : Prop where
  pending : s.deferred.active = true →
    s.deferred.asked = s.place ∨ s.deferred.reason = .recovery ∧ s.asg.active = true
  done : ∀ r ∈ s.restored, r.restore.asked = r.place

namespace RestoresInPlace

theorem of_queue (h : s.RestoresInPlace) (hqueue : t.queue = s.queue)
    (hplace : s.deferred.active = true →
      t.place = s.place ∨ s.deferred.reason = .recovery ∧ t.asg.active = true)
    (hasg : s.deferred.active = true → s.asg.active = true → t.asg.active = true) :
    t.RestoresInPlace := by
  obtain ⟨hdeferred, hrestored⟩ := Prod.mk.inj hqueue
  refine ⟨?_, hrestored ▸ h.done⟩
  intro hactive
  rw [hdeferred] at hactive ⊢
  rcases h.pending hactive with hasked | ⟨hrecovery, hassigned⟩
  · rcases hplace hactive with hsame | hovertaken
    · exact .inl (hsame ▸ hasked)
    · exact .inr hovertaken
  · exact .inr ⟨hrecovery, hasg hactive hassigned⟩

theorem of_same (h : s.RestoresInPlace) (hqueue : t.queue = s.queue) (hplace : t.place = s.place)
    (hasg : t.asg = s.asg) : t.RestoresInPlace :=
  h.of_queue hqueue (fun _ => .inl hplace) fun _ hactive => hasg ▸ hactive

theorem doRestoreNow (h : s.RestoresInPlace) {d : DeferredRestore} (hd : d.asked = s.place) :
    (s.doRestoreNow d).RestoresInPlace := by
  refine ⟨h.pending, ?_⟩
  intro r hr
  rcases List.mem_append.mp hr with hr | hr
  · exact h.done r hr
  · obtain rfl := List.mem_singleton.mp hr
    exact hd

theorem doRestore (h : s.RestoresInPlace) (mapNumber round : ℤ) (file sha requestedBy : String)
    (reason : RestoreReason) (scoreT1 scoreT2 : ℤ) :
    (s.doRestore mapNumber round file sha requestedBy reason scoreT1 scoreT2).RestoresInPlace := by
  unfold Bridge.doRestore
  dsimp only
  split_ifs
  · exact ⟨fun _ => .inl rfl, h.done⟩
  · exact ⟨fun _ => .inl rfl, h.done⟩
  · exact h.doRestoreNow rfl

theorem runDeferredRestore (h : s.RestoresInPlace) : s.runDeferredRestore.RestoresInPlace := by
  unfold Bridge.runDeferredRestore
  dsimp only
  split_ifs with hidle hneed hover hover hovertaken
  · exact h
  · exact ⟨h.pending, h.done⟩
  · exact h
  · exact h
  · exact ⟨nofun, h.done⟩
  · -- a recovery that the platform has overtaken does not get here
    have hactive : s.deferred.active = true := by simpa using hidle
    have hasked := (h.pending hactive).resolve_right fun hrecovery =>
      hovertaken ⟨hrecovery.1, .inr hrecovery.2⟩
    have hdone := h.doRestoreNow hasked
    exact ⟨nofun, hdone.done⟩

end RestoresInPlace

/-! ## What leaves the queue alone -/

@[simp] theorem beginLoad_queue (s : Bridge) (parses licensed : Bool) :
    (s.beginLoad parses licensed).queue = s.queue := by
  cases parses <;> cases licensed <;> rfl

theorem takeOver_queue (s : Bridge) (m : Assign) : (s.takeOver m).queue = s.queue := by
  unfold takeOver
  dsimp only
  split <;> rfl

theorem handOver_queue (s : Bridge) (m : Assign) : (s.handOver m).queue = s.queue := by
  unfold handOver
  split_ifs
  · rfl
  · rfl
  · exact beginLoad_queue ..

theorem adopt_queue (s : Bridge) (m : Assign) :
    (s.adopt m).queue = s.queue ∧ (s.adopt m).place = s.place := by
  unfold adopt
  dsimp only
  split <;> exact ⟨rfl, rfl⟩

theorem dropRecoveredCopy_queue {m : String} {e : ℤ} (ht : s.dropRecoveredCopy m e = some t) :
    t.queue = s.queue := by
  obtain ⟨u, hu, rfl⟩ := Option.map_eq_some_iff.mp ht
  split_ifs at hu
  · exact Option.some.inj hu ▸ rfl
  · exact Option.some.inj hu ▸ rfl

theorem onUnassign_queue (s : Bridge) (m : Unassign) : (s.onUnassign m).queue = s.queue := by
  unfold onUnassign
  dsimp only
  split_ifs
  · rfl
  · cases hcopy : s.dropRecoveredCopy m.matchId m.epoch with
    | none => rfl
    | some t => exact dropRecoveredCopy_queue hcopy
  · rfl
  · rfl
  · rfl

theorem onUpdate_queue (s : Bridge) (m : Update) :
    (s.onUpdate m).queue = s.queue ∧ (s.onUpdate m).place = s.place ∧
      (s.onUpdate m).asg.active = s.asg.active := by
  unfold onUpdate
  split_ifs <;> exact ⟨rfl, rfl, rfl⟩

theorem setMapNumber_eq_of_same {mapNumber : ℤ} (h : 1 ≤ mapNumber → mapNumber = s.mapNumber) :
    s.setMapNumber mapNumber = s := by
  unfold setMapNumber
  split_ifs with hpos
  · rw [h hpos]
  · rfl

/-! ## What moves the match -/

/-- Neither the hand-over nor a resume moves the match in this tick. -/
structure TickQuiet (s : Bridge) : Prop where
  handOver : s.handOverPending = true → s.now < s.handOverAt
  resume : s.resumeActive = true → s.mapNumber = s.resume.mapNumber

/-- An event that leaves the match and the map where they are. -/
def LeavesMatch (s : Bridge) : BridgeEvent → Prop
  | .assign m => s.acceptsAssign m = true → s.reissue m = true
  | .unassign m => ¬s.IsCurrent m.toScope ∧ ¬s.HoldsCopy m.toScope
  | .cmd m => ∀ winner ∈ ["none", "team1", "team2"], m.command = .endMatch winner →
    s.ctxIsOurs = true → m.expired = true ∨ ¬s.IsCurrent m.toScope
  | .mapStart map mapNumber => map = s.map ∧ (1 ≤ mapNumber → mapNumber = s.mapNumber)
  | .recoverMap mapNumber => 1 ≤ mapNumber → mapNumber = s.mapNumber
  | .loadLocal m mapNumber => s.ctx.map Loaded.matchid = some m.matchid ∧
    max 1 mapNumber = s.mapNumber
  | .endLocal | .finishSeries _ => s.ctx = none
  | .tick now _ _ => s.deferred.needRoundEnd = true ∨ s.roundOver = true →
    ({ s with now } : Bridge).TickQuiet
  | _ => True

/-- A crash recovery waits, and the platform has overtaken it or does so with this event. -/
def Overtaken (s : Bridge) (e : BridgeEvent) : Prop :=
  s.deferred.reason = .recovery ∧
    match e with
    | .assign _ => True
    | .unassign m => s.asg.active = true ∧ ¬s.IsCurrent m.toScope
    | _ => s.asg.active = true

/-- While a restore waits, nothing moves the match, save over a crash recovery that the platform
has overtaken. -/
def Undisturbed (s : Bridge) (e : BridgeEvent) : Prop :=
  s.deferred.active = true → s.LeavesMatch e ∨ s.Overtaken e

namespace RestoresInPlace

theorem of_idle (h : s.RestoresInPlace) (hqueue : t.queue = s.queue)
    (hidle : ¬s.deferred.active = true) : t.RestoresInPlace :=
  h.of_queue hqueue (fun hactive => absurd hactive hidle) fun hactive => absurd hactive hidle

/-- An event of the match flow, which has no part in the assignment. -/
theorem of_flow {e : BridgeEvent} (h : s.RestoresInPlace) (hund : s.Undisturbed e)
    (hqueue : t.queue = s.queue) (hasg : t.asg = s.asg)
    (hleaves : s.LeavesMatch e → t.place = s.place)
    (hover : s.Overtaken e → s.asg.active = true) : t.RestoresInPlace := by
  refine h.of_queue hqueue ?_ fun _ hassigned => hasg ▸ hassigned
  intro hactive
  exact (hund hactive).imp hleaves fun hovertaken => ⟨hovertaken.1, hasg ▸ hover hovertaken⟩

theorem onAssign {m : Assign} (h : s.RestoresInPlace) (hund : s.Undisturbed (.assign m)) :
    (s.onAssign m).RestoresInPlace := by
  obtain ⟨hqueue, hplace⟩ := s.adopt_queue m
  unfold Bridge.onAssign
  split_ifs with haccept hreissue
  · exact h.of_queue hqueue (fun _ => .inl hplace) fun _ _ => rfl
  · have hasg : (((s.adopt m).takeOver m).handOver m).asg.active = true :=
      congrArg (·.1.active) ((handOver_fencing _ m).trans (takeOver_fencing _ m))
    refine h.of_queue ((handOver_queue _ m).trans ((takeOver_queue _ m).trans hqueue))
      (fun hactive => .inr ⟨?_, hasg⟩) fun _ _ => hasg
    rcases hund hactive with hleaves | hovertaken
    · exact absurd (hleaves haccept) hreissue
    · exact hovertaken.1
  · exact h

theorem onUnassign {m : Unassign} (h : s.RestoresInPlace) (hund : s.Undisturbed (.unassign m)) :
    (s.onUnassign m).RestoresInPlace := by
  by_cases hactive : s.deferred.active = true
  · have hother : ¬s.IsCurrent m.toScope ∧ ¬s.HoldsCopy m.toScope := by
      rcases hund hactive with hleaves | ⟨-, hassigned, hcurrent⟩
      · exact hleaves
      · exact ⟨hcurrent, fun hcopy => Bool.noConfusion (hassigned.symm.trans hcopy.1)⟩
    rw [onUnassign_of_not_isCurrent hother.1 hother.2]
    exact h
  · exact h.of_idle (onUnassign_queue s m) hactive

theorem cmdRestore (h : s.RestoresInPlace) (mapNumber : Option ℤ) (round : ℤ)
    (backup : Option (String × String)) (requestedBy : String) :
    (s.cmdRestore mapNumber round backup requestedBy).RestoresInPlace := by
  unfold Bridge.cmdRestore
  split_ifs
  · exact h
  · exact h
  · exact h
  · split
    · exact h
    · exact h.doRestore ..

theorem cmdEnd (h : s.RestoresInPlace) (winner : String)
    (hover : winner ∈ ["none", "team1", "team2"] → s.ctxIsOurs = true →
      s.deferred.active = true → s.deferred.reason = .recovery ∧ s.asg.active = true) :
    (s.cmdEnd winner).RestoresInPlace := by
  unfold Bridge.cmdEnd
  split_ifs with hours hwinner
  · exact h
  · exact h
  · have hmem : winner ∈ ["none", "team1", "team2"] := by
      simp only [List.mem_cons, List.not_mem_nil, or_false]
      tauto
    have hours : s.ctxIsOurs = true := by simpa using hours
    exact h.of_queue rfl (fun hactive => .inr (hover hmem hours hactive))
      fun _ hassigned => hassigned

theorem onCmd {m : Cmd} (h : s.RestoresInPlace) (hund : s.Undisturbed (.cmd m)) :
    (s.onCmd m).RestoresInPlace := by
  unfold Bridge.onCmd
  split_ifs with hexpired hrefused
  · exact h
  · exact h
  · cases hcommand : m.command with
    | restoreRound mapNumber round backup => exact h.cmdRestore ..
    | restartMap =>
      unfold Bridge.runCommand
      dsimp only
      split_ifs
      · exact h.of_same rfl rfl rfl
      · exact h
    | endMatch winner =>
      apply h.cmdEnd winner
      intro hwinner hours hactive
      rcases hund hactive with hleaves | hovertaken
      · have hcurrent := (hleaves winner hwinner hcommand hours).resolve_left hexpired
        refine absurd ⟨?_, .inr (mt Fence.checkScoped_eq_ok_iff.mp hcurrent)⟩ hrefused
        rw [Cmd.scoped, hcommand]
        rfl
      · exact hovertaken
    | other name => exact h

theorem restoreRoundFromLocalBackup (h : s.RestoresInPlace) (round : ℤ) (requestedBy : String)
    (reason : RestoreReason) (backup : Option (String × String)) :
    (s.restoreRoundFromLocalBackup round requestedBy reason backup).RestoresInPlace := by
  unfold Bridge.restoreRoundFromLocalBackup
  split_ifs
  · exact h
  · exact h
  · split
    · exact h
    · dsimp only
      split_ifs
      · exact h.doRestore ..
      · exact (h.doRestore ..).of_same rfl rfl rfl

end RestoresInPlace

/-! ## The tick -/

/-- While a restore waits, the tick does not move the match, or what waits is a crash recovery that
the platform has overtaken. -/
def Settled (s : Bridge) : Prop :=
  s.deferred.active = true →
    s.TickQuiet ∨ s.deferred.reason = .recovery ∧ s.asg.active = true

theorem runDeferredRestore_of_active (h : s.runDeferredRestore.deferred.active = true) :
    s.deferred.active = true ∧ (s.deferred.needRoundEnd = true ∨ s.roundOver = true) ∧
      ∃ needRoundEnd, s.runDeferredRestore =
        { s with deferred := { s.deferred with needRoundEnd } } := by
  revert h
  unfold runDeferredRestore
  dsimp only
  split_ifs with hidle hneed hover hover hovertaken
  · exact fun h => Bool.noConfusion (hidle.symm.trans h)
  · exact fun h => ⟨h, .inl hneed, false, rfl⟩
  · exact fun h => ⟨h, .inl hneed, s.deferred.needRoundEnd, rfl⟩
  · exact fun h => ⟨h, .inr hover, s.deferred.needRoundEnd, rfl⟩
  · exact nofun
  · exact nofun

theorem Undisturbed.settled {now : ℚ} {parses licensed : Bool}
    (hund : s.Undisturbed (.tick now parses licensed)) :
    ({ s with now } : Bridge).runDeferredRestore.Settled := by
  intro hwaits
  obtain ⟨hactive, hstays, needRoundEnd, heq⟩ := runDeferredRestore_of_active hwaits
  rw [heq]
  rcases hund hactive with hleaves | hovertaken
  · obtain ⟨hhandOver, hresume⟩ := hleaves hstays
    exact .inl ⟨hhandOver, hresume⟩
  · exact .inr hovertaken

namespace RestoresInPlace

theorem tickHandOver (h : s.RestoresInPlace) (hsettled : s.Settled) (parses licensed : Bool) :
    (s.tickHandOver parses licensed).RestoresInPlace ∧
      (s.tickHandOver parses licensed).Settled := by
  unfold Bridge.tickHandOver
  split_ifs with hdue
  · -- the match is loaded now: what waits is no longer for it
    have hqueue := s.beginLoad_queue parses licensed
    have hasg : (s.beginLoad parses licensed).asg = s.asg :=
      congrArg Prod.fst (s.beginLoad_fencing parses licensed)
    have hover : s.deferred.active = true →
        s.deferred.reason = .recovery ∧ s.asg.active = true := by
      refine fun hactive => (hsettled hactive).resolve_left ?_
      intro hquiet
      simp only [Bool.and_eq_true, decide_eq_true_eq] at hdue
      exact absurd hdue.2 (not_le.mpr (hquiet.handOver hdue.1))
    have hdeferred : (s.beginLoad parses licensed).deferred = s.deferred :=
      congrArg Prod.fst hqueue
    constructor
    · exact h.of_queue hqueue (fun hactive => .inr (hasg ▸ hover hactive))
        fun _ hassigned => hasg ▸ hassigned
    · intro hactive
      rw [hdeferred] at hactive ⊢
      exact .inr (hasg ▸ hover hactive)
  · exact ⟨h, hsettled⟩

theorem checkLoaded (h : s.RestoresInPlace) (hsettled : s.Settled) :
    s.checkLoaded.RestoresInPlace ∧ s.checkLoaded.Settled := by
  unfold Bridge.checkLoaded
  dsimp only
  split_ifs
  · refine ⟨h.of_same rfl rfl rfl, ?_⟩
    intro hactive
    exact (hsettled hactive).imp (fun hquiet => ⟨hquiet.handOver, hquiet.resume⟩) id
  · exact ⟨h, hsettled⟩

theorem trackResumedMap (h : s.RestoresInPlace) (hsettled : s.Settled)
    (hresume : s.resumeActive = true) : s.trackResumedMap.RestoresInPlace := by
  unfold Bridge.trackResumedMap
  split_ifs with hother
  · refine h.of_queue rfl (fun hactive => .inr ?_) fun _ hassigned => hassigned
    exact (hsettled hactive).resolve_left fun hquiet => hother.1 (hquiet.resume hresume)
  · exact h

theorem tickResume (h : s.RestoresInPlace) (hsettled : s.Settled) :
    s.tickResume.RestoresInPlace := by
  unfold Bridge.tickResume
  by_cases hresuming : (s.resumeActive && !s.loading && !s.handOverPending) = true
  · have htracked : s.trackResumedMap.RestoresInPlace := by
      simp only [Bool.and_eq_true] at hresuming
      exact h.trackResumedMap hsettled hresuming.1.1
    rw [if_pos hresuming]
    dsimp only
    split_ifs
    · exact htracked.of_same rfl rfl rfl
    · exact htracked
    · exact htracked.of_same rfl rfl rfl
    · refine RestoresInPlace.doRestore ?_ ..
      exact htracked.of_same rfl rfl rfl
    · exact htracked
  · rw [if_neg hresuming]
    exact h

theorem tickSignals (h : s.RestoresInPlace) : s.tickSignals.RestoresInPlace := by
  unfold Bridge.tickSignals
  dsimp only
  split_ifs
  · exact h.of_same rfl rfl rfl
  · exact h.of_same rfl rfl rfl

theorem tick (h : s.RestoresInPlace) {now : ℚ} {parses licensed : Bool}
    (hund : s.Undisturbed (.tick now parses licensed)) :
    (s.tick now parses licensed).RestoresInPlace := by
  have hnow : ({ s with now } : Bridge).RestoresInPlace := h.of_same rfl rfl rfl
  have hrun := hnow.runDeferredRestore
  unfold Bridge.tick
  dsimp only
  split_ifs
  · exact hrun.of_same rfl rfl rfl
  · obtain ⟨hover, hsettled⟩ := hrun.tickHandOver hund.settled parses licensed
    obtain ⟨hloaded, hsettled⟩ := hover.checkLoaded hsettled
    exact (hloaded.tickResume hsettled).tickSignals

/-! ## Runs -/

theorem step {e : BridgeEvent} (h : s.RestoresInPlace) (hund : s.Undisturbed e) :
    (s.step e).RestoresInPlace := by
  cases e with
  | assign m => exact h.onAssign hund
  | update m =>
    obtain ⟨hqueue, hplace, hasg⟩ := onUpdate_queue s m
    exact h.of_queue hqueue (fun _ => .inl hplace) fun _ hassigned => hasg.trans hassigned
  | unassign m => exact h.onUnassign hund
  | cmd m => exact h.onCmd hund
  | localRestore round requestedBy reason backup => exact h.restoreRoundFromLocalBackup ..
  | game e => cases e <;> exact h.of_same rfl rfl rfl
  | mapStart map mapNumber =>
    refine h.of_flow hund ?_ ?_ ?_ And.right
    · simp only [Bridge.step, setMapNumber]
      split <;> rfl
    · simp only [Bridge.step, setMapNumber]
      split <;> rfl
    · rintro ⟨rfl, hnumber⟩
      rw [Bridge.step, setMapNumber_eq_of_same hnumber]
      rfl
  | recoverMap mapNumber =>
    refine h.of_flow hund ?_ ?_ ?_ And.right
    · simp only [Bridge.step, setMapNumber]
      split <;> rfl
    · simp only [Bridge.step, setMapNumber]
      split <;> rfl
    · intro hnumber
      rw [Bridge.step, setMapNumber_eq_of_same hnumber]
  | loadLocal m mapNumber =>
    refine h.of_flow hund rfl rfl ?_ And.right
    rintro ⟨hmatch, hnumber⟩
    simp only [Bridge.step, Bridge.loadLocal, place, Option.map_some, hmatch, hnumber]
  | endLocal =>
    refine h.of_flow hund rfl rfl ?_ And.right
    intro hnone
    have hctx : s.ctx = none := hnone
    simp only [Bridge.step, unload, place, hctx, Option.map_none]
  | finishSeries scrim =>
    refine h.of_flow hund rfl rfl ?_ And.right
    intro hnone
    have hctx : s.ctx = none := hnone
    simp only [Bridge.step, Bridge.finishSeries, place, hctx, Option.map_none]
  | flow mode matchEndPending => exact h.of_same rfl rfl rfl
  | drain draining => exact h.of_same rfl rfl rfl
  | tick now parses licensed => exact h.tick hund
  | reload => exact ⟨fun hactive => Bool.noConfusion hactive, h.done⟩

end RestoresInPlace

/-- In every run in which nothing moves the match while a restore waits, each restore runs on the
match and the map that it was asked for on. -/
theorem restored_in_place_of_run (s : Bridge) (hidle : s.deferred.active = false)
    (hnone : s.restored = []) (es : List BridgeEvent)
    (hes : Guarded Bridge.step Undisturbed s es) :
    ∀ r ∈ (run Bridge.step s es).restored, r.restore.asked = r.place := by
  have hstart : s.RestoresInPlace := ⟨by simp [hidle], by simp [hnone]⟩
  have hplaced : (run Bridge.step s es).RestoresInPlace :=
    hes.invariant hstart fun _ _ h hund => h.step hund
  exact hplaced.done

theorem undisturbed_of_idle {e : BridgeEvent} (h : s.deferred.active = false) :
    s.Undisturbed e :=
  fun hactive => Bool.noConfusion (h.symm.trans hactive)

/-- Match 7 is live on its first map, and a restore asked for in the middle of a round waits. -/
def midRound : List BridgeEvent :=
  [.assign { matchId := "7", payloadEpoch := 1 }, .mapStart "de_mirage" 1,
    .flow .matchLive false, .game .roundStart, .game .freezeEnd,
    .cmd
      { matchId := "7"
        payloadEpoch := 1
        command := .restoreRound none 3 (some ("round03.txt", "")) }]

/-- The next round starts: the restore runs. -/
def nextRound : List BridgeEvent :=
  [.game .roundEnd, .tick 10 true true, .game .roundStart, .tick 17 true true]

theorem restored_in_place_of_run_next_round :
    (run Bridge.step {} (midRound ++ nextRound)).restored.length = 1 ∧
      ∀ r ∈ (run Bridge.step {} (midRound ++ nextRound)).restored, r.restore.asked = r.place := by
  refine ⟨by decide +kernel, restored_in_place_of_run {} rfl rfl _ ?_⟩
  refine ⟨undisturbed_of_idle rfl, undisturbed_of_idle rfl, undisturbed_of_idle rfl,
    undisturbed_of_idle rfl, undisturbed_of_idle rfl, undisturbed_of_idle rfl, ?_⟩
  refine ⟨fun _ => .inl trivial, fun _ => .inl fun _ => ⟨?_, ?_⟩, fun _ => .inl trivial,
    fun _ => .inl fun hstays => ?_, trivial⟩
  · exact fun hpending => absurd hpending (by decide)
  · exact fun hresume => absurd hresume (by decide)
  · exact absurd hstays (by decide +kernel)

/-- The platform ends match 7 while the restore waits and assigns match 8, on which it then
runs. -/
theorem restored_on_next_match :
    let es : List BridgeEvent :=
      midRound ++
        [.unassign { matchId := "7", payloadEpoch := 1 },
          .assign { matchId := "8", payloadEpoch := 1 }, .mapStart "de_nuke" 1] ++ nextRound
    (run Bridge.step {} es).restored.map (fun r => (r.restore.asked, r.place)) =
      [({ matchid := some 7, mapNumber := 1, map := "de_mirage" },
        { matchid := some 8, mapNumber := 1, map := "de_nuke" })] := by
  decide +kernel

end Bridge

end ReadyUp.Fleet
