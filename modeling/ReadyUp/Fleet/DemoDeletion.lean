import ReadyUp.Fleet.DemoDelivered

/-!
# The deletion of stored demos

Some time after the platform has confirmed a demo, its file is deleted. It is known by its path and
its size only. `Record` keeps, beside a life, the bytes that the final pass read and those that the
platform confirmed.
-/
namespace ReadyUp.Fleet.Demo

open Support

section Frame

variable {cfg : Config} {sha256 : Bytes → Bytes} {g : Sending} {s : Stream}

/-- The sending of chunks leaves the phase and what the final pass found. -/
structure Sending.SameEnd (g g' : Sending) : Prop where
  phase : g'.stream.phase = g.stream.phase
  finalSize : g'.stream.finalSize = g.stream.finalSize
  sha256 : g'.stream.sha256 = g.stream.sha256
  data : ∀ a ∈ g'.sent, a ∈ g.sent ∨ a.isData = true

theorem Sending.SameEnd.refl (g : Sending) : g.SameEnd g := ⟨rfl, rfl, rfl, fun _ ha => .inl ha⟩

theorem Sending.SameEnd.trans {g g' g'' : Sending} (h : g.SameEnd g') (h' : g'.SameEnd g'') :
    g.SameEnd g'' where
  phase := h'.phase.trans h.phase
  finalSize := h'.finalSize.trans h.finalSize
  sha256 := h'.sha256.trans h.sha256
  data a ha := (h'.data a ha).elim (h.data a) .inr

theorem sameEnd_sendChunk (content : Option Bytes) (offset len : ℤ) (g : Sending) :
    g.SameEnd (g.sendChunk content offset len).2 := by
  rcases sendChunk_cases content offset len g with
    ⟨-, hstream, hsent⟩ | ⟨data, -, -, hstream, hsent⟩
  · constructor
    · rw [hstream]
    · rw [hstream]
    · rw [hstream]
    · rw [hsent]
      exact fun _ ha => .inl ha
  · obtain ⟨-, -, hphase, hfinal, hsha, -⟩ := noteChunk_frame offset len data g.stream
    constructor
    · rw [hstream, hphase]
    · rw [hstream, hfinal]
    · rw [hstream, hsha]
    · rw [hsent]
      intro a ha
      rcases List.mem_append.mp ha with ha | ha
      · exact .inl ha
      · rw [List.mem_singleton.mp ha]
        exact .inr rfl

theorem sameEnd_forward (content : Option Bytes) (nowMs limit : ℤ) (budget : ℕ) (g : Sending) :
    g.SameEnd (g.forward cfg content nowMs limit budget).2 := by
  induction budget generalizing g with
  | zero => exact .refl g
  | succ budget ih =>
    rw [Sending.forward]
    dsimp only
    generalize hg' : (if g.stream.sent = g.stream.acked then
      { g with stream := { g.stream with lastAckMs := nowMs } } else g) = g'
    have hsame : g.SameEnd g' := by
      rw [← hg']
      split_ifs
      · exact ⟨rfl, rfl, rfl, fun _ ha => .inl ha⟩
      · exact .refl g
    have hchunk := hsame.trans
      (sameEnd_sendChunk content g.stream.sent
        (min (g.stream.chunk : ℤ) (limit - g.stream.sent)) g')
    split_ifs
    · exact .refl g
    · exact .refl g
    · refine Sending.SameEnd.trans ?_ (ih _)
      exact ⟨hchunk.phase, hchunk.finalSize, hchunk.sha256, hchunk.data⟩
    · exact hchunk
    · exact .refl g

theorem sameEnd_resend (content : Option Bytes) (budget : ℕ) (g : Sending) :
    g.SameEnd (g.resend content budget) := by
  induction budget generalizing g with
  | zero => exact .refl g
  | succ budget ih =>
    rw [Sending.resend]
    split
    · exact .refl g
    · rename_i offset rest _
      have hchunk := sameEnd_sendChunk
        content offset (min (g.stream.chunk : ℤ) (g.stream.finalSize - offset)) g
      dsimp only
      split_ifs
      · refine Sending.SameEnd.trans ?_ (ih _)
        exact ⟨hchunk.phase, hchunk.finalSize, hchunk.sha256, hchunk.data⟩
      · exact hchunk

theorem sameEnd_sendEnd (nowMs : ℤ) (g : Sending) : g.SameEnd (g.sendEnd cfg nowMs) := by
  rw [Sending.sendEnd]
  dsimp only
  by_cases hdue : g.stream.endSentMs = 0 ∨ cfg.endRetryMs ≤ nowMs - g.stream.endSentMs
  · rw [if_pos hdue]
    obtain ⟨hstream, ⟨hfail, hsent⟩ | ⟨hok, hsent⟩⟩ :=
      sendBulk_cases (.demoEnd g.stream.id g.stream.finalSize g.stream.sha256) g
    · rw [if_neg (by simp [hfail])]
      exact ⟨by rw [hstream], by rw [hstream], by rw [hstream],
        by rw [hsent]; exact fun _ ha => .inl ha⟩
    · rw [if_pos hok]
      refine ⟨by rw [hstream], by rw [hstream], by rw [hstream], ?_⟩
      dsimp only
      rw [hsent]
      intro a ha
      rcases List.mem_append.mp ha with ha | ha
      · exact .inl ha
      · rw [List.mem_singleton.mp ha]
        exact .inr rfl
  · rw [if_neg hdue]
    exact .refl g

theorem sameEnd_sendAll (content : Option Bytes) (nowMs size : ℤ) (g : Sending) :
    g.SameEnd (g.sendAll cfg content nowMs size) := by
  rw [Sending.sendAll]
  dsimp only
  have hforward := fun limit => @sameEnd_forward cfg content nowMs limit 16 g
  split_ifs
  all_goals first
    | exact hforward _
    | exact ((hforward _).trans (sameEnd_resend content _ _)).trans (sameEnd_sendEnd nowMs _)
    | exact (hforward _).trans (sameEnd_resend content _ _)

end Frame

section Work

variable {cfg : Config} {sha256 : Bytes → Bytes} {s : Stream} {w : World} {nowMs size : ℤ}

/-- What a tick leaves of a stream that is not done. -/
structure WorkEnd (w : World) (s : Stream) (r : Stream × List Action) : Prop where
  phase : r.1.phase ≠ .done
  unlink : .unlink ∉ r.2
  final : r.1.finalSize = s.finalSize ∨ r.1.finalSize = -1 ∨
    s.finalSize < 0 ∧ ∃ content, w.content = some content ∧ r.1.finalSize = content.length

theorem unlink_not_isData {actions : List Action} (h : ∀ a ∈ actions, a.isData = true) :
    .unlink ∉ actions :=
  fun hmem => by cases h _ hmem

theorem workEnd_sendData (hdone : s.phase ≠ .done) :
    WorkEnd w s (s.sendData cfg sha256 nowMs size w) := by
  have hdata := unlink_not_isData (isData_of_sendData cfg sha256 s nowMs size w)
  revert hdata
  rw [Stream.sendData]
  by_cases hsettled : s.isSettled cfg nowMs = true
  · have hneg : s.finalSize < 0 := by
      simp only [Stream.isSettled, Bool.and_eq_true, decide_eq_true_eq] at hsettled
      exact hsettled.1.1.2
    rw [if_pos hsettled]
    cases hcontent : w.content with
    | none => exact fun hdata => ⟨hdone, hdata, .inl rfl⟩
    | some content =>
      intro hdata
      have hsame := @sameEnd_sendAll cfg (some content) nowMs size
        { stream := s.finalPass sha256 content, lane := w.lane }
      refine ⟨?_, hdata, .inr (.inr ⟨hneg, content, hcontent, hsame.finalSize⟩)⟩
      rw [hsame.phase]
      exact hdone
  · rw [if_neg hsettled]
    intro hdata
    have hsame := @sameEnd_sendAll cfg w.content nowMs size { stream := s, lane := w.lane }
    refine ⟨?_, hdata, .inl hsame.finalSize⟩
    rw [hsame.phase]
    exact hdone

theorem workEnd_announce (hdone : s.phase ≠ .done) (accepted : Bool) :
    WorkEnd w s (s.announce cfg nowMs accepted) := by
  rw [Stream.announce]
  split_ifs
  · exact ⟨hdone, List.not_mem_nil, .inl rfl⟩
  · exact ⟨hdone, by simp, .inl rfl⟩

/-- A stream that announces itself stays without a final pass. -/
theorem workEnd_talk (hdone : s.phase ≠ .done) :
    WorkEnd w s (s.talk cfg sha256 nowMs size w) ∧
      (s.phase = .announce → (s.talk cfg sha256 nowMs size w).1.finalSize = s.finalSize) := by
  obtain ⟨hphase, hfinal, hkept⟩ : (s.reannounce cfg nowMs w.session).phase ≠ .done ∧
      (s.reannounce cfg nowMs w.session).finalSize = s.finalSize ∧
      (s.phase = .announce → (s.reannounce cfg nowMs w.session).phase = .announce) := by
    rw [Stream.reannounce]
    split_ifs
    all_goals simp_all
  rw [Stream.talk]
  dsimp only
  split_ifs with honline hannounce
  · exact ⟨⟨hdone, List.not_mem_nil, .inl rfl⟩, fun _ => rfl⟩
  · obtain ⟨hnot, hunlink, -⟩ := @workEnd_announce cfg _ w nowMs hphase w.send
    have hsame :
        ((s.reannounce cfg nowMs w.session).announce cfg nowMs w.send).1.finalSize =
          s.finalSize := by
      rw [← hfinal, Stream.announce]
      split_ifs <;> rfl
    exact ⟨⟨hnot, hunlink, .inl hsame⟩, fun _ => hsame⟩
  · have hend := @workEnd_sendData cfg sha256 _ w nowMs size hphase
    refine ⟨⟨hend.phase, hend.unlink, ?_⟩, fun hp => absurd (hkept hp) hannounce⟩
    rw [← hfinal]
    exact hend.final

/-- A file that was replaced sends the stream back to its announcement. -/
theorem sawFile_cases (nowMs size : ℤ) (ino : ℕ) (hdone : s.phase ≠ .done) :
    (s.sawFile nowMs size ino).1.phase ≠ .done ∧ .unlink ∉ (s.sawFile nowMs size ino).2 ∧
      ((s.sawFile nowMs size ino).1.finalSize = s.finalSize ∨
        (s.sawFile nowMs size ino).1.finalSize = -1 ∧
        (s.sawFile nowMs size ino).1.phase = .announce) := by
  rw [Stream.sawFile]
  dsimp only
  split_ifs
  · exact ⟨by simp [Stream.startOver], by simp, .inr ⟨rfl, rfl⟩⟩
  · exact ⟨by simp [Stream.startOver], by simp, .inr ⟨rfl, rfl⟩⟩
  · exact ⟨hdone, List.not_mem_nil, .inl rfl⟩
  · exact ⟨hdone, List.not_mem_nil, .inl rfl⟩

theorem workEnd_workOn (hdone : s.phase ≠ .done) (ino : ℕ) :
    WorkEnd w s (s.workOn cfg sha256 nowMs size ino w) := by
  obtain ⟨hphase, hunlink, hfinal⟩ := sawFile_cases nowMs size ino hdone
  rw [Stream.workOn]
  generalize s.sawFile nowMs size ino = r at hphase hunlink hfinal
  obtain ⟨s', restarted⟩ := r
  dsimp only at hphase hunlink hfinal ⊢
  split_ifs
  · exact ⟨by simp, hunlink, hfinal.imp_right fun h => .inl h.1⟩
  · obtain ⟨hstalePhase, hstaleFinal⟩ : (s'.checkStale cfg nowMs).phase = s'.phase ∧
        (s'.checkStale cfg nowMs).finalSize = s'.finalSize := by
      rw [Stream.checkStale]
      split_ifs
      · exact ⟨rfl, rfl⟩
      · exact ⟨rfl, rfl⟩
    have hlive : (s'.checkStale cfg nowMs).phase ≠ .done := by
      rw [hstalePhase]
      exact hphase
    obtain ⟨hend, hannounce⟩ := @workEnd_talk cfg sha256 _ w nowMs size hlive
    rw [hstalePhase, hstaleFinal] at hannounce
    have hends := hend.final
    rw [hstaleFinal] at hends
    refine ⟨hend.phase, ?_, ?_⟩
    · rw [List.mem_append, not_or]
      exact ⟨hunlink, hend.unlink⟩
    · rcases hfinal with hsame | ⟨hnone, hp⟩
      · rw [← hsame]
        exact hends
      · exact .inr (.inl ((hannounce hp).trans hnone))

theorem workEnd_work (hdone : s.phase ≠ .done) (nowMs : ℤ) (w : World) :
    WorkEnd w s (s.work cfg sha256 nowMs w) := by
  rw [Stream.work, if_neg hdone]
  split_ifs
  · exact ⟨hdone, List.not_mem_nil, .inl rfl⟩
  · cases w.stat with
    | none =>
      dsimp only
      rw [Stream.missing]
      split_ifs
      · exact ⟨by simp, List.not_mem_nil, .inl rfl⟩
      · exact ⟨by simp, List.not_mem_nil, .inl rfl⟩
      · exact ⟨hdone, List.not_mem_nil, .inl rfl⟩
    | some st => exact workEnd_workOn hdone st.2

end Work

section Ack

variable {cfg : Config} {s : Stream} {a : Ack}

/-- The ack that says that the platform has the whole demo. -/
def Ack.Completes (a : Ack) (s : Stream) : Prop :=
  a.error = none ∧ a.complete = true ∧ 0 ≤ s.finalSize ∧ a.offset = s.finalSize

/-- An ack leaves the final size, and only one that completes the demo ends the stream. -/
theorem onAck_end (cfg : Config) (session : ℕ) (nowMs : ℤ) (hdone : s.phase ≠ .done) :
    (s.onAck cfg session nowMs a).1.finalSize = s.finalSize ∧
    .unlink ∉ (s.onAck cfg session nowMs a).2 ∧
      ((s.onAck cfg session nowMs a).1.phase = .done → a.Completes s) := by
  rw [Stream.onAck]
  by_cases hover : s.isOver = true
  · rw [if_pos hover]
    exact ⟨rfl, List.not_mem_nil, fun h => absurd h hdone⟩
  · rw [if_neg hover]
    cases herror : a.error with
    | some code =>
      dsimp only
      rw [Stream.onError]
      dsimp only
      split_ifs
      all_goals simp_all [Stream.startOver]
    | none =>
      have hoffset : (s.onOffset session nowMs a.offset).finalSize = s.finalSize ∧
          (s.onOffset session nowMs a.offset).phase ≠ .done := by
        rw [Stream.onOffset]
        dsimp only
        split_ifs
        · exact ⟨rfl, by simp⟩
        · exact ⟨rfl, hdone⟩
        · exact ⟨rfl, hdone⟩
      dsimp only
      rw [Stream.onComplete, hoffset.1]
      split_ifs with hneg hcomplete
      · exact ⟨rfl, List.not_mem_nil, fun h => absurd h hdone⟩
      · exact ⟨rfl, List.not_mem_nil, fun _ => ⟨herror, hcomplete.1, hcomplete.2.1, hcomplete.2.2⟩⟩
      · exact ⟨hoffset.1, List.not_mem_nil, fun h => absurd h hoffset.2⟩

end Ack

section Record

/-- What is known of a demo besides its stream: the bytes of its final pass, and those that the
platform had when it confirmed the whole. -/
structure Known where
  final : Option Bytes := none
  confirmed : Option Bytes := none

/-- A life, with what is known of its demo now and was known when it was saved. -/
structure Record extends Life where
  known : Known := {}
  savedKnown : Known := {}

/-- An event, and the bytes that the platform has of the demo when it happens. -/
structure Heard where
  event : LifeEvent
  stored : Bytes := []

namespace Record

variable (cfg : Config) (sha256 : Bytes → Bytes)

/-- What is known after the event that leads from one life to the next. -/
def learn (r : Record) (l : Life) (h : Heard) : Known :=
  match h.event with
  | .ack _ _ _ =>
    if r.stream.phase ≠ .done ∧ l.stream.phase = .done then
      { r.known with confirmed := some h.stored }
    else r.known
  | .work _ w =>
    if r.stream.finalSize < 0 ∧ 0 ≤ l.stream.finalSize then { r.known with final := w.content }
    else r.known
  | .reload _ => if r.saved.isSome then r.savedKnown else r.known
  | _ => r.known

def step (r : Record) (h : Heard) : Record :=
  let l := r.toLife.step cfg sha256 h.event
  { toLife := l, known := r.learn l h
    savedKnown := match h.event with
      | .save => r.known
      | _ => r.savedKnown }

/-- Nothing is known of a stream that was just queued. -/
def born (s : Stream) : Record := { toLife := Life.born s }

/-- The deletion of the local copy is due. -/
def Due (cfg : Config) (nowMs : ℤ) (s : Stream) : Prop :=
  s.phase = .done ∧ 0 < cfg.keepAfterStoredMs ∧ cfg.keepAfterStoredMs ≤ nowMs - s.doneAtMs ∧
  s.error ≠ ascii "deleted"

/-- The platform only confirms the file of the final pass, and when the deletion is due, a file of
its size is that file. -/
def Safe (cfg : Config) (r : Record) (h : Heard) : Prop :=
  match h.event with
  | .ack _ _ a => r.stream.isOver = false → a.Completes r.stream → r.known.final = some h.stored
  | .work nowMs w => Due cfg nowMs r.stream →
    ∀ file ino, r.known.final = some file → w.stat = some ((file.length : ℤ), ino) →
      w.content = some file
  | _ => True

/-- A file that is deleted holds the bytes that the platform confirmed. -/
def Deletes (cfg : Config) (sha256 : Bytes → Bytes) (r : Record) (h : Heard) : Prop :=
  match h.event with
  | .work nowMs w => .unlink ∈ (r.stream.work cfg sha256 nowMs w).2 →
    ∃ file, r.known.confirmed = some file ∧ w.content = some file
  | _ => True

end Record

structure Known.Fits (k : Known) (s : Stream) : Prop where
  final : 0 ≤ s.finalSize → ∃ file, k.final = some file ∧ s.finalSize = file.length
  done : s.phase = .done → 0 ≤ s.finalSize ∧ k.confirmed = k.final

theorem Known.Fits.frame {k : Known} {s s' : Stream} (h : k.Fits s)
    (hfinal : s'.finalSize = s.finalSize)
    (hphase : s'.phase = .done → s.phase = .done) : k.Fits s' where
  final hsize := by
    rw [hfinal] at hsize ⊢
    exact h.final hsize
  done hdone := by
    rw [hfinal]
    exact h.done (hphase hdone)

namespace Record

variable {cfg : Config} {sha256 : Bytes → Bytes} {r : Record} {s : Stream} {k : Known}

theorem fits_ack (hk : k.Fits s) (session : ℕ) (nowMs : ℤ) {a : Ack} {stored : Bytes}
    (hsafe : s.isOver = false → a.Completes s → k.final = some stored) :
    (if s.phase ≠ .done ∧ (s.onAck cfg session nowMs a).1.phase = .done then
      { k with confirmed := some stored } else k).Fits (s.onAck cfg session nowMs a).1 := by
  by_cases hover : s.isOver = true
  · have hsame : s.onAck cfg session nowMs a = (s, []) := by rw [Stream.onAck, if_pos hover]
    rw [hsame, if_neg fun h => h.1 h.2]
    exact hk
  · have hlive : s.isOver = false := by simpa using hover
    have hdone : s.phase ≠ .done := by
      intro hp
      rw [Stream.isOver] at hlive
      simp [hp] at hlive
    obtain ⟨hfinal, -, hcompletes⟩ := @onAck_end s a cfg session nowMs hdone
    split_ifs with hends
    · have hcomplete := hcompletes hends.2
      refine ⟨fun hsize => ?_, fun _ => ⟨?_, (hsafe hlive hcomplete).symm⟩⟩
      · rw [hfinal] at hsize ⊢
        exact hk.final hsize
      · rw [hfinal]
        exact hcomplete.2.2.1
    · exact hk.frame hfinal fun hp => absurd ⟨hdone, hp⟩ hends

theorem fits_work (hk : k.Fits s) (nowMs : ℤ) (w : World) :
    (if s.finalSize < 0 ∧ 0 ≤ (s.work cfg sha256 nowMs w).1.finalSize then
      { k with final := w.content } else k).Fits (s.work cfg sha256 nowMs w).1 := by
  by_cases hdone : s.phase = .done
  · have hsame : (s.work cfg sha256 nowMs w).1.finalSize = s.finalSize := by
      rw [Stream.work, if_pos hdone, Stream.cleanUp]
      split_ifs <;> rfl
    rw [if_neg (by omega)]
    exact hk.frame hsame fun _ => hdone
  · obtain ⟨hphase, -, hfinal⟩ := @workEnd_work cfg sha256 s hdone nowMs w
    split_ifs with hpass
    · refine ⟨fun _ => ?_, fun hp => absurd hp hphase⟩
      obtain ⟨-, content, hcontent, hsize⟩ :=
        (hfinal.resolve_left (by omega)).resolve_left (by omega)
      exact ⟨content, hcontent, hsize⟩
    · refine ⟨fun hsize => ?_, fun hp => absurd hp hphase⟩
      have hsame : (s.work cfg sha256 nowMs w).1.finalSize = s.finalSize := by
        rcases hfinal with h | h | ⟨h, -⟩
        · exact h
        · omega
        · exact absurd ⟨h, hsize⟩ hpass
      rw [hsame] at hsize ⊢
      exact hk.final hsize

/-- What is known fits the stream, and what was known fits what was saved. -/
structure Kept (r : Record) : Prop where
  now : r.known.Fits r.stream
  saved : ∀ s, r.saved = some s → r.savedKnown.Fits s

theorem kept_ack (hr : r.Kept) {session : ℕ} {nowMs : ℤ} {a : Ack} {stored : Bytes}
    (hsafe : r.Safe cfg ⟨.ack session nowMs a, stored⟩) :
    (r.step cfg sha256 ⟨.ack session nowMs a, stored⟩).Kept := by
  have hfits := @fits_ack cfg _ _ hr.now session nowMs a stored hsafe
  have hstream : ((r.toLife.step cfg sha256 (.ack session nowMs a)).toTracked) =
      r.toTracked.did (r.stream.onAck cfg session nowMs a) := Life.toTracked_afterAck _ _
  have hsaved : (r.toLife.step cfg sha256 (.ack session nowMs a)).saved = r.saved := by
    rw [Life.step, Life.afterAck]
    dsimp only
    split_ifs <;> rfl
  refine ⟨?_, fun s hs => hr.saved s (hsaved ▸ hs)⟩
  rw [step, learn]
  dsimp only
  rw [hstream]
  exact hfits

/-- After a reload the stream is what was saved, and is over only if it was over then. -/
theorem kept_reload (hr : r.Kept) (nowMs : ℤ) (stored : Bytes) :
    (r.step cfg sha256 ⟨.reload nowMs, stored⟩).Kept := by
  cases hsaved : r.saved with
  | none =>
    have hstep : r.toLife.step cfg sha256 (.reload nowMs) = r.toLife := by rw [Life.step, hsaved]
    rw [step, learn]
    dsimp only
    rw [hstep, hsaved]
    exact ⟨hr.now, hr.saved⟩
  | some s =>
    have hstep : (r.toLife.step cfg sha256 (.reload nowMs)).stream = s.reloaded nowMs ∧
        (r.toLife.step cfg sha256 (.reload nowMs)).saved = r.saved := by
      rw [Life.step, hsaved]
      exact ⟨rfl, rfl⟩
    rw [step, learn]
    dsimp only
    rw [hsaved]
    refine ⟨?_, fun s' hs' => hr.saved s' (hstep.2 ▸ hs')⟩
    dsimp only [Option.isSome, if_true]
    rw [hstep.1]
    refine (hr.saved s hsaved).frame rfl fun hp => ?_
    by_contra hnot
    have hphase : (s.reloaded nowMs).phase = .done := hp
    rw [Stream.reloaded] at hphase
    dsimp only at hphase
    split_ifs at hphase
    exact hnot hphase

theorem kept_step (hr : r.Kept) {h : Heard} (hsafe : r.Safe cfg h) :
    (r.step cfg sha256 h).Kept := by
  obtain ⟨e, stored⟩ := h
  cases e with
  | ack session nowMs a => exact kept_ack hr hsafe
  | work nowMs w => exact ⟨fits_work hr.now nowMs w, hr.saved⟩
  | stop nowMs =>
    refine ⟨?_, hr.saved⟩
    rw [step, learn]
    dsimp only
    rw [Life.step, Streams.stopped]
    split_ifs
    · exact hr.now.frame rfl id
    · exact hr.now
  | replaced nowMs =>
    refine ⟨?_, hr.saved⟩
    rw [step, learn]
    dsimp only
    rw [Life.step, Streams.replaced]
    split_ifs
    · exact hr.now.frame rfl fun hp => by cases hp
    · exact hr.now
  | save =>
    refine ⟨hr.now, fun s hs => ?_⟩
    cases hs
    exact hr.now
  | reload nowMs => exact kept_reload hr nowMs stored

theorem deletes_of_safe (hr : r.Kept) {h : Heard} (hsafe : r.Safe cfg h) :
    r.Deletes cfg sha256 h := by
  obtain ⟨e, stored⟩ := h
  cases e with
  | work nowMs w =>
    intro hmem
    by_cases hdone : r.stream.phase = .done
    · obtain ⟨hfinal, hconfirmed⟩ := hr.now.done hdone
      obtain ⟨file, hfile, hsize⟩ := hr.now.final hfinal
      rw [Stream.work, if_pos hdone, Stream.cleanUp] at hmem
      split_ifs at hmem with hdue
      · rw [Stream.unlinked] at hmem
        cases hstat : w.stat with
        | none =>
          rw [hstat] at hmem
          cases hmem
        | some st =>
          obtain ⟨size, ino⟩ := st
          rw [hstat] at hmem
          dsimp only at hmem
          split_ifs at hmem with hsame
          · have hlength : size = file.length := by
              rw [hsame.2.resolve_left (by omega), hsize]
            refine ⟨file, hconfirmed.trans hfile, hsafe ⟨hdone, hdue⟩ file ino hfile ?_⟩
            rw [hstat, hlength]
          · cases hmem
      · cases hmem
    · exact absurd hmem (workEnd_work hdone nowMs w).unlink
  | _ => trivial

theorem kept_born {s : Stream} (h : s.Fresh cfg) : (born s).Kept where
  now := by
    refine ⟨fun hsize => ?_, fun hdone => ?_⟩
    · have hneg : (born s).stream.finalSize = -1 := h.finalSize
      omega
    · have hannounce : (born s).stream.phase = .announce := h.phase
      rw [hannounce] at hdone
      cases hdone
  saved _ hs := by cases hs

/-- Where the platform only confirms the file of the final pass, and no other file of its size is
there when the deletion is due, only what the platform confirmed is deleted. -/
theorem deletes_confirmed {s : Stream} (h : s.Fresh cfg.clamped) {events : List Heard}
    (hevents : Guarded (step cfg.clamped sha256) (Safe cfg.clamped) (born s) events) :
    Guarded (step cfg.clamped sha256) (Deletes cfg.clamped sha256) (born s) events := by
  have hkept := kept_born h
  generalize born s = r at hkept hevents
  induction events generalizing r with
  | nil => trivial
  | cons e events ih =>
    obtain ⟨he, hrest⟩ := hevents
    exact ⟨deletes_of_safe hkept he, ih _ (kept_step hkept he) hrest⟩

/-- A demo of one byte that is sent to its end. -/
def oneByte : List LifeEvent :=
  [.work 1 (Life.equalBytes 1 65 []), .ack 1 2 (Life.offsetIs 0), .stop 3,
    .work 4 (Life.equalBytes 1 65 [true, true])]

def storedByte : List Heard :=
  oneByte.map (fun e => { event := e }) ++
    [{ event := .ack 1 5 { Life.offsetIs 1 with complete := true }, stored := [65] }]

def dayAfter (fill : UInt8) : Heard := { event := .work 86400005 (Life.equalBytes 1 fill []) }

theorem deletes_confirmed_storedByte :
    Guarded (step Life.smallCfg.clamped fun _ => []) (Safe Life.smallCfg.clamped)
      (born Life.smallStream)
        (storedByte ++ [dayAfter 65]) ∧
      Guarded (step Life.smallCfg.clamped fun _ => []) (Deletes Life.smallCfg.clamped fun _ => [])
        (born Life.smallStream) (storedByte ++ [dayAfter 65]) := by
  have hsafe :
      Guarded (step Life.smallCfg.clamped fun _ => []) (Safe Life.smallCfg.clamped)
        (born Life.smallStream)
      (storedByte ++ [dayAfter 65]) := by
    refine ⟨fun hdue => absurd hdue.1 (by decide), fun _ hcomplete =>
      absurd hcomplete.2.1 (by decide), trivial,
      fun hdue => absurd hdue.1 (by decide), fun _ _ => (by decide), fun _ file ino hfile _ =>
        ?_, trivial⟩
    have hfinal :
        (run (step Life.smallCfg.clamped fun _ => [])
          (born Life.smallStream) storedByte).known.final =
        some [65] := by
      decide
    exact hfinal.symm.trans hfile
  exact ⟨hsafe, deletes_confirmed Life.fresh_smallStream hsafe⟩

/-- Meanwhile the path holds another recording of one byte: the deletion takes it. -/
theorem rerecorded_deleted : Life.smallStream.Fresh Life.smallCfg.clamped ∧
    ¬Guarded (step Life.smallCfg.clamped fun _ => []) (Deletes Life.smallCfg.clamped fun _ => [])
      (born Life.smallStream) (storedByte ++ [dayAfter 66]) := by
  refine ⟨Life.fresh_smallStream, fun h => ?_⟩
  obtain ⟨hdeletes, -⟩ := (guarded_append.mp h).2
  obtain ⟨file, hconfirmed, hcontent⟩ := hdeletes (List.mem_singleton.mpr rfl)
  have hstored :
      (run (step Life.smallCfg.clamped fun _ => [])
        (born Life.smallStream) storedByte).known.confirmed =
      some [65] := by
    decide
  rw [hstored] at hconfirmed
  cases hconfirmed
  cases hcontent

end Record

end Record

end ReadyUp.Fleet.Demo
