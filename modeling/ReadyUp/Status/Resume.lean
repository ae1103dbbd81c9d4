import ReadyUp.Status.Streams

/-!
# Resuming a stream

A client that comes back names the id it saw last, which is a rev. The ring finds the patch
event with that rev and sends the frames after it. The client may be further on, by status
events that have no id; seeing these again does it no harm. The lookup goes by rev, and status
events have rev zero, so the id `0` is taken for one of them (`resumesExactly_iff`).
-/
namespace ReadyUp.Status

open Support

inductive Feed.Event where
  | submit (input : StatusInputs)
  | process

namespace Feed

def step (f : Feed) : Event → Feed
  | .submit input => f.submit input
  | .process => f.process

def run (f : Feed) (events : List Event) : Feed := events.foldl step f

theorem Sound.run {f : Feed} (h : f.Sound) (events : List Event) : (f.run events).Sound := by
  induction events generalizing f with
  | nil => exact h
  | cons e events ih =>
    cases e with
    | submit input => exact ih (h.submit input)
    | process => exact ih h.process

/-- Resuming by an id: a client that had the hub's view at the frame with this id has the
current one after the frames it is sent. An id that no frame in the ring has gets a snapshot. -/
def ResumesExactly (f : Feed) (n : ℕ) : Prop :=
  (∀ q, f.hub.seqForRev n = some q → ∃ frames, f.hub.framesAfter q = some frames ∧
    ∀ p ≤ f.log.length, f.revAt p = n → ∀ v : View, v.Agrees (f.viewAt p) →
      ∃ i, f.hub.cur = some i ∧ (v.applyAll frames).Holds i) ∧
  (n = 0 ∨ f.hub.rev < n ∨ (∀ e ∈ f.hub.events, e.frame.id ≠ some n) →
    f.hub.openFrames (some n) = [f.hub.snapshotFrame])

end Feed

section Replay

theorem exists_told {fs : List Frame} (h : ∀ f ∈ fs, ∃ parts, f = .status parts) :
    ∃ g : Part → Option Json, ∀ v : View,
      v.applyAll fs = { v with part := fun p => (g p).or (v.part p) } := by
  induction fs with
  | nil => exact ⟨fun _ => none, fun v => rfl⟩
  | cons f fs ih =>
    obtain ⟨parts, rfl⟩ := h f List.mem_cons_self
    obtain ⟨g, hg⟩ := ih fun f hf => h f (List.mem_cons_of_mem _ hf)
    refine ⟨fun p => (g p).or (View.told parts p), ?_⟩
    intro v
    rw [View.applyAll, List.foldl_cons, ← View.applyAll, hg]
    simp only [View.apply, Option.or_assoc]

theorem applyAll_twice {fs : List Frame} (h : ∀ f ∈ fs, ∃ parts, f = .status parts) (v : View) :
    (v.applyAll fs).applyAll fs = v.applyAll fs := by
  obtain ⟨g, hg⟩ := exists_told h
  rw [hg, hg]
  simp only [← Option.or_assoc, Option.or_self]

end Replay

section Lookup

/-- The event with a rev is found where its frame is in the log. -/
theorem find_number {n r q : ℕ} {fs : List Frame}
    (h : ((number n fs).find? (·.rev == r)).map (·.seq) = some q) :
    ∃ pre f post, fs = pre ++ f :: post ∧ f.eventRev = r ∧ q = n + pre.length + 1 := by
  induction fs generalizing n with
  | nil => cases h
  | cons f fs ih =>
    rw [number, List.find?_cons] at h
    cases hr : f.eventRev == r with
    | true =>
      rw [hr] at h
      refine ⟨[], f, fs, rfl, beq_iff_eq.mp hr, ?_⟩
      simpa using h.symm
    | false =>
      rw [hr] at h
      obtain ⟨pre, g, post, rfl, hg, rfl⟩ := ih h
      exact ⟨f :: pre, g, post, rfl, hg, by rw [List.length_cons]; omega⟩

variable {f : Feed}

theorem Kept.seqForRev {h : Hub} {log : List Frame} (hk : Kept h log) {r q : ℕ}
    (hq : h.seqForRev r = some q) :
    ∃ pre g post, log = pre ++ g :: post ∧ g.eventRev = r ∧ q = pre.length + 1 ∧
      h.oldestDroppedSeq < q := by
  rw [Hub.seqForRev, hk.events] at hq
  obtain ⟨pre, g, post, hlog, hg, rfl⟩ := find_number hq
  refine ⟨log.take h.oldestDroppedSeq ++ pre, g, post, ?_, hg, ?_, by omega⟩
  · rw [List.append_assoc, ← hlog, List.take_append_drop]
  · rw [List.length_append, List.length_take, min_eq_left hk.dropped_le]

theorem eventRev_ne_zero {g : Frame} (h : g.eventRev ≠ 0) : ∃ p, g = .patch g.eventRev p := by
  cases g with
  | patch r p => exact ⟨p, rfl⟩
  | _ => exact absurd rfl h

/-- Where the rev is that of a patch, there are only status events since then. -/
theorem status_since {pre post : List Frame} {r : ℕ} {patch : Document}
    (hrevs : RevsFrom 1 (pre ++ .patch r patch :: post)) {p : ℕ}
    (hp : lastRev 1 ((pre ++ .patch r patch :: post).take p) = r) :
    ∃ m, p = pre.length + 1 + m ∧ ∀ f ∈ post.take m, ∃ parts, f = .status parts := by
  obtain ⟨hpre, hr, hpost⟩ := revsFrom_append.mp hrevs
  have hlong : pre.length < p := by
    by_contra hshort
    rw [List.take_append_of_le_length (by omega)] at hp
    have hsplit := hpre
    rw [← List.take_append_drop p pre, revsFrom_append] at hsplit
    have hge := hsplit.2.lastRev_ge.1
    rw [← lastRev_append, List.take_append_drop, hp] at hge
    omega
  obtain ⟨m, rfl⟩ := Nat.exists_eq_add_of_le hlong
  refine ⟨m, rfl, ?_⟩
  rw [show pre.length.succ + m = pre.length + (m + 1) by omega, List.take_length_add_append,
    List.take_succ_cons, lastRev_append] at hp
  have hsplit := hpost
  rw [← List.take_append_drop m post, revsFrom_append] at hsplit
  exact hsplit.1.lastRev_ge.2 hp

theorem RevsFrom.mem {r : ℕ} {fs : List Frame} (h : RevsFrom r fs) {g : Frame} (hg : g ∈ fs) :
    (∃ n p, g = .patch n p ∧ r < n ∧ n ≤ lastRev r fs) ∨ ∃ parts, g = .status parts := by
  induction fs generalizing r with
  | nil => cases hg
  | cons f fs ih =>
    cases f with
    | patch n p =>
      obtain ⟨rfl, htail⟩ := h
      have hlast : lastRev r (.patch (r + 1) p :: fs) = lastRev (r + 1) fs := rfl
      rcases List.mem_cons.mp hg with rfl | hg
      · exact .inl ⟨r + 1, p, rfl, Nat.lt_succ_self r, hlast ▸ htail.lastRev_ge.1⟩
      · rcases ih htail hg with ⟨m, p', rfl, hlt, hle⟩ | hstatus
        · exact .inl ⟨m, p', rfl, by omega, hlast ▸ hle⟩
        · exact .inr hstatus
    | status parts =>
      rcases List.mem_cons.mp hg with rfl | hg
      · exact .inr ⟨parts, rfl⟩
      · exact ih h hg
    | _ => cases h

theorem mem_number {n : ℕ} {fs : List Frame} {e : StreamEvent} (h : e ∈ number n fs) :
    e.frame ∈ fs ∧ e.rev = e.frame.eventRev := by
  induction fs generalizing n with
  | nil => cases h
  | cons f fs ih =>
    rw [number] at h
    rcases List.mem_cons.mp h with rfl | h
    · exact ⟨List.mem_cons_self, rfl⟩
    · exact ⟨List.mem_cons_of_mem _ (ih h).1, (ih h).2⟩

theorem Feed.Sound.exists_cur (h : f.Sound) (hlog : f.log ≠ []) : ∃ i, f.hub.cur = some i := by
  cases hcur : f.hub.cur with
  | none => exact absurd (h.starting hcur).2.1 hlog
  | some i => exact ⟨i, rfl⟩

/-- The events of the ring: patches with a rev of the hub, and status events with none. -/
theorem Feed.Sound.event (h : f.Sound) {e : StreamEvent} (he : e ∈ f.hub.events) :
    (e.frame.id = some e.rev ∧ 0 < e.rev ∧ e.rev ≤ f.hub.rev) ∨
    (e.rev = 0 ∧ e.frame.id = none) := by
  rw [h.kept.events] at he
  obtain ⟨hmem, hrev⟩ := mem_number he
  have hlog := List.mem_of_mem_drop hmem
  rw [hrev]
  rcases h.revs.mem hlog with ⟨n, p, heq, hlt, hle⟩ | ⟨parts, heq⟩
  · obtain ⟨i, hi⟩ := h.exists_cur (List.ne_nil_of_mem hlog)
    rw [heq, h.rev i hi]
    exact .inl ⟨rfl, by simp only [Frame.eventRev]; omega, hle⟩
  · rw [heq]
    exact .inr ⟨rfl, rfl⟩

theorem mem_of_seqForRev {h : Hub} {n q : ℕ} (hq : h.seqForRev n = some q) :
    ∃ e ∈ h.events, e.rev = n := by
  obtain ⟨e, he, -⟩ := Option.map_eq_some_iff.mp hq
  exact ⟨e, List.mem_of_find?_eq_some he, by simpa using List.find?_some he⟩

end Lookup

section Resume

variable {f : Feed} {n : ℕ}

/-- Seeing the frames after a patch again brings a client to the current view. -/
theorem Feed.Sound.replay (h : f.Sound) {pre post : List Frame} {patch : Document}
    (hlog : f.log = pre ++ .patch n patch :: post) {p : ℕ} (hp : f.revAt p = n) {v : View}
    (hv : v.Agrees (f.viewAt p)) :
    ∃ i, f.hub.cur = some i ∧ (v.applyAll post).Agrees (View.of i) := by
  obtain ⟨i, hi⟩ := h.exists_cur (by simp [hlog])
  obtain ⟨b, hb, hlevel⟩ := h.level i hi
  simp only [revAt, viewAt, hb] at hp hv
  have hrevs := h.revs
  rw [hlog] at hp hrevs hv hlevel
  obtain ⟨m, rfl, hstatus⟩ := status_since hrevs hp
  refine ⟨i, hi, ?_⟩
  rw [add_assoc, List.take_length_add_append, add_comm 1 m, List.take_succ_cons, List.append_cons,
    View.applyAll_append] at hv
  rw [List.append_cons, ← List.take_append_drop m post, View.applyAll_append,
    View.applyAll_append] at hlevel
  have htwice := hv.applyAll (post.take m)
  rw [applyAll_twice hstatus] at htwice
  rw [← List.take_append_drop m post, View.applyAll_append]
  exact (htwice.applyAll (post.drop m)).trans hlevel

/-- An id is resumed exactly, or refused, unless it is zero and there is a status event in the
ring. -/
theorem resumesExactly_iff (patchRing : ℕ) (events : List Feed.Event) (n : ℕ) :
    let f := (Feed.new patchRing).run events
    f.ResumesExactly n ↔ (n = 0 → ∀ e ∈ f.hub.events, e.frame.id ≠ none) := by
  intro f
  have h : f.Sound := (Feed.sound_new patchRing).run events
  constructor
  · rintro ⟨-, hrefuse⟩ rfl e he hid
    have hfind : (f.hub.events.find? (·.rev == 0)).isSome := by
      rw [List.find?_isSome]
      refine ⟨e, he, ?_⟩
      rcases h.event he with ⟨hsome, -⟩ | ⟨hzero, -⟩
      · rw [hid] at hsome
        cases hsome
      · simp [hzero]
    obtain ⟨e', he'⟩ := Option.isSome_iff_exists.mp hfind
    have hq : f.hub.seqForRev 0 = some e'.seq := by rw [Hub.seqForRev, he', Option.map_some]
    obtain ⟨pre, g, post, hlog, -, hseq, hkept⟩ := h.kept.seqForRev hq
    have hopen := hrefuse (Or.inl rfl)
    rw [Hub.openFrames, Hub.resume, Option.bind_some, hq, Option.bind_some, h.kept.framesAfter,
      if_neg hkept.not_gt, Option.getD_some] at hopen
    -- no snapshot is ever in the log
    have hmem : f.hub.snapshotFrame ∈ f.log := by
      apply List.mem_of_mem_drop (i := e'.seq)
      rw [hopen]
      exact List.mem_singleton_self _
    obtain ⟨i, hi⟩ := h.exists_cur (List.ne_nil_of_mem hmem)
    rw [Hub.snapshotFrame, hi] at hmem
    rcases h.revs.mem hmem with ⟨_, _, heq, -⟩ | ⟨_, heq⟩ <;> cases heq
  · intro hzero
    have hne : ∀ q, f.hub.seqForRev n = some q → n ≠ 0 := by
      rintro q hq rfl
      obtain ⟨e, he, hrev⟩ := mem_of_seqForRev hq
      rcases h.event he with ⟨-, hpos, -⟩ | ⟨-, hid⟩
      · omega
      · exact hzero rfl e he hid
    constructor
    · intro q hq
      obtain ⟨pre, g, post, hlog, hg, rfl, hkept⟩ := h.kept.seqForRev hq
      have hn := hne _ hq
      obtain ⟨patch, hpatch⟩ := eventRev_ne_zero (hg.trans_ne hn)
      rw [hg] at hpatch
      have hdrop : f.log.drop (pre.length + 1) = post := by
        rw [hlog, List.drop_length_add_append]
        rfl
      refine ⟨post, ?_, ?_⟩
      · rw [h.kept.framesAfter, if_neg hkept.not_gt, hdrop]
      · intro p _ hp v hv
        obtain ⟨i, hi, hagrees⟩ := h.replay (hpatch ▸ hlog) hp hv
        exact ⟨i, hi, hagrees.holds⟩
    · intro hother
      have hnone : f.hub.seqForRev n = none := by
        cases hq : f.hub.seqForRev n with
        | none => rfl
        | some q =>
          have hn := hne q hq
          obtain ⟨e, he, rfl⟩ := mem_of_seqForRev hq
          rcases h.event he with ⟨hid, -, hle⟩ | ⟨hrev, -⟩
          · rcases hother with hother | hother | hother
            · exact absurd hother hn
            · omega
            · exact absurd hid (hother e he)
          · exact absurd hrev hn
      rw [Hub.openFrames, Hub.resume, Option.bind_some, hnone]
      rfl

/-- The id zero is resumed at a status event: the client is sent nothing. -/
theorem zero_resumed :
    ¬((Feed.new 4).run [.submit (Server.inputsIn false), .process, .submit (Server.inputsIn true),
      .process]).ResumesExactly 0 := by
  rintro ⟨-, hrefuse⟩
  have hlength := congrArg List.length (hrefuse (Or.inl rfl))
  revert hlength
  decide

end Resume

end ReadyUp.Status
