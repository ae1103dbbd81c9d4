import ReadyUp.Fleet.DemoCopy
import ReadyUp.Fleet.DemoRestart

/-!
# The window of a demo stream

How far the sent bytes of a stream may be ahead of those that the platform has confirmed.
`InWindow` is what acks, ticks, new sessions and restarts of the plugin keep. A final pass that
finds less than the platform has confirmed puts the cursor at the end of the file, behind the last
ack: the one case where `sent` is less than `acked`.
-/
namespace ReadyUp.Fleet.Demo

open Support

/-- No more is in flight than the window and a chunk allow, and nothing was confirmed that was not
sent, unless the file turned out to end before. -/
structure Stream.InWindow (window : ℤ) (s : Stream) : Prop where
  sent : 0 ≤ s.sent
  acked : 0 ≤ s.acked
  flight : s.phase = .stream → s.sent - s.acked ≤ max window s.chunk
  order : s.phase = .stream → s.acked ≤ s.sent ∨ s.sent = s.finalSize

/-- Where the stream is stays the same, and it does not begin to stream. -/
structure Stream.SameCursor (s s' : Stream) : Prop where
  sent : s'.sent = s.sent
  acked : s'.acked = s.acked
  chunk : s'.chunk = s.chunk
  finalSize : s'.finalSize = s.finalSize
  phase : s'.phase = .stream → s.phase = .stream

section Stream

variable {cfg : Config} {window : ℤ} {s s' : Stream}

theorem Stream.SameCursor.refl (s : Stream) : s.SameCursor s := ⟨rfl, rfl, rfl, rfl, fun h => h⟩

theorem Stream.SameCursor.trans {s'' : Stream} (h : s.SameCursor s') (h' : s'.SameCursor s'') :
    s.SameCursor s'' where
  sent := h'.sent.trans h.sent
  acked := h'.acked.trans h.acked
  chunk := h'.chunk.trans h.chunk
  finalSize := h'.finalSize.trans h.finalSize
  phase hphase := h.phase (h'.phase hphase)

theorem Stream.InWindow.frame (h : s.InWindow window) (hsame : s.SameCursor s') :
    s'.InWindow window := by
  obtain ⟨hsent, hacked, hchunk, hfinal, hphase⟩ := hsame
  constructor
  · simpa [hsent] using h.sent
  · simpa [hacked] using h.acked
  · intro hstream
    simpa [hsent, hacked, hchunk] using h.flight (hphase hstream)
  · intro hstream
    simpa [hsent, hacked, hfinal] using h.order (hphase hstream)

/-- A stream that does not stream is only asked where it is. -/
theorem Stream.inWindow_of_phase (hsent : 0 ≤ s.sent) (hacked : 0 ≤ s.acked)
    (h : s.phase ≠ .stream) :
    s.InWindow window :=
  ⟨hsent, hacked, fun hphase => absurd hphase h, fun hphase => absurd hphase h⟩

theorem Stream.inWindow_of_eq {offset : ℤ} (hoffset : 0 ≤ offset) (hsent : s.sent = offset)
    (hacked : s.acked = offset) : s.InWindow window := by
  refine ⟨hsent ▸ hoffset, hacked ▸ hoffset, fun _ => ?_, fun _ => .inl (by omega)⟩
  have hchunk : (0 : ℤ) ≤ s.chunk := Int.natCast_nonneg _
  omega

theorem Stream.inWindow_startOver (s : Stream) : s.startOver.InWindow window :=
  inWindow_of_phase le_rfl le_rfl (by simp [startOver])

section Ack

theorem Stream.InWindow.onError (h : s.InWindow window) (nowMs offset : ℤ) (code : Bytes) :
    (s.onError cfg nowMs offset code).1.InWindow window := by
  unfold Stream.onError
  dsimp only
  split_ifs with hgap
  · exact inWindow_of_eq hgap.2 rfl rfl
  · exact inWindow_of_phase h.sent h.acked (by simp)
  · exact inWindow_startOver _
  · exact inWindow_of_phase h.sent h.acked (by simp)
  · exact inWindow_of_phase h.sent h.acked (by simp)
  · exact inWindow_of_phase h.sent h.acked (by simp)

/-- An offset that is less than the last one takes the cursor back, one that is more than was sent
takes it ahead. -/
theorem Stream.InWindow.onOffset (h : s.InWindow window) {offset : ℤ} (hoffset : 0 ≤ offset)
    (session : ℕ) (nowMs : ℤ) : (s.onOffset session nowMs offset).InWindow window := by
  unfold Stream.onOffset
  dsimp only
  by_cases hphase : s.phase = .announce
  · rw [if_pos hphase]
    exact inWindow_of_eq hoffset rfl rfl
  · rw [if_neg hphase]
    constructor
    · exact le_max_of_le_right hoffset
    · exact hoffset
    · intro hstream
      have hflight := h.flight hstream
      have hchunk : (0 : ℤ) ≤ s.chunk := Int.natCast_nonneg _
      dsimp only
      split_ifs with hback <;> omega
    · exact fun _ => .inl (le_max_right _ _)

theorem Stream.InWindow.onComplete (h : s.InWindow window) (nowMs offset : ℤ) (complete : Bool) :
    (s.onComplete nowMs offset complete).InWindow window := by
  unfold Stream.onComplete
  split_ifs
  · exact inWindow_of_phase h.sent h.acked (by simp)
  · exact h

theorem Stream.InWindow.onAck (h : s.InWindow window) (session : ℕ) (nowMs : ℤ) (a : Ack) :
    (s.onAck cfg session nowMs a).1.InWindow window := by
  unfold Stream.onAck
  by_cases hover : s.isOver = true
  · rw [if_pos hover]
    exact h
  · rw [if_neg hover]
    cases a.error with
    | some code => exact h.onError nowMs a.offset code
    | none =>
      dsimp only
      split_ifs with hneg
      · exact h
      · exact (h.onOffset (not_lt.mp hneg) session nowMs).onComplete nowMs a.offset a.complete

end Ack

section Sending

variable {g : Sending}

theorem sameCursor_sendChunk (content : Option Bytes) (offset len : ℤ) (g : Sending) :
    g.stream.SameCursor (g.sendChunk content offset len).2.stream := by
  rcases sendChunk_cases content offset len g with ⟨-, hstream, -⟩ | ⟨data, -, -, hstream, -⟩
  · rw [hstream]
    exact .refl _
  · rw [hstream]
    unfold Stream.noteChunk
    split_ifs
    · exact ⟨rfl, rfl, rfl, rfl, fun h => h⟩
    · exact .refl _

/-- One chunk goes out when nothing is in flight, more only within the window. -/
theorem Stream.InWindow.forward (h : g.stream.InWindow cfg.windowBytes) {limit : ℤ}
    (hlimit : 0 ≤ g.stream.finalSize → limit = g.stream.finalSize)
    (content : Option Bytes) (nowMs : ℤ)
    (budget : ℕ) :
    (g.forward cfg content nowMs limit budget).2.stream.InWindow cfg.windowBytes := by
  induction budget generalizing g with
  | zero => exact h
  | succ budget ih =>
    unfold Sending.forward
    dsimp only
    generalize hg' : (if g.stream.sent = g.stream.acked then
      { g with stream := { g.stream with lastAckMs := nowMs } } else g) = g'
    have hsame : g.stream.SameCursor g'.stream := by
      rw [← hg']
      split_ifs
      · exact ⟨rfl, rfl, rfl, rfl, fun h => h⟩
      · exact .refl _
    have hchunk := hsame.trans
      (sameCursor_sendChunk content g.stream.sent
        (min (g.stream.chunk : ℤ) (limit - g.stream.sent)) g')
    split_ifs with hrest hpart hwindow hok
    · exact h
    · exact h
    · apply ih
      · -- the cursor moves by the chunk that went out
        have hpos : 0 ≤ min (g.stream.chunk : ℤ) (limit - g.stream.sent) := by omega
        obtain ⟨-, hacked, hsize, hfinal, hphase⟩ := hchunk
        have hsent := h.sent
        constructor
        · dsimp only
          omega
        · simpa [hacked] using h.acked
        · intro hstream
          have hflight := h.flight (hphase hstream)
          have horder := h.order (hphase hstream)
          dsimp only
          rw [hacked, hsize]
          omega
        · intro hstream
          have horder := h.order (hphase hstream)
          dsimp only
          rw [hacked]
          omega
      · dsimp only
        rw [hchunk.finalSize]
        exact hlimit
    · exact h.frame hchunk
    · exact h

theorem sameCursor_resend (content : Option Bytes) (budget : ℕ) (g : Sending) :
    g.stream.SameCursor (g.resend content budget).stream := by
  induction budget generalizing g with
  | zero => exact .refl _
  | succ budget ih =>
    unfold Sending.resend
    split
    · exact .refl _
    · rename_i offset rest _
      have hchunk :=
        sameCursor_sendChunk content offset
          (min (g.stream.chunk : ℤ) (g.stream.finalSize - offset)) g
      dsimp only
      split_ifs
      · refine Stream.SameCursor.trans ?_ (ih _)
        exact ⟨hchunk.sent, hchunk.acked, hchunk.chunk, hchunk.finalSize, hchunk.phase⟩
      · exact hchunk

theorem sameCursor_sendEnd (nowMs : ℤ) (g : Sending) :
    g.stream.SameCursor (g.sendEnd cfg nowMs).stream := by
  obtain ⟨hstream, -⟩ := sendBulk_cases (.demoEnd g.stream.id g.stream.finalSize g.stream.sha256) g
  unfold Sending.sendEnd
  dsimp only
  split_ifs
  · rw [hstream]
    exact ⟨rfl, rfl, rfl, rfl, fun h => h⟩
  · rw [hstream]
    exact .refl _
  · exact .refl _

theorem Stream.InWindow.sendAll (h : g.stream.InWindow cfg.windowBytes) (content : Option Bytes)
    (nowMs size : ℤ) : (g.sendAll cfg content nowMs size).stream.InWindow cfg.windowBytes := by
  unfold Sending.sendAll
  dsimp only
  generalize hlimit : (if 0 ≤ g.stream.finalSize then g.stream.finalSize else size) = limit
  have hforward := h.forward (fun hfinal => hlimit.symm.trans (if_pos hfinal)) content nowMs 16
  split_ifs
  all_goals first
    | exact hforward
    | exact hforward.frame ((sameCursor_resend content _ _).trans (sameCursor_sendEnd nowMs _))
    | exact hforward.frame (sameCursor_resend content _ _)

end Sending

section Work

variable {sha256 : Bytes → Bytes}

theorem Stream.InWindow.finalPass (h : s.InWindow window) (hfirst : s.finalSize < 0)
    (content : Bytes) : (s.finalPass sha256 content).InWindow window := by
  have hlength : (0 : ℤ) ≤ content.length := Int.natCast_nonneg _
  constructor
  · exact le_min h.sent hlength
  · exact h.acked
  · intro hstream
    have hflight := h.flight hstream
    simp only [Stream.finalPass]
    omega
  · intro hstream
    have horder := h.order hstream
    have hsent := h.sent
    simp only [Stream.finalPass]
    omega

theorem Stream.InWindow.sendData (h : s.InWindow cfg.windowBytes) (nowMs size : ℤ) (w : World) :
    (s.sendData cfg sha256 nowMs size w).1.InWindow cfg.windowBytes := by
  unfold Stream.sendData
  split_ifs with hsettled
  · have hfirst : s.finalSize < 0 := by
      simp only [Stream.isSettled, Bool.and_eq_true, decide_eq_true_eq] at hsettled
      exact hsettled.1.1.2
    cases hcontent : w.content with
    | none => exact h
    | some content =>
      exact Stream.InWindow.sendAll (h.finalPass hfirst content) (some content) nowMs size
  · exact Stream.InWindow.sendAll h w.content nowMs size

theorem sameCursor_reannounce (nowMs : ℤ) (session : ℕ) (s : Stream) :
    s.SameCursor (s.reannounce cfg nowMs session) := by
  unfold Stream.reannounce
  dsimp only
  split_ifs
  all_goals first
    | exact .refl _
    | exact ⟨rfl, rfl, rfl, rfl, fun h => by cases h⟩

theorem Stream.InWindow.talk (h : s.InWindow cfg.windowBytes) (nowMs size : ℤ) (w : World) :
    (s.talk cfg sha256 nowMs size w).1.InWindow cfg.windowBytes := by
  have hasked := h.frame (@sameCursor_reannounce cfg nowMs w.session s)
  unfold Stream.talk
  dsimp only
  split_ifs
  · exact h
  · unfold Stream.announce
    split_ifs
    · exact hasked
    · exact hasked.frame ⟨rfl, rfl, rfl, rfl, fun h => h⟩
  · exact hasked.sendData nowMs size w

theorem Stream.InWindow.sawFile (h : s.InWindow window) (nowMs size : ℤ) (ino : ℕ) :
    (s.sawFile nowMs size ino).1.InWindow window := by
  unfold Stream.sawFile
  dsimp only
  split_ifs
  · exact inWindow_of_phase le_rfl le_rfl (by simp [startOver])
  · exact inWindow_of_phase le_rfl le_rfl (by simp [startOver])
  · exact h.frame ⟨rfl, rfl, rfl, rfl, fun h => h⟩
  · exact h.frame ⟨rfl, rfl, rfl, rfl, fun h => h⟩

theorem Stream.InWindow.workOn (h : s.InWindow cfg.windowBytes) (nowMs size : ℤ) (ino : ℕ)
    (w : World) : (s.workOn cfg sha256 nowMs size ino w).1.InWindow cfg.windowBytes := by
  have hsaw := h.sawFile nowMs size ino
  unfold Stream.workOn
  dsimp only
  split_ifs
  · exact inWindow_of_phase hsaw.sent hsaw.acked (by simp)
  · refine Stream.InWindow.talk ?_ nowMs size w
    unfold Stream.checkStale
    split_ifs
    · exact hsaw.frame ⟨rfl, rfl, rfl, rfl, fun h => h⟩
    · exact hsaw

theorem Stream.InWindow.work (h : s.InWindow cfg.windowBytes) (nowMs : ℤ) (w : World) :
    (s.work cfg sha256 nowMs w).1.InWindow cfg.windowBytes := by
  unfold Stream.work
  by_cases hdone : s.phase = .done
  · rw [if_pos hdone]
    unfold Stream.cleanUp
    split_ifs
    · exact h.frame ⟨rfl, rfl, rfl, rfl, fun h => h⟩
    · exact h
  · rw [if_neg hdone]
    by_cases hover : s.isOver = true
    · rw [if_pos hover]
      exact h
    · rw [if_neg hover]
      cases w.stat with
      | some st => exact h.workOn nowMs st.1 st.2 w
      | none =>
        simp only [Stream.missing]
        split_ifs
        · exact inWindow_of_phase h.sent h.acked (by simp)
        · exact inWindow_of_phase h.sent h.acked (by simp)
        · exact h

/-- A restart of the plugin ends the streaming until the platform says where it is. -/
theorem Stream.InWindow.reloaded {window' : ℤ} (h : s.InWindow window) (nowMs : ℤ) :
    (s.reloaded nowMs).InWindow window' := by
  refine inWindow_of_phase h.sent h.acked ?_
  simp only [Stream.reloaded]
  split_ifs with hphase
  · simp
  · exact hphase

end Work

end Stream

section Plugin

/-- The plugin over its restarts, with the state file of its streams. -/
structure Plugin where
  streams : Streams
  saved : List Stream := []

/-- What `Load` takes from the state file. -/
def isLoaded (s : Stream) : Bool := s.id ≠ [] && isDemoFileName (basename s.spec.path)

namespace Plugin

/-- The rest of the program and the link act on the streams; the state is saved at some ticks; the
plugin starts again, with another configuration perhaps. -/
inductive Event where
  | call (e : Streams.Event)
  | save
  | restart (cfg : Config) (nowMs : ℤ)

variable (sha256 : Bytes → Bytes)

def step (p : Plugin) : Event → Plugin
  | .call e => { p with streams := p.streams.step sha256 e }
  | .save => { p with saved := p.streams.streams.map Tracked.stream }
  | .restart cfg nowMs =>
    { p with
      streams := {
        cfg := cfg.clamped
        streams := (p.saved.filter isLoaded).map fun s => { stream := s.reloaded nowMs } } }

def run (p : Plugin) (events : List Event) : Plugin := Support.run (step sha256) p events

def new (cfg : Config) : Plugin := { streams := Streams.new cfg }

variable {sha256}

/-- Everything that streams, waits to stream or was saved is in its window. -/
structure Sound (p : Plugin) : Prop where
  streams : ∀ t ∈ p.streams.streams, t.stream.InWindow p.streams.cfg.windowBytes
  queue : ∀ s, .begin s ∈ p.streams.queue → s.InWindow p.streams.cfg.windowBytes
  saved : ∀ s ∈ p.saved, ∃ window, s.InWindow window

variable {p : Plugin}

theorem inWindow_deliver {cfg : Config} {ts : List Tracked}
    (h : ∀ t ∈ ts, t.stream.InWindow cfg.windowBytes) (session : ℕ) (nowMs : ℤ) (a : Ack) :
    ∀ t ∈ Streams.deliver cfg session nowMs a ts, t.stream.InWindow cfg.windowBytes := by
  induction ts with
  | nil => exact h
  | cons t ts ih =>
    rw [List.forall_mem_cons] at h
    rw [Streams.deliver]
    split_ifs
    · rw [List.forall_mem_cons]
      exact ⟨h.1.onAck session nowMs a, h.2⟩
    · rw [List.forall_mem_cons]
      exact ⟨h.1, ih h.2⟩

theorem inWindow_apply {cfg : Config} {ts : List Tracked} {c : Cmd}
    (h : ∀ t ∈ ts, t.stream.InWindow cfg.windowBytes)
    (hc : ∀ s, c = .begin s → s.InWindow cfg.windowBytes) (session : ℕ) (nowMs : ℤ) :
    ∀ t ∈ Streams.apply cfg session nowMs ts c, t.stream.InWindow cfg.windowBytes := by
  cases c with
  | begin s =>
    intro t ht
    rcases List.mem_append.mp ht with ht | ht
    · obtain ⟨u, hu, rfl⟩ := List.mem_map.mp ht
      unfold Streams.replaced
      split_ifs
      · exact Stream.inWindow_of_phase (h u hu).sent (h u hu).acked (by simp)
      · exact h u hu
    · rw [List.mem_singleton.mp ht]
      exact hc s rfl
  | stop path stopMs =>
    intro t ht
    obtain ⟨u, hu, rfl⟩ := List.mem_map.mp ht
    unfold Streams.stopped
    split_ifs
    · exact (h u hu).frame ⟨rfl, rfl, rfl, rfl, fun h => h⟩
    · exact h u hu
  | ack payload =>
    rw [Streams.apply]
    cases readAck payload with
    | none => exact h
    | some a => exact inWindow_deliver h session nowMs a

theorem inWindow_applyAll {cfg : Config} {ts : List Tracked} {cs : List Cmd}
    (h : ∀ t ∈ ts, t.stream.InWindow cfg.windowBytes)
    (hcs : ∀ s, .begin s ∈ cs → s.InWindow cfg.windowBytes) (session : ℕ) (nowMs : ℤ) :
    ∀ t ∈ cs.foldl (Streams.apply cfg session nowMs) ts, t.stream.InWindow cfg.windowBytes := by
  induction cs generalizing ts with
  | nil => exact h
  | cons c cs ih =>
    refine ih (inWindow_apply h ?_ session nowMs) fun s hs => hcs s (List.mem_cons_of_mem _ hs)
    rintro s rfl
    exact hcs s List.mem_cons_self

theorem Sound.enqueue (h : p.Sound) {c : Cmd}
    (hc : ∀ s, .begin s = c → s.InWindow p.streams.cfg.windowBytes) :
    Sound { p with streams := { p.streams with queue := p.streams.queue ++ [c] } } := by
  refine ⟨h.streams, fun s hs => ?_, h.saved⟩
  rcases List.mem_append.mp hs with hs | hs
  · exact h.queue s hs
  · exact hc s (List.mem_singleton.mp hs)

theorem Sound.step (h : p.Sound) (e : Event) : (p.step sha256 e).Sound := by
  cases e with
  | save =>
    refine ⟨h.streams, h.queue, fun s hs => ?_⟩
    obtain ⟨t, ht, rfl⟩ := List.mem_map.mp hs
    exact ⟨_, h.streams t ht⟩
  | restart cfg nowMs =>
    refine ⟨fun t ht => ?_, fun s hs => (by cases hs), h.saved⟩
    obtain ⟨s, hs, rfl⟩ := List.mem_map.mp ht
    obtain ⟨window, hwindow⟩ := h.saved s (List.mem_of_mem_filter hs)
    exact hwindow.reloaded nowMs
  | call e =>
    cases e with
    | begin spec id nowMs =>
      simp only [Plugin.step, Streams.step, Streams.begin]
      split_ifs
      · refine h.enqueue fun s hs => ?_
        cases hs
        exact Stream.inWindow_of_phase le_rfl le_rfl (by simp)
      · refine h.enqueue fun s hs => ?_
        cases hs
        exact Stream.inWindow_of_phase le_rfl le_rfl (by simp)
      · exact h
    | stop path nowMs => exact h.enqueue fun s hs => by cases hs
    | onAck payload => exact h.enqueue fun s hs => by cases hs
    | tick session nowMs worlds =>
      refine ⟨fun t ht => ?_, fun s hs => (by cases hs), h.saved⟩
      obtain ⟨i, hi, rfl⟩ := List.mem_mapIdx.mp (List.mem_of_mem_filter ht)
      exact (inWindow_applyAll h.streams h.queue session nowMs _ (List.getElem_mem hi)).work
        nowMs (worlds i)

theorem sound_new (cfg : Config) : (new cfg).Sound :=
  ⟨fun t ht => (by cases ht), fun s hs => (by cases hs), fun s hs => (by cases hs)⟩

/-- In every run every stream is in its window. -/
theorem streams_inWindow (sha256 : Bytes → Bytes) (cfg : Config) (events : List Event) (t : Tracked)
    (ht : t ∈ ((new cfg).run sha256 events).streams.streams) :
    t.stream.InWindow ((new cfg).run sha256 events).streams.cfg.windowBytes := by
  have hrun : ((new cfg).run sha256 events).Sound :=
    run_invariant (sound_new cfg) fun e _ p hp => hp.step e
  exact hrun.streams t ht

/-- The platform says that it has a byte. -/
def oneByteAck : Bytes := ascii "\x7b\"demo_id\":\"d\",\"offset\":1\x7d"

/-- A recording of one byte that the platform has; the tick that makes the final pass finds the file
with its byte, and then reads nothing from it. -/
def shortenedEvents : List Event :=
  [.call (.begin Streams.sampleSpec (ascii "d") 1), .call (.tick 1 1 fun _ => Streams.sampleWorld),
    .call (.stop Streams.sampleSpec.path 2), .call (.onAck oneByteAck),
    .call (.tick 1 10 fun _ => { Streams.sampleWorld with content := some [] })]

def shortenedRun : Plugin := (new { settleMs := 0 }).run (fun _ => []) shortenedEvents

theorem shortenedRun_streams :
    (shortenedRun.streams.streams.map fun t => (t.stream.phase, t.stream.sent, t.stream.acked)) =
      [(.stream, 0, 1)] := by decide

theorem exists_shortened : ∃ t ∈ shortenedRun.streams.streams, t.stream.phase = .stream ∧
    t.stream.sent = 0 ∧ t.stream.acked = 1 := by
  have hmem : (Phase.stream, (0 : ℤ), (1 : ℤ)) ∈
      shortenedRun.streams.streams.map fun t =>
        (t.stream.phase, t.stream.sent, t.stream.acked) := by
    simp [shortenedRun_streams]
  obtain ⟨t, ht, heq⟩ := List.mem_map.mp hmem
  simp only [Prod.mk.injEq] at heq
  exact ⟨t, ht, heq⟩

theorem streams_inWindow_shortened :
    ∃ t ∈ shortenedRun.streams.streams, t.stream.InWindow shortenedRun.streams.cfg.windowBytes := by
  obtain ⟨t, ht, -⟩ := exists_shortened
  exact ⟨t, ht, streams_inWindow _ _ _ t ht⟩

/-- There the platform has more than what counts as sent. -/
theorem acked_exceeds_sent :
    ∃ t ∈ shortenedRun.streams.streams, t.stream.phase = .stream ∧
    ¬t.stream.acked ≤ t.stream.sent := by
  obtain ⟨t, ht, hphase, hsent, hacked⟩ := exists_shortened
  exact ⟨t, ht, hphase, by omega⟩

end Plugin

end Plugin

end ReadyUp.Fleet.Demo
