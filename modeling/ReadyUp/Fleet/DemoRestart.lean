import ReadyUp.Fleet.Demo

/-!
# Restarts of a demo stream

Once a stream has set `restart` it owes the platform a `demo.begin` that says so, and nothing of
the file may go out before. The announce phase takes any ack for the answer to its `demo.begin`.
An ack that comes late, between the decision and the announcement, ends the phase and clears
`restart`. Where no ack comes at that time, every restart is announced before data is sent.
-/
namespace ReadyUp.Fleet.Demo

open Support JsonText

def Action.isData : Action → Bool
  | .send (.demoChunk _ _ _ _) => true
  | .send (.demoEnd _ _ _) => true
  | _ => false

/-- Whether the stream owes an announcement of its restart, if it did before or not. -/
def Action.after (owed : Bool) : Action → Bool
  | .restart => true
  | .send (.demoBegin a) => owed && !a.restart
  | _ => owed

def owes (owed : Bool) (log : List Action) : Bool := log.foldl Action.after owed

/-- No data goes out while the announcement of a restart is owed. -/
def honoured : Bool → List Action → Bool
  | _, [] => true
  | owed, a :: log => !(a.isData && owed) && honoured (a.after owed) log

theorem owes_append (o : Bool) (as bs : List Action) : owes o (as ++ bs) = owes (owes o as) bs :=
  List.foldl_append

theorem honoured_append (o : Bool) (as bs : List Action) :
    honoured o (as ++ bs) = (honoured o as && honoured (owes o as) bs) := by
  induction as generalizing o with
  | nil => simp [honoured, owes]
  | cons a as ih =>
    rw [List.cons_append, honoured, honoured, ih, Bool.and_assoc]
    rfl

theorem honoured_of_isData {log : List Action} (h : ∀ a ∈ log, a.isData = true) :
    honoured false log = true ∧ owes false log = false := by
  induction log with
  | nil => exact ⟨rfl, rfl⟩
  | cons a log ih =>
    have hafter : a.after false = false := by
      have ha := h a List.mem_cons_self
      cases a with
      | send m =>
        cases m with
        | demoBegin b => cases ha
        | _ => rfl
      | _ => cases ha
    obtain ⟨hhonoured, howes⟩ := ih fun b hb => h b (List.mem_cons_of_mem _ hb)
    rw [honoured, owes, List.foldl_cons, hafter]
    exact ⟨by simp [hhonoured], howes⟩

/-- A stream that owes an announcement has not forgotten it, and is not sending. -/
def Owing (o : Bool) (s : Stream) : Prop := o = true → s.restart = true ∧ s.phase ≠ .stream

/-- What a call may do to a stream: it sends no data that it must not send. -/
structure Keeps (o : Bool) (r : Stream × List Action) : Prop where
  honoured : honoured o r.2 = true
  owing : Owing (owes o r.2) r.1

theorem keeps_of_owing {o : Bool} {s : Stream} (h : Owing o s) : Keeps o (s, []) := ⟨rfl, h⟩

theorem Keeps.append {o : Bool} {s s' : Stream} {as bs : List Action} (h : Keeps o (s, as))
    (h' : Keeps (owes o as) (s', bs)) : Keeps o (s', as ++ bs) := by
  refine ⟨?_, ?_⟩
  · rw [honoured_append, h.honoured, h'.honoured]
    rfl
  · rw [owes_append]
    exact h'.owing

theorem keeps_of_isData {s : Stream} {log : List Action} (h : ∀ a ∈ log, a.isData = true) :
    Keeps false (s, log) := by
  obtain ⟨hhonoured, howes⟩ := honoured_of_isData h
  refine ⟨hhonoured, ?_⟩
  rw [howes]
  exact fun hfalse => (by cases hfalse)

section OnAck

variable {o : Bool} {s : Stream} {cfg : Config}

/-- The ack would be taken for the answer to `demo.begin`. -/
def accepts (a : Ack) (s : Stream) : Bool :=
  a.error.isNone && decide (0 ≤ a.offset) && s.phase = .announce

theorem keeps_startOver (s : Stream) : Keeps o (s.startOver, [.restart]) := by
  refine ⟨by simp [honoured, Action.isData], fun _ => ⟨rfl, ?_⟩⟩
  simp [Stream.startOver]

theorem keeps_onError (h : Owing o s) (nowMs offset : ℤ) (code : Bytes) :
    Keeps o (s.onError cfg nowMs offset code) := by
  rw [Stream.onError]
  dsimp only
  split_ifs
  · exact keeps_of_owing h
  · exact keeps_of_owing fun ho => ⟨(h ho).1, by simp⟩
  · exact keeps_startOver _
  · exact keeps_of_owing fun ho => ⟨(h ho).1, by simp⟩
  · exact keeps_of_owing fun ho => ⟨(h ho).1, by simp⟩
  · exact keeps_of_owing fun ho => ⟨(h ho).1, by simp⟩

theorem phase_of_not_isOver (h : s.isOver = false) : s.phase = .announce ∨ s.phase = .stream := by
  rw [Stream.isOver] at h
  cases hp : s.phase <;> simp_all

theorem keeps_onAck (h : Owing o s) {a : Ack} (hlate : accepts a s = true → o = false) (session : ℕ)
    (nowMs : ℤ) : Keeps o (s.onAck cfg session nowMs a) := by
  rw [Stream.onAck]
  by_cases hover : s.isOver = true
  · rw [if_pos hover]
    exact keeps_of_owing h
  · rw [if_neg hover]
    cases herror : a.error with
    | some code => exact keeps_onError h nowMs a.offset code
    | none =>
      dsimp only
      split_ifs with hneg
      · exact keeps_of_owing h
      · -- neither an announce phase nor a stream phase owes anything here
        have ho : o = false := by
          rcases phase_of_not_isOver (by simpa using hover) with hp | hp
          · exact hlate (by simpa [accepts, herror, hp] using hneg)
          · by_contra htrue
            exact (h (by simpa using htrue)).2 hp
        rw [ho]
        exact keeps_of_owing fun hfalse => (by cases hfalse)

end OnAck

section Sending

variable (cfg : Config) {g : Sending} (content : Option Bytes)

/-- Everything that was sent is data. -/
def Sending.OnlyData (g : Sending) : Prop := ∀ a ∈ g.sent, a.isData = true

namespace Sending.OnlyData

theorem sendBulk (h : g.OnlyData) {m : Message} (hm : (Action.send m).isData = true) :
    (g.sendBulk m).2.OnlyData := by
  rw [Sending.sendBulk]
  split
  · exact h
  · exact h
  · intro a ha
    rcases List.mem_append.mp ha with ha | ha
    · exact h a ha
    · rw [List.mem_singleton.mp ha]
      exact hm

theorem sendChunk (h : g.OnlyData) (offset len : ℤ) :
    (g.sendChunk content offset len).2.OnlyData := by
  rw [Sending.sendChunk]
  split
  · exact h
  · rename_i data _
    have hbulk := h.sendBulk (m := .demoChunk g.stream.id offset len data) rfl
    dsimp only
    split_ifs
    · exact hbulk
    · exact hbulk

theorem forward (h : g.OnlyData) (nowMs limit : ℤ) (budget : ℕ) :
    (g.forward cfg content nowMs limit budget).2.OnlyData := by
  induction budget generalizing g with
  | zero => exact h
  | succ budget ih =>
    rw [Sending.forward]
    dsimp only
    generalize hg' : (if g.stream.sent = g.stream.acked then
      { g with stream := { g.stream with lastAckMs := nowMs } } else g) = g'
    have hsent : g'.OnlyData := by
      rw [← hg']
      split_ifs
      · exact h
      · exact h
    have hchunk := hsent.sendChunk content g.stream.sent
      (min (g.stream.chunk : ℤ) (limit - g.stream.sent))
    split_ifs
    · exact h
    · exact h
    · exact ih hchunk
    · exact hchunk
    · exact h

theorem resend (h : g.OnlyData) (budget : ℕ) : (g.resend content budget).OnlyData := by
  induction budget generalizing g with
  | zero => exact h
  | succ budget ih =>
    rw [Sending.resend]
    split
    · exact h
    · rename_i offset rest _
      have hchunk := h.sendChunk content offset
        (min (g.stream.chunk : ℤ) (g.stream.finalSize - offset))
      dsimp only
      split_ifs
      · exact ih hchunk
      · exact hchunk

theorem sendEnd (h : g.OnlyData) (nowMs : ℤ) : (g.sendEnd cfg nowMs).OnlyData := by
  have hbulk := h.sendBulk (m := .demoEnd g.stream.id g.stream.finalSize g.stream.sha256) rfl
  rw [Sending.sendEnd]
  dsimp only
  split_ifs
  · exact hbulk
  · exact hbulk
  · exact h

theorem sendAll (h : g.OnlyData) (nowMs size : ℤ) :
    (g.sendAll cfg content nowMs size).OnlyData := by
  rw [Sending.sendAll]
  dsimp only
  have hforward := fun limit => h.forward cfg content nowMs limit 16
  split_ifs
  all_goals first
    | exact hforward _
    | exact ((hforward _).resend content _).sendEnd cfg _
    | exact (hforward _).resend content _

end Sending.OnlyData

variable (sha256 : Bytes → Bytes) (s : Stream)

theorem isData_of_sendData (nowMs size : ℤ) (w : World) :
    ∀ a ∈ (s.sendData cfg sha256 nowMs size w).2, a.isData = true := by
  have hempty : ∀ s : Stream, Sending.OnlyData { stream := s, lane := w.lane } :=
    fun _ _ ha => (by cases ha)
  rw [Stream.sendData]
  split_ifs
  · split
    · exact fun a ha => (by cases ha)
    · exact (hempty _).sendAll cfg _ nowMs size
  · exact (hempty _).sendAll cfg _ nowMs size

end Sending

section Work

variable {o : Bool} {s : Stream} {cfg : Config} {sha256 : Bytes → Bytes}

/-- What the file says changes the phase only to start over. -/
theorem keeps_sawFile (h : Owing o s) (hover : s.isOver = false) (nowMs size : ℤ) (ino : ℕ) :
    Keeps o (s.sawFile nowMs size ino) ∧ (s.sawFile nowMs size ino).1.isOver = false := by
  rw [Stream.sawFile]
  dsimp only
  split_ifs
  · exact ⟨⟨by simp [honoured, Action.isData], fun _ => ⟨rfl, by simp [Stream.startOver]⟩⟩, rfl⟩
  · exact ⟨⟨by simp [honoured, Action.isData], fun _ => ⟨rfl, by simp [Stream.startOver]⟩⟩, rfl⟩
  · exact ⟨keeps_of_owing h, hover⟩
  · exact ⟨keeps_of_owing h, hover⟩

theorem owing_reannounce (cfg : Config) (h : Owing o s) (nowMs : ℤ) (session : ℕ) :
    Owing o (s.reannounce cfg nowMs session) := by
  intro ho
  obtain ⟨hrestart, hphase⟩ := h ho
  rw [Stream.reannounce]
  simp [hphase, hrestart]

theorem isOver_reannounce (hover : s.isOver = false) (nowMs : ℤ) (session : ℕ) :
    (s.reannounce cfg nowMs session).isOver = false := by
  rw [Stream.reannounce]
  split_ifs <;> first | rfl | exact hover

theorem keeps_announce (h : Owing o s) (nowMs : ℤ) (accepted : Bool) :
    Keeps o (s.announce cfg nowMs accepted) := by
  rw [Stream.announce]
  split_ifs
  · exact keeps_of_owing h
  · refine ⟨by simp [honoured, Action.isData], ?_⟩
    cases o with
    | false => exact fun hfalse => (by cases hfalse)
    | true =>
      -- the announcement says what is owed
      have hpaid : owes true [.send (.demoBegin s.announcement)] = false := by
        simp [owes, Action.after, Stream.announcement, (h rfl).1]
      rw [hpaid]
      exact fun hfalse => (by cases hfalse)

theorem keeps_talk (h : Owing o s) (hover : s.isOver = false) (nowMs size : ℤ) (w : World) :
    Keeps o (s.talk cfg sha256 nowMs size w) := by
  have howing := owing_reannounce cfg h nowMs w.session
  rw [Stream.talk]
  dsimp only
  split_ifs with honline hphase
  · exact keeps_of_owing h
  · exact keeps_announce howing nowMs w.send
  · rcases phase_of_not_isOver (isOver_reannounce hover nowMs w.session) with hp | hp
    · exact absurd hp hphase
    · have ho : o = false := by
        by_contra htrue
        exact (howing (by simpa using htrue)).2 hp
      rw [ho]
      exact keeps_of_isData (isData_of_sendData cfg sha256 _ nowMs size w)

theorem keeps_workOn (h : Owing o s) (hover : s.isOver = false) (nowMs size : ℤ) (ino : ℕ)
    (w : World) : Keeps o (s.workOn cfg sha256 nowMs size ino w) := by
  obtain ⟨hsaw, hsawOver⟩ := keeps_sawFile h hover nowMs size ino
  rw [Stream.workOn]
  generalize s.sawFile nowMs size ino = r at hsaw hsawOver
  obtain ⟨s', restarted⟩ := r
  dsimp only
  split_ifs
  · exact ⟨hsaw.honoured, fun ho => ⟨(hsaw.owing ho).1, by simp⟩⟩
  · have hstale : Owing (owes o restarted) (s'.checkStale cfg nowMs) ∧
        (s'.checkStale cfg nowMs).isOver = false := by
      rw [Stream.checkStale]
      split_ifs
      · exact ⟨hsaw.owing, hsawOver⟩
      · exact ⟨hsaw.owing, hsawOver⟩
    exact hsaw.append (keeps_talk hstale.1 hstale.2 nowMs size w)

theorem honoured_unlinked (o : Bool) (s : Stream) (w : World) :
    honoured o (s.unlinked w) = true ∧ owes o (s.unlinked w) = o := by
  rw [Stream.unlinked]
  split
  · exact ⟨rfl, rfl⟩
  · split_ifs
    · exact ⟨rfl, rfl⟩
    · exact ⟨rfl, rfl⟩

theorem keeps_cleanUp (h : Owing o s) (nowMs : ℤ) (w : World) :
    Keeps o (s.cleanUp cfg nowMs w) := by
  rw [Stream.cleanUp]
  split_ifs
  · obtain ⟨hhonoured, howes⟩ := honoured_unlinked o s w
    refine ⟨hhonoured, ?_⟩
    rw [howes]
    exact h
  · exact keeps_of_owing h

theorem keeps_work (h : Owing o s) (nowMs : ℤ) (w : World) :
    Keeps o (s.work cfg sha256 nowMs w) := by
  rw [Stream.work]
  by_cases hdone : s.phase = .done
  · rw [if_pos hdone]
    exact keeps_cleanUp h nowMs w
  · rw [if_neg hdone]
    by_cases hover : s.isOver = true
    · rw [if_pos hover]
      exact keeps_of_owing h
    · rw [if_neg hover]
      cases w.stat with
      | none =>
        dsimp only
        rw [Stream.missing]
        split_ifs
        · exact keeps_of_owing fun ho => ⟨(h ho).1, by simp⟩
        · exact keeps_of_owing fun ho => ⟨(h ho).1, by simp⟩
        · exact keeps_of_owing h
      | some st => exact keeps_workOn h (by simpa using hover) nowMs st.1 st.2 w

end Work

section Run

/-- Every restart so far was announced before data was sent, or none was sent since. -/
def Tracked.Sound (t : Tracked) : Prop := Keeps false (t.stream, t.log)

theorem Tracked.Sound.did {t : Tracked} (h : t.Sound) {r : Stream × List Action}
    (hr : Keeps (owes false t.log) r) : (t.did r).Sound := h.append hr

namespace Streams

variable {ts : List Tracked} {cfg : Config} {session : ℕ} {nowMs : ℤ}

/-- The stream that an ack names does not owe an announcement when it takes the ack for the
answer to one. -/
def ackInTime (a : Ack) : List Tracked → Bool
  | [] => true
  | t :: ts =>
    if t.stream.id = a.demoId then !(accepts a t.stream && owes false t.log) else ackInTime a ts

def inTime (ts : List Tracked) : Cmd → Bool
  | .ack payload => (readAck payload).all fun a => ackInTime a ts
  | _ => true

/-- The same for all calls that wait for a tick. -/
def allInTime (cfg : Config) (session : ℕ) (nowMs : ℤ) : List Tracked → List Cmd → Bool
  | _, [] => true
  | ts, c :: cs => inTime ts c && allInTime cfg session nowMs (apply cfg session nowMs ts c) cs

theorem sound_deliver (h : ∀ t ∈ ts, t.Sound) {a : Ack} (htime : ackInTime a ts = true) :
    ∀ t ∈ deliver cfg session nowMs a ts, t.Sound := by
  induction ts with
  | nil => exact h
  | cons t ts ih =>
    rw [deliver]
    rw [ackInTime] at htime
    have ht := h t List.mem_cons_self
    have htail : ∀ u ∈ ts, u.Sound := fun u hu => h u (List.mem_cons_of_mem _ hu)
    split_ifs at htime ⊢ with hid
    · rw [List.forall_mem_cons]
      refine ⟨ht.did (keeps_onAck ht.owing ?_ session nowMs), htail⟩
      intro haccepts
      simpa [haccepts] using htime
    · rw [List.forall_mem_cons]
      exact ⟨ht, ih htail htime⟩

theorem sound_replaced {t : Tracked} (h : t.Sound) (path : Bytes) :
    (replaced path nowMs t).Sound := by
  rw [replaced]
  split_ifs
  · exact ⟨h.honoured, fun ho => ⟨(h.owing ho).1, by simp⟩⟩
  · exact h

theorem sound_stopped {t : Tracked} (h : t.Sound) (path : Bytes) :
    (stopped path nowMs t).Sound := by
  rw [stopped]
  split_ifs
  · exact ⟨h.honoured, h.owing⟩
  · exact h

theorem sound_apply (h : ∀ t ∈ ts, t.Sound) {c : Cmd} (htime : inTime ts c = true) :
    ∀ t ∈ apply cfg session nowMs ts c, t.Sound := by
  cases c with
  | begin s =>
    intro t ht
    rcases List.mem_append.mp ht with ht | ht
    · obtain ⟨u, hu, rfl⟩ := List.mem_map.mp ht
      exact sound_replaced (h u hu) _
    · rw [List.mem_singleton.mp ht]
      exact keeps_of_owing fun hfalse => (by cases hfalse)
  | stop path stopMs =>
    intro t ht
    obtain ⟨u, hu, rfl⟩ := List.mem_map.mp ht
    exact sound_stopped (h u hu) _
  | ack payload =>
    rw [apply]
    cases hack : readAck payload with
    | none => exact h
    | some a =>
      rw [inTime, hack] at htime
      exact sound_deliver h htime

theorem sound_applyAll {cs : List Cmd} (h : ∀ t ∈ ts, t.Sound)
    (htime : allInTime cfg session nowMs ts cs = true) :
    ∀ t ∈ cs.foldl (apply cfg session nowMs) ts, t.Sound := by
  induction cs generalizing ts with
  | nil => exact h
  | cons c cs ih =>
    rw [allInTime, Bool.and_eq_true] at htime
    exact ih (sound_apply h htime.1) htime.2

variable {sha256 : Bytes → Bytes} {s : Streams}

theorem sound_worked (h : ∀ t ∈ ts, t.Sound) (worlds : ℕ → World) :
    ∀ t ∈ worked sha256 cfg nowMs worlds ts, t.Sound := by
  intro t ht
  obtain ⟨i, hi, rfl⟩ := List.mem_mapIdx.mp ht
  have hu := h _ (List.getElem_mem hi)
  exact hu.did (keeps_work hu.owing nowMs (worlds i))

/-- No ack that the step applies is late. -/
def stepInTime (s : Streams) : Event → Bool
  | .tick session nowMs _ => allInTime s.cfg session nowMs s.streams s.queue
  | _ => true

/-- No ack of the run comes between a restart and its announcement. -/
def runInTime (sha256 : Bytes → Bytes) : Streams → List Event → Bool
  | _, [] => true
  | s, e :: es => s.stepInTime e && runInTime sha256 (s.step sha256 e) es

theorem sound_step (h : ∀ t ∈ s.streams, t.Sound) {e : Event} (htime : s.stepInTime e = true) :
    ∀ t ∈ (s.step sha256 e).streams, t.Sound := by
  cases e with
  | begin spec id nowMs =>
    rw [step, begin]
    dsimp only
    split_ifs
    all_goals exact h
  | stop path nowMs => exact h
  | onAck payload => exact h
  | tick session nowMs worlds =>
    intro t ht
    exact sound_worked (sound_applyAll h htime) worlds t (List.mem_of_mem_filter ht)

theorem sound_run {events : List Event} (h : ∀ t ∈ s.streams, t.Sound)
    (htime : runInTime sha256 s events = true) : ∀ t ∈ (s.run sha256 events).streams, t.Sound := by
  induction events generalizing s with
  | nil => exact h
  | cons e events ih =>
    rw [runInTime, Bool.and_eq_true] at htime
    exact ih (sound_step h htime.1) htime.2

/-- In a run where no ack comes between a restart and its announcement, every restart is
announced before data is sent. -/
theorem restarts_announced {events : List Event}
    (htime : runInTime sha256 (new cfg) events = true) :
    ∀ t ∈ ((new cfg).run sha256 events).streams, honoured false t.log = true := by
  have hnew : ∀ t ∈ (new cfg).streams, t.Sound := by
    intro t ht
    cases ht
  intro t ht
  exact (sound_run hnew htime t ht).honoured

/-- A file of one byte and a link that takes everything. -/
def sampleWorld : World where
  stat := some (1, 7)
  content := some [65]
  online := true
  session := 1
  send := true
  lane := [true, true]

def sampleSpec : Spec := { matchId := ascii "m", path := ascii "/a.dem" }

def offsetAck : Bytes := ascii "\x7b\"demo_id\":\"d\",\"offset\":0\x7d"

def checksumAck : Bytes :=
  ascii "\x7b\"demo_id\":\"d\",\"offset\":0,\"error\":\x7b\"code\":\"checksum\"\x7d\x7d"

def sampleEvents : List Event :=
  [.begin sampleSpec (ascii "d") 1, .tick 1 1 fun _ => sampleWorld, .stop sampleSpec.path 2,
    .onAck offsetAck, .tick 1 10 fun _ => sampleWorld]

/-- The same demo, announced again after a checksum error. -/
def announcedEvents : List Event :=
  sampleEvents ++ [.onAck checksumAck, .tick 1 20 fun _ => sampleWorld, .onAck offsetAck,
    .tick 1 30 fun _ => sampleWorld]

theorem restarts_announced_checksum :
    runInTime (fun _ => []) (new { settleMs := 0 }) announcedEvents = true ∧
      ∀ t ∈ ((new { settleMs := 0 }).run (fun _ => []) announcedEvents).streams,
        honoured false t.log = true := by
  have htime : runInTime (fun _ => []) (new { settleMs := 0 }) announcedEvents = true := by
    decide
  exact ⟨htime, restarts_announced htime⟩

/-- An ack of the first attempt that is applied right after the checksum error: the file is sent
again, and the platform was not told to drop what it has. -/
theorem late_ack_restarts_silently :
    ∃ t ∈ ((new { settleMs := 0 }).run (fun _ => []) (sampleEvents ++
      [.onAck checksumAck, .onAck offsetAck, .tick 1 20 fun _ => sampleWorld])).streams,
      honoured false t.log = false := by
  have hany : (((new { settleMs := 0 }).run (fun _ => []) (sampleEvents ++
      [.onAck checksumAck, .onAck offsetAck, .tick 1 20 fun _ => sampleWorld])).streams.any
      fun t => !honoured false t.log) = true := by decide
  obtain ⟨t, ht, hlog⟩ := List.any_eq_true.mp hany
  exact ⟨t, ht, by simpa using hlog⟩

end Streams

end Run

end ReadyUp.Fleet.Demo
