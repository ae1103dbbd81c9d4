import ReadyUp.Fleet.Demo
import ReadyUp.Support.Runs

/-!
# The life of a demo stream

What happens to one stream from the start of its recording: the acks for it, the ticks that find
its file, the end of the recording, and a reload of the plugin, which goes on with the state that
was saved last. A life also keeps what was sent, which no reload takes back: `copy` is the file
as the platform has it, where every chunk is stored at its offset.
-/
namespace ReadyUp.Fleet.Demo

open Support

section Copy

/-- The byte that an action sends for a position of the file. -/
def Action.byteAt (p : ℕ) : Action → Option UInt8
  | .send (.demoChunk _ offset _ data) => if offset ≤ p then data[(p - offset).toNat]? else none
  | _ => none

/-- The byte that was last sent for a position of the file. -/
def copy : List Action → ℕ → Option UInt8
  | [], _ => none
  | a :: log, p => (copy log p).or (a.byteAt p)

theorem copy_append (as bs : List Action) (p : ℕ) :
    copy (as ++ bs) p = (copy bs p).or (copy as p) := by
  induction as with
  | nil => rw [List.nil_append, copy, Option.or_none]
  | cons a as ih => rw [List.cons_append, copy, copy, ih, Option.or_assoc]

@[simp] theorem copy_nil (p : ℕ) : copy [] p = none := rfl

theorem copy_concat (log : List Action) (a : Action) (p : ℕ) :
    copy (log ++ [a]) p = (a.byteAt p).or (copy log p) := by
  rw [copy_append, copy, copy_nil, Option.none_or]

theorem copy_concat_of_none {log : List Action} {a : Action} {p : ℕ} (h : a.byteAt p = none) :
    copy (log ++ [a]) p = copy log p := by
  rw [copy_concat, h, Option.none_or]

theorem byteAt_chunk {id : Bytes} {offset p : ℕ} {size : ℤ} {data : Bytes} :
    Action.byteAt p (.send (.demoChunk id offset size data)) =
      if offset ≤ p then data[p - offset]? else none := by
  rw [Action.byteAt]
  by_cases hle : offset ≤ p
  · have hsub : ((p : ℤ) - offset).toNat = p - offset := by omega
    rw [if_pos hle, if_pos (by exact_mod_cast hle), hsub]
  · rw [if_neg hle, if_neg (by exact_mod_cast hle)]

end Copy

/-- What `Load` makes of a stream that `Save` wrote: one that was sending asks where to resume. -/
def Stream.reloaded (nowMs : ℤ) (s : Stream) : Stream where
  id := s.id
  spec := s.spec
  file := basename s.spec.path
  chunk := max (4 * 1024) (min (512 * 1024) s.chunk)
  phase := if s.phase = .stream then .announce else s.phase
  recording := s.recording
  stoppedAtMs := nowMs
  sizeSinceMs := nowMs
  sent := s.sent
  acked := s.acked
  fps := s.fps
  rewrites := s.rewrites
  finalSize := s.finalSize
  sha256 := s.sha256
  restart := s.restart
  checksumFailures := s.checksumFailures
  doneAtMs := s.doneAtMs
  error := s.error

/-- A stream as `Begin` queues it. -/
structure Stream.Fresh (cfg : Config) (s : Stream) : Prop where
  phase : s.phase = .announce
  sent : s.sent = 0
  fps : s.fps = []
  finalSize : s.finalSize = -1
  chunk : s.chunk = cfg.chunkBytes

/-- A stream with everything that has happened to it, and what was saved of it. `seen` is the file
that its ticks found last; `reported` is the offset with which the platform last moved the cursor,
and `since` how much had happened by then. -/
structure Life extends Tracked where
  saved : Option Stream := none
  seen : Option Bytes := none
  reported : ℤ := 0
  since : ℕ := 0

inductive LifeEvent where
  | ack (session : ℕ) (nowMs : ℤ) (a : Ack)
  | work (nowMs : ℤ) (w : World)
  | stop (nowMs : ℤ)
  | replaced (nowMs : ℤ)
  | save
  | reload (nowMs : ℤ)

namespace Life

variable (cfg : Config) (sha256 : Bytes → Bytes)

/-- What is left of the cursor's history after an ack: it begins anew where the ack is taken for
an answer to `demo.begin`, or moves the cursor. -/
def afterAck (result : Stream × List Action) (l : Life) : Life :=
  let l' := { l with toTracked := l.toTracked.did result }
  if l.stream.phase = .announce ∨ result.1.sent ≠ l.stream.sent then
    { l' with reported := result.1.sent, since := l'.log.length }
  else l'

/-- One event; a stream that was not saved does not come back. -/
def step (l : Life) : LifeEvent → Life
  | .ack session nowMs a => l.afterAck (l.stream.onAck cfg session nowMs a)
  | .work nowMs w => { l with
      toTracked := l.toTracked.did (l.stream.work cfg sha256 nowMs w), seen := w.content.or l.seen }
  | .stop nowMs => { l with toTracked := Streams.stopped l.stream.spec.path nowMs l.toTracked }
  | .replaced nowMs => { l with toTracked := Streams.replaced l.stream.spec.path nowMs l.toTracked }
  | .save => { l with saved := some l.stream }
  | .reload nowMs =>
    match l.saved with
    | none => l
    | some s => { l with stream := s.reloaded nowMs }

def run (l : Life) (events : List LifeEvent) : Life := Support.run (step cfg sha256) l events

/-- The life of a stream that was just queued. -/
def born (s : Stream) : Life := { stream := s }

end Life

section Streams

variable {cfg : Config} {sha256 : Bytes → Bytes} {ts : List Tracked}

/-- A life of a stream that was started, without a reload, that leads to `t`. -/
def Lives (cfg : Config) (sha256 : Bytes → Bytes) (t : Tracked) : Prop :=
  ∃ s : Stream, s.Fresh cfg ∧
    ∃ events : List LifeEvent, ((Life.born s).run cfg sha256 events).toTracked = t

theorem Lives.step {t : Tracked} (h : Lives cfg sha256 t) {t' : Tracked} (e : LifeEvent)
    (he : ∀ l : Life, l.toTracked = t → (l.step cfg sha256 e).toTracked = t') : Lives cfg
      sha256 t' := by
  obtain ⟨s, hfresh, events, hrun⟩ := h
  refine ⟨s, hfresh, events ++ [e], ?_⟩
  rw [Life.run, run_append]
  exact he _ hrun

theorem Life.toTracked_afterAck (r : Stream × List Action) (l : Life) :
    (l.afterAck r).toTracked = l.toTracked.did r := by
  rw [Life.afterAck]
  dsimp only
  split_ifs <;> rfl

theorem lives_deliver (h : ∀ t ∈ ts, Lives cfg sha256 t) (session : ℕ) (nowMs : ℤ) (a : Ack) :
    ∀ t ∈ Streams.deliver cfg session nowMs a ts, Lives cfg sha256 t := by
  induction ts with
  | nil => exact h
  | cons t ts ih =>
    have ht := h t List.mem_cons_self
    have htail : ∀ u ∈ ts, Lives cfg sha256 u := fun u hu => h u (List.mem_cons_of_mem _ hu)
    rw [Streams.deliver]
    split_ifs
    · rw [List.forall_mem_cons]
      refine ⟨ht.step (.ack session nowMs a) ?_, htail⟩
      rintro l rfl
      exact Life.toTracked_afterAck _ l
    · rw [List.forall_mem_cons]
      exact ⟨ht, ih htail⟩

/-- A call that waited: streams go on with their lives, and a new one begins. -/
theorem lives_apply (h : ∀ t ∈ ts, Lives cfg sha256 t) {c : Cmd}
    (hc : ∀ s, c = .begin s → Lives cfg sha256 { stream := s }) (session : ℕ) (nowMs : ℤ) :
    ∀ t ∈ Streams.apply cfg session nowMs ts c, Lives cfg sha256 t := by
  cases c with
  | begin s =>
    intro t ht
    rcases List.mem_append.mp ht with ht | ht
    · obtain ⟨u, hu, rfl⟩ := List.mem_map.mp ht
      by_cases hpath : u.stream.spec.path = s.spec.path
      · refine (h u hu).step (.replaced nowMs) ?_
        rintro l rfl
        rw [← hpath]
        rfl
      · have hsame : Streams.replaced s.spec.path nowMs u = u := by
          rw [Streams.replaced, if_neg (fun hand => hpath hand.1)]
        rw [hsame]
        exact h u hu
    · rw [List.mem_singleton.mp ht]
      exact hc s rfl
  | stop path stopMs =>
    intro t ht
    obtain ⟨u, hu, rfl⟩ := List.mem_map.mp ht
    by_cases hpath : u.stream.spec.path = path
    · refine (h u hu).step (.stop stopMs) ?_
      rintro l rfl
      rw [← hpath]
      rfl
    · have hsame : Streams.stopped path stopMs u = u := by
        rw [Streams.stopped, if_neg (fun hand => hpath hand.1)]
      rw [hsame]
      exact h u hu
  | ack payload =>
    rw [Streams.apply]
    cases readAck payload with
    | none => exact h
    | some a => exact lives_deliver h session nowMs a

theorem lives_worked (h : ∀ t ∈ ts, Lives cfg sha256 t) (nowMs : ℤ) (worlds : ℕ → World) :
    ∀ t ∈ Streams.worked sha256 cfg nowMs worlds ts, Lives cfg sha256 t := by
  intro t ht
  obtain ⟨i, hi, rfl⟩ := List.mem_mapIdx.mp ht
  refine (h _ (List.getElem_mem hi)).step (.work nowMs (worlds i)) ?_
  rintro l hl
  rw [← hl]
  rfl

/-- The streams and the waiting calls of a plugin that has just started. -/
structure Streams.Alive (sha256 : Bytes → Bytes) (s : Streams) : Prop where
  streams : ∀ t ∈ s.streams, Lives s.cfg sha256 t
  queue : ∀ b, .begin b ∈ s.queue → Lives s.cfg sha256 { stream := b }

theorem Streams.Alive.applyAll {s : Streams} (h : s.Alive sha256) (session : ℕ) (nowMs : ℤ) :
    ∀ t ∈ s.queue.foldl (apply s.cfg session nowMs) s.streams, Lives s.cfg sha256 t := by
  obtain ⟨hstreams, hqueue⟩ := h
  generalize s.streams = ts at hstreams
  generalize s.queue = queue at hqueue
  induction queue generalizing ts with
  | nil => exact hstreams
  | cons c queue ih =>
    refine ih _ (lives_apply hstreams ?_ session nowMs)
      fun b hb => hqueue b (List.mem_cons_of_mem _ hb)
    rintro b rfl
    exact hqueue b List.mem_cons_self

theorem Streams.Alive.enqueue {s : Streams} (h : s.Alive sha256) {c : Cmd}
    (hc : ∀ b, .begin b = c → Lives s.cfg sha256 { stream := b }) :
    Alive sha256 { s with queue := s.queue ++ [c] } := by
  refine ⟨h.streams, fun b hb => ?_⟩
  rcases List.mem_append.mp hb with hb | hb
  · exact h.queue b hb
  · exact hc b (List.mem_singleton.mp hb)

theorem Streams.Alive.step {s : Streams} (h : s.Alive sha256) (e : Event) :
    (s.step sha256 e).Alive sha256 := by
  cases e with
  | begin spec id nowMs =>
    rw [Streams.step, begin]
    dsimp only
    split_ifs
    · refine h.enqueue fun b hb => ?_
      cases hb
      exact ⟨_, ⟨rfl, rfl, rfl, rfl, rfl⟩, [], rfl⟩
    · refine h.enqueue fun b hb => ?_
      cases hb
      exact ⟨_, ⟨rfl, rfl, rfl, rfl, rfl⟩, [], rfl⟩
    · exact h
  | stop path nowMs => exact h.enqueue fun b hb => by cases hb
  | onAck payload => exact h.enqueue fun b hb => by cases hb
  | tick session nowMs worlds =>
    refine ⟨fun t ht => ?_, fun b hb => by cases hb⟩
    exact lives_worked (h.applyAll session nowMs) nowMs worlds t (List.mem_of_mem_filter ht)

theorem lives_run (cfg : Config) (events : List Streams.Event) :
    ∀ t ∈ ((Streams.new cfg).run sha256 events).streams, Lives cfg.clamped sha256 t := by
  have hrun : ∀ s : Streams, s.Alive sha256 → (s.run sha256 events).Alive sha256 ∧
      (s.run sha256 events).cfg = s.cfg := by
    induction events with
    | nil => exact fun s hs => ⟨hs, rfl⟩
    | cons e events ih =>
      intro s hs
      obtain ⟨halive, hcfg⟩ := ih (s.step sha256 e) (hs.step e)
      refine ⟨halive, hcfg.trans ?_⟩
      cases e with
      | begin spec id nowMs =>
        rw [Streams.step, Streams.begin]
        dsimp only
        split_ifs <;> rfl
      | _ => rfl
  have hnew : (Streams.new cfg).Alive sha256 := by
    constructor
    · intro t ht
      cases ht
    · intro b hb
      cases hb
  obtain ⟨halive, hcfg⟩ := hrun (Streams.new cfg) hnew
  have hstreams := halive.streams
  rw [hcfg] at hstreams
  exact hstreams

end Streams

end ReadyUp.Fleet.Demo
