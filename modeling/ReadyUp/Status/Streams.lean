import ReadyUp.Status.Feed

/-!
# Streams of the status server

A client of `/stream` gets a snapshot, or the frames after the id it names, and then the frames
that each turn of the server's loop delivers. A stream stands at a position of the log and its
client has the view at that position. A client that comes before the first submission has an
empty view instead, and the first submission makes no event that would fill it.
-/
namespace ReadyUp.Status

open Support

/-- The rev in a `Last-Event-ID`. -/
def lastEventRev (lastId : Bytes) : Option ℕ :=
  if lastId ≠ [] ∧ lastId.all isDigit ∧ lastId.length < 20 then some (ofDigits lastId) else none

namespace Hub

/-- The frames after the event with the rev that a client names. -/
def resume (h : Hub) (rev : Option ℕ) : Option (List Frame) :=
  rev.bind fun rev => (h.seqForRev rev).bind h.framesAfter

def openFrames (h : Hub) (rev : Option ℕ) : List Frame := (h.resume rev).getD [h.snapshotFrame]

end Hub

/-- A stream stands where its last event was; `view` is what its client has. -/
structure Stream where
  seq : ℕ
  view : View

namespace Hub

/-- A new stream of a client that had a view. -/
def openStream (h : Hub) (lastId : Bytes) (view : View) : Stream where
  seq := h.lastSeq
  view := view.applyAll (h.openFrames (lastEventRev lastId))

/-- The delivery to one stream in the loop. -/
def deliver (h : Hub) (c : Stream) : Stream :=
  if c.seq < h.lastSeq then
    { seq := h.lastSeq,
      view := c.view.applyAll ((h.framesAfter c.seq).getD [h.snapshotFrame]) }
  else c

end Hub

structure Server where
  feed : Feed
  maxStreams : ℕ
  streams : List Stream := []

namespace Server

inductive Event where
  | submit (input : StatusInputs)
  | process
  | deliver
  /-- A client without a `Last-Event-ID`. -/
  | connect
  | close (i : ℕ)

def process (s : Server) : Server := { s with feed := s.feed.process }

def deliver (s : Server) : Server := { s with streams := s.streams.map s.feed.hub.deliver }

def loop (s : Server) : Server :=
  if s.feed.hub.process.2 then s.process.deliver else s.process

def connect (s : Server) : Server :=
  if s.maxStreams ≤ s.streams.length then s
  else { s with streams := s.streams ++ [s.feed.hub.openStream [] {}] }

def step (s : Server) : Event → Server
  | .submit input => { s with feed := s.feed.submit input }
  | .process => s.process
  | .deliver => s.deliver
  | .connect => s.connect
  | .close i => { s with streams := s.streams.eraseIdx i }

def run (s : Server) (events : List Event) : Server := events.foldl step s

/-- A server before anything was submitted. -/
def new (patchRing maxStreams : ℕ) : Server := { feed := .new patchRing, maxStreams }

/-- Clients come only when there is data. -/
def ConnectsWithData : Server → List Event → Prop
  | _, [] => True
  | s, e :: es =>
    (match e with
      | .connect => s.feed.hub.cur.isSome = true
      | _ => True) ∧ ConnectsWithData (s.step e) es

end Server

section Hold

/-- The stream is on its way: with the frames after its position, its client has what the hub
has. -/
structure Follows (f : Feed) (c : Stream) : Prop where
  data : f.hub.cur.isSome = true
  seq_le : c.seq ≤ f.log.length
  arrives : ∀ i, f.hub.cur = some i → (c.view.applyAll (f.log.drop c.seq)).Agrees (View.of i)

variable {f : Feed} {i : StatusInputs} {c : Stream}

theorem apply_snapshotFrame {h : Hub} (hi : h.cur = some i) (v : View) :
    v.apply h.snapshotFrame = View.of i := by
  rw [Hub.snapshotFrame, hi]
  simp only [View.apply, View.of, View.mk.injEq, true_and]
  funext p
  rw [View.told, lookup_map_self]
  split_ifs <;> rfl

theorem follows_of_agrees (h : f.Sound) (hi : f.hub.cur = some i) {v : View}
    (hv : v.Agrees (View.of i)) : Follows f { seq := f.hub.lastSeq, view := v } where
  data := by rw [hi]; rfl
  seq_le := h.kept.lastSeq.le
  arrives j hj := by
    obtain rfl : i = j := Option.some.inj (hi.symm.trans hj)
    rw [List.drop_eq_nil_of_le h.kept.lastSeq.ge]
    exact hv

theorem Follows.process (hc : Follows f c) : Follows f.process c := by
  obtain ⟨cur, hcur⟩ := Option.isSome_iff_exists.mp hc.data
  obtain ⟨input, hinput, hagrees⟩ := Hub.process_produced hcur
  have hle := hc.seq_le
  refine ⟨?_, ?_, ?_⟩
  · rw [Feed.process, hinput]
    rfl
  · rw [Feed.process, List.length_append]
    omega
  · intro j hj
    obtain rfl : input = j := Option.some.inj (hinput.symm.trans hj)
    rw [Feed.process, List.drop_append_of_le_length hle, View.applyAll_append]
    exact ((hc.arrives cur hcur).applyAll _).trans hagrees

theorem Follows.deliver_agrees (h : f.Sound) (hc : Follows f c) (hi : f.hub.cur = some i) :
    (f.hub.deliver c).view.Agrees (View.of i) := by
  rw [Hub.deliver]
  split_ifs with hbehind
  · rw [h.kept.framesAfter]
    split_ifs with hgone
    · rw [Option.getD_none, View.applyAll, List.foldl_cons, apply_snapshotFrame hi]
      exact View.agrees_of_refl i
    · exact hc.arrives i hi
  · have harrives := hc.arrives i hi
    rwa [List.drop_eq_nil_of_le (by have := h.kept.lastSeq; omega)] at harrives

theorem Follows.seq_deliver (h : f.Sound) (hc : Follows f c) :
    (f.hub.deliver c).seq = f.hub.lastSeq := by
  have hle := hc.seq_le
  have hlast := h.kept.lastSeq
  rw [Hub.deliver]
  split_ifs with hbehind
  · rfl
  · omega

theorem Follows.deliver (h : f.Sound) (hc : Follows f c) : Follows f (f.hub.deliver c) := by
  obtain ⟨i, hi⟩ := Option.isSome_iff_exists.mp hc.data
  have hfollows := follows_of_agrees h hi (hc.deliver_agrees h hi)
  rwa [← hc.seq_deliver h] at hfollows

namespace Server

variable {s : Server}

structure Sound (s : Server) : Prop where
  feed : s.feed.Sound
  follows : ∀ c ∈ s.streams, Follows s.feed c

theorem Sound.connect (h : s.Sound) (hdata : s.feed.hub.cur.isSome = true) : s.connect.Sound := by
  rw [Server.connect]
  split_ifs
  · exact h
  · refine ⟨h.feed, ?_⟩
    intro c hc
    rcases List.mem_append.mp hc with hc | hc
    · exact h.follows c hc
    · obtain ⟨i, hi⟩ := Option.isSome_iff_exists.mp hdata
      rw [List.mem_singleton.mp hc]
      apply follows_of_agrees h.feed hi
      have hframes : s.feed.hub.openFrames (lastEventRev []) = [s.feed.hub.snapshotFrame] := rfl
      rw [hframes, View.applyAll, List.foldl_cons, apply_snapshotFrame hi]
      exact View.agrees_of_refl i

theorem Sound.step (h : s.Sound) (e : Event) (hdata : e = .connect → s.feed.hub.cur.isSome = true) :
    (s.step e).Sound := by
  cases e with
  | submit input =>
    refine ⟨h.feed.submit input, ?_⟩
    intro c hc
    obtain ⟨hcur, hle, harrives⟩ := h.follows c hc
    exact ⟨hcur, hle, harrives⟩
  | process => exact ⟨h.feed.process, fun c hc => (h.follows c hc).process⟩
  | deliver =>
    refine ⟨h.feed, ?_⟩
    intro c hc
    obtain ⟨c', hc', rfl⟩ := List.mem_map.mp hc
    exact (h.follows c' hc').deliver h.feed
  | connect => exact h.connect (hdata rfl)
  | close i =>
    refine ⟨h.feed, ?_⟩
    intro c hc
    exact h.follows c (List.mem_of_mem_eraseIdx hc)

theorem sound_new (patchRing maxStreams : ℕ) : (new patchRing maxStreams).Sound :=
  ⟨Feed.sound_new patchRing, fun _ hc => (by cases hc)⟩

theorem Sound.run {events : List Event} (h : s.Sound) (hdata : ConnectsWithData s events) :
    (s.run events).Sound := by
  induction events generalizing s with
  | nil => exact h
  | cons e events ih =>
    apply ih (h.step e _) hdata.2
    rintro rfl
    exact hdata.1

/-- In a run where clients come only when there is data, every client holds what the hub has as
soon as it was sent what there is to send. -/
theorem streams_hold {patchRing maxStreams : ℕ} {events : List Event}
    (hdata : ConnectsWithData (new patchRing maxStreams) events) :
    let s := (new patchRing maxStreams).run events
    ∀ c ∈ s.streams, ∃ i, s.feed.hub.cur = some i ∧ (s.feed.hub.deliver c).view.Holds i := by
  intro s c hc
  have hs : s.Sound := (sound_new patchRing maxStreams).run hdata
  have hfollows := hs.follows c hc
  obtain ⟨i, hi⟩ := Option.isSome_iff_exists.mp hfollows.data
  exact ⟨i, hi, (hfollows.deliver_agrees hs.feed hi).holds⟩

/-- A submission of a match in some round. -/
def inputsIn (live : Bool) : StatusInputs where
  versions := .bool true
  selftest := .bool true
  platform := .bool true
  summary := .bool live
  state := .bool live

theorem streams_hold_second :
    let s :=
  (new 4 2).run [.submit (inputsIn false), .process, .connect, .submit (inputsIn true), .process]
    ∀ c ∈ s.streams, ∃ i, s.feed.hub.cur = some i ∧ (s.feed.hub.deliver c).view.Holds i :=
  streams_hold ⟨trivial, trivial, rfl, trivial, trivial, trivial⟩

/-- A client that comes before the first submission is told nothing by it. -/
theorem early_client_stale :
    let s := (new 4 2).run [.connect, .submit (inputsIn false), .process, .deliver]
    ∃ c ∈ s.streams, ∃ i, s.feed.hub.cur = some i ∧ ¬(s.feed.hub.deliver c).view.Holds i := by
  refine ⟨{ seq := 0, view := {} }, List.mem_singleton_self _, inputsIn false, rfl, ?_⟩
  rintro ⟨⟨s, hs, -⟩, -⟩
  cases hs

section Loop

/-- Every stream was sent all there is. -/
def Level (s : Server) : Prop := ∀ c ∈ s.streams, c.seq = s.feed.hub.lastSeq

theorem lastSeq_process {h : Hub} (hquiet : h.process.2 = false) :
    h.process.1.lastSeq = h.lastSeq := by
  cases hpending : h.pending with
  | none => simp [Hub.process, hpending]
  | some input =>
    cases hcur : h.cur with
    | none => simp [Hub.process, hpending, hcur] at hquiet
    | some cur =>
      simp only [Hub.process, hpending, hcur, Bool.or_eq_false_iff, Bool.not_eq_false',
        Option.isSome_eq_false_iff, Option.isNone_iff_eq_none] at hquiet ⊢
      rw [hquiet.1, Hub.appendStatus, if_pos hquiet.2]
      rfl

/-- A turn of the loop that finds nothing new has nothing to deliver either. -/
theorem loop_eq (h : s.Level) : s.loop = s.process.deliver := by
  rw [loop]
  split_ifs with hchanged
  · rfl
  · have hlast := lastSeq_process (by simpa using hchanged)
    have hstreams : s.streams.map s.process.feed.hub.deliver = s.streams := by
      conv_rhs => rw [← List.map_id s.streams]
      apply List.map_congr_left
      intro c hc
      have hseq : c.seq = s.process.feed.hub.lastSeq := (h c hc).trans hlast.symm
      rw [Hub.deliver, if_neg hseq.ge.not_gt]
      rfl
    rw [deliver]
    exact congrArg (Server.mk s.process.feed s.maxStreams) hstreams.symm

theorem Sound.loop (h : s.Sound) (hlevel : s.Level) : s.loop.Sound ∧ s.loop.Level ∧
    ∀ c ∈ s.loop.streams, ∃ i, s.loop.feed.hub.cur = some i ∧ c.view.Holds i := by
  have hprocess := h.step .process (fun heq => by cases heq)
  rw [loop_eq hlevel]
  refine ⟨hprocess.step .deliver (fun heq => by cases heq), ?_, ?_⟩
  · intro c hc
    obtain ⟨c', hc', rfl⟩ := List.mem_map.mp hc
    exact (hprocess.follows c' hc').seq_deliver hprocess.feed
  · intro c hc
    obtain ⟨c', hc', rfl⟩ := List.mem_map.mp hc
    have hfollows := hprocess.follows c' hc'
    obtain ⟨i, hi⟩ := Option.isSome_iff_exists.mp hfollows.data
    exact ⟨i, hi, (hfollows.deliver_agrees hprocess.feed hi).holds⟩

end Loop

end Server

end Hold

end ReadyUp.Status
