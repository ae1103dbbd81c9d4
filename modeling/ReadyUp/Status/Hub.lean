import ReadyUp.Status.Wire

/-!
# The status hub

The game thread submits what there is to know about the server, and the status thread turns it
into events for the streams: a change of the match state is a merge patch with a new `rev`, a
change of anything else a status event that carries the new values. The first submission makes
no event. The hub keeps the latest events only; a stream that asks for older ones gets a
snapshot.

`View` is the other end: what a client has made of the frames it was sent.
-/
namespace ReadyUp.Status

open Support

/-- A value as `Json` holds it: no key twice, integers of 64 bits. -/
structure Document where
  value : Json
  uniqueKeys : value.UniqueKeys
  inRange : value.InRange

namespace Document

/-- `Dump` -/
def text (d : Document) : Bytes := d.value.dump

/-- What a client reads from the text. -/
def received (d : Document) : Json := (Json.read d.text).getD .null

def bool (b : Bool) : Document := ⟨.bool b, rfl, rfl⟩

/-- `MergeDiff`: what makes a patch is a document again. -/
def diff (source target : Document) : Option Document :=
  (mergeDiff source.value target.value).pmap (fun p hp => ⟨p, hp.1, hp.2⟩) fun _ hp =>
    And.intro (uniqueKeys_mergeDiff target.uniqueKeys hp)
      (all_mergeDiff rfl (fun _ _ => rfl) target.inRange hp)

theorem received_eq (d : Document) : d.received = d.value.wire := by
  rw [received, text, Json.read_dump d.uniqueKeys d.inRange, Option.getD_some]

theorem map_value_diff (source target : Document) :
    (source.diff target).map value = mergeDiff source.value target.value := by
  simp [diff, Option.map_pmap]

theorem uniqueKeys_received (d : Document) : d.received.UniqueKeys := by
  rw [received_eq]
  exact d.uniqueKeys.wire

theorem noNaN_received (d : Document) : d.received.NoNaN := by
  rw [received_eq]
  exact Json.noNaN_wire _

theorem received_eq_of_text {d e : Document} (h : d.text = e.text) : d.received = e.received := by
  rw [received, received, h]

end Document

/-- The parts of a submission that status events carry. -/
inductive Part where
  | platform
  | updateSafe
  | summary
  | versions
  | selftest
  | healthy
  deriving DecidableEq

/-- In the order in which an event has them. -/
def Part.all : List Part := [.platform, .updateSafe, .summary, .versions, .selftest, .healthy]

/-- The parts that a snapshot has, in its order. -/
def Part.inSnapshot : List Part := [.summary, .platform, .updateSafe, .versions, .selftest]

structure StatusInputs where
  versions : Document
  selftest : Document
  platform : Document
  summary : Document
  state : Document
  updateSafe : Bool := true
  healthy : Bool := true

namespace StatusInputs

def part (i : StatusInputs) : Part → Document
  | .platform => i.platform
  | .updateSafe => .bool i.updateSafe
  | .summary => i.summary
  | .versions => i.versions
  | .selftest => i.selftest
  | .healthy => .bool i.healthy

/-- Documents are compared by their texts. -/
def differs (cur input : StatusInputs) : Part → Bool
  | .updateSafe => input.updateSafe != cur.updateSafe
  | .healthy => input.healthy != cur.healthy
  | p => (input.part p).text != (cur.part p).text

/-- What a status event says about a new submission. -/
def changes (cur input : StatusInputs) : List (Part × Document) :=
  (Part.all.filter (differs cur input)).map fun p => (p, input.part p)

/-- The patch for a new submission, none if the texts are equal. -/
def patch (cur input : StatusInputs) : Option Document :=
  if input.state.text = cur.state.text then none else cur.state.diff input.state

end StatusInputs

/-- What a stream sends; without data a snapshot is `starting`. -/
inductive Frame where
  | starting
  | snapshot (rev : ℕ) (parts : List (Part × Document)) (state : Document)
  | patch (rev : ℕ) (patch : Document)
  | status (parts : List (Part × Document))

def Frame.id : Frame → Option ℕ
  | .snapshot rev _ _ => some rev
  | .patch rev _ => some rev
  | _ => none

structure StreamEvent where
  seq : ℕ
  /-- Zero for status events. -/
  rev : ℕ
  frame : Frame

structure Hub where
  cap : ℕ
  pending : Option StatusInputs := none
  cur : Option StatusInputs := none
  rev : ℕ := 0
  lastSeq : ℕ := 0
  /-- Events up to this one are gone. -/
  oldestDroppedSeq : ℕ := 0
  events : List StreamEvent := []

namespace Hub

/-- A hub that keeps so many patches. -/
def new (patchRing : ℕ) : Hub := { cap := if patchRing = 0 then 1 else patchRing }

def submit (h : Hub) (input : StatusInputs) : Hub := { h with pending := some input }

/-- The loop of `Append` that drops events: what was dropped last and what is left. -/
def trim (cap : ℕ) : ℕ → ℕ → List StreamEvent → ℕ × List StreamEvent
  | _, dropped, [] => (dropped, [])
  | patches, dropped, e :: es =>
    if cap < patches ∨ cap * 2 < (e :: es).length then
      trim cap (if e.rev = 0 then patches else patches - 1) e.seq es
    else (dropped, e :: es)

def append (h : Hub) (rev : ℕ) (frame : Frame) : Hub :=
  let events := h.events ++ [{ seq := h.lastSeq + 1, rev, frame }]
  let patches := events.countP (·.rev ≠ 0)
  let trimmed := trim h.cap patches h.oldestDroppedSeq events
  { h with lastSeq := h.lastSeq + 1, oldestDroppedSeq := trimmed.1, events := trimmed.2 }

/-- The patch event of a new submission. -/
def appendPatch (h : Hub) (patch : Option Document) : Hub :=
  match patch with
  | none => h
  | some p => { h with rev := h.rev + 1 }.append (h.rev + 1) (.patch (h.rev + 1) p)

/-- The status event of a new submission. -/
def appendStatus (h : Hub) (changes : List (Part × Document)) : Hub :=
  if changes.isEmpty then h else h.append 0 (.status changes)

/-- `Process`, with what it returns: whether there are new events, or this was the first
submission. -/
def process (h : Hub) : Hub × Bool :=
  match h.pending with
  | none => (h, false)
  | some input =>
    let h := { h with pending := none }
    match h.cur with
    | none => ({ h with cur := some input, rev := 1 }, true)
    | some cur =>
      let patch := cur.patch input
      let changes := cur.changes input
      ({ (h.appendPatch patch).appendStatus changes with cur := some input },
        patch.isSome || !changes.isEmpty)

def snapshotFrame (h : Hub) : Frame :=
  match h.cur with
  | none => .starting
  | some cur => .snapshot h.rev (Part.inSnapshot.map fun p => (p, cur.part p)) cur.state

/-- `FramesAfter`: the frames, or none where the function returns false. -/
def framesAfter (h : Hub) (afterSeq : ℕ) : Option (List Frame) :=
  if h.lastSeq ≤ afterSeq then some []
  else if afterSeq < h.oldestDroppedSeq then none
  else some ((h.events.filter fun e => afterSeq < e.seq).map (·.frame))

def seqForRev (h : Hub) (rev : ℕ) : Option ℕ := (h.events.find? (·.rev == rev)).map (·.seq)

end Hub

/-- What a client has: the match state and the other parts, as far as it was told. -/
structure View where
  state : Option Json := none
  part : Part → Option Json := fun _ => none

namespace View

/-- What a list of parts says about a part. -/
def told (parts : List (Part × Document)) (p : Part) : Option Json :=
  (parts.lookup p).map (·.received)

def apply (v : View) : Frame → View
  | .starting => {}
  | .snapshot _ parts state => { state := some state.received, part := told parts }
  | .patch _ p => { v with state := some (mergePatchApply (v.state.getD .null) p.received) }
  | .status parts => { v with part := fun p => (told parts p).or (v.part p) }

def applyAll (v : View) (frames : List Frame) : View := frames.foldl apply v

/-- The client has what the hub has: the match state up to null members, and every part of a
snapshot. -/
def Holds (v : View) (i : StatusInputs) : Prop :=
  (∃ s, v.state = some s ∧ s.Same i.state.received) ∧
    ∀ p ∈ Part.inSnapshot, v.part p = some (i.part p).received

end View

end ReadyUp.Status
