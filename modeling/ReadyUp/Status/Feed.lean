import ReadyUp.Status.Hub

/-!
# The log behind the ring

`Feed` records every frame that a hub has ever appended. The ring is the end of that log, and
its numbers are positions in it (`Kept`), so a client that has seen the frames up to a position
has the view at that position (`viewAt`). The view at the end of the log is that of the latest
submission (`Sound.level`).

`Agrees` compares views up to null members of the match state. Frames do not tell apart views
that agree, which is all that a client needs who joins late or sees a status event twice.
-/
namespace ReadyUp.Status

open Support

section Views

namespace View

/-- The view of a client with a fresh snapshot. -/
def of (i : StatusInputs) : View where
  state := some i.state.received
  part p := if p ∈ Part.inSnapshot then some (i.part p).received else none

theorem part_of (i : StatusInputs) {p : Part} (hp : p ∈ Part.inSnapshot) :
    (of i).part p = some (i.part p).received := if_pos hp

/-- The match states are the same up to null members and the parts of a snapshot are equal. -/
structure Agrees (v w : View) : Prop where
  state : Option.Rel (fun a b => a.UniqueKeys ∧ b.UniqueKeys ∧ a.Same b) v.state w.state
  part : ∀ p ∈ Part.inSnapshot, v.part p = w.part p

theorem Agrees.trans {u v w : View} (huv : u.Agrees v) (hvw : v.Agrees w) : u.Agrees w := by
  refine ⟨?_, fun p hp => (huv.part p hp).trans (hvw.part p hp)⟩
  have huv := huv.state
  have hvw := hvw.state
  cases hu : u.state with
  | none =>
    rw [hu] at huv
    cases hv : v.state with
    | some b =>
      rw [hv] at huv
      cases huv
    | none =>
      rw [hv] at hvw
      cases hw : w.state with
      | some c =>
        rw [hw] at hvw
        cases hvw
      | none => exact .none
  | some a =>
    rw [hu] at huv
    cases hv : v.state with
    | none =>
      rw [hv] at huv
      cases huv
    | some b =>
      rw [hv] at huv hvw
      cases hw : w.state with
      | none =>
        rw [hw] at hvw
        cases hvw
      | some c =>
        rw [hw] at hvw
        cases huv with
        | some hab =>
          cases hvw with
          | some hbc =>
            obtain ⟨ha, hb, hab⟩ := hab
            obtain ⟨-, hc, hbc⟩ := hbc
            exact .some ⟨ha, hc, Json.same_trans ha hb hc hab hbc⟩

theorem agrees_of_refl (i : StatusInputs) : (of i).Agrees (of i) :=
  ⟨.some ⟨i.state.uniqueKeys_received, i.state.uniqueKeys_received,
    Json.same_refl i.state.uniqueKeys_received i.state.noNaN_received⟩, fun _ _ => rfl⟩

theorem Agrees.holds {v : View} {i : StatusInputs} (h : v.Agrees (of i)) : v.Holds i := by
  constructor
  · have hstate := h.state
    cases hv : v.state with
    | none =>
      rw [hv] at hstate
      cases hstate
    | some s =>
      rw [hv] at hstate
      cases hstate with
      | some hs => exact ⟨s, rfl, hs.2.2⟩
  · intro p hp
    rw [h.part p hp, part_of i hp]

theorem Agrees.apply {v w : View} (h : v.Agrees w) (f : Frame) :
    (v.apply f).Agrees (w.apply f) := by
  cases f with
  | starting => exact ⟨.none, fun _ _ => rfl⟩
  | snapshot rev parts state =>
    have hu := state.uniqueKeys_received
    exact ⟨.some ⟨hu, hu, Json.same_refl hu state.noNaN_received⟩, fun _ _ => rfl⟩
  | patch rev p =>
    refine ⟨.some ?_, h.part⟩
    have hbefore : (v.state.getD .null).UniqueKeys ∧ (w.state.getD .null).UniqueKeys ∧
        (v.state.getD .null).Same (w.state.getD .null) := by
      have hstate := h.state
      generalize v.state = x at hstate
      generalize w.state = y at hstate
      cases hstate with
      | none => exact ⟨rfl, rfl, rfl⟩
      | some hab => exact hab
    obtain ⟨hv, hw, hvw⟩ := hbefore
    have hp := p.uniqueKeys_received
    exact ⟨uniqueKeys_mergePatchApply hv hp, uniqueKeys_mergePatchApply hw hp,
      mergePatchApply_congr hv hw hp p.noNaN_received hvw⟩
  | status parts =>
    refine ⟨h.state, ?_⟩
    intro p hp
    simp only [View.apply]
    rw [h.part p hp]

theorem Agrees.applyAll {v w : View} (h : v.Agrees w) (fs : List Frame) :
    (v.applyAll fs).Agrees (w.applyAll fs) := by
  induction fs generalizing v w with
  | nil => exact h
  | cons f fs ih => exact ih (h.apply f)

theorem applyAll_append (v : View) (fs gs : List Frame) :
    v.applyAll (fs ++ gs) = (v.applyAll fs).applyAll gs := List.foldl_append

end View

theorem lookup_map_self {β : Type} (l : List Part) (g : Part → β) (p : Part) :
    (l.map fun q => (q, g q)).lookup p = if p ∈ l then some (g p) else none := by
  induction l with
  | nil => rfl
  | cons q l ih =>
    rw [List.map_cons, List.lookup_cons, ih]
    by_cases hq : p = q
    · simp [hq]
    · simp [hq, beq_eq_false_iff_ne.mpr hq]

theorem received_eq_of_not_differs {cur input : StatusInputs} {p : Part}
    (h : cur.differs input p = false) : (input.part p).received = (cur.part p).received := by
  cases p with
  | updateSafe =>
    have : input.updateSafe = cur.updateSafe := by simpa [StatusInputs.differs] using h
    rw [StatusInputs.part, StatusInputs.part, this]
  | healthy =>
    have : input.healthy = cur.healthy := by simpa [StatusInputs.differs] using h
    rw [StatusInputs.part, StatusInputs.part, this]
  | _ =>
    apply Document.received_eq_of_text
    simpa [StatusInputs.differs] using h

theorem told_changes (cur input : StatusInputs) (p : Part) :
    (View.told (cur.changes input) p).or (some (cur.part p).received) =
      some (input.part p).received := by
  have hall : p ∈ Part.all := by cases p <;> decide
  rw [View.told, StatusInputs.changes, lookup_map_self]
  cases hd : cur.differs input p with
  | true => simp [hd, hall]
  | false => simp [hd, received_eq_of_not_differs hd]

/-- The patch event of a submission, if it has one. -/
def patchFrames (rev : ℕ) (patch : Option Document) : List Frame :=
  match patch with
  | none => []
  | some p => [.patch rev p]

def statusFrames (changes : List (Part × Document)) : List Frame :=
  if changes.isEmpty then [] else [.status changes]

/-- A patch takes the match state of a client to that of the new submission. -/
theorem state_patchFrames (cur input : StatusInputs) (rev : ℕ) :
    ∃ s, ((View.of cur).applyAll (patchFrames rev (cur.patch input))).state = some s ∧
      s.UniqueKeys ∧ s.Same input.state.received := by
  have hcur := cur.state.uniqueKeys_received
  have hrefl := Json.same_refl hcur cur.state.noNaN_received
  rw [StatusInputs.patch]
  split_ifs with htext
  · refine ⟨cur.state.received, rfl, hcur, ?_⟩
    rwa [Document.received_eq_of_text htext]
  · have hcarry := carriesAs Json.reshapes_wire cur.state.uniqueKeys input.state.uniqueKeys
      (Json.noNaN_wire _) cur.state.received hcur (by rwa [← Document.received_eq])
    rw [← Document.map_value_diff, ← Document.received_eq] at hcarry
    cases hdiff : cur.state.diff input.state with
    | none =>
      rw [hdiff] at hcarry
      exact ⟨cur.state.received, rfl, hcur, hcarry⟩
    | some p =>
      rw [hdiff, Option.map_some, Option.map_some, receive, ← Document.received_eq] at hcarry
      exact ⟨_, rfl, uniqueKeys_mergePatchApply hcur p.uniqueKeys_received, hcarry⟩

theorem part_patchFrames (v : View) (rev : ℕ) (patch : Option Document) :
    (v.applyAll (patchFrames rev patch)).part = v.part := by
  cases patch <;> rfl

/-- The events of a submission take a client from the view before it to its own. -/
theorem agrees_frames (cur input : StatusInputs) (rev : ℕ) :
    ((View.of cur).applyAll (patchFrames rev (cur.patch input) ++
      statusFrames (cur.changes input))).Agrees (View.of input) := by
  obtain ⟨s, hs, hu, hsame⟩ := state_patchFrames cur input rev
  have hpart := part_patchFrames (View.of cur) rev (cur.patch input)
  rw [View.applyAll_append]
  generalize (View.of cur).applyAll (patchFrames rev (cur.patch input)) = v at hs hpart ⊢
  have hrel : Option.Rel (fun a b => a.UniqueKeys ∧ b.UniqueKeys ∧ a.Same b) v.state
      (View.of input).state := by
    rw [hs]
    exact .some ⟨hu, input.state.uniqueKeys_received, hsame⟩
  have htold : ∀ p ∈ Part.inSnapshot, (View.told (cur.changes input) p).or (v.part p) =
      (View.of input).part p := by
    intro p hp
    rw [hpart, View.part_of cur hp, View.part_of input hp, told_changes]
  rw [statusFrames]
  split_ifs with hempty
  · refine ⟨hrel, ?_⟩
    intro p hp
    rw [List.isEmpty_iff] at hempty
    have := htold p hp
    rwa [hempty] at this
  · exact ⟨hrel, htold⟩

end Views

section Ring

/-- The rev that a frame is appended with. -/
def Frame.eventRev : Frame → ℕ
  | .patch rev _ => rev
  | _ => 0

/-- Events for frames that follow so many others. -/
def number : ℕ → List Frame → List StreamEvent
  | _, [] => []
  | n, f :: fs => { seq := n + 1, rev := f.eventRev, frame := f } :: number (n + 1) fs

theorem number_append (n : ℕ) (fs gs : List Frame) :
    number n (fs ++ gs) = number n fs ++ number (n + fs.length) gs := by
  induction fs generalizing n with
  | nil => rfl
  | cons f fs ih =>
    rw [List.cons_append, number, number, ih, List.length_cons, List.cons_append]
    congr 3
    omega

theorem filter_number (n a : ℕ) (h : n ≤ a) (fs : List Frame) :
    ((number n fs).filter fun e => a < e.seq).map (·.frame) = fs.drop (a - n) := by
  induction fs generalizing n with
  | nil => simp [number]
  | cons f fs ih =>
    rw [number]
    by_cases ha : a = n
    · subst ha
      have hall : ∀ m ≥ a, ((number m fs).filter fun e => a < e.seq).map (·.frame) = fs := by
        intro m hm
        clear ih h
        induction fs generalizing m with
        | nil => rfl
        | cons g fs ihfs =>
          rw [number, List.filter_cons_of_pos (by simpa using by omega), List.map_cons,
            ihfs (m + 1) (by omega)]
      rw [List.filter_cons_of_pos (by simp), List.map_cons, hall (a + 1) (by omega), Nat.sub_self,
        List.drop_zero]
    · rw [List.filter_cons_of_neg (by simpa using by omega), ih (n + 1) (by omega),
        show a - n = (a - (n + 1)) + 1 by omega, List.drop_succ_cons]

/-- Trimming drops events from the front and says how many are gone. -/
theorem trim_number (cap patches n : ℕ) (fs : List Frame) :
    ∃ k ≤ fs.length,
      Hub.trim cap patches n (number n fs) = (n + k, number (n + k) (fs.drop k)) := by
  induction fs generalizing n patches with
  | nil => exact ⟨0, le_rfl, rfl⟩
  | cons f fs ih =>
    rw [number, Hub.trim]
    split_ifs with hlong hrev
    · obtain ⟨k, hk, heq⟩ := ih patches (n + 1)
      refine ⟨k + 1, by simpa using hk, ?_⟩
      rw [heq, List.drop_succ_cons, show n + 1 + k = n + (k + 1) by omega]
    · obtain ⟨k, hk, heq⟩ := ih (patches - 1) (n + 1)
      refine ⟨k + 1, by simpa using hk, ?_⟩
      rw [heq, List.drop_succ_cons, show n + 1 + k = n + (k + 1) by omega]
    · exact ⟨0, Nat.zero_le _, rfl⟩

/-- The ring is the end of the log, numbered by position. -/
structure Kept (h : Hub) (log : List Frame) : Prop where
  lastSeq : h.lastSeq = log.length
  dropped_le : h.oldestDroppedSeq ≤ log.length
  events : h.events = number h.oldestDroppedSeq (log.drop h.oldestDroppedSeq)

namespace Kept

variable {h : Hub} {log : List Frame}

theorem append (hk : Kept h log) (f : Frame) : Kept (h.append f.eventRev f) (log ++ [f]) := by
  have hevents : h.events ++ [{ seq := h.lastSeq + 1, rev := f.eventRev, frame := f }] =
      number h.oldestDroppedSeq ((log ++ [f]).drop h.oldestDroppedSeq) := by
    have hle := hk.dropped_le
    rw [List.drop_append_of_le_length hle, number_append, hk.events, hk.lastSeq, List.length_drop,
      Nat.add_sub_cancel' hle]
    rfl
  obtain ⟨k, hle, htrim⟩ := trim_number h.cap
    ((number h.oldestDroppedSeq ((log ++ [f]).drop h.oldestDroppedSeq)).countP (·.rev ≠ 0))
    h.oldestDroppedSeq ((log ++ [f]).drop h.oldestDroppedSeq)
  have hdropped := hk.dropped_le
  rw [List.length_drop, List.length_append, List.length_singleton] at hle
  rw [Hub.append, hevents, htrim]
  refine ⟨?_, ?_, ?_⟩
  · rw [List.length_append, List.length_singleton, hk.lastSeq]
  · rw [List.length_append, List.length_singleton]
    dsimp only
    omega
  · dsimp only
    rw [List.drop_drop]

theorem congr {h' : Hub} (hk : Kept h log) (hlast : h'.lastSeq = h.lastSeq)
    (hdropped : h'.oldestDroppedSeq = h.oldestDroppedSeq) (hevents : h'.events = h.events) :
    Kept h' log :=
  ⟨hlast.trans hk.lastSeq, hdropped ▸ hk.dropped_le, by rw [hevents, hk.events, hdropped]⟩

theorem appendPatch (hk : Kept h log) (patch : Option Document) :
    Kept (h.appendPatch patch) (log ++ patchFrames (h.rev + 1) patch) := by
  cases patch with
  | none =>
    rw [patchFrames, List.append_nil]
    exact hk
  | some p =>
    exact (hk.congr rfl rfl rfl : Kept { h with rev := h.rev + 1 } log).append
      (.patch (h.rev + 1) p)

theorem appendStatus (hk : Kept h log) (changes : List (Part × Document)) :
    Kept (h.appendStatus changes) (log ++ statusFrames changes) := by
  rw [Hub.appendStatus, statusFrames]
  split_ifs with hempty
  · rw [List.append_nil]
    exact hk
  · exact hk.append (.status changes)

/-- `FramesAfter` gives the log from a position on, or says that it is gone. -/
theorem framesAfter (hk : Kept h log) (q : ℕ) :
    h.framesAfter q = if q < h.oldestDroppedSeq then none else some (log.drop q) := by
  have hle := hk.dropped_le
  rw [Hub.framesAfter, hk.lastSeq]
  split_ifs with hend hgone hgone
  · omega
  · rw [List.drop_eq_nil_of_le hend]
  · rfl
  · rw [hk.events, filter_number _ _ (by omega), List.drop_drop,
      show h.oldestDroppedSeq + (q - h.oldestDroppedSeq) = q by omega]

end Kept

end Ring

section Log

/-- The rev after some frames: that of the last patch. -/
def lastRev (r : ℕ) (fs : List Frame) : ℕ := fs.foldl (fun r f => f.id.getD r) r

/-- Patches that count up from `r`, with status events between them. -/
def RevsFrom : ℕ → List Frame → Prop
  | _, [] => True
  | r, .patch n _ :: fs => n = r + 1 ∧ RevsFrom n fs
  | r, .status _ :: fs => RevsFrom r fs
  | _, _ => False

theorem lastRev_append (r : ℕ) (fs gs : List Frame) :
    lastRev r (fs ++ gs) = lastRev (lastRev r fs) gs := List.foldl_append

theorem revsFrom_append {r : ℕ} {fs gs : List Frame} :
    RevsFrom r (fs ++ gs) ↔ RevsFrom r fs ∧ RevsFrom (lastRev r fs) gs := by
  induction fs generalizing r with
  | nil => exact ⟨fun h => ⟨trivial, h⟩, And.right⟩
  | cons f fs ih =>
    cases f with
    | patch n p =>
      rw [List.cons_append, RevsFrom, RevsFrom, ih, and_assoc]
      rfl
    | status parts =>
      rw [List.cons_append, RevsFrom, RevsFrom, ih]
      rfl
    | _ => simp [RevsFrom]

/-- Revs grow, and stay where they are as long as there are only status events. -/
theorem RevsFrom.lastRev_ge {r : ℕ} {fs : List Frame} (h : RevsFrom r fs) :
    r ≤ lastRev r fs ∧ (lastRev r fs = r → ∀ f ∈ fs, ∃ parts, f = .status parts) := by
  induction fs generalizing r with
  | nil => exact ⟨le_rfl, fun _ f hf => (by cases hf)⟩
  | cons f fs ih =>
    cases f with
    | patch n p =>
      obtain ⟨rfl, htail⟩ := h
      have hge : r + 1 ≤ lastRev r (.patch (r + 1) p :: fs) := (ih htail).1
      exact ⟨by omega, fun heq => by omega⟩
    | status parts =>
      obtain ⟨hge, honly⟩ := ih h
      refine ⟨hge, ?_⟩
      intro heq f hf
      rcases List.mem_cons.mp hf with rfl | hf
      · exact ⟨parts, rfl⟩
      · exact honly heq f hf
    | _ => cases h

theorem revsFrom_patchFrames (r : ℕ) (patch : Option Document) :
    RevsFrom r (patchFrames (r + 1) patch) := by
  cases patch with
  | none => trivial
  | some p => exact ⟨rfl, trivial⟩

theorem revsFrom_statusFrames (r : ℕ) (changes : List (Part × Document)) :
    RevsFrom r (statusFrames changes) := by
  rw [statusFrames]
  split_ifs <;> trivial

theorem lastRev_statusFrames (r : ℕ) (changes : List (Part × Document)) :
    lastRev r (statusFrames changes) = r := by
  rw [statusFrames]
  split_ifs <;> rfl

end Log

/-- What `Process` appends. -/
def Hub.produced (h : Hub) : List Frame :=
  match h.pending, h.cur with
  | some input, some cur =>
    patchFrames (h.rev + 1) (cur.patch input) ++ statusFrames (cur.changes input)
  | _, _ => []

/-- With data, what `Process` appends takes a client to what the hub has then. -/
theorem Hub.process_produced {h : Hub} {cur : StatusInputs} (hcur : h.cur = some cur) :
    ∃ input, h.process.1.cur = some input ∧
      ((View.of cur).applyAll h.produced).Agrees (View.of input) := by
  cases hpending : h.pending with
  | none =>
    refine ⟨cur, by simp [process, hpending, hcur], ?_⟩
    rw [produced, hpending]
    exact View.agrees_of_refl cur
  | some input =>
    refine ⟨input, by simp [process, hpending, hcur], ?_⟩
    rw [produced, hpending, hcur]
    exact agrees_frames cur input (h.rev + 1)

/-- A hub with a record of its first submission and of every frame since. -/
structure Feed where
  hub : Hub
  base : Option StatusInputs := none
  log : List Frame := []

namespace Feed

def new (patchRing : ℕ) : Feed := { hub := .new patchRing }

def submit (f : Feed) (input : StatusInputs) : Feed := { f with hub := f.hub.submit input }

def process (f : Feed) : Feed where
  hub := f.hub.process.1
  base := f.base.or f.hub.process.1.cur
  log := f.log ++ f.hub.produced

/-- The view of a client who has seen so many frames. -/
def viewAt (f : Feed) (p : ℕ) : View :=
  match f.base with
  | none => {}
  | some b => (View.of b).applyAll (f.log.take p)

/-- The rev of the hub when it had appended so many frames. -/
def revAt (f : Feed) (p : ℕ) : ℕ :=
  match f.base with
  | none => 0
  | some _ => lastRev 1 (f.log.take p)

structure Sound (f : Feed) : Prop where
  kept : Kept f.hub f.log
  starting : f.hub.cur = none → f.base = none ∧ f.log = [] ∧ f.hub.rev = 0
  level : ∀ i, f.hub.cur = some i →
    ∃ b, f.base = some b ∧ ((View.of b).applyAll f.log).Agrees (View.of i)
  revs : RevsFrom 1 f.log
  rev : ∀ i, f.hub.cur = some i → f.hub.rev = lastRev 1 f.log

theorem sound_new (patchRing : ℕ) : (new patchRing).Sound where
  kept := ⟨rfl, le_rfl, rfl⟩
  starting _ := ⟨rfl, rfl, rfl⟩
  level _ h := by cases h
  revs := trivial
  rev _ h := by cases h

theorem Sound.submit {f : Feed} (h : f.Sound) (input : StatusInputs) : (f.submit input).Sound where
  kept := h.kept.congr rfl rfl rfl
  starting := h.starting
  level := h.level
  revs := h.revs
  rev := h.rev

@[simp] theorem rev_append (h : Hub) (rev : ℕ) (frame : Frame) :
    (h.append rev frame).rev = h.rev := rfl

theorem rev_appendPatch (h : Hub) (patch : Option Document) :
    (h.appendPatch patch).rev = lastRev h.rev (patchFrames (h.rev + 1) patch) := by
  cases patch <;> rfl

theorem rev_appendStatus (h : Hub) (changes : List (Part × Document)) :
    (h.appendStatus changes).rev = h.rev := by
  rw [Hub.appendStatus]
  split_ifs <;> rfl

theorem Sound.process {f : Feed} (h : f.Sound) : f.process.Sound := by
  cases hpending : f.hub.pending with
  | none =>
    have hhub : f.hub.process.1 = f.hub := by simp [Hub.process, hpending]
    have hproduced : f.hub.produced = [] := by simp [Hub.produced, hpending]
    rw [Feed.process, hhub, hproduced, List.append_nil]
    refine ⟨h.kept, ?_, ?_, h.revs, h.rev⟩
    · intro hcur
      obtain ⟨hbase, hlog, hrev⟩ := h.starting hcur
      exact ⟨by simpa [hbase] using hcur, hlog, hrev⟩
    · intro i hi
      obtain ⟨b, hb, hview⟩ := h.level i hi
      exact ⟨b, by simp [hb], hview⟩
  | some input =>
    cases hcur : f.hub.cur with
    | none =>
      obtain ⟨hbase, hlog, -⟩ := h.starting hcur
      have hhub :
          f.hub.process.1 = { f.hub with pending := none, cur := some input, rev := 1 } := by
        simp [Hub.process, hpending, hcur]
      have hproduced : f.hub.produced = [] := by simp [Hub.produced, hpending, hcur]
      rw [Feed.process, hhub, hproduced, List.append_nil, hbase, hlog]
      have hkept := h.kept
      rw [hlog] at hkept
      refine ⟨hkept.congr rfl rfl rfl, fun hnone => (by cases hnone), ?_, trivial, fun _ _ => rfl⟩
      intro i hi
      obtain rfl : input = i := by simpa using hi
      exact ⟨input, rfl, View.agrees_of_refl input⟩
    | some cur =>
      have hrev := h.rev cur hcur
      obtain ⟨b, hb, hview⟩ := h.level cur hcur
      have hhub : f.hub.process.1 =
          { (({ f.hub with pending := none } : Hub).appendPatch (cur.patch input)).appendStatus
              (cur.changes input) with cur := some input } := by
        simp [Hub.process, hpending, hcur]
      have hproduced : f.hub.produced =
          patchFrames (f.hub.rev + 1) (cur.patch input) ++ statusFrames (cur.changes input) := by
        simp [Hub.produced, hpending, hcur]
      have hkept :=
        (((h.kept.congr rfl rfl rfl : Kept { f.hub with pending := none } f.log).appendPatch
          (cur.patch input)).appendStatus (cur.changes input))
      rw [List.append_assoc] at hkept
      rw [Feed.process, hhub, hproduced, hb]
      refine ⟨hkept.congr rfl rfl rfl, fun hnone => (by cases hnone), ?_, ?_, ?_⟩
      · intro i hi
        obtain ⟨input', hinput, hagrees⟩ := Hub.process_produced hcur
        obtain rfl : input' = i := by
          rw [hhub] at hinput
          exact Option.some.inj (hinput.symm.trans hi)
        refine ⟨b, rfl, ?_⟩
        rw [View.applyAll_append, ← hproduced]
        exact (hview.applyAll _).trans hagrees
      · rw [revsFrom_append, revsFrom_append, ← hrev]
        exact ⟨h.revs, revsFrom_patchFrames _ _, revsFrom_statusFrames _ _⟩
      · intro i _
        rw [lastRev_append, lastRev_append, lastRev_statusFrames, ← hrev]
        exact (rev_appendStatus _ _).trans (rev_appendPatch _ _)

end Feed

end ReadyUp.Status
