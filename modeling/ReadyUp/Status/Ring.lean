import ReadyUp.Status.Hub

/-!
# The ring of events

`Append` drops events from the front of the ring, by the number of patches and by the number of
events. The ring is what is left of the history of all events (`Retains`): its numbers are
positions in the history, so `oldestDroppedSeq` says how many events are gone, and `FramesAfter`
answers exactly for the positions from there on.
-/
namespace ReadyUp.Status

namespace Hub

/-- `Append` for each frame in turn, with its rev, which is zero for a status event. -/
def appendAll (h : Hub) (frames : List (ℕ × Frame)) : Hub :=
  frames.foldl (fun h e => h.append e.1 e.2) h

/-- The events of all frames since the start. -/
def history (frames : List (ℕ × Frame)) : List StreamEvent :=
  frames.mapIdx fun i e => { seq := i + 1, rev := e.1, frame := e.2 }

theorem length_history (frames : List (ℕ × Frame)) : (history frames).length = frames.length :=
  List.length_mapIdx

theorem history_append (frames : List (ℕ × Frame)) (e : ℕ × Frame) :
    history (frames ++ [e]) =
      history frames ++ [{ seq := frames.length + 1, rev := e.1, frame := e.2 }] := by
  rw [history, List.mapIdx_append, List.mapIdx_singleton, Nat.zero_add]
  rfl

theorem seq_history {frames : List (ℕ × Frame)} {i : ℕ} {e : StreamEvent}
    (h : (history frames)[i]? = some e) : e.seq = i + 1 := by
  rw [history, List.getElem?_mapIdx, Option.map_eq_some_iff] at h
  obtain ⟨f, -, rfl⟩ := h
  rfl

theorem pairwise_history (frames : List (ℕ × Frame)) :
    (history frames).Pairwise fun a b => a.seq < b.seq := by
  rw [List.pairwise_iff_getElem]
  intro i j hi hj hij
  rw [seq_history (List.getElem?_eq_getElem hi), seq_history (List.getElem?_eq_getElem hj)]
  omega

def patches (events : List StreamEvent) : ℕ := events.countP (·.rev ≠ 0)

/-- The loop drops a prefix, remembers its last seq and leaves no more than there may be. -/
theorem trim_spec (cap dropped : ℕ) {events : List StreamEvent}
    (hseq : ∀ i e, events[i]? = some e → e.seq = dropped + i + 1) :
    ∃ k ≤ events.length,
      trim cap (patches events) dropped events = (dropped + k, events.drop k) ∧
        patches (events.drop k) ≤ cap ∧ (events.drop k).length ≤ cap * 2 := by
  induction events generalizing dropped with
  | nil => exact ⟨0, le_rfl, rfl, Nat.zero_le _, Nat.zero_le _⟩
  | cons e es ih =>
    have hstep : (if e.rev = 0 then patches (e :: es) else patches (e :: es) - 1) = patches es := by
      rw [patches, List.countP_cons]
      split_ifs with hrev <;> simp_all [patches]
    have he : e.seq = dropped + 1 := hseq 0 e rfl
    rw [trim, hstep, he]
    by_cases hlong : cap < patches (e :: es) ∨ cap * 2 < (e :: es).length
    · rw [if_pos hlong]
      obtain ⟨k, hk, htrim, hcount, hlen⟩ := ih (dropped + 1) (by
        intro i e' hi
        have := hseq (i + 1) e' hi
        omega)
      refine ⟨k + 1, by simpa using hk, ?_, hcount, hlen⟩
      rw [htrim, List.drop_succ_cons]
      congr 1
      omega
    · rw [if_neg hlong]
      rw [not_or, not_lt, not_lt] at hlong
      exact ⟨0, Nat.zero_le _, rfl, hlong.1, hlong.2⟩

/-- The ring is the end of the history, from the number of dropped events on. -/
structure Retains (h : Hub) (frames : List (ℕ × Frame)) : Prop where
  lastSeq : h.lastSeq = frames.length
  dropped_le : h.oldestDroppedSeq ≤ frames.length
  events : h.events = (history frames).drop h.oldestDroppedSeq
  patches_le : patches h.events ≤ h.cap
  length_le : h.events.length ≤ h.cap * 2

namespace Retains

variable {h : Hub} {frames : List (ℕ × Frame)}

theorem append (hr : Retains h frames) (e : ℕ × Frame) :
    Retains (h.append e.1 e.2) (frames ++ [e]) := by
  have hevents : h.events ++ [{ seq := h.lastSeq + 1, rev := e.1, frame := e.2 }] =
      (history (frames ++ [e])).drop h.oldestDroppedSeq := by
    rw [history_append, List.drop_append_of_le_length (by rw [length_history]; exact hr.dropped_le),
      hr.events, hr.lastSeq]
  have hseq : ∀ i x, ((history (frames ++ [e])).drop h.oldestDroppedSeq)[i]? = some x →
      x.seq = h.oldestDroppedSeq + i + 1 := by
    intro i x hx
    rw [List.getElem?_drop] at hx
    exact seq_history hx
  obtain ⟨k, hk, htrim, hcount, hlen⟩ := trim_spec h.cap h.oldestDroppedSeq hseq
  have hdropped := hr.dropped_le
  have happend : h.append e.1 e.2 = { h with
      lastSeq := h.lastSeq + 1
      oldestDroppedSeq := h.oldestDroppedSeq + k
      events := ((history (frames ++ [e])).drop h.oldestDroppedSeq).drop k } := by
    rw [patches, ← hevents] at htrim
    rw [Hub.append, htrim, ← hevents]
  rw [List.length_drop, length_history, List.length_append, List.length_singleton] at hk
  rw [happend]
  refine ⟨?_, ?_, ?_, hcount, hlen⟩
  · rw [List.length_append, List.length_singleton, hr.lastSeq]
  · rw [List.length_append, List.length_singleton]
    dsimp only
    omega
  · rw [List.drop_drop]

theorem appendAll (hr : Retains h frames) (more : List (ℕ × Frame)) :
    Retains (h.appendAll more) (frames ++ more) := by
  induction more generalizing h frames with
  | nil =>
    rw [List.append_nil]
    exact hr
  | cons e more ih =>
    have := ih (hr.append e)
    rwa [List.append_assoc, List.singleton_append] at this

/-- What is in the ring: the events behind the last dropped one. -/
theorem mem_events (hr : Retains h frames) {e : StreamEvent} (he : e ∈ history frames) :
    e ∈ h.events ↔ h.oldestDroppedSeq < e.seq := by
  obtain ⟨i, hi⟩ := List.mem_iff_getElem?.mp he
  have hseq := seq_history hi
  rw [hr.events]
  constructor
  · intro hmem
    obtain ⟨j, hj⟩ := List.mem_iff_getElem?.mp hmem
    rw [List.getElem?_drop] at hj
    have := seq_history hj
    omega
  · intro hlt
    apply List.mem_iff_getElem?.mpr
    refine ⟨i - h.oldestDroppedSeq, ?_⟩
    rwa [List.getElem?_drop, Nat.add_sub_cancel' (by omega)]

/-- From a position that is not dropped on, the ring has what the history has. -/
theorem filter_events (hr : Retains h frames) {s : ℕ} (hs : h.oldestDroppedSeq ≤ s) :
    (h.events.filter fun e => s < e.seq) = (history frames).filter fun e => s < e.seq := by
  have hgone :
      ((history frames).take h.oldestDroppedSeq).filter (fun e => decide (s < e.seq)) = [] := by
    rw [List.filter_eq_nil_iff]
    intro e he
    obtain ⟨i, hi⟩ := List.mem_iff_getElem?.mp he
    rw [List.getElem?_take] at hi
    split_ifs at hi with hlt
    have := seq_history hi
    simpa using by omega
  rw [hr.events]
  conv_rhs => rw [← List.take_append_drop h.oldestDroppedSeq (history frames)]
  rw [List.filter_append, hgone, List.nil_append]

theorem framesAfter (hr : Retains h frames) (s : ℕ) :
    h.framesAfter s = if s < h.oldestDroppedSeq then none
      else some (((history frames).filter fun e => s < e.seq).map (·.frame)) := by
  have hdropped := hr.dropped_le
  have hlast := hr.lastSeq
  rw [Hub.framesAfter]
  split_ifs with hend hgone hgone
  · omega
  · have hnil : (history frames).filter (fun e => decide (s < e.seq)) = [] := by
      rw [List.filter_eq_nil_iff]
      intro e he
      obtain ⟨i, hi⟩ := List.mem_iff_getElem?.mp he
      have hseq := seq_history hi
      have hlen := (List.getElem?_eq_some_iff.mp hi).1
      rw [length_history] at hlen
      simpa using by omega
    rw [hnil, List.map_nil]
  · rfl
  · rw [hr.filter_events (not_lt.mp hgone)]

/-- Nothing behind a position is dropped exactly if the position is not dropped itself. -/
theorem complete_iff (hr : Retains h frames) (s : ℕ) :
    (∀ e ∈ history frames, s < e.seq → e ∈ h.events) ↔ h.oldestDroppedSeq ≤ s := by
  constructor
  · intro hall
    by_contra hlt
    rw [not_le] at hlt
    have hlen : s < (history frames).length := by
      rw [length_history]
      exact lt_of_lt_of_le hlt hr.dropped_le
    have hget := List.getElem?_eq_getElem hlen
    have hmem := List.mem_of_getElem? hget
    have hseq := seq_history hget
    have hin := (hr.mem_events hmem).mp (hall _ hmem (by omega))
    omega
  · intro hs e he hlt
    rw [hr.mem_events he]
    omega

end Retains

theorem retains_new (patchRing : ℕ) : Retains (new patchRing) [] :=
  ⟨rfl, le_rfl, rfl, Nat.zero_le _, Nat.zero_le _⟩

theorem cap_appendAll (h : Hub) (frames : List (ℕ × Frame)) : (h.appendAll frames).cap = h.cap := by
  induction frames generalizing h with
  | nil => rfl
  | cons e frames ih => exact ih (h.append e.1 e.2)

/-- The ring holds the end of the history, within its limits, and `FramesAfter` answers exactly
where nothing is missing, with everything there is. -/
theorem ring_complete {cap : ℕ} (hcap : 1 ≤ cap) (frames : List (ℕ × Frame)) :
    let h := (new cap).appendAll frames
    h.events <:+ history frames ∧ h.events.Pairwise (fun a b => a.seq < b.seq) ∧
      h.events.countP (·.rev ≠ 0) ≤ cap ∧ h.events.length ≤ 2 * cap ∧
      ∀ s, ((h.framesAfter s).isSome ↔ ∀ e ∈ history frames, s < e.seq → e ∈ h.events) ∧
        ∀ out, h.framesAfter s = some out →
          out = ((history frames).filter fun e => s < e.seq).map (·.frame) := by
  intro h
  have hr : Retains h frames := by
    have := (retains_new cap).appendAll frames
    rwa [List.nil_append] at this
  have hcap' : h.cap = cap := by
    rw [cap_appendAll, new, if_neg (by omega)]
  have hlen := hr.length_le
  refine ⟨?_, ?_, ?_, ?_, ?_⟩
  · rw [hr.events]
    exact List.drop_suffix _ _
  · rw [hr.events]
    exact (pairwise_history frames).sublist (List.drop_sublist _ _)
  · rw [← hcap']
    exact hr.patches_le
  · omega
  · intro s
    rw [hr.framesAfter, hr.complete_iff]
    split_ifs with hgone
    · exact ⟨by simpa using hgone, fun out hout => (by cases hout)⟩
    · exact ⟨by simpa using hgone, fun out hout => (Option.some.inj hout).symm⟩

/-- A ring of one patch after a patch, two status events and another patch. -/
theorem ring_complete_one :
    let frames : List (ℕ × Frame) :=
  [(2, .starting), (0, .starting), (0, .starting), (3, .starting)]
    let h := (new 1).appendAll frames
    h.events <:+ history frames ∧ h.events.Pairwise (fun a b => a.seq < b.seq) ∧
      h.events.countP (·.rev ≠ 0) ≤ 1 ∧ h.events.length ≤ 2 * 1 ∧
      ∀ s, ((h.framesAfter s).isSome ↔ ∀ e ∈ history frames, s < e.seq → e ∈ h.events) ∧
        ∀ out, h.framesAfter s = some out →
          out = ((history frames).filter fun e => s < e.seq).map (·.frame) :=
  ring_complete (le_refl 1) _

end Hub

end ReadyUp.Status
