import ReadyUp.Support.Assoc
import ReadyUp.Support.Numbered
import ReadyUp.Support.Runs
import Mathlib.Data.Finset.Basic
import Mathlib.Order.Bounds.Defs

/-!
# The inbound reliable stream

`RxTracker` follows the reliable messages from the platform: the highest contiguous seq
received, the highest contiguous seq whose handler is done (the ack), and a window of
message ids. Handlers finish in any order.

`Log` keeps what a caller can see of a run since the last `Reset`. The tracker is a
function of that log as far as seqs go (`Inv`).
-/
namespace ReadyUp.Fleet

open Support

/-- `kDedupeWindow` -/
def dedupeWindow : ℕ := 10000

/-- `RxTracker::Verdict` -/
inductive RxVerdict where
  | accept
  | duplicate
  | outOfOrder
  deriving DecidableEq

structure RxTracker where
  received : ℤ := 0
  processed : ℤ := 0
  lastAckSent : ℤ := -1
  firstUnackedAtMs : ℤ := -1
  /-- Received and not yet part of the done prefix, in key order. -/
  pending : List (ℤ × Bool) := []
  idOrder : List String := []
  ids : Finset String := ∅

/-- `m[k] = a` on a map kept in key order. -/
def insertSorted : List (ℤ × Bool) → ℤ → Bool → List (ℤ × Bool)
  | [], k, a => [(k, a)]
  | (j, b) :: l, k, a =>
    if k < j then (k, a) :: (j, b) :: l
    else if k = j then (k, a) :: l
    else (j, b) :: insertSorted l k a

/-- The loop of `MarkDone`: the done prefix leaves the map. -/
def takeDone : ℤ → List (ℤ × Bool) → ℤ × List (ℤ × Bool)
  | processed, [] => (processed, [])
  | processed, (k, done) :: l =>
    if done ∧ k = processed + 1 then takeDone k l else (processed, (k, done) :: l)

namespace RxTracker

def reset (t : RxTracker) (processedSeq : ℤ) : RxTracker :=
  { t with
    received := max 0 processedSeq
    processed := max 0 processedSeq
    lastAckSent := -1
    firstUnackedAtMs := -1
    pending := [] }

def rememberId (t : RxTracker) (id : String) : RxTracker :=
  if id = "" ∨ id ∈ t.ids then t
  else
    let ids := insert id t.ids
    let order := t.idOrder ++ [id]
    if dedupeWindow < order.length then
      { t with ids := ids.erase (order.headD ""), idOrder := order.tail }
    else { t with ids, idOrder := order }

def onReliable (t : RxTracker) (seq : ℤ) (id : String) : RxTracker × RxVerdict :=
  if seq ≤ t.received then (t, .duplicate)
  else if id ≠ "" ∧ id ∈ t.ids then (t, .duplicate)
  else if seq ≠ t.received + 1 then (t, .outOfOrder)
  else
    let t := { t with received := seq, pending := insertSorted t.pending seq false }
    (t.rememberId id, .accept)

/-- The flag says whether the id is new. -/
def onEphemeralId (t : RxTracker) (id : String) : RxTracker × Bool :=
  if id = "" then (t, true)
  else if id ∈ t.ids then (t, false)
  else (t.rememberId id, true)

/-- The flag says whether `processed` advanced. -/
def markDone (t : RxTracker) (seq nowMs : ℤ) : RxTracker × Bool :=
  if (t.pending.lookup seq).isNone then (t, false)
  else
    let (processed, pending) := takeDone t.processed (assign t.pending seq true)
    let firstUnackedAtMs :=
      if processed ≠ t.processed ∧ t.firstUnackedAtMs < 0 then nowMs else t.firstUnackedAtMs
    ({ t with processed, pending, firstUnackedAtMs }, processed ≠ t.processed)

def onAckSent (t : RxTracker) (ackedSeq : ℤ) : RxTracker :=
  let lastAckSent := max t.lastAckSent ackedSeq
  let firstUnackedAtMs := if t.processed ≤ lastAckSent then -1 else t.firstUnackedAtMs
  { t with lastAckSent, firstUnackedAtMs }

end RxTracker

/-- The calls of the client; an ack always carries `processed()`. -/
inductive RxCall where
  | reset (processedSeq : ℤ)
  | onReliable (seq : ℤ) (id : String)
  | onEphemeralId (id : String)
  | markDone (seq nowMs : ℤ)
  | onAckSent
  deriving DecidableEq

/-- What a caller has seen since the last `Reset`: its base, the seqs that got the verdict
Accept in order, and those marked done once they were accepted. -/
structure RxLog where
  base : ℤ := 0
  accepted : List ℤ := []
  done : List ℤ := []

structure RxRun where
  tracker : RxTracker := {}
  log : RxLog := {}

namespace RxRun

def step (r : RxRun) : RxCall → RxRun
  | .reset p => { tracker := r.tracker.reset p, log := { base := max 0 p } }
  | .onReliable seq id =>
    let (tracker, verdict) := r.tracker.onReliable seq id
    if verdict = .accept then
      { tracker, log := { r.log with accepted := r.log.accepted ++ [seq] } }
    else { r with tracker }
  | .onEphemeralId id => { r with tracker := (r.tracker.onEphemeralId id).1 }
  | .markDone seq nowMs =>
    let tracker := (r.tracker.markDone seq nowMs).1
    if seq ∈ r.log.accepted then { tracker, log := { r.log with done := r.log.done ++ [seq] } }
    else { r with tracker }
  | .onAckSent => { r with tracker := r.tracker.onAckSent r.tracker.processed }

end RxRun

/-- The ids of the window, each once, in the set and in the queue. -/
structure RxTracker.Window (t : RxTracker) : Prop where
  nodup : t.idOrder.Nodup
  mem_iff : ∀ id, id ∈ t.ids ↔ id ∈ t.idOrder
  length_le : t.idOrder.length ≤ dedupeWindow

theorem RxTracker.Window.rememberId {t : RxTracker} (h : t.Window) (id : String) :
    (t.rememberId id).Window := by
  simp only [RxTracker.rememberId]
  split_ifs with hid hfull
  · exact h
  · rw [not_or, h.mem_iff] at hid
    cases horder : t.idOrder with
    | nil =>
      rw [horder] at hfull
      simp [dedupeWindow] at hfull
    | cons front rest =>
      have hnodup := h.nodup
      have hlen := h.length_le
      rw [horder] at hid hnodup hlen
      obtain ⟨hfront, hrest⟩ := List.nodup_cons.mp hnodup
      refine ⟨?_, ?_, ?_⟩
      · simp only [List.cons_append, List.tail_cons]
        rw [List.nodup_append_comm]
        exact List.nodup_cons.mpr ⟨fun hm => hid.2 (List.mem_cons_of_mem _ hm), hrest⟩
      · intro j
        simp only [List.cons_append, List.headD_cons, List.tail_cons, Finset.mem_erase,
          Finset.mem_insert, h.mem_iff, horder, List.mem_cons, List.mem_append]
        constructor
        · rintro ⟨hne, rfl | rfl | hj⟩
          · exact Or.inr (Or.inl rfl)
          · exact absurd rfl hne
          · exact Or.inl hj
        · rintro (hj | rfl | hj)
          · exact ⟨fun heq => hfront (heq ▸ hj), Or.inr (Or.inr hj)⟩
          · exact ⟨fun heq => hid.2 (heq ▸ List.mem_cons_self), Or.inl rfl⟩
          · cases hj
      · simpa using hlen
  · rw [not_or, h.mem_iff] at hid
    refine ⟨?_, ?_, not_lt.mp hfull⟩
    · rw [List.nodup_append_comm]
      exact List.nodup_cons.mpr ⟨hid.2, h.nodup⟩
    · intro j
      simp [h.mem_iff, or_comm]

section Fields

variable (t : RxTracker) (id : String)

@[simp] theorem RxTracker.rememberId_received : (t.rememberId id).received = t.received := by
  simp only [rememberId]
  split_ifs <;> rfl

@[simp] theorem RxTracker.rememberId_processed : (t.rememberId id).processed = t.processed := by
  simp only [rememberId]
  split_ifs <;> rfl

@[simp] theorem RxTracker.rememberId_lastAckSent :
    (t.rememberId id).lastAckSent = t.lastAckSent := by
  simp only [rememberId]
  split_ifs <;> rfl

@[simp] theorem RxTracker.rememberId_pending : (t.rememberId id).pending = t.pending := by
  simp only [rememberId]
  split_ifs <;> rfl

end Fields

theorem insertSorted_of_forall_lt {l : List (ℤ × Bool)} {k : ℤ} (h : ∀ j ∈ keys l, j < k)
    (a : Bool) : insertSorted l k a = l ++ [(k, a)] := by
  induction l with
  | nil => rfl
  | cons jb l ih =>
    obtain ⟨j, b⟩ := jb
    rw [keys_cons, List.forall_mem_cons] at h
    rw [insertSorted, if_neg (by have := h.1; omega), if_neg (by have := h.1; omega), ih h.2,
      List.cons_append]

theorem RxTracker.onReliable_cases (t : RxTracker) (seq : ℤ) (id : String) :
    ((seq ≤ t.received ∨ id ≠ "" ∧ id ∈ t.ids) ∧ t.onReliable seq id = (t, .duplicate)) ∨
    (t.received + 1 < seq ∧ ¬ (id ≠ "" ∧ id ∈ t.ids) ∧
      t.onReliable seq id = (t, .outOfOrder)) ∨
    (seq = t.received + 1 ∧ ¬ (id ≠ "" ∧ id ∈ t.ids) ∧ t.onReliable seq id =
      (rememberId { t with
        received := t.received + 1
        pending := insertSorted t.pending (t.received + 1) false } id, .accept)) := by
  by_cases hle : seq ≤ t.received
  · exact Or.inl ⟨Or.inl hle, by rw [onReliable, if_pos hle]⟩
  · by_cases hid : id ≠ "" ∧ id ∈ t.ids
    · exact Or.inl ⟨Or.inr hid, by rw [onReliable, if_neg hle, if_pos hid]⟩
    · by_cases hseq : seq = t.received + 1
      · refine Or.inr (Or.inr ⟨hseq, hid, ?_⟩)
        rw [onReliable, if_neg hle, if_neg hid, if_neg (not_not.mpr hseq), hseq]
      · refine Or.inr (Or.inl ⟨by omega, hid, ?_⟩)
        rw [onReliable, if_neg hle, if_neg hid, if_pos hseq]

theorem takeDone_spec {p : ℤ} {l : List (ℤ × Bool)} (h : Numbered (p + 1) (keys l)) :
    let (p', l') := takeDone p l
    p ≤ p' ∧ p' + l'.length = p + l.length ∧ Numbered (p' + 1) (keys l') ∧ l' <:+ l ∧
      (∀ k d rest, l' = (k, d) :: rest → d = false) ∧
      ∀ k, p < k → k ≤ p' → (k, true) ∈ l := by
  induction l generalizing p with
  | nil => exact ⟨le_rfl, rfl, trivial, List.suffix_rfl, by simp, by intro k; omega⟩
  | cons kd l ih =>
    obtain ⟨k, d⟩ := kd
    obtain ⟨hk, htail⟩ := numbered_cons.mp h
    dsimp only at hk
    subst hk
    rw [takeDone]
    split_ifs with hd
    · obtain ⟨hle, hlen, hnum, hsuffix, hfront, hmem⟩ := ih htail
      refine ⟨by omega, ?_, hnum, hsuffix.trans (List.suffix_cons _ _), hfront, ?_⟩
      · rw [hlen, List.length_cons]
        push_cast
        omega
      · intro j hpj hjp
        by_cases hj : j = p + 1
        · rw [hj, hd.1]
          exact List.mem_cons_self
        · exact List.mem_cons_of_mem _ (hmem j (by omega) hjp)
    · refine ⟨le_rfl, rfl, h, List.suffix_rfl, ?_, by intro j; omega⟩
      intro j e rest heq
      have hde : d = e := by simp_all
      simpa [hde] using hd

section Processed

theorem le_takeDone (p : ℤ) (l : List (ℤ × Bool)) : p ≤ (takeDone p l).1 := by
  induction l generalizing p with
  | nil => exact le_rfl
  | cons kd l ih =>
    rw [takeDone]
    split_ifs with hd
    · have := ih kd.1
      omega
    · exact le_rfl

namespace RxTracker

variable (t : RxTracker)

theorem le_markDone (seq nowMs : ℤ) : t.processed ≤ (t.markDone seq nowMs).1.processed := by
  rw [markDone]
  split_ifs
  · exact le_rfl
  · exact le_takeDone _ _

theorem le_markAll (seqs : List ℤ) (nowMs : ℤ) :
    t.processed ≤ (seqs.foldl (fun t seq => (t.markDone seq nowMs).1) t).processed := by
  induction seqs generalizing t with
  | nil => exact le_rfl
  | cons seq seqs ih => exact (t.le_markDone seq nowMs).trans (ih _)

theorem onReliable_processed (seq : ℤ) (id : String) :
    (t.onReliable seq id).1.processed = t.processed := by
  obtain ⟨-, heq⟩ | ⟨-, -, heq⟩ | ⟨-, -, heq⟩ := t.onReliable_cases seq id
  · rw [heq]
  · rw [heq]
  · rw [heq, rememberId_processed]

theorem onEphemeralId_processed (id : String) : (t.onEphemeralId id).1.processed = t.processed := by
  rw [onEphemeralId]
  split_ifs
  · rfl
  · rfl
  · exact t.rememberId_processed id

end RxTracker

end Processed

/-- The tracker against the log: what is pending, what is acknowledged. -/
structure RxRun.Inv (r : RxRun) : Prop where
  base_nonneg : 0 ≤ r.log.base
  base_le : r.log.base ≤ r.tracker.processed
  accepted : Numbered (r.log.base + 1) r.log.accepted
  received_accepted : r.tracker.received = r.log.base + r.log.accepted.length
  pending : Numbered (r.tracker.processed + 1) (keys r.tracker.pending)
  received_pending : r.tracker.received = r.tracker.processed + r.tracker.pending.length
  flags : ∀ k d, (k, d) ∈ r.tracker.pending → (d = true ↔ k ∈ r.log.done)
  front : ∀ k d rest, r.tracker.pending = (k, d) :: rest → d = false
  done_accepted : ∀ s ∈ r.log.done, s ∈ r.log.accepted
  done : ∀ s, r.log.base < s → s ≤ r.tracker.processed → s ∈ r.log.done
  ack : r.tracker.lastAckSent ≤ r.tracker.processed
  window : r.tracker.Window

namespace RxRun.Inv

variable {r : RxRun}

theorem initial : Inv {} where
  base_nonneg := le_rfl
  base_le := le_rfl
  accepted := trivial
  received_accepted := rfl
  pending := trivial
  received_pending := rfl
  flags := by simp
  front := by simp
  done_accepted := by simp
  done := by simp
  ack := by decide
  window := ⟨List.nodup_nil, by simp, by simp⟩

theorem reset (h : r.Inv) (p : ℤ) : (r.step (.reset p)).Inv where
  base_nonneg := le_max_left 0 p
  base_le := le_rfl
  accepted := trivial
  received_accepted := by simp [step, RxTracker.reset]
  pending := trivial
  received_pending := by simp [step, RxTracker.reset]
  flags := by simp [step, RxTracker.reset]
  front := by simp [step, RxTracker.reset]
  done_accepted := by simp [step]
  done := by simp [step, RxTracker.reset]
  ack := by simp [step, RxTracker.reset]
  window := ⟨h.window.nodup, h.window.mem_iff, h.window.length_le⟩

theorem rememberId (h : r.Inv) (id : String) :
    Inv { r with tracker := r.tracker.rememberId id } where
  base_nonneg := h.base_nonneg
  base_le := by simpa using h.base_le
  accepted := h.accepted
  received_accepted := by simpa using h.received_accepted
  pending := by simpa using h.pending
  received_pending := by simpa using h.received_pending
  flags := by simpa using h.flags
  front := by simpa using h.front
  done_accepted := h.done_accepted
  done := by simpa using h.done
  ack := by simpa using h.ack
  window := h.window.rememberId id

theorem accept (h : r.Inv) :
    Inv { tracker := { r.tracker with
            received := r.tracker.received + 1
            pending := insertSorted r.tracker.pending (r.tracker.received + 1) false }
          log := { r.log with accepted := r.log.accepted ++ [r.tracker.received + 1] } } := by
  have hlt : ∀ j ∈ keys r.tracker.pending, j < r.tracker.received + 1 := by
    intro j hj
    have := h.pending.mem_iff.mp hj
    have := h.received_pending
    rw [length_keys] at *
    omega
  have hnew : r.tracker.received + 1 ∉ r.log.done := by
    intro hmem
    have := h.accepted.mem_iff.mp (h.done_accepted _ hmem)
    have := h.received_accepted
    omega
  have hra := h.received_accepted
  have hrp := h.received_pending
  rw [insertSorted_of_forall_lt hlt]
  constructor
  case base_nonneg => exact h.base_nonneg
  case base_le => exact h.base_le
  case accepted =>
    rw [numbered_append]
    refine ⟨h.accepted, ?_, trivial⟩
    dsimp only
    omega
  case received_accepted =>
    rw [List.length_append, List.length_singleton]
    push_cast
    omega
  case pending =>
    rw [keys, List.map_append, ← keys, numbered_append, length_keys]
    refine ⟨h.pending, ?_, trivial⟩
    dsimp only
    omega
  case received_pending =>
    rw [List.length_append, List.length_singleton]
    push_cast
    omega
  case flags =>
    intro k d hmem
    rcases List.mem_append.mp hmem with hmem | hmem
    · exact h.flags k d hmem
    · obtain ⟨rfl, rfl⟩ := Prod.mk.inj (List.mem_singleton.mp hmem)
      simpa using hnew
  case front =>
    intro k d rest heq
    cases hp : r.tracker.pending with
    | nil =>
      rw [hp] at heq
      simp_all
    | cons kd l =>
      rw [hp, List.cons_append, List.cons.injEq] at heq
      exact h.front k d l (by rw [hp, heq.1])
  case done_accepted =>
    intro s hs
    exact List.mem_append_left _ (h.done_accepted s hs)
  case done => exact h.done
  case ack => exact h.ack
  case window => exact ⟨h.window.nodup, h.window.mem_iff, h.window.length_le⟩

theorem onReliable (h : r.Inv) (seq : ℤ) (id : String) : (r.step (.onReliable seq id)).Inv := by
  rw [step]
  rcases r.tracker.onReliable_cases seq id with ⟨-, heq⟩ | ⟨-, -, heq⟩ | ⟨rfl, -, heq⟩
  · rw [heq]
    exact h
  · rw [heq]
    exact h
  · rw [heq]
    exact h.accept.rememberId id

theorem onEphemeralId (h : r.Inv) (id : String) : (r.step (.onEphemeralId id)).Inv := by
  simp only [step, RxTracker.onEphemeralId]
  split_ifs with h₁ h₂
  · exact h
  · exact h
  · exact h.rememberId id

theorem mem_accepted (h : r.Inv) {seq : ℤ} (hseq : seq ∈ keys r.tracker.pending) :
    seq ∈ r.log.accepted := by
  have hrange := h.pending.mem_iff.mp hseq
  have hbase := h.base_le
  have hreceived := h.received_accepted
  have hpending := h.received_pending
  rw [length_keys] at hrange
  rw [h.accepted.mem_iff]
  omega

theorem log_done (h : r.Inv) {seq : ℤ} (hseq : seq ∉ keys r.tracker.pending)
    (hmem : seq ∈ r.log.accepted) :
    Inv { r with log := { r.log with done := r.log.done ++ [seq] } } := by
  refine ⟨h.base_nonneg, h.base_le, h.accepted, h.received_accepted, h.pending,
    h.received_pending, ?_, h.front, ?_, ?_, h.ack, h.window⟩
  · intro k d hkd
    have hne : k ≠ seq := by
      rintro rfl
      exact hseq (mem_keys_of_mem hkd)
    rw [h.flags k d hkd, List.mem_append, List.mem_singleton]
    exact ⟨Or.inl, fun h => h.resolve_right hne⟩
  · intro s hs
    rcases List.mem_append.mp hs with hs | hs
    · exact h.done_accepted s hs
    · exact List.mem_singleton.mp hs ▸ hmem
  · intro s hlt hle
    exact List.mem_append_left _ (h.done s hlt hle)

/-- A mark for a pending seq: the entry is done, the done prefix is processed. -/
theorem mark (h : r.Inv) {seq : ℤ} (hseq : seq ∈ keys r.tracker.pending) (firstUnackedAtMs : ℤ) :
    let taken := takeDone r.tracker.processed (assign r.tracker.pending seq true)
    Inv { tracker := { r.tracker with
            processed := taken.1, pending := taken.2, firstUnackedAtMs }
          log := { r.log with done := r.log.done ++ [seq] } } := by
  have hkeys := keys_assign_of_mem hseq true
  have hnodup : (keys (assign r.tracker.pending seq true)).Nodup := by
    rw [hkeys]
    exact h.pending.pairwise_lt.imp fun h => h.ne
  have hflags : ∀ k d, (k, d) ∈ assign r.tracker.pending seq true →
      (d = true ↔ k ∈ r.log.done ++ [seq]) := by
    intro k d hkd
    have hk := lookup_of_mem hnodup hkd
    rw [lookup_assign] at hk
    rw [List.mem_append, List.mem_singleton]
    split_ifs at hk with heq
    · simp_all
    · rw [h.flags k d (mem_of_lookup hk)]
      exact ⟨Or.inl, fun h => h.resolve_right heq⟩
  have hlen : (assign r.tracker.pending seq true).length = r.tracker.pending.length := by
    rw [← length_keys, hkeys, length_keys]
  have hnum : Numbered (r.tracker.processed + 1) (keys (assign r.tracker.pending seq true)) := by
    rw [hkeys]
    exact h.pending
  obtain ⟨hle, htaken, hrest, hsuffix, hfront, hdone⟩ := takeDone_spec hnum
  intro taken
  refine ⟨h.base_nonneg, ?_, h.accepted, h.received_accepted, hrest, ?_, ?_, hfront, ?_, ?_, ?_,
    ⟨h.window.nodup, h.window.mem_iff, h.window.length_le⟩⟩
  · exact h.base_le.trans hle
  · have := h.received_pending
    rw [hlen] at htaken
    exact this.trans htaken.symm
  · intro k d hkd
    exact hflags k d (hsuffix.subset hkd)
  · intro s hs
    rcases List.mem_append.mp hs with hs | hs
    · exact h.done_accepted s hs
    · rw [List.mem_singleton.mp hs]
      exact h.mem_accepted hseq
  · intro s hlt hs
    by_cases hp : s ≤ r.tracker.processed
    · exact List.mem_append_left _ (h.done s hlt hp)
    · exact (hflags s true (hdone s (not_le.mp hp) hs)).mp rfl
  · exact h.ack.trans hle

theorem markDone (h : r.Inv) (seq nowMs : ℤ) : (r.step (.markDone seq nowMs)).Inv := by
  simp only [step, RxTracker.markDone]
  cases hk : (r.tracker.pending.lookup seq).isNone with
  | true =>
    rw [Option.isNone_iff_eq_none, lookup_eq_none] at hk
    simp only [if_true]
    split_ifs with hacc
    · exact h.log_done hk hacc
    · exact h
  | false =>
    have hseq : seq ∈ keys r.tracker.pending := by
      by_contra hn
      rw [← lookup_eq_none] at hn
      simp [hn] at hk
    rw [if_pos (h.mem_accepted hseq), if_neg Bool.false_ne_true]
    exact h.mark hseq _

theorem onAckSent (h : r.Inv) : (r.step .onAckSent).Inv where
  base_nonneg := h.base_nonneg
  base_le := h.base_le
  accepted := h.accepted
  received_accepted := h.received_accepted
  pending := h.pending
  received_pending := h.received_pending
  flags := h.flags
  front := h.front
  done_accepted := h.done_accepted
  done := h.done
  ack := max_le h.ack le_rfl
  window := ⟨h.window.nodup, h.window.mem_iff, h.window.length_le⟩

theorem step (h : r.Inv) (c : RxCall) : (r.step c).Inv := by
  cases c with
  | reset p => exact h.reset p
  | onReliable seq id => exact h.onReliable seq id
  | onEphemeralId id => exact h.onEphemeralId id
  | markDone seq nowMs => exact h.markDone seq nowMs
  | onAckSent => exact h.onAckSent

theorem run (h : r.Inv) (cs : List RxCall) : (Support.run RxRun.step r cs).Inv :=
  run_invariant h fun c _ _ hr => hr.step c

/-- `processed()` is the end of the accepted and done prefix. -/
theorem isGreatest (h : r.Inv) :
    IsGreatest {n | r.log.base ≤ n ∧ ∀ s, r.log.base < s → s ≤ n →
      s ∈ r.log.accepted ∧ s ∈ r.log.done} r.tracker.processed := by
  constructor
  · refine ⟨h.base_le, ?_⟩
    intro s hlt hle
    have hs := h.done s hlt hle
    exact ⟨h.done_accepted s hs, hs⟩
  · intro n hn
    by_contra hlt
    rw [not_le] at hlt
    have hbase := h.base_le
    obtain ⟨hacc, hdone⟩ := hn.2 (r.tracker.processed + 1) (by omega) (by omega)
    have hrange := h.accepted.mem_iff.mp hacc
    have hreceived := h.received_accepted
    have hpending := h.received_pending
    -- the next seq is received, so it heads the map, not done
    cases hp : r.tracker.pending with
    | nil =>
      rw [hp, List.length_nil] at hpending
      omega
    | cons kd rest =>
      obtain ⟨k, d⟩ := kd
      have hnum := h.pending
      rw [hp] at hnum
      obtain rfl : k = r.tracker.processed + 1 := hnum.1
      have hd := h.front _ _ _ hp
      have := (h.flags _ d (hp ▸ List.mem_cons_self)).mpr hdone
      rw [hd] at this
      cases this

end RxRun.Inv

namespace RxRun

theorem lastAckSent_le (r : RxRun) {c : RxCall} (h : ∀ p, c ≠ .reset p) :
    r.tracker.lastAckSent ≤ (r.step c).tracker.lastAckSent := by
  cases c with
  | reset p => exact absurd rfl (h p)
  | onReliable seq id =>
    rw [step]
    rcases r.tracker.onReliable_cases seq id with ⟨-, heq⟩ | ⟨-, -, heq⟩ | ⟨-, -, heq⟩
    · simp [heq]
    · simp [heq]
    · simp [heq]
  | onEphemeralId id =>
    simp only [step, RxTracker.onEphemeralId]
    split_ifs <;> simp
  | markDone seq nowMs =>
    simp only [step, RxTracker.markDone]
    split_ifs <;> exact le_rfl
  | onAckSent => exact le_max_left _ _

theorem lastAckSent_le_run (r : RxRun) {cs : List RxCall} (h : ∀ p, .reset p ∉ cs) :
    r.tracker.lastAckSent ≤ (run step r cs).tracker.lastAckSent := by
  apply run_invariant (P := fun r' : RxRun => r.tracker.lastAckSent ≤ r'.tracker.lastAckSent) le_rfl
  intro c hc r' hr
  apply hr.trans
  apply r'.lastAckSent_le
  rintro p rfl
  exact h p hc

/-- The receive side in every run of calls. -/
theorem safety (cs : List RxCall) :
    let r := run step {} cs
    (∀ k, k ∈ keys r.tracker.pending ↔ r.tracker.processed < k ∧ k ≤ r.tracker.received) ∧
    IsGreatest {n | r.log.base ≤ n ∧ ∀ s, r.log.base < s → s ≤ n →
      s ∈ r.log.accepted ∧ s ∈ r.log.done} r.tracker.processed ∧
    Numbered (r.log.base + 1) r.log.accepted ∧
    r.tracker.lastAckSent ≤ r.tracker.processed ∧
    (∀ cs', (∀ p, .reset p ∉ cs') →
      r.tracker.lastAckSent ≤ (run step r cs').tracker.lastAckSent) ∧
    r.tracker.idOrder.Nodup ∧ (∀ id, id ∈ r.tracker.ids ↔ id ∈ r.tracker.idOrder) ∧
    r.tracker.idOrder.length ≤ dedupeWindow := by
  intro r
  have h : r.Inv := Inv.initial.run cs
  refine ⟨?_, h.isGreatest, h.accepted, h.ack, fun cs' hcs => r.lastAckSent_le_run hcs,
    h.window.nodup, h.window.mem_iff, h.window.length_le⟩
  intro k
  have := h.received_pending
  rw [h.pending.mem_iff, length_keys]
  omega

/-- The seqs that get the verdict Accept, over the whole run. -/
def accepts (r : RxRun) : List RxCall → List ℤ
  | [] => []
  | .onReliable seq id :: cs =>
    (if (r.tracker.onReliable seq id).2 = .accept then [seq] else []) ++
      (r.step (.onReliable seq id)).accepts cs
  | c :: cs => (r.step c).accepts cs

/-- After a `Reset` a seq is accepted once more, and a mark that comes before its message
is forgotten. -/
theorem reset_accepts_again :
    accepts {} [.onReliable 1 "A", .reset 0, .onReliable 1 "B"] = [1, 1] ∧
    let r := run step {} [.markDone 1 0, .onReliable 1 "A"]
    r.log.accepted = [1] ∧ r.tracker.processed = 0 := by
  decide

end RxRun

section Replay

/-- Consecutive frames, and the verdicts that they get. -/
def RxTracker.replay (t : RxTracker) : ℤ → List String → RxTracker × List RxVerdict
  | _, [] => (t, [])
  | first, id :: ids =>
    let (t, verdict) := t.onReliable first id
    let (t, verdicts) := t.replay (first + 1) ids
    (t, verdict :: verdicts)

/-- Ids that the window does not know, each once; a frame may come without an id. -/
def FreshIds (known : Finset String) (ids : List String) : Prop :=
  (∀ id ∈ ids, id ≠ "" → id ∉ known) ∧ (ids.filter (· ≠ "")).Nodup

instance (known : Finset String) (ids : List String) : Decidable (FreshIds known ids) :=
  inferInstanceAs (Decidable (_ ∧ _))

theorem RxTracker.rememberId_ids_subset (t : RxTracker) (id : String) :
    (t.rememberId id).ids ⊆ insert id t.ids := by
  simp only [rememberId]
  split_ifs
  · exact Finset.subset_insert _ _
  · exact Finset.erase_subset _ _
  · exact Finset.Subset.refl _

theorem RxTracker.onReliable_next {t : RxTracker} {id : String} (h : id = "" ∨ id ∉ t.ids) :
    (t.onReliable (t.received + 1) id).2 = .accept ∧
      (t.onReliable (t.received + 1) id).1.received = t.received + 1 ∧
      (t.onReliable (t.received + 1) id).1.ids ⊆ insert id t.ids := by
  rcases t.onReliable_cases (t.received + 1) id with ⟨hdup, -⟩ | ⟨hlt, -, -⟩ | ⟨-, -, heq⟩
  · rcases hdup with hle | ⟨hne, hmem⟩
    · omega
    · exact absurd hmem (h.resolve_left hne)
  · omega
  · rw [heq]
    exact ⟨rfl, by simp, rememberId_ids_subset _ id⟩

theorem RxTracker.replay_append (t : RxTracker) (first : ℤ) (ids ids' : List String) :
    (t.replay first (ids ++ ids')) =
      (((t.replay first ids).1.replay (first + ids.length) ids').1,
        (t.replay first ids).2 ++ ((t.replay first ids).1.replay (first + ids.length) ids').2) := by
  induction ids generalizing t first with
  | nil => simp [replay]
  | cons id ids ih =>
    have hlen : first + 1 + (ids.length : ℤ) = first + ((id :: ids).length : ℤ) := by
      rw [List.length_cons]
      push_cast
      omega
    simp only [List.cons_append, replay, ih, hlen]

theorem RxTracker.replay_old {t : RxTracker} {first : ℤ} {ids : List String}
    (h : first + ids.length ≤ t.received + 1) :
    t.replay first ids = (t, List.replicate ids.length .duplicate) := by
  induction ids generalizing first with
  | nil => rfl
  | cons id ids ih =>
    rw [List.length_cons] at h
    push_cast at h
    have hdup : t.onReliable first id = (t, .duplicate) := by
      rw [onReliable, if_pos (by omega)]
    have hrest := ih (by omega : first + 1 + (ids.length : ℤ) ≤ t.received + 1)
    rw [replay, hdup]
    simp only [hrest, List.length_cons, List.replicate_succ]

theorem RxTracker.replay_fresh {t : RxTracker} {ids : List String} (h : FreshIds t.ids ids) :
    (t.replay (t.received + 1) ids).2 = List.replicate ids.length .accept ∧
      (t.replay (t.received + 1) ids).1.received = t.received + ids.length := by
  induction ids generalizing t with
  | nil => simp [replay]
  | cons id ids ih =>
    obtain ⟨hknown, hnodup⟩ := h
    have hid : id = "" ∨ id ∉ t.ids := by
      by_cases hid : id = ""
      · exact Or.inl hid
      · exact Or.inr (hknown id List.mem_cons_self hid)
    obtain ⟨haccept, hreceived, hids⟩ := onReliable_next hid
    have hfresh : FreshIds (t.onReliable (t.received + 1) id).1.ids ids := by
      constructor
      · intro j hj hne hmem
        rcases Finset.mem_insert.mp (hids hmem) with rfl | hmem
        · rw [List.filter_cons_of_pos (by simpa using hne), List.nodup_cons] at hnodup
          exact hnodup.1 (List.mem_filter.mpr ⟨hj, by simpa using hne⟩)
        · exact hknown j (List.mem_cons_of_mem _ hj) hne hmem
      · exact hnodup.sublist ((List.sublist_cons_self id ids).filter _)
    obtain ⟨hverdicts, hlast⟩ := ih hfresh
    rw [hreceived] at hverdicts hlast
    simp only [replay, haccept, hverdicts, hlast, List.length_cons, List.replicate_succ]
    refine ⟨trivial, ?_⟩
    push_cast
    omega

end Replay

namespace RxRun

/-- The next frame is taken exactly when the window does not know its id, and a sender that
replays from an earlier frame with fresh ids beyond what was received gets no OutOfOrder. -/
theorem next_frame (cs : List RxCall) :
    let t := (run step {} cs).tracker
    (∀ id, id = "" ∨ id ∉ t.ids → (t.onReliable (t.received + 1) id).2 = .accept ∧
      (t.onReliable (t.received + 1) id).1.received = t.received + 1) ∧
    (∀ id, id ≠ "" → id ∈ t.ids → t.onReliable (t.received + 1) id = (t, .duplicate)) ∧
    ∀ first old fresh, first + (old.length : ℤ) = t.received + 1 → FreshIds t.ids fresh →
      (t.replay first (old ++ fresh)).2 =
        List.replicate old.length .duplicate ++ List.replicate fresh.length .accept ∧
      (t.replay first (old ++ fresh)).1.received = t.received + fresh.length := by
  intro t
  refine ⟨?_, ?_, ?_⟩
  · intro id hid
    obtain ⟨haccept, hreceived, -⟩ := RxTracker.onReliable_next hid
    exact ⟨haccept, hreceived⟩
  · intro id hne hmem
    rw [RxTracker.onReliable, if_neg (by omega), if_pos ⟨hne, hmem⟩]
  · intro first old fresh hfirst hfresh
    have hold := t.replay_old (by omega : first + (old.length : ℤ) ≤ t.received + 1)
    obtain ⟨hverdicts, hlast⟩ := RxTracker.replay_fresh hfresh
    rw [t.replay_append, hold, hfirst, hverdicts, hlast]
    exact ⟨rfl, rfl⟩

/-- A message id that comes again under the next seq: the frame is not consumed, and every
later one is out of order. -/
theorem known_id_holds_stream :
    let t := (run step {} [.onReliable 1 "A"]).tracker
    (t.onReliable 2 "A") = (t, .duplicate) ∧
    (t.replay 2 ["A", "B", "C"]).2 = [.duplicate, .outOfOrder, .outOfOrder] ∧
    (t.replay 2 ["A", "B", "C"]).1.received = 1 := by
  refine ⟨?_, by decide, by decide⟩
  rw [RxTracker.onReliable, if_neg (by decide), if_pos (by decide)]

/-- A replay from the acknowledged frame. -/
theorem next_frame_replay :
    let t := (run step {} [.onReliable 1 "A", .onReliable 2 "B", .markDone 1 0]).tracker
    (t.replay 2 ["B", "C", "D"]).2 = [.duplicate, .accept, .accept] := by
  intro t
  have h :=
    (next_frame [.onReliable 1 "A", .onReliable 2 "B", .markDone 1 0]).2.2 2 ["B"] ["C", "D"]
    (by decide) (by decide)
  exact h.1

end RxRun

end ReadyUp.Fleet
