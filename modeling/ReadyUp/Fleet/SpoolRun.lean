import ReadyUp.Fleet.SpoolLive
import ReadyUp.Support.Runs

/-!
# Runs of the spool

A run is any sequence of calls of the spool, with any results of their writes, of processes
that are killed between two calls, and of crashes within a call at any of its writes. Beside
the spool a run keeps which messages are owed to the platform: those that `Append` gave a seq
in the present stream and that are not acked.

`Base` holds whatever the writes do; `Live.apply` says what a call does to a spool whose
writes went well.
-/
namespace ReadyUp.Fleet

open Support

inductive SpoolCall where
  | openDir (limits : Limits) (newId : Ulid)
  | append (msg : Message)
  | ackUpTo (seq : ℤ)
  | rotateIfGap (newId : Ulid)
  | setRxSeq (seq : ℤ)
  | flushMeta

namespace SpoolCall

def isOpen : SpoolCall → Bool
  | .openDir _ _ => true
  | _ => false

def apply (h : Host) : SpoolCall → Host
  | .openDir limits newId => (h.openDir limits newId).2
  | .append msg => (h.append msg).2
  | .ackUpTo seq => h.ackUpTo seq
  | .rotateIfGap newId => (h.rotateIfGap newId).2
  | .setRxSeq seq => h.setRxSeq seq
  | .flushMeta => h.flushMeta.2

/-- The messages that are owed after a call. A new stream has those that it starts with. -/
def owed (h : Host) (owed : List SpoolRecord) : SpoolCall → List SpoolRecord
  | .openDir limits newId =>
    let s := (h.openDir limits newId).2.spool
    if s.gap then owed else s.recs
  | .append msg => owedAfter owed msg (h.spool.append msg).seq
  | .ackUpTo seq => owed.filter fun r => (h.ackUpTo seq).spool.ackedSeq < r.seq
  | .rotateIfGap newId => if h.spool.gap then (h.spool.rotate newId).recs else owed
  | .setRxSeq _ => owed
  | .flushMeta => owed

/-- The messages that are owed when a call is cut off: an ack counts from the start. -/
def owedAtCrash (h : Host) (owed : List SpoolRecord) : SpoolCall → List SpoolRecord
  | .ackUpTo seq => owed.filter fun r => (h.ackUpTo seq).spool.ackedSeq < r.seq
  | _ => owed

/-- Whether a call drops messages that are retained. -/
def drops (h : Host) : SpoolCall → Bool
  | .append msg => (h.spool.append msg).droppedAny
  | .openDir _ _ | .ackUpTo _ | .rotateIfGap _ | .setRxSeq _ | .flushMeta => false

end SpoolCall

inductive SpoolEvent where
  | call (c : SpoolCall) (outcomes : List WriteResult)
  | crash (c : SpoolCall) (point : ℕ)
  | kill

structure SpoolRun where
  host : Host
  /-- Whether a process has called `Open`. -/
  running : Bool
  stream : Bytes
  owed : List SpoolRecord
  /-- Whether messages were dropped and `meta.json` does not have the gap yet. -/
  lost : Bool

namespace SpoolRun

def new : SpoolRun := ⟨.new .empty, false, [], [], false⟩

variable (r : SpoolRun)

def begin (outcomes : List WriteResult) : Host := { r.host with outcomes, crashes := [] }

/-- A process needs `Open` first. -/
def ready (c : SpoolCall) : Bool := r.running || c.isOpen

def restart (d : Disk) (owed : List SpoolRecord) : SpoolRun :=
  ⟨.new d, false, r.stream, owed, false⟩

def step : SpoolEvent → SpoolRun
  | .call c outcomes =>
    if r.ready c then
      let h := r.begin outcomes
      let h' := c.apply h
      ⟨h', true, h'.spool.streamId, c.owed h r.owed, (r.lost || c.drops h) && h'.metaDirty⟩
    else r
  | .crash c point =>
    if r.ready c then
      let h := r.begin []
      ((c.apply h).crashes[point]?).elim r fun d => r.restart d (c.owedAtCrash h r.owed)
    else r
  | .kill => r.restart r.host.disk r.owed

end SpoolRun

section Frames

namespace Host

variable (h : Host)

@[simp] theorem append_spool (msg : Message) :
    (h.append msg).2.spool = (h.spool.append msg).spool := by
  rw [append]
  cases (h.spool.append msg).seq with
  | none =>
    dsimp only
    split_ifs <;> simp
  | some seq =>
    dsimp only
    split_ifs <;> simp

@[simp] theorem ackUpTo_spool (seq : ℤ) : (h.ackUpTo seq).spool = h.spool.ackUpTo seq := by
  rw [ackUpTo]
  split_ifs with hseq
  · rw [Spool.ackUpTo, if_pos hseq]
  · dsimp only
    split_ifs <;> simp

theorem rotateIfGap_spool (newId : Ulid) :
    (h.rotateIfGap newId).2.spool = if h.spool.gap then h.spool.rotate newId else h.spool := by
  rw [rotateIfGap]
  split_ifs <;> simp

theorem setRxSeq_spool (seq : ℤ) : (h.setRxSeq seq).spool = { h.spool with rxSeq := seq } := by
  rw [setRxSeq]
  split_ifs with hseq
  · rw [hseq]
  · rfl

theorem flushMeta_info :
    h.flushMeta.2.disk.info = h.disk.info ∨ h.flushMeta.2.disk.info = some h.spool.toMeta := by
  rw [flushMeta, writeAtomic, write]
  cases h.outcomes.headD .ok with
  | ok => exact Or.inr rfl
  | failed n => exact Or.inl rfl

@[simp] theorem rewrite_info : h.rewrite.2.disk.info = h.disk.info := by
  rw [rewrite, writeAtomic, write]
  cases h.outcomes.headD .ok <;> rfl

@[simp] theorem appendLine_info (r : SpoolRecord) : (h.appendLine r).2.disk.info = h.disk.info := by
  rw [appendLine]
  split_ifs
  · rw [write]
    cases h.outcomes.headD .ok with
    | ok => rfl
    | failed n =>
      dsimp only [withPart]
      split_ifs <;> rfl
  · rfl

theorem append_info (msg : Message) : (h.append msg).2.disk.info = h.disk.info := by
  rw [append]
  cases (h.spool.append msg).seq with
  | none =>
    dsimp only
    split_ifs <;> simp
  | some seq =>
    dsimp only
    split_ifs <;> simp

end Host

end Frames

section Base

/-- `meta.json` as a spool writes it. -/
def MetaOk (d : Disk) : Prop := ∀ m ∈ d.info, m.ackedSeq < m.nextSeq

/-- What holds of every host, whatever its writes do. -/
structure Base (h : Host) : Prop where
  ordered : h.spool.Ordered
  info : MetaOk h.disk

variable {h : Host}

theorem metaOk_of_info {d d' : Disk} (hd : MetaOk d) {s : Spool} (hs : s.Ordered)
    (h : d'.info = d.info ∨ d'.info = some s.toMeta) : MetaOk d' := by
  intro m hm
  rcases h with h | h
  · exact hd m (h ▸ hm)
  · rw [h] at hm
    rw [← Option.some.inj hm]
    exact hs.acked

theorem Base.flushMeta (hb : Base h) : Base h.flushMeta.2 :=
  ⟨h.flushMeta_spool ▸ hb.ordered, metaOk_of_info hb.info hb.ordered h.flushMeta_info⟩

theorem Base.rewrite (hb : Base h) : Base h.rewrite.2 :=
  ⟨h.rewrite_spool ▸ hb.ordered, metaOk_of_info hb.info hb.ordered (Or.inl h.rewrite_info)⟩

theorem Base.close (hb : Base h) : Base h.close := by
  rw [Host.close]
  split_ifs
  · exact ⟨hb.flushMeta.ordered, hb.flushMeta.info⟩
  · exact ⟨hb.ordered, hb.info⟩
  · exact hb

theorem writeAtomic_same_disk (h : Host) : (h.writeAtomic h.disk).2.disk = h.disk := by
  rw [Host.writeAtomic, Host.write]
  cases h.outcomes.headD .ok <;> rfl

theorem Base.openDir (hb : Base h) (limits : Limits) (newId : Ulid) :
    Base (h.openDir limits newId).2 := by
  have hc := hb.close
  have hdisk := writeAtomic_same_disk h.close
  have hload : Base { (h.close.writeAtomic h.close.disk).2 with
      spool := (h.close.writeAtomic h.close.disk).2.spool.load
        (h.close.writeAtomic h.close.disk).2.disk limits newId } := by
    rw [hdisk]
    refine ⟨Spool.ordered_load _ hc.info limits newId, ?_⟩
    rw [hdisk]
    exact hc.info
  have hre := hload.rewrite
  rw [Host.openDir]
  dsimp only
  split_ifs with hmade hok
  · exact Base.flushMeta ⟨hre.ordered, hre.info⟩
  · exact hre
  · have hord := hc.ordered
    refine ⟨?_, ?_⟩
    · rw [Host.writeAtomic_spool]
      exact ⟨hord.nonneg, hord.acked, List.Pairwise.nil, fun _ hr => absurd hr List.not_mem_nil,
        fun _ hr => absurd hr List.not_mem_nil, rfl⟩
    · rw [hdisk]
      exact hc.info

theorem Base.apply (hb : Base h) (c : SpoolCall) : Base (c.apply h) := by
  cases c with
  | openDir limits newId => exact hb.openDir limits newId
  | append msg =>
    refine ⟨?_, ?_⟩
    · rw [SpoolCall.apply, Host.append_spool]
      exact hb.ordered.append msg
    · exact metaOk_of_info hb.info hb.ordered (Or.inl (h.append_info msg))
  | ackUpTo seq =>
    rw [SpoolCall.apply, Host.ackUpTo]
    split_ifs with hseq
    · exact hb
    · have hmem : Base { h with spool := h.spool.ackUpTo seq, metaDirty := true } :=
        ⟨hb.ordered.ackUpTo seq, hb.info⟩
      dsimp only
      split_ifs
      · exact hmem.flushMeta.rewrite
      · exact hmem
  | rotateIfGap newId =>
    rw [SpoolCall.apply, Host.rotateIfGap]
    split_ifs
    · have hmem : Base { h with spool := h.spool.rotate newId, metaDirty := true } :=
        ⟨hb.ordered.rotate newId, hb.info⟩
      exact hmem.flushMeta.rewrite
    · exact hb
  | setRxSeq seq =>
    have hord := hb.ordered
    refine ⟨?_, ?_⟩
    · rw [SpoolCall.apply, Host.setRxSeq_spool]
      exact ⟨hord.nonneg, hord.acked, hord.increasing, hord.above, hord.below, hord.bytes⟩
    · rw [SpoolCall.apply, Host.setRxSeq]
      split_ifs
      · exact hb.info
      · exact hb.info
  | flushMeta => exact hb.flushMeta

end Base

section Calls

variable {h : Host} {m : Meta} {old owed : List SpoolRecord} {lost : Bool}

theorem consecutive_apply (hord : h.spool.Ordered)
    (hcons : h.spool.gap = false → h.spool.Consecutive)
    {c : SpoolCall} (hc : c.isOpen = false) (hgap : (c.apply h).spool.gap = false) :
    (c.apply h).spool.Consecutive := by
  cases c with
  | openDir limits newId => cases hc
  | append msg =>
    rw [SpoolCall.apply, Host.append_spool] at hgap ⊢
    have hgap₀ : h.spool.gap = false := by
      rw [Bool.eq_false_iff] at hgap ⊢
      exact fun hg => hgap (Spool.append_gap hg msg)
    rw [(Spool.append_of_not_gap hgap).2.2]
    exact (hcons hgap₀).push msg
  | ackUpTo seq =>
    rw [SpoolCall.apply, Host.ackUpTo_spool] at hgap ⊢
    apply Spool.Consecutive.ackUpTo _ hord
    apply hcons
    rw [Spool.ackUpTo] at hgap
    split_ifs at hgap
    · exact hgap
    · exact hgap
  | rotateIfGap newId =>
    rw [SpoolCall.apply, Host.rotateIfGap_spool] at hgap ⊢
    split_ifs at hgap ⊢ with hg
    · exact Spool.consecutive_rotate h.spool newId
    · exact hcons hgap
  | setRxSeq seq =>
    rw [SpoolCall.apply, Host.setRxSeq_spool] at hgap ⊢
    exact ⟨(hcons hgap).numbered, (hcons hgap).last⟩
  | flushMeta =>
    rw [SpoolCall.apply, Host.flushMeta_spool] at hgap ⊢
    exact hcons hgap

theorem metaDirty_compact (h : Host) :
    h.flushMeta.2.rewrite.2.failed = true ∨ h.flushMeta.2.rewrite.2.metaDirty = false := by
  rcases h.flushMeta_cases with hfail | hflush
  · exact Or.inl (Host.failed_rewrite hfail)
  · rcases h.flushMeta.2.rewrite_cases with hfail | hre
    · exact Or.inl hfail
    · right
      rw [hre, hflush]

/-- A call other than `Open` keeps the spool live, or fails to write. -/
theorem Live.apply (hl : Live h m old lost owed) {c : SpoolCall} (hc : c.isOpen = false) :
    (c.apply h).failed = true ∨
      ∃ m' old', Live (c.apply h) m' old' ((lost || c.drops h) && (c.apply h).metaDirty)
        (c.owed h owed) := by
  cases c with
  | openDir limits newId => cases hc
  | append msg =>
    rcases hl.append msg with hfail | ⟨old', hl'⟩
    · exact Or.inl hfail
    · right
      refine ⟨m, old', ?_⟩
      have hdirty := hl'.lost_and_dirty
      rw [SpoolCall.apply, SpoolCall.drops, SpoolCall.owed, hdirty]
      exact hl'
  | ackUpTo seq =>
    rw [SpoolCall.drops, Bool.or_false]
    exact hl.ackUpTo seq
  | rotateIfGap newId =>
    rw [SpoolCall.drops, Bool.or_false, SpoolCall.owed]
    cases hgap : h.spool.gap with
    | true =>
      rcases hl.rotate newId hgap with hfail | hl'
      · exact Or.inl hfail
      · have hdirty := metaDirty_compact { h with spool := h.spool.rotate newId, metaDirty := true }
        rw [SpoolCall.apply]
        rw [Host.rotateIfGap, if_pos hgap] at hl' ⊢
        rcases hdirty with hfail | hdirty
        · exact Or.inl hfail
        · right
          rw [hdirty, Bool.and_false]
          exact ⟨_, [], hl'⟩
    | false =>
      right
      rw [SpoolCall.apply, Host.rotateIfGap, if_neg (by simp [hgap]), hl.lost_and_dirty]
      exact ⟨m, old, hl⟩
  | setRxSeq seq =>
    right
    have hl' := hl.setRxSeq seq
    rw [SpoolCall.drops, Bool.or_false, SpoolCall.apply, SpoolCall.owed, hl'.lost_and_dirty]
    exact ⟨m, old, hl'⟩
  | flushMeta =>
    rw [SpoolCall.drops, Bool.or_false, SpoolCall.apply, SpoolCall.owed]
    rcases hl.flushMeta with hfail | hl'
    · exact Or.inl hfail
    · right
      refine ⟨_, old, hl'.recorded ?_⟩
      intro hlost
      rw [Host.flushMeta_spool]
      exact (hl.lostGap hlost).1

end Calls

end ReadyUp.Fleet
