import ReadyUp.Fleet.Client
import ReadyUp.Fleet.SpoolCrash

/-!
# The order of a session

A session sends the records of the spool in the order of their seqs. Between two of its
reliable frames no seq is left out as long as no message is dropped before it was sent: the
overflow of a full spool may do that while the session goes on, since the stream is renumbered
only at the next connect.
-/
namespace ReadyUp.Fleet

open Support

def reliableSeqs (l : List SentFrame) : List ℤ := (l.map fun f => f.frame.seq).filter (· ≠ 0)

/-- Each reliable frame has the seq after that of the one before. -/
def InOrder (l : List SentFrame) : Prop := (reliableSeqs l).IsChain fun a b => b = a + 1

instance (l : List SentFrame) : Decidable (InOrder l) :=
  inferInstanceAs (Decidable (List.IsChain _ _))

theorem reliableSeqs_snoc (l : List SentFrame) (f : SentFrame) :
    reliableSeqs (l ++ [f]) = reliableSeqs l ++ if f.frame.seq = 0 then [] else [f.frame.seq] := by
  rw [reliableSeqs, List.map_append, List.filter_append, List.map_singleton, List.filter_singleton]
  by_cases hseq : f.frame.seq = 0
  · simp [hseq, reliableSeqs]
  · simp [hseq, reliableSeqs]

namespace Client

variable {c c' : Client}

section Cursor

/-- The records that a session has not sent are those right after its last one. -/
structure Ahead (s : Spool) (lastSentSeq : ℤ) : Prop where
  nonneg : 0 ≤ lastSentSeq
  numbered : Numbered (lastSentSeq + 1) (seqs (after lastSentSeq s.recs))
  last : lastSentSeq + (after lastSentSeq s.recs).length = s.lastSeq

theorem ahead_of_consecutive {s : Spool} (hord : s.Ordered) (hcons : s.Consecutive) :
    Ahead s s.ackedSeq := by
  have hafter := hord.after_recs le_rfl
  refine ⟨hord.nonneg, ?_, ?_⟩
  · rw [hafter]
    exact hcons.numbered
  · rw [hafter]
    exact hcons.last

variable {s : Spool} {sent : ℤ}

theorem Ahead.next (ha : Ahead s sent) {r : SpoolRecord}
    (hr : s.recs.find? (fun r => sent < r.seq) = some r) :
    r.seq = sent + 1 ∧ Ahead s (sent + 1) := by
  have hhead : (after sent s.recs).head? = some r := by
    have hnot : (fun r : SpoolRecord => decide (r.seq ≤ sent)) = fun r =>
        !decide (sent < r.seq) := by
      funext x
      rw [← decide_not, decide_eq_decide, not_lt]
    rw [after, hnot, ← List.find?_eq_head?_dropWhile_not, hr]
  obtain ⟨rest, hrest⟩ : ∃ rest, after sent s.recs = r :: rest := by
    cases hrecs : after sent s.recs with
    | nil =>
      rw [hrecs] at hhead
      cases hhead
    | cons x rest =>
      rw [hrecs] at hhead
      exact ⟨rest, by rw [Option.some.inj hhead]⟩
  have hlen : 1 ≤ (after sent s.recs).length := by
    rw [hrest, List.length_cons]
    omega
  have hlast := ha.last
  have hnonneg := ha.nonneg
  have hnum := ha.numbered
  obtain ⟨hnum', hlast'⟩ := numbered_after hnum hlast (a := sent + 1) (by omega) (by omega)
  rw [after_after (by omega)] at hnum' hlast'
  rw [hrest] at hnum
  exact ⟨hnum.1, by omega, hnum', hlast'⟩

/-- `Append` in a session, when it drops nothing that is still to be sent. -/
theorem Ahead.append (ha : Ahead s sent) (hord : s.Ordered) {m : Message}
    (hkeep : ∀ r ∈ s.recs, sent < r.seq → r ∈ (s.append m).spool.recs) :
    Ahead (s.append m).spool sent := by
  obtain ⟨s', hdrop, -, hcases⟩ := Spool.append_cases s m
  have hkept : ∀ r ∈ s.recs, sent < r.seq → r ∈ s'.recs := by
    intro r hr hlt
    have hmem := hkeep r hr hlt
    obtain ⟨-, hs⟩ | ⟨-, hs⟩ := hcases
    · rw [hs] at hmem
      exact hmem
    · rw [hs] at hmem
      rcases List.mem_append.mp hmem with hmem | hmem
      · exact hmem
      · have hbelow := hord.below r hr
        rw [List.mem_singleton.mp hmem, Message.record, hdrop.nextSeq] at hbelow
        exact absurd hbelow (lt_irrefl _)
  have hafter : after sent s'.recs = after sent s.recs :=
    after_of_sublist hord.increasing hdrop.recs hkept
  have hlast := ha.last
  rw [Spool.lastSeq] at hlast
  obtain ⟨-, hs⟩ | ⟨-, hs⟩ := hcases
  · rw [hs]
    refine ⟨ha.nonneg, ?_, ?_⟩
    · rw [hafter]
      exact ha.numbered
    · rw [Spool.lastSeq, hafter, hdrop.nextSeq]
      exact hlast
  · have hnext : sent < (m.record s'.nextSeq).seq := by
      rw [Message.record, hdrop.nextSeq]
      dsimp only
      omega
    have hpush : after sent (s'.push m).recs = after sent s.recs ++ [m.record s'.nextSeq] := by
      rw [Spool.push, after_snoc hnext, hafter]
    rw [hs]
    refine ⟨ha.nonneg, ?_, ?_⟩
    · rw [hpush, seqs_append, numbered_append, length_seqs]
      refine ⟨ha.numbered, ?_, trivial⟩
      rw [Message.record, hdrop.nextSeq]
      dsimp only
      omega
    · rw [hpush, List.length_append, List.length_singleton, Spool.lastSeq, Spool.push,
        hdrop.nextSeq]
      push_cast
      omega

theorem Ahead.ackUpTo (ha : Ahead s sent) {seq : ℤ} (hseq : seq ≤ sent) :
    Ahead (s.ackUpTo seq) sent := by
  rw [Spool.ackUpTo]
  split_ifs
  · exact ha
  · have hafter : after sent (after (min seq s.lastSeq) s.recs) = after sent s.recs :=
      after_after ((min_le_left _ _).trans hseq) _
    refine ⟨ha.nonneg, ?_, ?_⟩
    · rw [Spool.dropAcked]
      dsimp only
      rw [hafter]
      exact ha.numbered
    · rw [Spool.dropAcked]
      dsimp only
      rw [hafter]
      exact ha.last

end Cursor

/-- The frames of the present session end at its cursor. -/
def Sent (l : List SentFrame) (lastSentSeq : ℤ) : Prop :=
  ∃ base, Numbered (base + 1) (reliableSeqs l) ∧ base + (reliableSeqs l).length = lastSentSeq

def SessionsInOrder (c : Client) : Prop := ∀ l ∈ c.wire :: c.past, InOrder l

instance (c : Client) : Decidable c.SessionsInOrder := inferInstanceAs (Decidable (∀ l ∈ _, _))

/-- Every session so far was in order, and the present one goes on so. -/
structure OrderInv (c : Client) : Prop where
  ordered : c.host.spool.Ordered
  consecutive : c.host.spool.gap = false → c.host.spool.Consecutive
  frames : c.SessionsInOrder
  waiting : c.phase.stage = .waiting → c.host.spool.gap = false ∧ reliableSeqs c.wire = []
  online : c.phase.stage = .online →
    Ahead c.host.spool c.session.lastSentSeq ∧ Sent c.wire c.session.lastSentSeq

theorem OrderInv.same (hi : c.OrderInv) (hs : Same c c') (hstage : c'.phase.stage = c.phase.stage) :
    c'.OrderInv := by
  refine ⟨?_, ?_, ?_, ?_, ?_⟩
  · rw [hs.host]
    exact hi.ordered
  · rw [hs.host]
    exact hi.consecutive
  · rw [SessionsInOrder, hs.wire, hs.past]
    exact hi.frames
  · rw [hstage, hs.host, hs.wire]
    exact hi.waiting
  · rw [hstage, hs.host, hs.wire, hs.lastSentSeq]
    exact hi.online

theorem OrderInv.leave (hi : c.OrderInv) (hs : Same c c')
    (hstage : c'.phase.stage = .away) : c'.OrderInv := by
  refine ⟨?_, ?_, ?_, ?_, ?_⟩
  · rw [hs.host]
    exact hi.ordered
  · rw [hs.host]
    exact hi.consecutive
  · rw [SessionsInOrder, hs.wire, hs.past]
    exact hi.frames
  · intro h
    rw [hstage] at h
    cases h
  · intro h
    rw [hstage] at h
    cases h

theorem ordered_rxSeq {s : Spool} (h : s.Ordered) (rxSeq : ℤ) : { s with rxSeq : Spool }.Ordered :=
  ⟨h.nonneg, h.acked, h.increasing, h.above, h.below, h.bytes⟩

theorem OrderInv.persistRx (hi : c.OrderInv) (flush : WriteResult) :
    (c.persistRx flush).OrderInv := by
  obtain ⟨rxSeq, hspool⟩ := c.persistRx_spool flush
  refine ⟨?_, ?_, ?_, ?_, ?_⟩
  · rw [hspool]
    exact ordered_rxSeq hi.ordered rxSeq
  · rw [hspool]
    intro hgap
    exact ⟨(hi.consecutive hgap).numbered, (hi.consecutive hgap).last⟩
  · rw [SessionsInOrder, persistRx_wire, persistRx_past]
    exact hi.frames
  · rw [persistRx_phase, persistRx_wire, hspool]
    exact hi.waiting
  · rw [persistRx_phase, persistRx_wire, persistRx_lastSentSeq, hspool]
    intro hstage
    obtain ⟨ha, hsent⟩ := hi.online hstage
    exact ⟨⟨ha.nonneg, ha.numbered, ha.last⟩, hsent⟩

theorem OrderInv.sendEphemeral (hi : c.OrderInv) {f : Frame} (hf : f.seq = 0)
    (now : Now) (io : Io) : (c.sendEnv f now io).2.OrderInv := by
  have hi' := hi.persistRx io.flush
  rw [sendEnv, transmit]
  split_ifs
  · have hwire : reliableSeqs ((c.persistRx io.flush).wire ++
        [⟨{ f.stamp now with ack := (c.persistRx io.flush).rx.processed },
          (c.persistRx io.flush).host.disk.info.map Meta.rxSeq⟩]) =
          reliableSeqs (c.persistRx io.flush).wire := by
      rw [reliableSeqs_snoc, if_pos, List.append_nil]
      exact hf
    refine ⟨hi'.ordered, hi'.consecutive, ?_, ?_, ?_⟩
    · rw [SessionsInOrder, List.forall_mem_cons]
      refine ⟨?_, fun l hl => hi'.frames l (List.mem_cons_of_mem _ hl)⟩
      rw [InOrder, hwire]
      exact hi'.frames _ List.mem_cons_self
    · dsimp only
      rw [hwire]
      exact hi'.waiting
    · dsimp only [Sent]
      rw [hwire]
      exact hi'.online
  · exact ⟨hi'.ordered, hi'.consecutive, hi'.frames, hi'.waiting, hi'.online⟩

theorem OrderInv.sendRecord (hi : c.OrderInv) (hstage : c.phase.stage = .online) {r : SpoolRecord}
    (hr : c.unsent = some r) (now : Now) (io : Io) : (c.sendRecord r now io).OrderInv := by
  have hi' := hi.persistRx io.flush
  obtain ⟨ha, hsent⟩ := hi'.online (by rw [persistRx_phase]; exact hstage)
  obtain ⟨rxSeq, hspool⟩ := c.persistRx_spool io.flush
  have hr' : (c.persistRx io.flush).host.spool.recs.find?
      (fun r => (c.persistRx io.flush).session.lastSentSeq < r.seq) = some r := by
    rw [hspool, persistRx_lastSentSeq]
    exact hr
  obtain ⟨hseq, hnext⟩ := ha.next hr'
  obtain ⟨base, hnum, hlen⟩ := hsent
  have hnonneg := ha.nonneg
  rw [Client.sendRecord, sendEnv, transmit]
  cases io.sent with
  | true =>
    rw [if_pos rfl]
    dsimp only
    rw [if_pos rfl]
    have hwire : reliableSeqs ((c.persistRx io.flush).wire ++
        [⟨{ (Frame.ofRecord r).stamp now with ack := (c.persistRx io.flush).rx.processed },
          (c.persistRx io.flush).host.disk.info.map Meta.rxSeq⟩]) =
        reliableSeqs (c.persistRx io.flush).wire ++ [r.seq] := by
      rw [reliableSeqs_snoc, if_neg]
      · rfl
      · dsimp only [Frame.stamp, Frame.ofRecord]
        omega
    have hnum' : Numbered (base + 1) (reliableSeqs (c.persistRx io.flush).wire ++ [r.seq]) := by
      rw [numbered_append]
      refine ⟨hnum, ?_, trivial⟩
      omega
    refine ⟨hi'.ordered, hi'.consecutive, ?_, ?_, ?_⟩
    · rw [SessionsInOrder, List.forall_mem_cons]
      refine ⟨?_, fun l hl => hi'.frames l (List.mem_cons_of_mem _ hl)⟩
      rw [InOrder, hwire]
      exact hnum'.isChain
    · dsimp only
      rw [persistRx_phase, hstage]
      exact fun h => (by cases h)
    · intro _
      dsimp only
      rw [hseq]
      refine ⟨hnext, base, ?_, ?_⟩
      · rw [hwire]
        exact hnum'
      · rw [hwire, List.length_append, List.length_singleton]
        push_cast
        omega
  | false => exact ⟨hi'.ordered, hi'.consecutive, hi'.frames, hi'.waiting, hi'.online⟩

theorem OrderInv.sends (hi : c.OrderInv) {now : Now} {io : Io}
    (hs : Sends c now io c') : c'.OrderInv := by
  cases hs with
  | none => exact hi
  | ephemeral f hf => exact hi.sendEphemeral hf now io
  | record r hstage hr => exact hi.sendRecord hstage hr now io

/-- `Append` drops no record that this session has not sent. -/
def KeepsUnsent (c : Client) (m : Message) : Prop :=
  ∀ r ∈ c.host.spool.recs, c.session.lastSentSeq < r.seq → r ∈ (c.host.spool.append m).spool.recs

theorem OrderInv.append (hi : c.OrderInv) {m : Message}
    (hkeep : c.phase.stage = .online → c.KeepsUnsent m)
    (hstage : c.phase.stage ≠ .waiting) (outcomes : List WriteResult) :
    (c.append m outcomes).OrderInv := by
  refine ⟨?_, ?_, hi.frames, fun h => absurd h hstage, ?_⟩
  · rw [append_spool]
    exact hi.ordered.append m
  · rw [append_spool]
    intro hgap
    have hgap₀ : c.host.spool.gap = false := by
      rw [Bool.eq_false_iff] at hgap ⊢
      exact fun hg => hgap (Spool.append_gap hg m)
    rw [(Spool.append_of_not_gap hgap).2.2]
    exact (hi.consecutive hgap₀).push m
  · rw [append_spool]
    intro honline
    obtain ⟨ha, hsent⟩ := hi.online honline
    exact ⟨ha.append hi.ordered (hkeep honline), hsent⟩

theorem gap_ackUpTo (s : Spool) (seq : ℤ) : (s.ackUpTo seq).gap = s.gap := by
  rw [Spool.ackUpTo]
  split_ifs
  · rfl
  · rfl

theorem OrderInv.ackUpTo (hi : c.OrderInv) {seq : ℤ} (hseq : seq ≤ c.session.lastSentSeq)
    (outcomes : List WriteResult) : (c.ackUpTo seq outcomes).OrderInv := by
  refine ⟨?_, ?_, hi.frames, ?_, ?_⟩
  · rw [ackUpTo_spool]
    exact hi.ordered.ackUpTo seq
  · rw [ackUpTo_spool, gap_ackUpTo]
    intro hgap
    exact (hi.consecutive hgap).ackUpTo hi.ordered seq
  · rw [ackUpTo_spool, gap_ackUpTo]
    exact hi.waiting
  · rw [ackUpTo_spool]
    intro honline
    obtain ⟨ha, hsent⟩ := hi.online honline
    exact ⟨ha.ackUpTo hseq, hsent⟩

theorem OrderInv.connect (hi : c.OrderInv) (newId : Ulid) (outcomes : List WriteResult)
    (hello : Bytes) (now : Now) (io : Io) : (c.connect newId outcomes hello now io).OrderInv := by
  have hspool : ((c.host.given outcomes).rotateIfGap newId).2.spool =
      if c.host.spool.gap then c.host.spool.rotate newId else c.host.spool :=
        Host.rotateIfGap_spool _ newId
  have hgap : ((c.host.given outcomes).rotateIfGap newId).2.spool.gap = false := by
    rw [hspool]
    split_ifs with hg
    · rfl
    · exact Bool.eq_false_iff.mpr hg
  have hnew : { c with
      host := ((c.host.given outcomes).rotateIfGap newId).2
      session := {}
      wire := []
      past := c.wire :: c.past
      phase := .hello ((c.host.given outcomes).rotateIfGap newId).1 : Client }.OrderInv := by
    refine ⟨?_, ?_, ?_, fun _ => ⟨hgap, rfl⟩, fun h => (by cases h)⟩
    · dsimp only
      rw [hspool]
      split_ifs
      · exact hi.ordered.rotate newId
      · exact hi.ordered
    · intro _
      dsimp only
      rw [hspool]
      split_ifs with hg
      · exact Spool.consecutive_rotate _ newId
      · exact hi.consecutive (Bool.eq_false_iff.mpr hg)
    · rw [SessionsInOrder, List.forall_mem_cons]
      exact ⟨.nil, hi.frames⟩
  have hsent := hnew.sendEphemeral (f := .ephemeral (ascii "hello") hello [] 0) rfl now io
  rw [Client.connect]
  dsimp only
  split_ifs
  · exact hsent
  · exact hsent.leave (.queues _ _ _ _ _ _) rfl

theorem OrderInv.resume (hi : c.OrderInv) (hstage : c.phase.stage = .waiting) (rotated : Bool)
    (w : Welcome) (outcomes : List WriteResult) : (c.resume rotated w outcomes).OrderInv := by
  obtain ⟨hgap, hwire⟩ := hi.waiting hstage
  have hcons := (hi.consecutive hgap).ackUpTo hi.ordered
    (if 0 < w.ack then max w.platformLastRxSeq w.ack else w.platformLastRxSeq)
  have hord :=
    hi.ordered.ackUpTo (if 0 < w.ack then max w.platformLastRxSeq w.ack else w.platformLastRxSeq)
  refine ⟨?_, ?_, hi.frames, fun h => (by cases h), ?_⟩
  · dsimp only [Client.resume]
    rw [ackUpTo_spool]
    exact hord
  · intro _
    dsimp only [Client.resume]
    rw [ackUpTo_spool]
    exact hcons
  · intro _
    dsimp only [Client.resume]
    rw [ackUpTo_spool]
    refine ⟨ahead_of_consecutive hord hcons, ?_⟩
    rw [Sent, Client.ackUpTo]
    dsimp only
    rw [hwire]
    exact ⟨_, trivial, add_zero _⟩

/-- While a session is online the spool drops nothing that it has not sent, and the platform
acks nothing else than what it was sent. -/
def SendsAll (c : Client) : ClientEvent → Prop
  | .store now _ =>
    c.phase.stage = .online → ∀ o ∈ c.queued, o.reliable = true → c.KeepsUnsent (message o now)
  | .inbound e answer acking _ now _ =>
    e.ack ≤ c.session.lastSentSeq ∧
      (e.type = ascii "auth.rotate" → answer.tokenSaved = true →
        (if 0 < e.ack then c.ackUpTo e.ack acking else c).KeepsUnsent (authRotated e now))
  | .game _ | .drain | .connect _ _ _ _ _ | .welcome _ _ | .next _ _ _ _ | .own _ _ _ | .markDone
      _ | .flush _
  | .finish => True

instance (c : Client) (m : Message) : Decidable (c.KeepsUnsent m) :=
  inferInstanceAs (Decidable (∀ r ∈ _, _ → _))

instance (c : Client) : (e : ClientEvent) → Decidable (c.SendsAll e)
  | .store _ _ => inferInstanceAs (Decidable (_ → ∀ o ∈ c.queued, _ → _))
  | .inbound _ _ _ _ _ _ => inferInstanceAs (Decidable (_ ∧ (_ → _ → _)))
  | .game _ | .drain | .connect _ _ _ _ _ | .welcome _ _ | .next _ _ _ _ | .own _ _ _ | .markDone
      _ | .flush _
  | .finish => inferInstanceAs (Decidable True)

theorem stage_of_queued {o : Out} (h : c.queued = some o) : c.phase.stage ≠ .waiting := by
  rw [queued] at h
  cases hphase : c.phase with
  | hello rotated =>
    rw [hphase] at h
    cases h
  | _ =>
    intro hstage
    cases hstage

theorem OrderInv.store (hi : c.OrderInv) {now : Now} {outcomes : List WriteResult}
    (hall : c.SendsAll (.store now outcomes)) : (c.store now outcomes).OrderInv := by
  obtain ⟨c₁, hs, -, hstage, heq | ⟨o, ho, hreliable, heq⟩⟩ := c.store_cases now outcomes
  · rw [heq]
    exact hi.same hs hstage
  · rw [heq]
    apply (hi.same hs hstage).append
    · rw [KeepsUnsent, hstage, hs.host, hs.lastSentSeq]
      intro honline
      exact hall honline o ho hreliable
    · rw [hstage]
      exact stage_of_queued ho

theorem OrderInv.dispatch (hi : c.OrderInv) (hstage : c.phase.stage = .online) {e : Inbound}
    {answer : Answer} {now : Now} (hkeep : e.type = ascii "auth.rotate" → answer.tokenSaved = true →
      c.KeepsUnsent (authRotated e now)) (storing : List WriteResult) (io : Io) :
    (c.dispatch e answer storing now io).OrderInv := by
  obtain ⟨c₁, hs, hphase, -, hsends | ⟨htype, hsaved, heq⟩⟩ :=
    c.dispatch_cases e answer storing now io
  · exact (hi.same hs (by rw [hphase])).sends hsends
  · rw [heq]
    apply (hi.same hs (by rw [hphase])).append
    · rw [KeepsUnsent, hs.host, hs.lastSentSeq]
      exact fun _ => hkeep htype hsaved
    · rw [hphase, hstage]
      exact fun h => (by cases h)

theorem OrderInv.step (hi : c.OrderInv) {e : ClientEvent} (hall : c.SendsAll e) :
    (c.step e).OrderInv := by
  rw [Client.step]
  split_ifs with hen
  · cases e with
    | game call => exact hi.same (c.same_game call).1 (by rw [apply, (c.same_game call).2])
    | drain =>
      have hsame : Same c (c.apply .drain) := .queues _ _ _ _ _ _
      apply hi.same hsame
      rw [enabled] at hen
      rw [apply]
      by_cases hoff : c.phase = .offline
      · rw [if_pos hoff, hoff]
        rfl
      · have hsteady : c.phase = .steady := by
          simp only [hoff, decide_false, Bool.false_or, Bool.and_eq_true, decide_eq_true_eq] at hen
          exact hen.1.1
        rw [if_neg hoff, hsteady]
        rfl
    | store now outcomes => exact hi.store hall
    | connect newId outcomes hello now io => exact hi.connect newId outcomes hello now io
    | welcome w outcomes =>
      dsimp only [apply]
      cases hphase : c.phase with
      | hello rotated => exact hi.resume (by rw [hphase]; rfl) rotated w outcomes
      | _ => exact hi
    | next snapshot epoch now io =>
      obtain ⟨c₁, hs, -, hstage, hsends⟩ := c.next_cases snapshot epoch now io
      exact (hi.same hs hstage).sends hsends
    | own f now io =>
      obtain ⟨c₁, hs, -, hphase, hsends⟩ := c.sendOwn_cases f now io
      exact (hi.same hs (by rw [hphase])).sends hsends
    | markDone nowMs => exact hi.same ⟨rfl, rfl, rfl, rfl, rfl, rfl, c.rx.le_markAll _ _⟩ rfl
    | flush result =>
      have hspool : ((c.host.given [result]).flushMeta.2).spool = c.host.spool :=
        Host.flushMeta_spool _
      refine ⟨?_, ?_, hi.frames, ?_, ?_⟩
      · rw [apply, hspool]
        exact hi.ordered
      · rw [apply, hspool]
        exact hi.consecutive
      · rw [apply, hspool]
        exact hi.waiting
      · rw [apply, hspool]
        exact hi.online
    | inbound e answer acking storing now io =>
      have hsteady : c.phase.stage = .online := by
        rw [enabled, Bool.and_eq_true, decide_eq_true_eq] at hen
        rw [hen.1]
        rfl
      obtain ⟨hack, hkeep⟩ := hall
      rw [apply, handleInbound]
      split_ifs with hv hpos
      · exact hi
      · rw [if_pos hpos] at hkeep
        exact (hi.ackUpTo hack acking).dispatch hsteady hkeep storing io
      · rw [if_neg hpos] at hkeep
        exact hi.dispatch hsteady hkeep storing io
    | finish => exact hi.leave (.queues _ _ _ _ _ _) rfl
  · exact hi

theorem orderInv_start (config : ClientConfig) {h : Host} (hord : h.spool.Ordered)
    (hcons : h.spool.gap = false → h.spool.Consecutive) : (start config h).OrderInv := by
  refine ⟨hord, hcons, ?_, fun hstage => (by cases hstage), fun hstage => (by cases hstage)⟩
  intro l hl
  rw [List.mem_singleton.mp hl]
  exact .nil

/-- The sessions of a client that starts over any safe spool: in each of them the reliable
frames have consecutive seqs. -/
theorem sessions_inOrder {spool : List SpoolEvent} {config : ClientConfig} {es : List ClientEvent}
    (hspool : Guarded SpoolRun.step SpoolRun.Safe .new spool)
    (hes : Guarded step SendsAll (start config (run SpoolRun.step .new spool).host) es) :
    (run step (start config (run SpoolRun.step .new spool).host) es).SessionsInOrder := by
  have hi := SpoolRun.inv_run hspool
  exact (hes.invariant (orderInv_start config hi.base.ordered hi.consecutive) fun _ _ hi hall =>
    hi.step hall).frames

section Examples

def critical : GameCall := .send (ascii "event.round_end") (ascii "\x7b\x7d") 0 true []

def compactable : GameCall := .send (ascii "event.kill") (ascii "\x7b\x7d") 0 true []

/-- The time of every step, and frames that all go well. -/
def tick : Now := ⟨default, 1⟩

/-- A session that has sent one message, which the platform has not acked. -/
def oneSent : List ClientEvent :=
  [.connect default [] (ascii "\x7b\x7d") tick ⟨.ok, true⟩, .welcome ⟨false, 0, 0⟩ [],
    .next [] 0 tick ⟨.ok, true⟩, .game critical, .drain, .store tick [],
    .next [] 0 tick ⟨.ok, true⟩, .next [] 0 tick ⟨.ok, true⟩, .next [] 0 tick ⟨.ok, true⟩]

/-- Messages in one pass, and the frames for them. -/
def burst (calls : List GameCall) : List ClientEvent :=
  calls.map .game ++ .drain :: List.replicate calls.length (.store tick []) ++
    List.replicate (calls.length + 2) (.next [] 0 tick ⟨.ok, true⟩)

theorem sessions_inOrder_burst :
    (run step (start {} (run SpoolRun.step .new [.call (.openDir ⟨3, 1000⟩ default) []]).host)
      (oneSent ++ burst [compactable, compactable])).SessionsInOrder :=
  sessions_inOrder (by decide) (by decide)

/-- Three messages for a spool that has room for two: the first of them is dropped unsent. -/
theorem not_inOrder_burst :
    ¬(run step (start {} (run SpoolRun.step .new [.call (.openDir ⟨3, 1000⟩ default) []]).host)
      (oneSent ++ burst [compactable, compactable, compactable])).SessionsInOrder := by
  decide

end Examples

end Client

end ReadyUp.Fleet
