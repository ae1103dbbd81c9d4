import ReadyUp.Fleet.Client

/-!
# What the client acks

Every frame acks the messages of the platform that are processed. A process that starts again
knows only the `rx_seq` in `meta.json`, which is why it is written before each such frame. The
result of that write is not looked at; where every one of them goes well, or what is acked is
in the file already, no frame acks more than the file holds.
-/
namespace ReadyUp.Fleet

open Support

section RxSeq

/-- What a call of the spool may do to `rx_seq`: the file gets the one in memory, or stays. -/
structure RxKept (h h' : Host) : Prop where
  spool : h'.spool.rxSeq = h.spool.rxSeq
  info : h'.disk.info = h.disk.info ∨ ∃ m, h'.disk.info = some m ∧ m.rxSeq = h.spool.rxSeq

namespace RxKept

variable {h h' h'' : Host}

theorem refl (h : Host) : RxKept h h := ⟨rfl, Or.inl rfl⟩

theorem trans (h₁ : RxKept h h') (h₂ : RxKept h' h'') : RxKept h h'' := by
  refine ⟨h₂.spool.trans h₁.spool, ?_⟩
  rcases h₂.info with heq | ⟨m, hm, hrx⟩
  · rw [heq]
    exact h₁.info
  · exact Or.inr ⟨m, hm, hrx.trans h₁.spool⟩

theorem given (h : Host) (outcomes : List WriteResult) : RxKept h (h.given outcomes) :=
  ⟨rfl, Or.inl rfl⟩

theorem flushMeta (h : Host) : RxKept h h.flushMeta.2 := by
  refine ⟨by rw [h.flushMeta_spool], ?_⟩
  rcases h.flushMeta_info with heq | heq
  · exact Or.inl heq
  · exact Or.inr ⟨_, heq, rfl⟩

theorem rewrite (h : Host) : RxKept h h.rewrite.2 :=
  ⟨by rw [h.rewrite_spool], Or.inl h.rewrite_info⟩

theorem append (h : Host) (msg : Message) : RxKept h (h.append msg).2 := by
  refine ⟨?_, Or.inl (h.append_info msg)⟩
  rw [h.append_spool]
  obtain ⟨s, hdrop, -, ⟨-, hs⟩ | ⟨-, hs⟩⟩ := Spool.append_cases h.spool msg
  · rw [hs]
    exact hdrop.rxSeq
  · rw [hs]
    exact hdrop.rxSeq

theorem ackUpTo (h : Host) (seq : ℤ) : RxKept h (h.ackUpTo seq) := by
  have hrx : (h.spool.ackUpTo seq).rxSeq = h.spool.rxSeq := by
    rw [Spool.ackUpTo]
    split_ifs
    · rfl
    · rfl
  have hmem : RxKept h { h with spool := h.spool.ackUpTo seq, metaDirty := true } :=
    ⟨hrx, Or.inl rfl⟩
  rw [Host.ackUpTo]
  split_ifs
  · exact refl h
  · dsimp only
    split_ifs
    · exact hmem.trans ((flushMeta _).trans (rewrite _))
    · exact hmem

theorem rotateIfGap (h : Host) (newId : Ulid) : RxKept h (h.rotateIfGap newId).2 := by
  have hmem : RxKept h { h with spool := h.spool.rotate newId, metaDirty := true } :=
    ⟨rfl, Or.inl rfl⟩
  rw [Host.rotateIfGap]
  split_ifs
  · exact hmem.trans ((flushMeta _).trans (rewrite _))
  · exact refl h

end RxKept

/-- `meta.json` has at least this `rx_seq`, and not more than the spool. -/
def Stored (p : ℤ) (h : Host) : Prop :=
  ∃ m, h.disk.info = some m ∧ p ≤ m.rxSeq ∧ m.rxSeq ≤ h.spool.rxSeq

theorem Stored.kept {p : ℤ} {h h' : Host} (hs : Stored p h) (hk : RxKept h h') : Stored p h' := by
  obtain ⟨m, hm, hp, hle⟩ := hs
  rcases hk.info with heq | ⟨m', hm', hrx⟩
  · refine ⟨m, heq.trans hm, hp, ?_⟩
    rw [hk.spool]
    exact hle
  · refine ⟨m', hm', ?_, ?_⟩
    · rw [hrx]
      exact hp.trans hle
    · rw [hrx, hk.spool]

theorem stored_openDir {h : Host} {limits : Limits} {newId : Ulid}
    (hok : (h.openDir limits newId).1 = true) : Stored 0 (h.openDir limits newId).2 := by
  have hload : ∀ (s : Spool) (d : Disk), 0 ≤ (s.load d limits newId).rxSeq := by
    intro s d
    rw [Spool.load, Spool.bumpNext, Spool.dropAcked]
    cases d.info with
    | none => exact le_rfl
    | some m =>
      simp only [Spool.loadMeta]
      split_ifs
      · exact le_rfl
      · exact le_max_left _ _
  have hflush :
      ∀ h' : Host, h'.flushMeta.1 = true → 0 ≤ h'.spool.rxSeq → Stored 0 h'.flushMeta.2 := by
    intro h' hok' hnonneg
    refine ⟨h'.spool.toMeta, ?_, hnonneg, ?_⟩
    · rw [Host.flushMeta, Host.writeAtomic, Host.write] at hok' ⊢
      cases ho : h'.outcomes.headD .ok with
      | ok => rfl
      | failed n =>
        rw [ho] at hok'
        cases hok'
    · rw [h'.flushMeta_spool]
      exact le_rfl
  rw [Host.openDir] at hok ⊢
  dsimp only at hok ⊢
  split_ifs at hok ⊢ with hmade hre
  · apply hflush _ hok
    dsimp only
    rw [Host.rewrite_spool]
    exact hload _ _

end RxSeq

/-- What a frame acks was in `meta.json` when it was sent. -/
def SentFrame.AckStored (f : SentFrame) : Prop :=
  ∃ rxSeq, f.stored = some rxSeq ∧ f.frame.ack ≤ rxSeq

instance (f : SentFrame) : Decidable f.AckStored :=
  decidable_of_iff (f.stored.any (f.frame.ack ≤ ·) = true)
    (by simp only [SentFrame.AckStored, Option.any_eq_true, decide_eq_true_eq])

namespace Client

/-- So it was with every frame of every session. -/
def AcksStored (c : Client) : Prop := ∀ l ∈ c.wire :: c.past, ∀ f ∈ l, f.AckStored

instance (c : Client) : Decidable c.AcksStored := inferInstanceAs (Decidable (∀ l ∈ _, ∀ f ∈ l, _))

/-- The file holds what was acked, and no more than what is processed. -/
structure AckInv (c : Client) : Prop where
  nonneg : Stored 0 c.host
  persisted : Stored c.session.persistedRx c.host
  processed : c.host.spool.rxSeq ≤ c.rx.processed
  frames : c.AcksStored

variable {c c' : Client}

/-- What concerns neither the spool nor the wire keeps the invariant. -/
theorem AckInv.same (hi : c.AckInv) (hs : Same c c') : c'.AckInv := by
  refine ⟨?_, ?_, ?_, ?_⟩
  · rw [hs.host]
    exact hi.nonneg
  · rw [hs.host, hs.persistedRx]
    exact hi.persisted
  · rw [hs.host]
    exact hi.processed.trans hs.processed
  · rw [AcksStored, hs.wire, hs.past]
    exact hi.frames

theorem AckInv.host (hi : c.AckInv) {h : Host} (hk : RxKept c.host h) :
    { c with host := h : Client }.AckInv :=
  ⟨hi.nonneg.kept hk, hi.persisted.kept hk, hk.spool.trans_le hi.processed, hi.frames⟩

/-- The write before a frame goes well, or `meta.json` holds what the frame acks. -/
def Covered (h : Host) (ack : ℤ) (flush : WriteResult) : Prop :=
  flush = .ok ∨ h.disk.info.any (fun m => ack ≤ m.rxSeq) = true

instance (h : Host) (ack : ℤ) (flush : WriteResult) : Decidable (Covered h ack flush) :=
  inferInstanceAs (Decidable (_ ∨ _))

theorem AckInv.persistRx (hi : c.AckInv) {flush : WriteResult}
    (hflush : Covered c.host c.rx.processed flush) :
    (c.persistRx flush).AckInv ∧ (c.persistRx flush).rx = c.rx ∧
      (c.persistRx flush).session.persistedRx = c.rx.processed := by
  have hnonneg : 0 ≤ c.rx.processed := by
    obtain ⟨m, -, hm, hle⟩ := hi.nonneg
    exact hm.trans (hle.trans hi.processed)
  rw [Client.persistRx]
  split_ifs with hnew
  · have hspool : ((c.host.setRxSeq c.rx.processed).given [flush]).flushMeta.2.spool.rxSeq =
        c.rx.processed := by
      rw [Host.flushMeta_spool, Host.given, Host.setRxSeq_spool]
    have hdisk : (c.host.setRxSeq c.rx.processed).disk = c.host.disk := by
      rw [Host.setRxSeq]
      split_ifs
      · rfl
      · rfl
    have hstored :
        Stored c.rx.processed ((c.host.setRxSeq c.rx.processed).given [flush]).flushMeta.2 := by
      rcases hflush with rfl | hany
      · refine ⟨((c.host.setRxSeq c.rx.processed).given [.ok]).spool.toMeta, rfl, ?_, ?_⟩
        · rw [Host.given, Host.setRxSeq_spool]
          exact le_rfl
        · rw [Host.flushMeta_spool]
          exact le_rfl
      · obtain ⟨m, hm, hle⟩ := (Option.any_eq_true _ _).mp hany
        have hle' : m.rxSeq ≤ c.rx.processed := by
          obtain ⟨m', hm', -, hspool'⟩ := hi.nonneg
          obtain rfl := Option.some.inj (hm.symm.trans hm')
          exact hspool'.trans hi.processed
        have hmem : Stored c.rx.processed ((c.host.setRxSeq c.rx.processed).given [flush]) := by
          refine ⟨m, ?_, by simpa using hle, ?_⟩
          · rw [Host.given]
            exact (congrArg Disk.info hdisk).trans hm
          · rw [Host.given, Host.setRxSeq_spool]
            exact hle'
        exact hmem.kept (.flushMeta _)
    obtain ⟨m, hm, hle, hspool'⟩ := hstored
    exact ⟨⟨⟨m, hm, hnonneg.trans hle, hspool'⟩, ⟨m, hm, hle, hspool'⟩, hspool.le, hi.frames⟩, rfl,
      rfl⟩
  · exact ⟨hi, rfl, (not_not.mp hnew).symm⟩

theorem AckInv.sendEnv (hi : c.AckInv) (e : Frame) (now : Now) {io : Io}
    (hio : Covered c.host c.rx.processed io.flush) : (c.sendEnv e now io).2.AckInv := by
  obtain ⟨hi', hrx, hpersisted⟩ := hi.persistRx hio
  rw [Client.sendEnv, transmit]
  split_ifs
  · refine ⟨hi'.nonneg, hi'.persisted, hi'.processed, ?_⟩
    obtain ⟨m, hm, hle, -⟩ := hi'.persisted
    rw [AcksStored, List.forall_mem_cons]
    refine ⟨?_, fun l hl => hi'.frames l (List.mem_cons_of_mem _ hl)⟩
    intro f hf
    rcases List.mem_append.mp hf with hf | hf
    · exact hi'.frames _ List.mem_cons_self f hf
    · rw [List.mem_singleton.mp hf]
      refine ⟨m.rxSeq, ?_, ?_⟩
      · dsimp only
        rw [hm]
        rfl
      · dsimp only
        rw [hrx, ← hpersisted]
        exact hle
  · exact ⟨hi'.nonneg, hi'.persisted, hi'.processed, hi'.frames⟩

theorem AckInv.sendRecord (hi : c.AckInv) (r : SpoolRecord) (now : Now) {io : Io}
    (hio : Covered c.host c.rx.processed io.flush) : (c.sendRecord r now io).AckInv := by
  have hi' := hi.sendEnv (.ofRecord r) now hio
  rw [Client.sendRecord]
  dsimp only
  split_ifs
  · exact ⟨hi'.nonneg, hi'.persisted, hi'.processed, hi'.frames⟩
  · exact hi'

theorem Covered.mono {h : Host} {ack ack' : ℤ} {flush : WriteResult} (hc : Covered h ack' flush)
    (hle : ack ≤ ack') : Covered h ack flush := by
  refine hc.imp_right ?_
  intro hany
  obtain ⟨m, hm, hack⟩ := (Option.any_eq_true _ _).mp hany
  rw [decide_eq_true_eq] at hack
  rw [hm]
  exact decide_eq_true (hle.trans hack)

/-- A call of the spool does not take away what the file holds. -/
theorem Covered.kept {h h' : Host} {ack p : ℤ} {flush : WriteResult} (hc : Covered h ack flush)
    (hs : Stored p h) (hk : RxKept h h') : Covered h' ack flush := by
  refine hc.imp_right ?_
  intro hany
  obtain ⟨m, hm, hack⟩ := (Option.any_eq_true _ _).mp hany
  rw [decide_eq_true_eq] at hack
  obtain ⟨m', hm', -, hle⟩ := hs
  obtain rfl := Option.some.inj (hm.symm.trans hm')
  obtain ⟨m', hm', hack', -⟩ := Stored.kept ⟨m, hm, hack, hle⟩ hk
  rw [hm']
  exact decide_eq_true hack'

/-- Before a frame, `meta.json` has to get what it acks. -/
def StoresAck (c : Client) : ClientEvent → Prop
  | .connect _ _ _ _ io | .next _ _ _ io | .own _ _ io => Covered c.host c.rx.processed io.flush
  | .inbound e _ _ _ now io =>
    -- a frame without a handler is done before it is answered
    Covered c.host ((c.rx.onReliable e.seq e.id).1.markDone e.seq now.ms).1.processed io.flush
  | .game _ | .drain | .store _ _ | .welcome _ _ | .markDone _ | .flush _ | .finish => True

instance (c : Client) : (e : ClientEvent) → Decidable (c.StoresAck e)
  | .connect _ _ _ _ _ | .next _ _ _ _ | .own _ _ _ | .inbound _ _ _ _ _ _ =>
    inferInstanceAs (Decidable (Covered _ _ _))
  | .game _ | .drain | .store _ _ | .welcome _ _ | .markDone _ | .flush _ | .finish =>
    inferInstanceAs (Decidable True)

theorem AckInv.sends (hi : c.AckInv) {now : Now} {io : Io}
    (hio : Covered c.host c.rx.processed io.flush) (hs : Sends c now io c') : c'.AckInv := by
  cases hs with
  | none => exact hi
  | ephemeral f _ => exact hi.sendEnv f now hio
  | record r _ _ => exact hi.sendRecord r now hio

theorem AckInv.append (hi : c.AckInv) (m : Message) (outcomes : List WriteResult) :
    (c.append m outcomes).AckInv := by
  have hi' := hi.host ((RxKept.given _ outcomes).trans (.append _ m))
  exact ⟨hi'.nonneg, hi'.persisted, hi'.processed, hi'.frames⟩

theorem AckInv.connect (hi : c.AckInv) (newId : Ulid) (outcomes : List WriteResult)
    (hello : Bytes) (now : Now) {io : Io} (hio : Covered c.host c.rx.processed io.flush) :
    (c.connect newId outcomes hello now io).AckInv := by
  have hk := (RxKept.given c.host outcomes).trans (.rotateIfGap _ newId)
  have hnew : { c with
      host := ((c.host.given outcomes).rotateIfGap newId).2
      session := {}
      wire := []
      past := c.wire :: c.past
      phase := .hello ((c.host.given outcomes).rotateIfGap newId).1 : Client }.AckInv := by
    refine ⟨hi.nonneg.kept hk, ?_, hk.spool.trans_le hi.processed, ?_⟩
    · obtain ⟨m, hm, hpos, hle⟩ := hi.nonneg.kept hk
      exact ⟨m, hm, (by decide : (-1 : ℤ) ≤ 0).trans hpos, hle⟩
    · rw [AcksStored, List.forall_mem_cons]
      exact ⟨fun f hf => (by cases hf), hi.frames⟩
  have hsent := hnew.sendEnv (.ephemeral (ascii "hello") hello [] 0) now (hio.kept hi.nonneg hk)
  rw [Client.connect]
  dsimp only
  split_ifs
  · exact hsent
  · exact hsent.same (.queues _ _ _ _ _ _)

theorem AckInv.dispatch (hi : c.AckInv) (e : Inbound) (answer : Answer)
    (storing : List WriteResult) (now : Now)
    {io : Io}
    (hio :
      Covered c.host ((c.rx.onReliable e.seq e.id).1.markDone e.seq now.ms).1.processed io.flush) :
    (c.dispatch e answer storing now io).AckInv := by
  obtain ⟨c₁, hs, -, hle, hsends | ⟨-, -, happend⟩⟩ := c.dispatch_cases e answer storing now io
  · refine (hi.same hs).sends ?_ hsends
    rw [hs.host]
    exact hio.mono hle
  · rw [happend]
    exact (hi.same hs).append _ storing

theorem AckInv.step (hi : c.AckInv) {e : ClientEvent} (hstores : c.StoresAck e) :
    (c.step e).AckInv := by
  rw [Client.step]
  split_ifs
  · cases e with
    | game call => exact hi.same (c.same_game call).1
    | drain => exact hi.same (.queues _ _ _ _ _ _)
    | store now outcomes =>
      obtain ⟨c₁, hs, -, -, heq | ⟨o, -, -, heq⟩⟩ := c.store_cases now outcomes
      · rw [apply, heq]
        exact hi.same hs
      · rw [apply, heq]
        exact (hi.same hs).append _ outcomes
    | connect newId outcomes hello now io => exact hi.connect newId outcomes hello now hstores
    | welcome w outcomes =>
      rw [apply]
      split
      · have hi' := hi.host ((RxKept.given c.host outcomes).trans (.ackUpTo _
          (if 0 < w.ack then max w.platformLastRxSeq w.ack else w.platformLastRxSeq)))
        exact ⟨hi'.nonneg, hi'.persisted, hi'.processed, hi'.frames⟩
      · exact hi
    | next snapshot epoch now io =>
      obtain ⟨c₁, hs, hrx, -, hsends⟩ := c.next_cases snapshot epoch now io
      refine (hi.same hs).sends ?_ hsends
      rw [hs.host, hrx]
      exact hstores
    | own f now io =>
      obtain ⟨c₁, hs, hrx, -, hsends⟩ := c.sendOwn_cases f now io
      refine (hi.same hs).sends ?_ hsends
      rw [hs.host, hrx]
      exact hstores
    | markDone nowMs => exact hi.same ⟨rfl, rfl, rfl, rfl, rfl, rfl, c.rx.le_markAll _ _⟩
    | flush result => exact hi.host ((RxKept.given _ _).trans (.flushMeta _))
    | inbound e answer acking storing now io =>
      rw [apply, handleInbound]
      dsimp only
      have hk := (RxKept.given c.host acking).trans (.ackUpTo _ e.ack)
      split_ifs
      · exact hi
      · exact (hi.host hk).dispatch e answer storing now (hstores.kept hi.nonneg hk)
      · exact hi.dispatch e answer storing now hstores
    | finish => exact hi.same (.queues _ _ _ _ _ _)
  · exact hi

theorem ackInv_start (config : ClientConfig) {h : Host} {limits : Limits} {newId : Ulid}
    (hopen : (h.openDir limits newId).1 = true) :
    (start config (h.openDir limits newId).2).AckInv := by
  obtain ⟨m, hm, hnonneg, hle⟩ := stored_openDir hopen
  refine ⟨⟨m, hm, hnonneg, hle⟩, ⟨m, hm, (by decide : (-1 : ℤ) ≤ 0).trans hnonneg, hle⟩,
    le_max_right _ _, ?_⟩
  intro l hl f hf
  rw [List.mem_singleton.mp hl] at hf
  cases hf

/-- No frame of any session acks more than `meta.json` holds at that moment. -/
theorem acks_stored {config : ClientConfig} {h : Host} {limits : Limits} {newId : Ulid}
    {es : List ClientEvent} (hopen : (h.openDir limits newId).1 = true)
    (hes : Guarded step StoresAck (start config (h.openDir limits newId).2) es) :
    (run step (start config (h.openDir limits newId).2) es).AcksStored :=
  (hes.invariant (ackInv_start config hopen) fun _ _ hi hstores => hi.step hstores).frames

section Examples

/-- The first message of the platform, of a type that no plugin handles. -/
def unknownFrame : Inbound := ⟨1, ascii "cmd.unknown", "a", 1, 0⟩

/-- A session in which the answer to a message is the first frame to ack it. -/
def answerRun (flush : WriteResult) : List ClientEvent :=
  [.connect default [] (ascii "\x7b\x7d") ⟨default, 1⟩ ⟨.ok, true⟩,
    .welcome ⟨false, 0, 0⟩ [],
    .next [] 0 ⟨default, 2⟩ ⟨.ok, true⟩,
    .inbound unknownFrame ⟨false, false, ascii "\x7b\x7d", 0⟩ [] [] ⟨default, 3⟩ ⟨flush, true⟩]

theorem acks_stored_answerRun :
    (run step (start {} ((Host.new .empty).openDir ⟨10, 1000⟩ default).2)
      (answerRun .ok)).AcksStored :=
  acks_stored (by decide) (by decide)

theorem ack_not_stored :
    ¬(run step (start {} ((Host.new .empty).openDir ⟨10, 1000⟩ default).2)
      (answerRun (.failed 0))).AcksStored := by
  decide

end Examples

end Client

end ReadyUp.Fleet
