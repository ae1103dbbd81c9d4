import ReadyUp.Fleet.SpoolFiles

/-!
# A running spool and its files

`Live` ties the memory of a running spool to its files: the log holds the records, with acked
ones before them, and the meta is that of the spool or an earlier one. Every call keeps it as
long as no write fails, and the files of a live spool keep their promise unless a drop is not
on record yet.
-/
namespace ReadyUp.Fleet

open Support

section Writes

namespace Host

variable (h : Host)

theorem writeAtomic_cases (done : Disk) :
    (h.writeAtomic done).2.failed = true ∨
      h.writeAtomic done = (true, { h with
        disk := done, outcomes := h.outcomes.tail, crashes := h.crashes ++ [h.disk] }) := by
  rw [writeAtomic, write]
  cases h.outcomes.headD .ok with
  | ok => exact Or.inr rfl
  | failed n => exact Or.inl rfl

theorem flushMeta_cases :
    h.flushMeta.2.failed = true ∨
      h.flushMeta = (true, { h with
        disk := { h.disk with info := some h.spool.toMeta }
        metaDirty := false
        outcomes := h.outcomes.tail
        crashes := h.crashes ++ [h.disk] }) := by
  rw [flushMeta]
  rcases h.writeAtomic_cases { h.disk with info := some h.spool.toMeta } with hfail | hok
  · exact Or.inl hfail
  · right
    rw [hok]
    simp

theorem rewrite_cases :
    h.rewrite.2.failed = true ∨
      h.rewrite = (true, { h with
        disk := { h.disk with log := h.spool.recs.map LogLine.whole }
        logOpen := true
        logBytes := ((h.spool.recs.map LogLine.whole).map LogLine.cut).sum
        outcomes := h.outcomes.tail
        crashes := h.crashes ++ [h.disk] }) := by
  rw [rewrite]
  rcases h.writeAtomic_cases { h.disk with log := h.spool.recs.map LogLine.whole } with hfail | hok
  · exact Or.inl hfail
  · right
    rw [hok]
    simp

theorem appendLine_cases (hopen : h.logOpen = true) (r : SpoolRecord) :
    (h.appendLine r).2.failed = true ∨
      h.appendLine r = (true, { h with
        disk := { h.disk with log := h.disk.log ++ [.whole r] }
        logBytes := h.logBytes + r.line.length
        outcomes := h.outcomes.tail
        crashes := h.crashes ++ h.disk ::
          (List.range r.text.length).map fun n => withPart h.disk r (n + 1) }) := by
  rw [appendLine, if_pos hopen, write]
  cases h.outcomes.headD .ok with
  | ok => exact Or.inr rfl
  | failed n => exact Or.inl rfl

@[simp] theorem writeAtomic_spool (done : Disk) : (h.writeAtomic done).2.spool = h.spool := by
  rw [writeAtomic, write]
  cases h.outcomes.headD .ok <;> rfl

@[simp] theorem flushMeta_spool : h.flushMeta.2.spool = h.spool := h.writeAtomic_spool _

@[simp] theorem rewrite_spool : h.rewrite.2.spool = h.spool := h.writeAtomic_spool _

@[simp] theorem appendLine_spool (r : SpoolRecord) : (h.appendLine r).2.spool = h.spool := by
  rw [appendLine, write]
  split_ifs
  · cases h.outcomes.headD .ok <;> rfl
  · rfl

@[simp] theorem close_spool : h.close.spool = h.spool := by
  rw [close]
  split_ifs
  · exact h.flushMeta_spool
  · rfl
  · rfl

variable {h}

theorem failed_writeAtomic (hf : h.failed = true) (done : Disk) :
    (h.writeAtomic done).2.failed = true := by
  rw [writeAtomic, write]
  cases h.outcomes.headD .ok with
  | ok => exact hf
  | failed n => rfl

theorem failed_flushMeta (hf : h.failed = true) : h.flushMeta.2.failed = true :=
  failed_writeAtomic hf _

theorem failed_rewrite (hf : h.failed = true) : h.rewrite.2.failed = true :=
  failed_writeAtomic hf _

end Host

end Writes

section Live

/-- The messages that are owed after `Append`. -/
def owedAfter (owed : List SpoolRecord) (msg : Message) (seq : Option ℤ) : List SpoolRecord :=
  owed ++ (seq.map msg.record).toList

/-- The meta on disk is that of the spool, or an earlier one. -/
structure Tied (h : Host) (m : Meta) (lost : Bool) : Prop where
  info : h.disk.info = some m
  ordered : h.spool.Ordered
  stream : m.streamId = h.spool.streamId
  stream_ne : m.streamId ≠ []
  nonneg : 0 ≤ m.ackedSeq
  acked : m.ackedSeq < m.nextSeq
  acked_le : m.ackedSeq ≤ h.spool.ackedSeq
  next_le : m.nextSeq ≤ h.spool.nextSeq
  gap : m.gap = true → h.spool.gap = true
  /-- A drop that the meta does not tell of. -/
  lostGap : lost = true → h.spool.gap = true ∧ h.metaDirty = true
  clean : h.metaDirty = false → m = h.spool.toMeta

/-- The log is that of the spool, with acked records before it. -/
structure Live (h : Host) (m : Meta) (old : List SpoolRecord) (lost : Bool)
    (owed : List SpoolRecord) : Prop extends Tied h m lost where
  logOpen : h.logOpen = true
  log : h.disk.log = (old ++ h.spool.recs).map LogLine.whole
  increasing : (0 :: seqs (old ++ h.spool.recs)).Pairwise (· < ·)
  oldAcked : ∀ r ∈ old, r.seq ≤ h.spool.ackedSeq
  held : m.gap = true ∨ lost = true ∨
    (Numbered (m.ackedSeq + 1) (seqs (after m.ackedSeq (old ++ h.spool.recs))) ∧
      m.ackedSeq + (after m.ackedSeq (old ++ h.spool.recs)).length = h.spool.lastSeq ∧
      Holding h.spool.recs owed)

variable {h : Host} {m : Meta} {old owed : List SpoolRecord} {lost : Bool}

namespace Live

theorem after_recs (hl : Live h m old lost owed) :
    after h.spool.ackedSeq (old ++ h.spool.recs) = h.spool.recs :=
  after_append hl.oldAcked hl.ordered.above

theorem consecutive (hl : Live h m old lost owed) (hgap : h.spool.gap = false) :
    h.spool.Consecutive ∧ Holding h.spool.recs owed := by
  obtain hm | hm | ⟨hnum, hlen, hhold⟩ := hl.held
  · rw [hl.gap hm] at hgap
    cases hgap
  · rw [(hl.lostGap hm).1] at hgap
    cases hgap
  · have hacked := hl.ordered.acked
    obtain ⟨hnum', hlen'⟩ := numbered_after hnum hlen hl.acked_le (by rw [Spool.lastSeq]; omega)
    rw [after_after hl.acked_le, hl.after_recs] at hnum' hlen'
    exact ⟨⟨hnum', hlen'⟩, hhold⟩

/-- The files of a running spool keep their promise unless a drop is not on record. -/
theorem promise (hl : Live h m old false owed) :
    Promise h.disk m (old ++ h.spool.recs) [] owed where
  info := hl.info
  log := by rw [hl.log, List.append_nil]
  single := Nat.zero_le _
  stream := hl.stream_ne
  nonneg := hl.nonneg
  acked := hl.acked
  increasing := by
    rw [List.map_nil, List.append_nil]
    exact hl.increasing
  held := by
    rw [List.map_nil, List.append_nil]
    obtain hm | hm | ⟨hnum, hlen, hhold⟩ := hl.held
    · exact Or.inl hm
    · cases hm
    · have hnext := hl.next_le
      rw [Spool.lastSeq] at hlen
      refine Or.inr ⟨hnum, by omega, ?_⟩
      intro r hr
      obtain ⟨r', hr', hcopy⟩ := hhold r hr
      refine ⟨r', (mem_after hl.increasing.tail).mpr ⟨List.mem_append_right _ hr', ?_⟩, hcopy⟩
      exact lt_of_le_of_lt hl.acked_le (hl.ordered.above r' hr')

end Live

theorem tied_flushMeta (hord : h.spool.Ordered) (hne : h.spool.streamId ≠ []) :
    h.flushMeta.2.failed = true ∨ Tied h.flushMeta.2 h.spool.toMeta false := by
  rcases h.flushMeta_cases with hfail | hok
  · exact Or.inl hfail
  · right
    rw [hok]
    exact ⟨rfl, hord, rfl, hne, hord.nonneg, hord.acked, le_rfl, le_rfl, id, fun hlost =>
      (by cases hlost),
      fun _ => rfl⟩

theorem live_rewrite (ht : Tied h m lost)
    (hheld : m.gap = true ∨ lost = true ∨
      (Numbered (m.ackedSeq + 1) (seqs h.spool.recs) ∧
        m.ackedSeq + h.spool.recs.length = h.spool.lastSeq ∧ Holding h.spool.recs owed)) :
    h.rewrite.2.failed = true ∨ Live h.rewrite.2 m [] lost owed := by
  have hord := ht.ordered
  rcases h.rewrite_cases with hfail | hok
  · exact Or.inl hfail
  · right
    rw [hok]
    refine ⟨⟨ht.info, hord, ht.stream, ht.stream_ne, ht.nonneg, ht.acked, ht.acked_le, ht.next_le,
      ht.gap, ht.lostGap, ht.clean⟩, rfl, rfl, ?_, fun r hr => (by cases hr), ?_⟩
    · exact hord.positive
    · rw [List.nil_append, hord.after_recs ht.acked_le]
      exact hheld

namespace Live

theorem flushMeta (hl : Live h m old lost owed) :
    h.flushMeta.2.failed = true ∨ Live h.flushMeta.2 h.spool.toMeta old false owed := by
  have htied := tied_flushMeta hl.ordered (hl.stream ▸ hl.stream_ne)
  rcases h.flushMeta_cases with hfail | hok
  · exact Or.inl hfail
  · rw [hok] at htied ⊢
    rcases htied with hfail | htied
    · exact Or.inl hfail
    · refine Or.inr ⟨htied, hl.logOpen, hl.log, hl.increasing, hl.oldAcked, ?_⟩
      cases hgap : h.spool.gap with
      | true => exact Or.inl hgap
      | false =>
        obtain ⟨hcons, hhold⟩ := hl.consecutive hgap
        rw [Spool.toMeta_ackedSeq, hl.after_recs]
        exact Or.inr (Or.inr ⟨hcons.numbered, hcons.last, hhold⟩)

theorem compact (hl : Live h m old lost owed) :
    h.flushMeta.2.rewrite.2.failed = true ∨
      Live h.flushMeta.2.rewrite.2 h.spool.toMeta [] false owed := by
  rcases hl.flushMeta with hfail | hl'
  · exact Or.inl (Host.failed_rewrite hfail)
  · apply live_rewrite hl'.toTied
    obtain hm | hm | ⟨hnum, hlen, hhold⟩ := hl'.held
    · exact Or.inl hm
    · cases hm
    · have hafter := hl'.after_recs
      rw [Host.flushMeta_spool] at hafter hnum hlen hhold ⊢
      rw [Spool.toMeta_ackedSeq, hafter] at hnum hlen
      exact Or.inr (Or.inr ⟨hnum, hlen, hhold⟩)

theorem setRxSeq (hl : Live h m old lost owed) (seq : ℤ) :
    Live (h.setRxSeq seq) m old lost owed := by
  rw [Host.setRxSeq]
  split_ifs
  · exact hl
  · have hord := hl.ordered
    exact ⟨⟨hl.info, ⟨hord.nonneg, hord.acked, hord.increasing, hord.above, hord.below, hord.bytes⟩,
      hl.stream, hl.stream_ne, hl.nonneg, hl.acked, hl.acked_le, hl.next_le, hl.gap,
      fun hlost => ⟨(hl.lostGap hlost).1, rfl⟩, fun hdirty => (by cases hdirty)⟩,
      hl.logOpen, hl.log, hl.increasing, hl.oldAcked, hl.held⟩

/-- The memory after a message is taken, tied to the same meta. -/
theorem tied_append (hl : Live h m old lost owed) (msg : Message) :
    Tied { h with spool := (h.spool.append msg).spool, metaDirty := true } m
      (lost || (h.spool.append msg).droppedAny) := by
  have hord := hl.ordered.append msg
  have hgap : ∀ hg : h.spool.gap = true, (h.spool.append msg).spool.gap = true :=
    fun hg => Spool.append_gap hg msg
  have hdrop : (h.spool.append msg).droppedAny = true → (h.spool.append msg).spool.gap = true := by
    intro hany
    by_contra hfalse
    have := (Spool.append_of_not_gap (Bool.eq_false_iff.mpr hfalse)).1
    rw [this] at hany
    cases hany
  have hfields : (h.spool.append msg).spool.streamId = h.spool.streamId ∧
      (h.spool.append msg).spool.ackedSeq = h.spool.ackedSeq ∧
      h.spool.nextSeq ≤ (h.spool.append msg).spool.nextSeq := by
    obtain ⟨s', hs', -, ⟨-, hs⟩ | ⟨-, hs⟩⟩ := Spool.append_cases h.spool msg
    · rw [hs]
      exact ⟨hs'.streamId, hs'.ackedSeq, hs'.nextSeq.ge⟩
    · rw [hs]
      exact ⟨hs'.streamId, hs'.ackedSeq, hs'.nextSeq.ge.trans (lt_add_one _).le⟩
  refine ⟨hl.info, hord, ?_, hl.stream_ne, hl.nonneg, hl.acked, ?_, ?_, fun hm =>
    hgap (hl.gap hm), ?_,
    fun hdirty => (by cases hdirty)⟩
  · exact hl.stream.trans hfields.1.symm
  · exact hl.acked_le.trans hfields.2.1.ge
  · exact hl.next_le.trans hfields.2.2
  · intro hlost
    rw [Bool.or_eq_true] at hlost
    refine ⟨?_, rfl⟩
    rcases hlost with hlost | hany
    · exact hgap (hl.lostGap hlost).1
    · exact hdrop hany

theorem increasing_snoc (hl : Live h m old lost owed) {r : SpoolRecord}
    (hr : r.seq = h.spool.nextSeq) : (0 :: seqs (old ++ h.spool.recs ++ [r])).Pairwise (· < ·) := by
  rw [seqs_append, ← List.cons_append, List.pairwise_append]
  refine ⟨hl.increasing, List.pairwise_singleton _ _, ?_⟩
  intro x hx y hy
  rw [List.mem_singleton.mp hy, hr]
  rcases List.mem_cons.mp hx with rfl | hx
  · exact lt_of_le_of_lt hl.ordered.nonneg hl.ordered.acked
  · obtain ⟨w, hw, rfl⟩ := List.mem_map.mp hx
    rcases List.mem_append.mp hw with hw | hw
    · exact lt_of_le_of_lt (hl.oldAcked w hw) hl.ordered.acked
    · exact hl.ordered.below w hw

theorem appendLine (hl : Live h m old lost owed) (msg : Message)
    (ht : Tied { h with spool := h.spool.push msg, metaDirty := true } m lost) :
    let h' := Host.appendLine { h with spool := h.spool.push msg, metaDirty := true }
      (msg.record h.spool.nextSeq)
    h'.2.failed = true ∨ Live h'.2 m old lost (owed ++ [msg.record h.spool.nextSeq]) := by
  have hlt : m.ackedSeq < (msg.record h.spool.nextSeq).seq := lt_of_lt_of_le hl.acked hl.next_le
  rcases Host.appendLine_cases { h with spool := h.spool.push msg, metaDirty := true } hl.logOpen
    (msg.record h.spool.nextSeq) with hfail | hok
  · exact Or.inl hfail
  · right
    rw [hok]
    refine ⟨⟨ht.info, ht.ordered, ht.stream, ht.stream_ne, ht.nonneg, ht.acked,
      ht.acked_le, ht.next_le, ht.gap, ht.lostGap, ht.clean⟩, hl.logOpen, ?_, ?_, hl.oldAcked, ?_⟩
    · simp only [Spool.push, hl.log, List.map_append, List.append_assoc, List.map_cons,
        List.map_nil]
    · rw [Spool.push, ← List.append_assoc]
      exact hl.increasing_snoc rfl
    · obtain hm | hm | ⟨hnum, hlen, hhold⟩ := hl.held
      · exact Or.inl hm
      · exact Or.inr (Or.inl hm)
      · rw [Spool.lastSeq] at hlen
        rw [Spool.push, ← List.append_assoc, after_snoc hlt, seqs_append, numbered_append,
          List.length_append, length_seqs, Spool.lastSeq]
        refine Or.inr (Or.inr ⟨⟨hnum, ?_, trivial⟩, ?_, ?_⟩)
        · rw [Message.record]
          dsimp only
          omega
        · dsimp only
          rw [List.length_singleton]
          push_cast
          omega
        · intro r hr
          rcases List.mem_append.mp hr with hr | hr
          · obtain ⟨r', hr', hcopy⟩ := hhold r hr
            exact ⟨r', List.mem_append_left _ hr', hcopy⟩
          · exact ⟨r, List.mem_append_right _ hr, .refl r⟩

theorem append (hl : Live h m old lost owed) (msg : Message) :
    (h.append msg).2.failed = true ∨
      ∃ old', Live (h.append msg).2 m old' (lost || (h.spool.append msg).droppedAny)
        (owedAfter owed msg (h.spool.append msg).seq) := by
  have htied := hl.tied_append msg
  obtain ⟨s', hs', hany, hcase⟩ := Spool.append_cases h.spool msg
  cases hdrop : (h.spool.append msg).droppedAny with
  | true =>
    have happend : (h.append msg).2 =
        (Host.rewrite { h with spool := (h.spool.append msg).spool, metaDirty := true }).2 := by
      rw [Host.append]
      cases (h.spool.append msg).seq <;> simp [hdrop]
    rw [happend]
    rw [hdrop, Bool.or_true] at htied
    rw [Bool.or_true]
    rcases live_rewrite htied (Or.inr (Or.inl rfl)) with hfail | hl'
    · exact Or.inl hfail
    · exact Or.inr ⟨[], hl'⟩
  | false =>
    rw [hdrop, Bool.or_false] at htied
    rw [Bool.or_false]
    have hlen : s'.recs.length = h.spool.recs.length := by
      apply le_antisymm hs'.recs.length_le
      apply not_lt.mp
      rw [← hany, hdrop]
      decide
    obtain rfl := hs'.same hlen
    obtain ⟨hseq, hspool⟩ | ⟨hseq, hspool⟩ := hcase
    · have happend : (h.append msg).2 =
          { h with spool := (h.spool.append msg).spool, metaDirty := true } := by
        rw [Host.append, hseq]
        simp [hdrop]
      right
      rw [happend, hseq]
      refine ⟨old, htied, hl.logOpen, ?_, ?_, ?_, ?_⟩
      · rw [hspool]
        exact hl.log
      · rw [hspool]
        exact hl.increasing
      · rw [hspool]
        exact hl.oldAcked
      · rw [hspool, owedAfter, Option.map_none, Option.toList_none, List.append_nil]
        exact hl.held
    · rw [hspool] at htied
      have happend : (h.append msg).2 =
          let a := Host.appendLine { h with spool := h.spool.push msg, metaDirty := true }
            (msg.record h.spool.nextSeq)
          if a.1 then a.2 else a.2.rewrite.2 := by
        rw [Host.append, hseq, hspool]
        simp [hdrop]
      rw [happend, hseq]
      rcases hl.appendLine msg htied with hfail | hl'
      · left
        dsimp only
        split_ifs
        · exact hfail
        · exact Host.failed_rewrite hfail
      · rcases Host.appendLine_cases
          { h with spool := h.spool.push msg, metaDirty := true } hl.logOpen
          (msg.record h.spool.nextSeq) with hfail | hok
        · left
          dsimp only
          split_ifs
          · exact hfail
          · exact Host.failed_rewrite hfail
        · right
          dsimp only
          rw [if_pos (by rw [hok])]
          exact ⟨old, hl'⟩

/-- `AckUpTo` in memory: the log keeps what is acked for now. -/
theorem ackUpTo_memory (hl : Live h m old lost owed) (seq : ℤ) (hseq : ¬seq ≤ h.spool.ackedSeq) :
    ∃ old', Live { h with spool := h.spool.ackUpTo seq, metaDirty := true } m old' lost
      (owed.filter fun r => (h.spool.ackUpTo seq).ackedSeq < r.seq) := by
  have hord := hl.ordered.ackUpTo seq
  have hspool :
      h.spool.ackUpTo seq = Spool.dropAcked
        { h.spool with ackedSeq := min seq h.spool.lastSeq } := by
    rw [Spool.ackUpTo, if_neg hseq]
  have hacked : h.spool.ackedSeq ≤ (h.spool.ackUpTo seq).ackedSeq := by
    have := hl.ordered.acked
    rw [hspool]
    simp only [Spool.dropAcked, Spool.lastSeq]
    omega
  generalize h.spool.ackUpTo seq = s' at hord hspool hacked ⊢
  have hrecs : s'.recs = after s'.ackedSeq h.spool.recs := by rw [hspool, Spool.dropAcked]
  have hsplit :
      h.spool.recs.takeWhile (fun r => decide (r.seq ≤ s'.ackedSeq)) ++ s'.recs = h.spool.recs := by
    rw [hrecs, after, List.takeWhile_append_dropWhile]
  refine ⟨old ++ h.spool.recs.takeWhile fun r => decide (r.seq ≤ s'.ackedSeq), ?_⟩
  refine ⟨⟨hl.info, hord, ?_, hl.stream_ne, hl.nonneg, hl.acked,
    hl.acked_le.trans hacked, ?_, ?_, ?_,
    fun hdirty => Bool.noConfusion hdirty⟩, hl.logOpen, ?_, ?_, ?_, ?_⟩
  · rw [hspool]
    exact hl.stream
  · rw [hspool]
    exact hl.next_le
  · rw [hspool]
    exact hl.gap
  · intro hlost
    rw [hspool]
    exact ⟨(hl.lostGap hlost).1, rfl⟩
  · rw [List.append_assoc, hsplit]
    exact hl.log
  · rw [List.append_assoc, hsplit]
    exact hl.increasing
  · intro r hr
    rcases List.mem_append.mp hr with hr | hr
    · exact (hl.oldAcked r hr).trans hacked
    · simpa using List.mem_takeWhile_imp hr
  · rw [List.append_assoc, hsplit]
    obtain hm | hm | ⟨hnum, hlen, hhold⟩ := hl.held
    · exact Or.inl hm
    · exact Or.inr (Or.inl hm)
    · refine Or.inr (Or.inr ⟨hnum, ?_, ?_⟩)
      · rw [hspool]
        exact hlen
      · intro r hr
        rw [List.mem_filter, decide_eq_true_eq] at hr
        obtain ⟨r', hr', hcopy⟩ := hhold r hr.1
        refine ⟨r', ?_, hcopy⟩
        rw [hrecs]
        exact (mem_after hl.ordered.increasing).mpr ⟨hr', hcopy.seq ▸ hr.2⟩

theorem recorded (hl : Live h m old false owed) (hgap : lost = true → h.spool.gap = true) :
    Live h m old (lost && h.metaDirty) owed := by
  refine ⟨⟨hl.info, hl.ordered, hl.stream, hl.stream_ne, hl.nonneg, hl.acked,
    hl.acked_le, hl.next_le, hl.gap, ?_, hl.clean⟩, hl.logOpen, hl.log, hl.increasing,
    hl.oldAcked, ?_⟩
  · intro hlost
    rw [Bool.and_eq_true] at hlost
    exact ⟨hgap hlost.1, hlost.2⟩
  · obtain hm | hm | hheld := hl.held
    · exact Or.inl hm
    · cases hm
    · exact Or.inr (Or.inr hheld)

theorem lost_and_dirty (hl : Live h m old lost owed) : (lost && h.metaDirty) = lost := by
  cases lost with
  | false => rfl
  | true => exact (hl.lostGap rfl).2

theorem owed_subset (hl : Live h m old lost owed) {owed' : List SpoolRecord}
    (hsub : ∀ r ∈ owed', r ∈ owed) : Live h m old lost owed' := by
  refine ⟨hl.toTied, hl.logOpen, hl.log, hl.increasing, hl.oldAcked, ?_⟩
  obtain hm | hm | ⟨hnum, hlen, hhold⟩ := hl.held
  · exact Or.inl hm
  · exact Or.inr (Or.inl hm)
  · exact Or.inr (Or.inr ⟨hnum, hlen, hhold.subset hsub⟩)

theorem ackUpTo (hl : Live h m old lost owed) (seq : ℤ) :
    (h.ackUpTo seq).failed = true ∨
      ∃ m' old', Live (h.ackUpTo seq) m' old' (lost && (h.ackUpTo seq).metaDirty)
        (owed.filter fun r => (h.ackUpTo seq).spool.ackedSeq < r.seq) := by
  rw [Host.ackUpTo]
  split_ifs with hseq
  · right
    rw [hl.lost_and_dirty]
    exact ⟨m, old, hl.owed_subset fun r hr => (List.mem_filter.mp hr).1⟩
  · obtain ⟨old', hl'⟩ := hl.ackUpTo_memory seq hseq
    dsimp only
    split_ifs with hlong
    · rcases hl'.compact with hfail | hcompact
      · exact Or.inl hfail
      · right
        rw [Host.rewrite_spool, Host.flushMeta_spool]
        refine ⟨_, [], hcompact.recorded ?_⟩
        intro hlost
        rw [Host.rewrite_spool, Host.flushMeta_spool]
        exact (hl'.lostGap hlost).1
    · right
      rw [Bool.and_true]
      exact ⟨m, old', hl'⟩

theorem rotate (hl : Live h m old lost owed) (newId : Ulid) (hgap : h.spool.gap = true) :
    (h.rotateIfGap newId).2.failed = true ∨
      Live (h.rotateIfGap newId).2 (h.spool.rotate newId).toMeta
        [] false (h.spool.rotate newId).recs := by
  rw [Host.rotateIfGap, if_pos hgap]
  have hord := hl.ordered.rotate newId
  have hcons := Spool.consecutive_rotate h.spool newId
  rcases tied_flushMeta (h := { h with spool := h.spool.rotate newId, metaDirty := true }) hord
    newId.ne_nil with hfail | htied
  · exact Or.inl (Host.failed_rewrite hfail)
  · have hlive := @live_rewrite _ _ (h.spool.rotate newId).recs _ htied
    rw [Host.flushMeta_spool] at hlive
    exact hlive (Or.inr (Or.inr ⟨hcons.numbered, hcons.last, .refl _⟩))

end Live

end Live

section Open

namespace Host

variable {h : Host}

def AllOk (h : Host) : Prop := ∀ o ∈ h.outcomes, o = .ok

theorem writeAtomic_ok (hok : h.AllOk) (done : Disk) :
    h.writeAtomic done = (true, { h with
      disk := done, outcomes := h.outcomes.tail, crashes := h.crashes ++ [h.disk] }) := by
  have hhead : h.outcomes.headD .ok = .ok := by
    cases ho : h.outcomes with
    | nil => rfl
    | cons o os => exact hok o (by rw [ho]; exact List.mem_cons_self)
  rw [writeAtomic, write, hhead]

theorem AllOk.tail (hok : h.AllOk) {h' : Host}
    (h'tail : h'.outcomes = h.outcomes.tail) : h'.AllOk := by
  intro o ho
  rw [h'tail] at ho
  exact hok o (List.mem_of_mem_tail ho)

theorem flushMeta_ok (hok : h.AllOk) :
    h.flushMeta = (true, { h with
      disk := { h.disk with info := some h.spool.toMeta }
      metaDirty := false
      outcomes := h.outcomes.tail
      crashes := h.crashes ++ [h.disk] }) := by
  rw [flushMeta, writeAtomic_ok hok]
  simp

theorem rewrite_ok (hok : h.AllOk) :
    h.rewrite = (true, { h with
      disk := { h.disk with log := h.spool.recs.map LogLine.whole }
      logOpen := true
      logBytes := ((h.spool.recs.map LogLine.whole).map LogLine.cut).sum
      outcomes := h.outcomes.tail
      crashes := h.crashes ++ [h.disk] }) := by
  rw [rewrite, writeAtomic_ok hok]
  simp

theorem AllOk.close (hok : h.AllOk) : h.close.AllOk := by
  rw [Host.close]
  split_ifs
  · exact hok.tail (by rw [flushMeta_ok hok])
  · exact hok
  · exact hok

theorem openDir_ok (hok : h.AllOk) (limits : Limits) (newId : Ulid) :
    let s := h.spool.load h.close.disk limits newId
    (h.openDir limits newId).1 = true ∧ (h.openDir limits newId).2.spool = s ∧
      (h.openDir limits newId).2.metaDirty = false ∧ (h.openDir limits newId).2.logOpen = true ∧
      (h.openDir limits newId).2.disk = ⟨some s.toMeta, s.recs.map LogLine.whole⟩ ∧
      (h.openDir limits newId).2.failed = h.close.failed ∧
      (h.openDir limits newId).2.crashes = h.close.crashes ++
        [h.close.disk, h.close.disk, { h.close.disk with log := s.recs.map LogLine.whole }] := by
  have hok₀ := hok.close
  have hmade := writeAtomic_ok hok₀ h.close.disk
  rw [openDir]
  simp only [hmade, if_true, close_spool]
  rw [rewrite_ok (hok₀.tail rfl)]
  simp only [if_true]
  have hok₁ : { h.close with outcomes := h.close.outcomes.tail : Host }.AllOk := hok₀.tail rfl
  rw [flushMeta_ok (hok₁.tail rfl)]
  simp

end Host

variable {h : Host} {m : Meta} {old owed : List SpoolRecord} {lost : Bool}

theorem Live.close (hl : Live h m old lost owed) :
    h.close.failed = true ∨ ∃ m', m'.streamId = h.spool.streamId ∧
      Promise h.close.disk m' (old ++ h.spool.recs) [] owed := by
  rw [Host.close, if_pos hl.logOpen]
  cases hdirty : h.metaDirty with
  | true =>
    rcases hl.flushMeta with hfail | hl'
    · exact Or.inl hfail
    · have hp := hl'.promise
      rw [Host.flushMeta_spool] at hp
      exact Or.inr ⟨h.spool.toMeta, rfl, hp⟩
  | false =>
    right
    have hlost : lost = false := by
      rw [← hl.lost_and_dirty, hdirty, Bool.and_false]
    subst hlost
    exact ⟨m, hl.stream, hl.promise⟩

/-- What a new process can rely on: an empty directory, or files that keep their promise. -/
def Recoverable (d : Disk) (stream : Bytes) (owed : List SpoolRecord) : Prop :=
  (d = .empty ∧ owed = []) ∨ ∃ m ws part, m.streamId = stream ∧ Promise d m ws part owed

/-- The stream that a start gives back: a gap is known, or every message that is owed is there
under its seq and stream. -/
def Reopened (stream : Bytes) (owed : List SpoolRecord) (s : Spool) : Prop :=
  s.gap = true ∨ (s.Consecutive ∧ ∀ r ∈ owed, s.streamId = stream ∧ ∃ r' ∈ s.recs, Copy r r')

theorem load_empty (s : Spool) (limits : Limits) (newId : Ulid) :
    s.load .empty limits newId = ⟨limits, [], 0, s.dropped, newId.text, 1, 0, 0, false⟩ := rfl

/-- The start after whatever a recoverable directory went through. -/
theorem Recoverable.load {d : Disk} {stream : Bytes} (hr : Recoverable d stream owed)
    (hsize : d.logLength ≤ maxLogBytes) (s : Spool) (limits : Limits) (newId : Ulid) :
    (s.load d limits newId).Ordered ∧ (s.load d limits newId).streamId ≠ [] ∧
      Reopened stream owed (s.load d limits newId) := by
  obtain ⟨rfl, rfl⟩ | ⟨m, ws, part, rfl, hp⟩ := hr
  · rw [load_empty]
    refine ⟨⟨le_rfl, Int.zero_lt_one, List.Pairwise.nil, fun r hr => (by cases hr),
      fun r hr => (by cases hr), rfl⟩, newId.ne_nil,
      Or.inr ⟨⟨trivial, rfl⟩, fun r hr => (by cases hr)⟩⟩
  · have hstream : (s.load d limits newId).streamId = m.streamId := by
      rw [hp.load_eq]
      rfl
    refine ⟨hp.ordered_load s limits newId, hstream ▸ hp.stream, ?_⟩
    cases hgap : (s.load d limits newId).gap with
    | true => exact Or.inl hgap
    | false =>
      obtain ⟨hcons, hhold⟩ := hp.load_consecutive hsize hgap
      exact Or.inr ⟨hcons, fun r hr => ⟨hstream, hhold r hr⟩⟩

theorem live_openDir (hok : h.AllOk) {limits : Limits} {newId : Ulid} {s : Spool}
    (hs : h.spool.load h.close.disk limits newId = s) (hord : s.Ordered) (hne : s.streamId ≠ [])
    (hcons : s.gap = false → s.Consecutive) :
    Live (h.openDir limits newId).2 s.toMeta [] false (if s.gap then owed else s.recs) := by
  obtain ⟨-, hspool, hdirty, hopen, hdisk, -, -⟩ := Host.openDir_ok hok limits newId
  rw [hs] at hspool hdisk
  refine ⟨⟨?_, ?_, ?_, hne, hord.nonneg, hord.acked, ?_, ?_, ?_, fun hlost => (by cases hlost), ?_⟩,
    hopen, ?_, ?_, fun r hr => (by cases hr), ?_⟩
  · rw [hdisk]
  · rw [hspool]
    exact hord
  · rw [hspool]
    rfl
  · rw [hspool]
    exact le_rfl
  · rw [hspool]
    exact le_rfl
  · rw [hspool]
    exact id
  · rw [hspool]
    exact fun _ => rfl
  · rw [hdisk, hspool]
    rfl
  · rw [hspool]
    exact hord.positive
  · rw [hspool, List.nil_append, Spool.toMeta_ackedSeq, hord.after_recs le_rfl]
    cases hgap : s.gap with
    | true => exact Or.inl hgap
    | false =>
      obtain ⟨hnum, hlast⟩ := hcons hgap
      exact Or.inr (Or.inr ⟨hnum, hlast, .refl _⟩)

end Open

end ReadyUp.Fleet
