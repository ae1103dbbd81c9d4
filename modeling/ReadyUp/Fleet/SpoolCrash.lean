import ReadyUp.Fleet.SpoolRun

/-!
# Crashes of the spool

Each crash point of each call leaves files that can be relied on, with three exceptions that
`Safe` names: a drop that is not in `meta.json` yet, the time between the two writes of a
rotation, and that between the two writes of an `Open` which cannot read a whole line. In a
run without them, and without a log that is too long to be read, the spool keeps its
invariant (`representation`) and every start gives back what is owed (`reopened`).
-/
namespace ReadyUp.Fleet

open Support JsonScan JsonText

section Crashes

variable {h : Host} {m : Meta} {old owed : List SpoolRecord} {lost : Bool}

theorem Host.appendLine_ok (hok : h.AllOk) (hopen : h.logOpen = true) (r : SpoolRecord) :
    h.appendLine r = (true, { h with
      disk := { h.disk with log := h.disk.log ++ [.whole r] }
      logBytes := h.logBytes + r.line.length
      outcomes := h.outcomes.tail
      crashes := h.crashes ++ h.disk ::
        (List.range r.text.length).map fun n => withPart h.disk r (n + 1) }) := by
  have hhead : h.outcomes.headD .ok = .ok := by
    cases ho : h.outcomes with
    | nil => rfl
    | cons o os => exact hok o (by rw [ho]; exact List.mem_cons_self)
  rw [appendLine, if_pos hopen, write, hhead]
  simp

theorem Host.append_of_not_isOver {h : Host} (hok : h.AllOk) (hopen : h.logOpen = true)
    {msg : Message} (hover : h.spool.isOver (msg.record 0).bytes 100 = false) :
    (h.append msg).2 = { h with
      spool := h.spool.push msg
      metaDirty := true
      disk := { h.disk with log := h.disk.log ++ [.whole (msg.record h.spool.nextSeq)] }
      logBytes := h.logBytes + (msg.record h.spool.nextSeq).line.length
      outcomes := h.outcomes.tail
      crashes := h.crashes ++ h.disk :: (List.range (msg.record h.spool.nextSeq).text.length).map
        fun n => withPart h.disk (msg.record h.spool.nextSeq) (n + 1) } := by
  have hline :=
    appendLine_ok (h := { h with spool := h.spool.push msg, metaDirty := true }) hok hopen
    (msg.record h.spool.nextSeq)
  rw [append, Spool.append_of_not_isOver hover]
  simp only [if_neg Bool.false_ne_true]
  rw [hline]
  rfl

/-- The crash points of `Append`: before it writes, and within the line. -/
theorem Host.append_crashes (hok : h.AllOk) (hopen : h.logOpen = true) (hnil : h.crashes = [])
    {msg : Message} {d : Disk} (hd : d ∈ (h.append msg).2.crashes) :
    d = h.disk ∨ ((h.spool.append msg).droppedAny = false ∧
      ∃ seq, (h.spool.append msg).seq = some seq ∧
        ∃ n < (msg.record seq).text.length, d = withPart h.disk (msg.record seq) (n + 1)) := by
  have hre :=
    rewrite_ok (h := { h with spool := (h.spool.append msg).spool, metaDirty := true }) hok
  rw [Host.append] at hd
  cases hseq : (h.spool.append msg).seq with
  | none =>
    rw [hseq] at hd
    dsimp only at hd
    split_ifs at hd
    · rw [hre, hnil] at hd
      exact Or.inl (List.mem_singleton.mp hd)
    · rw [hnil] at hd
      cases hd
  | some seq =>
    have hline :=
      appendLine_ok (h := { h with spool := (h.spool.append msg).spool, metaDirty := true })
      hok hopen (msg.record seq)
    rw [hseq] at hd
    dsimp only at hd
    split_ifs at hd with hdrop hline'
    · rw [hre, hnil] at hd
      exact Or.inl (List.mem_singleton.mp hd)
    · rw [hline, hnil] at hd
      rcases List.mem_cons.mp hd with rfl | hd
      · exact Or.inl rfl
      · obtain ⟨n, hn, rfl⟩ := List.mem_map.mp hd
        exact Or.inr ⟨Bool.eq_false_iff.mpr hdrop, seq, rfl, n, List.mem_range.mp hn, rfl⟩
    · rw [hline] at hline'
      exact absurd rfl hline'

theorem recoverable_of_promise {d : Disk} {ws : List SpoolRecord} {part : List LogLine}
    {stream : Bytes}
    (hp : Promise d m ws part owed) (hs : m.streamId = stream) : Recoverable d stream owed :=
  Or.inr ⟨m, ws, part, hs, hp⟩

theorem Live.recoverable (hl : Live h m old false owed) :
    Recoverable h.disk h.spool.streamId owed :=
  recoverable_of_promise hl.promise hl.stream

theorem Live.withPart (hl : Live h m old false owed) {r : SpoolRecord}
    (hr : r.seq = h.spool.nextSeq)
    (n : ℕ) : Recoverable (Host.withPart h.disk r (n + 1)) h.spool.streamId owed := by
  have hp := hl.promise
  have hlt : m.ackedSeq < r.seq := by
    rw [hr]
    exact lt_of_lt_of_le hl.acked hl.next_le
  rw [Host.withPart, if_neg (Nat.succ_ne_zero n)]
  refine Or.inr ⟨m, old ++ h.spool.recs, [⟨r, min (n + 1) r.text.length⟩], hl.stream, ?_⟩
  refine ⟨hp.info, ?_, le_rfl, hp.stream, hp.nonneg, hp.acked, ?_, ?_⟩
  · dsimp only
    rw [hl.log]
  · exact hl.increasing_snoc hr
  · obtain hm | hm | ⟨hnum, hlen, -⟩ := hl.held
    · exact Or.inl hm
    · cases hm
    · obtain hm | ⟨-, hnext, hhold⟩ := hp.held
      · exact Or.inl hm
      · right
        rw [List.map_cons, List.map_nil, after_snoc hlt, seqs_append, numbered_append, length_seqs]
        rw [Spool.lastSeq] at hlen
        refine ⟨⟨hnum, ?_, trivial⟩, hnext, hhold⟩
        rw [hr]
        omega

/-- The crash points of a meta and a log that are written one after the other. -/
theorem Host.compact_crashes (hok : h.AllOk) :
    h.flushMeta.2.rewrite.2.crashes =
      h.crashes ++ [h.disk, { h.disk with info := some h.spool.toMeta }] := by
  rw [flushMeta_ok hok, rewrite_ok (hok.tail rfl)]
  simp

/-- A crash within a call other than `Open`, but not between the two writes of a rotation. -/
theorem Live.crashes (hl : Live h m old false owed) (hok : h.AllOk) (hf : h.failed = false)
    (hnil : h.crashes = []) {c : SpoolCall} (hc : c.isOpen = false) {i : ℕ} {d : Disk}
    (hd : (c.apply h).crashes[i]? = some d)
    (hrot : ∀ newId, c = .rotateIfGap newId → h.spool.gap = true → i = 0) :
    Recoverable d h.spool.streamId (c.owedAtCrash h owed) := by
  have hmem := List.mem_of_getElem? hd
  cases c with
  | openDir limits newId => cases hc
  | append msg =>
    rcases Host.append_crashes hok hl.logOpen hnil hmem with rfl | ⟨hdrop, seq, hseq, n, -, rfl⟩
    · exact hl.recoverable
    · have hseq' : (msg.record seq).seq = h.spool.nextSeq := by
        obtain ⟨s', hs', -, ⟨hnone, -⟩ | ⟨hsome, -⟩⟩ := Spool.append_cases h.spool msg
        · rw [hseq] at hnone
          cases hnone
        · rw [hseq] at hsome
          rw [Message.record, Option.some.inj hsome, hs'.nextSeq]
      exact hl.withPart hseq' n
  | ackUpTo seq =>
    rw [SpoolCall.apply, Host.ackUpTo] at hmem
    rw [SpoolCall.owedAtCrash, Host.ackUpTo_spool]
    split_ifs at hmem with hseq
    · rw [hnil] at hmem
      cases hmem
    · obtain ⟨old', hl'⟩ := hl.ackUpTo_memory seq hseq
      dsimp only at hmem
      split_ifs at hmem with hlong
      · rw [Host.compact_crashes (h := { h with spool := h.spool.ackUpTo seq, metaDirty := true })
          hok, hnil, List.nil_append, List.mem_cons, List.mem_singleton] at hmem
        have hstream : (h.spool.ackUpTo seq).streamId = h.spool.streamId := by
          rw [Spool.ackUpTo, if_neg hseq]
          rfl
        have hrec := hl'.recoverable
        rw [hstream] at hrec
        rcases hmem with rfl | rfl
        · exact hrec
        · rcases hl'.flushMeta with hfail | hflush
          · rw [Host.flushMeta_ok (h := { h with spool := h.spool.ackUpTo seq, metaDirty := true })
              hok, hf] at hfail
            cases hfail
          · have hrec' := hflush.recoverable
            rw [Host.flushMeta_ok (h := { h with spool := h.spool.ackUpTo seq, metaDirty := true })
              hok, hstream] at hrec'
            exact hrec'
      · rw [hnil] at hmem
        cases hmem
  | rotateIfGap newId =>
    rw [SpoolCall.apply, Host.rotateIfGap] at hd
    split_ifs at hd with hgap
    · obtain rfl := hrot newId rfl hgap
      rw [Host.compact_crashes (h := { h with spool := h.spool.rotate newId, metaDirty := true })
        hok, hnil] at hd
      rw [← Option.some.inj hd]
      exact hl.recoverable
    · rw [hnil] at hd
      cases hd
  | setRxSeq seq =>
    rw [SpoolCall.apply, Host.setRxSeq] at hmem
    split_ifs at hmem
    · rw [hnil] at hmem
      cases hmem
    · rw [hnil] at hmem
      cases hmem
  | flushMeta =>
    rw [SpoolCall.apply, Host.flushMeta_ok hok, hnil] at hmem
    rw [List.mem_singleton.mp hmem]
    exact hl.recoverable

/-- Every whole line is readable, or it is known that the stream has a gap. -/
def Readable (d : Disk) : Prop :=
  d.info.any Meta.gap = true ∨ ∀ l ∈ d.log, l = .whole l.record → l.read ≠ none

theorem Recoverable.rewritten {d : Disk} {stream : Bytes} (hr : Recoverable d stream owed)
    (hsize : d.logLength ≤ maxLogBytes) (hread : Readable d) (s : Spool) (limits : Limits)
    (newId : Ulid) :
    Recoverable { d with log := (s.load d limits newId).recs.map LogLine.whole } stream owed := by
  obtain ⟨rfl, rfl⟩ | ⟨m, ws, part, rfl, hp⟩ := hr
  · exact Or.inl ⟨rfl, rfl⟩
  · refine recoverable_of_promise (hp.rewritten hsize ?_ s limits newId) rfl
    rcases hread with hgap | hread
    · rw [hp.info] at hgap
      exact Or.inl hgap
    · right
      intro w hw
      rw [← read_whole]
      apply hread _ _ rfl
      rw [hp.log]
      exact List.mem_append_left _ (List.mem_map_of_mem hw)

theorem Host.close_log (h : Host) : h.close.disk.log = h.disk.log := by
  have hflush : h.flushMeta.2.disk.log = h.disk.log := by
    rw [flushMeta, writeAtomic, write]
    cases h.outcomes.headD .ok <;> rfl
  rw [close]
  split_ifs
  · exact hflush
  · rfl
  · rfl

theorem Host.close_crashes (hok : h.AllOk) (hnil : h.crashes = []) {d : Disk}
    (hd : d ∈ h.close.crashes) : d = h.disk := by
  rw [close] at hd
  split_ifs at hd
  · rw [flushMeta_ok hok, hnil] at hd
    exact List.mem_singleton.mp hd
  · rw [hnil] at hd
    cases hd
  · rw [hnil] at hd
    cases hd

/-- A crash within `Open`: between its two writes, the log has to be readable. -/
theorem crashes_openDir (hok : h.AllOk) (hnil : h.crashes = []) {stream : Bytes}
    (hbefore : Recoverable h.disk stream owed) (hclosed : Recoverable h.close.disk stream owed)
    (hsize : h.disk.logLength ≤ maxLogBytes) {limits : Limits} {newId : Ulid} {i : ℕ} {d : Disk}
    (hd : (h.openDir limits newId).2.crashes[i]? = some d)
    (hread : i + 1 = (h.openDir limits newId).2.crashes.length → Readable h.close.disk) :
    Recoverable d stream owed := by
  have hcrashes := (Host.openDir_ok hok limits newId).2.2.2.2.2.2
  have hsize' : h.close.disk.logLength ≤ maxLogBytes := by
    rw [Disk.logLength, h.close_log]
    exact hsize
  rw [List.append_cons, List.append_cons] at hcrashes
  rw [hcrashes] at hd hread
  rw [List.length_append, List.length_singleton] at hread
  rw [List.getElem?_append] at hd
  split_ifs at hd with hlt
  · have hmem := List.mem_of_getElem? hd
    rw [List.mem_append, List.mem_append, List.mem_singleton] at hmem
    rcases hmem with (hmem | rfl) | rfl
    · rw [Host.close_crashes hok hnil hmem]
      exact hbefore
    · exact hclosed
    · exact hclosed
  · have hi := (List.getElem?_eq_some_iff.mp hd).1
    rw [List.length_singleton] at hi
    have hzero : i - (h.close.crashes ++ [h.close.disk] ++ [h.close.disk]).length = 0 := by omega
    rw [hzero] at hd
    rw [← Option.some.inj hd]
    exact hclosed.rewritten hsize' (hread (by omega)) h.spool limits newId

/-- Once a write has failed, the run is known to have failed. -/
theorem failed_apply (hf : h.failed = true) {c : SpoolCall} (hc : c.isOpen = false) :
    (c.apply h).failed = true := by
  cases c with
  | openDir limits newId => cases hc
  | append msg =>
    have hline :
        ∀ (h' : Host) (r : SpoolRecord), h'.failed = true → (h'.appendLine r).2.failed = true := by
      intro h' r hf'
      rw [Host.appendLine, Host.write]
      split_ifs
      · cases h'.outcomes.headD .ok with
        | ok => exact hf'
        | failed n => rfl
      · exact hf'
    rw [SpoolCall.apply, Host.append]
    cases (h.spool.append msg).seq with
    | none =>
      dsimp only
      split_ifs
      · exact Host.failed_rewrite hf
      · exact hf
    | some seq =>
      dsimp only
      split_ifs
      · exact Host.failed_rewrite hf
      · exact hline _ _ hf
      · exact Host.failed_rewrite (hline _ _ hf)
  | ackUpTo seq =>
    rw [SpoolCall.apply, Host.ackUpTo]
    split_ifs
    · exact hf
    · dsimp only
      split_ifs
      · exact Host.failed_rewrite (Host.failed_flushMeta hf)
      · exact hf
  | rotateIfGap newId =>
    rw [SpoolCall.apply, Host.rotateIfGap]
    split_ifs
    · exact Host.failed_rewrite (Host.failed_flushMeta hf)
    · exact hf
  | setRxSeq seq =>
    rw [SpoolCall.apply, Host.setRxSeq]
    split_ifs
    · exact hf
    · exact hf
  | flushMeta => exact Host.failed_flushMeta hf

theorem Host.failed_close (hok : h.AllOk) : h.close.failed = h.failed := by
  rw [close]
  split_ifs
  · rw [flushMeta_ok hok]
  · rfl
  · rfl

end Crashes

namespace SpoolRun

variable {r : SpoolRun}

/-- A crash in this call at this write leaves files that can be relied on: not between the two
writes of a rotation, and not between those of an `Open` that loses a whole line. -/
def SafePoint (h : Host) (point : ℕ) : SpoolCall → Prop
  | .openDir limits newId => h.disk.logLength ≤ maxLogBytes ∧
      (point + 1 = (h.openDir limits newId).2.crashes.length → Readable h.close.disk)
  | .rotateIfGap _ => h.spool.gap = true → point = 0
  | .append _ | .ackUpTo _ | .setRxSeq _ | .flushMeta => True

/-- What the files need: an `Open` finds a log that is not too long after writes that all went
well, and a process ends with every drop on record. -/
def Safe (r : SpoolRun) : SpoolEvent → Prop
  | .call (.openDir _ _) outcomes =>
    r.host.failed = false ∧ (∀ o ∈ outcomes, o = .ok) ∧ r.host.disk.logLength ≤ maxLogBytes
  | .call _ _ => True
  | .crash c point => r.host.failed = false ∧ r.lost = false ∧ SafePoint (r.begin []) point c
  | .kill => r.host.failed = false ∧ r.lost = false

instance (d : Disk) : Decidable (Readable d) := inferInstanceAs (Decidable (_ ∨ _))

instance (h : Host) (point : ℕ) : (c : SpoolCall) → Decidable (SafePoint h point c)
  | .openDir _ _ => inferInstanceAs (Decidable (_ ∧ _))
  | .rotateIfGap _ => inferInstanceAs (Decidable (_ → _))
  | .append _ | .ackUpTo _ | .setRxSeq _ | .flushMeta => inferInstanceAs (Decidable True)

instance (r : SpoolRun) : (e : SpoolEvent) → Decidable (Safe r e)
  | .call (.openDir _ _) _ => inferInstanceAs (Decidable (_ ∧ _ ∧ _))
  | .call (.append _) _ | .call (.ackUpTo _) _ | .call (.rotateIfGap _) _ | .call (.setRxSeq _) _
  | .call .flushMeta _ => inferInstanceAs (Decidable True)
  | .crash _ _ => inferInstanceAs (Decidable (_ ∧ _ ∧ _))
  | .kill => inferInstanceAs (Decidable (_ ∧ _))

/-- Memory and files, after any safe run. -/
structure Inv (r : SpoolRun) : Prop where
  base : Base r.host
  consecutive : r.host.spool.gap = false → r.host.spool.Consecutive
  files : r.host.failed = true ∨
    (r.running = false ∧ r.host.logOpen = false ∧ Recoverable r.host.disk r.stream r.owed) ∨
    (r.host.spool.streamId = r.stream ∧ ∃ m old, Live r.host m old r.lost r.owed)

theorem inv_new : new.Inv where
  base := ⟨Spool.ordered_new, fun _ hm => (by cases hm)⟩
  consecutive _ := Spool.consecutive_new
  files := Or.inr (Or.inl ⟨rfl, rfl, Or.inl ⟨rfl, rfl⟩⟩)

theorem metaOk_of_recoverable {d : Disk} {stream : Bytes} {owed : List SpoolRecord}
    (hr : Recoverable d stream owed) : MetaOk d := by
  obtain ⟨rfl, -⟩ | ⟨m, ws, part, -, hp⟩ := hr
  · exact fun m hm => (by cases hm)
  · intro m' hm'
    rw [hp.info] at hm'
    rw [← Option.some.inj hm']
    exact hp.acked

theorem inv_restart {d : Disk} {owed : List SpoolRecord} (hr : Recoverable d r.stream owed) :
    (r.restart d owed).Inv where
  base := ⟨Spool.ordered_new, metaOk_of_recoverable hr⟩
  consecutive _ := Spool.consecutive_new
  files := Or.inr (Or.inl ⟨rfl, rfl, hr⟩)

theorem live_begin {m : Meta} {old : List SpoolRecord} (hl : Live r.host m old r.lost r.owed)
    (outcomes : List WriteResult) : Live (r.begin outcomes) m old r.lost r.owed :=
  ⟨⟨hl.info, hl.ordered, hl.stream, hl.stream_ne, hl.nonneg, hl.acked, hl.acked_le,
    hl.next_le, hl.gap, hl.lostGap, hl.clean⟩, hl.logOpen, hl.log, hl.increasing,
    hl.oldAcked, hl.held⟩

/-- The files as `Close` leaves them, before a call of `Open`. -/
theorem Inv.closed (hi : r.Inv) (hf : r.host.failed = false) {outcomes : List WriteResult}
    (hok : ∀ o ∈ outcomes, o = .ok) :
    Recoverable (r.begin outcomes).close.disk r.stream r.owed := by
  obtain hfail | ⟨-, hclosed, hr⟩ | ⟨hstream, m, old, hl⟩ := hi.files
  · rw [hf] at hfail
    cases hfail
  · have hclose : (r.begin outcomes).close = r.begin outcomes := by
      rw [Host.close, begin, if_neg (by simp [hclosed])]
    rw [hclose]
    exact hr
  · rcases (live_begin hl outcomes).close with hfail | ⟨m', hm', hp⟩
    · rw [Host.failed_close (h := r.begin outcomes) hok] at hfail
      exact absurd hfail (by simp [begin, hf])
    · exact recoverable_of_promise hp (hm'.trans hstream)

theorem Inv.openDir (hi : r.Inv) (hf : r.host.failed = false) {outcomes : List WriteResult}
    (hok : ∀ o ∈ outcomes, o = .ok) (hsize : r.host.disk.logLength ≤ maxLogBytes) (limits : Limits)
    (newId : Ulid) :
    (r.step (.call (.openDir limits newId) outcomes)).Inv ∧
      Reopened r.stream r.owed (r.step (.call (.openDir limits newId) outcomes)).host.spool := by
  have hsize' : (r.begin outcomes).close.disk.logLength ≤ maxLogBytes := by
    rw [Disk.logLength, Host.close_log]
    exact hsize
  obtain ⟨hord, hne, hre⟩ := (hi.closed hf hok).load hsize' (r.begin outcomes).spool limits newId
  obtain ⟨-, hspool, hdirty, -, -, -, -⟩ := Host.openDir_ok (h := r.begin outcomes) hok limits newId
  have hcons :
      ((r.begin outcomes).spool.load (r.begin outcomes).close.disk limits newId).gap = false →
      ((r.begin outcomes).spool.load (r.begin outcomes).close.disk limits newId).Consecutive := by
    intro hgap
    obtain hgap' | ⟨hcons, -⟩ := hre
    · rw [hgap] at hgap'
      cases hgap'
    · exact hcons
  have hlive := @live_openDir (r.begin outcomes) r.owed hok limits newId _ rfl hord hne hcons
  have hready : r.ready (.openDir limits newId) = true := by simp [ready, SpoolCall.isOpen]
  have hbase : Base (r.begin outcomes) := ⟨hi.base.ordered, hi.base.info⟩
  rw [step, if_pos hready]
  refine ⟨⟨hbase.openDir limits newId, ?_, Or.inr (Or.inr ⟨rfl, ?_⟩)⟩, ?_⟩
  · dsimp only [SpoolCall.apply]
    rw [hspool]
    exact hcons
  · dsimp only [SpoolCall.apply, SpoolCall.owed, SpoolCall.drops]
    rw [hdirty, Bool.and_false, hspool]
    exact ⟨_, [], hlive⟩
  · dsimp only [SpoolCall.apply]
    rw [hspool]
    exact hre

theorem Inv.call (hi : r.Inv) {c : SpoolCall} (hc : c.isOpen = false)
    (outcomes : List WriteResult) : (r.step (.call c outcomes)).Inv := by
  rw [step]
  split_ifs with hready
  · have hrun : r.running = true := by
      rw [ready, hc, Bool.or_false] at hready
      exact hready
    have hbase : Base (r.begin outcomes) := ⟨hi.base.ordered, hi.base.info⟩
    refine ⟨hbase.apply c, consecutive_apply (h := r.begin outcomes) hi.base.ordered
      hi.consecutive hc, ?_⟩
    obtain hfail | ⟨hstopped, -⟩ | ⟨hstream, m, old, hl⟩ := hi.files
    · exact Or.inl (failed_apply (h := r.begin outcomes) hfail hc)
    · rw [hrun] at hstopped
      cases hstopped
    · rcases (live_begin hl outcomes).apply hc with hfail | hl'
      · exact Or.inl hfail
      · exact Or.inr (Or.inr ⟨rfl, hl'⟩)
  · exact hi

theorem Inv.recoverable (hi : r.Inv) (hf : r.host.failed = false) (hlost : r.lost = false) :
    Recoverable r.host.disk r.stream r.owed := by
  obtain hfail | ⟨-, -, hr⟩ | ⟨hstream, m, old, hl⟩ := hi.files
  · rw [hf] at hfail
    cases hfail
  · exact hr
  · rw [hlost] at hl
    rw [← hstream]
    exact hl.recoverable

theorem Inv.crash (hi : r.Inv) {c : SpoolCall} {point : ℕ} (hsafe : Safe r (.crash c point)) :
    (r.step (.crash c point)).Inv := by
  obtain ⟨hf, hlost, hpoint⟩ := hsafe
  have hok : (r.begin []).AllOk := fun o ho => (by cases ho)
  have hnil : (r.begin []).crashes = [] := rfl
  have hbefore := hi.recoverable hf hlost
  rw [step]
  split_ifs with hready
  · dsimp only
    cases hd : (c.apply (r.begin [])).crashes[point]? with
    | none => exact hi
    | some d =>
      apply inv_restart
      cases hc : c.isOpen with
      | true =>
        cases c with
        | openDir limits newId =>
          exact crashes_openDir hok hnil hbefore
            (hi.closed hf fun o ho => (by cases ho)) hpoint.1 hd hpoint.2
        | _ => cases hc
      | false =>
        obtain hfail | ⟨hstopped, -⟩ | ⟨hstream, m, old, hl⟩ := hi.files
        · rw [hf] at hfail
          cases hfail
        · rw [ready, hc, hstopped] at hready
          cases hready
        · have hl' := live_begin hl []
          rw [hlost] at hl'
          rw [← hstream]
          refine hl'.crashes hok hf hnil hc hd ?_
          rintro newId rfl
          exact hpoint
  · exact hi

theorem Inv.step (hi : r.Inv) {e : SpoolEvent} (hsafe : Safe r e) : (r.step e).Inv := by
  cases e with
  | call c outcomes =>
    cases c with
    | openDir limits newId => exact (hi.openDir hsafe.1 hsafe.2.1 hsafe.2.2 limits newId).1
    | append msg => exact hi.call rfl outcomes
    | ackUpTo seq => exact hi.call rfl outcomes
    | rotateIfGap newId => exact hi.call rfl outcomes
    | setRxSeq seq => exact hi.call rfl outcomes
    | flushMeta => exact hi.call rfl outcomes
  | crash c point => exact hi.crash hsafe
  | kill => exact inv_restart (hi.recoverable hsafe.1 hsafe.2)

theorem inv_run {es : List SpoolEvent} (h : Guarded SpoolRun.step Safe new es) :
    (run SpoolRun.step new es).Inv :=
  h.invariant inv_new fun _ _ hi hsafe => hi.step hsafe

/-- The spool after any safe run: the records are in order and counted, and without a gap none
is missing between the acked seq and the last one. -/
theorem representation {es : List SpoolEvent} (h : Guarded SpoolRun.step Safe new es) :
    (run SpoolRun.step new es).host.spool.Ordered ∧
      ((run SpoolRun.step new es).host.spool.gap = false →
        (run SpoolRun.step new es).host.spool.Consecutive) :=
  ⟨(inv_run h).base.ordered, (inv_run h).consecutive⟩

/-- A start in any safe run: a gap is known, or what is owed is there. -/
theorem reopened {es : List SpoolEvent} {limits : Limits} {newId : Ulid}
    {outcomes : List WriteResult}
    (h : Guarded SpoolRun.step Safe new (es ++ [.call (.openDir limits newId) outcomes])) :
    Reopened (run SpoolRun.step new es).stream (run SpoolRun.step new es).owed
      (run SpoolRun.step new (es ++ [.call (.openDir limits newId) outcomes])).host.spool := by
  rw [guarded_append] at h
  obtain ⟨hrun, hopen, -⟩ := h
  rw [run_append]
  exact ((inv_run hrun).openDir hopen.1 hopen.2.1 hopen.2.2 limits newId).2

section Examples

def tick : Message where
  type := ascii "event.kill"
  id := []
  ref := []
  ts := 0
  epoch := 0
  payload := .empty

/-- Messages, acks and crashes without a drop. -/
def plainRun : List SpoolEvent :=
  [.call (.openDir ⟨2, 1000⟩ default) [], .call (.append tick) [], .crash (.append tick) 3,
    .call (.openDir ⟨2, 1000⟩ default) [], .call (.append tick) [], .call (.ackUpTo 1) [], .kill]

/-- A spool for two messages, which drops one before the process ends. -/
def dropRun : List SpoolEvent :=
  [.call (.openDir ⟨2, 1000⟩ default) [], .call (.append tick) [], .call (.append tick) [],
    .call (.append tick) [], .kill, .call (.openDir ⟨2, 1000⟩ default) []]

theorem representation_plainRun :
    (run SpoolRun.step new plainRun).host.spool.Ordered ∧
      ((run SpoolRun.step new plainRun).host.spool.gap = false →
        (run SpoolRun.step new plainRun).host.spool.Consecutive) :=
  representation (by decide)

theorem reopened_plainRun :
    Reopened (run SpoolRun.step new plainRun).stream (run SpoolRun.step new plainRun).owed
      (run SpoolRun.step new (plainRun ++ [.call (.openDir ⟨2, 1000⟩ default) []])).host.spool :=
  reopened (by decide)

theorem not_reopened_dropRun :
    ¬Reopened (run SpoolRun.step new dropRun.dropLast).stream
      (run SpoolRun.step new dropRun.dropLast).owed (run SpoolRun.step new dropRun).host.spool := by
  have hgap : (run SpoolRun.step new dropRun).host.spool.gap = false := by decide
  have hcons : ¬(run SpoolRun.step new dropRun).host.spool.Consecutive := by decide
  rintro (hgap' | ⟨hcons', -⟩)
  · rw [hgap] at hgap'
    cases hgap'
  · exact hcons hcons'

end Examples

section LongLog

def longValue (n : ℕ) : Value := .obj [(ascii "a", .str (List.replicate n (byte 'x')))]

theorem fits_longValue (n : ℕ) : Fits (maxDepth + 1) (longValue n) := by
  refine .obj (List.nodup_singleton _) ?_
  intro k v hmem
  obtain ⟨-, rfl⟩ := Prod.mk.inj (List.mem_singleton.mp hmem)
  exact .str

def longMessage (n : ℕ) : Message :=
  { tick with payload := .ofValue (longValue n) (fits_longValue n) rfl }

theorem length_longPayload (n : ℕ) : (longMessage n).payload.text.length = n + 8 := by
  have hbytes : (List.replicate n (byte 'x')).flatMap escapeByte = List.replicate n (byte 'x') := by
    induction n with
    | zero => rfl
    | succ n ih =>
      rw [List.replicate_succ, List.flatMap_cons, ih]
      rfl
  have htext : (longMessage n).payload.text = dump (longValue n) := rfl
  have hkey : quoted (ascii "a") = ascii "\"a\"" := by decide
  rw [htext, longValue, dump, dumpMembers, dump, hkey, quoted, hbytes]
  simp [ascii]

theorem bytes_longMessage (n : ℕ) (seq : ℤ) : ((longMessage n).record seq).bytes = n + 114 := by
  have hlen := length_longPayload n
  have hpayload : ((longMessage n).record seq).payload = (longMessage n).payload := rfl
  have htype : ((longMessage n).record seq).type.length = 10 := rfl
  have hid : ((longMessage n).record seq).id.length = 0 := rfl
  have href : ((longMessage n).record seq).ref.length = 0 := rfl
  rw [SpoolRecord.bytes, hpayload, hlen, htype, hid, href]

/-- A process that has written so many long messages and nothing else. -/
structure Filled (n k : ℕ) (r : SpoolRun) : Prop where
  running : r.running = true
  logOpen : r.host.logOpen = true
  log : r.host.disk.log = r.host.spool.recs.map LogLine.whole
  limits : r.host.spool.limits = ⟨2000, 2 ^ 31⟩
  long : ∀ x ∈ r.host.spool.recs, x.payload = (longMessage n).payload
  count : r.host.spool.recs.length = k
  bytes : r.host.spool.bytes = k * (n + 114)
  stream : r.host.spool.streamId ≠ []
  next : r.host.spool.nextSeq = k + 1
  acked : r.host.spool.ackedSeq = 0
  gap : r.host.spool.gap = false

variable {n k : ℕ} {r : SpoolRun}

theorem allOk_begin (r : SpoolRun) : (r.begin []).AllOk := fun _ ho => (by cases ho)

theorem Filled.step (h : Filled n k r) (hk : k < 2000) (hbytes : (k + 1) * (n + 114) ≤ 2 ^ 31) :
    Filled n (k + 1) (r.step (.call (.append (longMessage n)) [])) ∧
      (r.step (.call (.append (longMessage n)) [])).host.metaDirty = true := by
  have hover : (r.begin []).spool.isOver ((longMessage n).record 0).bytes 100 = false := by
    have hbegin : (r.begin []).spool = r.host.spool := rfl
    have hcount := h.count
    rw [Nat.succ_mul] at hbytes
    rw [Spool.isOver, hbegin, h.limits, h.bytes, bytes_longMessage]
    simp only [Bool.or_eq_false_iff, decide_eq_false_iff_not]
    omega
  have hready : r.ready (.append (longMessage n)) = true := by
    rw [ready, h.running]
    rfl
  have hhost := Host.append_of_not_isOver (h := r.begin []) (allOk_begin r) h.logOpen hover
  rw [SpoolRun.step, if_pos hready]
  dsimp only [SpoolCall.apply]
  rw [hhost]
  refine ⟨⟨rfl, h.logOpen, ?_, h.limits, ?_, ?_, ?_, h.stream, ?_, h.acked, h.gap⟩, rfl⟩
  · dsimp only [begin, Spool.push]
    rw [h.log, List.map_append]
    rfl
  · intro x hx
    rcases List.mem_append.mp hx with hx | hx
    · exact h.long x hx
    · rw [List.mem_singleton.mp hx]
      rfl
  · dsimp only [begin, Spool.push]
    rw [List.length_append, h.count]
    rfl
  · dsimp only [begin, Spool.push]
    rw [h.bytes, bytes_longMessage, Nat.succ_mul]
  · dsimp only [begin, Spool.push]
    rw [h.next]
    push_cast
    rfl

theorem Filled.steps (h : Filled n 0 r) (hk : k ≤ 2000) (hbytes : k * (n + 114) ≤ 2 ^ 31) :
    Filled n k (run SpoolRun.step r (List.replicate k (.call (.append (longMessage n)) []))) := by
  induction k with
  | zero => exact h
  | succ k ih =>
    rw [List.replicate_succ', run_append, run_cons, run_nil]
    have hle : k * (n + 114) ≤ (k + 1) * (n + 114) := Nat.mul_le_mul_right _ (Nat.le_succ k)
    exact ((ih (by omega) (hle.trans hbytes)).step (by omega) hbytes).1

theorem Filled.logLength_ge (h : Filled n k r) : k * n ≤ r.host.disk.logLength := by
  have hline : ∀ x ∈ r.host.disk.log.map LogLine.cut, n ≤ x := by
    intro x hx
    rw [h.log, List.map_map, List.mem_map] at hx
    obtain ⟨rec, hrec, rfl⟩ := hx
    have hlen := length_longPayload n
    rw [← h.long rec hrec] at hlen
    rw [Function.comp_apply, LogLine.whole, SpoolRecord.line, SpoolRecord.text]
    simp only [List.length_append, List.length_cons]
    omega
  have hsum := List.card_nsmul_le_sum (r.host.disk.log.map LogLine.cut) n hline
  rw [List.length_map, h.log, List.length_map, h.count, ← h.log] at hsum
  exact hsum

/-- A log that is too long is not read, and nothing tells of a gap. -/
theorem Filled.not_consecutive (h : Filled n k r) (hdirty : r.host.metaDirty = true)
    (hlong : maxLogBytes < k * n) :
    (r.step (.call (.openDir ⟨2000, 2 ^ 31⟩ default) [])).host.spool.gap = false ∧
      ¬(r.step (.call (.openDir ⟨2000, 2 ^ 31⟩ default) [])).host.spool.Consecutive := by
  have hclose : (r.begin []).close.disk = ⟨some r.host.spool.toMeta, r.host.disk.log⟩ := by
    have hopen : (r.begin []).logOpen = true := h.logOpen
    have hdirty' : (r.begin []).metaDirty = true := hdirty
    rw [Host.close, if_pos hopen, if_pos hdirty', Host.flushMeta_ok (allOk_begin r)]
    rfl
  have hlog : Disk.loadLog ⟨some r.host.spool.toMeta, r.host.disk.log⟩ = ⟨[], 0⟩ := by
    rw [Disk.loadLog, if_pos]
    exact hlong.trans_le h.logLength_ge
  have hready : r.ready (.openDir ⟨2000, 2 ^ 31⟩ default) = true := by
    rw [ready, h.running]
    rfl
  have hspool := (Host.openDir_ok (allOk_begin r) ⟨2000, 2 ^ 31⟩ default).2.1
  have hk : k ≠ 0 := by
    rintro rfl
    rw [Nat.zero_mul] at hlong
    exact absurd hlong (Nat.not_lt_zero _)
  rw [hclose, Spool.load, hlog] at hspool
  rw [SpoolRun.step, if_pos hready]
  dsimp only [SpoolCall.apply]
  rw [hspool]
  simp only [Spool.loadMeta, Spool.toMeta, if_neg h.stream, h.gap, h.acked, h.next, Spool.dropAcked,
    Spool.bumpNext]
  refine ⟨rfl, ?_⟩
  rintro ⟨-, hlast⟩
  rw [Spool.lastSeq] at hlast
  rw [after, List.dropWhile_nil, List.length_nil] at hlast
  dsimp only [List.getLast?_nil, Option.elim_none] at hlast
  omega

/-- Long messages between two calls of `Open`. -/
def longRun (n k : ℕ) : List SpoolEvent :=
  .call (.openDir ⟨2000, 2 ^ 31⟩ default) [] ::
    List.replicate k (.call (.append (longMessage n)) []) ++
      [.call (.openDir ⟨2000, 2 ^ 31⟩ default) []]

theorem not_consecutive_of_long (hk : k ≤ 2000) (hbytes : k * (n + 114) ≤ 2 ^ 31)
    (hlong : maxLogBytes < k * n) :
    (run SpoolRun.step new (longRun n k)).host.spool.gap = false ∧
      ¬(run SpoolRun.step new (longRun n k)).host.spool.Consecutive := by
  have hstart : Filled n 0 (new.step (.call (.openDir ⟨2000, 2 ^ 31⟩ default) [])) :=
    ⟨rfl, rfl, rfl, rfl, fun _ hx => (by cases hx), rfl, (Nat.zero_mul _).symm, Ulid.ne_nil default,
      rfl, rfl, rfl⟩
  cases k with
  | zero =>
    rw [Nat.zero_mul] at hlong
    exact absurd hlong (Nat.not_lt_zero _)
  | succ k =>
    have hle : k * (n + 114) ≤ (k + 1) * (n + 114) := Nat.mul_le_mul_right _ (Nat.le_succ k)
    obtain ⟨hfilled, hdirty⟩ := (hstart.steps (by omega) (hle.trans hbytes)).step hk hbytes
    rw [longRun, run_append, run_cons, run_nil, List.replicate_succ', run_cons, run_append,
      run_cons, run_nil]
    exact hfilled.not_consecutive hdirty hlong

/-- A spool that may hold two gigabytes, with a log of more than one. -/
theorem not_consecutive_longRun :
    (run SpoolRun.step new (longRun (2 ^ 20 - 2048) 1100)).host.spool.gap = false ∧
      ¬(run SpoolRun.step new (longRun (2 ^ 20 - 2048) 1100)).host.spool.Consecutive :=
  not_consecutive_of_long (by norm_num) (by norm_num) (by norm_num [maxLogBytes])

end LongLog

end SpoolRun

end ReadyUp.Fleet
