import Mathlib.Logic.Relation
import ReadyUp.Fleet.SpoolMemory

/-!
# What the files keep

`Promise` says what the files are good for at the next start: a gap is on record, or every
message that is still owed is in a whole line of the log, under consecutive seqs from the
acked one on. `load_consecutive` is the start that such files give.
-/
namespace ReadyUp.Fleet

open Support

section Copies

/-- The same message after any number of restarts: a restart only writes the payload anew. -/
structure Copy (r r' : SpoolRecord) : Prop where
  seq : r'.seq = r.seq
  type : r'.type = r.type
  id : r'.id = r.id
  ref : r'.ref = r.ref
  ts : r'.ts = r.ts
  epoch : r'.epoch = r.epoch
  critical : r'.critical = r.critical
  payload : Relation.ReflTransGen (fun p q => Payload.reload p = some q) r.payload r'.payload

theorem Copy.refl (r : SpoolRecord) : Copy r r := ⟨rfl, rfl, rfl, rfl, rfl, rfl, rfl, .refl⟩

theorem Copy.trans {r r' r'' : SpoolRecord} (h : Copy r r') (h' : Copy r' r'') : Copy r r'' :=
  ⟨h'.seq.trans h.seq, h'.type.trans h.type, h'.id.trans h.id, h'.ref.trans h.ref, h'.ts.trans h.ts,
    h'.epoch.trans h.epoch, h'.critical.trans h.critical, h.payload.trans h'.payload⟩

theorem copy_of_reload {r r' : SpoolRecord} (h : r.reload = some r') : Copy r r' := by
  rw [SpoolRecord.reload] at h
  split_ifs at h
  obtain ⟨p, hp, rfl⟩ := Option.map_eq_some_iff.mp h
  exact ⟨rfl, rfl, rfl, rfl, rfl, rfl, rfl, .single hp⟩

theorem copy_of_read {l : LogLine} {r' : SpoolRecord} (h : l.read = some r') :
    Copy l.record r' := by
  rw [LogLine.read] at h
  split_ifs at h
  exact copy_of_reload h

/-- Every message has a copy among the records. -/
def Holding (rs owed : List SpoolRecord) : Prop := ∀ r ∈ owed, ∃ r' ∈ rs, Copy r r'

theorem Holding.refl (rs : List SpoolRecord) : Holding rs rs := fun r hr => ⟨r, hr, .refl r⟩

theorem Holding.subset {rs owed owed' : List SpoolRecord} (h : Holding rs owed)
    (hsub : ∀ r ∈ owed', r ∈ owed) : Holding rs owed' := fun r hr => h r (hsub r hr)

theorem Holding.trans {rs rs' owed : List SpoolRecord} (h : Holding rs owed) (h' : Holding rs' rs) :
    Holding rs' owed := by
  intro r hr
  obtain ⟨r', hr', hcopy⟩ := h r hr
  obtain ⟨r'', hr'', hcopy'⟩ := h' r' hr'
  exact ⟨r'', hr'', hcopy.trans hcopy'⟩

end Copies

section Promise

/-- What the files promise: a gap on record, or every message that is owed in a whole line,
under consecutive seqs. `part` is what a crash left of one more line. -/
structure Promise (d : Disk) (m : Meta) (ws : List SpoolRecord) (part : List LogLine)
    (owed : List SpoolRecord) : Prop where
  info : d.info = some m
  log : d.log = ws.map LogLine.whole ++ part
  single : part.length ≤ 1
  stream : m.streamId ≠ []
  nonneg : 0 ≤ m.ackedSeq
  acked : m.ackedSeq < m.nextSeq
  increasing : (0 :: seqs (ws ++ part.map LogLine.record)).Pairwise (· < ·)
  held : m.gap = true ∨
    (Numbered (m.ackedSeq + 1) (seqs (after m.ackedSeq (ws ++ part.map LogLine.record))) ∧
      m.nextSeq ≤ m.ackedSeq + (after m.ackedSeq ws).length + 1 ∧
      Holding (after m.ackedSeq ws) owed)

theorem read_whole (r : SpoolRecord) : (LogLine.whole r).read = r.reload := by
  rw [LogLine.read, LogLine.whole, SpoolRecord.line, List.length_append, if_neg (by simp)]

theorem map_read_whole (ws : List SpoolRecord) :
    (ws.map LogLine.whole).map LogLine.read = ws.map SpoolRecord.reload := by
  have hwhole : LogLine.read ∘ LogLine.whole = SpoolRecord.reload := by
    funext r
    rw [Function.comp_apply, read_whole]
  rw [List.map_map, hwhole]

theorem read_seq {l : LogLine} {r : SpoolRecord} (h : l.read = some r) : r.seq = l.record.seq :=
  (copy_of_read h).seq

theorem numbered_dropWhile_append {a : ℤ} {p : ℤ → Bool} {l m : List ℤ}
    (h : Numbered a ((l ++ m).dropWhile p)) : Numbered a (l.dropWhile p) := by
  rw [List.dropWhile_append] at h
  split_ifs at h with hnil
  · rw [List.isEmpty_iff.mp hnil]
    trivial
  · exact (numbered_append.mp h).1

theorem length_after_append (a : ℤ) (rs rs' : List SpoolRecord) :
    (after a rs).length ≤ (after a (rs ++ rs')).length := by
  rw [after, after, List.dropWhile_append]
  split_ifs with hnil
  · rw [List.isEmpty_iff.mp hnil]
    exact Nat.zero_le _
  · rw [List.length_append]
    omega

theorem exists_reload {ws : List SpoolRecord} (h : ∀ w ∈ ws, w.reload ≠ none) :
    ∃ ws', ws.map SpoolRecord.reload = ws'.map some ∧ seqs ws' = seqs ws ∧ Holding ws' ws := by
  induction ws with
  | nil => exact ⟨[], rfl, rfl, fun r hr => (by cases hr)⟩
  | cons w ws ih =>
    obtain ⟨w', hw'⟩ := Option.ne_none_iff_exists'.mp (h w List.mem_cons_self)
    obtain ⟨ws', hmap, hseqs, hhold⟩ := ih fun w hw => h w (List.mem_cons_of_mem _ hw)
    refine ⟨w' :: ws', ?_, ?_, ?_⟩
    · rw [List.map_cons, List.map_cons, hmap, hw']
    · rw [seqs_cons, seqs_cons, hseqs, SpoolRecord.reload_seq hw']
    · intro r hr
      rcases List.mem_cons.mp hr with rfl | hr
      · exact ⟨w', List.mem_cons_self, copy_of_reload hw'⟩
      · obtain ⟨r', hr', hcopy⟩ := hhold r hr
        exact ⟨r', List.mem_cons_of_mem _ hr', hcopy⟩

variable {d : Disk} {m : Meta} {ws : List SpoolRecord} {part : List LogLine}
    {owed : List SpoolRecord}

namespace Promise

theorem loadLog_eq (h : Promise d m ws part owed) (hsize : d.logLength ≤ maxLogBytes) :
    d.loadLog = ⟨(ws.map SpoolRecord.reload ++ part.map LogLine.read).reduceOption,
      ((ws.map SpoolRecord.reload ++ part.map LogLine.read).filter Option.isNone).length⟩ := by
  have hmap : d.log.map LogLine.read = ws.map SpoolRecord.reload ++ part.map LogLine.read := by
    rw [h.log, List.map_append, map_read_whole]
  have hinc : (0 :: d.log.map fun l => l.record.seq).Pairwise (· < ·) := by
    have hrecs : (d.log.map fun l => l.record.seq) = seqs (ws ++ part.map LogLine.record) := by
      rw [h.log, seqs, List.map_append, List.map_append, List.map_map, List.map_map]
      rfl
    rw [hrecs]
    exact h.increasing
  have hread := pairwise_reduceOption (fun _ _ => read_seq) hinc
  rw [Disk.loadLog, if_neg (not_lt.mpr hsize), scan_eq hread, hmap]

/-- The part of a line is read as nothing or as its record. -/
theorem seqs_part (h : Promise d m ws part owed) :
    seqs (part.map LogLine.read).reduceOption = [] ∨
      seqs (part.map LogLine.read).reduceOption = seqs (part.map LogLine.record) := by
  cases part with
  | nil => exact Or.inl rfl
  | cons l part =>
    obtain rfl : part = [] := List.length_eq_zero_iff.mp (by have := h.single; simpa using this)
    cases hl : l.read with
    | none => exact Or.inl (by simp [hl])
    | some r =>
      right
      have := read_seq hl
      simp [hl, this]

/-- The records that `Open` retains when every whole line is readable. -/
theorem after_loadLog (h : Promise d m ws part owed) (hsize : d.logLength ≤ maxLogBytes)
    (hgap : m.gap = false) (hread : ∀ w ∈ ws, w.reload ≠ none) :
    Numbered (m.ackedSeq + 1) (seqs (after m.ackedSeq d.loadLog.recs)) ∧
      m.nextSeq ≤ m.ackedSeq + (after m.ackedSeq d.loadLog.recs).length + 1 ∧
      Holding (after m.ackedSeq d.loadLog.recs) owed := by
  obtain hgap' | ⟨hnum, hnext, hhold⟩ := h.held
  · rw [hgap] at hgap'
    cases hgap'
  obtain ⟨ws', hmap, hseqs, hcopies⟩ := exists_reload hread
  have hinc := Spool.loadLog_increasing d
  have hrecs : d.loadLog.recs = ws' ++ (part.map LogLine.read).reduceOption := by
    rw [h.loadLog_eq hsize, hmap, List.reduceOption_append]
    simp [List.reduceOption]
  rw [hrecs] at hinc ⊢
  refine ⟨?_, ?_, ?_⟩
  · rw [seqs_after, seqs_append] at hnum
    rw [seqs_after, seqs_append, hseqs]
    rcases h.seqs_part with hnil | heq
    · rw [hnil, List.append_nil]
      exact numbered_dropWhile_append hnum
    · rw [heq]
      exact hnum
  · have hlen : (after m.ackedSeq ws').length = (after m.ackedSeq ws).length := by
      rw [← length_seqs, ← length_seqs, seqs_after, seqs_after, hseqs]
    have := length_after_append m.ackedSeq ws' (part.map LogLine.read).reduceOption
    omega
  · apply hhold.trans
    intro w hw
    have hws := h.increasing.tail.sublist ((List.sublist_append_left ws _).map SpoolRecord.seq)
    obtain ⟨hw, hlt⟩ := (mem_after hws).mp hw
    obtain ⟨w', hw', hcopy⟩ := hcopies w hw
    refine ⟨w', (mem_after hinc.tail).mpr ⟨List.mem_append_left _ hw', ?_⟩, hcopy⟩
    rw [hcopy.seq]
    exact hlt

theorem readable_of_bad (h : Promise d m ws part owed) (hsize : d.logLength ≤ maxLogBytes)
    (hbad : d.loadLog.bad = 0) : ∀ w ∈ ws, w.reload ≠ none := by
  intro w hw hnone
  rw [h.loadLog_eq hsize] at hbad
  have hmem : none ∈ (ws.map SpoolRecord.reload ++ part.map LogLine.read).filter Option.isNone := by
    rw [List.mem_filter, List.mem_append, List.mem_map]
    exact ⟨Or.inl ⟨w, hw, hnone⟩, rfl⟩
  exact absurd (List.length_eq_zero_iff.mp hbad) (List.ne_nil_of_mem hmem)

theorem load_eq (h : Promise d m ws part owed) (s : Spool) (limits : Limits) (newId : Ulid) :
    s.load d limits newId = Spool.bumpNext
      { limits
        recs := after m.ackedSeq d.loadLog.recs
        bytes := size d.loadLog.recs - size (d.loadLog.recs.takeWhile fun r => r.seq ≤ m.ackedSeq)
        dropped := s.dropped
        streamId := m.streamId
        nextSeq := m.nextSeq
        ackedSeq := m.ackedSeq
        rxSeq := max 0 m.rxSeq
        gap := m.gap || 0 < d.loadLog.bad } := by
  have hnonneg := h.nonneg
  have hacked : max 0 m.ackedSeq = m.ackedSeq := max_eq_right h.nonneg
  have hnext : max 1 m.nextSeq = m.nextSeq := max_eq_right (by have := h.acked; omega)
  rw [Spool.load, h.info]
  simp only [Spool.loadMeta, if_neg h.stream, Spool.dropAcked, hacked, hnext]
  rfl

theorem load_consecutive (h : Promise d m ws part owed) (hsize : d.logLength ≤ maxLogBytes)
    {s : Spool} {limits : Limits} {newId : Ulid} (hgap : (s.load d limits newId).gap = false) :
    (s.load d limits newId).Consecutive ∧ Holding (s.load d limits newId).recs owed := by
  rw [h.load_eq, Spool.bumpNext, Bool.or_eq_false_iff, decide_eq_false_iff_not] at hgap
  have hread := h.readable_of_bad hsize (Nat.eq_zero_of_not_pos hgap.2)
  obtain ⟨hnum, hnext, hhold⟩ := h.after_loadLog hsize hgap.1 hread
  rw [h.load_eq]
  exact ⟨Spool.consecutive_bumpNext hnum h.acked hnext, hhold⟩

theorem ordered_load (h : Promise d m ws part owed) (s : Spool) (limits : Limits) (newId : Ulid) :
    (s.load d limits newId).Ordered := by
  apply Spool.ordered_load
  intro m' hm'
  rw [h.info] at hm'
  obtain rfl := Option.some.inj hm'
  exact h.acked

/-- The files between the two writes of `Open`: only a part of a line may be lost from the log. -/
theorem rewritten (h : Promise d m ws part owed) (hsize : d.logLength ≤ maxLogBytes)
    (hread : m.gap = true ∨ ∀ w ∈ ws, w.reload ≠ none) (s : Spool) (limits : Limits)
    (newId : Ulid) : Promise { d with log := (s.load d limits newId).recs.map LogLine.whole } m
      (s.load d limits newId).recs [] owed := by
  have hord := h.ordered_load s limits newId
  have hafter : after m.ackedSeq (s.load d limits newId).recs = (s.load d limits newId).recs := by
    apply hord.after_recs
    rw [h.load_eq]
    exact le_rfl
  refine ⟨h.info, (List.append_nil _).symm, Nat.zero_le _, h.stream, h.nonneg, h.acked, ?_, ?_⟩
  · rw [List.map_nil, List.append_nil]
    exact hord.positive
  · rw [List.map_nil, List.append_nil, hafter]
    cases hgap : m.gap with
    | true => exact Or.inl rfl
    | false =>
      right
      rw [h.load_eq]
      exact h.after_loadLog hsize hgap (hread.resolve_left (by simp [hgap]))

end Promise

end Promise

section Bytes

/-- The bytes of `stream.log`. -/
def Disk.text (d : Disk) : Bytes := d.log.flatMap fun l => l.record.line.take l.cut

theorem flatMap_whole (ws : List SpoolRecord) :
    ((ws.map LogLine.whole).flatMap fun l => l.record.line.take l.cut) = logText ws := by
  induction ws with
  | nil => rfl
  | cons w ws ih =>
    rw [List.map_cons, List.flatMap_cons, ih, LogLine.whole, List.take_length]
    rfl

theorem LogLine.readLine_take {l : LogLine} (hrange : l.record.InRange)
    (hcut : l.cut ≤ l.record.text.length) : readLine (l.record.text.take l.cut) = l.read := by
  rw [LogLine.read]
  split_ifs with hlt
  · exact Fleet.readLine_take hrange hlt
  · rw [le_antisymm hcut (not_lt.mp hlt), List.take_length, readLine_text hrange]

/-- A file of whole lines, and of a part of one more, is read as its lines are. -/
theorem loadLog_disk {d : Disk} {ws : List SpoolRecord} {part : List LogLine}
    (hlog : d.log = ws.map LogLine.whole ++ part) (hsingle : part.length ≤ 1)
    (hpart : ∀ l ∈ part, 0 < l.cut ∧ l.cut ≤ l.record.text.length)
    (hrange : ∀ l ∈ d.log, l.record.InRange) : (loadLog d.text).getD ⟨[], 0⟩ = d.loadLog := by
  have hlength : d.text.length = d.logLength := by
    rw [Disk.text, Disk.logLength, List.length_flatMap]
    congr 1
    apply List.map_congr_left
    intro l hl
    have hle : l.cut ≤ l.record.line.length := by
      rw [hlog, List.mem_append] at hl
      rcases hl with hl | hl
      · obtain ⟨w, -, rfl⟩ := List.mem_map.mp hl
        exact le_rfl
      · have := (hpart l hl).2
        rw [SpoolRecord.line, List.length_append]
        omega
    rw [List.length_take, min_eq_left hle]
  have hws : ∀ w ∈ ws, w.InRange := by
    intro w hw
    apply hrange (.whole w)
    rw [hlog]
    exact List.mem_append_left _ (List.mem_map_of_mem hw)
  have hlines : (logLines d.text).map readLine = d.log.map LogLine.read := by
    rw [Disk.text, hlog, List.flatMap_append, flatMap_whole, List.map_append, map_read_whole,
      ← map_readLine_text hws]
    cases part with
    | nil =>
      rw [List.flatMap_nil, logLines_append hws List.not_mem_nil, if_pos rfl]
      simp
    | cons l part =>
      obtain rfl : part = [] := List.length_eq_zero_iff.mp (by simpa using hsingle)
      have hl : l.record.InRange := hrange l (by rw [hlog]; simp)
      obtain ⟨hpos, hcut⟩ := hpart l List.mem_cons_self
      have htake : l.record.line.take l.cut = l.record.text.take l.cut := by
        rw [SpoolRecord.line, List.take_append_of_le_length hcut]
      have hne : l.record.text.take l.cut ≠ [] := by
        rw [Ne, List.take_eq_nil_iff, not_or]
        exact ⟨hpos.ne', l.record.text_ne_nil⟩
      have hbreak : (10 : UInt8) ∉ l.record.text.take l.cut :=
        fun hmem => SpoolRecord.noBreak_text hl (List.mem_of_mem_take hmem)
      rw [List.flatMap_singleton, htake, logLines_append hws hbreak, if_neg hne, List.map_append,
        List.map_singleton, List.map_singleton, LogLine.readLine_take hl hcut]
  rw [loadLog, Disk.loadLog, hlength, hlines]
  split_ifs <;> rfl

end Bytes

end ReadyUp.Fleet
