import ReadyUp.Fleet.SpoolLog

/-!
# A message over a restart

A message that `Send` took is written as one line of `stream.log` and read back when the
server starts again. It comes back with its value if the file is not too long, the payload
leaves one level of nesting for the record around it, and its numbers are finite.
-/
namespace ReadyUp.Fleet

open Support JsonScan JsonText

/-- The record that `Append` makes of a message from the outbox. -/
def Out.record (out : Out) (seq : ℤ) (id : Bytes) (ts : ℤ) : SpoolRecord where
  seq := seq
  type := out.type
  id := id
  ref := out.ref
  ts := ts
  epoch := out.epoch
  critical := isCriticalType out.type
  payload := out.payload

/-- The record is that message, with a payload of the given value. -/
structure SpoolRecord.Carries (r' : SpoolRecord) (r : SpoolRecord) (v : Value) : Prop where
  seq : r'.seq = r.seq
  type : r'.type = r.type
  id : r'.id = r.id
  ref : r'.ref = r.ref
  ts : r'.ts = r.ts
  epoch : r'.epoch = r.epoch
  critical : r'.critical = r.critical
  payload : same v r'.payload.value = true

/-- A file of records as the spool writes them. -/
structure LogRecords (log : List SpoolRecord) : Prop where
  inRange : ∀ r ∈ log, r.InRange
  increasing : (0 :: log.map SpoolRecord.seq).Pairwise (· < ·)

/-- Some record that is read back from the file carries the message. -/
def Survives (log : List SpoolRecord) (r : SpoolRecord) (v : Value) : Prop :=
  ∃ loaded, loadLog (logText log) = some loaded ∧ ∃ r' ∈ loaded.recs, r'.Carries r v

section Reload

theorem mem_loadLog {log : List SpoolRecord} (hlog : LogRecords log) {loaded : LoadedLog}
    (h : loadLog (logText log) = some loaded) {r' : SpoolRecord} :
    r' ∈ loaded.recs ↔ ∃ r ∈ log, r.reload = some r' := by
  rw [loadLog_logText hlog.inRange] at h
  split_ifs at h
  rw [← Option.some.inj h,
    scan_eq (pairwise_reduceOption (fun _ _ => SpoolRecord.reload_seq) hlog.increasing),
    List.reduceOption_mem_iff, List.mem_map]

theorem value_reload {p q : Payload} (h : p.reload = some q) : q.value = reread p.value := by
  cases hv : parse p.text (maxDepth - 1) with
  | none =>
    rw [Payload.reload_of_none hv] at h
    cases h
  | some v =>
    obtain ⟨q', hq', htext⟩ := Payload.reload_of_some hv
    obtain rfl : q' = q := Option.some.inj (hq'.symm.trans h)
    have hp := parse_mono (Nat.sub_le maxDepth 1) hv
    rw [p.parse_text] at hp
    have hq := q'.parse_text
    rw [htext, parse_dump (fits_of_parse (parse_mono (Nat.sub_le maxDepth 1) hv))] at hq
    rw [Option.some.inj hp, Option.some.inj hq]

theorem isSome_reload (p : Payload) :
    p.reload.isSome = (parse p.text (maxDepth - 1)).isSome := by
  cases hv : parse p.text (maxDepth - 1) with
  | none => rw [Payload.reload_of_none hv]; rfl
  | some v =>
    obtain ⟨q, hq, -⟩ := Payload.reload_of_some hv
    rw [hq]
    rfl

theorem LogRecords.eq_of_seq {log : List SpoolRecord} (hlog : LogRecords log) {r s : SpoolRecord}
    (hr : r ∈ log) (hs : s ∈ log) (h : r.seq = s.seq) : r = s :=
  List.inj_on_of_nodup_map (hlog.increasing.tail.imp ne_of_lt) hr hs h

theorem reload_eq_some {r r' : SpoolRecord} :
    r.reload = some r' ↔ r.type ≠ [] ∧ ∃ p, r.payload.reload = some p ∧
    { r with payload := p } = r' := by
  rw [SpoolRecord.reload]
  split_ifs with h
  · simp [h]
  · simp [h]

theorem exists_loadLog {log : List SpoolRecord} (hlog : LogRecords log) :
    (∃ loaded, loadLog (logText log) = some loaded) ↔ (logText log).length ≤ maxLogBytes := by
  rw [loadLog_logText hlog.inRange]
  split_ifs with h
  · simp [h]
  · simp [not_lt.mp h]

end Reload

theorem survives_record_iff {log : List SpoolRecord} (hlog : LogRecords log) {r : SpoolRecord}
    (hmem : r ∈ log) (htype : r.type ≠ []) :
    Survives log r r.payload.value ↔
      (logText log).length ≤ maxLogBytes ∧ (parse r.payload.text (maxDepth - 1)).isSome ∧
        allFinite r.payload.value := by
  have hsame := same_reread (fits_of_parse r.payload.parse_text)
  rw [← isSome_reload]
  constructor
  · rintro ⟨loaded, hload, r', hr', hcarries⟩
    obtain ⟨s, hs, hreload⟩ := (mem_loadLog hlog hload).mp hr'
    have hseq : s.seq = r.seq := by rw [← SpoolRecord.reload_seq hreload, hcarries.seq]
    obtain rfl := hlog.eq_of_seq hs hmem hseq
    obtain ⟨-, p, hp, rfl⟩ := reload_eq_some.mp hreload
    have hpayload := hcarries.payload
    rw [value_reload hp, hsame] at hpayload
    exact ⟨(exists_loadLog hlog).mp ⟨loaded, hload⟩, Option.isSome_iff_exists.mpr ⟨p, hp⟩, hpayload⟩
  · rintro ⟨hlen, hdepth, hfinite⟩
    obtain ⟨loaded, hload⟩ := (exists_loadLog hlog).mpr hlen
    obtain ⟨p, hp⟩ := Option.isSome_iff_exists.mp hdepth
    have hreload := reload_eq_some.mpr ⟨htype, p, hp, rfl⟩
    refine ⟨loaded, hload, _, (mem_loadLog hlog hload).mpr ⟨r, hmem, hreload⟩, ?_⟩
    refine ⟨rfl, rfl, rfl, rfl, rfl, rfl, rfl, ?_⟩
    rw [value_reload hp, hsame]
    exact hfinite

/-- A message that `Send` took survives a restart exactly when the file is at most a GiB,
the payload is nested one level less than `Send` allows, and all its numbers are finite. -/
theorem survives_iff {outboxMax : ℕ} {outbox : List Out} {type payloadJson ref : Bytes} {epoch : ℤ}
    {out : Out} (hsend : send outboxMax outbox type payloadJson epoch true ref = .ok out)
    {v : Value} (hv : parse (orEmptyObject payloadJson) maxDepth = some v) {log : List SpoolRecord}
    (hlog : LogRecords log) {seq ts : ℤ} {id : Bytes} (hmem : out.record seq id ts ∈ log) :
    Survives log (out.record seq id ts) v ↔
      (logText log).length ≤ maxLogBytes ∧
        (parse (blanks (orEmptyObject payloadJson)) (maxDepth - 1)).isSome ∧ allFinite v := by
  obtain ⟨hvalid, htype, -, -, -, htext, hparse⟩ := send_eq_ok hsend
  obtain rfl : v = out.payload.value := Option.some.inj (hv.symm.trans hparse)
  have hne : (out.record seq id ts).type ≠ [] := by
    rw [Out.record, htype]
    exact ne_nil_of_isValidType hvalid
  rw [← htext]
  exact survives_record_iff hlog hmem hne

section Nested

/-- An object with so many arrays in one another. -/
def nestedText (n : ℕ) : Bytes :=
  byte '{' :: ascii "\"a\":" ++ List.replicate n (byte '[') ++
    List.replicate n (byte ']') ++ [byte '}']

def nestedOut (n : ℕ) (hbreak : (10 : UInt8) ∉ nestedText n)
    (hobj : (parse (nestedText n) maxDepth).any Value.isObj = true) : Out where
  type := ascii "event.kill"
  payload := ⟨nestedText n, hbreak, hobj⟩
  ref := []
  epoch := 0
  reliable := true
  afterSeq := 0

def nestedOut63 : Out := nestedOut 63 (by decide) (by decide +kernel)

/-- The most that `Send` takes. -/
def nestedOut64 : Out := nestedOut 64 (by decide) (by decide +kernel)

theorem logRecords_singleton {out : Out} (h : out.epoch = 0) : LogRecords [out.record 1 [] 0] where
  inRange := by
    intro r hr
    rw [List.mem_singleton] at hr
    have hseq : InInt64 1 := by decide
    have hzero : InInt64 0 := by decide
    rw [hr]
    exact ⟨hseq, hzero, h ▸ hzero⟩
  increasing := by
    have hlt : [(0 : ℤ), 1].Pairwise (· < ·) := by decide
    exact hlt

theorem survives_nested : Survives [nestedOut63.record 1 [] 0] (nestedOut63.record 1 [] 0)
    nestedOut63.payload.value := by
  have hsend : send 1 [] (ascii "event.kill") (nestedText 63) 0 true [] =
      .ok nestedOut63 := by decide +kernel
  exact (survives_iff hsend nestedOut63.payload.parse_text
    (logRecords_singleton rfl) List.mem_cons_self).mpr
    ⟨by decide +kernel, by decide +kernel, by decide +kernel⟩

/-- `Send` takes a payload that is nested as deep as it allows, and the spool cannot read it
back. -/
theorem nested_lost :
    send 1 [] (ascii "event.kill") (nestedText 64) 0 true [] = .ok nestedOut64 ∧
      LogRecords [nestedOut64.record 1 [] 0] ∧
      parse (orEmptyObject (nestedText 64)) maxDepth = some nestedOut64.payload.value ∧
      ¬Survives [nestedOut64.record 1 [] 0]
        (nestedOut64.record 1 [] 0) nestedOut64.payload.value := by
  refine ⟨by decide +kernel, logRecords_singleton rfl, nestedOut64.payload.parse_text, ?_⟩
  intro h
  have hdepth := ((survives_record_iff (logRecords_singleton rfl) List.mem_cons_self
    (by decide)).mp h).2.1
  exact absurd hdepth (by decide +kernel)

end Nested

end ReadyUp.Fleet
