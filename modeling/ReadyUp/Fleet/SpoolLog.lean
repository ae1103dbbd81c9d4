import Mathlib.Data.List.ReduceOption
import ReadyUp.Fleet.Outbox

/-!
# The file of the spool

`stream.log` holds one JSON record a line. `SpoolRecord.line` is what the spool writes for a
message and `loadLog` is what it makes of a file when it starts.

The record has the payload in it as text, one level deeper than `Send` checked it, so it is
read with one level of nesting less (`parse_text`); a record that is read back has the
payload written anew (`readLine_text`).
-/
namespace ReadyUp.Fleet

open Support JsonScan JsonText

def asInt (dflt : ℤ) : Value → ℤ
  | .int i => i
  | .num n => if n.isFinite then n.toInt else dflt
  | _ => dflt

/-- `Dump` of an object that was read. -/
def Payload.ofValue (v : Value) (hfits : Fits (maxDepth + 1) v) (hobj : v.isObj = true) :
    Payload where
  text := dump v
  noBreak := (printable_dump hfits).notMem
  isObj := by
    rw [parse_dump hfits, Option.any_some]
    cases v with
    | obj o => rw [reread, Value.isObj]
    | _ => simp [Value.isObj] at hobj

structure SpoolRecord where
  seq : ℤ
  type : Bytes
  id : Bytes
  ref : Bytes
  ts : ℤ
  epoch : ℤ
  critical : Bool
  payload : Payload
  deriving DecidableEq

namespace SpoolRecord

variable (r : SpoolRecord)

def bytes : ℕ :=
  r.payload.text.length + r.type.length + r.id.length + r.ref.length + 96

/-- `RecordLine` up to its line break. -/
def text : Bytes :=
  byte '{' :: ascii "\"seq\":" ++ toDecimal r.seq ++
    ascii ",\"type\":" ++ quoted r.type ++
    ascii ",\"id\":" ++ quoted r.id ++
    (if r.ref = [] then [] else ascii ",\"ref\":" ++ quoted r.ref) ++
    ascii ",\"ts\":" ++ toDecimal r.ts ++
    ascii ",\"epoch\":" ++ toDecimal r.epoch ++
    (if r.critical then ascii ",\"crit\":true" else ascii ",\"crit\":false") ++
    ascii ",\"payload\":" ++ r.payload.text ++ [byte '}']

/-- `RecordLine` -/
def line : Bytes := r.text ++ [10]

def fields : List (Bytes × Value) :=
  [(ascii "seq", .int r.seq), (ascii "type", .str r.type), (ascii "id", .str r.id)] ++
    (if r.ref = [] then [] else [(ascii "ref", .str r.ref)]) ++
    [(ascii "ts", .int r.ts), (ascii "epoch", .int r.epoch), (ascii "crit", .bool r.critical)]

/-- The numbers are those of an `int64_t`. -/
structure InRange : Prop where
  seq : InInt64 r.seq
  ts : InInt64 r.ts
  epoch : InInt64 r.epoch

end SpoolRecord

section Reading

/-- The record in a line that is read: it needs a type and an object as payload. -/
def readRecord (v : Value) (hfits : Fits (maxDepth + 1) v) : Option SpoolRecord :=
  let int key := (v.get (ascii key)).elim 0 (asInt 0)
  let str key := (v.get (ascii key)).elim [] Value.asStr
  match hp : v.get (ascii "payload") with
  | none => none
  | some p =>
    if str "type" = [] then none
    else if hobj : p.isObj = true then
      some
        { seq := int "seq"
          type := str "type"
          id := str "id"
          ref := str "ref"
          ts := int "ts"
          epoch := int "epoch"
          critical := (v.get (ascii "crit")).elim false Value.asBool
          payload := .ofValue p ((hfits.get hp).mono (Nat.le_succ _)) hobj }
    else none

/-- A line of the file, none if it is unreadable. -/
def readLine (line : Bytes) : Option SpoolRecord :=
  match hv : parse line maxDepth with
  | none => none
  | some v => if v.isObj then readRecord v (fits_of_parse hv) else none

/-- The records that were read, and how many lines were skipped. -/
structure LoadedLog where
  recs : List SpoolRecord
  bad : ℕ
  deriving DecidableEq

/-- The loop of `LoadLog`: a record whose seq does not rise is skipped as well. -/
def scan : ℤ → List (Option SpoolRecord) → LoadedLog
  | _, [] => ⟨[], 0⟩
  | prev, none :: ls =>
    let l := scan prev ls
    { l with bad := l.bad + 1 }
  | prev, some r :: ls =>
    if r.seq ≤ prev then
      let l := scan prev ls
      { l with bad := l.bad + 1 }
    else
      let l := scan r.seq ls
      { l with recs := r :: l.recs }

def maxLogBytes : ℕ := 2 ^ 30

/-- The lines of a file that are not empty; the last one need not end in a line break. -/
def logLines (text : Bytes) : List Bytes := (text.splitOn 10).filter fun l => !l.isEmpty

/-- `LoadLog`, none if the file is not read at all. -/
def loadLog (text : Bytes) : Option LoadedLog :=
  if text.length > maxLogBytes then none else some (scan 0 ((logLines text).map readLine))

end Reading

section Members

variable {levels : ℕ}

/-- A member of an object that is not the last one. -/
def memberText (kv : Bytes × Value) : Bytes :=
  quoted kv.1 ++ byte ':' :: (dump kv.2 ++ [byte ','])

/-- Members that come back as they were written. -/
def Plain (levels : ℕ) (o : List (Bytes × Value)) : Prop :=
  ∀ kv ∈ o, Fits levels kv.2 ∧ reread kv.2 = kv.2

theorem members_memberText {o : List (Bytes × Value)} (hplain : Plain levels o)
    {done : List (Bytes × Value)} (hkeys : (keys done ++ keys o).Nodup) (fuel : ℕ) (t : Bytes) :
    members (value levels) (fuel + o.length) done (o.flatMap memberText ++ t) =
      members (value levels) fuel (done ++ o) t := by
  induction o generalizing done with
  | nil => simp
  | cons kv o ih =>
    obtain ⟨k, v⟩ := kv
    obtain ⟨hfits, hreread⟩ := hplain _ List.mem_cons_self
    have hk : k ∉ keys done := by
      intro hmem
      exact (List.nodup_append.mp hkeys).2.2 k hmem k List.mem_cons_self rfl
    have hkeys' : (keys (done ++ [(k, v)]) ++ keys o).Nodup := by simpa [keys] using hkeys
    have hend := numEnd_cons (c := byte ',') (by decide) (o.flatMap memberText ++ t)
    have hvalue := value_dump hfits hend
    rw [hreread] at hvalue
    rw [List.length_cons, ← Nat.add_assoc, members, List.flatMap_cons, memberText]
    simp only [List.append_assoc, List.cons_append, List.nil_append]
    rw [quoted_append, ws_cons (by decide), ← quoted_append, string_quoted,
      Option.bind_some, expect, ws_cons (by decide)]
    simp only [if_true, Option.bind_some, hvalue]
    rw [next, ws_cons (by decide)]
    simp only [if_true, Option.bind_some, assign_of_notMem hk]
    rw [ih (fun kv hmem => hplain kv (List.mem_cons_of_mem _ hmem)) hkeys']
    simp

theorem members_last {done : List (Bytes × Value)} {k : Bytes} (hk : k ∉ keys done) {s : Bytes}
    {y : Value × Bytes} (hs : value levels s = some y) (hy : Ended y.1 y.2)
    (hws : ws y.2 = []) (fuel : ℕ) :
    members (value levels) (fuel + 1) done (quoted k ++ byte ':' :: (s ++ [byte '}'])) =
      some (.obj (done ++ [(k, y.1)]), []) := by
  have hvalue : value levels (s ++ [byte '}']) = some (y.1, y.2 ++ [byte '}']) := by
    rw [value_append le_rfl s y.1 y.2 hs hy, hs]
    rfl
  have hnext : ws (y.2 ++ [byte '}']) = [byte '}'] := by
    rw [ws, List.dropWhile_append]
    rw [ws] at hws
    simp [hws, isWs, byte]
  rw [members, quoted_append, ws_cons (by decide), ← quoted_append, string_quoted,
    Option.bind_some, expect, ws_cons (by decide)]
  simp only [if_true, Option.bind_some, hvalue, next, hnext]
  simp [assign_of_notMem hk, byte]

theorem members_last_eq_none {done : List (Bytes × Value)} {k : Bytes} {s : Bytes}
    (hs : value levels (s ++ [byte '}']) = none) (fuel : ℕ) :
    members (value levels) (fuel + 1) done (quoted k ++ byte ':' :: (s ++ [byte '}'])) = none := by
  rw [members, quoted_append, ws_cons (by decide), ← quoted_append, string_quoted,
    Option.bind_some, expect, ws_cons (by decide)]
  simp only [if_true, Option.bind_some, hs]
  rfl

theorem length_le_memberText (o : List (Bytes × Value)) :
    o.length ≤ (o.flatMap memberText).length := by
  induction o with
  | nil => exact le_rfl
  | cons kv o ih =>
    rw [List.flatMap_cons, List.length_append, List.length_cons, memberText, List.length_append,
      List.length_cons]
    omega

end Members

namespace SpoolRecord

variable {r : SpoolRecord}

theorem text_eq (r : SpoolRecord) :
    r.text = byte '{' :: (r.fields.flatMap memberText ++
      (quoted (ascii "payload") ++ byte ':' :: (r.payload.text ++ [byte '}']))) := by
  have hseq : ascii "\"seq\":" = quoted (ascii "seq") ++ [byte ':'] := by decide
  have htype : ascii ",\"type\":" = byte ',' :: (quoted (ascii "type") ++ [byte ':']) := by decide
  have hid : ascii ",\"id\":" = byte ',' :: (quoted (ascii "id") ++ [byte ':']) := by decide
  have href : ascii ",\"ref\":" = byte ',' :: (quoted (ascii "ref") ++ [byte ':']) := by decide
  have hts : ascii ",\"ts\":" = byte ',' :: (quoted (ascii "ts") ++ [byte ':']) := by decide
  have hepoch :
      ascii ",\"epoch\":" = byte ',' :: (quoted (ascii "epoch") ++ [byte ':']) := by decide
  have hcrit : (if r.critical then ascii ",\"crit\":true" else ascii ",\"crit\":false") =
      byte ',' :: (quoted (ascii "crit") ++ byte ':' :: dump (.bool r.critical)) := by
    cases r.critical <;> decide
  have hpayload : ascii ",\"payload\":" = byte ',' :: (quoted (ascii "payload") ++ [byte ':']) := by
    decide
  have hint : ∀ i, dump (.int i) = toDecimal i := fun i => by rw [dump]
  have hstr : ∀ s, dump (.str s) = quoted s := fun s => by rw [dump]
  rw [text, fields, hseq, htype, hid, href, hts, hepoch, hcrit, hpayload]
  split_ifs <;>
    simp only [memberText, hint, hstr, List.flatMap_cons, List.flatMap_nil, List.cons_append,
      List.append_assoc, List.nil_append, List.append_nil]

theorem plain_fields (h : r.InRange) : Plain maxDepth r.fields := by
  intro kv hkv
  simp only [fields, List.mem_append, List.mem_cons, List.not_mem_nil, or_false] at hkv
  obtain ((rfl | rfl | rfl) | hkv) | rfl | rfl | rfl := hkv
  · exact ⟨.int h.seq, by simp [reread]⟩
  · exact ⟨.str, by simp [reread]⟩
  · exact ⟨.str, by simp [reread]⟩
  · split_ifs at hkv with href
    · cases hkv
    · rw [List.mem_singleton] at hkv
      rw [hkv]
      exact ⟨.str, by simp [reread]⟩
  · exact ⟨.int h.ts, by simp [reread]⟩
  · exact ⟨.int h.epoch, by simp [reread]⟩
  · exact ⟨.bool, by simp [reread]⟩

theorem nodup_keys_fields (r : SpoolRecord) :
    (keys (r.fields ++ [(ascii "payload", Value.null)])).Nodup := by
  rw [fields]
  split_ifs <;> simp [keys] <;> decide

def payloadText (r : SpoolRecord) : Bytes :=
  quoted (ascii "payload") ++ byte ':' :: (r.payload.text ++ [byte '}'])

theorem value_text_members (h : r.InRange) : ∃ fuel, value (maxDepth + 1) r.text =
    members (value maxDepth) (fuel + 1) r.fields r.payloadText := by
  have hkeys := nodup_keys_fields r
  rw [keys, List.map_append] at hkeys
  have hexpect : expect (byte '}') (r.fields.flatMap memberText ++ r.payloadText) = none := by
    rw [fields, List.cons_append, List.cons_append, List.flatMap_cons, memberText,
      List.append_assoc, List.append_assoc, quoted_append, expect, ws_cons (by decide)]
    rfl
  have hlen : r.fields.length + 1 ≤ (r.fields.flatMap memberText ++ r.payloadText).length := by
    have := length_le_memberText r.fields
    rw [List.length_append, payloadText, List.length_append, List.length_cons]
    omega
  obtain ⟨fuel, hfuel⟩ := Nat.exists_eq_add_of_le hlen
  have hnodup : (keys ([] : List (Bytes × Value)) ++ keys r.fields).Nodup :=
    (List.nodup_append.mp hkeys).1
  have hmembers := members_memberText (plain_fields h) hnodup (fuel + 1) r.payloadText
  refine ⟨fuel, ?_⟩
  rw [text_eq, ← payloadText, value, ws_cons (by decide)]
  dsimp only
  rw [if_pos rfl, object, hexpect, hfuel, Nat.add_assoc, Nat.add_comm, Nat.add_comm 1]
  exact hmembers

/-- A record is read to its end, with one level less for its payload. -/
theorem value_text (h : r.InRange) :
    value (maxDepth + 1) r.text = (value maxDepth r.payload.text).map fun y =>
      (.obj (r.fields ++ [(ascii "payload", y.1)]), []) := by
  obtain ⟨y, hy, hws, hended⟩ := r.payload.exists_read
  obtain ⟨fuel, hopen⟩ := value_text_members h
  rw [hopen, payloadText]
  cases hval : value maxDepth r.payload.text with
  | none =>
    have hnone : value maxDepth (r.payload.text ++ [byte '}']) = none := by
      rw [value_append (Nat.le_succ maxDepth) _ y.1 y.2 hy hended, hval]
      rfl
    rw [members_last_eq_none hnone]
    rfl
  | some y' =>
    obtain rfl : y' = y := Option.some.inj ((value_mono (Nat.le_succ maxDepth) hval).symm.trans hy)
    have hk : ascii "payload" ∉ keys r.fields := by
      have hkeys := nodup_keys_fields r
      rw [keys, List.map_append] at hkeys
      intro hmem
      exact (List.nodup_append.mp hkeys).2.2 _ hmem _ (by simp) rfl
    rw [members_last hk hval hended hws]
    rfl

theorem parse_text (h : r.InRange) :
    parse r.text maxDepth =
      (parse r.payload.text (maxDepth - 1)).map fun p =>
        .obj (r.fields ++ [(ascii "payload", p)]) := by
  obtain ⟨y, hy, hws, -⟩ := r.payload.exists_read
  have hsub : parse r.payload.text (maxDepth - 1) =
      (value maxDepth r.payload.text).bind fun r => if ws r.2 = [] then some r.1 else none := rfl
  rw [parse, value_text h, hsub]
  cases hval : value maxDepth r.payload.text with
  | none => rfl
  | some y' =>
    obtain rfl : y' = y := Option.some.inj ((value_mono (Nat.le_succ maxDepth) hval).symm.trans hy)
    rw [Option.map_some, Option.bind_some, Option.bind_some, if_pos hws]
    rfl

end SpoolRecord

theorem parse_mono {s : Bytes} {n m : ℕ} (hle : n ≤ m) {v : Value} (h : parse s n = some v) :
    parse s m = some v := by
  rw [parse, Option.bind_eq_some_iff] at h
  obtain ⟨y, hy, h⟩ := h
  rw [parse, value_mono (Nat.succ_le_succ hle) hy]
  exact h

/-- The payload that comes back from the file. -/
def Payload.reload (p : Payload) : Option Payload :=
  match hv : parse p.text (maxDepth - 1) with
  | none => none
  | some v =>
    have hp := parse_mono (Nat.sub_le maxDepth 1) hv
    some (.ofValue v (fits_of_parse hp) (by
      rw [p.parse_text] at hp
      rw [← Option.some.inj hp]
      exact p.isObj_value))

theorem Payload.reload_of_none {p : Payload} (h : parse p.text (maxDepth - 1) = none) :
    p.reload = none := by
  rw [reload]
  split
  · rfl
  · next hv => rw [h] at hv; cases hv

theorem Payload.reload_of_some {p : Payload} {v : Value}
    (h : parse p.text (maxDepth - 1) = some v) : ∃ q, p.reload = some q ∧ q.text = dump v := by
  rw [reload]
  split
  · next hv => rw [h] at hv; cases hv
  · next w hv =>
    obtain rfl : v = w := Option.some.inj (h.symm.trans hv)
    exact ⟨_, rfl, rfl⟩

/-- The record that comes back from the file. -/
def SpoolRecord.reload (r : SpoolRecord) : Option SpoolRecord :=
  if r.type = [] then none else r.payload.reload.map fun p => { r with payload := p }

theorem readLine_of_none {line : Bytes} (h : parse line maxDepth = none) :
    readLine line = none := by
  rw [readLine]
  split
  · rfl
  · next hv => rw [h] at hv; cases hv

theorem readLine_of_some {line : Bytes} {o : List (Bytes × Value)}
    (h : parse line maxDepth = some (.obj o)) :
    readLine line = readRecord (.obj o) (fits_of_parse h) := by
  rw [readLine]
  split
  · next hv => rw [h] at hv; cases hv
  · next v hv =>
    obtain rfl : .obj o = v := Option.some.inj (h.symm.trans hv)
    rfl

theorem readRecord_of_some {v p : Value} {hfits : Fits (maxDepth + 1) v}
    (h : v.get (ascii "payload") = some p) (hobj : p.isObj = true) :
    readRecord v hfits =
      if (v.get (ascii "type")).elim [] Value.asStr = [] then none
      else some
        { seq := (v.get (ascii "seq")).elim 0 (asInt 0)
          type := (v.get (ascii "type")).elim [] Value.asStr
          id := (v.get (ascii "id")).elim [] Value.asStr
          ref := (v.get (ascii "ref")).elim [] Value.asStr
          ts := (v.get (ascii "ts")).elim 0 (asInt 0)
          epoch := (v.get (ascii "epoch")).elim 0 (asInt 0)
          critical := (v.get (ascii "crit")).elim false Value.asBool
          payload := .ofValue p ((hfits.get h).mono (Nat.le_succ _)) hobj } := by
  rw [readRecord]
  split
  · next hp => rw [h] at hp; cases hp
  · next p' hp =>
    obtain rfl : p = p' := Option.some.inj (h.symm.trans hp)
    split_ifs <;> rfl

/-- Every field but the payload is read back as it was written. -/
theorem readRecord_fields (r : SpoolRecord) (p : Value) :
    let v := Value.obj (r.fields ++ [(ascii "payload", p)])
    v.get (ascii "payload") = some p ∧ (v.get (ascii "seq")).elim 0 (asInt 0) = r.seq ∧
      (v.get (ascii "type")).elim [] Value.asStr = r.type ∧
      (v.get (ascii "id")).elim [] Value.asStr = r.id ∧
      (v.get (ascii "ref")).elim [] Value.asStr = r.ref ∧
      (v.get (ascii "ts")).elim 0 (asInt 0) = r.ts ∧
      (v.get (ascii "epoch")).elim 0 (asInt 0) = r.epoch ∧
      (v.get (ascii "crit")).elim false Value.asBool = r.critical := by
  rw [SpoolRecord.fields]
  split_ifs with href
  · exact ⟨rfl, rfl, rfl, rfl, href.symm, rfl, rfl, rfl⟩
  · exact ⟨rfl, rfl, rfl, rfl, rfl, rfl, rfl, rfl⟩

theorem readLine_text {r : SpoolRecord} (h : r.InRange) : readLine r.text = r.reload := by
  have hparse := SpoolRecord.parse_text h
  rw [SpoolRecord.reload]
  cases hp : parse r.payload.text (maxDepth - 1) with
  | none =>
    rw [hp] at hparse
    rw [readLine_of_none hparse, Payload.reload_of_none hp]
    split_ifs <;> rfl
  | some p =>
    rw [hp] at hparse
    obtain ⟨q, hq, htext⟩ := Payload.reload_of_some hp
    have hobj : p.isObj = true := by
      have := parse_mono (Nat.sub_le maxDepth 1) hp
      rw [r.payload.parse_text] at this
      rw [← Option.some.inj this]
      exact r.payload.isObj_value
    obtain ⟨hget, hseq, htype, hid, href, hts, hepoch, hcrit⟩ := readRecord_fields r p
    have hpayload :
        Payload.ofValue p (((fits_of_parse hparse).get hget).mono (Nat.le_succ _)) hobj = q :=
      Payload.ext htext.symm
    rw [readLine_of_some hparse, readRecord_of_some hget hobj, hseq, htype, hid, href, hts, hepoch,
      hcrit, hpayload, hq]
    rfl

namespace SpoolRecord

theorem noBreak_text {r : SpoolRecord} (h : r.InRange) : (10 : UInt8) ∉ r.text := by
  have hfields : Printable (r.fields.flatMap memberText) := by
    intro c hc
    obtain ⟨kv, hkv, hc⟩ := List.mem_flatMap.mp hc
    have hdump := printable_dump (plain_fields h kv hkv).1
    have hmember : Printable (memberText kv) :=
      (printable_quoted kv.1).append
        (.cons (by decide) (hdump.append (.cons (by decide) printable_nil)))
    exact hmember c hc
  intro hmem
  simp only [text_eq, List.mem_cons, List.mem_append, List.not_mem_nil, or_false] at hmem
  rcases hmem with hmem | hmem | hmem | hmem | hmem | hmem
  · exact absurd hmem (by decide)
  · exact hfields.notMem hmem
  · exact (printable_quoted _).notMem hmem
  · exact absurd hmem (by decide)
  · exact r.payload.noBreak hmem
  · exact absurd hmem (by decide)

theorem text_ne_nil (r : SpoolRecord) : r.text ≠ [] := by
  rw [text_eq]
  exact List.cons_ne_nil _ _

theorem reload_seq {r r' : SpoolRecord} (h : r.reload = some r') : r'.seq = r.seq := by
  rw [reload] at h
  split_ifs at h
  obtain ⟨p, -, rfl⟩ := Option.map_eq_some_iff.mp h
  rfl

end SpoolRecord

section Files

variable {rs : List SpoolRecord}

/-- The file that the spool writes for these records. -/
def logText (rs : List SpoolRecord) : Bytes := rs.flatMap SpoolRecord.line

theorem logLines_append (h : ∀ r ∈ rs, r.InRange) {t : Bytes} (ht : (10 : UInt8) ∉ t) :
    logLines (logText rs ++ t) = rs.map SpoolRecord.text ++ if t = [] then [] else [t] := by
  induction rs with
  | nil =>
    rw [logText, List.flatMap_nil, List.nil_append, logLines, List.splitOn_eq_singleton ht]
    cases t <;> rfl
  | cons r rs ih =>
    have hr := h r List.mem_cons_self
    have htail := ih fun r hmem => h r (List.mem_cons_of_mem _ hmem)
    have hsplit : logText (r :: rs) ++ t = r.text ++ 10 :: (logText rs ++ t) := by
      simp [logText, SpoolRecord.line]
    rw [logLines] at htail
    rw [hsplit, logLines, List.splitOn_append_cons_self_of_not_mem (SpoolRecord.noBreak_text hr),
      List.filter_cons_of_pos (by simp [r.text_ne_nil]), htail]
    rfl

theorem map_readLine_text (h : ∀ r ∈ rs, r.InRange) :
    (rs.map SpoolRecord.text).map readLine = rs.map SpoolRecord.reload := by
  rw [List.map_map]
  apply List.map_congr_left
  intro r hr
  rw [Function.comp_apply, readLine_text (h r hr)]

theorem loadLog_logText (h : ∀ r ∈ rs, r.InRange) :
    loadLog (logText rs) =
      if (logText rs).length > maxLogBytes then none
      else some (scan 0 (rs.map SpoolRecord.reload)) := by
  have hlines := logLines_append h (t := []) List.not_mem_nil
  rw [if_pos rfl, List.append_nil, List.append_nil] at hlines
  rw [loadLog, hlines, map_readLine_text h]

/-- A part of a record without its last brace is unreadable. -/
theorem readLine_take {r : SpoolRecord} (h : r.InRange) {n : ℕ} (hn : n < r.text.length) :
    readLine (r.text.take n) = none := by
  apply readLine_of_none
  rw [parse]
  cases hy : value (maxDepth + 1) (r.text.take n) with
  | none => rfl
  | some y =>
    -- an object is read alike with more text behind it, and that is the whole record
    exfalso
    have hobj : isNumber y.1 = false := by
      rw [SpoolRecord.text_eq] at hy
      cases n with
      | zero =>
        rw [List.take_zero, value_eq_none_of_ws _ rfl] at hy
        cases hy
      | succ n =>
        rw [List.take_succ_cons] at hy
        have := isObj_of_value hy
        cases hy1 : y.1 with
        | obj o => rfl
        | _ => simp [hy1, Value.isObj] at this
    have hwhole := value_append le_rfl _ y.1 y.2 hy (fun _ => hobj) (r.text.drop n)
    rw [List.take_append_drop, hy, SpoolRecord.value_text h] at hwhole
    cases hval : value maxDepth r.payload.text with
    | none => simp [hval] at hwhole
    | some w =>
      rw [hval] at hwhole
      have hnil := (Prod.mk.inj (Option.some.inj hwhole)).2
      have hlen := congrArg List.length hnil
      rw [List.length_append, List.length_drop, List.length_nil] at hlen
      omega

end Files

section Scan

variable {ls : List (Option SpoolRecord)}

theorem scan_eq {prev : ℤ} (h : (prev :: ls.reduceOption.map SpoolRecord.seq).Pairwise (· < ·)) :
    scan prev ls = ⟨ls.reduceOption, (ls.filter Option.isNone).length⟩ := by
  induction ls generalizing prev with
  | nil => rfl
  | cons l ls ih =>
    cases l with
    | none =>
      rw [List.reduceOption_cons_of_none] at h
      rw [scan, ih h]
      rfl
    | some r =>
      rw [List.reduceOption_cons_of_some, List.map_cons] at h
      have hlt : prev < r.seq := List.rel_of_pairwise_cons h List.mem_cons_self
      rw [scan, if_neg (not_le.mpr hlt), ih h.tail]
      rfl

theorem pairwise_reduceOption {α : Type} {f : α → Option SpoolRecord} {g : α → ℤ}
    (hfg : ∀ x r, f x = some r → r.seq = g x) {xs : List α} {prev : ℤ}
    (h : (prev :: xs.map g).Pairwise (· < ·)) :
    (prev :: (xs.map f).reduceOption.map SpoolRecord.seq).Pairwise (· < ·) := by
  induction xs generalizing prev with
  | nil => exact List.pairwise_singleton _ _
  | cons x xs ih =>
    rw [List.map_cons] at h ⊢
    cases hx : f x with
    | none =>
      rw [List.reduceOption_cons_of_none]
      exact ih (h.sublist ((List.sublist_cons_self _ _).cons_cons _))
    | some r =>
      rw [List.reduceOption_cons_of_some, List.map_cons, hfg x r hx]
      have htail := ih h.tail
      refine .cons ?_ htail
      intro y hy
      have hlt : prev < g x := List.rel_of_pairwise_cons h List.mem_cons_self
      rcases List.mem_cons.mp hy with rfl | hy
      · exact hlt
      · exact hlt.trans (List.rel_of_pairwise_cons htail hy)

theorem scan_increasing (prev : ℤ) (ls : List (Option SpoolRecord)) :
    (prev :: (scan prev ls).recs.map SpoolRecord.seq).Pairwise (· < ·) := by
  induction ls generalizing prev with
  | nil => exact List.pairwise_singleton _ _
  | cons l ls ih =>
    cases l with
    | none => exact ih prev
    | some r =>
      rw [scan]
      split_ifs with hle
      · exact ih prev
      · have htail := ih r.seq
        refine .cons ?_ htail
        intro x hx
        rcases List.mem_cons.mp hx with rfl | hx
        · exact not_le.mp hle
        · exact (not_le.mp hle).trans (List.rel_of_pairwise_cons htail hx)

end Scan

end ReadyUp.Fleet
