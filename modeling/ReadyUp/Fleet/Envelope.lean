import ReadyUp.Fleet.JsonPlain
import ReadyUp.Fleet.SpoolLog

/-!
# Envelopes of the fleet protocol

Every frame is one JSON object with a fixed head and a payload. `encode` leaves out the
numbers that stand for an absent field and writes an empty `ref` as null; `decode` derives the
same fields again. `fields` is the head as the members of an object, so that an encoded
envelope is the text of one value (`encode_eq_dump`).
-/
namespace ReadyUp.Fleet

open Support JsonScan JsonText

structure Envelope where
  v : Int32 := 1
  type : Bytes
  id : Bytes
  /-- Zero stands for absent. -/
  seq : Int64 := 0
  /-- Minus one stands for absent. -/
  ack : Int64 := -1
  ts : Int64 := 0
  /-- Empty stands for null. -/
  ref : Bytes := []
  /-- Zero stands for absent. -/
  epoch : Int64 := 0
  payload : Value := .obj []

/-- Why `Decode` refuses a frame. -/
inductive DecodeError where
  | tooLarge
  /-- The text goes on with the message of the reader. -/
  | invalidJson
  | notObject
  | missingV
  | invalidType
  | invalidSeq
  | invalidAck
  | payloadNotObject
  | missingPayload
  deriving DecidableEq

def DecodeError.text : DecodeError → String
  | .tooLarge => "frame too large"
  | .invalidJson => "invalid JSON: "
  | .notObject => "envelope is not an object"
  | .missingV => "missing v"
  | .invalidType => "missing or invalid type"
  | .invalidSeq => "invalid seq"
  | .invalidAck => "invalid ack"
  | .payloadNotObject => "payload is not an object"
  | .missingPayload => "missing payload"

namespace Envelope

section Encode

variable (e : Envelope)

/-- `AppendHead` -/
def head : Bytes :=
  ascii "\x7b\"v\":" ++ toDecimal e.v.toInt ++
    ascii ",\"type\":" ++ quoted e.type ++
    ascii ",\"id\":" ++ quoted e.id ++
    (if 0 < e.seq.toInt then ascii ",\"seq\":" ++ toDecimal e.seq.toInt else []) ++
    (if 0 ≤ e.ack.toInt then ascii ",\"ack\":" ++ toDecimal e.ack.toInt else []) ++
    ascii ",\"ts\":" ++ toDecimal e.ts.toInt ++
    ascii ",\"ref\":" ++ (if e.ref = [] then ascii "null" else quoted e.ref) ++
    (if 0 < e.epoch.toInt then ascii ",\"epoch\":" ++ toDecimal e.epoch.toInt else []) ++
    ascii ",\"payload\":"

def encode : Bytes :=
  e.head ++ dump (if e.payload.isObj then e.payload else .obj []) ++ [byte '}']

def encodeRaw (payloadJson : Bytes) : Bytes :=
  e.head ++ (if payloadJson = [] then ascii "\x7b\x7d" else payloadJson) ++ [byte '}']

end Encode

section Decode

variable (v : Value)

/-- A string field, empty if it is anything else. -/
def strField (key : String) : Bytes :=
  match v.get (ascii key) with
  | some (.str s) => s
  | _ => []

/-- An integer field with a least value; null stands for an absent one. -/
def intField (key : String) (least dflt : ℤ) (err : DecodeError) : Except DecodeError Int64 :=
  match v.get (ascii key) with
  | none | some .null => .ok (.ofInt dflt)
  | some (.int i) => if i < least then .error err else .ok (.ofInt i)
  | some _ => .error err

def ofValue : Except DecodeError Envelope := do
  let ver ← match v.get (ascii "v") with
    | some (.int i) => .ok (Int32.ofInt i)
    | _ => .error .missingV
  let type ← match v.get (ascii "type") with
    | some (.str t) => if isValidType t then .ok t else .error .invalidType
    | _ => .error .invalidType
  let seq ← intField v "seq" 1 0 .invalidSeq
  let ack ← intField v "ack" 0 (-1) .invalidAck
  let payload ← match v.get (ascii "payload") with
    | some p => if p.isObj then .ok p else .error .payloadNotObject
    | none => .error .missingPayload
  return {
    v := ver
    type
    id := strField v "id"
    seq
    ack
    ts := .ofInt ((v.get (ascii "ts")).elim 0 (asInt 0))
    ref := strField v "ref"
    epoch := .ofInt ((v.get (ascii "epoch")).elim 0 (asInt 0))
    payload }

def decode (text : Bytes) : Except DecodeError Envelope :=
  if text.length > maxFrameBytes then .error .tooLarge
  else
    match parse text maxDepth with
    | none => .error .invalidJson
    | some v => if v.isObj then ofValue v else .error .notObject

end Decode

section RoundTrip

variable {e : Envelope}

/-- A member that is left out unless the condition holds. -/
def optional (c : Prop) [Decidable c] (kv : Bytes × Value) : List (Bytes × Value) :=
  if c then [kv] else []

def fields (e : Envelope) : List (Bytes × Value) :=
  [(ascii "v", .int e.v.toInt), (ascii "type", .str e.type), (ascii "id", .str e.id)] ++
    optional (0 < e.seq.toInt) (ascii "seq", .int e.seq.toInt) ++
    optional (0 ≤ e.ack.toInt) (ascii "ack", .int e.ack.toInt) ++
    [(ascii "ts", .int e.ts.toInt), (ascii "ref", if e.ref = [] then .null else .str e.ref)] ++
    optional (0 < e.epoch.toInt) (ascii "epoch", .int e.epoch.toInt)

/-- The whole envelope as one object. -/
def toValue (e : Envelope) : Value := .obj (e.fields ++ [(ascii "payload", e.payload)])

/-- A member of an object after the first one. -/
def nextText (kv : Bytes × Value) : Bytes := byte ',' :: (quoted kv.1 ++ byte ':' :: dump kv.2)

theorem dumpMembers_cons (k : Bytes) (v : Value) (o : List (Bytes × Value)) :
    dumpMembers ((k, v) :: o) = quoted k ++ byte ':' :: (dump v ++ o.flatMap nextText) := by
  induction o generalizing k v with
  | nil => simp [dumpMembers]
  | cons kv o ih =>
    obtain ⟨j, w⟩ := kv
    rw [dumpMembers, ih, List.flatMap_cons, nextText]
    simp

theorem flatMap_optional (c : Prop) [Decidable c] (kv : Bytes × Value) :
    (optional c kv).flatMap nextText = if c then nextText kv else [] := by
  rw [optional]
  split_ifs <;> simp

theorem dump_ref (ref : Bytes) :
    dump (if ref = [] then .null else .str ref) = if ref = [] then
      ascii "null" else quoted ref := by
  split_ifs <;> rw [dump]

theorem encode_eq_dump (h : e.payload.isObj = true) : e.encode = dump e.toValue := by
  have hv : ascii "\x7b\"v\":" = byte '{' :: (quoted (ascii "v") ++ [byte ':']) := by decide
  have htype : ascii ",\"type\":" = byte ',' :: (quoted (ascii "type") ++ [byte ':']) := by decide
  have hid : ascii ",\"id\":" = byte ',' :: (quoted (ascii "id") ++ [byte ':']) := by decide
  have hseq : ascii ",\"seq\":" = byte ',' :: (quoted (ascii "seq") ++ [byte ':']) := by decide
  have hack : ascii ",\"ack\":" = byte ',' :: (quoted (ascii "ack") ++ [byte ':']) := by decide
  have hts : ascii ",\"ts\":" = byte ',' :: (quoted (ascii "ts") ++ [byte ':']) := by decide
  have href : ascii ",\"ref\":" = byte ',' :: (quoted (ascii "ref") ++ [byte ':']) := by decide
  have hepoch :
      ascii ",\"epoch\":" = byte ',' :: (quoted (ascii "epoch") ++ [byte ':']) := by decide
  have hpayload : ascii ",\"payload\":" = byte ',' :: (quoted (ascii "payload") ++ [byte ':']) := by
    decide
  have hint : ∀ i, dump (.int i) = toDecimal i := fun i => by rw [dump]
  have hstr : ∀ s, dump (.str s) = quoted s := fun s => by rw [dump]
  rw [encode, if_pos h, toValue, fields, dump, head, hv, htype, hid, hseq, hack, hts, href, hepoch,
    hpayload]
  simp only [List.cons_append, List.nil_append, dumpMembers_cons, List.flatMap_append,
    List.flatMap_cons, List.flatMap_nil, flatMap_optional, nextText, dump_ref, hint, hstr,
    List.append_assoc, List.append_nil]

theorem encodeRaw_dump (h : e.payload.isObj = true) : e.encodeRaw (dump e.payload) = e.encode := by
  have hne : dump e.payload ≠ [] := by
    obtain ⟨c, t, hdump, -⟩ := startsValue_dump e.payload
    rw [hdump]
    exact List.cons_ne_nil _ _
  rw [encodeRaw, if_neg hne, encode, if_pos h]

theorem lookup_optional_of_ne {c : Prop} [Decidable c] {j key : Bytes} (h : key ≠ j) (v : Value)
    (o : List (Bytes × Value)) : (optional c (j, v) ++ o).lookup key = o.lookup key := by
  rw [optional]
  split_ifs
  · rw [List.singleton_append, lookup_cons_eq, if_neg h]
  · rfl

theorem lookup_optional_self (c : Prop) [Decidable c] (j : Bytes) (v : Value)
    (o : List (Bytes × Value)) :
    (optional c (j, v) ++ o).lookup j = if c then some v else o.lookup j := by
  rw [optional]
  split_ifs
  · rw [List.singleton_append, lookup_cons_eq, if_pos rfl]
  · rfl

theorem get_seq (e : Envelope) :
    e.toValue.get (ascii "seq") = if 0 < e.seq.toInt then some (.int e.seq.toInt) else none := by
  simp +decide only [toValue, Value.get, fields, List.append_assoc, List.cons_append,
    List.nil_append, lookup_cons_eq, lookup_optional_self, lookup_optional_of_ne, List.lookup_nil,
    if_false, ne_eq]

theorem get_ack (e : Envelope) :
    e.toValue.get (ascii "ack") = if 0 ≤ e.ack.toInt then some (.int e.ack.toInt) else none := by
  simp +decide only [toValue, Value.get, fields, List.append_assoc, List.cons_append,
    List.nil_append, lookup_cons_eq, lookup_optional_self, lookup_optional_of_ne, List.lookup_nil,
    if_false, ne_eq]

theorem get_epoch (e : Envelope) : e.toValue.get (ascii "epoch") =
    if 0 < e.epoch.toInt then some (.int e.epoch.toInt) else none := by
  simp +decide only [toValue, Value.get, fields, List.append_assoc, List.cons_append,
    List.nil_append, lookup_cons_eq, lookup_optional_self, lookup_optional_of_ne, List.lookup_nil,
    if_false, ne_eq]

theorem intField_seq (h : 0 ≤ e.seq.toInt) :
    intField e.toValue "seq" 1 0 .invalidSeq = .ok e.seq := by
  rw [intField, get_seq]
  split_ifs with hpos
  · have hle : ¬e.seq.toInt < 1 := by omega
    simp only [if_neg hle, Int64.ofInt_toInt]
  · have hzero : e.seq.toInt = 0 := by omega
    rw [← hzero, Int64.ofInt_toInt]

theorem intField_ack (h : -1 ≤ e.ack.toInt) :
    intField e.toValue "ack" 0 (-1) .invalidAck = .ok e.ack := by
  rw [intField, get_ack]
  split_ifs with hpos
  · simp only [if_neg (not_lt.mpr hpos), Int64.ofInt_toInt]
  · have hminus : e.ack.toInt = -1 := by omega
    rw [← hminus, Int64.ofInt_toInt]

theorem asInt_epoch (h : 0 ≤ e.epoch.toInt) :
    Int64.ofInt ((e.toValue.get (ascii "epoch")).elim 0 (asInt 0)) = e.epoch := by
  rw [get_epoch]
  split_ifs with hpos
  · simp only [Option.elim_some, asInt, Int64.ofInt_toInt]
  · have hzero : e.epoch.toInt = 0 := by omega
    rw [Option.elim_none, ← hzero, Int64.ofInt_toInt]

theorem strField_ref (e : Envelope) : strField e.toValue "ref" = e.ref := by
  have hget : e.toValue.get (ascii "ref") = some (if e.ref = [] then .null else .str e.ref) := by
    simp +decide only [toValue, Value.get, fields, List.append_assoc, List.cons_append,
      List.nil_append, lookup_cons_eq, lookup_optional_of_ne, if_false, if_true, ne_eq]
  rw [strField, hget]
  split_ifs with hnil
  · exact hnil.symm
  · rfl

/-- The decoder derives every field again, also those that the encoder left out. -/
theorem ofValue_toValue (htype : isValidType e.type = true) (hseq : 0 ≤ e.seq.toInt)
    (hack : -1 ≤ e.ack.toInt) (hepoch : 0 ≤ e.epoch.toInt) (hobj : e.payload.isObj = true) :
    ofValue e.toValue = .ok e := by
  have hv : e.toValue.get (ascii "v") = some (.int e.v.toInt) := rfl
  have hget : e.toValue.get (ascii "type") = some (.str e.type) := rfl
  have hid : strField e.toValue "id" = e.id := rfl
  have hts : e.toValue.get (ascii "ts") = some (.int e.ts.toInt) := by
    simp +decide only [toValue, Value.get, fields, List.append_assoc, List.cons_append,
      List.nil_append, lookup_cons_eq, lookup_optional_of_ne, if_false, if_true, ne_eq]
  have hpayload : e.toValue.get (ascii "payload") = some e.payload := by
    simp +decide only [toValue, Value.get, fields, List.append_assoc, List.cons_append,
      List.nil_append, lookup_cons_eq, lookup_optional_of_ne, if_false, if_true, ne_eq]
  rw [ofValue, hv, hget, hts, hpayload, intField_seq hseq, intField_ack hack,
    asInt_epoch hepoch, hid, strField_ref]
  simp only [if_pos htype, if_pos hobj, Int32.ofInt_toInt, Option.elim_some, asInt,
    Int64.ofInt_toInt]
  rfl

theorem keys_optional_sublist (c : Prop) [Decidable c] (kv : Bytes × Value) :
    (keys (optional c kv)).Sublist [kv.1] := by
  rw [optional]
  split_ifs
  · exact .refl _
  · exact List.nil_sublist _

theorem nodup_keys_toValue (e : Envelope) :
    (keys (e.fields ++ [(ascii "payload", e.payload)])).Nodup := by
  have hall : ([ascii "v", ascii "type", ascii "id"] ++ [ascii "seq"] ++ [ascii "ack"] ++
      [ascii "ts", ascii "ref"] ++ [ascii "epoch"] ++ [ascii "payload"]).Nodup := by decide
  refine List.Nodup.sublist ?_ hall
  simp only [fields, keys, List.map_append]
  have hoptional := fun (c : Prop) [Decidable c] kv => keys_optional_sublist c kv
  simp only [keys] at hoptional
  exact (((((List.Sublist.refl _).append (hoptional _ _)).append (hoptional _ _)).append
    (List.Sublist.refl _)).append (hoptional _ _)).append (List.Sublist.refl _)

theorem eq_of_mem_optional {c : Prop} [Decidable c] {kv x : Bytes × Value} (h : x ∈ optional c kv) :
    x = kv := by
  rw [optional] at h
  split_ifs at h
  · exact List.mem_singleton.mp h
  · cases h

theorem inInt64_toInt (i : Int64) : InInt64 i.toInt := ⟨i.le_toInt, i.toInt_lt⟩

theorem inInt64_int32 (i : Int32) : InInt64 i.toInt := by
  have hle := i.le_toInt
  have hlt := i.toInt_lt
  constructor <;> omega

theorem plain_fields (e : Envelope) (levels : ℕ) : Plain (levels + 1) e.fields := by
  intro kv h
  simp only [fields, List.mem_append, List.mem_cons, List.not_mem_nil, or_false] at h
  obtain ((((rfl | rfl | rfl) | h) | h) | rfl | rfl) | h := h
  · exact ⟨.int (inInt64_int32 _), by simp [reread]⟩
  · exact ⟨.str, by simp [reread]⟩
  · exact ⟨.str, by simp [reread]⟩
  · rw [eq_of_mem_optional h]
    exact ⟨.int (inInt64_toInt _), by simp [reread]⟩
  · rw [eq_of_mem_optional h]
    exact ⟨.int (inInt64_toInt _), by simp [reread]⟩
  · exact ⟨.int (inInt64_toInt _), by simp [reread]⟩
  · dsimp only
    split_ifs
    · exact ⟨.null, by simp [reread]⟩
    · exact ⟨.str, by simp [reread]⟩
  · rw [eq_of_mem_optional h]
    exact ⟨.int (inInt64_toInt _), by simp [reread]⟩

theorem fits_toValue {levels : ℕ} (h : Fits (levels + 1) e.payload) :
    Fits (levels + 2) e.toValue := by
  refine .obj e.nodup_keys_toValue ?_
  intro k v hmem
  rcases List.mem_append.mp hmem with hmem | hmem
  · exact (e.plain_fields levels _ hmem).1
  · obtain ⟨-, rfl⟩ := Prod.mk.inj (List.mem_singleton.mp hmem)
    exact h

theorem reread_toValue (h : reread e.payload = e.payload) : reread e.toValue = e.toValue := by
  rw [toValue, reread, rereadMembers_eq_self]
  intro k v hmem
  rcases List.mem_append.mp hmem with hmem | hmem
  · exact (e.plain_fields 0 _ hmem).2
  · obtain ⟨-, rfl⟩ := Prod.mk.inj (List.mem_singleton.mp hmem)
    exact h

/-- A frame says what its envelope says, whatever bytes the id, the ref and the payload hold. -/
theorem decode_encode (htype : isValidType e.type = true) (hseq : 0 ≤ e.seq.toInt)
    (hack : -1 ≤ e.ack.toInt) (hepoch : 0 ≤ e.epoch.toInt) (hobj : e.payload.isObj = true)
    (hfloats : e.payload.NoFloats) (hrange : e.payload.InRange) (hkeys : e.payload.UniqueKeys)
    (hdepth : e.payload.depth ≤ 63) (hsize : e.encode.length ≤ maxFrameBytes) :
    decode e.encode = .ok e ∧ e.encodeRaw (dump e.payload) = e.encode ∧ Printable e.encode := by
  have hfits : Fits (maxDepth + 1) e.toValue :=
    fits_toValue (fits_of_depth hkeys hfloats hrange hdepth)
  refine ⟨?_, encodeRaw_dump hobj, ?_⟩
  · rw [decode, if_neg (not_lt.mpr hsize), encode_eq_dump hobj, parse_dump hfits,
      reread_toValue (reread_of_noFloats hfloats)]
    exact ofValue_toValue htype hseq hack hepoch hobj
  · rw [encode_eq_dump hobj]
    exact printable_dump hfits

/-- The end of a round, with a name in quotes in its payload. -/
def roundEnd : Envelope where
  type := ascii "event.round_end"
  id := ascii "01J8ZQ4T8W6N3X0F2R5K7M9P1C"
  seq := 1842
  ack := 77
  ts := 1790340012345
  epoch := 3
  payload := .obj [(ascii "round", .int 14), (ascii "mvp", .arr [.str (ascii "\"x\"\n"), .null])]

theorem decode_encode_roundEnd :
    decode roundEnd.encode = .ok roundEnd ∧
      roundEnd.encodeRaw (dump roundEnd.payload) = roundEnd.encode ∧ Printable roundEnd.encode :=
  decode_encode (by decide) (by decide) (by decide) (by decide) (by decide) (by decide) (by decide)
    (by decide) (by decide) (by decide +kernel)

end RoundTrip

end Envelope

end ReadyUp.Fleet
