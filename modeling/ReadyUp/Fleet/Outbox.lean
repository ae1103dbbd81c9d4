import ReadyUp.Fleet.JsonBlanks

/-!
# Messages on their way out

`Send` checks a message from the plugin and queues it. What it queues has a payload that is
one JSON object on one line, which `Payload` carries with the text: the spool writes that
text into a file of lines as it stands.
-/
namespace ReadyUp.Fleet

open Support JsonScan JsonText

section Types

def isEphemeralType (t : Bytes) : Bool :=
  t = ascii "ping" || t = ascii "pong" || t = ascii "ack" || t = ascii "hello" ||
    t = ascii "welcome" || t = ascii "error" || t = ascii "state.request" ||
    t = ascii "state.snapshot"

def isCriticalType (t : Bytes) : Bool :=
  t = ascii "event.round_end" || t = ascii "event.backup" || t = ascii "event.map_result" ||
    t = ascii "event.series_end" || t = ascii "event.demo" || t = ascii "cmd.result" ||
    t = ascii "skins.stattrak" || t = ascii "auth.rotated" || t = ascii "event.rounds_voided" ||
    t = ascii "event.match_restored" || t = ascii "event.forfeit"

/-- Dot-separated segments, each a lower-case letter and then letters, digits or `_`. -/
def validSegments : Bool → Bytes → Bool
  | segStart, [] => !segStart
  | segStart, c :: t =>
    if c = byte '.' then if segStart then false else validSegments true t
    else
      let lower := byte 'a' ≤ c && c ≤ byte 'z'
      let rest := isDigit c || c = byte '_'
      if lower || (!segStart && rest) then validSegments false t else false

def isValidType (t : Bytes) : Bool :=
  if t = [] ∨ 64 < t.length then false else validSegments true t

theorem ne_nil_of_isValidType {t : Bytes} (h : isValidType t = true) : t ≠ [] := by
  rintro rfl
  simp [isValidType] at h

end Types

/-- `kMaxFrameBytes` -/
def maxFrameBytes : ℕ := 2 ^ 20

/-- The nesting that `Parse` allows where nothing else is said. -/
def maxDepth : ℕ := 64

/-- The text of one JSON object, without a line break. -/
structure Payload where
  text : Bytes
  noBreak : (10 : UInt8) ∉ text
  isObj : (parse text maxDepth).any Value.isObj = true

namespace Payload

def empty : Payload := ⟨ascii "\x7b\x7d", by decide, by decide⟩

@[ext] theorem ext {p q : Payload} (h : p.text = q.text) : p = q := by
  cases p
  cases q
  cases h
  rfl

instance : DecidableEq Payload := fun p q =>
  decidable_of_iff (p.text = q.text) ⟨ext, congrArg text⟩

theorem exists_value (p : Payload) : ∃ o, parse p.text maxDepth = some (.obj o) := by
  obtain ⟨v, hv, hobj⟩ := (Option.any_eq_true _ _).mp p.isObj
  cases v with
  | obj o => exact ⟨o, hv⟩
  | _ => simp [Value.isObj] at hobj

/-- The object that the text stands for. -/
def value (p : Payload) : Value := (parse p.text maxDepth).getD .null

theorem parse_text (p : Payload) : parse p.text maxDepth = some p.value := by
  obtain ⟨o, ho⟩ := p.exists_value
  rw [value, ho]
  rfl

theorem isObj_value (p : Payload) : p.value.isObj = true := by
  have h := p.isObj
  rw [p.parse_text] at h
  exact h

/-- How the reader takes the text: white space is all it leaves. -/
theorem exists_read (p : Payload) :
    ∃ y, JsonText.value (maxDepth + 1) p.text = some y ∧ ws y.2 = [] ∧ Ended y.1 y.2 := by
  obtain ⟨o, ho⟩ := p.exists_value
  rw [parse, Option.bind_eq_some_iff] at ho
  obtain ⟨y, hy, ho⟩ := ho
  split_ifs at ho with hws
  refine ⟨y, hy, hws, fun _ => ?_⟩
  rw [Option.some.inj ho]
  rfl

end Payload

section Lines

theorem ne_break_blank (c : UInt8) : blank c ≠ 10 := by
  rw [blank]
  split_ifs with h
  · decide
  · intro heq
    exact h (Or.inl heq)

theorem notMem_blanks (s : Bytes) : (10 : UInt8) ∉ blanks s := by
  intro hmem
  obtain ⟨c, -, hc⟩ := List.mem_map.mp hmem
  exact ne_break_blank c hc

end Lines

/-- The reasons for which `Send` refuses a message. -/
inductive SendError where
  | invalidType
  | payloadTooLarge
  | payloadNotObject
  | outboxFull
  deriving DecidableEq

/-- `Out`: a message that waits for the network thread. -/
structure Out where
  type : Bytes
  payload : Payload
  ref : Bytes
  epoch : ℤ
  reliable : Bool
  afterSeq : ℤ
  deriving DecidableEq

/-- An empty payload stands for an empty object. -/
def orEmptyObject (payloadJson : Bytes) : Bytes :=
  if payloadJson = [] then ascii "{}" else payloadJson

/-- `Send`: the message as it enters the outbox. -/
def send (outboxMax : ℕ) (outbox : List Out) (type payloadJson : Bytes) (epoch : ℤ)
    (reliable : Bool) (ref : Bytes) : Except SendError Out :=
  if isValidType type = false ∨ isEphemeralType type = true ∨ ascii "local." <+: type then
    .error .invalidType
  else
    let payload := orEmptyObject payloadJson
    if payload.length > maxFrameBytes - 1024 then .error .payloadTooLarge
    else if h : (parse payload maxDepth).any Value.isObj = true then
      if outbox.length ≥ outboxMax then .error .outboxFull
      else
        .ok
          { type, ref, epoch, reliable
            afterSeq := 0
            payload :=
              { text := blanks payload
                noBreak := notMem_blanks payload
                isObj := by
                  obtain ⟨v, hv, hobj⟩ := (Option.any_eq_true _ _).mp h
                  rw [parse_blanks hv]
                  exact hobj } }
    else .error .payloadNotObject

theorem send_eq_ok {outboxMax : ℕ} {outbox : List Out} {type payloadJson : Bytes} {epoch : ℤ}
    {reliable : Bool} {ref : Bytes} {out : Out}
    (h : send outboxMax outbox type payloadJson epoch reliable ref = .ok out) :
    isValidType type = true ∧ out.type = type ∧ out.ref = ref ∧ out.epoch = epoch ∧
      out.reliable = reliable ∧ out.payload.text = blanks (orEmptyObject payloadJson) ∧
      parse (orEmptyObject payloadJson) maxDepth = some out.payload.value := by
  simp only [send] at h
  split_ifs at h with htype hsize hobj hfull
  obtain rfl := Except.ok.inj h
  obtain ⟨v, hv, -⟩ := (Option.any_eq_true _ _).mp hobj
  rw [not_or] at htype
  refine ⟨by simpa using htype.1, rfl, rfl, rfl, rfl, rfl, ?_⟩
  rw [Payload.value, parse_blanks hv, hv]
  rfl

end ReadyUp.Fleet
