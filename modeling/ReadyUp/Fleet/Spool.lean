import ReadyUp.Fleet.SpoolLog
import ReadyUp.Support.Numbered

/-!
# The spool

The reliable messages of the server, kept until the platform acks them. `Spool` is what is in
memory and `Disk` are the two files, `meta.json` and `stream.log`; a `Host` has both. A write
takes its result from `outcomes`, and `crashes` collects what a crash would leave behind: the
files as they are before each write, and for a line that is appended every part of it.

The files hold records and not bytes here; `loadLog_disk` says that this is how `loadLog`
reads the bytes. Seqs are unbounded, and the comparisons of `isOver`, which the source makes
with doubles, are exact.
-/
namespace ReadyUp.Fleet

open Support JsonScan JsonText

/-- An id from `NewUlid`, of 26 characters. -/
structure Ulid where
  text : Bytes
  ne_nil : text ≠ []

instance : Inhabited Ulid := ⟨⟨ascii "01", by decide⟩⟩

/-- `meta.json` -/
structure Meta where
  streamId : Bytes
  nextSeq : ℤ
  ackedSeq : ℤ
  rxSeq : ℤ
  gap : Bool
  deriving DecidableEq

/-- A line of `stream.log`: a record and how many bytes of it are in the file. -/
structure LogLine where
  record : SpoolRecord
  cut : ℕ
  deriving DecidableEq

namespace LogLine

def whole (r : SpoolRecord) : LogLine := ⟨r, r.line.length⟩

/-- What `LoadLog` makes of it: the last brace has to be there, the line break not. -/
def read (l : LogLine) : Option SpoolRecord :=
  if l.cut < l.record.text.length then none else l.record.reload

end LogLine

/-- The files in the directory of the spool. -/
structure Disk where
  info : Option Meta
  log : List LogLine
  deriving DecidableEq

namespace Disk

def empty : Disk := ⟨none, []⟩

/-- The length of `stream.log`. -/
def logLength (d : Disk) : ℕ := (d.log.map LogLine.cut).sum

/-- `LoadLog`; a file that is too long is not read. -/
def loadLog (d : Disk) : LoadedLog :=
  if d.logLength > maxLogBytes then ⟨[], 0⟩ else scan 0 (d.log.map LogLine.read)

end Disk

structure Limits where
  maxMsgs : ℕ
  maxBytes : ℕ
  deriving DecidableEq

/-- What `Append` is given. -/
structure Message where
  type : Bytes
  id : Bytes
  ref : Bytes
  ts : ℤ
  epoch : ℤ
  payload : Payload
  deriving DecidableEq

def Message.record (m : Message) (seq : ℤ) : SpoolRecord where
  seq := seq
  type := m.type
  id := m.id
  ref := m.ref
  ts := m.ts
  epoch := m.epoch
  critical := isCriticalType m.type
  payload := m.payload

/-- The records after a seq, taken from the front. -/
def after (a : ℤ) (rs : List SpoolRecord) : List SpoolRecord := rs.dropWhile fun r => r.seq ≤ a

structure Spool where
  limits : Limits
  recs : List SpoolRecord
  bytes : ℕ
  dropped : ℕ
  streamId : Bytes
  nextSeq : ℤ
  ackedSeq : ℤ
  rxSeq : ℤ
  gap : Bool
  deriving DecidableEq

namespace Spool

/-- A spool before `Open`. -/
def new : Spool := ⟨⟨50000, 64 * 2 ^ 20⟩, [], 0, 0, [], 1, 0, 0, false⟩

def lastSeq (s : Spool) : ℤ := s.nextSeq - 1

def toMeta (s : Spool) : Meta := ⟨s.streamId, s.nextSeq, s.ackedSeq, s.rxSeq, s.gap⟩

/-- Takes what is acked from the front. -/
def dropAcked (s : Spool) : Spool :=
  { s with
    recs := after s.ackedSeq s.recs
    bytes := s.bytes - ((s.recs.takeWhile fun r => r.seq ≤ s.ackedSeq).map SpoolRecord.bytes).sum }

section Load

/-- Without a known stream: the records wait for a reset. -/
def startOver (s : Spool) (newId : Ulid) : Spool :=
  { s with
    streamId := newId.text
    nextSeq := s.recs.getLast?.elim 1 fun r => r.seq + 1
    ackedSeq := 0
    rxSeq := 0
    gap := !s.recs.isEmpty }

/-- `LoadMeta`; a skipped line of the log is a gap. -/
def loadMeta (s : Spool) (info : Option Meta) (bad : ℕ) (newId : Ulid) : Spool :=
  match info with
  | none => s.startOver newId
  | some m =>
    if m.streamId = [] then s.startOver newId
    else
      { s with
        streamId := m.streamId
        nextSeq := max 1 m.nextSeq
        ackedSeq := max 0 m.ackedSeq
        rxSeq := max 0 m.rxSeq
        gap := m.gap || 0 < bad }

/-- The next seq is above every record. -/
def bumpNext (s : Spool) : Spool :=
  { s with nextSeq := s.recs.getLast?.elim s.nextSeq fun r =>
      if r.seq ≥ s.nextSeq then r.seq + 1 else s.nextSeq }

/-- The part of `Open` that reads the files. -/
def load (s : Spool) (d : Disk) (limits : Limits) (newId : Ulid) : Spool :=
  let log := d.loadLog
  let s := { s with limits, recs := log.recs, bytes := (log.recs.map SpoolRecord.bytes).sum }
  (s.loadMeta d.info log.bad newId).dropAcked.bumpNext

end Load

section Append

/-- `DropOneCompactable`: the oldest record that is not critical goes. -/
def dropOneCompactable (s : Spool) : Option Spool :=
  (s.recs.find? fun r => !r.critical).map fun r =>
    { s with
      recs := s.recs.eraseP fun r => !r.critical
      bytes := s.bytes - r.bytes
      dropped := s.dropped + 1
      gap := true }

/-- Drops compactable records while the condition holds and there are any; the fuel is the
number of records. -/
def makeRoom (full : Spool → Bool) : ℕ → Spool → Spool
  | 0, s => s
  | fuel + 1, s =>
    if full s then
      match s.dropOneCompactable with
      | none => s
      | some s => makeRoom full fuel s
    else s

/-- `over`: whether one more message of that size is above so many percent of a limit. -/
def isOver (add percent : ℕ) (s : Spool) : Bool :=
  (s.recs.length + 1) * 100 > s.limits.maxMsgs * percent ||
    (s.bytes + add) * 100 > s.limits.maxBytes * percent

/-- Still above nine tenths of a limit. -/
def nearlyFull (s : Spool) : Bool :=
  s.recs.length * 100 > s.limits.maxMsgs * 90 || s.bytes * 100 > s.limits.maxBytes * 90

/-- Room for a message of that size, and whether anything was dropped for it. -/
def makeRoomFor (add : ℕ) (s : Spool) : Spool × Bool :=
  let s' := makeRoom (isOver add 100) s.recs.length s
  if s'.recs.length < s.recs.length then
    -- room for a while, so that a full spool is not rewritten on every message
    (makeRoom nearlyFull s'.recs.length s', true)
  else (s', false)

def push (s : Spool) (m : Message) : Spool :=
  { s with
    nextSeq := s.nextSeq + 1
    bytes := s.bytes + (m.record s.nextSeq).bytes
    recs := s.recs ++ [m.record s.nextSeq] }

/-- What `Append` decides before it writes; a message that is refused has no seq. -/
structure Appended where
  spool : Spool
  seq : Option ℤ
  droppedAny : Bool

/-- The part of `Append` in memory. -/
def append (s : Spool) (m : Message) : Appended :=
  let add := (m.record 0).bytes
  let (s, droppedAny) := s.makeRoomFor add
  if s.isOver add 100 && (!isCriticalType m.type || s.isOver add 200) then
    ⟨{ s with gap := true, dropped := s.dropped + 1 }, none, droppedAny⟩
  else ⟨s.push m, some s.nextSeq, droppedAny⟩

end Append

/-- The part of `AckUpTo` in memory. -/
def ackUpTo (s : Spool) (seq : ℤ) : Spool :=
  if seq ≤ s.ackedSeq then s else dropAcked { s with ackedSeq := min seq s.lastSeq }

/-- The records with new seqs from the given one on. -/
def renumber : ℤ → List SpoolRecord → List SpoolRecord
  | _, [] => []
  | seq, r :: rs => { r with seq } :: renumber (seq + 1) rs

/-- The part of `RotateIfGap` in memory. -/
def rotate (s : Spool) (newId : Ulid) : Spool :=
  { s with
    streamId := newId.text
    recs := renumber 1 s.recs
    nextSeq := s.recs.length + 1
    ackedSeq := 0
    gap := false }

end Spool

/-- How a write goes: a failed one may leave so many bytes. -/
inductive WriteResult where
  | ok
  | failed (bytes : ℕ)
  deriving DecidableEq

structure Host where
  spool : Spool
  metaDirty : Bool
  logOpen : Bool
  logBytes : ℕ
  disk : Disk
  /-- The results of the writes to come. -/
  outcomes : List WriteResult
  /-- Whether a write has failed. -/
  failed : Bool
  /-- What a crash in the present call may leave. -/
  crashes : List Disk

namespace Host

/-- A process that has not opened its spool. -/
def new (d : Disk) : Host := ⟨.new, false, false, 0, d, [], false, []⟩

variable (h : Host)

/-- A file operation, with what it leaves if it goes well, if it fails, and if it is cut off. -/
def write (done : Disk) (broken : ℕ → Disk) (parts : List Disk) : Bool × Host :=
  let h' := { h with outcomes := h.outcomes.tail, crashes := h.crashes ++ h.disk :: parts }
  match h.outcomes.headD .ok with
  | .ok => (true, { h' with disk := done })
  | .failed n => (false, { h' with disk := broken n, failed := true })

/-- `WriteFileAtomic` -/
def writeAtomic (done : Disk) : Bool × Host := h.write done (fun _ => h.disk) []

def flushMeta : Bool × Host :=
  let (ok, h) := h.writeAtomic { h.disk with info := some h.spool.toMeta }
  (ok, { h with metaDirty := h.metaDirty && !ok })

def rewrite : Bool × Host :=
  let log := h.spool.recs.map LogLine.whole
  let (ok, h') := h.writeAtomic { h.disk with log }
  (ok, { h' with logOpen := ok, logBytes := if ok then (log.map LogLine.cut).sum else h.logBytes })

/-- The file with a part of a line at its end. -/
def withPart (d : Disk) (r : SpoolRecord) (n : ℕ) : Disk :=
  if n = 0 then d else { d with log := d.log ++ [⟨r, min n r.text.length⟩] }

/-- `AppendLine`; a line that is not flushed counts as a write that failed. -/
def appendLine (r : SpoolRecord) : Bool × Host :=
  if h.logOpen then
    let (ok, h') := h.write { h.disk with log := h.disk.log ++ [.whole r] } (withPart h.disk r)
      ((List.range r.text.length).map fun n => withPart h.disk r (n + 1))
    (ok, { h' with logBytes := if ok then h.logBytes + r.line.length else h.logBytes })
  else (false, h)

def close : Host :=
  if h.logOpen then
    let h := if h.metaDirty then h.flushMeta.2 else h
    { h with logOpen := false }
  else h

/-- `Open` -/
def openDir (limits : Limits) (newId : Ulid) : Bool × Host :=
  let h := h.close
  -- the directory is made
  let (made, h) := h.writeAtomic h.disk
  if made then
    let (ok, h) := { h with spool := h.spool.load h.disk limits newId }.rewrite
    if ok then { h with metaDirty := true }.flushMeta else (false, h)
  else (false, { h with spool := { h.spool with limits, recs := [], bytes := 0 } })

def append (m : Message) : ℤ × Host :=
  let a := h.spool.append m
  let h := { h with spool := a.spool, metaDirty := true }
  match a.seq with
  | none => (0, if a.droppedAny then h.rewrite.2 else h)
  | some seq =>
    if a.droppedAny then (seq, h.rewrite.2)
    else
      let (ok, h) := h.appendLine (m.record seq)
      (seq, if ok then h else h.rewrite.2)

def ackUpTo (seq : ℤ) : Host :=
  if seq ≤ h.spool.ackedSeq then h
  else
    let h := { h with spool := h.spool.ackUpTo seq, metaDirty := true }
    if (h.spool.recs = [] ∧ h.logBytes > 64 * 2 ^ 10) ∨
        (h.logBytes > 2 ^ 20 ∧ h.logBytes > 2 * h.spool.bytes + 2 ^ 20) then
      -- the meta first, so that a crash between the two only replays what is acked
      h.flushMeta.2.rewrite.2
    else h

def rotateIfGap (newId : Ulid) : Bool × Host :=
  if h.spool.gap then
    (true, { h with spool := h.spool.rotate newId, metaDirty := true }.flushMeta.2.rewrite.2)
  else (false, h)

def setRxSeq (seq : ℤ) : Host :=
  if seq = h.spool.rxSeq then h
  else { h with spool := { h.spool with rxSeq := seq }, metaDirty := true }

end Host

end ReadyUp.Fleet
