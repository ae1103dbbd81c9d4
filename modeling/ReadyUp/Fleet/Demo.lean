import Mathlib.Data.List.DropRight
import ReadyUp.Fleet.JsonText

/-!
# Demo streaming

While a demo is recorded, its file is sent to the platform in chunks. A stream announces itself
with `demo.begin`, waits for the `demo.ack` that says how many bytes the platform has, sends
chunks from there and finishes with `demo.end`. When the file was replaced, or the platform's
copy fails its checksum, the stream starts over: `restart` makes the next `demo.begin` tell the
platform to drop what it has.

`onAck` and `work` do what `ApplyAck` and `Work` do to one stream, with a list of what they did.
What a tick finds outside, the file and the link, is a `World`. The digest of a file is a
parameter.
-/
namespace ReadyUp.Fleet.Demo

open Support JsonText

inductive Phase where
  | announce
  | stream
  | done
  | refused
  | failed
  deriving DecidableEq

structure Config where
  chunkBytes : ℕ := 128 * 1024
  windowBytes : ℤ := 2 ^ 20
  ackTimeoutMs : ℤ := 15000
  announceBackoffMaxMs : ℤ := 300000
  settleMs : ℤ := 3000
  staleRecordingMs : ℤ := 300000
  endRetryMs : ℤ := 10000
  keepAfterStoredMs : ℤ := 24 * 3600 * 1000
  forgetFailedMs : ℤ := 7 * 24 * 3600 * 1000
  maxChecksumRetries : ℕ := 3
  maxDemoBytes : ℤ := 4 * 2 ^ 30

/-- What the constructor of `Streams` makes of a configuration. -/
def Config.clamped (cfg : Config) : Config :=
  let chunk := max (4 * 1024) (min (512 * 1024) cfg.chunkBytes)
  { cfg with chunkBytes := chunk, windowBytes := max cfg.windowBytes chunk }

structure Spec where
  matchId : Bytes
  epoch : ℤ := 0
  mapNumber : ℤ := 1
  path : Bytes
  startedAtMs : ℤ := 0

structure Stream where
  id : Bytes
  spec : Spec
  file : Bytes
  chunk : ℕ
  phase : Phase := .announce
  recording : Bool := true
  stoppedAtMs : ℤ := 0
  sent : ℤ := 0
  acked : ℤ := 0
  /-- The fingerprints of the full chunks as they were sent, zero if unknown. -/
  fps : List UInt64 := []
  rewrites : List ℤ := []
  lastSize : ℤ := -1
  sizeSinceMs : ℤ := 0
  inode : ℕ := 0
  finalSize : ℤ := -1
  sha256 : Bytes := []
  restart : Bool := false
  session : ℕ := 0
  announcedMs : ℤ := 0
  announceTries : ℕ := 0
  lastAckMs : ℤ := 0
  endSentMs : ℤ := 0
  checksumFailures : ℕ := 0
  doneAtMs : ℤ := 0
  error : Bytes := []

structure Announcement where
  demoId : Bytes
  matchId : Bytes
  mapNumber : ℤ
  file : Bytes
  startedAt : ℤ
  chunkSize : ℕ
  recording : Bool
  restart : Bool

inductive Message where
  | demoBegin (a : Announcement)
  | demoChunk (demoId : Bytes) (offset size : ℤ) (data : Bytes)
  | demoEnd (demoId : Bytes) (size : ℤ) (sha256 : Bytes)

/-- What happens to a stream: `restart` is set, a message goes out, the file is deleted. -/
inductive Action where
  | restart
  | send (m : Message)
  | unlink

/-- What a tick finds: the file as `stat` and a reader see it, and what the link answers. -/
structure World where
  /-- Size and inode. -/
  stat : Option (ℤ × ℕ)
  content : Option Bytes
  online : Bool
  session : ℕ
  send : Bool
  /-- The answers of the bulk lane, one for each message; without one it is full. -/
  lane : List Bool

section Ack

/-- A `demo.ack`: the offset is `-1` where there is none. -/
structure Ack where
  demoId : Bytes
  offset : ℤ
  error : Option Bytes
  complete : Bool

def Ack.offsetOf (v : Option Value) : ℤ :=
  match v with
  | some (.int i) => if 0 ≤ i then i else -1
  | _ => -1

def Ack.errorOf (v : Option Value) : Option Bytes :=
  match v with
  | some (.obj o) => some (((Value.obj o).get (ascii "code")).elim (ascii "error") Value.asStr)
  | _ => none

/-- The payload of a `demo.ack`. -/
def readAck (payload : Bytes) : Option Ack :=
  (parse payload 64).bind fun v =>
    if v.isObj then
      some {
        demoId := (v.get (ascii "demo_id")).elim [] Value.asStr
        offset := Ack.offsetOf (v.get (ascii "offset"))
        error := Ack.errorOf (v.get (ascii "error"))
        complete := (v.get (ascii "complete")).elim false Value.asBool }
    else none

namespace Stream

def startOver (s : Stream) : Stream :=
  { s with
    restart := true, phase := .announce, announcedMs := 0, announceTries := 0, sent :=
      0, acked := 0, fps := [], rewrites := [], endSentMs := 0 }

/-- The codes with which the platform refuses a demo for good. -/
def refusals : List Bytes :=
  [ascii "not_assigned", ascii "stale_epoch", ascii "too_large", ascii "refused"]

def onError (cfg : Config) (nowMs offset : ℤ) (code : Bytes) (s : Stream) : Stream × List Action :=
  let s := { s with error := code }
  if code = ascii "gap" ∧ 0 ≤ offset then
    ({ s with sent := offset, acked := offset, lastAckMs := nowMs }, [])
  else if code = ascii "checksum" then
    let s := { s with checksumFailures := s.checksumFailures + 1 }
    if cfg.maxChecksumRetries < s.checksumFailures then
      ({ s with phase := .failed, doneAtMs := nowMs }, [])
    else (s.startOver, [.restart])
  else if code ∈ refusals then ({ s with phase := .refused, doneAtMs := nowMs }, [])
  else if code = ascii "unknown_demo" then
    ({ s with phase := .announce, announcedMs := 0, announceTries := 0 }, [])
  else ({ s with phase := .announce }, [])

/-- An ack without an error: in the announce phase it is taken for the answer to
`demo.begin`. -/
def onOffset (session : ℕ) (nowMs offset : ℤ) (s : Stream) : Stream :=
  let s := { s with error := [] }
  if s.phase = .announce then
    { s with
      acked := offset, sent := offset, session, phase := .stream, announceTries := 0,
      restart := false, endSentMs := 0, lastAckMs := nowMs }
  else
    let sent := if offset < s.acked then offset else s.sent
    { s with acked := offset, sent := max sent offset, lastAckMs := nowMs }

def onComplete (nowMs offset : ℤ) (complete : Bool) (s : Stream) : Stream :=
  if complete ∧ 0 ≤ s.finalSize ∧ offset = s.finalSize then
    { s with phase := .done, doneAtMs := nowMs }
  else s

/-- The stream is over, one way or the other. -/
def isOver (s : Stream) : Bool := s.phase = .done ∨ s.phase = .refused ∨ s.phase = .failed

/-- `ApplyAck`, for the stream that it names. -/
def onAck (cfg : Config) (session : ℕ) (nowMs : ℤ) (a : Ack) (s : Stream) : Stream × List Action :=
  if s.isOver then (s, [])
  else match a.error with
    | some code => s.onError cfg nowMs a.offset code
    | none =>
      if a.offset < 0 then (s, [])
      else ((s.onOffset session nowMs a.offset).onComplete nowMs a.offset a.complete, [])

end Stream

end Ack

section Work

/-- `Fnv1a64`; zero means unknown. -/
def fnv1a64 (data : Bytes) : UInt64 :=
  let h := data.foldl (fun h c => (h ^^^ c.toUInt64) * 1099511628211) (1469598103934665603 : UInt64)
  if h = 0 then 1 else h

def isDemoFileName (n : Bytes) : Bool :=
  decide (5 ≤ n.length) && decide (n.length ≤ 200) && (ascii ".dem").isSuffixOf n &&
    n.head? != some (byte '.') && n.all fun c =>
      isDigit c || (byte 'a' ≤ c && c ≤ byte 'z') || (byte 'A' ≤ c && c ≤ byte 'Z') ||
        c == byte '_' || c == byte '-' || c == byte '.'

/-- `Basename`: what follows the last slash. -/
def basename (path : Bytes) : Bytes := path.rtakeWhile (· != byte '/')

def readRange (content : Option Bytes) (offset len : ℤ) : Option Bytes :=
  content.bind fun c =>
    if 0 ≤ offset ∧ offset + len ≤ c.length then
      some ((c.drop offset.toNat).take len.toNat)
    else none

/-- A stream in the middle of sending: the answers of the lane that are left, and what was
sent. -/
structure Sending where
  stream : Stream
  lane : List Bool
  sent : List Action := []

variable (cfg : Config) (sha256 : Bytes → Bytes)

namespace Stream

/-- What `stat` says: a file that is another one or shorter starts the stream over. -/
def sawFile (nowMs size : ℤ) (ino : ℕ) (s : Stream) : Stream × List Action :=
  let replaced :=
    (s.inode ≠ 0 ∧ ino ≠ s.inode) ∨ size < s.lastSize ∨ (s.finalSize < 0 ∧ size < s.sent)
  let s := if replaced then { s.startOver with finalSize := -1, sha256 := [] } else s
  let s := { s with inode := ino }
  (if size = s.lastSize then s else { s with lastSize := size, sizeSinceMs := nowMs },
    if replaced then [.restart] else [])

def missing (nowMs : ℤ) (s : Stream) : Stream :=
  if 0 ≤ s.lastSize then
    { s with phase := .failed, error := ascii "file_vanished", doneAtMs := nowMs }
  else if s.recording = false ∧ 60000 < nowMs - s.stoppedAtMs then
    { s with phase := .failed, error := ascii "file_not_found", doneAtMs := nowMs }
  else s

/-- A recording that has not grown for long has ended. -/
def checkStale (nowMs : ℤ) (s : Stream) : Stream :=
  if s.recording ∧ cfg.staleRecordingMs ≤ nowMs - s.sizeSinceMs then
    { s with recording := false, stoppedAtMs := nowMs }
  else s

/-- A new session, or a platform that is silent: ask again where it is. -/
def reannounce (nowMs : ℤ) (session : ℕ) (s : Stream) : Stream :=
  let s :=
    if s.phase = .stream ∧ s.session ≠ session then
      { s with phase := .announce, announcedMs := 0, announceTries := 0 }
    else s
  if s.phase = .stream ∧ s.acked < s.sent ∧ cfg.ackTimeoutMs < nowMs - s.lastAckMs then
    { s with phase := .announce, announcedMs := 0 }
  else s

def announcement (s : Stream) : Announcement where
  demoId := s.id
  matchId := s.spec.matchId
  mapNumber := s.spec.mapNumber
  file := s.file
  startedAt := s.spec.startedAtMs
  chunkSize := s.chunk
  recording := s.recording ∨ s.finalSize < 0
  restart := s.restart

/-- How long to wait before the next `demo.begin`. -/
def backoff (s : Stream) : ℤ :=
  if s.announceTries = 0 then 0
  else min cfg.announceBackoffMaxMs (5000 * 2 ^ min (s.announceTries - 1) 12)

/-- The announce phase: `demo.begin`, again and again with longer and longer pauses. -/
def announce (nowMs : ℤ) (accepted : Bool) (s : Stream) : Stream × List Action :=
  if (s.announcedMs ≠ 0 ∧ nowMs - s.announcedMs < s.backoff cfg) ∨ accepted = false then (s, [])
  else
    ({ s with announcedMs := nowMs, announceTries := s.announceTries + 1 },
      [.send (.demoBegin s.announcement)])

/-- The chunks sent already that are not what the file holds now. -/
def changedChunks (content : Bytes) (s : Stream) : List ℤ :=
  (content.toChunks s.chunk).zipIdx.filterMap fun p =>
    let offset : ℤ := p.2 * s.chunk
    let full := p.1.length = s.chunk
    let fp := if full then fnv1a64 p.1 else 0
    let known := full ∧ s.fps.getD p.2 0 ≠ 0
    if offset < s.sent ∧ (¬known ∨ s.fps.getD p.2 0 ≠ fp) then some offset else none

def finalPass (content : Bytes) (s : Stream) : Stream :=
  { s with
    finalSize := content.length, sha256 := sha256 content, rewrites := s.changedChunks content,
    sent := min s.sent content.length }

/-- The recording has stopped and the file has settled. -/
def isSettled (nowMs : ℤ) (s : Stream) : Bool :=
  !s.recording && decide (s.finalSize < 0) && decide (cfg.settleMs ≤ nowMs - s.stoppedAtMs) &&
    decide (cfg.settleMs ≤ nowMs - s.sizeSinceMs)

/-- A full chunk that went out leaves its fingerprint. -/
def noteChunk (offset len : ℤ) (data : Bytes) (s : Stream) : Stream :=
  if len = s.chunk then
    let i := (offset / s.chunk).toNat
    { s with fps := (s.fps.rightpad (i + 1) 0).set i (fnv1a64 data) }
  else s

end Stream

namespace Sending

def sendBulk (m : Message) (g : Sending) : Bool × Sending :=
  match g.lane with
  | [] => (false, g)
  | false :: lane => (false, { g with lane })
  | true :: lane => (true, { g with lane, sent := g.sent ++ [.send m] })

def sendChunk (content : Option Bytes) (offset len : ℤ) (g : Sending) : Bool × Sending :=
  match readRange content offset len with
  | none => (false, g)
  | some data =>
    let (ok, g) := g.sendBulk (.demoChunk g.stream.id offset len data)
    if ok then (true, { g with stream := g.stream.noteChunk offset len data }) else (false, g)

/-- The loop over the chunks that were not sent yet, within a budget; it leaves the rest. -/
def forward (content : Option Bytes) (nowMs limit : ℤ) : ℕ → Sending → ℕ × Sending
  | 0, g => (0, g)
  | budget + 1, g =>
    let s := g.stream
    if s.sent < limit then
      let len := min (s.chunk : ℤ) (limit - s.sent)
      if s.finalSize < 0 ∧ len < s.chunk then (budget, g)
      else if s.acked < s.sent ∧ cfg.windowBytes < s.sent - s.acked + len then (budget, g)
      else
        let g := if s.sent = s.acked then { g with stream := { s with lastAckMs := nowMs } } else g
        let (ok, g) := g.sendChunk content s.sent len
        if ok then
          forward content nowMs limit budget
            { g with stream := { g.stream with sent := s.sent + len } }
        else (budget, g)
    else (budget + 1, g)

/-- The loop over the chunks that have changed since. -/
def resend (content : Option Bytes) : ℕ → Sending → Sending
  | 0, g => g
  | budget + 1, g =>
    match g.stream.rewrites with
    | [] => g
    | offset :: rest =>
      let (ok, g) :=
        g.sendChunk content offset (min (g.stream.chunk : ℤ) (g.stream.finalSize - offset))
      if ok then
        resend content budget { g with stream := { g.stream with rewrites := rest } }
      else g

/-- `demo.end`, until the platform has it all. -/
def sendEnd (nowMs : ℤ) (g : Sending) : Sending :=
  let s := g.stream
  if s.endSentMs = 0 ∨ cfg.endRetryMs ≤ nowMs - s.endSentMs then
    let (ok, g) := g.sendBulk (.demoEnd s.id s.finalSize s.sha256)
    if ok then { g with stream := { g.stream with endSentMs := nowMs } } else g
  else g

/-- The stream phase after the final pass. -/
def sendAll (content : Option Bytes) (nowMs size : ℤ) (g : Sending) : Sending :=
  let limit := if 0 ≤ g.stream.finalSize then g.stream.finalSize else size
  let (budget, g) := g.forward cfg content nowMs limit 16
  if g.stream.finalSize < 0 ∨ g.stream.sent < g.stream.finalSize then g
  else
    let g := g.resend content budget
    if g.stream.rewrites.isEmpty then g.sendEnd cfg nowMs else g

end Sending

namespace Stream

def sendData (nowMs size : ℤ) (w : World) (s : Stream) : Stream × List Action :=
  if s.isSettled cfg nowMs then
    match w.content with
    | none => (s, [])
    | some content =>
      let g :=
        Sending.sendAll cfg w.content nowMs size
          { stream := s.finalPass sha256 content, lane := w.lane }
      (g.stream, g.sent)
  else
    let g := Sending.sendAll cfg w.content nowMs size { stream := s, lane := w.lane }
    (g.stream, g.sent)

/-- `Work` with a file: the link must be online for anything to be sent. -/
def talk (nowMs size : ℤ) (w : World) (s : Stream) : Stream × List Action :=
  if w.online = false then (s, [])
  else
    let s := s.reannounce cfg nowMs w.session
    if s.phase = .announce then s.announce cfg nowMs w.send else s.sendData cfg sha256 nowMs size w

/-- The file is deleted if it still is the one that the platform has. -/
def unlinked (w : World) (s : Stream) : List Action :=
  match w.stat with
  | none => []
  | some (size, _) =>
    if isDemoFileName (basename s.spec.path) ∧ (s.finalSize < 0 ∨ size = s.finalSize) then [.unlink]
    else []

/-- The local copy goes some time after the platform has the demo. -/
def cleanUp (nowMs : ℤ) (w : World) (s : Stream) : Stream × List Action :=
  if 0 < cfg.keepAfterStoredMs ∧ cfg.keepAfterStoredMs ≤ nowMs - s.doneAtMs ∧
  s.error ≠ ascii "deleted" then
    ({ s with error := ascii "deleted" }, s.unlinked w)
  else (s, [])

/-- `Work` with a file. -/
def workOn (nowMs size : ℤ) (ino : ℕ) (w : World) (s : Stream) : Stream × List Action :=
  let (s, restarted) := s.sawFile nowMs size ino
  if cfg.maxDemoBytes < size then
    ({ s with phase := .refused, error := ascii "too_large", doneAtMs := nowMs }, restarted)
  else
    let (s, actions) := (s.checkStale cfg nowMs).talk cfg sha256 nowMs size w
    (s, restarted ++ actions)

def work (nowMs : ℤ) (w : World) (s : Stream) : Stream × List Action :=
  if s.phase = .done then s.cleanUp cfg nowMs w
  else if s.isOver then (s, [])
  else match w.stat with
    | none => (s.missing nowMs, [])
    | some (size, ino) => s.workOn cfg sha256 nowMs size ino w

end Stream

end Work

section Streams

/-- A stream and everything that has happened to it. -/
structure Tracked where
  stream : Stream
  log : List Action := []

def Tracked.did (t : Tracked) (result : Stream × List Action) : Tracked :=
  { stream := result.1, log := t.log ++ result.2 }

/-- The calls that wait for the next tick. -/
inductive Cmd where
  | begin (s : Stream)
  | stop (path : Bytes) (nowMs : ℤ)
  | ack (payload : Bytes)

structure Streams where
  cfg : Config
  queue : List Cmd := []
  streams : List Tracked := []

namespace Streams

/-- A recording of the same file ends what was still streaming. -/
def replaced (path : Bytes) (nowMs : ℤ) (t : Tracked) : Tracked :=
  if t.stream.spec.path = path ∧ t.stream.isOver = false then
    { t with stream :=
      { t.stream with phase := .failed, error := ascii "replaced", doneAtMs := nowMs } }
  else t

def stopped (path : Bytes) (nowMs : ℤ) (t : Tracked) : Tracked :=
  if t.stream.spec.path = path ∧ t.stream.recording then
    { t with stream := { t.stream with recording := false, stoppedAtMs := nowMs } }
  else t

/-- The first stream with the id gets the ack. -/
def deliver (cfg : Config) (session : ℕ) (nowMs : ℤ) (a : Ack) : List Tracked → List Tracked
  | [] => []
  | t :: ts =>
    if t.stream.id = a.demoId then t.did (t.stream.onAck cfg session nowMs a) :: ts
    else t :: deliver cfg session nowMs a ts

def apply (cfg : Config) (session : ℕ) (nowMs : ℤ) (ts : List Tracked) : Cmd → List Tracked
  | .begin s => ts.map (replaced s.spec.path nowMs) ++ [{ stream := s }]
  | .stop path stopMs => ts.map (stopped path stopMs)
  | .ack payload =>
    match readAck payload with
    | none => ts
    | some a => deliver cfg session nowMs a ts

/-- Streams that are over are forgotten after some time. -/
def isForgotten (cfg : Config) (nowMs : ℤ) (s : Stream) : Bool :=
  match s.phase with
  | .done => decide (cfg.keepAfterStoredMs ≤ 0) || s.error == ascii "deleted"
  | .refused => decide (cfg.forgetFailedMs ≤ nowMs - s.doneAtMs)
  | .failed => decide (cfg.forgetFailedMs ≤ nowMs - s.doneAtMs)
  | _ => false

variable (sha256 : Bytes → Bytes)

/-- The streams after a tick, before any is forgotten; every stream finds its own file. -/
def worked (cfg : Config) (nowMs : ℤ) (worlds : ℕ → World) (ts : List Tracked) : List Tracked :=
  ts.mapIdx fun i t => t.did (t.stream.work cfg sha256 nowMs (worlds i))

/-- `Tick`: the calls that waited, then every stream. -/
def tick (session : ℕ) (nowMs : ℤ) (worlds : ℕ → World) (s : Streams) : Streams :=
  let ts := s.queue.foldl (apply s.cfg session nowMs) s.streams
  { s with
    queue := []
    streams := (worked sha256 s.cfg nowMs worlds ts).filter fun t =>
      !isForgotten s.cfg nowMs t.stream }

/-- What the rest of the program may do: start and stop recordings, hand on acks, tick. -/
inductive Event where
  | begin (spec : Spec) (id : Bytes) (nowMs : ℤ)
  | stop (path : Bytes) (nowMs : ℤ)
  | onAck (payload : Bytes)
  | tick (session : ℕ) (nowMs : ℤ) (worlds : ℕ → World)

/-- `Begin`: only a `.dem` file with an absolute path, and only for a match. -/
def begin (spec : Spec) (id : Bytes) (nowMs : ℤ) (s : Streams) : Streams :=
  let file := basename spec.path
  if spec.path.head? = some (byte '/') ∧ isDemoFileName file ∧ spec.matchId ≠ [] then
    let spec := if spec.startedAtMs ≤ 0 then { spec with startedAtMs := nowMs } else spec
    { s with queue := s.queue ++ [.begin { id, spec, file, chunk := s.cfg.chunkBytes }] }
  else s

def step (s : Streams) : Event → Streams
  | .begin spec id nowMs => s.begin spec id nowMs
  | .stop path nowMs => { s with queue := s.queue ++ [.stop path nowMs] }
  | .onAck payload => { s with queue := s.queue ++ [.ack payload] }
  | .tick session nowMs worlds => s.tick sha256 session nowMs worlds

def run (s : Streams) (events : List Event) : Streams := events.foldl (step sha256) s

def new (cfg : Config) : Streams := { cfg := cfg.clamped }

end Streams

end Streams

end ReadyUp.Fleet.Demo
