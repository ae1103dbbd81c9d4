import ReadyUp.Fleet.RxTracker
import ReadyUp.Fleet.SpoolRun

/-!
# The client

The network thread of the client and what the game thread gives it. A `Client` runs session
after session: hello and welcome, the replay of what the spool retains, then passes that drain
the outbox and send. A step is one message that is stored, one frame that is sent or one frame
that is read, so that a connection may be lost between any two of them.

What is outside comes with the events: the results of the writes and of the socket, the time,
the frames of the platform, and the texts that `BuildHello` and `BuildSnapshot` make. The parts
of a pass after its sending may come in any order. `wire` and `past` keep every frame that was
sent, each with the `rx_seq` that `meta.json` had at that moment, and `spooled` every message
that was appended.
-/
namespace ReadyUp.Fleet

open Support

/-- `kProtocolVersion` -/
def protocolVersion : ℤ := 1

/-- `NewUlid` and `NowMs`, as a step finds them. -/
structure Now where
  id : Ulid
  ms : ℤ

/-- How a frame goes: the result of the write that may come before it, and that of the socket. -/
structure Io where
  flush : WriteResult
  sent : Bool

/-- `Envelope`, with the payload as it is sent. The seq is 0 in an ephemeral frame. -/
structure Frame where
  type : Bytes
  id : Bytes
  seq : ℤ
  ack : ℤ
  ts : ℤ
  ref : Bytes
  epoch : ℤ
  payload : Bytes
  deriving DecidableEq

namespace Frame

def ephemeral (type payload ref : Bytes) (epoch : ℤ) : Frame :=
  ⟨type, [], 0, -1, 0, ref, epoch, payload⟩

def ofRecord (r : SpoolRecord) : Frame :=
  ⟨r.type, r.id, r.seq, -1, r.ts, r.ref, r.epoch, r.payload.text⟩

/-- An id and a time for a frame that has none. -/
def stamp (e : Frame) (now : Now) : Frame :=
  { e with
    id := if e.id = [] then now.id.text else e.id
    ts := if e.ts = 0 then now.ms else e.ts }

end Frame

/-- A frame that the socket took, and the `rx_seq` of `meta.json` then. -/
structure SentFrame where
  frame : Frame
  stored : Option ℤ
  deriving DecidableEq

structure Session where
  lastSentSeq : ℤ := 0
  persistedRx : ℤ := -1
  ackNow : Bool := false
  broken : Bool := false
  deriving DecidableEq

inductive Phase where
  | offline
  /-- `DrainOutbox` without a session. -/
  | spooling (q : List Out)
  /-- Waiting for the welcome. -/
  | hello (rotated : Bool)
  /-- Sending what is retained; `first` until something was tried. -/
  | replay (reset first : Bool)
  /-- `DrainOutbox` of a pass. -/
  | draining (q eph : List Out)
  /-- The loop of a pass over the records. -/
  | sending (eph : List Out)
  /-- The rest of a pass. -/
  | steady
  deriving DecidableEq

inductive Stage where
  | away
  | waiting
  | online
  deriving DecidableEq

def Phase.stage : Phase → Stage
  | .offline | .spooling _ => .away
  | .hello _ => .waiting
  | .replay _ _ | .draining _ _ | .sending _ | .steady => .online

structure ClientConfig where
  outboxMax : ℕ := 20000
  bulkMaxBytes : ℕ := 2 * 2 ^ 20

structure Bulk where
  type : Bytes
  payload : Bytes
  epoch : ℤ

structure Client where
  config : ClientConfig
  host : Host
  rx : RxTracker
  outbox : List Out
  bulk : List Bulk
  /-- The seqs that the game thread finished. -/
  processed : List ℤ
  holdOut : Bool
  phase : Phase
  session : Session
  /-- The frames of the present session, or of the last one. -/
  wire : List SentFrame
  /-- The frames of the sessions before it. -/
  past : List (List SentFrame)
  /-- Every message that the spool gave a seq. -/
  spooled : List SpoolRecord

/-- A spool with the results of its next writes. -/
def Host.given (h : Host) (outcomes : List WriteResult) : Host := { h with outcomes, crashes := [] }

inductive GameCall where
  | send (type payloadJson : Bytes) (epoch : ℤ) (reliable : Bool) (ref : Bytes)
  | sendSnapshot (payload : Payload) (epoch : ℤ)
  | sendBulk (type payloadJson : Bytes) (epoch : ℤ)
  | markProcessed (seq : ℤ)
  | holdOutbound (hold : Bool)

/-- A frame from the platform, once it is decoded. -/
structure Inbound where
  v : ℤ
  type : Bytes
  id : String
  seq : ℤ
  ack : ℤ

/-- The welcome: what `resume` and the envelope say, 0 for a seq that is absent. -/
structure Welcome where
  reset : Bool
  platformLastRxSeq : ℤ
  ack : ℤ

/-- What the answer to an inbound frame needs. -/
structure Answer where
  /-- A handler is registered for the type. -/
  handled : Bool
  /-- The token of `auth.rotate` is there and was saved. -/
  tokenSaved : Bool
  payload : Bytes
  epoch : ℤ

/-- The frames that a session sends by itself. -/
inductive OwnFrame where
  | pong (ref payload : Bytes)
  | ack
  | ping (payload : Bytes)
  | bulk

inductive ClientEvent where
  | game (call : GameCall)
  /-- `DrainOutbox` takes the queue. -/
  | drain
  /-- `DrainOutbox` handles one message of it. -/
  | store (now : Now) (outcomes : List WriteResult)
  | connect (newId : Ulid) (outcomes : List WriteResult) (hello : Bytes) (now : Now) (io : Io)
  | welcome (w : Welcome) (outcomes : List WriteResult)
  /-- One more frame of the replay or of the pass. -/
  | next (snapshot : Bytes) (epoch : ℤ) (now : Now) (io : Io)
  | own (f : OwnFrame) (now : Now) (io : Io)
  | markDone (nowMs : ℤ)
  /-- `MaybeFlush` -/
  | flush (result : WriteResult)
  | inbound (e : Inbound) (answer : Answer) (acking storing : List WriteResult)
      (now : Now) (io : Io)
  /-- The end of a session, for whatever reason. -/
  | finish

namespace Client

/-- `Start`, over a spool that is open. -/
def start (config : ClientConfig) (h : Host) : Client where
  config := config
  host := h
  rx := RxTracker.reset {} h.spool.rxSeq
  outbox := []
  bulk := []
  processed := []
  holdOut := false
  phase := .offline
  session := {}
  wire := []
  past := []
  spooled := []

variable (c : Client)

section Sending

/-- Before a frame: what it acks is stored first. The result of the write is not looked at. -/
def persistRx (flush : WriteResult) : Client :=
  if c.rx.processed ≠ c.session.persistedRx then
    { c with
      host := ((c.host.setRxSeq c.rx.processed).given [flush]).flushMeta.2
      session := { c.session with persistedRx := c.rx.processed } }
  else c

/-- `SendFrame` and what follows it. -/
def transmit (e : Frame) (sent : Bool) : Bool × Client :=
  if sent then
    (true, { c with
      wire := c.wire ++ [⟨{ e with ack := c.rx.processed }, c.host.disk.info.map Meta.rxSeq⟩]
      rx := c.rx.onAckSent c.rx.processed })
  else (false, { c with session := { c.session with broken := true } })

/-- `sendEnv`, and `sendEph` of `HandleInbound`. -/
def sendEnv (e : Frame) (now : Now) (io : Io) : Bool × Client :=
  (c.persistRx io.flush).transmit (e.stamp now) io.sent

def sendRecord (r : SpoolRecord) (now : Now) (io : Io) : Client :=
  let (ok, c) := c.sendEnv (.ofRecord r) now io
  if ok then { c with session := { c.session with lastSentSeq := r.seq } } else c

def sendEphemeral (type payload ref : Bytes) (epoch : ℤ) (now : Now) (io : Io) : Client :=
  (c.sendEnv (.ephemeral type payload ref epoch) now io).2

/-- `sendEph` of a pass. -/
def sendOut (o : Out) (now : Now) (io : Io) : Client :=
  c.sendEphemeral o.type o.payload.text o.ref o.epoch now io

end Sending

section Spooling

def append (m : Message) (outcomes : List WriteResult) : Client :=
  { c with
    host := ((c.host.given outcomes).append m).2
    spooled := c.spooled ++ ((c.host.spool.append m).seq.map m.record).toList }

def ackUpTo (seq : ℤ) (outcomes : List WriteResult) : Client :=
  { c with host := (c.host.given outcomes).ackUpTo seq }

/-- A reliable message of the outbox, as the spool gets it. -/
def message (o : Out) (now : Now) : Message :=
  ⟨o.type, now.id.text, o.ref, now.ms, o.epoch, o.payload⟩

/-- The answer to `auth.rotate`. -/
def authRotated (e : Inbound) (now : Now) : Message where
  type := ascii "auth.rotated"
  id := now.id.text
  ref := e.id.toUTF8.toList
  ts := now.ms
  epoch := 0
  payload := .empty

end Spooling

section Game

def game : GameCall → Client
  | .send type payloadJson epoch reliable ref =>
    match send c.config.outboxMax c.outbox type payloadJson epoch reliable ref with
    | .ok out => { c with outbox := c.outbox ++ [out] }
    | .error _ => c
  | .sendSnapshot payload epoch =>
    if c.phase.stage ≠ .online ∨ c.outbox.length ≥ c.config.outboxMax then c
    else { c with outbox := c.outbox ++
      [{ type := ascii "state.snapshot", payload, ref := [], epoch :=
        max 0 epoch, reliable := false, afterSeq := 0 }] }
  | .sendBulk type payloadJson epoch =>
    if isValidType type = false ∨ isEphemeralType type = true ∨ ascii "local." <+: type then c
    else if payloadJson = [] ∨ payloadJson.length > maxFrameBytes - 1024 then c
    else if c.phase.stage ≠ .online then c
    else if c.bulk ≠ [] ∧
        (c.bulk.map fun b => b.payload.length).sum + payloadJson.length >
          c.config.bulkMaxBytes then c
    else { c with bulk := c.bulk ++ [⟨type, payloadJson, epoch⟩] }
  | .markProcessed seq => { c with processed := c.processed ++ [seq] }
  | .holdOutbound hold => { c with holdOut := hold }

end Game

section Network

/-- The first record that this session has not sent. -/
def unsent : Option SpoolRecord := c.host.spool.recs.find? fun r => c.session.lastSentSeq < r.seq

def ackDue (t : RxTracker) (nowMs : ℤ) : Bool :=
  if t.processed ≤ t.lastAckSent ∨ t.processed = 0 then false
  else if t.processed - max t.lastAckSent 0 ≥ 32 then true
  else t.firstUnackedAtMs ≥ 0 && nowMs - t.firstUnackedAtMs ≥ 1000

/-- One message of the queue that `DrainOutbox` took. -/
def store (now : Now) (outcomes : List WriteResult) : Client :=
  match c.phase with
  | .spooling (o :: q) =>
    if o.reliable then { c.append (message o now) outcomes with phase := .spooling q }
    else { c with phase := .spooling q }
  | .draining (o :: q) eph =>
    if o.reliable then { c.append (message o now) outcomes with phase := .draining q eph }
    else { c with phase := .draining q (eph ++ [{ o with afterSeq := c.host.spool.lastSeq }]) }
  | _ => c

/-- The start of a session, up to its hello. -/
def connect (newId : Ulid) (outcomes : List WriteResult) (hello : Bytes) (now : Now)
    (io : Io) : Client :=
  let (rotated, host) := (c.host.given outcomes).rotateIfGap newId
  let c :=
    { c with host, session := {}, wire := [], past := c.wire :: c.past, phase := .hello rotated }
  let (ok, c) := c.sendEnv (.ephemeral (ascii "hello") hello [] 0) now io
  if ok then c else { c with phase := .offline, bulk := [] }

/-- The welcome: the platform has what it says, the replay starts after it. -/
def resume (rotated : Bool) (w : Welcome) (outcomes : List WriteResult) : Client :=
  let platformRx := if 0 < w.ack then max w.platformLastRxSeq w.ack else w.platformLastRxSeq
  let c := c.ackUpTo platformRx outcomes
  { c with
    session := { c.session with lastSentSeq := c.host.spool.ackedSeq }
    phase := .replay (w.reset || rotated) true }

/-- One more frame of the replay or of the pass, or its end. -/
def next (snapshot : Bytes) (epoch : ℤ) (now : Now) (io : Io) : Client :=
  match c.phase with
  | .replay reset _ =>
    match c.unsent with
    | some r => { c with phase := .replay reset false }.sendRecord r now io
    | none =>
      if c.session.broken then c
      else if reset then
        { c with phase := .steady }.sendEphemeral (ascii "state.snapshot") snapshot []
          (max 0 epoch) now io
      else { c with phase := .steady }
  | .spooling [] => { c with phase := .offline }
  | .draining [] eph => { c with phase := .sending eph }
  | .sending eph =>
    if c.session.broken then { c with phase := .steady }
    else
      match c.unsent, eph with
      | some r, [] => c.sendRecord r now io
      | some r, o :: eph =>
        -- in the order in which the plugins queued them
        if o.afterSeq < r.seq then { c with phase := .sending eph }.sendOut o now io
        else c.sendRecord r now io
      | none, o :: eph => { c with phase := .sending eph }.sendOut o now io
      | none, [] => { c with phase := .steady }
  | _ => c

def sendOwn (now : Now) (io : Io) : OwnFrame → Client
  | .pong ref payload => c.sendEphemeral (ascii "pong") payload ref 0 now io
  | .ack =>
    { c with session := { c.session with ackNow := false } }.sendEphemeral (ascii "ack")
      (ascii "\x7b\x7d") [] 0 now io
  | .ping payload => c.sendEphemeral (ascii "ping") payload [] 0 now io
  | .bulk =>
    match c.bulk with
    | [] => c
    | b :: bulk => { c with bulk }.sendEphemeral b.type b.payload [] b.epoch now io

/-- What the game thread finished is marked. -/
def markDone (nowMs : ℤ) : Client :=
  { c with
    rx := c.processed.foldl (fun t seq => (t.markDone seq nowMs).1) c.rx
    processed := [] }

/-- `HandleInbound` of an ephemeral frame. -/
def handleEphemeral (e : Inbound) (answer : Answer) (now : Now) (io : Io) : Client :=
  let (rx, isNew) := c.rx.onEphemeralId e.id
  let c := { c with rx }
  if isNew ∧ e.type = ascii "state.request" then
    c.sendEphemeral (ascii "state.snapshot") answer.payload e.id.toUTF8.toList
      (max 0 answer.epoch) now io
  else c

/-- `HandleInbound` of a reliable frame that is accepted. -/
def handleAccepted (e : Inbound) (answer : Answer) (storing : List WriteResult) (now : Now)
    (io : Io) : Client :=
  let done := { c with rx := (c.rx.markDone e.seq now.ms).1 }
  if e.type = ascii "auth.rotate" then
    if answer.tokenSaved then done.append (authRotated e now) storing else done
  else if answer.handled then c
  else done.sendEphemeral (ascii "error") answer.payload e.id.toUTF8.toList 0 now io

/-- `HandleInbound` of a reliable frame. -/
def handleReliable (e : Inbound) (answer : Answer) (storing : List WriteResult) (now : Now)
    (io : Io) : Client :=
  let (rx, verdict) := c.rx.onReliable e.seq e.id
  let c := { c with rx }
  match verdict with
  | .duplicate => { c with session := { c.session with ackNow := true } }
  | .outOfOrder => c
  | .accept => c.handleAccepted e answer storing now io

/-- `HandleInbound` after the ack of the frame. -/
def dispatch (e : Inbound) (answer : Answer) (storing : List WriteResult) (now : Now)
    (io : Io) : Client :=
  if e.type = ascii "ping" then
    c.sendEphemeral (ascii "pong") answer.payload e.id.toUTF8.toList 0 now io
  else if e.type = ascii "pong" ∨ e.type = ascii "ack" ∨ e.type = ascii "welcome" ∨
    e.type = ascii "error" then c
  else if e.seq = 0 then c.handleEphemeral e answer now io
  else c.handleReliable e answer storing now io

def handleInbound (e : Inbound) (answer : Answer) (acking storing : List WriteResult)
    (now : Now) (io : Io) : Client :=
  if e.v ≠ protocolVersion then c
  else
    let c := if 0 < e.ack then c.ackUpTo e.ack acking else c
    c.dispatch e answer storing now io

/-- Whether the network thread may do this where it is. -/
def enabled : ClientEvent → Bool
  | .game _ => true
  | .drain => c.phase = .offline || (c.phase = .steady && !c.session.broken && !c.holdOut)
  | .store _ _ => true
  | .connect _ _ _ _ _ => c.phase = .offline
  | .welcome _ _ => true
  | .next _ _ _ _ =>
    match c.phase with
    | .replay _ first => !c.session.broken || first
    | _ => true
  | .own f now _ =>
    match f with
    | .pong _ _ => c.phase = .hello true || c.phase = .hello false
    | .ack => c.phase = .steady && !c.session.broken && (c.session.ackNow || ackDue c.rx now.ms)
    | .ping _ => c.phase = .steady && !c.session.broken
    | .bulk => c.phase = .steady && !c.session.broken && !c.holdOut && c.outbox.isEmpty
  | .markDone _ => c.phase = .steady
  | .flush _ => c.phase = .steady || c.phase = .offline
  | .inbound _ _ _ _ _ _ => c.phase = .steady && !c.session.broken
  | .finish =>
    match c.phase with
    | .hello _ | .steady => true
    | .replay _ _ => c.session.broken
    | .offline | .spooling _ | .draining _ _ | .sending _ => false

def apply : ClientEvent → Client
  | .game call => c.game call
  | .drain =>
    { c with
      outbox := []
      phase := if c.phase = .offline then .spooling c.outbox else .draining c.outbox [] }
  | .store now outcomes => c.store now outcomes
  | .connect newId outcomes hello now io => c.connect newId outcomes hello now io
  | .welcome w outcomes =>
    match c.phase with
    | .hello rotated => c.resume rotated w outcomes
    | _ => c
  | .next snapshot epoch now io => c.next snapshot epoch now io
  | .own f now io => c.sendOwn now io f
  | .markDone nowMs => c.markDone nowMs
  | .flush result => { c with host := (c.host.given [result]).flushMeta.2 }
  | .inbound e answer acking storing now io => c.handleInbound e answer acking storing now io
  | .finish => { c with phase := .offline, bulk := [] }

def step (e : ClientEvent) : Client := if c.enabled e then c.apply e else c

end Network

section Frames

@[simp] theorem persistRx_wire (flush : WriteResult) : (c.persistRx flush).wire = c.wire := by
  rw [persistRx]
  split_ifs
  · rfl
  · rfl

@[simp] theorem persistRx_past (flush : WriteResult) : (c.persistRx flush).past = c.past := by
  rw [persistRx]
  split_ifs
  · rfl
  · rfl

@[simp] theorem persistRx_spooled (flush : WriteResult) :
    (c.persistRx flush).spooled = c.spooled := by
  rw [persistRx]
  split_ifs
  · rfl
  · rfl

@[simp] theorem persistRx_phase (flush : WriteResult) : (c.persistRx flush).phase = c.phase := by
  rw [persistRx]
  split_ifs
  · rfl
  · rfl

@[simp] theorem persistRx_lastSentSeq (flush : WriteResult) :
    (c.persistRx flush).session.lastSentSeq = c.session.lastSentSeq := by
  rw [persistRx]
  split_ifs
  · rfl
  · rfl

theorem persistRx_spool (flush : WriteResult) :
    ∃ rxSeq, (c.persistRx flush).host.spool = { c.host.spool with rxSeq } := by
  rw [persistRx]
  split_ifs
  · refine ⟨c.rx.processed, ?_⟩
    dsimp only
    rw [Host.flushMeta_spool, Host.given, Host.setRxSeq_spool]
  · exact ⟨c.host.spool.rxSeq, rfl⟩

theorem ackUpTo_spool (seq : ℤ) (outcomes : List WriteResult) :
    (c.ackUpTo seq outcomes).host.spool = c.host.spool.ackUpTo seq := by
  rw [Client.ackUpTo, Host.ackUpTo_spool]
  rfl

theorem append_spool (m : Message) (outcomes : List WriteResult) :
    (c.append m outcomes).host.spool = (c.host.spool.append m).spool := by
  rw [append, Host.append_spool]
  rfl

end Frames

section Cases

/-- What concerns the spool and the wire is the same; more may be processed. -/
structure Same (c c' : Client) : Prop where
  host : c'.host = c.host
  lastSentSeq : c'.session.lastSentSeq = c.session.lastSentSeq
  persistedRx : c'.session.persistedRx = c.session.persistedRx
  wire : c'.wire = c.wire
  past : c'.past = c.past
  spooled : c'.spooled = c.spooled
  processed : c.rx.processed ≤ c'.rx.processed

theorem Same.refl (c : Client) : Same c c := ⟨rfl, rfl, rfl, rfl, rfl, rfl, le_rfl⟩

theorem Same.queues (c : Client) (outbox : List Out) (bulk : List Bulk) (processed : List ℤ)
    (holdOut : Bool) (phase : Phase) : Same c { c with outbox, bulk, processed, holdOut, phase } :=
  ⟨rfl, rfl, rfl, rfl, rfl, rfl, le_rfl⟩

theorem Same.tracker (c : Client) {t : RxTracker} (h : c.rx.processed ≤ t.processed) : Same
    c { c with rx := t } :=
  ⟨rfl, rfl, rfl, rfl, rfl, rfl, h⟩

inductive Sends (c : Client) (now : Now) (io : Io) : Client → Prop
  | none : Sends c now io c
  | ephemeral (f : Frame) : f.seq = 0 → Sends c now io (c.sendEnv f now io).2
  | record (r : SpoolRecord) : c.phase.stage = .online → c.unsent = some r →
      Sends c now io (c.sendRecord r now io)

/-- The message that `DrainOutbox` handles next. -/
def queued : Option Out :=
  match c.phase with
  | .spooling q | .draining q _ => q.head?
  | _ => none

theorem same_game (call : GameCall) : Same c (c.game call) ∧ (c.game call).phase = c.phase := by
  cases call with
  | send type payloadJson epoch reliable ref =>
    rw [game]
    split
    · exact ⟨.queues c _ _ _ _ _, rfl⟩
    · exact ⟨.refl c, rfl⟩
  | sendSnapshot payload epoch =>
    rw [game]
    split_ifs
    · exact ⟨.refl c, rfl⟩
    · exact ⟨.queues c _ _ _ _ _, rfl⟩
  | sendBulk type payloadJson epoch =>
    rw [game]
    split_ifs
    iterate 4 exact ⟨.refl c, rfl⟩
    exact ⟨.queues c _ _ _ _ _, rfl⟩
  | markProcessed seq => exact ⟨.queues c _ _ _ _ _, rfl⟩
  | holdOutbound hold => exact ⟨.queues c _ _ _ _ _, rfl⟩

/-- A message that is drained goes to the spool if it is reliable. -/
theorem store_cases (now : Now) (outcomes : List WriteResult) :
    ∃ c₁, Same c c₁ ∧ c₁.rx = c.rx ∧ c₁.phase.stage = c.phase.stage ∧
      (c.store now outcomes = c₁ ∨
        ∃ o, c.queued = some o ∧ o.reliable = true ∧
          c.store now outcomes = c₁.append (message o now) outcomes) := by
  rw [store, queued]
  cases hphase : c.phase with
  | spooling q =>
    cases q with
    | nil => exact ⟨c, .refl c, rfl, by rw [hphase], Or.inl rfl⟩
    | cons o q =>
      refine ⟨{ c with phase := .spooling q }, .queues c _ _ _ _ _, rfl, rfl, ?_⟩
      dsimp only
      split_ifs with hreliable
      · exact Or.inr ⟨o, rfl, hreliable, rfl⟩
      · exact Or.inl rfl
  | draining q eph =>
    cases q with
    | nil => exact ⟨c, .refl c, rfl, by rw [hphase], Or.inl rfl⟩
    | cons o q =>
      dsimp only
      split_ifs with hreliable
      · exact ⟨{ c with phase := .draining q eph },
          .queues c _ _ _ _ _, rfl, rfl, Or.inr ⟨o, rfl, hreliable, rfl⟩⟩
      · exact ⟨{ c with phase := .draining q (eph ++
          [{ o with afterSeq := c.host.spool.lastSeq }]) },
          .queues c _ _ _ _ _, rfl, rfl, Or.inl rfl⟩
  | _ => exact ⟨c, .refl c, rfl, by rw [hphase], Or.inl rfl⟩

theorem next_cases (snapshot : Bytes) (epoch : ℤ) (now : Now) (io : Io) :
    ∃ c₁, Same c c₁ ∧ c₁.rx = c.rx ∧ c₁.phase.stage = c.phase.stage ∧
      Sends c₁ now io (c.next snapshot epoch now io) := by
  rw [next]
  cases hphase : c.phase with
  | replay reset first =>
    dsimp only
    cases hunsent : c.unsent with
    | some r =>
      exact ⟨{ c with phase := .replay reset false }, .queues c _ _ _ _ _, rfl, rfl,
        .record r rfl hunsent⟩
    | none =>
      dsimp only
      split_ifs
      · exact ⟨c, .refl c, rfl, by rw [hphase], .none⟩
      · exact ⟨{ c with phase := .steady }, .queues c _ _ _ _ _, rfl, rfl, .ephemeral _ rfl⟩
      · exact ⟨{ c with phase := .steady }, .queues c _ _ _ _ _, rfl, rfl, .none⟩
  | spooling q =>
    cases q with
    | nil => exact ⟨{ c with phase := .offline }, .queues c _ _ _ _ _, rfl, rfl, .none⟩
    | cons o q => exact ⟨c, .refl c, rfl, by rw [hphase], .none⟩
  | draining q eph =>
    cases q with
    | nil => exact ⟨{ c with phase := .sending eph }, .queues c _ _ _ _ _, rfl, rfl, .none⟩
    | cons o q => exact ⟨c, .refl c, rfl, by rw [hphase], .none⟩
  | sending eph =>
    have honline : c.phase.stage = .online := by rw [hphase]; rfl
    dsimp only
    split_ifs
    · exact ⟨{ c with phase := .steady }, .queues c _ _ _ _ _, rfl, rfl, .none⟩
    · cases hunsent : c.unsent with
      | some r =>
        have hrecord : Sends c now io (c.sendRecord r now io) := .record r honline hunsent
        cases eph with
        | nil =>
          exact ⟨c, .refl c, rfl, honline, hrecord⟩
        | cons o eph =>
          dsimp only
          split_ifs
          · exact ⟨{ c with phase := .sending eph }, .queues c _ _ _ _ _, rfl, rfl,
              .ephemeral _ rfl⟩
          · exact ⟨c, .refl c, rfl, honline, hrecord⟩
      | none =>
        cases eph with
        | nil => exact ⟨{ c with phase := .steady }, .queues c _ _ _ _ _, rfl, rfl, .none⟩
        | cons o eph =>
          exact ⟨{ c with phase := .sending eph }, .queues c _ _ _ _ _, rfl, rfl,
            .ephemeral _ rfl⟩
  | _ => exact ⟨c, .refl c, rfl, by rw [hphase], .none⟩

theorem sendOwn_cases (f : OwnFrame) (now : Now) (io : Io) :
    ∃ c₁, Same c c₁ ∧ c₁.rx = c.rx ∧ c₁.phase = c.phase ∧ Sends c₁ now io (c.sendOwn now io f) := by
  cases f with
  | pong ref payload => exact ⟨c, .refl c, rfl, rfl, .ephemeral _ rfl⟩
  | ack =>
    exact ⟨{ c with session := { c.session with ackNow := false } },
      ⟨rfl, rfl, rfl, rfl, rfl, rfl, le_rfl⟩, rfl, rfl, .ephemeral _ rfl⟩
  | ping payload => exact ⟨c, .refl c, rfl, rfl, .ephemeral _ rfl⟩
  | bulk =>
    rw [sendOwn]
    cases c.bulk with
    | nil => exact ⟨c, .refl c, rfl, rfl, .none⟩
    | cons b bulk => exact ⟨{ c with bulk }, .queues c _ _ _ _ _, rfl, rfl, .ephemeral _ rfl⟩

/-- What is left of an inbound frame: a frame at most, or the answer to `auth.rotate`. -/
theorem dispatch_cases (e : Inbound) (answer : Answer) (storing : List WriteResult)
    (now : Now) (io : Io) : ∃ c₁, Same c c₁ ∧ c₁.phase = c.phase ∧
      c₁.rx.processed ≤ ((c.rx.onReliable e.seq e.id).1.markDone e.seq now.ms).1.processed ∧
      (Sends c₁ now io (c.dispatch e answer storing now io) ∨
        (e.type = ascii "auth.rotate" ∧ answer.tokenSaved = true ∧
          c.dispatch e answer storing now io = c₁.append (authRotated e now) storing)) := by
  have hreceived := c.rx.onReliable_processed e.seq e.id
  have hdone := (c.rx.onReliable e.seq e.id).1.le_markDone e.seq now.ms
  have hle := hreceived ▸ hdone
  rw [dispatch]
  split_ifs
  · exact ⟨c, .refl c, rfl, hle, Or.inl (.ephemeral _ rfl)⟩
  · exact ⟨c, .refl c, rfl, hle, Or.inl .none⟩
  · have heph := c.rx.onEphemeralId_processed e.id
    refine ⟨{ c with rx := (c.rx.onEphemeralId e.id).1 }, .tracker c heph.ge, rfl,
      heph.trans_le hle, Or.inl ?_⟩
    rw [handleEphemeral]
    dsimp only
    split_ifs
    · exact .ephemeral _ rfl
    · exact .none
  · rw [handleReliable]
    dsimp only
    cases (c.rx.onReliable e.seq e.id).2 with
    | duplicate =>
      exact ⟨{ c with
          rx := (c.rx.onReliable e.seq e.id).1
          session := { c.session with ackNow := true } },
        ⟨rfl, rfl, rfl, rfl, rfl, rfl, hreceived.ge⟩, rfl, hdone, Or.inl .none⟩
    | outOfOrder =>
      exact ⟨{ c with rx := (c.rx.onReliable e.seq e.id).1 }, .tracker c hreceived.ge, rfl, hdone,
        Or.inl .none⟩
    | accept =>
      have hsame :
          Same c { c with rx := ((c.rx.onReliable e.seq e.id).1.markDone e.seq now.ms).1 } :=
            .tracker c hle
      dsimp only
      rw [handleAccepted]
      dsimp only
      split_ifs with htype hsaved
      · exact ⟨_, hsame, rfl, le_rfl, Or.inr ⟨htype, hsaved, rfl⟩⟩
      · exact ⟨_, hsame, rfl, le_rfl, Or.inl .none⟩
      · exact ⟨{ c with rx := (c.rx.onReliable e.seq e.id).1 }, .tracker c hreceived.ge, rfl, hdone,
          Or.inl .none⟩
      · exact ⟨_, hsame, rfl, le_rfl, Or.inl (.ephemeral _ rfl)⟩

end Cases

end Client

end ReadyUp.Fleet
