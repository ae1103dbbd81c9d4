import ReadyUp.Fleet.DemoCopy
import ReadyUp.Fleet.JsonPlain
import ReadyUp.Fleet.SpoolLog
import ReadyUp.Support.Files
import ReadyUp.Support.HexText

/-!
# The state file of the demo streams

`save` writes the streams as one JSON object in a line, `load` makes streams of what a file holds.
An entry is skipped that has no id or no proper file name, and its chunk size is clamped; no stream
of the uploader is such an entry (`listed_of_reachable`), so a list of streams comes back as it was
saved, apart from what `Stream.resumed` starts anew. A file of more than 64 MiB is not read, though
`save` writes it (`streams_survive_reload`).
-/
namespace ReadyUp.Fleet.Demo

open Support JsonScan JsonText Files

section Save

def hex64 (v : UInt64) : Bytes := hexText 16 v.toNat

def phaseName : Phase → Bytes
  | .announce => ascii "announce"
  | .stream => ascii "stream"
  | .done => ascii "stored"
  | .refused => ascii "refused"
  | .failed => ascii "failed"

/-- What `Save` writes of a stream. -/
def Stream.fields (s : Stream) : List (Bytes × Value) :=
  [(ascii "demo_id", .str s.id), (ascii "match_id", .str s.spec.matchId),
    (ascii "epoch", .int s.spec.epoch), (ascii "map_number", .int s.spec.mapNumber),
    (ascii "path", .str s.spec.path), (ascii "started_at", .int s.spec.startedAtMs),
    (ascii "chunk", .int s.chunk), (ascii "phase", .str (phaseName s.phase)),
    (ascii "recording", .bool s.recording), (ascii "sent", .int s.sent),
    (ascii "acked", .int s.acked), (ascii "fps", .str (s.fps.flatMap hex64)),
    (ascii "rewrites", .arr (s.rewrites.map .int)), (ascii "final_size", .int s.finalSize),
    (ascii "sha256", .str s.sha256), (ascii "restart", .bool s.restart),
    (ascii "checksum_failures", .int s.checksumFailures), (ascii "done_at", .int s.doneAtMs),
    (ascii "error", .str s.error)]

def stateValue (streams : List Stream) : Value :=
  .obj [(ascii "v", .int 1), (ascii "streams", .arr (streams.map fun s => .obj s.fields))]

def stateText (streams : List Stream) : Bytes := dump (stateValue streams) ++ [10]

/-- `WriteFileAtomic`, which does not ask whether the file has reached the disk. -/
def writeFileAtomic (disk : Files.Disk) (path data : Bytes) (pid : ℕ) (calls : Calls) :
    Bool × Files.Disk :=
  writeBehind disk path (path ++ ascii ".tmp." ++ decimal pid) data { calls with synced := true }

/-- `Save`, and whether the file was written. -/
def save (disk : Files.Disk) (statePath : Bytes) (streams : List Stream) (pid : ℕ) (calls : Calls) :
    Bool × Files.Disk :=
  if statePath = [] then (false, disk)
  else writeFileAtomic disk statePath (stateText streams) pid calls

end Save

section Load

def phaseFromName (n : Bytes) : Phase :=
  if n = ascii "stream" then .stream
  else if n = ascii "stored" then .done
  else if n = ascii "refused" then .refused
  else if n = ascii "failed" then .failed
  else .announce

def maxState : ℕ := 64 * 2 ^ 20

def readFile (limit : ℕ) (content : Bytes) : Option Bytes := readUpTo 65536 limit content

def strOf (o : Value) (k : String) : Bytes := (o.get (ascii k)).elim [] Value.asStr

def numOf (o : Value) (k : String) (d : ℤ) : ℤ := (o.get (ascii k)).elim d (asInt d)

def boolOf (o : Value) (k : String) : Bool := (o.get (ascii k)).elim false Value.asBool

/-- The fingerprints, of 16 digits each; digits that are left over are dropped. -/
def readFps (fps : Bytes) : List UInt64 :=
  if _h : 16 ≤ fps.length then (strtoullHex (fps.take 16)).toUInt64 :: readFps (fps.drop 16) else []
termination_by fps.length
decreasing_by
  rw [List.length_drop]
  omega

def readRewrites : Option Value → List ℤ
  | some (.arr a) => a.map (asInt 0)
  | _ => []

/-- What `Load` makes of an entry. A count that is negative, which `Save` does not write, is taken
for zero. -/
def Stream.ofValue (nowMs : ℤ) (o : Value) : Option Stream :=
  let spec : Spec := {
    matchId := strOf o "match_id"
    epoch := numOf o "epoch" 0
    mapNumber := Int.bmod (numOf o "map_number" 1) (2 ^ 32)
    path := strOf o "path"
    startedAtMs := numOf o "started_at" 0 }
  if o.isObj = false ∨ strOf o "demo_id" = [] ∨ isDemoFileName (basename spec.path) = false then
    none
  else
    let phase := phaseFromName (strOf o "phase")
    some {
      id := strOf o "demo_id"
      spec
      file := basename spec.path
      chunk := (max (4 * 1024) (min (512 * 1024) (numOf o "chunk" (128 * 1024)))).toNat
      phase := if phase = .stream then .announce else phase
      recording := boolOf o "recording"
      stoppedAtMs := nowMs
      sizeSinceMs := nowMs
      sent := numOf o "sent" 0
      acked := numOf o "acked" 0
      fps := readFps (strOf o "fps")
      rewrites := readRewrites (o.get (ascii "rewrites"))
      finalSize := numOf o "final_size" (-1)
      sha256 := strOf o "sha256"
      restart := boolOf o "restart"
      checksumFailures := (Int.bmod (numOf o "checksum_failures" 0) (2 ^ 32)).toNat
      doneAtMs := numOf o "done_at" 0
      error := strOf o "error" }

/-- The entries in the text of a state file. -/
def readState (text : Bytes) : Option (List Value) :=
  (parse text 64).bind fun root =>
    match root.get (ascii "streams") with
    | some (.arr a) => some a
    | _ => none

/-- `Load`: whether there is a stream, and the streams, which stay what they were when there is no
proper file. -/
def load (disk : Files.Disk) (statePath : Bytes) (nowMs : ℤ) (streams : List Stream) :
    Bool × List Stream :=
  match if statePath = [] then
    none else ((disk.lookup statePath).bind (readFile maxState)).bind readState with
  | none => (false, streams)
  | some entries =>
    let loaded := entries.filterMap (Stream.ofValue nowMs)
    (!loaded.isEmpty, loaded)

end Load

section RoundTrip

theorem readFps_flatMap (fps : List UInt64) : readFps (fps.flatMap hex64) = fps := by
  induction fps with
  | nil => rw [List.flatMap_nil, readFps, dif_neg (by decide)]
  | cons f fps ih =>
    have hlen : (hex64 f).length = 16 := length_hexText 16 _
    rw [List.flatMap_cons, readFps, dif_pos (by rw [List.length_append]; omega),
      List.take_left' hlen, List.drop_left' hlen, ih, hex64, strtoullHex_hexText f.toNat_lt]
    simp

theorem phaseFromName_phaseName (p : Phase) : phaseFromName (phaseName p) = p := by
  cases p <;> rfl

/-- The numbers of a stream are those of an `int64_t`, or an `int`, in the program. -/
structure Stream.Typed (s : Stream) : Prop where
  epoch : InInt64 s.spec.epoch
  mapNumber : InInt32 s.spec.mapNumber
  startedAtMs : InInt64 s.spec.startedAtMs
  sent : InInt64 s.sent
  acked : InInt64 s.acked
  rewrites : ∀ r ∈ s.rewrites, InInt64 r
  finalSize : InInt64 s.finalSize
  checksumFailures : InInt32 s.checksumFailures
  doneAtMs : InInt64 s.doneAtMs

deriving instance DecidableEq for Spec, Stream

instance (s : Stream) : Decidable s.Typed :=
  decidable_of_iff
    (InInt64 s.spec.epoch ∧ InInt32 s.spec.mapNumber ∧ InInt64 s.spec.startedAtMs ∧ InInt64 s.sent ∧
      InInt64 s.acked ∧ (∀ r ∈ s.rewrites, InInt64 r) ∧ InInt64 s.finalSize ∧
      InInt32 s.checksumFailures ∧ InInt64 s.doneAtMs)
    ⟨fun ⟨h₁, h₂, h₃, h₄, h₅, h₆, h₇, h₈, h₉⟩ => ⟨h₁, h₂, h₃, h₄, h₅, h₆, h₇, h₈, h₉⟩,
      fun ⟨h₁, h₂, h₃, h₄, h₅, h₆, h₇, h₈, h₉⟩ => ⟨h₁, h₂, h₃, h₄, h₅, h₆, h₇, h₈, h₉⟩⟩

/-- What is always true of a stream in the list. -/
structure Stream.Listed (s : Stream) : Prop where
  id : s.id ≠ []
  file : s.file = basename s.spec.path
  name : isDemoFileName (basename s.spec.path) = true
  chunkLow : 4 * 1024 ≤ s.chunk
  chunkHigh : s.chunk ≤ 512 * 1024

/-- A stream after a reload: it asks where to resume, and knows nothing of its file and its session
any more. -/
def Stream.resumed (nowMs : ℤ) (s : Stream) : Stream :=
  { s with
    phase := if s.phase = .stream then .announce else s.phase
    stoppedAtMs := nowMs
    lastSize := -1
    sizeSinceMs := nowMs
    inode := 0
    session := 0
    announcedMs := 0
    announceTries := 0
    lastAckMs := 0
    endSentMs := 0 }

theorem bmod_of_inInt32 {i : ℤ} (h : InInt32 i) : Int.bmod i (2 ^ 32) = i :=
  Int.bmod_eq_of_le (by have := h.1; push_cast; omega) (by have := h.2; push_cast; omega)

theorem ofValue_fields {s : Stream} (hs : s.Listed) (ht : s.Typed) (nowMs : ℤ) :
    Stream.ofValue nowMs (.obj s.fields) = some (s.resumed nowMs) := by
  have hphase : phaseFromName (strOf (.obj s.fields) "phase") = s.phase :=
    phaseFromName_phaseName s.phase
  have hfps : readFps (strOf (.obj s.fields) "fps") = s.fps := readFps_flatMap s.fps
  have hmap : Int.bmod (numOf (.obj s.fields) "map_number" 1) (2 ^ 32) = s.spec.mapNumber :=
    bmod_of_inInt32 ht.mapNumber
  have hfailures : (Int.bmod (numOf (.obj s.fields) "checksum_failures" 0) (2 ^ 32)).toNat =
      s.checksumFailures :=
    (congrArg Int.toNat (bmod_of_inInt32 ht.checksumFailures)).trans (Int.toNat_natCast _)
  have hchunk :
      (max (4 * 1024) (min (512 * 1024) (numOf (.obj s.fields) "chunk" (128 * 1024)))).toNat =
        s.chunk := by
    have hnum : numOf (.obj s.fields) "chunk" (128 * 1024) = s.chunk := rfl
    have hlow := hs.chunkLow
    have hhigh := hs.chunkHigh
    rw [hnum]
    omega
  have hrewrites : readRewrites ((Value.obj s.fields).get (ascii "rewrites")) = s.rewrites := by
    show (s.rewrites.map Value.int).map (asInt 0) = s.rewrites
    rw [List.map_map]
    exact List.map_id _
  have hfile : basename (strOf (.obj s.fields) "path") = s.file := hs.file.symm
  unfold Stream.ofValue
  simp only [hphase, hfps, hmap, hfailures, hchunk, hrewrites]
  rw [if_neg]
  · rw [hfile]
    rfl
  · rintro (hobj | hid | hname)
    · cases hobj
    · exact hs.id hid
    · exact Bool.false_ne_true (hname.symm.trans hs.name)

theorem plain_fields {s : Stream} (hs : s.Listed) (h : s.Typed) : (Value.obj s.fields).Plain := by
  have hchunk : InInt64 s.chunk := by
    have hhigh := hs.chunkHigh
    unfold InInt64
    omega
  have hmap : InInt64 s.spec.mapNumber := h.mapNumber.inInt64
  have hfailures : InInt64 s.checksumFailures := h.checksumFailures.inInt64
  have hrewrites : (Value.arr (s.rewrites.map .int)).Plain :=
    Value.plain_arr (List.forall_mem_map.mpr fun r hr => Value.plain_int_iff.mpr (h.rewrites r hr))
  refine Value.plain_obj ?_ ?_
  · simp only [Stream.fields, keys, List.map_cons, List.map_nil]
    decide
  · simp [Stream.fields, h.epoch, hmap, h.startedAtMs, hchunk, h.sent, h.acked, hrewrites,
      h.finalSize, hfailures, h.doneAtMs]

theorem plain_stateValue {streams : List Stream} (hs : ∀ s ∈ streams, s.Listed)
    (h : ∀ s ∈ streams, s.Typed) : (stateValue streams).Plain := by
  have harr : (Value.arr (streams.map fun s => .obj s.fields)).Plain :=
    Value.plain_arr (List.forall_mem_map.mpr fun s hmem => plain_fields (hs s hmem) (h s hmem))
  have hversion : InInt64 1 := by decide
  refine Value.plain_obj ?_ ?_
  · simp only [keys, List.map_cons, List.map_nil]
    decide
  · simp [harr, hversion]

theorem depth_fields (s : Stream) : (Value.obj s.fields).depth ≤ 2 := by
  have hrewrites : (Value.arr (s.rewrites.map .int)).depth ≤ 1 :=
    Value.depthItems_le.mpr (List.forall_mem_map.mpr fun r _ => le_rfl)
  simp [Stream.fields, Value.depth, Value.depthMembers] at hrewrites ⊢
  omega

theorem depth_stateValue (streams : List Stream) : (stateValue streams).depth ≤ 64 := by
  have harr : (Value.arr (streams.map fun s => .obj s.fields)).depth ≤ 3 :=
    Value.depthItems_le.mpr (List.forall_mem_map.mpr fun s _ => Nat.succ_le_succ (depth_fields s))
  simp only [stateValue, Value.depth, Value.depthMembers] at harr ⊢
  omega

theorem readState_stateText {streams : List Stream} (hs : ∀ s ∈ streams, s.Listed)
    (ht : ∀ s ∈ streams, s.Typed) :
    readState (stateText streams) = some (streams.map fun s => .obj s.fields) := by
  rw [readState, stateText, parse_line_plain (plain_stateValue hs ht) (depth_stateValue streams),
    Option.bind_some]
  rfl

theorem filterMap_ofValue {streams : List Stream} (hs : ∀ s ∈ streams, s.Listed)
    (ht : ∀ s ∈ streams, s.Typed) (nowMs : ℤ) :
    (streams.map fun s => Value.obj s.fields).filterMap (Stream.ofValue nowMs) =
      streams.map (Stream.resumed nowMs) := by
  rw [List.filterMap_map, ← List.filterMap_eq_map]
  exact List.filterMap_congr fun s hmem => ofValue_fields (hs s hmem) (ht s hmem) nowMs

theorem load_stateText {streams : List Stream} (hs : ∀ s ∈ streams, s.Listed)
    (ht : ∀ s ∈ streams, s.Typed)
    {disk : Files.Disk} {statePath : Bytes} (hpath : statePath ≠ [])
    (hfile : disk.lookup statePath = some (stateText streams)) (nowMs : ℤ) (old : List Stream) :
    load disk statePath nowMs old =
      if (stateText streams).length ≤ maxState then
        (!streams.isEmpty, streams.map (Stream.resumed nowMs))
      else (false, old) := by
  unfold load
  rw [if_neg hpath, hfile, Option.bind_some, readFile, readUpTo_eq (by decide)]
  by_cases hlen : (stateText streams).length ≤ maxState
  · simp only [if_pos hlen, Option.bind_some, readState_stateText hs ht, filterMap_ofValue hs ht,
      List.isEmpty_map]
  · simp only [if_neg hlen, Option.bind_none]

theorem lookup_save (disk : Files.Disk) {statePath : Bytes} (hpath : statePath ≠ [])
    (streams : List Stream) (pid : ℕ) (calls : Calls) :
    (save disk statePath streams pid calls).2.lookup statePath =
      if (save disk statePath streams pid calls).1 then some (stateText streams)
      else disk.lookup statePath := by
  have htmp : statePath ≠ statePath ++ ascii ".tmp." ++ decimal pid := by
    intro h
    have hlen := congrArg List.length h
    simp only [List.length_append] at hlen
    have hdot : (ascii ".tmp.").length = 5 := by decide
    omega
  rw [save, if_neg hpath]
  exact lookup_writeBehind disk htmp (stateText streams) _

theorem save_calm (disk : Files.Disk) {statePath : Bytes} (hpath : statePath ≠ [])
    (streams : List Stream) (pid : ℕ) :
    (save disk statePath streams pid (.calm (stateText streams))).1 = true := by
  rw [save, if_neg hpath]
  exact writeBehind_calm disk statePath _ _

end RoundTrip

section Recording

variable (cfg : Config) (sha256 : Bytes → Bytes)

def Stream.demo (s : Stream) : Bytes × Spec × Bytes × ℕ := (s.id, s.spec, s.file, s.chunk)

theorem demo_onError (nowMs offset : ℤ) (code : Bytes) (s : Stream) :
    (s.onError cfg nowMs offset code).1.demo = s.demo := by
  unfold Stream.onError
  dsimp only
  split_ifs <;> rfl

theorem demo_onOffset (session : ℕ) (nowMs offset : ℤ) (s : Stream) :
    (s.onOffset session nowMs offset).demo = s.demo := by
  unfold Stream.onOffset
  dsimp only
  split_ifs <;> rfl

theorem demo_onComplete (nowMs offset : ℤ) (complete : Bool) (s : Stream) :
    (s.onComplete nowMs offset complete).demo = s.demo := by
  unfold Stream.onComplete
  split_ifs <;> rfl

theorem demo_onAck (session : ℕ) (nowMs : ℤ) (a : Ack) (s : Stream) :
    (s.onAck cfg session nowMs a).1.demo = s.demo := by
  unfold Stream.onAck
  by_cases hover : s.isOver = true
  · rw [if_pos hover]
  · rw [if_neg hover]
    cases a.error with
    | some code => exact demo_onError cfg nowMs a.offset code s
    | none =>
      dsimp only
      split_ifs
      · rfl
      · exact (demo_onComplete nowMs a.offset a.complete _).trans
          (demo_onOffset session nowMs a.offset s)

theorem demo_sendChunk (content : Option Bytes) (offset len : ℤ) (g : Sending) :
    (g.sendChunk content offset len).2.stream.demo = g.stream.demo := by
  obtain ⟨-, hstream, -⟩ | ⟨data, -, -, hstream, -⟩ := sendChunk_cases content offset len g
  · rw [hstream]
  · rw [hstream, Stream.noteChunk]
    split_ifs <;> rfl

theorem demo_forward (content : Option Bytes) (nowMs limit : ℤ) (budget : ℕ) (g : Sending) :
    (g.forward cfg content nowMs limit budget).2.stream.demo = g.stream.demo := by
  induction budget generalizing g with
  | zero => rfl
  | succ budget ih =>
    unfold Sending.forward
    dsimp only
    split_ifs
    · rfl
    · rfl
    · rw [ih]
      exact demo_sendChunk content _ _ _
    · exact demo_sendChunk content _ _ _
    · rw [ih]
      exact demo_sendChunk content _ _ _
    · exact demo_sendChunk content _ _ _
    · rfl

theorem demo_resend (content : Option Bytes) (budget : ℕ) (g : Sending) :
    (g.resend content budget).stream.demo = g.stream.demo := by
  induction budget generalizing g with
  | zero => rfl
  | succ budget ih =>
    unfold Sending.resend
    split
    · rfl
    · dsimp only
      split_ifs
      · rw [ih]
        exact demo_sendChunk content _ _ _
      · exact demo_sendChunk content _ _ _

theorem demo_sendEnd (nowMs : ℤ) (g : Sending) :
    (g.sendEnd cfg nowMs).stream.demo = g.stream.demo := by
  obtain ⟨hstream, -⟩ := sendBulk_cases (.demoEnd g.stream.id g.stream.finalSize g.stream.sha256) g
  unfold Sending.sendEnd
  dsimp only
  split_ifs
  · rw [hstream]
    rfl
  · rw [hstream]
  · rfl

theorem demo_sendAll (content : Option Bytes) (nowMs size : ℤ) (g : Sending) :
    (g.sendAll cfg content nowMs size).stream.demo = g.stream.demo := by
  unfold Sending.sendAll
  dsimp only
  split_ifs
  all_goals simp only [demo_sendEnd, demo_resend, demo_forward]

theorem demo_sendData (nowMs size : ℤ) (w : World) (s : Stream) :
    (s.sendData cfg sha256 nowMs size w).1.demo = s.demo := by
  unfold Stream.sendData
  split_ifs
  · cases w.content with
    | none => rfl
    | some content => exact demo_sendAll cfg _ nowMs size _
  · exact demo_sendAll cfg _ nowMs size _

theorem demo_talk (nowMs size : ℤ) (w : World) (s : Stream) :
    (s.talk cfg sha256 nowMs size w).1.demo = s.demo := by
  have hreannounce : (s.reannounce cfg nowMs w.session).demo = s.demo := by
    unfold Stream.reannounce
    dsimp only
    split_ifs <;> rfl
  unfold Stream.talk
  dsimp only
  split_ifs
  · rfl
  · refine Eq.trans ?_ hreannounce
    unfold Stream.announce
    split_ifs <;> rfl
  · exact (demo_sendData cfg sha256 nowMs size w _).trans hreannounce

theorem demo_workOn (nowMs size : ℤ) (ino : ℕ) (w : World) (s : Stream) :
    (s.workOn cfg sha256 nowMs size ino w).1.demo = s.demo := by
  have hsaw : (s.sawFile nowMs size ino).1.demo = s.demo := by
    unfold Stream.sawFile
    dsimp only
    split_ifs <;> rfl
  unfold Stream.workOn
  dsimp only
  split_ifs
  · exact hsaw
  · refine (demo_talk cfg sha256 nowMs size w _).trans (Eq.trans ?_ hsaw)
    unfold Stream.checkStale
    split_ifs <;> rfl

theorem demo_work (nowMs : ℤ) (w : World) (s : Stream) :
    (s.work cfg sha256 nowMs w).1.demo = s.demo := by
  unfold Stream.work
  split_ifs
  · unfold Stream.cleanUp
    split_ifs <;> rfl
  · rfl
  · cases w.stat with
    | none =>
      dsimp only
      unfold Stream.missing
      split_ifs <;> rfl
    | some stat => exact demo_workOn cfg sha256 nowMs stat.1 stat.2 w s

theorem Stream.Listed.congr {s s' : Stream} (h : s.Listed)
    (hdemo : s'.demo = s.demo) : s'.Listed := by
  simp only [Stream.demo, Prod.mk.injEq] at hdemo
  obtain ⟨hid, hspec, hfile, hchunk⟩ := hdemo
  constructor
  · rw [hid]
    exact h.id
  · rw [hfile, hspec]
    exact h.file
  · rw [hspec]
    exact h.name
  · rw [hchunk]
    exact h.chunkLow
  · rw [hchunk]
    exact h.chunkHigh

end Recording

namespace Streams

variable {sha256 : Bytes → Bytes}

/-- An uploader that has just started, with what it makes of the state file, whatever that holds. -/
def started (cfg : Config) (disk : Files.Disk) (statePath : Bytes) (nowMs : ℤ) : Streams where
  cfg := cfg.clamped
  streams := (load disk statePath nowMs []).2.map fun s => { stream := s }

def Event.Named : Event → Prop
  | .begin _ id _ => id ≠ []
  | _ => True

inductive Reachable (sha256 : Bytes → Bytes) : Streams → Prop
  | started (cfg : Config) (disk : Files.Disk) (statePath : Bytes) (nowMs : ℤ) :
    Reachable sha256 (started cfg disk statePath nowMs)
  | step {s : Streams} (h : Reachable sha256 s) (e : Event) (he : e.Named) : Reachable sha256
      (s.step sha256 e)

theorem Reachable.run {s : Streams} (h : s.Reachable sha256) {events : List Event}
    (hevents : ∀ e ∈ events, e.Named) : (s.run sha256 events).Reachable sha256 := by
  induction events generalizing s with
  | nil => exact h
  | cons e events ih =>
    rw [List.forall_mem_cons] at hevents
    exact ih (h.step e hevents.1) hevents.2

/-- All that streams or waits to stream belongs into the list. -/
structure AllListed (s : Streams) : Prop where
  streams : ∀ t ∈ s.streams, t.stream.Listed
  queue : ∀ b, .begin b ∈ s.queue → b.Listed
  chunkLow : 4 * 1024 ≤ s.cfg.chunkBytes
  chunkHigh : s.cfg.chunkBytes ≤ 512 * 1024

theorem listed_ofValue {nowMs : ℤ} {o : Value} {s : Stream}
    (h : Stream.ofValue nowMs o = some s) : s.Listed := by
  unfold Stream.ofValue at h
  dsimp only at h
  split at h
  · cases h
  · rename_i hskip
    rw [not_or, not_or, Bool.not_eq_false, Bool.not_eq_false] at hskip
    obtain rfl := Option.some.inj h
    exact ⟨hskip.2.1, rfl, hskip.2.2, by dsimp only; omega, by dsimp only; omega⟩

/-- Whatever a state file holds, what is loaded belongs into the list. -/
theorem listed_load {disk : Files.Disk} {statePath : Bytes} {nowMs : ℤ} {old : List Stream}
    (h : ∀ s ∈ old, s.Listed) : ∀ s ∈ (load disk statePath nowMs old).2, s.Listed := by
  unfold load
  generalize (if statePath = [] then none
    else ((disk.lookup statePath).bind (readFile maxState)).bind readState) = found
  cases found with
  | none => exact h
  | some entries =>
    intro s hs
    obtain ⟨o, -, ho⟩ := List.mem_filterMap.mp hs
    exact listed_ofValue ho

theorem allListed_started (cfg : Config) (disk : Files.Disk) (statePath : Bytes) (nowMs : ℤ) :
    (started cfg disk statePath nowMs).AllListed where
  streams t ht := by
    obtain ⟨s, hs, rfl⟩ := List.mem_map.mp ht
    exact listed_load (List.forall_mem_nil _) s hs
  queue b hb := by cases hb
  chunkLow := le_max_left _ _
  chunkHigh := max_le (by decide) (min_le_left _ _)

theorem listed_deliver {cfg : Config} {ts : List Tracked} (h : ∀ t ∈ ts, t.stream.Listed)
    (session : ℕ) (nowMs : ℤ)
    (a : Ack) : ∀ t ∈ deliver cfg session nowMs a ts, t.stream.Listed := by
  induction ts with
  | nil => exact h
  | cons t ts ih =>
    rw [List.forall_mem_cons] at h
    rw [deliver]
    split_ifs
    · exact List.forall_mem_cons.mpr ⟨h.1.congr (demo_onAck cfg session nowMs a t.stream), h.2⟩
    · exact List.forall_mem_cons.mpr ⟨h.1, ih h.2⟩

theorem listed_apply {cfg : Config} {ts : List Tracked} {c : Cmd} (h : ∀ t ∈ ts, t.stream.Listed)
    (hc : ∀ s, .begin s = c → s.Listed) (session : ℕ) (nowMs : ℤ) :
    ∀ t ∈ apply cfg session nowMs ts c, t.stream.Listed := by
  cases c with
  | begin s =>
    intro t ht
    rcases List.mem_append.mp ht with ht | ht
    · obtain ⟨u, hu, rfl⟩ := List.mem_map.mp ht
      refine (h u hu).congr ?_
      unfold replaced
      split_ifs <;> rfl
    · rw [List.mem_singleton.mp ht]
      exact hc s rfl
  | stop path stopMs =>
    intro t ht
    obtain ⟨u, hu, rfl⟩ := List.mem_map.mp ht
    refine (h u hu).congr ?_
    unfold stopped
    split_ifs <;> rfl
  | ack payload =>
    rw [apply]
    cases readAck payload with
    | none => exact h
    | some a => exact listed_deliver h session nowMs a

theorem listed_applyAll {cfg : Config} {ts : List Tracked} {cs : List Cmd}
    (h : ∀ t ∈ ts, t.stream.Listed)
    (hcs : ∀ s, .begin s ∈ cs → s.Listed) (session : ℕ) (nowMs : ℤ) :
    ∀ t ∈ cs.foldl (apply cfg session nowMs) ts, t.stream.Listed := by
  induction cs generalizing ts with
  | nil => exact h
  | cons c cs ih =>
    refine ih (listed_apply h ?_ session nowMs) fun s hs => hcs s (List.mem_cons_of_mem _ hs)
    rintro s rfl
    exact hcs s List.mem_cons_self

theorem AllListed.enqueue {s : Streams} (h : s.AllListed) {c : Cmd}
    (hc : ∀ b, .begin b = c → b.Listed) : AllListed { s with queue := s.queue ++ [c] } := by
  refine ⟨h.streams, fun b hb => ?_, h.chunkLow, h.chunkHigh⟩
  rcases List.mem_append.mp hb with hb | hb
  · exact h.queue b hb
  · exact hc b (List.mem_singleton.mp hb)

theorem AllListed.step {s : Streams} (h : s.AllListed) {e : Event} (he : e.Named) :
    (s.step sha256 e).AllListed := by
  cases e with
  | begin spec id nowMs =>
    rw [Streams.step, begin]
    dsimp only
    split_ifs with hspec
    · refine h.enqueue fun b hb => ?_
      cases hb
      exact ⟨he, rfl, hspec.2.1, h.chunkLow, h.chunkHigh⟩
    · refine h.enqueue fun b hb => ?_
      cases hb
      exact ⟨he, rfl, hspec.2.1, h.chunkLow, h.chunkHigh⟩
    · exact h
  | stop path nowMs => exact h.enqueue fun b hb => by cases hb
  | onAck payload => exact h.enqueue fun b hb => by cases hb
  | tick session nowMs worlds =>
    refine ⟨fun t ht => ?_, fun b hb => (by cases hb), h.chunkLow, h.chunkHigh⟩
    obtain ⟨i, hi, rfl⟩ := List.mem_mapIdx.mp (List.mem_of_mem_filter ht)
    have happlied := listed_applyAll h.streams h.queue session nowMs _ (List.getElem_mem hi)
    exact happlied.congr (demo_work s.cfg sha256 nowMs (worlds i) _)

theorem listed_of_reachable {s : Streams} (h : s.Reachable sha256) : s.AllListed := by
  induction h with
  | started cfg disk statePath nowMs => exact allListed_started cfg disk statePath nowMs
  | step _ e he ih => exact ih.step he

def toSave (s : Streams) : List Stream := s.streams.map Tracked.stream

/-- What the uploader saved it loads again: the same streams in the same order, each with what was
saved of it. A file of more than 64 MiB is not read. -/
theorem streams_survive_reload {s : Streams} (h : s.Reachable sha256)
    (htyped : ∀ t ∈ s.streams, t.stream.Typed)
    {disk disk' : Files.Disk} {statePath : Bytes} {pid : ℕ} {calls : Calls}
    (hsave : save disk statePath s.toSave pid calls = (true, disk')) (nowMs : ℤ)
    (old : List Stream) : load disk' statePath nowMs old =
      if (stateText s.toSave).length ≤ maxState then
        (!s.toSave.isEmpty, s.toSave.map (Stream.resumed nowMs))
      else (false, old) := by
  have hpath : statePath ≠ [] := by
    rintro rfl
    cases (Prod.mk.inj hsave).1
  have hfile := lookup_save disk hpath s.toSave pid calls
  rw [hsave, if_pos rfl] at hfile
  exact load_stateText (List.forall_mem_map.mpr (listed_of_reachable h).streams)
    (List.forall_mem_map.mpr htyped) hpath
    hfile nowMs old

/-- A tick that finds a file of one chunk of equal bytes. -/
def oneChunk (fill : UInt8) (lane : List Bool) : World where
  stat := some (4096, 7)
  content := some (List.replicate 4096 fill)
  online := true
  session := 1
  send := true
  lane := lane

/-- A chunk is sent and the file rewritten; the final pass finds it, and the lane is full. -/
def rewrittenEvents : List Event :=
  [.begin { matchId := ascii "m", path := ascii "/a.dem" } (ascii "d") 5, .tick 1 7 fun _ =>
    oneChunk 65 [], .onAck (ascii "\x7b\"demo_id\":\"d\",\"offset\":0\x7d"), .tick 1 8 fun _ =>
    oneChunk 65 [true], .stop (ascii "/a.dem") 9, .tick 1 10 fun _ => oneChunk 66 []]

def rewrittenStreams : Streams :=
  (started { settleMs := 0, chunkBytes := 4096 } ∅ [] 0).run (fun _ => []) rewrittenEvents

theorem named_rewrittenEvents : ∀ e ∈ rewrittenEvents, e.Named := by
  refine List.forall_mem_cons.mpr ⟨show ascii "d" ≠ [] by decide, fun e he => ?_⟩
  simp only [List.mem_cons, List.not_mem_nil, or_false] at he
  rcases he with rfl | rfl | rfl | rfl | rfl <;> trivial

/-- What is to be sent again, and the fingerprint of the chunk as it was sent. -/
def rewrittenStream : Stream where
  id := ascii "d"
  spec := { matchId := ascii "m", path := ascii "/a.dem", startedAtMs := 5 }
  file := ascii "a.dem"
  chunk := 4096
  phase := .stream
  recording := false
  stoppedAtMs := 9
  sent := 4096
  fps := [17052785399949677443]
  rewrites := [0]
  lastSize := 4096
  sizeSinceMs := 7
  inode := 7
  finalSize := 4096
  session := 1
  announcedMs := 7
  lastAckMs := 8

theorem rewrittenStreams_toSave : rewrittenStreams.toSave = [rewrittenStream] := by decide +kernel

set_option maxRecDepth 20000 in
theorem streams_survive_reload_rewritten :
    load (save ∅ [47] rewrittenStreams.toSave 1 (.calm (stateText rewrittenStreams.toSave))).2
      [47] 11 [] = (true, [rewrittenStream.resumed 11]) := by
  have hreachable : rewrittenStreams.Reachable fun _ => [] :=
    (Reachable.started _ ∅ [] 0).run named_rewrittenEvents
  have htyped : ∀ t ∈ rewrittenStreams.streams, t.stream.Typed := by decide +kernel
  have hsaved := save_calm ∅ (show [47] ≠ [] by decide) rewrittenStreams.toSave 1
  have hlen : (stateText [rewrittenStream]).length ≤ 1000 := by decide
  generalize hdisk :
    (save ∅ [47] rewrittenStreams.toSave 1 (.calm (stateText rewrittenStreams.toSave))).2 = disk
  have hload := streams_survive_reload hreachable htyped (Prod.ext hsaved hdisk) 11 []
  rw [rewrittenStreams_toSave, if_pos (hlen.trans (by decide))] at hload
  exact hload

section TooLarge

theorem mul_length_le_dumpItems {α : Type} {f : α → Value} {k : ℕ} {l : List α}
    (h : ∀ a ∈ l, k ≤ (dump (f a)).length) : l.length * k ≤ (dumpItems (l.map f)).length := by
  induction l with
  | nil => simp
  | cons a l ih =>
    rw [List.forall_mem_cons] at h
    have htail := ih h.2
    rw [List.map_cons, dumpItems, List.length_append, List.length_cons, Nat.succ_mul]
    have hrest : (dumpItems (l.map f)).length ≤
        (if (l.map f).isEmpty = true then [] else byte ',' :: dumpItems (l.map f)).length := by
      cases l with
      | nil => exact Nat.zero_le _
      | cons b l => simp
    omega

theorem mul_length_le_stateText {k : ℕ} {streams : List Stream}
    (h : ∀ s ∈ streams, k ≤ s.spec.matchId.length) :
    streams.length * k ≤ (stateText streams).length := by
  have hitem : ∀ s ∈ streams, k ≤ (dump (.obj s.fields)).length := by
    intro s hs
    have hmember : (ascii "match_id", Value.str s.spec.matchId) ∈ s.fields :=
      List.mem_cons_of_mem _ List.mem_cons_self
    have hlen := length_dump_le_members hmember
    have hmatch := h s hs
    have hescaped := length_le_escaped s.spec.matchId
    simp only [dump, quoted, List.length_cons, List.length_append] at hlen ⊢
    omega
  have hitems := mul_length_le_dumpItems hitem
  have hmember : (ascii "streams", Value.arr (streams.map fun s => .obj s.fields)) ∈
      [(ascii "v", Value.int 1), (ascii "streams",
        Value.arr (streams.map fun s => .obj s.fields))] :=
    List.mem_cons_of_mem _ List.mem_cons_self
  have hlen := length_dump_le_members hmember
  simp only [stateText, stateValue, dump, List.length_cons, List.length_append] at hlen ⊢
  omega

theorem load_of_large {disk : Files.Disk} {statePath content : Bytes}
    (hfile : disk.lookup statePath = some content)
    (hlarge : maxState < content.length) (nowMs : ℤ) (old : List Stream) :
    load disk statePath nowMs old = (false, old) := by
  unfold load
  rw [hfile, Option.bind_some, readFile, readUpTo_eq (by decide), if_neg (not_le.mpr hlarge),
    Option.bind_none, ite_self]

/-- Recordings of one match that are started one after the other, to the same file. -/
def beginAgain (m : Bytes) (i : ℕ) : Event :=
  .begin { matchId := m, path := ascii "/a.dem" } (decimal i) 5

/-- They are all queued, and then a tick finds no file. -/
def manyStarted (n : ℕ) (m : Bytes) : Streams :=
  (started {} ∅ [] 0).run (fun _ => []) ((List.range n).map (beginAgain m) ++
    [.tick 0 7 fun _ =>
      { stat := none, content := none, online := false, session := 0, send := false, lane := [] }])

theorem reachable_run {s : Streams} (h : s.Reachable sha256) {events : List Event}
    (he : ∀ e ∈ events, e.Named) : (s.run sha256 events).Reachable sha256 := by
  induction events generalizing s with
  | nil => exact h
  | cons e events ih =>
    rw [List.forall_mem_cons] at he
    exact ih (h.step e he.1) he.2

theorem reachable_manyStarted (n : ℕ) (m : Bytes) : (manyStarted n m).Reachable fun _ => [] := by
  refine reachable_run (.started {} ∅ [] 0) fun e he => ?_
  rcases List.mem_append.mp he with he | he
  · obtain ⟨i, -, rfl⟩ := List.mem_map.mp he
    exact decimal_ne_nil i
  · rw [List.mem_singleton.mp he]
    trivial

/-- A stream that the tick keeps: the newest one, or one that was replaced just now. -/
def Waiting (m : Bytes) (s : Stream) : Prop :=
  s.spec.matchId = m ∧
    (s.phase = .announce ∧ s.lastSize = -1 ∧ s.recording = true ∨ s.phase = .failed ∧
      s.doneAtMs = 7)

def queued (cfg : Config) (m : Bytes) (i : ℕ) : Stream where
  id := decimal i
  spec := { matchId := m, path := ascii "/a.dem", startedAtMs := 5 }
  file := ascii "a.dem"
  chunk := cfg.chunkBytes

theorem run_beginAgain {m : Bytes} (hm : m ≠ []) (l : List ℕ) (s : Streams) :
    s.run sha256 (l.map (beginAgain m)) =
      { s with queue := s.queue ++ l.map fun i => .begin (queued s.cfg m i) } := by
  induction l generalizing s with
  | nil => simp [run]
  | cons i l ih =>
    have hstep :
        s.step sha256 (beginAgain m i) =
          { s with queue := s.queue ++ [.begin (queued s.cfg m i)] } := by
      have hspec : (ascii "/a.dem").head? = some (byte '/') ∧
          isDemoFileName (basename (ascii "/a.dem")) = true ∧ m ≠ [] :=
        ⟨by decide, by decide, hm⟩
      rw [beginAgain, Streams.step, begin]
      dsimp only
      rw [if_pos hspec]
      rfl
    rw [List.map_cons, run, List.foldl_cons, hstep]
    refine (ih _).trans ?_
    simp

theorem waiting_apply {cfg : Config} {m : Bytes} {ts : List Tracked}
    (h : ∀ t ∈ ts, Waiting m t.stream) (l : List ℕ) :
    (∀ t ∈ (l.map fun i => Cmd.begin (queued cfg m i)).foldl (apply cfg 0 7) ts, Waiting
      m t.stream) ∧
      ((l.map fun i => Cmd.begin (queued cfg m i)).foldl (apply cfg 0 7) ts).length =
        ts.length + l.length := by
  induction l generalizing ts with
  | nil => exact ⟨h, rfl⟩
  | cons i l ih =>
    have happly : ∀ t ∈ apply cfg 0 7 ts (.begin (queued cfg m i)), Waiting m t.stream := by
      intro t ht
      rcases List.mem_append.mp ht with ht | ht
      · obtain ⟨u, hu, rfl⟩ := List.mem_map.mp ht
        unfold replaced
        split_ifs
        · exact ⟨(h u hu).1, .inr ⟨rfl, rfl⟩⟩
        · exact h u hu
      · rw [List.mem_singleton.mp ht]
        exact ⟨rfl, .inl ⟨rfl, rfl, rfl⟩⟩
    obtain ⟨hall, hlen⟩ := ih happly
    have hone : (apply cfg 0 7 ts (.begin (queued cfg m i))).length = ts.length + 1 := by
      rw [apply, List.length_append, List.length_map]
      rfl
    refine ⟨hall, hlen.trans ?_⟩
    rw [hone, List.length_cons]
    omega

/-- Without a file nothing happens to the stream, and it is not forgotten. -/
theorem Waiting.work {cfg : Config} {m : Bytes} {s : Stream} (h : Waiting m s)
    (hkeep : 0 < cfg.forgetFailedMs) {w : World} (hw : w.stat = none) :
    (s.work cfg sha256 7 w).1 = s ∧ isForgotten cfg 7 s = false := by
  obtain ⟨-, ⟨hphase, hsize, hrecording⟩ | ⟨hphase, hdone⟩⟩ := h
  · simp [Stream.work, Stream.isOver, Stream.missing, isForgotten, hphase, hsize, hrecording, hw]
  · simp [Stream.work, Stream.isOver, isForgotten, hphase, hdone, hkeep]

theorem tick_waiting {s : Streams} {m : Bytes} (hkeep : 0 < s.cfg.forgetFailedMs)
    (h : ∀ t ∈ s.queue.foldl (apply s.cfg 0 7) s.streams, Waiting m t.stream) {worlds : ℕ → World}
    (hworlds : ∀ i, (worlds i).stat = none) :
    (s.tick sha256 0 7 worlds).toSave.length = (s.queue.foldl (apply s.cfg 0 7) s.streams).length ∧
      ∀ u ∈ (s.tick sha256 0 7 worlds).toSave, u.spec.matchId = m := by
  have hworked : ∀ t ∈ worked sha256 s.cfg 7 worlds (s.queue.foldl (apply s.cfg 0 7) s.streams),
      Waiting m t.stream ∧ isForgotten s.cfg 7 t.stream = false := by
    intro t ht
    obtain ⟨i, hi, rfl⟩ := List.mem_mapIdx.mp ht
    have hwaiting := h _ (List.getElem_mem hi)
    obtain ⟨hsame, hkept⟩ := @Waiting.work sha256 s.cfg m _ hwaiting hkeep _ (hworlds i)
    rw [Tracked.did, hsame]
    exact ⟨hwaiting, hkept⟩
  rw [tick, toSave]
  dsimp only
  rw [List.filter_eq_self.mpr fun t ht => by rw [(hworked t ht).2]; rfl]
  constructor
  · rw [List.length_map, worked, List.length_mapIdx]
  · exact List.forall_mem_map.mpr fun t ht => (hworked t ht).1.1

theorem manyStarted_streams (n : ℕ) {m : Bytes} (hm : m ≠ []) :
    (manyStarted n m).toSave.length = n ∧ ∀ s ∈ (manyStarted n m).toSave, s.spec.matchId = m := by
  have hrun := @run_beginAgain (fun _ => []) m hm (List.range n) (started {} ∅ [] 0)
  obtain ⟨hwaiting, hlen⟩ :=
    @waiting_apply (started {} ∅ [] 0).cfg m [] (List.forall_mem_nil _) (List.range n)
  have hkeep : 0 < (started {} ∅ [] 0).cfg.forgetFailedMs := by decide
  rw [run] at hrun
  rw [manyStarted, run, List.foldl_append, hrun]
  obtain ⟨hlength, hmatch⟩ := @tick_waiting (fun _ => [])
    { started {} ∅ [] 0 with
      queue := (List.range n).map fun i => .begin (queued (started {} ∅ [] 0).cfg m i) } m hkeep
    hwaiting
    (fun _ =>
      { stat := none, content := none, online := false, session := 0, send := false, lane := [] })
      fun _ => rfl
  refine ⟨hlength.trans (hlen.trans ?_), hmatch⟩
  simp

def longMatch : Bytes := List.replicate (2 ^ 19) 97

theorem length_longMatch : longMatch.length = 2 ^ 19 := List.length_replicate

/-- More of them than fit into a file that is read. -/
def largeStart : Streams := manyStarted 129 longMatch

theorem largeStart_lost :
    largeStart.Reachable (fun _ => []) ∧ largeStart.toSave.length = 129 ∧
      (save ∅ [47] largeStart.toSave 1 (.calm (stateText largeStart.toSave))).1 = true ∧
      load (save ∅ [47] largeStart.toSave 1 (.calm (stateText largeStart.toSave))).2 [47] 9
        [] = (false, []) := by
  have hm : longMatch ≠ [] := by
    rw [← List.length_pos_iff, length_longMatch]
    decide
  obtain ⟨hlength, hmatch⟩ := manyStarted_streams 129 hm
  have hsaved := save_calm ∅ (show [47] ≠ [] by decide) largeStart.toSave 1
  have hfile :=
    lookup_save ∅ (show [47] ≠ [] by decide) largeStart.toSave 1
      (.calm (stateText largeStart.toSave))
  rw [if_pos hsaved] at hfile
  have htext : largeStart.toSave.length * 2 ^ 19 ≤ (stateText largeStart.toSave).length := by
    refine mul_length_le_stateText fun s hs => ?_
    rw [hmatch s hs, length_longMatch]
  have hlarge : maxState < (stateText largeStart.toSave).length := by
    rw [largeStart, hlength] at htext
    rw [largeStart, maxState]
    omega
  exact ⟨reachable_manyStarted 129 _, hlength, hsaved, load_of_large hfile hlarge 9 []⟩

end TooLarge

end Streams

end ReadyUp.Fleet.Demo
