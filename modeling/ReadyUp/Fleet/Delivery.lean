import ReadyUp.Fleet.Client

/-!
# Delivery to the platform

A `World` is the client, every frame it ever sent, and a platform that accepts a reliable frame
only if its seq is the one after the last it accepted. The network may lose, copy, delay and
reorder frames in both directions: the platform may receive any frame that was sent, at any
time and more than once, and the client may hear any seq that was ever reported.

As long as the spool has no gap, what the platform accepted is the beginning of what was
appended, and the spool holds the rest.
-/
namespace ReadyUp.Fleet

open Support

/-- What the platform knows of the stream. -/
structure Platform where
  last : ℤ
  /-- The seqs and payloads that it accepted. -/
  accepted : List (ℤ × Bytes)

/-- Only the frame after the last one is accepted. -/
def Platform.receive (p : Platform) (f : Frame) : Platform :=
  if f.seq = p.last + 1 then ⟨f.seq, p.accepted ++ [(f.seq, f.payload)]⟩ else p

structure World where
  client : Client
  platform : Platform
  /-- Every seq that the platform reported as its last one. -/
  reports : List ℤ

inductive WorldEvent where
  | client (e : ClientEvent)
  /-- The platform receives a frame of the present session or of an earlier one. -/
  | receive (i : ℕ)
  /-- The platform reports its last seq, in a welcome or as an ack. -/
  | report

namespace World

/-- A client that starts over an empty directory. -/
def new (config : ClientConfig) (limits : Limits) (newId : Ulid) : World :=
  ⟨.start config ((Host.new .empty).openDir limits newId).2, ⟨0, []⟩, []⟩

variable (w : World)

def sent : List SentFrame := (w.client.wire :: w.client.past).flatten

/-- Whether the platform can have said this. -/
def hears : ClientEvent → Bool
  | .welcome wl _ => (wl.platformLastRxSeq ≤ 0 || w.reports.contains wl.platformLastRxSeq) &&
      (wl.ack ≤ 0 || w.reports.contains wl.ack)
  | .inbound e _ _ _ _ _ => e.ack ≤ 0 || w.reports.contains e.ack
  | _ => true

def step : WorldEvent → World
  | .client e => if w.hears e then { w with client := w.client.step e } else w
  | .receive i => (w.sent[i]?).elim w fun f => { w with platform := w.platform.receive f.frame }
  | .report => { w with reports := w.reports ++ [w.platform.last] }

end World

section Numbered

theorem getElem?_of_numbered {rs : List SpoolRecord} {a : ℤ} (h : Numbered a (seqs rs))
    {r : SpoolRecord} (hr : r ∈ rs) : ∃ i : ℕ, r.seq = a + i ∧ rs[i]? = some r := by
  induction rs generalizing a with
  | nil => cases hr
  | cons x rs ih =>
    rcases List.mem_cons.mp hr with rfl | hr
    · exact ⟨0, by have := h.1; omega, rfl⟩
    · obtain ⟨i, hi, hget⟩ := ih h.2 hr
      refine ⟨i + 1, ?_, hget⟩
      push_cast
      omega

end Numbered

/-- What the platform keeps of a record. -/
def delivered (r : SpoolRecord) : ℤ × Bytes := (r.seq, r.payload.text)

namespace Client

variable {c c' : Client} {p : Platform}

/-- The spool holds every message after the acked seq, the platform has those before it, and
every frame is one of a message. -/
structure Faithful (p : Platform) (c : Client) : Prop where
  ordered : c.host.spool.Ordered
  noGap : c.host.spool.gap = false
  numbered : Numbered 1 (seqs c.spooled)
  length : (c.spooled.length : ℤ) = c.host.spool.lastSeq
  recs : c.host.spool.recs = after c.host.spool.ackedSeq c.spooled
  acked : c.host.spool.ackedSeq ≤ p.last
  accepted : p.accepted <+: c.spooled.map delivered
  frames : ∀ l ∈ c.wire :: c.past, ∀ f ∈ l, f.frame.seq = 0 ∨
    ∃ r ∈ c.spooled, f.frame.seq = r.seq ∧ f.frame.payload = r.payload.text

theorem Faithful.same (hf : c.Faithful p) (hs : Same c c') : c'.Faithful p := by
  refine ⟨?_, ?_, ?_, ?_, ?_, ?_, ?_, ?_⟩
  · rw [hs.host]
    exact hf.ordered
  · rw [hs.host]
    exact hf.noGap
  · rw [hs.spooled]
    exact hf.numbered
  · rw [hs.spooled, hs.host]
    exact hf.length
  · rw [hs.host, hs.spooled]
    exact hf.recs
  · rw [hs.host]
    exact hf.acked
  · rw [hs.spooled]
    exact hf.accepted
  · rw [hs.wire, hs.past, hs.spooled]
    exact hf.frames

theorem Faithful.host (hf : c.Faithful p) {h : Host} {rxSeq : ℤ}
    (hspool : h.spool = { c.host.spool with rxSeq }) :
    { c with host := h : Client }.Faithful p := by
  refine ⟨?_, ?_, hf.numbered, ?_, ?_, ?_, hf.accepted, hf.frames⟩
  · dsimp only
    rw [hspool]
    have hord := hf.ordered
    exact ⟨hord.nonneg, hord.acked, hord.increasing, hord.above, hord.below, hord.bytes⟩
  · dsimp only
    rw [hspool]
    exact hf.noGap
  · dsimp only
    rw [hspool]
    exact hf.length
  · dsimp only
    rw [hspool]
    exact hf.recs
  · dsimp only
    rw [hspool]
    exact hf.acked

theorem Faithful.persistRx
    (hf : c.Faithful p) (flush : WriteResult) : (c.persistRx flush).Faithful p := by
  obtain ⟨rxSeq, hspool⟩ := c.persistRx_spool flush
  have hhost := hf.host hspool
  exact ⟨hhost.ordered, hhost.noGap, by rw [persistRx_spooled]; exact hf.numbered,
    by rw [persistRx_spooled]; exact hhost.length, by rw [persistRx_spooled]; exact hhost.recs,
    hhost.acked, by rw [persistRx_spooled]; exact hf.accepted,
    by rw [persistRx_wire, persistRx_past, persistRx_spooled]; exact hf.frames⟩

theorem Faithful.sendEnv (hf : c.Faithful p) {e : Frame} (he : e.seq = 0 ∨
    ∃ r ∈ c.spooled, e.seq = r.seq ∧ e.payload = r.payload.text) (now : Now) (io : Io) :
    (c.sendEnv e now io).2.Faithful p := by
  have hf' := hf.persistRx io.flush
  rw [Client.sendEnv, transmit]
  split_ifs
  · refine ⟨hf'.ordered, hf'.noGap, hf'.numbered, hf'.length, hf'.recs, hf'.acked, hf'.accepted, ?_⟩
    rw [List.forall_mem_cons]
    refine ⟨?_, fun l hl => hf'.frames l (List.mem_cons_of_mem _ hl)⟩
    intro f hmem
    rcases List.mem_append.mp hmem with hmem | hmem
    · exact hf'.frames _ List.mem_cons_self f hmem
    · rw [List.mem_singleton.mp hmem]
      dsimp only
      rw [persistRx_spooled]
      exact he
  · exact ⟨hf'.ordered, hf'.noGap, hf'.numbered, hf'.length, hf'.recs, hf'.acked,
      hf'.accepted, hf'.frames⟩

theorem Faithful.sendRecord (hf : c.Faithful p) {r : SpoolRecord}
    (hr : c.unsent = some r) (now : Now) (io : Io) : (c.sendRecord r now io).Faithful p := by
  have hmem : r ∈ c.spooled := by
    have hrecs := List.mem_of_find?_eq_some hr
    rw [hf.recs] at hrecs
    exact (after_sublist _ _).subset hrecs
  have hf' := hf.sendEnv (e := .ofRecord r) (Or.inr ⟨r, hmem, rfl, rfl⟩) now io
  rw [Client.sendRecord]
  dsimp only
  split_ifs
  · exact ⟨hf'.ordered, hf'.noGap, hf'.numbered, hf'.length, hf'.recs, hf'.acked,
      hf'.accepted, hf'.frames⟩
  · exact hf'

theorem Faithful.sends (hf : c.Faithful p) {now : Now} {io : Io} (hs : Sends c now io c') :
    c'.Faithful p := by
  cases hs with
  | none => exact hf
  | ephemeral e he => exact hf.sendEnv (Or.inl he) now io
  | record r _ hr => exact hf.sendRecord hr now io

theorem Faithful.append (hf : c.Faithful p) {m : Message} {outcomes : List WriteResult}
    (hgap : (c.append m outcomes).host.spool.gap = false) : (c.append m outcomes).Faithful p := by
  rw [append_spool] at hgap
  obtain ⟨-, hseq, hs⟩ := Spool.append_of_not_gap hgap
  have hlength := hf.length
  have hacked := hf.ordered.acked
  have hspooled : (c.append m outcomes).spooled = c.spooled ++ [m.record c.host.spool.nextSeq] := by
    rw [Client.append, hseq]
    rfl
  refine ⟨?_, ?_, ?_, ?_, ?_, ?_, ?_, ?_⟩
  · rw [append_spool, hs]
    exact hf.ordered.push m
  · rw [append_spool]
    exact hgap
  · rw [hspooled, seqs_append, numbered_append, length_seqs]
    refine ⟨hf.numbered, ?_, trivial⟩
    rw [Message.record]
    rw [Spool.lastSeq] at hlength
    dsimp only
    omega
  · rw [hspooled, append_spool, hs, List.length_append, List.length_singleton,
      Spool.lastSeq, Spool.push]
    rw [Spool.lastSeq] at hlength
    push_cast
    omega
  · rw [hspooled, append_spool, hs, Spool.push]
    dsimp only
    rw [after_snoc hacked, ← hf.recs]
  · rw [append_spool, hs]
    exact hf.acked
  · rw [hspooled, List.map_append]
    exact hf.accepted.trans (List.prefix_append _ _)
  · rw [hspooled]
    intro l hl f hmem
    refine (hf.frames l hl f hmem).imp_right ?_
    rintro ⟨r, hr, hframe⟩
    exact ⟨r, List.mem_append_left _ hr, hframe⟩

theorem Faithful.ackUpTo (hf : c.Faithful p) {seq : ℤ} (hseq : seq ≤ p.last)
    (outcomes : List WriteResult) : (c.ackUpTo seq outcomes).Faithful p := by
  by_cases hle : seq ≤ c.host.spool.ackedSeq
  · have hspool : c.host.spool.ackUpTo seq = c.host.spool := by rw [Spool.ackUpTo, if_pos hle]
    have hhost :
        ((c.host.given outcomes).ackUpTo seq).spool =
          { c.host.spool with rxSeq := c.host.spool.rxSeq } := by
      rw [Host.ackUpTo_spool, Host.given, hspool]
    exact hf.host hhost
  · have hspool : c.host.spool.ackUpTo seq =
        Spool.dropAcked { c.host.spool with ackedSeq := min seq c.host.spool.lastSeq } := by
      rw [Spool.ackUpTo, if_neg hle]
    have hacked := hf.ordered.acked
    refine ⟨?_, ?_, hf.numbered, ?_, ?_, ?_, hf.accepted, hf.frames⟩
    · rw [ackUpTo_spool]
      exact hf.ordered.ackUpTo seq
    · rw [ackUpTo_spool, hspool]
      exact hf.noGap
    · rw [ackUpTo_spool, hspool]
      exact hf.length
    · rw [ackUpTo_spool, hspool, Spool.dropAcked]
      dsimp only
      have hmin : c.host.spool.ackedSeq ≤ min seq c.host.spool.lastSeq := by
        rw [Spool.lastSeq]
        omega
      rw [hf.recs, after_after hmin]
      rfl
    · rw [ackUpTo_spool, hspool]
      exact (min_le_left _ _).trans hseq

theorem Faithful.connect (hf : c.Faithful p) (newId : Ulid) (outcomes : List WriteResult)
    (hello : Bytes) (now : Now) (io : Io) : (c.connect newId outcomes hello now io).Faithful p := by
  have hspool : ((c.host.given outcomes).rotateIfGap newId).2.spool = c.host.spool := by
    have hgap : (c.host.given outcomes).spool.gap = false := hf.noGap
    rw [Host.rotateIfGap_spool, if_neg (by simp [hgap])]
    rfl
  have hhost := hf.host hspool
  have hnew : { c with
      host := ((c.host.given outcomes).rotateIfGap newId).2
      session := {}
      wire := []
      past := c.wire :: c.past
      phase := .hello ((c.host.given outcomes).rotateIfGap newId).1 : Client }.Faithful p := by
    refine ⟨hhost.ordered, hhost.noGap, hhost.numbered, hhost.length, hhost.recs, hhost.acked,
      hhost.accepted, ?_⟩
    rw [List.forall_mem_cons]
    exact ⟨fun f hmem => (by cases hmem), hf.frames⟩
  have hsent := hnew.sendEnv (e := .ephemeral (ascii "hello") hello [] 0) (Or.inl rfl) now io
  rw [Client.connect]
  dsimp only
  split_ifs
  · exact hsent
  · exact hsent.same (.queues _ _ _ _ _ _)

theorem Faithful.dispatch (hf : c.Faithful p) {e : Inbound} {answer : Answer}
    {storing : List WriteResult}
    {now : Now} {io : Io} (hgap : (c.dispatch e answer storing now io).host.spool.gap = false) :
    (c.dispatch e answer storing now io).Faithful p := by
  obtain ⟨c₁, hs, -, -, hsends | ⟨-, -, heq⟩⟩ := c.dispatch_cases e answer storing now io
  · exact (hf.same hs).sends hsends
  · rw [heq] at hgap ⊢
    exact (hf.same hs).append hgap

theorem Faithful.step (hf : c.Faithful p) {e : ClientEvent}
    (hwelcome : ∀ w outcomes, e = .welcome w outcomes →
      w.platformLastRxSeq ≤ p.last ∧ w.ack ≤ p.last)
    (hack : ∀ i answer acking storing now io, e = .inbound i answer acking storing now io →
      i.ack ≤ p.last)
    (hgap : (c.step e).host.spool.gap = false) : (c.step e).Faithful p := by
  rw [Client.step] at hgap ⊢
  split_ifs at hgap ⊢
  · cases e with
    | game call => exact hf.same (c.same_game call).1
    | drain => exact hf.same (.queues _ _ _ _ _ _)
    | store now outcomes =>
      rw [apply] at hgap ⊢
      obtain ⟨c₁, hs, -, -, heq | ⟨o, -, -, heq⟩⟩ := c.store_cases now outcomes
      · rw [heq]
        exact hf.same hs
      · rw [heq] at hgap ⊢
        exact (hf.same hs).append hgap
    | connect newId outcomes hello now io => exact hf.connect newId outcomes hello now io
    | welcome w outcomes =>
      obtain ⟨hlast, hwack⟩ := hwelcome w outcomes rfl
      have hle :
          (if 0 < w.ack then max w.platformLastRxSeq w.ack else w.platformLastRxSeq) ≤ p.last := by
        split_ifs
        · exact max_le hlast hwack
        · exact hlast
      have hf' := hf.ackUpTo hle outcomes
      rw [apply]
      split
      · exact ⟨hf'.ordered, hf'.noGap, hf'.numbered, hf'.length, hf'.recs, hf'.acked,
          hf'.accepted, hf'.frames⟩
      · exact hf
    | next snapshot epoch now io =>
      obtain ⟨c₁, hs, -, -, hsends⟩ := c.next_cases snapshot epoch now io
      exact (hf.same hs).sends hsends
    | own f now io =>
      obtain ⟨c₁, hs, -, -, hsends⟩ := c.sendOwn_cases f now io
      exact (hf.same hs).sends hsends
    | markDone nowMs => exact hf.same ⟨rfl, rfl, rfl, rfl, rfl, rfl, c.rx.le_markAll _ _⟩
    | flush result =>
      have hspool : ((c.host.given [result]).flushMeta.2).spool = c.host.spool :=
        Host.flushMeta_spool _
      exact hf.host hspool
    | inbound i answer acking storing now io =>
      have hle := hack i answer acking storing now io rfl
      rw [apply, handleInbound] at hgap ⊢
      split_ifs at hgap ⊢
      · exact hf
      · exact (hf.ackUpTo hle acking).dispatch hgap
      · exact hf.dispatch hgap
    | finish => exact hf.same (.queues _ _ _ _ _ _)
  · exact hf

theorem faithful_start (config : ClientConfig) (limits : Limits) (newId : Ulid) :
    (start config ((Host.new .empty).openDir limits newId).2).Faithful ⟨0, []⟩ := by
  have hspool : ((Host.new .empty).openDir limits newId).2.spool =
      ⟨limits, [], 0, 0, newId.text, 1, 0, 0, false⟩ := rfl
  refine ⟨?_, ?_, trivial, ?_, ?_, ?_, List.prefix_rfl, ?_⟩
  · rw [start, hspool]
    exact ⟨le_rfl, Int.zero_lt_one, List.Pairwise.nil, fun r hr => (by cases hr), fun r hr =>
      (by cases hr), rfl⟩
  · rw [start, hspool]
  · rw [start, hspool]
    rfl
  · rw [start, hspool]
    rfl
  · rw [start, hspool]
  · intro l hl f hmem
    rw [List.mem_singleton.mp hl] at hmem
    cases hmem

end Client

namespace World

variable {w : World}

/-- The client against the platform, and what the platform reported. -/
structure Inv (w : World) : Prop where
  client : w.client.Faithful w.platform
  last : (w.platform.accepted.length : ℤ) = w.platform.last
  reports : ∀ a ∈ w.reports, a ≤ w.platform.last

theorem inv_new (config : ClientConfig) (limits : Limits) (newId : Ulid) :
    (new config limits newId).Inv :=
  ⟨Client.faithful_start config limits newId, rfl, fun _ ha => (by cases ha)⟩

theorem Inv.le_last (hi : w.Inv) {a : ℤ} (h : a ≤ 0 ∨ a ∈ w.reports) : a ≤ w.platform.last := by
  rcases h with h | h
  · have := hi.last
    omega
  · exact hi.reports a h

theorem Inv.client_step (hi : w.Inv) {e : ClientEvent} (hears : w.hears e = true)
    (hgap : (w.client.step e).host.spool.gap = false) :
    { w with client := w.client.step e : World }.Inv := by
  refine ⟨hi.client.step ?_ ?_ hgap, hi.last, hi.reports⟩
  · rintro wl outcomes rfl
    rw [World.hears, Bool.and_eq_true, Bool.or_eq_true, Bool.or_eq_true, decide_eq_true_eq,
      decide_eq_true_eq, List.contains_iff_mem, List.contains_iff_mem] at hears
    exact ⟨hi.le_last hears.1, hi.le_last hears.2⟩
  · rintro i answer acking storing now io rfl
    rw [World.hears, Bool.or_eq_true, decide_eq_true_eq, List.contains_iff_mem] at hears
    exact hi.le_last hears

/-- The frame after the last one carries the message after the last one. -/
theorem Inv.receive (hi : w.Inv) {f : SentFrame} (hf : f ∈ w.sent) :
    { w with platform := w.platform.receive f.frame : World }.Inv := by
  have hlast := hi.last
  have hc := hi.client
  rw [Platform.receive]
  split_ifs with hseq
  · obtain ⟨l, hl, hmem⟩ := List.mem_flatten.mp hf
    obtain hzero | ⟨r, hr, hrseq, hpayload⟩ := hc.frames l hl f hmem
    · omega
    · obtain ⟨i, hi', hget⟩ := getElem?_of_numbered hc.numbered hr
      have hindex : i = w.platform.accepted.length := by omega
      have hprefix :
          w.platform.accepted ++ [(f.frame.seq, f.frame.payload)] <+:
            w.client.spooled.map delivered := by
        have htake := List.prefix_iff_eq_take.mp hc.accepted
        have hget' : (w.client.spooled.map delivered)[w.platform.accepted.length]? =
            some (f.frame.seq, f.frame.payload) := by
          rw [← hindex, List.getElem?_map, hget, hrseq, hpayload]
          rfl
        rw [htake, ← Option.toList_some, ← hget', ← List.take_add_one]
        exact List.take_prefix _ _
      refine ⟨⟨hc.ordered, hc.noGap, hc.numbered, hc.length, hc.recs, ?_, hprefix, hc.frames⟩, ?_,
        ?_⟩
      · have := hc.acked
        dsimp only
        omega
      · dsimp only
        rw [List.length_append, List.length_singleton]
        push_cast
        omega
      · intro a ha
        have := hi.reports a ha
        dsimp only
        omega
  · exact hi

theorem Inv.step (hi : w.Inv) {e : WorldEvent} (hgap : (w.step e).client.host.spool.gap = false) :
    (w.step e).Inv := by
  cases e with
  | client e =>
    rw [World.step] at hgap ⊢
    split_ifs at hgap ⊢ with hears
    · exact hi.client_step hears hgap
    · exact hi
  | receive i =>
    rw [World.step]
    cases hf : w.sent[i]? with
    | none => exact hi
    | some f => exact hi.receive (List.mem_of_getElem? hf)
  | report =>
    refine ⟨hi.client, hi.last, ?_⟩
    intro a ha
    rcases List.mem_append.mp ha with ha | ha
    · exact hi.reports a ha
    · exact (List.mem_singleton.mp ha).le

/-- In a run without a gap the platform accepts the messages in the order in which they were
appended, each once, and the spool drops none before. -/
theorem delivered_once {config : ClientConfig} {limits : Limits} {newId : Ulid}
    {es : List WorldEvent}
    (hes : Guarded step (fun w e => (w.step e).client.host.spool.gap = false)
      (new config limits newId) es) :
    (run step (new config limits newId) es).platform.accepted <+:
        (run step (new config limits newId) es).client.spooled.map delivered ∧
      ((run step (new config limits newId) es).platform.accepted.map Prod.fst).Nodup ∧
      ∀ r ∈ (run step (new config limits newId) es).client.spooled,
        r ∉ (run step (new config limits newId) es).client.host.spool.recs →
          delivered r ∈ (run step (new config limits newId) es).platform.accepted := by
  have hi := hes.invariant (inv_new config limits newId) fun _ _ hi hgap => hi.step hgap
  generalize run step (new config limits newId) es = w at hi
  have hc := hi.client
  refine ⟨hc.accepted, ?_, ?_⟩
  · have hseqs : (w.client.spooled.map delivered).map Prod.fst = seqs w.client.spooled := by
      rw [List.map_map]
      rfl
    have hprefix := hc.accepted.map Prod.fst
    rw [hseqs] at hprefix
    exact hprefix.sublist.nodup (hc.numbered.pairwise_lt.imp ne_of_lt)
  · intro r hr hdropped
    have hle : r.seq ≤ w.platform.last := by
      rw [hc.recs, mem_after hc.numbered.pairwise_lt, not_and, not_lt] at hdropped
      exact (hdropped hr).trans hc.acked
    obtain ⟨i, hseq, hget⟩ := getElem?_of_numbered hc.numbered hr
    have hlast := hi.last
    have hlt : i < w.platform.accepted.length := by omega
    have hsame : w.platform.accepted[i]? = some (delivered r) := by
      rw [List.prefix_iff_eq_take.mp hc.accepted, List.getElem?_take_of_lt hlt,
        List.getElem?_map, hget]
      rfl
    exact List.mem_of_getElem? hsame

section Examples

/-- The frames of a session that all go well. -/
def sendNext : WorldEvent := .client (.next [] 0 ⟨default, 1⟩ ⟨.ok, true⟩)

def connect : WorldEvent :=
  .client (.connect default [] (ascii "\x7b\x7d") ⟨default, 1⟩ ⟨.ok, true⟩)

def sendKill : WorldEvent :=
  .client (.game (.send (ascii "event.kill") (ascii "\x7b\x7d") 0 true []))

/-- A message is sent, accepted and lost as an ack; the next session starts after it. -/
def twoSessions : List WorldEvent :=
  [connect, .client (.welcome ⟨false, 0, 0⟩ []), sendNext, sendKill, .client .drain,
    .client (.store ⟨default, 1⟩ []), sendNext, sendNext, sendNext, .receive 1,
    .client .finish, .report, connect, .client (.welcome ⟨false, 1, 1⟩ []), sendNext, sendKill,
    .client .drain, .client (.store ⟨default, 1⟩ []), sendNext, sendNext, .receive 2, .receive 1]

example :
    (run step (new {} ⟨10, 1000⟩ default) twoSessions).platform.accepted.map Prod.fst = [1, 2] := by
  decide +kernel

theorem delivered_once_twoSessions :
    (run step (new {} ⟨10, 1000⟩ default) twoSessions).platform.accepted <+:
        (run step (new {} ⟨10, 1000⟩ default) twoSessions).client.spooled.map delivered ∧
      ((run step (new {} ⟨10, 1000⟩ default) twoSessions).platform.accepted.map Prod.fst).Nodup ∧
      ∀ r ∈ (run step (new {} ⟨10, 1000⟩ default) twoSessions).client.spooled,
        r ∉ (run step (new {} ⟨10, 1000⟩ default) twoSessions).client.host.spool.recs →
          delivered r ∈ (run step (new {} ⟨10, 1000⟩ default) twoSessions).platform.accepted :=
  delivered_once (by decide)

end Examples

end World

end ReadyUp.Fleet
