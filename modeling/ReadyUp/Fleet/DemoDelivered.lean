import ReadyUp.Fleet.DemoCopy
import ReadyUp.Fleet.DemoRestart

/-!
# Demos that were delivered

What a tick, an ack and a reload leave of what the stream relies on. An ack may move the cursor
ahead over what was sent before the final pass, which is then never compared with the file, or put
it in the middle of a chunk, which the table has no entry for; and what was saved may be older than
what was sent. Where none of this happens, the end of a demo is only sent when the platform has
the file.
-/
namespace ReadyUp.Fleet.Demo

open Support

section Work

variable {cfg : Config} {sha256 : Bytes → Bytes} {n : ℕ} {log recent : List Action} {reported : ℤ}
  {seen : Option Bytes} {s : Stream}

theorem Stream.Sound.congr_seen {seen' : Option Bytes} (h : s.Sound sha256 n log seen)
    (hseen : 0 ≤ s.finalSize → seen = seen') : s.Sound sha256 n log seen' where
  chunk := h.chunk
  sent := h.sent
  noted := h.noted
  aligned := h.aligned
  final hfinal := hseen hfinal ▸ h.final hfinal

theorem Leaves.silent {actions : List Action} (h : s.isOver = false → s.Sound sha256 n log seen)
    (hcovers : s.phase = .stream → Covers recent reported s.sent)
    (hsilent : ∀ a ∈ actions, a.isSilent)
    (hends : ∀ (id : Bytes) (size : ℤ) (sha : Bytes), .send (.demoEnd id size sha) ∉ actions) :
    Leaves sha256 n log recent reported seen (s, actions) where
  sound hover := (h hover).append_silent hsilent
  covers hphase p hlow hhigh := isSome_copy_append (hcovers hphase p hlow hhigh) _
  ends id size sha hmem := absurd hmem (hends id size sha)

theorem Leaves.idle (h : s.isOver = false → s.Sound sha256 n log seen)
    (hcovers : s.phase = .stream → Covers recent reported s.sent) :
    Leaves sha256 n log recent reported seen (s, []) :=
  .silent h hcovers (fun _ ha => by cases ha) fun _ _ _ hmem => by cases hmem

theorem Leaves.after {as bs : List Action}
    (h : Leaves sha256 n (log ++ as) (recent ++ as) reported seen (s, bs))
    (hends : ∀ (id : Bytes) (size : ℤ) (sha : Bytes), .send (.demoEnd id size sha) ∉ as) :
    Leaves sha256 n log recent reported seen (s, as ++ bs) where
  sound hover := by
    rw [← List.append_assoc]
    exact h.sound hover
  covers hphase := by
    rw [← List.append_assoc]
    exact h.covers hphase
  ends id size sha hmem := by
    rw [← List.append_assoc, ← List.append_assoc]
    exact h.ends id size sha ((List.mem_append.mp hmem).resolve_left (hends id size sha))

theorem Leaves.over {actions : List Action} (hover : s.isOver = true) (hphase : s.phase ≠ .stream)
    (hends : ∀ (id : Bytes) (size : ℤ) (sha : Bytes), .send (.demoEnd id size sha) ∉ actions) :
    Leaves sha256 n log recent reported seen (s, actions) where
  sound hfalse := by
    rw [hover] at hfalse
    cases hfalse
  covers hstream := absurd hstream hphase
  ends id size sha hmem := absurd hmem (hends id size sha)

variable {w : World} {nowMs size : ℤ}

/-- The file that a tick finds is the one that the stream goes on with. -/
def Finds (n : ℕ) (log : List Action) (w : World) (seen : Option Bytes) (s : Stream) : Prop :=
  ∀ file, w.content = some file → NoCollision log n file ∧ (0 ≤ s.finalSize → seen = some file)

theorem inside_finalPass (hpos : 0 < s.chunk) (content : Bytes) :
    ∀ r ∈ (s.finalPass sha256 content).rewrites, r < content.length := by
  intro r hr
  obtain ⟨⟨chunk, i⟩, hmem, hr⟩ := List.mem_filterMap.mp hr
  have hget := List.mk_mem_zipIdx_iff_getElem?.mp hmem
  rw [getElem?_toChunks hpos, piece] at hget
  dsimp only at hr
  split_ifs at hget with hlt
  obtain ⟨-, hr⟩ := Option.ite_none_right_eq_some.mp hr
  obtain rfl := Option.some.inj hr
  exact_mod_cast hlt

theorem or_seen (hfinds : Finds n log w seen s) (hfinal : 0 ≤ s.finalSize) :
    seen = w.content.or seen := by
  cases hcontent : w.content with
  | none => rfl
  | some c => rw [(hfinds c hcontent).2 hfinal, Option.some_or]

theorem leaves_sendData (hn : 0 < n) (h : s.Sound sha256 n log seen) (hphase : s.phase = .stream)
    (hcovers : Covers recent reported s.sent) (hfinds : Finds n log w seen s) :
    Leaves sha256 n log recent reported (w.content.or seen)
      (s.sendData cfg sha256 nowMs size w) := by
  have hpos : 0 < s.chunk := h.chunk ▸ hn
  have hgood : ∀ s' : Stream, s'.phase = .stream → s'.Sound sha256 n log (w.content.or seen) →
      Covers recent reported s'.sent →
      Leaves sha256 n log recent reported (w.content.or seen)
        ((Sending.sendAll cfg w.content nowMs size { stream := s', lane := w.lane }).stream,
          (Sending.sendAll cfg w.content nowMs size { stream := s', lane := w.lane }).sent) := by
    intro s' hphase' hsound' hcovers'
    refine Sending.Good.sendAll ⟨hphase', ?_, ?_, fun _ _ _ => List.not_mem_nil, fun _ c hc => ?_⟩
      hn cfg nowMs size
    · rw [List.append_nil]
      exact hsound'
    · rw [List.append_nil]
      exact hcovers'
    · rw [hc, Option.some_or]
  rw [Stream.sendData]
  by_cases hsettled : s.isSettled cfg nowMs = true
  · have hneg : s.finalSize < 0 := by
      simp only [Stream.isSettled, Bool.and_eq_true, decide_eq_true_eq] at hsettled
      exact hsettled.1.1.2
    rw [if_pos hsettled]
    cases hcontent : w.content with
    | none =>
      exact .idle (fun _ => h.congr_seen fun hfinal => absurd hneg (not_lt.mpr hfinal)) fun _ =>
        hcovers
    | some c =>
      rw [hcontent, Option.some_or] at hgood
      have hsize : 0 ≤ (s.finalPass sha256 c).finalSize := Int.natCast_nonneg _
      refine hgood _ hphase ⟨h.chunk, ?_, ?_, ?_, fun _ =>
        ⟨c, rfl, rfl, rfl, ?_, inside_finalPass hpos c⟩⟩ ?_
      · exact le_min h.sent (Int.natCast_nonneg _)
      · exact fun hfalse => absurd hfalse (not_lt.mpr hsize)
      · exact fun hfalse => absurd hfalse (not_lt.mpr hsize)
      · exact (h.noted hneg).finalPass hpos (h.chunk ▸ (hfinds c hcontent).1)
      · exact fun p hlow hhigh => hcovers p hlow (lt_of_lt_of_le hhigh (min_le_left _ _))
  · rw [if_neg hsettled]
    exact hgood s hphase (h.congr_seen (or_seen hfinds)) hcovers

theorem sound_reannounce (h : s.Sound sha256 n log seen) (cfg : Config) (nowMs : ℤ) (session : ℕ) :
    (s.reannounce cfg nowMs session).Sound sha256 n log seen ∧
      (s.reannounce cfg nowMs session).sent = s.sent ∧
      (s.reannounce cfg nowMs session).finalSize = s.finalSize ∧
      ((s.reannounce cfg nowMs session).phase = .stream → s.phase = .stream) := by
  rw [Stream.reannounce]
  split_ifs
  all_goals refine ⟨h.frame rfl rfl rfl rfl rfl rfl ?_, rfl, rfl, ?_⟩
  all_goals simp

theorem leaves_announce (h : s.Sound sha256 n log seen)
    (hcovers : s.phase = .stream → Covers recent reported s.sent) (accepted : Bool) :
    Leaves sha256 n log recent reported seen (s.announce cfg nowMs accepted) := by
  rw [Stream.announce]
  split_ifs
  · exact .idle (fun _ => h) hcovers
  · refine .silent (fun _ => h.frame rfl rfl rfl rfl rfl rfl id) hcovers ?_ ?_
    · intro a ha p
      rw [List.mem_singleton.mp ha]
      rfl
    · intro id size sha hmem
      injection List.mem_singleton.mp hmem with hbegin
      cases hbegin

theorem leaves_talk (hn : 0 < n) (hover : s.isOver = false) (h : s.Sound sha256 n log seen)
    (hcovers : s.phase = .stream → Covers recent reported s.sent)
    (hfinds : Finds n log w seen s) :
    Leaves sha256 n log recent reported (w.content.or seen) (s.talk cfg sha256 nowMs size w) := by
  have hsame := fun hfinal => or_seen hfinds hfinal
  obtain ⟨hsound, hsent, hsize, hphase⟩ := sound_reannounce h cfg nowMs w.session
  rw [Stream.talk]
  dsimp only
  split_ifs with honline hannounce
  · exact .idle (fun _ => h.congr_seen hsame) hcovers
  · refine leaves_announce (hsound.congr_seen (hsize ▸ hsame)) (fun hp => ?_) w.send
    rw [hannounce] at hp
    cases hp
  · rcases phase_of_not_isOver (isOver_reannounce hover nowMs w.session) with hp | hp
    · exact absurd hp hannounce
    · refine leaves_sendData hn hsound hp (hsent ▸ hcovers (hphase hp)) fun c hc => ?_
      rw [hsize]
      exact hfinds c hc

/-- The file is another one, or shorter than what was seen of it. -/
def Replaced (size : ℤ) (ino : ℕ) (s : Stream) : Prop :=
  (s.inode ≠ 0 ∧ ino ≠ s.inode) ∨ size < s.lastSize ∨ (s.finalSize < 0 ∧ size < s.sent)

theorem Stream.Sound.startOver (h : s.Sound sha256 n log seen) {finalSize : ℤ} {sha : Bytes}
    (hfinal : 0 ≤ finalSize → finalSize = s.finalSize ∧ sha = s.sha256) :
    Sound sha256 n log seen { s.startOver with finalSize, sha256 := sha } where
  chunk := h.chunk
  sent := le_rfl
  noted _ _ hi := absurd rfl hi
  aligned _ hphase := by cases hphase
  final hfinal0 := by
    obtain ⟨rfl, rfl⟩ := hfinal hfinal0
    obtain ⟨file, hseen, hsize, hdigest, -, -⟩ := h.final hfinal0
    exact ⟨file, hseen, hsize, hdigest, fun p _ _ _ => .inr (.inl (Int.natCast_nonneg p)),
      fun _ hr => by cases hr⟩

/-- A file that was replaced starts the stream over; any other changes nothing that it relies
on. -/
theorem sound_sawFile (h : s.Sound sha256 n log seen) (nowMs size : ℤ) (ino : ℕ) :
    (s.sawFile nowMs size ino).1.Sound sha256 n log seen ∧
      ((s.sawFile nowMs size ino).1.phase = .stream → s.phase = .stream ∧
        (s.sawFile nowMs size ino).1.sent = s.sent) ∧
      (0 ≤ (s.sawFile nowMs size ino).1.finalSize → ¬Replaced size ino s ∧ 0 ≤ s.finalSize) := by
  rw [Stream.sawFile]
  dsimp only
  generalize hbase :
    (if (s.inode ≠ 0 ∧ ino ≠ s.inode) ∨ size < s.lastSize ∨ (s.finalSize < 0 ∧ size < s.sent)
    then { s.startOver with finalSize := -1, sha256 := [] } else s) = base
  have hsound :
      base.Sound sha256 n log seen ∧
      (base.phase = .stream → s.phase = .stream ∧ base.sent = s.sent) ∧
      (0 ≤ base.finalSize → ¬Replaced size ino s ∧ 0 ≤ s.finalSize) := by
    rw [← hbase]
    split_ifs with hreplaced
    · refine ⟨h.startOver fun hfalse => absurd hfalse (by decide), fun hfalse => (by cases hfalse),
        fun hfalse => ?_⟩
      have hneg : (0 : ℤ) ≤ -1 := hfalse
      exact absurd hneg (by decide)
    · exact ⟨h, fun hp => ⟨hp, rfl⟩, fun hfinal => ⟨hreplaced, hfinal⟩⟩
  obtain ⟨hsound, hphase, hfinal⟩ := hsound
  split_ifs
  · exact ⟨hsound.frame rfl rfl rfl rfl rfl rfl id, hphase, hfinal⟩
  · exact ⟨hsound.frame rfl rfl rfl rfl rfl rfl id, hphase, hfinal⟩

theorem leaves_workOn {ino : ℕ} (hn : 0 < n) (hover : s.isOver = false)
    (h : s.Sound sha256 n log seen) (hcovers : s.phase = .stream → Covers recent reported s.sent)
    (hfinds : ¬Replaced size ino s → Finds n log w seen s)
    (hfresh : ∀ c, w.content = some c → NoCollision log n c) :
    Leaves sha256 n log recent reported (w.content.or seen)
      (s.workOn cfg sha256 nowMs size ino w) := by
  obtain ⟨hsaw, hphase, hfinal⟩ := sound_sawFile h nowMs size ino
  have hsawOver :=
    (keeps_sawFile (o := false) (fun hfalse => by cases hfalse) hover nowMs size ino).2
  have hrestarted : ∀ a ∈ (s.sawFile nowMs size ino).2, a = .restart := by
    rw [Stream.sawFile]
    dsimp only
    split_ifs
    all_goals simp
  rw [Stream.workOn]
  generalize s.sawFile nowMs size ino = r at hsaw hphase hfinal hsawOver hrestarted
  obtain ⟨s', restarted⟩ := r
  have hsilent : ∀ a ∈ restarted, a.isSilent := by
    intro a ha p
    rw [hrestarted a ha]
    rfl
  have hends : ∀ (id : Bytes) (size : ℤ) (sha : Bytes), .send (.demoEnd id size sha) ∉ restarted :=
    fun id size sha hmem => by cases hrestarted _ hmem
  dsimp only at hsaw hphase hfinal hsawOver ⊢
  split_ifs with hlarge
  · exact .over rfl (by simp) hends
  · have hstale : (s'.checkStale cfg nowMs).isOver = false ∧
        (s'.checkStale cfg nowMs).Sound sha256 n log seen ∧
        ((s'.checkStale cfg nowMs).phase = .stream →
          Covers recent reported (s'.checkStale cfg nowMs).sent) ∧
        Finds n log w seen (s'.checkStale cfg nowMs) := by
      have hcovers' : s'.phase = .stream → Covers recent reported s'.sent := by
        intro hp
        obtain ⟨hps, hsent⟩ := hphase hp
        rw [hsent]
        exact hcovers hps
      have hfinds' : Finds n log w seen s' := by
        intro c hc
        refine ⟨hfresh c hc, fun hfinal0 => ?_⟩
        obtain ⟨hsame, hsfinal⟩ := hfinal hfinal0
        exact (hfinds hsame c hc).2 hsfinal
      rw [Stream.checkStale]
      split_ifs
      · exact ⟨hsawOver, hsaw.frame rfl rfl rfl rfl rfl rfl id, hcovers', hfinds'⟩
      · exact ⟨hsawOver, hsaw, hcovers', hfinds'⟩
    obtain ⟨hover', hsound', hcovers', hfinds'⟩ := hstale
    refine Leaves.after (leaves_talk hn hover' (hsound'.append_silent hsilent) ?_ ?_) hends
    · exact fun hp p hlow hhigh => isSome_copy_append (hcovers' hp p hlow hhigh) _
    · exact fun c hc => ⟨(hfinds' c hc).1.append hrestarted, (hfinds' c hc).2⟩

end Work

section Ack

variable {cfg : Config} {sha256 : Bytes → Bytes} {n : ℕ} {log : List Action} {seen : Option Bytes}
    {s : Stream} {a : Ack}

/-- The ack sets the cursor to its offset. -/
def Ack.Moves (a : Ack) (s : Stream) : Prop :=
  0 ≤ a.offset ∧ (a.error = some (ascii "gap") ∨
    a.error = none ∧ (s.phase = .announce ∨ a.offset < s.acked ∨ s.sent < a.offset))

/-- The cursor may stand at the offset: while the file grows, where a chunk starts; behind what
has still to be sent of the final file, nowhere. -/
structure Allows (log : List Action) (seen : Option Bytes) (s : Stream) (offset : ℤ) : Prop where
  aligned : s.finalSize < 0 → (s.chunk : ℤ) ∣ offset
  resent : 0 ≤ s.finalSize → ∀ file, seen = some file → ∀ (p : ℕ) b, s.sent ≤ p → (p : ℤ) < offset →
    copy log p = some b → p < file.length → file[p]? = some b

theorem Stream.Sound.moved (h : s.Sound sha256 n log seen) {offset : ℤ} (hoffset : 0 ≤ offset)
    (hallows : Allows log seen s offset) : Sound sha256 n log seen { s with sent := offset } where
  chunk := h.chunk
  sent := hoffset
  noted := h.noted
  aligned hneg _ := hallows.aligned hneg
  final hfinal := by
    obtain ⟨file, hseen, hsize, hdigest, hpending, hinside⟩ := h.final hfinal
    refine ⟨file, hseen, hsize, hdigest, fun p b hb hp => ?_, hinside⟩
    rcases hpending p b hb hp with hsame | hsent | hmem
    · exact .inl hsame
    · rcases lt_or_ge (p : ℤ) offset with hlt | hge
      · exact .inl (hallows.resent hfinal file hseen p b hsent hlt hb hp)
      · exact .inr (.inl hge)
    · exact .inr (.inr hmem)

theorem sound_onError (h : s.Sound sha256 n log seen) {code : Bytes} (nowMs offset : ℤ)
    (hallows : code = ascii "gap" → 0 ≤ offset → Allows log seen s offset) :
    (s.onError cfg nowMs offset code).1.isOver = false →
      (s.onError cfg nowMs offset code).1.Sound sha256 n
        (log ++ (s.onError cfg nowMs offset code).2) seen := by
  rw [Stream.onError]
  dsimp only
  split_ifs with hgap _ _ _ _
  · intro _
    rw [List.append_nil]
    exact (h.moved hgap.2 (hallows hgap.1 hgap.2)).frame rfl rfl rfl rfl rfl rfl id
  · exact fun hfalse => by cases hfalse
  · intro _
    have hsilent : ∀ a ∈ [Action.restart], a.isSilent := by
      intro a ha p
      rw [List.mem_singleton.mp ha]
      rfl
    exact ((h.startOver fun _ => ⟨rfl, rfl⟩).append_silent hsilent).frame rfl rfl rfl rfl rfl rfl id
  · exact fun hfalse => by cases hfalse
  · intro _
    rw [List.append_nil]
    exact h.frame rfl rfl rfl rfl rfl rfl fun hfalse => by cases hfalse
  · intro _
    rw [List.append_nil]
    exact h.frame rfl rfl rfl rfl rfl rfl fun hfalse => by cases hfalse

theorem sound_onOffset (h : s.Sound sha256 n log seen) (session : ℕ) (nowMs : ℤ)
    {offset : ℤ} (hoffset : 0 ≤ offset)
    (hallows : s.phase = .announce ∨ offset < s.acked ∨ s.sent < offset →
      Allows log seen s offset) :
    (s.onOffset session nowMs offset).Sound sha256 n log seen := by
  rw [Stream.onOffset]
  dsimp only
  by_cases hannounce : s.phase = .announce
  · rw [if_pos hannounce]
    obtain ⟨hchunk, hsent, hnoted, -, hfinal⟩ := h.moved hoffset (hallows (.inl hannounce))
    exact ⟨hchunk, hsent, hnoted, fun hneg _ => (hallows (.inl hannounce)).aligned hneg,
      fun hfinal0 =>
      let ⟨file, hseen, hfile⟩ := hfinal hfinal0
      ⟨file, hseen, hfile.size, hfile.digest, hfile.pending, hfile.inside⟩⟩
  · rw [if_neg hannounce]
    by_cases hmoves : offset < s.acked ∨ s.sent < offset
    · have hcursor : max (if offset < s.acked then offset else s.sent) offset = offset := by
        split_ifs
        · exact max_self _
        · omega
      rw [hcursor]
      exact (h.moved hoffset (hallows (.inr hmoves))).frame rfl rfl rfl rfl rfl rfl id
    · have hcursor : max (if offset < s.acked then offset else s.sent) offset = s.sent := by
        rw [if_neg fun hlt => hmoves (.inl hlt)]
        omega
      rw [hcursor]
      exact h.frame rfl rfl rfl rfl rfl rfl id

theorem sound_onAck (h : s.Sound sha256 n log seen) (hover : s.isOver = false)
    (session : ℕ) (nowMs : ℤ) (hallows : a.Moves s → Allows log seen s a.offset) :
    (s.onAck cfg session nowMs a).1.isOver = false →
      (s.onAck cfg session nowMs a).1.Sound sha256 n
        (log ++ (s.onAck cfg session nowMs a).2) seen := by
  rw [Stream.onAck, if_neg (by simp [hover])]
  cases herror : a.error with
  | some code =>
    refine sound_onError h nowMs a.offset fun hcode hoffset => hallows ⟨hoffset, .inl ?_⟩
    rw [herror, hcode]
  | none =>
    dsimp only
    split_ifs with hneg
    · intro _
      rw [List.append_nil]
      exact h
    · have hoffset := not_lt.mp hneg
      have hsound := sound_onOffset h session nowMs hoffset fun hmoves =>
        hallows ⟨hoffset, .inr ⟨herror, hmoves⟩⟩
      rw [List.append_nil, Stream.onComplete]
      split_ifs
      · exact fun hfalse => by cases hfalse
      · exact fun _ => hsound

theorem phase_onAck (cfg : Config) (session : ℕ) (nowMs : ℤ) (a : Ack)
    (hannounce : s.phase ≠ .announce)
    (h : (s.onAck cfg session nowMs a).1.phase = .stream) : s.phase = .stream := by
  by_cases hover : s.isOver = true
  · rw [Stream.onAck, if_pos hover] at h
    exact h
  · rcases phase_of_not_isOver (by simpa using hover) with hp | hp
    · exact absurd hp hannounce
    · exact hp

end Ack

section Life

variable {cfg : Config} {sha256 : Bytes → Bytes} {n : ℕ} {l : Life} {e : LifeEvent}

namespace Life

/-- The log since the platform last moved the cursor. -/
def recent (l : Life) : List Action := l.log.drop l.since

structure Healthy (sha256 : Bytes → Bytes) (n : ℕ) (l : Life) : Prop where
  sound : l.stream.isOver = false → l.stream.Sound sha256 n l.log l.seen
  since : l.since ≤ l.log.length
  covers : l.stream.phase = .stream → Covers l.recent l.reported l.stream.sent
  saved : ∀ s, l.saved = some s → s.isOver = false → s.chunk = n ∧ 0 ≤ s.sent

/-- What was saved still describes what was sent: before the final pass, no chunk of its table was
sent otherwise since; after it, the file is the same, and what differs of it is still to be sent. -/
structure UpToDate (sha256 : Bytes → Bytes) (l : Life) (s : Stream) : Prop where
  noted : s.finalSize < 0 → Noted l.log s
  final : 0 ≤ s.finalSize → ∃ file, l.seen = some file ∧ s.Final sha256 l.log file

/-- The events that the table of fingerprints is made for. -/
def Regular (sha256 : Bytes → Bytes) (l : Life) : LifeEvent → Prop
  | .ack _ _ a => l.stream.isOver = false → a.Moves l.stream → Allows l.log l.seen l.stream a.offset
  | .work _ w => l.stream.isOver = false → ∀ file, w.content = some file →
    NoCollision l.log l.stream.chunk file ∧ ∃ size ino, w.stat = some (size, ino) ∧
      (¬Replaced size ino l.stream → 0 ≤ l.stream.finalSize → l.seen = some file)
  | .reload _ => ∀ s, l.saved = some s → s.isOver = false → l.UpToDate sha256 s
  | _ => True

/-- When the end of the demo is sent, the platform has the file. -/
def Ends (cfg : Config) (sha256 : Bytes → Bytes) (l : Life) : LifeEvent → Prop
  | .work nowMs w => ∀ (id : Bytes) (size : ℤ) (sha : Bytes),
    .send (.demoEnd id size sha) ∈ (l.stream.work cfg sha256 nowMs w).2 →
      ∃ file, (l.step cfg sha256 (.work nowMs w)).seen = some file ∧ size = file.length ∧
      sha = sha256 file ∧
        Delivered (l.log ++ (l.stream.work cfg sha256 nowMs w).2)
          (l.recent ++ (l.stream.work cfg sha256 nowMs w).2)
          l.reported file
  | _ => True

theorem healthy_ack (h : l.Healthy sha256 n) {session : ℕ} {nowMs : ℤ} {a : Ack}
    (he : l.Regular sha256 (.ack session nowMs a)) :
    (l.step cfg sha256 (.ack session nowMs a)).Healthy sha256 n := by
  have hsound : (l.stream.onAck cfg session nowMs a).1.isOver = false →
      (l.stream.onAck cfg session nowMs a).1.Sound sha256 n
        (l.log ++ (l.stream.onAck cfg session nowMs a).2) l.seen := by
    by_cases hover : l.stream.isOver = true
    · rw [Stream.onAck, if_pos hover]
      exact fun hfalse => absurd hover (by simpa using hfalse)
    · have hlive : l.stream.isOver = false := by simpa using hover
      exact sound_onAck (h.sound hlive) hlive session nowMs (he hlive)
  have hphase := fun hannounce : l.stream.phase ≠ .announce =>
    phase_onAck cfg session nowMs a hannounce
  rw [Life.step, Life.afterAck]
  generalize l.stream.onAck cfg session nowMs a = r at hsound hphase ⊢
  have hsince : l.since ≤ (l.log ++ r.2).length := by
    rw [List.length_append]
    exact h.since.trans (Nat.le_add_right _ _)
  dsimp only
  split_ifs with hmoved
  · exact ⟨hsound, le_rfl, fun _ p hlow hhigh => absurd hhigh (not_lt.mpr hlow), h.saved⟩
  · rw [not_or, not_not] at hmoved
    refine ⟨hsound, hsince, fun hp p hlow hhigh => ?_, h.saved⟩
    have hcovers := h.covers (hphase hmoved.1 hp) p hlow (hmoved.2 ▸ hhigh)
    have hrecent : (l.log ++ r.2).drop l.since = l.recent ++ r.2 :=
      List.drop_append_of_le_length h.since
    refine Eq.trans ?_ (isSome_copy_append hcovers r.2)
    rw [← hrecent]
    rfl

theorem leaves_work (h : l.Healthy sha256 n) (hn : 0 < n) (cfg : Config) {nowMs : ℤ} {w : World}
    (he : l.Regular sha256 (.work nowMs w)) :
    Leaves sha256 n l.log l.recent l.reported (w.content.or l.seen)
      (l.stream.work cfg sha256 nowMs w) := by
  by_cases hlive : l.stream.isOver = false
  · have hsound := h.sound hlive
    have hnotdone : l.stream.phase ≠ .done := by
      intro hdone
      rw [Stream.isOver] at hlive
      simp [hdone] at hlive
    rw [Stream.work, if_neg hnotdone, if_neg (by simp [hlive])]
    cases hstat : w.stat with
    | none =>
      have hcontent : w.content = none := by
        cases hcontent : w.content with
        | none => rfl
        | some c =>
          obtain ⟨-, size, ino, hsome, -⟩ := he hlive c hcontent
          rw [hstat] at hsome
          cases hsome
      dsimp only
      rw [hcontent, Option.none_or, Stream.missing]
      split_ifs
      · exact .over rfl (by simp) fun _ _ _ => List.not_mem_nil
      · exact .over rfl (by simp) fun _ _ _ => List.not_mem_nil
      · exact .idle (fun _ => hsound) h.covers
    | some st =>
      obtain ⟨size, ino⟩ := st
      have hfresh : ∀ c, w.content = some c → NoCollision l.log n c := by
        intro c hc
        have hcollision := (he hlive c hc).1
        rw [hsound.chunk] at hcollision
        exact hcollision
      refine leaves_workOn hn hlive hsound h.covers (fun hsame c hc => ⟨hfresh c hc, ?_⟩) hfresh
      obtain ⟨-, size', ino', hsome, hseen⟩ := he hlive c hc
      rw [hstat] at hsome
      cases hsome
      exact hseen hsame
  · have hover : l.stream.isOver = true := by simpa using hlive
    have hphase : l.stream.phase ≠ .stream := by
      intro hstream
      rw [Stream.isOver] at hover
      simp [hstream] at hover
    rw [Stream.work]
    by_cases hdone : l.stream.phase = .done
    · rw [if_pos hdone, Stream.cleanUp]
      split_ifs
      · refine .over hover hphase ?_
        rw [Stream.unlinked]
        split
        · exact fun _ _ _ => List.not_mem_nil
        · split_ifs
          · simp
          · exact fun _ _ _ => List.not_mem_nil
      · exact .over hover hphase fun _ _ _ => List.not_mem_nil
    · rw [if_neg hdone, if_pos hover]
      exact .over hover hphase fun _ _ _ => List.not_mem_nil

theorem healthy_work (h : l.Healthy sha256 n) (hn : 0 < n) {nowMs : ℤ} {w : World}
    (he : l.Regular sha256 (.work nowMs w)) :
    (l.step cfg sha256 (.work nowMs w)).Healthy sha256 n ∧ l.Ends cfg sha256 (.work nowMs w) := by
  have hleaves := leaves_work h hn cfg he
  have hrecent : (l.log ++ (l.stream.work cfg sha256 nowMs w).2).drop l.since =
      l.recent ++ (l.stream.work cfg sha256 nowMs w).2 := List.drop_append_of_le_length h.since
  refine ⟨⟨hleaves.sound, ?_, fun hphase => ?_, h.saved⟩, hleaves.ends⟩
  · exact h.since.trans
      (by rw [Life.step, Tracked.did, List.length_append]; exact Nat.le_add_right _ _)
  · have hcovers := hleaves.covers hphase
    rw [← hrecent] at hcovers
    exact hcovers

theorem healthy_reload (h : l.Healthy sha256 n) (hlow : 4 * 1024 ≤ n)
    (hhigh : n ≤ 512 * 1024) {nowMs : ℤ}
    (he : l.Regular sha256 (.reload nowMs)) :
    (l.step cfg sha256 (.reload nowMs)).Healthy sha256 n := by
  cases hsaved : l.saved with
  | none =>
    have hstep : l.step cfg sha256 (.reload nowMs) = l := by rw [Life.step, hsaved]
    rw [hstep]
    exact h
  | some s =>
    have hstep : l.step cfg sha256 (.reload nowMs) = { l with stream := s.reloaded nowMs } := by
      rw [Life.step, hsaved]
    rw [hstep]
    have hphase : (s.reloaded nowMs).phase ≠ .stream := by
      rw [Stream.reloaded]
      dsimp only
      split_ifs with hstream
      · simp
      · exact hstream
    refine ⟨fun hlive => ?_, h.since, fun hp => absurd hp hphase, h.saved⟩
    have hover : s.isOver = false := by
      have hreloaded : (s.reloaded nowMs).isOver = false := hlive
      cases hp : s.phase <;> simp_all [Stream.isOver, Stream.reloaded]
    obtain ⟨hchunk, hsent⟩ := h.saved s hsaved hover
    obtain ⟨hnoted, hfinal⟩ := he s hsaved hover
    have hsame : (s.reloaded nowMs).chunk = s.chunk := by
      rw [Stream.reloaded, hchunk]
      dsimp only
      omega
    refine ⟨hsame.trans hchunk, hsent, fun hneg => ?_, fun _ hp => absurd hp hphase,
      fun hfinal0 => ?_⟩
    · intro i hi
      rw [hsame]
      exact hnoted hneg i hi
    · obtain ⟨file, hseen, hsize, hdigest, hpending, hinside⟩ := hfinal hfinal0
      refine ⟨file, hseen, hsize, hdigest, ?_, hinside⟩
      rw [Pending, hsame]
      exact hpending

theorem healthy_step (h : l.Healthy sha256 n) (hlow : 4 * 1024 ≤ n) (hhigh : n ≤ 512 * 1024)
    (he : l.Regular sha256 e) : (l.step cfg sha256 e).Healthy sha256 n ∧ l.Ends cfg sha256 e := by
  cases e with
  | ack session nowMs a => exact ⟨healthy_ack h he, trivial⟩
  | work nowMs w => exact healthy_work h (by omega) he
  | stop nowMs =>
    rw [Life.step, Streams.stopped]
    split_ifs
    · exact ⟨⟨fun hlive => (h.sound hlive).frame rfl rfl rfl rfl rfl rfl id, h.since, h.covers,
        h.saved⟩, trivial⟩
    · exact ⟨⟨h.sound, h.since, h.covers, h.saved⟩, trivial⟩
  | replaced nowMs =>
    rw [Life.step, Streams.replaced]
    split_ifs
    · exact ⟨⟨fun hlive => (by cases hlive), h.since, fun hp => (by cases hp), h.saved⟩, trivial⟩
    · exact ⟨⟨h.sound, h.since, h.covers, h.saved⟩, trivial⟩
  | save =>
    refine ⟨⟨h.sound, h.since, h.covers, fun s hs hover => ?_⟩, trivial⟩
    cases hs
    exact ⟨(h.sound hover).chunk, (h.sound hover).sent⟩
  | reload nowMs => exact ⟨healthy_reload h hlow hhigh he, trivial⟩

theorem healthy_born {s : Stream} (h : s.Fresh cfg) : (born s).Healthy sha256 cfg.chunkBytes where
  sound _ := by
    have hneg : s.finalSize < 0 := by
      rw [h.finalSize]
      decide
    refine ⟨h.chunk, h.sent.ge, fun _ i hi => ?_, fun _ hp => ?_, fun hfinal =>
      absurd hneg (not_lt.mpr hfinal)⟩
    · have hnone : s.fps.getD i 0 = 0 := by
        rw [h.fps]
        rfl
      exact absurd hnone hi
    · have hannounce : (born s).stream.phase = .announce := h.phase
      rw [hannounce] at hp
      cases hp
  since := le_rfl
  covers hp := by
    have hannounce : (born s).stream.phase = .announce := h.phase
    rw [hannounce] at hp
    cases hp
  saved _ hs := by cases hs

theorem clamped_chunkBytes (cfg : Config) :
    4 * 1024 ≤ cfg.clamped.chunkBytes ∧ cfg.clamped.chunkBytes ≤ 512 * 1024 :=
  ⟨le_max_left _ _, max_le (by decide) (min_le_left _ _)⟩

theorem healthy_run {s : Stream} (h : s.Fresh cfg.clamped) {events : List LifeEvent}
    (hevents : Guarded (step cfg.clamped sha256) (Regular sha256) (born s) events) :
    ((born s).run cfg.clamped sha256 events).Healthy sha256 cfg.clamped.chunkBytes :=
  hevents.invariant (healthy_born h) fun _ _ hl he =>
    (healthy_step hl (clamped_chunkBytes cfg).1 (clamped_chunkBytes cfg).2 he).1

theorem Healthy.regular_reload (h : l.Healthy sha256 n) (nowMs : ℤ) :
    (l.step cfg sha256 .save).Regular sha256 (.reload nowMs) := by
  intro s hs hover
  cases hs
  exact ⟨(h.sound hover).noted, (h.sound hover).final⟩

/-- Where the cursor only moves to where it may stand, the final file stays as it is, and what was
saved still describes what was sent, the end of a demo is only sent when the platform has the
file. -/
theorem ends_delivered {s : Stream} (h : s.Fresh cfg.clamped) {events : List LifeEvent}
    (hevents : Guarded (step cfg.clamped sha256) (Regular sha256) (born s) events) :
    Guarded (step cfg.clamped sha256) (Ends cfg.clamped sha256) (born s) events :=
  hevents.imp (healthy_born h) fun _ _ hl he =>
    healthy_step hl (clamped_chunkBytes cfg).1 (clamped_chunkBytes cfg).2 he

/-- A tick that finds a file of equal bytes. -/
def equalBytes (size : ℕ) (fill : UInt8) (lane : List Bool) : World where
  stat := some (size, 7)
  content := some (List.replicate size fill)
  online := true
  session := 1
  send := true
  lane := lane

def offsetIs (offset : ℤ) : Ack := { demoId := ascii "d", offset, error := none, complete := false }

def smallCfg : Config := { settleMs := 0, chunkBytes := 4096 }

def smallStream : Stream where
  id := ascii "d"
  spec := Streams.sampleSpec
  file := ascii "a.dem"
  chunk := 4096

theorem fresh_smallStream : smallStream.Fresh smallCfg.clamped := ⟨rfl, rfl, rfl, rfl, by decide⟩

def Action.isEnd : Action → Bool
  | .send (.demoEnd _ _ _) => true
  | _ => false

def Action.sends (data : Bytes) : Action → Bool
  | .send (.demoChunk _ _ _ d) => d == data
  | _ => true

theorem Action.eq_of_sends {log : List Action} {sent data : Bytes}
    (h : log.all (Action.sends sent) = true) (hdata : WasSent log data) : data = sent := by
  obtain ⟨id, offset, size, hmem⟩ := hdata
  exact beq_iff_eq.mp (List.all_eq_true.mp h _ hmem)

/-- One chunk of equal bytes was sent, and the file is one of equal bytes. -/
theorem noCollision_replicate {log : List Action} {n : ℕ} {fill fill' : UInt8}
    (h : log.all (Action.sends (List.replicate n fill)) = true)
    (hfill : fill = fill' ∨ fnv1a64 (List.replicate n fill) ≠ fnv1a64 (List.replicate n fill')) :
    NoCollision log n (List.replicate n fill') := by
  intro data hdata i chunk hpiece hfnv
  obtain rfl := Action.eq_of_sends h hdata
  rw [piece, List.length_replicate] at hpiece
  split_ifs at hpiece with hi
  obtain rfl : i = 0 := by
    by_contra hne
    have hle := Nat.le_mul_of_pos_left n (Nat.pos_of_ne_zero hne)
    omega
  rw [Nat.zero_mul, List.drop_zero, List.take_of_length_le List.length_replicate.le] at hpiece
  obtain rfl := Option.some.inj hpiece
  rcases hfill with rfl | hne
  · rfl
  · exact absurd hfnv hne

/-- A tick before the final pass that finds a file of one chunk. -/
theorem regular_equalBytes {l : Life} {nowMs : ℤ} {fill : UInt8} {lane : List Bool}
    (hfinal : l.stream.finalSize = -1) (hchunk : l.stream.chunk = 4096)
    (h : NoCollision l.log 4096 (List.replicate 4096 fill)) :
    l.Regular (fun _ => []) (.work nowMs (equalBytes 4096 fill lane)) := by
  intro _ file hfile
  cases hfile
  rw [hchunk]
  refine ⟨h, 4096, 7, rfl, fun _ hfalse => ?_⟩
  rw [hfinal] at hfalse
  exact absurd hfalse (by decide)

/-- An ack before the final pass that moves the cursor to a chunk. -/
theorem regular_ack {l : Life} {session : ℕ} {nowMs : ℤ} {a : Ack}
    (hfinal : l.stream.finalSize = -1)
    (h : (l.stream.chunk : ℤ) ∣ a.offset) : l.Regular (fun _ => []) (.ack session nowMs a) := by
  refine fun _ _ => ⟨fun _ => h, fun hfalse => ?_⟩
  rw [hfinal] at hfalse
  exact absurd hfalse (by decide)

/-- A chunk goes out, and the platform takes back that it has it. -/
def takenBack : List LifeEvent :=
  [.work 1 (equalBytes 4096 65 []), .ack 1 1 (offsetIs 0), .work 2 (equalBytes 4096 65 [true]),
    .ack 1 3 (offsetIs 4096), .ack 1 4 (offsetIs 0)]

/-- After a reload it has the chunk after all, which is rewritten before the final pass. -/
def rewritten : List LifeEvent :=
  [.work 5 (equalBytes 4096 65 []), .ack 1 6 (offsetIs 4096), .stop 7,
    .work 8 (equalBytes 4096 66 [true, true])]

theorem regular_takenBack :
    Guarded (step smallCfg.clamped fun _ => []) (Regular fun _ => [])
      (born smallStream) takenBack := by
  refine ⟨regular_equalBytes (by decide +kernel) (by decide +kernel) ?_,
    regular_ack (by decide +kernel) (dvd_zero _),
    regular_equalBytes (by decide +kernel) (by decide +kernel) ?_,
    regular_ack (by decide +kernel) (by decide +kernel),
    regular_ack (by decide +kernel) (dvd_zero _), trivial⟩
  · exact @noCollision_replicate _ 4096 65 65 (by decide +kernel) (.inl rfl)
  · exact @noCollision_replicate _ 4096 65 65 (by decide +kernel) (.inl rfl)

/-- The end goes out, once the chunk was sent again as the file has it. -/
theorem ends_delivered_rewritten :
    Guarded (step smallCfg.clamped fun _ => []) (Regular fun _ => []) (born smallStream)
        (takenBack ++ [.save, .reload 4] ++ rewritten) ∧
      ((born smallStream).run smallCfg.clamped (fun _ => [])
        (takenBack ++ [.save, .reload 4] ++ rewritten)).log.any Action.isEnd = true ∧
      Guarded (step smallCfg.clamped fun _ => []) (Ends smallCfg.clamped fun _ => [])
        (born smallStream) (takenBack ++ [.save, .reload 4] ++ rewritten) := by
  have hregular :
      Guarded (step smallCfg.clamped fun _ => []) (Regular fun _ => []) (born smallStream)
      (takenBack ++ [.save, .reload 4] ++ rewritten) := by
    have hhealthy := healthy_run fresh_smallStream regular_takenBack
    rw [guarded_append, guarded_append]
    refine ⟨⟨regular_takenBack, trivial, hhealthy.regular_reload 4, trivial⟩, ?_⟩
    refine ⟨regular_equalBytes (by decide +kernel) (by decide +kernel) ?_,
      regular_ack (by decide +kernel) (by decide +kernel), trivial,
      regular_equalBytes (by decide +kernel) (by decide +kernel) ?_, trivial⟩
    · exact @noCollision_replicate _ 4096 65 65 (by decide +kernel) (.inl rfl)
    · exact @noCollision_replicate _ 4096 65 66 (by decide +kernel) (.inr (by decide +kernel))
  exact ⟨hregular, by decide +kernel, ends_delivered fresh_smallStream hregular⟩

/-- A chunk goes out and the platform loses it; the file is rewritten, and after the final pass the
platform has the chunk after all. -/
def lostAndFound : List LifeEvent :=
  [.work 1 (equalBytes 4096 65 []), .ack 1 1 (offsetIs 0), .work 2 (equalBytes 4096 65 [true]),
    .ack 1 3 { offsetIs 0 with error := some (ascii "gap") }, .stop 4,
    .work 10 (equalBytes 4096 66 []), .ack 1 11 (offsetIs 4096)]

theorem Ends.delivered {nowMs : ℤ} {w : World} (h : l.Ends cfg sha256 (.work nowMs w))
    (hend : (l.stream.work cfg sha256 nowMs w).2.any Action.isEnd = true) :
    ∃ file, w.content.or l.seen = some file ∧
      Delivered (l.log ++ (l.stream.work cfg sha256 nowMs w).2)
        (l.recent ++ (l.stream.work cfg sha256 nowMs w).2) l.reported file := by
  obtain ⟨a, ha, hend⟩ := List.any_eq_true.mp hend
  cases a with
  | send m =>
    cases m with
    | demoEnd id size sha =>
      obtain ⟨file, hseen, -, -, hdelivered⟩ := h id size sha ha
      exact ⟨file, hseen, hdelivered⟩
    | _ => cases hend
  | _ => cases hend

/-- The end of the demo is sent, and the platform has the chunk as it was before. -/
theorem stale_chunk_delivered : smallStream.Fresh smallCfg.clamped ∧
    ¬Guarded (step smallCfg.clamped fun _ => []) (Ends smallCfg.clamped fun _ => [])
      (born smallStream) (lostAndFound ++ [.work 12 (equalBytes 4096 66 [true])]) := by
  refine ⟨fresh_smallStream, fun h => ?_⟩
  have hends :
      Ends smallCfg.clamped (fun _ => [])
        ((born smallStream).run smallCfg.clamped (fun _ => []) lostAndFound)
      (.work 12 (equalBytes 4096 66 [true])) := (guarded_append.mp h).2.1
  obtain ⟨file, hseen, hdelivered⟩ := hends.delivered (by decide +kernel)
  have hcopy : copy (((born smallStream).run smallCfg.clamped (fun _ => []) lostAndFound).log ++
      (((born smallStream).run smallCfg.clamped (fun _ => []) lostAndFound).stream.work
        smallCfg.clamped (fun _ => []) 12 (equalBytes 4096 66 [true])).2) 0 =
        some 65 := by decide +kernel
  rw [equalBytes, Option.some_or, Option.some.injEq] at hseen
  subst hseen
  have hlength : 0 < (List.replicate 4096 (66 : UInt8)).length := by
    rw [List.length_replicate]
    decide
  have hsame := hdelivered.same 0 65 hcopy hlength
  rw [List.getElem?_replicate, if_pos (by decide)] at hsame
  cases hsame

end Life

end Life

end ReadyUp.Fleet.Demo
