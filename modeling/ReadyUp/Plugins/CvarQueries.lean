import ReadyUp.Plugins.HostQueues

/-!
# Queries for cvars

A plugin asks for the value of a cvar and is called back. The query is stored before its command
goes to the engine, because the answer can be printed meanwhile; it is taken back if the engine
has no command buffer. It leaves the store when it is answered, when its time is over or with its
owner.

`Once` is the invariant: the queries that were called, those on their way in a frame and those
that are stored are all different, and none of them was refused.
-/
namespace ReadyUp.Plugins

open Support

section Projection

/-- The queries that a frame is about to answer. -/
def answersIn (w : List Work) : List CvarQuery :=
  w.filterMap fun
    | .answer q => some q
    | _ => none

def calledIn (c : List Call) : List CvarQuery :=
  c.filterMap fun
    | .cvar q => some q
    | _ => none

@[simp] theorem answersIn_nil : answersIn [] = [] := rfl

@[simp] theorem answersIn_append (w w' : List Work) :
    answersIn (w ++ w') = answersIn w ++ answersIn w' :=
  List.filterMap_append

@[simp] theorem answersIn_map {α : Type} (f : α → Work) (l : List α) (h : ∀ a q, f a ≠ .answer q) :
    answersIn (l.map f) = [] := by
  rw [answersIn, List.filterMap_map, List.filterMap_eq_nil_iff]
  intro a _
  dsimp only [Function.comp]
  split
  · rename_i q hq
    exact absurd hq (h a q)
  · rfl

theorem answersIn_answer (l : List CvarQuery) : answersIn (l.map .answer) = l := by
  rw [answersIn, List.filterMap_map]
  exact List.filterMap_some

@[simp] theorem calledIn_append (c c' : List Call) :
    calledIn (c ++ c') = calledIn c ++ calledIn c' :=
  List.filterMap_append

theorem calledIn_eq_nil {c : List Call} (h : ∀ a ∈ c, ∀ q, a ≠ .cvar q) : calledIn c = [] := by
  rw [calledIn, List.filterMap_eq_nil_iff]
  intro a ha
  split
  · rename_i q
    exact absurd rfl (h _ ha q)
  · rfl

/-- What the host knows about queries. -/
structure Queries where
  stored : List CvarQuery
  pending : ℤ
  asking : Option Asking
  nextSerial : ℕ
  returned : List (ℕ × Bool)
  inFrame : List CvarQuery
  called : List CvarQuery

def Host.queries (s : Host) : Queries where
  stored := s.cvarQueries
  pending := s.cvarPending
  asking := s.asking
  nextSerial := s.nextSerial
  returned := s.returned
  inFrame := answersIn s.work
  called := calledIn s.calls

end Projection

namespace Host

section Step

variable {s : Host}

theorem apply_queries (s : Host) (owner : ℕ) (call : Api) :
    (s.apply owner call).queries = s.queries ∨
    ∃ name fn user now, call = .cvarQuery name fn user now := by
  have hadd : ∀ {p : Prop} [Decidable p] (kind : RegKind) (name : Bytes) (type : ℕ) (fn user : Ptr)
      (flags : CmdFlags),
      (if p then s.addReg owner kind name type fn user flags else (s, 0)).1.queries =
        s.queries := by
    intro p _ kind name type fn user flags
    split_ifs
    · rw [addReg]
      split_ifs <;> rfl
    · rfl
  cases call with
  | registerChat name flags fn user => exact .inl (hadd ..)
  | registerConsole name flags fn user => exact .inl (hadd ..)
  | registerRuSub name fn user => exact .inl (hadd ..)
  | filterClientCommand name fn user => exact .inl (hadd ..)
  | onTick fn user => exact .inl (hadd ..)
  | onFrame fn user => exact .inl (hadd ..)
  | subscribe type fn user => exact .inl (hadd ..)
  | subscribeGameEvent name fn user =>
    refine .inl ?_
    rw [apply, subscribeGameEvent]
    split_ifs <;> rfl
  | subscribeLogLine fn user =>
    refine .inl ?_
    rw [apply, subscribeLogLine]
    split_ifs <;> rfl
  | unregister handle =>
    refine .inl ?_
    rw [apply, unregister]
    split_ifs <;> rfl
  | provideInterface name version ptr =>
    refine .inl ?_
    rw [apply, provideInterface]
    split_ifs <;> rfl
  | setChatNamePrefix steamid64 pre =>
    refine .inl ?_
    rw [apply, setChatNamePrefix]
    split_ifs <;> rfl
  | setAdminProvider fn user => exact .inl rfl
  | cvarQuery name fn user now => exact .inr ⟨name, fn, user, now, rfl⟩

theorem Queues.queries {t : Host} (h : Queues s t) : t.queries = s.queries := by
  obtain ⟨l, rfl, -⟩ := h
  rfl

theorem queries_calls (s : Host) {l : List Call} (h : ∀ c ∈ l, ∀ q, c ≠ .cvar q) :
    { s with calls := s.calls ++ l }.queries = s.queries := by
  simp only [queries, calledIn_append, calledIn_eq_nil h, List.append_nil]

theorem callReg_queries (s : Host) (id : ℕ) (arg : Arg) :
    (s.callReg id arg).queries = s.queries := by
  obtain ⟨l, h, hl⟩ := callReg_eq s id arg
  rw [h]
  apply queries_calls
  intro c hc q
  obtain ⟨r, -, -, -, rfl⟩ := hl c hc
  exact nofun

theorem note_queries (s : Host) {c : Call} (h : ∀ q, c ≠ .cvar q) :
    (s.note c).queries = s.queries := by
  apply queries_calls
  rw [List.forall_mem_singleton]
  exact h

theorem queries_work (s : Host) {w : List Work} (h : answersIn w = []) :
    { s with work := w ++ s.work }.queries = s.queries := by
  simp only [queries, answersIn_append, h, List.nil_append]

theorem runOp_queries (s : Host) (o : PendingOp) (env : Env) :
    (s.runOp o env).queries = s.queries := by
  have hone :
      ∀ w : Work, (∀ q, w ≠ .answer q) → { s with work := w :: s.work }.queries = s.queries := by
    intro w hw
    exact queries_work s (w := [w]) (answersIn_map (fun _ : Unit => w) [()] fun _ => hw)
  rw [runOp]
  split
  · exact hone _ nofun
  · exact hone _ nofun
  · apply queries_work
    split_ifs <;> rfl
  · split_ifs
    · exact hone _ nofun
    · rfl
  · split_ifs
    · exact hone _ nofun
    · rfl

/-- What is left to do in a frame touches the queries in two places. -/
theorem doWork_queries (s : Host) (env : Env) (w : Work) : (s.doWork env w).queries = s.queries ∨
    (w = .cvars ∧ (s.doWork env w).queries = (s.takeReady env.now).queries) ∨
      ∃ q, w = .answer q ∧ ((s.doWork env w).queries = s.queries ∨
        (s.live q.owner).isSome = true ∧
        (s.doWork env w).queries = (s.note (.cvar q)).queries) := by
  cases w with
  | load name =>
    refine .inl ?_
    rw [doWork, loadNow]
    split_ifs
    · exact queries_calls { s with nextId := _, loaded := _, running := _ } (by simp)
    · rfl
  | unload name =>
    refine .inl ?_
    rw [doWork, unloadNow]
    split
    · rfl
    · exact queries_calls { s with loaded := _, running := _ } (by simp)
  | ops => exact .inl (queries_work { s with ops := [] } (answersIn_map _ _ fun _ _ => nofun))
  | op o => exact .inl (runOp_queries s o env)
  | queues =>
    refine .inl (queries_work { s with tasks := [], cmds := [], events := [] } ?_)
    simp
  | task t =>
    refine .inl ?_
    rw [doWork]
    split_ifs
    · exact note_queries s (by simp)
    · rfl
  | event e => exact .inl (queries_work s (answersIn_map _ _ fun _ _ => nofun))
  | reg id arg => exact .inl (callReg_queries s _ _)
  | logLines =>
    refine .inl ?_
    rw [doWork]
    split_ifs
    · refine queries_work { s with logLines := [] } ?_
      rw [answersIn, List.filterMap_eq_nil_iff]
      intro w hw
      obtain ⟨l, -, hw⟩ := List.mem_flatMap.mp hw
      obtain ⟨id, -, rfl⟩ := List.mem_map.mp hw
      rfl
    · rfl
  | cvars => exact .inr (.inl ⟨rfl, rfl⟩)
  | answer q =>
    refine .inr (.inr ⟨q, rfl, ?_⟩)
    rw [doWork]
    split_ifs with hlive
    · exact .inr ⟨hlive, rfl⟩
    · exact .inl rfl
  | ticks kind simulating => exact .inl (queries_work s (answersIn_map _ _ fun _ _ => nofun))

theorem doNested_queries (s : Host) (env : Env) (n : Nested) :
    (s.doNested env n).queries = s.queries := by
  rw [doNested.eq_def]
  split
  · rfl
  · rename_i h hs
    have hnote : (s.note (.filter h)).queries = s.queries := note_queries s (by simp)
    dsimp only
    split_ifs
    · exact hnote
    · exact hnote
  · rfl
  · exact callReg_queries _ _ _

/-- What a step can do to the queries. -/
inductive Moves (s : Host) (e : Event) : Prop
  | same (h : (s.step e).queries = s.queries)
  | ask (owner : ℕ) (name : Bytes) (fn user : Ptr) (now : ℕ) (hasking : s.asking = none)
      (h : (s.step e).queries = (s.cvarQuery owner name fn user now).queries)
  | enqueued (ok : Bool) (he : e = .enqueued ok) (h : (s.step e).queries = (s.enqueued ok).queries)
  | line (l : Bytes) (h : (s.step e).queries = (s.matchCvarLine l).queries)
  | drop (id : ℕ) (hasking : s.asking = none) (h : (s.step e).queries = (s.dropOwned id).queries)
  | ready (w : List Work) (now : ℕ) (hasking : s.asking = none) (hw : s.work = .cvars :: w)
      (h : (s.step e).queries = ({ s with work := w }.takeReady now).queries)
  | skip (q : CvarQuery) (w : List Work) (hasking : s.asking = none) (hw : s.work = .answer q :: w)
      (h : (s.step e).queries = { s with work := w }.queries)
  | answer (q : CvarQuery) (w : List Work) (hasking : s.asking = none)
      (hlive : (s.live q.owner).isSome = true) (hw : s.work = .answer q :: w)
      (h : (s.step e).queries = ({ s with work := w }.note (.cvar q)).queries)
  | quit (h : (s.step e).queries = s.quit.queries)

theorem queries_tail {w : Work} {rest : List Work} (hw : s.work = w :: rest)
    (h : ∀ q, w ≠ .answer q) : { s with work := rest }.queries = s.queries := by
  have htail : answersIn s.work = answersIn rest := by
    have hone : answersIn [w] = [] := answersIn_map (fun _ : Unit => w) [()] fun _ => h
    rw [hw, ← List.singleton_append, answersIn_append, hone, List.nil_append]
  simp only [queries, htail]

theorem gameStep_moves {env : Env} (hasking : s.asking = none) : Moves s (.game env) := by
  have hstep : s.step (.game env) = s.gameStep env := by
    rw [step, onGameThread, hasking]
    rfl
  rw [gameStep.eq_def] at hstep
  split at hstep
  · exact .same ((congrArg queries hstep).trans (doNested_queries _ _ _))
  · rename_i name id _ _
    split_ifs at hstep
    · exact .same ((congrArg queries hstep).trans rfl)
    · exact .drop id hasking ((congrArg queries hstep).trans rfl)
  · rename_i name id _ _
    exact .drop id hasking ((congrArg queries hstep).trans rfl)
  · rename_i w rest _ _ hw
    have h := congrArg queries hstep
    rcases doWork_queries { s with work := rest } env w with
      hsame | ⟨rfl, hready⟩ | ⟨q, rfl, hsame | ⟨hlive, hnote⟩⟩
    · by_cases hanswer : ∃ q, w = .answer q
      · obtain ⟨q, rfl⟩ := hanswer
        exact .skip q rest hasking hw (h.trans hsame)
      · exact .same (h.trans (hsame.trans (queries_tail hw fun q hq => hanswer ⟨q, hq⟩)))
    · exact .ready rest env.now hasking hw (h.trans hready)
    · exact .skip q rest hasking hw (h.trans hsame)
    · exact .answer q rest hasking hlive hw (h.trans hnote)
  · exact .same (congrArg queries hstep)

theorem answersIn_frameWork (initialized simulating : Bool) (files : List Bytes) :
    answersIn (frameWork initialized simulating files) = [] := by
  have hfiles : answersIn (files.map .load) = [] := answersIn_map _ _ fun _ _ => nofun
  rw [frameWork, answersIn_append, answersIn_append, answersIn_append]
  cases initialized with
  | false =>
    simp only [Bool.false_eq_true, if_false, hfiles]
    cases simulating <;> rfl
  | true => cases simulating <;> rfl

theorem step_moves (s : Host) (e : Event) : Moves s e := by
  cases e with
  | api self call =>
    cases hasking : s.asking with
    | some a =>
      refine .same ?_
      rw [step, onGameThread, hasking]
      rfl
    | none =>
      have hstep :
          s.step (.api self call) = if (s.findById self).isSome then s.apply self call else s := by
        rw [step, onGameThread, hasking]
        rfl
      split_ifs at hstep
      · rcases apply_queries s self call with h | ⟨name, fn, user, now, rfl⟩
        · exact .same ((congrArg queries hstep).trans h)
        · exact .ask self name fn user now hasking (congrArg queries hstep)
      · exact .same (congrArg queries hstep)
  | enqueued ok => exact .enqueued ok rfl rfl
  | postToGameThread self fn user =>
    refine .same ?_
    rw [step, postToGameThread]
    split_ifs <;> rfl
  | postEvent e =>
    obtain ⟨map, events, h⟩ := postEvent_eq s e
    exact .same ((congrArg queries h).trans rfl)
  | postLogLine line =>
    obtain ⟨lines, h | h⟩ := postLogLine_eq s line
    · exact .same ((congrArg queries h).trans rfl)
    · exact .line line ((congrArg queries h).trans rfl)
  | dispatchChat steamid64 playerName text slot =>
    exact .same (tryDispatchChat_queues s _ _ _ _).queries
  | dispatchRu console steamid64 playerName text slot =>
    exact .same (tryDispatchRu_queues s _ _ _ _ _).queries
  | dispatchConsole line => exact .same (tryDispatchConsole_queues s line).queries
  | observeConsole line => exact .same (observeConsole_queues s line).queries
  | pluginCommand verb name =>
    refine .same ?_
    rw [step]
    split_ifs <;> rfl
  | adminVerdict steamid64 answer =>
    refine .same (queries_calls s ?_)
    intro c hc q
    obtain ⟨p, -, rfl⟩ := List.mem_map.mp hc
    exact nofun
  | runPluginSelftests =>
    refine .same (queries_calls s ?_)
    intro c hc q
    obtain ⟨i, -, rfl⟩ := List.mem_map.mp hc
    exact nofun
  | callInterface name minVersion =>
    refine .same ?_
    rw [step, onGameThread, callInterface]
    split_ifs
    · rfl
    · split
      · rfl
      · split_ifs
        · exact note_queries s (by simp)
        · rfl
  | filterCommand argv =>
    refine .same ?_
    rw [step, onGameThread, filterCommand.eq_def]
    split_ifs
    · rfl
    · split <;> rfl
  | gameEvent name =>
    refine .same ?_
    rw [step, onGameThread, dispatchGameEvent]
    split_ifs <;> rfl
  | frame simulating files =>
    refine .same ?_
    rw [step, onGameThread, frame]
    split_ifs with _ hidle
    · rfl
    · simp only [queries, hidle.2.2, answersIn_frameWork, answersIn_nil]
    · rfl
  | game env =>
    cases hasking : s.asking with
    | some a =>
      refine .same ?_
      rw [step, onGameThread, hasking]
      rfl
    | none => exact gameStep_moves hasking
  | quit => exact .quit rfl

end Step

end Host

/-- The numbers of the queries that were called, are about to be called or are stored. -/
def Queries.serials (p : Queries) : List ℕ := (p.called ++ p.inFrame ++ p.stored).map (·.serial)

/-- The query that is asked is the last one stored. -/
def Queries.LastAsked (p : Queries) (a : Asking) : Prop :=
  ∃ l q, p.stored = l ++ [q] ∧ q.serial = a.serial ∧ q.owner = a.owner ∧ q.name = a.name ∧
  q.fn = a.fn ∧
    q.user = a.user

/-- The counter is right, no query is known twice, and none that was refused is known. -/
structure Queries.Once (p : Queries) : Prop where
  count : p.pending = Host.pending p.stored
  distinct : p.serials.Nodup
  below : ∀ n ∈ p.serials, n < p.nextSerial
  returned : ∀ n ok, (n, ok) ∈ p.returned → n < p.nextSerial
  refused : ∀ n, (n, false) ∈ p.returned → n ∉ p.serials
  asked : ∀ a, p.asking = some a → p.LastAsked a ∧ ∀ ok, (a.serial, ok) ∉ p.returned

namespace Host

section Once

variable {s : Host}

theorem once_of_subperm {p p' : Queries} (h : p.Once) (hserials : List.Subperm p'.serials p.serials)
    (hcount : p'.pending = pending p'.stored) (hnext : p'.nextSerial = p.nextSerial)
    (hreturned : p'.returned = p.returned) (hasking : p'.asking = none) : p'.Once where
  count := hcount
  distinct := by
    obtain ⟨l, hperm, hsub⟩ := hserials
    exact hperm.nodup_iff.mp (h.distinct.sublist hsub)
  below n hn := by
    rw [hnext]
    exact h.below n (hserials.subset hn)
  returned n ok hm := by
    rw [hreturned] at hm
    rw [hnext]
    exact h.returned n ok hm
  refused n hm hn := by
    rw [hreturned] at hm
    exact h.refused n hm (hserials.subset hn)
  asked a ha := by
    rw [hasking] at ha
    cases ha

theorem once_of_new {p p' : Queries} (h : p.Once)
    (hserials : p'.serials = p.serials ++ [p.nextSerial])
    (hcount : p'.pending = pending p'.stored) (hnext : p'.nextSerial = p.nextSerial + 1)
    (hreturned : p'.returned = p.returned)
    (hasked : ∀ a, p'.asking = some a → p'.LastAsked a ∧ a.serial = p.nextSerial) : p'.Once := by
  have hmem : ∀ n, n ∈ p'.serials ↔ n ∈ p.serials ∨ n = p.nextSerial := by
    intro n
    rw [hserials, List.mem_append, List.mem_singleton]
  refine ⟨hcount, ?_, ?_, ?_, ?_, ?_⟩
  · rw [hserials, List.nodup_append]
    refine ⟨h.distinct, List.nodup_singleton _, ?_⟩
    intro n hn m hm hnm
    rw [List.mem_singleton] at hm
    exact lt_irrefl _ (h.below m (hnm ▸ hn) |>.trans_eq hm.symm)
  · intro n hn
    rw [hnext]
    rcases (hmem n).mp hn with hn | rfl
    · exact Nat.lt_succ_of_lt (h.below n hn)
    · exact Nat.lt_succ_self _
  · intro n ok hm
    rw [hreturned] at hm
    rw [hnext]
    exact Nat.lt_succ_of_lt (h.returned n ok hm)
  · intro n hm hn
    rw [hreturned] at hm
    rcases (hmem n).mp hn with hn | rfl
    · exact h.refused n hm hn
    · exact lt_irrefl _ (h.returned _ _ hm)
  · intro a ha
    obtain ⟨hlast, hserial⟩ := hasked a ha
    refine ⟨hlast, fun ok hm => ?_⟩
    rw [hreturned, hserial] at hm
    exact lt_irrefl _ (h.returned _ _ hm)

theorem once_ask (h : s.queries.Once) (owner : ℕ) (name : Bytes) (fn user : Ptr) (now : ℕ) :
    (s.cvarQuery owner name fn user now).queries.Once := by
  rw [cvarQuery]
  split_ifs
  · have hcount : s.cvarPending = pending s.cvarQueries := h.count
    refine once_of_new h ?_ ?_ rfl rfl ?_
    · simp [Queries.serials, queries]
    · simp [queries, pending, hcount]
    · intro a ha
      cases ha
      exact ⟨⟨s.cvarQueries, _, rfl, rfl, rfl, rfl, rfl, rfl⟩, rfl⟩
  · exact h

theorem pending_append (l l' : List CvarQuery) : pending (l ++ l') = pending l + pending l' :=
  List.countP_append

theorem pending_cons (q : CvarQuery) (l : List CvarQuery) :
    pending (q :: l) = pending l + if q.answer.isNone then 1 else 0 := List.countP_cons

theorem pending_filter (p : CvarQuery → Bool) (l : List CvarQuery) :
    pending l = pending (l.filter p) + pending (l.filter (!p ·)) := by
  rw [← pending_append]
  exact (List.filter_append_perm p l).symm.countP_eq _

theorem pending_answered (line : Bytes) (l : List CvarQuery) :
    pending l = pending (l.map (answered line)) +
      l.countP fun q => q.answer.isNone && (parseCvarAnswer line q.name).isSome := by
  induction l with
  | nil => rfl
  | cons q l ih =>
    have hone :
        (if q.answer.isNone then 1 else 0) = (if (answered line q).answer.isNone then 1 else 0) +
        (if (q.answer.isNone && (parseCvarAnswer line q.name).isSome) then 1 else 0) := by
      rw [answered]
      cases hq : q.answer with
      | some a => simp [hq]
      | none => cases parseCvarAnswer line q.name <;> simp
    rw [pending_cons, ih, List.map_cons, pending_cons, List.countP_cons]
    omega

@[simp] theorem serial_answered (line : Bytes) (q : CvarQuery) :
    (answered line q).serial = q.serial := by
  rw [answered]
  split <;> rfl

theorem once_line (h : s.queries.Once) (line : Bytes) : (s.matchCvarLine line).queries.Once := by
  have hserials : (s.matchCvarLine line).queries.serials = s.queries.serials := by
    simp [Queries.serials, queries, matchCvarLine, Function.comp_def]
  have hcount : s.cvarPending = pending s.cvarQueries := h.count
  refine ⟨?_, hserials ▸ h.distinct, hserials ▸ h.below, h.returned, hserials ▸ h.refused, ?_⟩
  · have hsplit := pending_answered line s.cvarQueries
    dsimp only [queries, matchCvarLine]
    rw [hcount]
    omega
  · intro a ha
    obtain ⟨⟨l, q, hl, hserial, howner, hname, hfn, huser⟩, hreturned⟩ := h.asked a ha
    have hl : s.cvarQueries = l ++ [q] := hl
    refine ⟨⟨l.map (answered line), answered line q, ?_, ?_, ?_, ?_, ?_, ?_⟩, hreturned⟩
    · dsimp only [queries, matchCvarLine]
      rw [hl, List.map_append, List.map_singleton]
    · rw [serial_answered, hserial]
    all_goals
      rw [answered]
      split <;> assumption

theorem once_drop (h : s.queries.Once) (hasking : s.asking = none) (id : ℕ) :
    (s.dropOwned id).queries.Once := by
  have hcount : s.cvarPending = pending s.cvarQueries := h.count
  refine once_of_subperm h ?_ ?_ rfl rfl hasking
  · refine (List.Sublist.map _ (List.Sublist.append (List.Sublist.refl _) ?_)).subperm
    exact List.filter_sublist
  · have hsplit := pending_filter (·.owner = id) s.cvarQueries
    have hnot : s.cvarQueries.filter (fun q => !decide (q.owner = id)) =
        s.cvarQueries.filter (·.owner ≠ id) := by
      apply List.filter_congr
      intro q _
      simp
    rw [hnot] at hsplit
    dsimp only [queries, dropOwned]
    rw [hcount]
    omega

theorem once_ready {w : List Work} (h : s.queries.Once) (hasking : s.asking = none)
    (hw : s.work = .cvars :: w) (now : ℕ) : ({ s with work := w }.takeReady now).queries.Once := by
  have hcount : s.cvarPending = pending s.cvarQueries := h.count
  have hframe : answersIn s.work = answersIn w := by
    rw [hw]
    rfl
  refine once_of_subperm h (List.Perm.subperm ?_) ?_ rfl rfl hasking
  · apply List.Perm.map
    dsimp only [queries, takeReady]
    rw [answersIn_append, answersIn_answer, hframe, List.append_assoc, List.append_assoc,
      List.append_assoc]
    refine List.Perm.append_left _ ?_
    refine (List.perm_append_comm_assoc _ _ _).trans (List.Perm.append_left _ ?_)
    exact List.filter_append_perm _ _
  · have hsplit := pending_filter (isReady now) s.cvarQueries
    dsimp only [queries, takeReady]
    rw [hcount]
    omega

theorem once_skip {q : CvarQuery} {w : List Work} (h : s.queries.Once) (hasking : s.asking = none)
    (hw : s.work = .answer q :: w) : { s with work := w }.queries.Once := by
  have hframe : answersIn s.work = q :: answersIn w := by
    rw [hw]
    rfl
  refine once_of_subperm h ?_ h.count rfl rfl hasking
  refine (List.Sublist.map _ ?_).subperm
  dsimp only [queries]
  rw [hframe]
  refine List.Sublist.append (List.Sublist.append (List.Sublist.refl _) ?_) (List.Sublist.refl _)
  exact List.sublist_cons_self _ _

theorem once_answer {q : CvarQuery} {w : List Work} (h : s.queries.Once) (hasking : s.asking = none)
    (hw : s.work = .answer q :: w) : ({ s with work := w }.note (.cvar q)).queries.Once := by
  have hframe : answersIn s.work = q :: answersIn w := by
    rw [hw]
    rfl
  have hserials : ({ s with work := w }.note (.cvar q)).queries.serials = s.queries.serials := by
    simp [Queries.serials, queries, note, hframe, calledIn]
  exact once_of_subperm h (hserials ▸ List.Subperm.refl _) h.count rfl rfl hasking

theorem once_quit (h : s.queries.Once) : s.quit.queries.Once := by
  have hframe : answersIn s.quit.work = [] := answersIn_map _ _ fun _ _ => nofun
  refine once_of_subperm h ?_ h.count rfl rfl rfl
  refine (List.Sublist.map _ ?_).subperm
  dsimp only [queries]
  rw [hframe]
  refine List.Sublist.append (List.Sublist.append (List.Sublist.refl _) ?_) (List.Sublist.refl _)
  exact List.nil_sublist _

/-- No console line has answered a query whose command is refused. -/
def RefusedUnanswered (s : Host) (e : Event) : Prop :=
  e = .enqueued false → ∀ a ∈ s.asking, ∀ q ∈ s.cvarQueries, q.serial = a.serial → q.answer = none

theorem eraseLast_append {α : Type} {p : α → Bool} (l : List α) {a : α} (h : p a = true) :
    eraseLast p (l ++ [a]) = l := by
  rw [eraseLast, List.reverse_append, List.reverse_singleton, List.singleton_append,
    List.eraseP_cons_of_pos h, List.reverse_reverse]

theorem once_enqueued (h : s.queries.Once) (ok : Bool)
    (hunanswered : RefusedUnanswered s (.enqueued ok)) : (s.enqueued ok).queries.Once := by
  rw [enqueued]
  split
  · exact h
  · rename_i a ha
    obtain ⟨⟨l, q, hl, hserial, howner, hname, hfn, huser⟩, hreturned⟩ := h.asked a ha
    have hl : s.cvarQueries = l ++ [q] := hl
    have hcount : s.cvarPending = pending s.cvarQueries := h.count
    have hstored : q.serial ∈ s.queries.serials := List.mem_map.mpr ⟨q, by simp [queries, hl], rfl⟩
    have hbelow : ∀ n ok', (n, ok') ∈ s.returned ++ [(a.serial, ok)] → n < s.nextSerial := by
      intro n ok' hm
      rw [List.mem_append, List.mem_singleton] at hm
      rcases hm with hm | hm
      · exact h.returned n ok' hm
      · cases hm
        exact hserial ▸ h.below _ hstored
    cases ok with
    | true =>
      refine ⟨h.count, h.distinct, h.below, hbelow, ?_, nofun⟩
      intro n hm
      have hm : (n, false) ∈ s.returned ++ [(a.serial, true)] := hm
      have hold : (n, false) ∈ s.returned := by simpa using hm
      exact h.refused n hold
    | false =>
      have hanswer : q.answer = none := hunanswered rfl a ha q (by rw [hl]; simp) hserial
      have hfor :
          Asking.isFor a q = true := by simp [Asking.isFor, howner, hname, hfn, huser, hanswer]
      have hany : s.cvarQueries.any (Asking.isFor a) = true := by
        rw [hl, List.any_append, Bool.or_eq_true]
        exact .inr (by simp [hfor])
      have herase :
          eraseLast (Asking.isFor a) s.cvarQueries = l := by rw [hl, eraseLast_append l hfor]
      simp only [Bool.false_eq_true, if_false, hany, if_true, herase]
      have hsub :
          List.Sublist ((s.queries.called ++ s.queries.inFrame ++ l).map (·.serial))
            s.queries.serials := by
        refine List.Sublist.map _ (List.Sublist.append (List.Sublist.refl _) ?_)
        dsimp only [queries]
        rw [hl]
        exact List.sublist_append_left _ _
      refine ⟨?_, h.distinct.sublist hsub, fun n hn => h.below n (hsub.subset hn),
        hbelow, ?_, nofun⟩
      · have hone : pending [q] = 1 := by simp [pending, hanswer]
        dsimp only [queries]
        rw [hcount, hl, pending_append, hone]
        push_cast
        omega
      · intro n hm hn
        have hm : (n, false) ∈ s.returned ++ [(a.serial, false)] := hm
        rw [List.mem_append, List.mem_singleton] at hm
        rcases hm with hm | hm
        · exact h.refused n hm (hsub.subset hn)
        · cases hm
          have hnodup := h.distinct
          have hsplit : s.queries.serials =
              (s.queries.called ++ s.queries.inFrame ++ l).map (·.serial) ++ [q.serial] := by
            simp [Queries.serials, queries, hl]
          rw [hsplit, List.nodup_append] at hnodup
          exact hnodup.2.2 a.serial hn q.serial (List.mem_singleton_self _) hserial.symm

theorem step_once (h : s.queries.Once) {e : Event} (hunanswered : RefusedUnanswered s e) :
    (s.step e).queries.Once := by
  cases step_moves s e with
  | same heq => exact heq ▸ h
  | ask owner name fn user now _ heq => exact heq ▸ once_ask h owner name fn user now
  | enqueued ok he heq =>
    subst he
    exact heq ▸ once_enqueued h ok hunanswered
  | line l heq => exact heq ▸ once_line h l
  | drop id hasking heq => exact heq ▸ once_drop h hasking id
  | ready w now hasking hw heq => exact heq ▸ once_ready h hasking hw now
  | skip q w hasking hw heq => exact heq ▸ once_skip h hasking hw
  | answer q w hasking _ hw heq => exact heq ▸ once_answer h hasking hw
  | quit heq => exact heq ▸ once_quit h

/-- A step answers at most one query, and only while its owner is loaded and not being unloaded. -/
theorem step_called (s : Host) (e : Event) : calledIn (s.step e).calls = calledIn s.calls ∨
    ∃ q, (s.live q.owner).isSome = true ∧ calledIn (s.step e).calls = calledIn s.calls ++ [q] := by
  have hcalled : ∀ {t t' : Host}, t.queries = t'.queries → calledIn t.calls = calledIn t'.calls :=
    fun h => congrArg Queries.called h
  cases step_moves s e with
  | same heq => exact .inl (hcalled heq)
  | ask owner name fn user now _ heq =>
    refine .inl ((hcalled heq).trans ?_)
    rw [cvarQuery]
    split_ifs <;> rfl
  | enqueued ok _ heq =>
    refine .inl ((hcalled heq).trans ?_)
    rw [enqueued]
    split
    · rfl
    · split_ifs <;> rfl
  | line l heq => exact .inl ((hcalled heq).trans rfl)
  | drop id _ heq => exact .inl ((hcalled heq).trans rfl)
  | ready w now _ _ heq => exact .inl ((hcalled heq).trans rfl)
  | skip q w _ _ heq => exact .inl ((hcalled heq).trans rfl)
  | answer q w _ hlive _ heq => exact .inr ⟨q, hlive, (hcalled heq).trans (calledIn_append _ _)⟩
  | quit heq => exact .inl ((hcalled heq).trans rfl)

/-- In a run in which no console line answers a query before its command is refused: the counter is
the number of stored queries that wait, no query is answered twice or after it was refused, and a
query is answered only while its owner is loaded. -/
theorem answered_once_of_run {es : List Event} (h : Guarded step RefusedUnanswered {} es) :
    (run step {} es).cvarPending = pending (run step {} es).cvarQueries ∧
    0 ≤ (run step {} es).cvarPending ∧
      ((calledIn (run step {} es).calls).map (·.serial)).Nodup ∧
        (∀ n, (n, false) ∈ (run step {} es).returned →
          n ∉ (calledIn (run step {} es).calls).map (·.serial)) ∧
          ∀ e q, calledIn ((run step {} es).step e).calls = calledIn (run step {} es).calls ++ [q] →
            q.owner ∈ (run step {} es).ids := by
  have hinit : ({} : Host).queries.Once := by
    refine ⟨rfl, List.nodup_nil, ?_, ?_, ?_, nofun⟩
    · exact fun n hn => by cases hn
    · exact fun n ok hn => by cases hn
    · exact fun n hn => by cases hn
  have honce : (run step {} es).queries.Once := h.invariant hinit fun s e hs hunanswered =>
    step_once hs hunanswered
  have hcount : (run step {} es).cvarPending = pending (run step {} es).cvarQueries := honce.count
  have hserials :
      List.Sublist ((calledIn (run step {} es).calls).map (·.serial))
        (run step {} es).queries.serials := by
    apply List.Sublist.map
    rw [List.append_assoc]
    exact List.sublist_append_left _ _
  refine ⟨hcount, by omega, honce.distinct.sublist hserials,
    fun n hn hm => honce.refused n hn (hserials.subset hm), ?_⟩
  intro e q hq
  rcases step_called (run step {} es) e with hsame | ⟨q', hlive, hcall⟩
  · rw [hsame] at hq
    exact absurd hq (by simp)
  · rw [hcall, List.append_cancel_left_eq, List.singleton_inj] at hq
    exact hq ▸ mem_ids_of_live hlive

/-- A plugin asks for a cvar, the line with the answer comes, and then the frame. -/
def queryRun (line : List Event) (ok : Bool) : List Event :=
  [.frame true [ascii "stats"], .game {}, .api 1 (.cvarQuery (ascii "mp_maxrounds") 7 0 0)] ++
    line ++
    [.enqueued ok, .game {}, .game {}, .game {}, .game {}, .game { now := 5000000000 }, .game {}]

theorem answered_once_plain : (run step {} (queryRun [] true)).cvarPending = 0 ∧
    ((calledIn (run step {} (queryRun [] true)).calls).map (·.serial)) = [0] ∧
      ((calledIn (run step {} (queryRun [] true)).calls).map (·.serial)).Nodup := by
  refine ⟨by decide, by decide, (answered_once_of_run ?_).2.2.1⟩
  simp only [queryRun, List.append_nil, List.cons_append, List.nil_append, guarded_cons,
    guarded_nil, and_true]
  refine ⟨?_, ?_, ?_, ?_, ?_, ?_, ?_, ?_, ?_, ?_⟩ <;> · intro he; cases he

/-- A line that another thread posts while the command is on its way answers the query, so it is not
taken back: the call returns 0 and the callback runs later. -/
theorem refused_answered :
    (run step {} (queryRun [.postLogLine (ascii "mp_maxrounds = 24")] false)).returned =
      [(0, false)] ∧
      ((calledIn
        (run step {} (queryRun [.postLogLine (ascii "mp_maxrounds = 24")] false)).calls).map
        (·.serial)) = [0] := by
  constructor <;> decide

end Once

end Host

end ReadyUp.Plugins
