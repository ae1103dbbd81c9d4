import ReadyUp.Plugins.HostQueues

/-!
# Subscriptions and their counters

The host keeps counters beside the list of registrations, so that the engine's hooks cost nothing
while nobody is subscribed, and a generation that tells when the wanted game events change.

`step_regs` says once what a step can do to the registrations. Every way but one keeps the
counters in step with them: `ApiUnregister` only takes the registration away.
-/
namespace ReadyUp.Plugins

open Support

def tally (kind : RegKind) (l : List Reg) : ℕ := l.countP (·.kind = kind)

@[simp] theorem tally_append (kind : RegKind) (l l' : List Reg) :
    tally kind (l ++ l') = tally kind l + tally kind l' := List.countP_append

namespace Host

/-- The counters say how many subscriptions there are. -/
def Exact (s : Host) : Prop :=
  s.gameEventRegs = tally .gameEvent s.regs ∧ s.logLineRegs = tally .logLine s.regs

def wantedGameEvents (s : Host) : List Bytes :=
  ((s.regs.filter (·.kind = .gameEvent)).map (·.name)).foldl
    (fun out n => if n ∈ out then out else out ++ [n]) []

/-- A step with the counters of the registrations unchanged. -/
structure SameRegs (s s' : Host) : Prop where
  regs : s'.regs = s.regs
  nextHandle : s'.nextHandle = s.nextHandle
  gameEventRegs : s'.gameEventRegs = s.gameEventRegs
  logLineRegs : s'.logLineRegs = s.logLineRegs
  wantedGen : s'.wantedGen = s.wantedGen

/-- A step that registers a callback of a loaded instance. -/
structure AddsReg (s s' : Host) (r : Reg) : Prop where
  owner : r.owner ∈ s.ids
  id : r.id = s.nextHandle + 1
  regs : s'.regs = s.regs ++ [r]
  nextHandle : s'.nextHandle = s.nextHandle + 1
  gameEventRegs : s'.gameEventRegs = s.gameEventRegs + tally .gameEvent [r]
  logLineRegs : s'.logLineRegs = s.logLineRegs + tally .logLine [r]
  wantedGen : s'.wantedGen = s.wantedGen + tally .gameEvent [r]

/-- A step that lets go of all registrations of an instance. -/
structure DropsRegs (s s' : Host) (id : ℕ) : Prop where
  regs : s'.regs = (s.dropOwned id).regs
  nextHandle : s'.nextHandle = s.nextHandle
  gameEventRegs : s'.gameEventRegs = (s.dropOwned id).gameEventRegs
  logLineRegs : s'.logLineRegs = (s.dropOwned id).logLineRegs
  wantedGen : s'.wantedGen = (s.dropOwned id).wantedGen

/-- A registration that an instance takes back itself. -/
structure TakesBack (s s' : Host) (owner handle : ℕ) : Prop where
  regs : s'.regs = s.regs.eraseP fun r => r.id == handle && r.owner == owner
  nextHandle : s'.nextHandle = s.nextHandle
  gameEventRegs : s'.gameEventRegs = s.gameEventRegs
  logLineRegs : s'.logLineRegs = s.logLineRegs
  wantedGen : s'.wantedGen = s.wantedGen

theorem SameRegs.rfl {s : Host} : SameRegs s s := ⟨.refl _, .refl _, .refl _, .refl _, .refl _⟩

section Step

variable {s : Host}

/-- What `AddReg` does to the registrations of a kind that is not counted here. -/
theorem addReg_regs {owner : ℕ} (howner : owner ∈ s.ids) (kind : RegKind) (name : Bytes) (type : ℕ)
    (fn user : Ptr) (flags : CmdFlags) (hevent : kind ≠ .gameEvent) (hline : kind ≠ .logLine) :
    SameRegs s (s.addReg owner kind name type fn user flags).1 ∨
      ∃ r, AddsReg s (s.addReg owner kind name type fn user flags).1 r := by
  rw [addReg]
  split_ifs
  · exact .inl .rfl
  · exact .inr ⟨_, howner, rfl, rfl, rfl, by simp [tally, hevent], by simp [tally, hline],
      by simp [tally, hevent]⟩

theorem apply_regs {owner : ℕ} (howner : owner ∈ s.ids) (call : Api) :
    SameRegs s (s.apply owner call) ∨ (∃ r, AddsReg s (s.apply owner call) r) ∨
      ∃ handle, call = .unregister handle ∧ TakesBack s (s.apply owner call) owner handle := by
  have hadd : ∀ {p : Prop} [Decidable p] {t : Host × ℕ}, (SameRegs s t.1 ∨ ∃ r, AddsReg s t.1 r) →
      SameRegs s (if p then t else (s, 0)).1 ∨ (∃ r, AddsReg s (if p then t else (s, 0)).1 r) ∨
        ∃ handle, call = .unregister handle ∧
        TakesBack s (if p then t else (s, 0)).1 owner handle := by
    intro p _ t h
    split_ifs
    · exact h.imp_right .inl
    · exact .inl .rfl
  cases call with
  | registerChat name flags fn user =>
    exact hadd (addReg_regs howner _ _ _ _ _ _ (by decide) (by decide))
  | registerConsole name flags fn user =>
    exact hadd (addReg_regs howner _ _ _ _ _ _ (by decide) (by decide))
  | registerRuSub name fn user =>
    exact hadd (addReg_regs howner _ _ _ _ _ _ (by decide) (by decide))
  | filterClientCommand name fn user =>
    exact hadd (addReg_regs howner _ _ _ _ _ _ (by decide) (by decide))
  | onTick fn user => exact hadd (addReg_regs howner _ _ _ _ _ _ (by decide) (by decide))
  | onFrame fn user => exact hadd (addReg_regs howner _ _ _ _ _ _ (by decide) (by decide))
  | subscribe type fn user => exact hadd (addReg_regs howner _ _ _ _ _ _ (by decide) (by decide))
  | subscribeGameEvent name fn user =>
    refine hadd (.inr ⟨_, howner, rfl, rfl, rfl, rfl, ?_, rfl⟩)
    simp [tally]
  | subscribeLogLine fn user =>
    refine hadd (.inr ?_)
    simp only [addReg, ne_eq, not_true_eq_false, false_and, if_false, Nat.add_eq_zero_iff,
      one_ne_zero, and_false, not_false_eq_true, if_true]
    exact ⟨_, howner, rfl, rfl, rfl, by simp [tally], rfl, by simp [tally]⟩
  | unregister handle =>
    by_cases hzero : handle = 0
    · refine .inl ?_
      rw [apply, unregister, if_pos hzero]
      exact .rfl
    · refine .inr (.inr ⟨handle, rfl, ?_⟩)
      rw [apply, unregister, if_neg hzero]
      exact ⟨rfl, rfl, rfl, rfl, rfl⟩
  | provideInterface name version ptr =>
    refine .inl ?_
    rw [apply, provideInterface]
    split_ifs <;> exact ⟨rfl, rfl, rfl, rfl, rfl⟩
  | setChatNamePrefix steamid64 pre =>
    refine .inl ?_
    rw [apply, setChatNamePrefix]
    split_ifs <;> exact ⟨rfl, rfl, rfl, rfl, rfl⟩
  | setAdminProvider fn user => exact .inl ⟨rfl, rfl, rfl, rfl, rfl⟩
  | cvarQuery name fn user now =>
    refine .inl ?_
    rw [apply, cvarQuery]
    split_ifs <;> exact ⟨rfl, rfl, rfl, rfl, rfl⟩

theorem Queues.regs {t : Host} (h : Queues s t) : SameRegs s t := by
  obtain ⟨l, rfl, -⟩ := h
  exact ⟨rfl, rfl, rfl, rfl, rfl⟩

theorem callReg_regs (s : Host) (id : ℕ) (arg : Arg) : SameRegs s (s.callReg id arg) := by
  obtain ⟨l, h, -⟩ := callReg_eq s id arg
  rw [h]
  exact ⟨rfl, rfl, rfl, rfl, rfl⟩

theorem enqueued_regs (s : Host) (ok : Bool) : SameRegs s (s.enqueued ok) := by
  rw [enqueued]
  split
  · exact .rfl
  · split_ifs <;> exact ⟨rfl, rfl, rfl, rfl, rfl⟩

theorem runOp_regs (s : Host) (o : PendingOp) (env : Env) : SameRegs s (s.runOp o env) := by
  rw [runOp]
  split
  · exact ⟨rfl, rfl, rfl, rfl, rfl⟩
  · exact ⟨rfl, rfl, rfl, rfl, rfl⟩
  · exact ⟨rfl, rfl, rfl, rfl, rfl⟩
  · split_ifs <;> exact ⟨rfl, rfl, rfl, rfl, rfl⟩
  · split_ifs <;> exact ⟨rfl, rfl, rfl, rfl, rfl⟩

theorem doWork_regs (s : Host) (env : Env) (w : Work) : SameRegs s (s.doWork env w) := by
  cases w with
  | load name =>
    rw [doWork, loadNow]
    split_ifs <;> exact ⟨rfl, rfl, rfl, rfl, rfl⟩
  | unload name =>
    rw [doWork, unloadNow]
    split <;> exact ⟨rfl, rfl, rfl, rfl, rfl⟩
  | op o => exact runOp_regs s o env
  | task t =>
    rw [doWork]
    split_ifs <;> exact ⟨rfl, rfl, rfl, rfl, rfl⟩
  | reg id arg => exact callReg_regs s _ _
  | logLines =>
    rw [doWork]
    split_ifs <;> exact ⟨rfl, rfl, rfl, rfl, rfl⟩
  | answer q =>
    rw [doWork]
    split_ifs <;> exact ⟨rfl, rfl, rfl, rfl, rfl⟩
  | _ => exact ⟨rfl, rfl, rfl, rfl, rfl⟩

theorem doNested_regs (s : Host) (env : Env) (n : Nested) : SameRegs s (s.doNested env n) := by
  rw [doNested.eq_def]
  split
  · exact .rfl
  · dsimp only
    split_ifs <;> exact ⟨rfl, rfl, rfl, rfl, rfl⟩
  · exact .rfl
  · rename_i n id ids
    have h := callReg_regs { s with nested := .events n ids :: s.nested } id (.gameEvent n)
    exact ⟨h.regs, h.nextHandle, h.gameEventRegs, h.logLineRegs, h.wantedGen⟩

theorem gameStep_regs (s : Host) (env : Env) :
    SameRegs s (s.gameStep env) ∨ ∃ id, DropsRegs s (s.gameStep env) id := by
  rw [gameStep]
  split
  · rename_i n rest _
    have h := doNested_regs { s with nested := rest } env n
    exact .inl ⟨h.regs, h.nextHandle, h.gameEventRegs, h.logLineRegs, h.wantedGen⟩
  · split_ifs
    · exact .inl ⟨rfl, rfl, rfl, rfl, rfl⟩
    · exact .inr ⟨_, rfl, rfl, rfl, rfl, rfl⟩
  · exact .inr ⟨_, rfl, rfl, rfl, rfl, rfl⟩
  · rename_i w rest _ _ _
    have h := doWork_regs { s with work := rest } env w
    exact .inl ⟨h.regs, h.nextHandle, h.gameEventRegs, h.logLineRegs, h.wantedGen⟩
  · exact .inl .rfl

theorem step_regs (s : Host) (e : Event) : SameRegs s (s.step e) ∨ (∃ r, AddsReg s (s.step e) r) ∨
    (∃ id, DropsRegs s (s.step e) id) ∨
      ∃ self handle, e = .api self (.unregister handle) ∧ TakesBack s (s.step e) self handle := by
  cases e with
  | api self call =>
    rw [step, onGameThread]
    split_ifs with hasking hself
    · exact .inl .rfl
    · rcases apply_regs (mem_ids_of_findById hself) call with h | h | ⟨handle, rfl, h⟩
      · exact .inl h
      · exact .inr (.inl h)
      · exact .inr (.inr (.inr ⟨self, handle, rfl, h⟩))
    · exact .inl .rfl
  | enqueued ok => exact .inl (enqueued_regs s ok)
  | postToGameThread self fn user =>
    refine .inl ?_
    rw [step, postToGameThread]
    split_ifs <;> exact ⟨rfl, rfl, rfl, rfl, rfl⟩
  | postEvent e =>
    refine .inl ?_
    obtain ⟨map, events, h⟩ := postEvent_eq s e
    rw [step, h]
    exact ⟨rfl, rfl, rfl, rfl, rfl⟩
  | postLogLine line =>
    refine .inl ?_
    obtain ⟨lines, h | h⟩ := postLogLine_eq s line
    · rw [step, h]
      exact ⟨rfl, rfl, rfl, rfl, rfl⟩
    · rw [step, h]
      exact ⟨rfl, rfl, rfl, rfl, rfl⟩
  | dispatchChat steamid64 playerName text slot =>
    exact .inl (tryDispatchChat_queues s _ _ _ _).regs
  | dispatchRu console steamid64 playerName text slot =>
    exact .inl (tryDispatchRu_queues s _ _ _ _ _).regs
  | dispatchConsole line => exact .inl (tryDispatchConsole_queues s line).regs
  | observeConsole line => exact .inl (observeConsole_queues s line).regs
  | pluginCommand verb name =>
    refine .inl ?_
    rw [step]
    split_ifs <;> exact ⟨rfl, rfl, rfl, rfl, rfl⟩
  | callInterface name minVersion =>
    refine .inl ?_
    rw [step, onGameThread, callInterface]
    split_ifs
    · exact .rfl
    · split
      · exact .rfl
      · split_ifs <;> exact ⟨rfl, rfl, rfl, rfl, rfl⟩
  | filterCommand argv =>
    refine .inl ?_
    rw [step, onGameThread, filterCommand.eq_def]
    split_ifs
    · exact .rfl
    · split <;> exact ⟨rfl, rfl, rfl, rfl, rfl⟩
  | gameEvent name =>
    refine .inl ?_
    rw [step, onGameThread, dispatchGameEvent]
    split_ifs <;> exact ⟨rfl, rfl, rfl, rfl, rfl⟩
  | frame simulating files =>
    refine .inl ?_
    rw [step, onGameThread, frame]
    split_ifs <;> exact ⟨rfl, rfl, rfl, rfl, rfl⟩
  | game env =>
    rw [step, onGameThread]
    split_ifs
    · exact .inl .rfl
    · exact (gameStep_regs s env).imp_right fun h => .inr (.inl h)
  | _ => exact .inl ⟨rfl, rfl, rfl, rfl, rfl⟩

end Step

section Counters

variable {s s' : Host}

theorem SameRegs.exact (h : SameRegs s s') (hs : Exact s) : Exact s' := by
  rw [Exact, h.gameEventRegs, h.logLineRegs, h.regs]
  exact hs

theorem AddsReg.exact {r : Reg} (h : AddsReg s s' r) (hs : Exact s) : Exact s' := by
  rw [Exact, h.gameEventRegs, h.logLineRegs, h.regs, tally_append, tally_append, hs.1, hs.2]
  exact ⟨(Nat.cast_add _ _).symm, (Nat.cast_add _ _).symm⟩

/-- What an instance owns and what it does not own of a kind. -/
theorem tally_filter (kind : RegKind) (l : List Reg) (id : ℕ) :
    tally kind l = tally kind (l.filter fun r => !(r.owner == id)) +
      l.countP fun r => r.owner == id && decide (r.kind = kind) := by
  induction l with
  | nil => rfl
  | cons r l ih =>
    rw [tally, List.countP_cons, ← tally, ih, List.countP_cons, List.filter_cons]
    cases howner : (r.owner == id) with
    | true =>
      simp only [Bool.not_true, Bool.false_eq_true, if_false, Bool.true_and]
      omega
    | false =>
      simp only [Bool.not_false, if_true, Bool.false_and, Bool.false_eq_true, if_false]
      rw [tally, tally, List.countP_cons]
      omega

theorem DropsRegs.exact {id : ℕ} (h : DropsRegs s s' id) (hs : Exact s) : Exact s' := by
  rw [Exact, h.gameEventRegs, h.logLineRegs, h.regs]
  dsimp only [dropOwned]
  rw [hs.1, hs.2, tally_filter .gameEvent s.regs id, tally_filter .logLine s.regs id]
  omega

/-- The subscriptions to game events, as the wanted names and the generation see them. -/
def eventNames (l : List Reg) : List Bytes := (l.filter (·.kind = .gameEvent)).map (·.name)

theorem eventNames_eq_of_tally {l l' : List Reg} (h : tally .gameEvent l' = 0) :
    eventNames (l ++ l') = eventNames l := by
  have hnone : l'.filter (·.kind = .gameEvent) = [] := by
    rw [List.filter_eq_nil_iff]
    exact List.countP_eq_zero.mp h
  rw [eventNames, List.filter_append, hnone, List.append_nil]
  rfl

theorem eventNames_drop {l : List Reg} {id : ℕ}
    (h : (l.countP fun r => r.owner == id && decide (r.kind = .gameEvent)) = 0) :
    eventNames (l.filter fun r => !(r.owner == id)) = eventNames l := by
  rw [eventNames, eventNames, List.filter_filter]
  congr 1
  apply List.filter_congr
  intro r hr
  have hnot := List.countP_eq_zero.mp h r hr
  cases howner : (r.owner == id) <;> simp_all

/-- A registration that an instance takes back itself is no subscription that is counted. -/
def TakesBackOther (s : Host) (e : Event) : Prop :=
  ∀ self handle, e = .api self (.unregister handle) →
    ∀ r ∈ s.regs, r.id = handle → r.owner = self → r.kind ≠ .gameEvent ∧ r.kind ≠ .logLine

theorem TakesBack.exists_of_ne {owner handle : ℕ} (h : TakesBack s s' owner handle)
    (hne : s'.regs ≠ s.regs) :
    ∃ r l l', s.regs = l ++ r :: l' ∧ s'.regs = l ++ l' ∧ r.id = handle ∧ r.owner = owner := by
  have hregs := h.regs
  rcases List.exists_or_eq_self_of_eraseP (fun r : Reg => r.id == handle && r.owner == owner)
    s.regs with heq | hex
  · exact absurd (hregs.trans heq) hne
  · obtain ⟨r, l, l', -, hp, hl, hl'⟩ := hex
    rw [Bool.and_eq_true, beq_iff_eq, beq_iff_eq] at hp
    exact ⟨r, l, l', hl, hregs.trans hl', hp.1, hp.2⟩

/-- A step that does not take back a counted subscription keeps the counters exact, and the wanted
events only change together with the generation. -/
theorem step_exact {e : Event} (hs : Exact s) (hother : TakesBackOther s e) :
    Exact (s.step e) ∧ ((s.step e).wantedGen = s.wantedGen →
      eventNames (s.step e).regs = eventNames s.regs) := by
  rcases step_regs s e with h | ⟨r, h⟩ | ⟨id, h⟩ | ⟨self, handle, he, h⟩
  · exact ⟨h.exact hs, fun _ => by rw [h.regs]⟩
  · refine ⟨h.exact hs, fun hgen => ?_⟩
    rw [h.wantedGen] at hgen
    rw [h.regs]
    exact eventNames_eq_of_tally (by omega)
  · refine ⟨h.exact hs, fun hgen => ?_⟩
    rw [h.wantedGen] at hgen
    rw [h.regs]
    refine eventNames_drop ?_
    by_contra hne
    dsimp only [dropOwned] at hgen
    rw [if_neg hne] at hgen
    omega
  · by_cases hne : (s.step e).regs = s.regs
    · refine ⟨?_, fun _ => by rw [hne]⟩
      rw [Exact, h.gameEventRegs, h.logLineRegs, hne]
      exact hs
    · obtain ⟨r, l, l', hl, hl', hid, howner⟩ := h.exists_of_ne hne
      obtain ⟨hevent, hline⟩ := hother self handle he r (by rw [hl]; simp) hid howner
      have htally : ∀ kind, r.kind ≠ kind → tally kind (l ++ r :: l') = tally kind (l ++ l') := by
        intro kind hkind
        simp [tally, hkind]
      refine ⟨?_, fun _ => ?_⟩
      · rw [Exact, h.gameEventRegs, h.logLineRegs, hl', ← htally _ hevent, ← htally _ hline, ← hl]
        exact hs
      · rw [hl, hl']
        simp [eventNames, hevent]

/-- In a run in which no instance takes back a subscription to game events or log lines itself,
the counters are exact and the generation changes whenever the wanted events do. -/
theorem exact_of_run {es : List Event} (h : Guarded step TakesBackOther {} es) :
    Exact (run step {} es) ∧ ∀ e, TakesBackOther (run step {} es) e →
      wantedGameEvents ((run step {} es).step e) ≠ wantedGameEvents (run step {} es) →
        ((run step {} es).step e).wantedGen ≠ (run step {} es).wantedGen := by
  have hexact : Exact (run step {} es) := h.invariant ⟨rfl, rfl⟩ fun s e hs hother =>
    (step_exact hs hother).1
  refine ⟨hexact, fun e hother hne hgen => hne ?_⟩
  have hnames := (step_exact hexact hother).2 hgen
  rw [eventNames, eventNames] at hnames
  rw [wantedGameEvents, wantedGameEvents, hnames]

/-- A plugin that is loaded, subscribes to an event and takes the subscription back. -/
def resubscribing : List Event :=
  [.frame true [ascii "stats"], .game {},
    .api 1 (.subscribeGameEvent (ascii "round_start") 7 0), .game {}, .api 1 (.unregister 1)]

theorem exact_while_subscribed : Exact (run step {} (resubscribing.take 4)) ∧
    (run step {} (resubscribing.take 4)).gameEventRegs = 1 := by
  refine ⟨(exact_of_run ?_).1, by decide⟩
  simp only [resubscribing, List.take_succ_cons, List.take_zero, guarded_cons,
    guarded_nil, and_true]
  refine ⟨?_, ?_, ?_, ?_⟩ <;> · intro self handle he; cases he

/-- The subscription is gone, the counter still says one, and nobody is told that the wanted events
are others. -/
theorem unregister_keeps_counter : (run step {} resubscribing).regs = [] ∧
    (run step {} resubscribing).gameEventRegs = 1 ∧ ¬Exact (run step {} resubscribing) ∧
      wantedGameEvents (run step {} (resubscribing.take 4)) = [ascii "round_start"] ∧
        wantedGameEvents (run step {} resubscribing) = [] ∧
          (run step {} resubscribing).wantedGen =
            (run step {} (resubscribing.take 4)).wantedGen := by
  have hregs : (run step {} resubscribing).regs = [] := by decide
  have hcounter : (run step {} resubscribing).gameEventRegs = 1 := by decide
  refine ⟨hregs, hcounter, ?_, by decide, by decide, by decide⟩
  rintro ⟨hexact, -⟩
  rw [hregs, hcounter] at hexact
  exact absurd hexact (by decide)

end Counters

end Host

end ReadyUp.Plugins
