import ReadyUp.Plugins.HostQueues

/-!
# Instances that are gone

A plugin is taken down at the end of an unload and of a load that failed. Its code is unmapped
then, so nothing that it registered may be called again. The tables of the host are checked here
as one: `Alive` says that they speak of loaded instances only, and `Acts` once what a step between
two loads or unloads can do to them.

What is left out: the engine's detours, and the threads of a plugin, which it joins before its
unload callback returns.
-/
namespace ReadyUp.Plugins

open Support

/-- The filters that were copied out of the lock. -/
def Nested.copied : Nested → List Hit
  | hits l => l
  | events _ _ => []

/-- The command that is delivered next, with the handle it goes to. -/
def Work.commands : Work → List (ℕ × QueuedCmd)
  | reg id (.command c) => [(id, c)]
  | _ => []

def Running.plugin : Running → Bytes × ℕ
  | load name id => (name, id)
  | unload name id => (name, id)

namespace Host

/-- The names and the ids of the loaded instances. -/
def roster (s : Host) : List (Bytes × ℕ) := s.loaded.map fun i => (i.name, i.id)

/-- The instance that is being loaded or unloaded. -/
def current (s : Host) : Option (Bytes × ℕ) := s.running.map (·.plugin)

def copiedHits (s : Host) : List Hit := s.nested.flatMap (·.copied)

/-- The commands on their way, with the handles they go to. -/
def addressed (s : Host) : List (ℕ × QueuedCmd) :=
  s.cmds.map (fun c => (c.reg, c)) ++ s.work.flatMap (·.commands)

theorem mem_ids_iff {s : Host} {id : ℕ} : id ∈ s.ids ↔ ∃ name, (name, id) ∈ s.roster := by
  simp [ids, roster]

/-- The instance was there, and is not any more. -/
def Gone (s : Host) (id : ℕ) : Prop := id ≤ s.nextId ∧ id ∉ s.ids

/-- Nothing of an instance is left in the tables. -/
structure Forgets (s : Host) (id : ℕ) : Prop where
  regs : ∀ r ∈ s.regs, r.owner ≠ id
  ifaces : ∀ i ∈ s.ifaces, i.2.owner ≠ id
  chatPrefixes : ∀ p ∈ s.chatPrefixes, p.2.owner ≠ id
  tasks : ∀ t ∈ s.tasks, t.owner ≠ id
  cvarQueries : ∀ q ∈ s.cvarQueries, q.owner ≠ id
  admins : ∀ p ∈ s.admins, p.owner ≠ id

/-- The tables speak of loaded instances only, and a handle is of one registration for ever. -/
structure Alive (s : Host) : Prop where
  names : (s.roster.map (·.1)).Nodup
  ids : s.ids.Nodup
  given : ∀ id ∈ s.ids, id ≤ s.nextId
  current : ∀ p, s.current = some p → p ∈ s.roster
  regs : ∀ r ∈ s.regs, r.owner ∈ s.ids
  ifaces : ∀ i ∈ s.ifaces, i.2.owner ∈ s.ids
  chatPrefixes : ∀ p ∈ s.chatPrefixes, p.2.owner ∈ s.ids
  tasks : ∀ t ∈ s.tasks, t.owner ∈ s.ids
  cvarQueries : ∀ q ∈ s.cvarQueries, q.owner ∈ s.ids
  admins : ∀ p ∈ s.admins, p.owner ∈ s.ids
  copied : ∀ h ∈ s.copiedHits, h.owner ∈ s.ids
  handles : (s.regs.map (·.id)).Nodup
  handle : ∀ r ∈ s.regs, r.id ≤ s.nextHandle
  addressed : ∀ a ∈ s.addressed, a.1 ≤ s.nextHandle ∧ ∀ r ∈ s.regs, r.id = a.1 → r.owner = a.2.owner
  delivered : ∀ r c, Call.reg r (.command c) ∈ s.calls → r.owner = c.owner

theorem Alive.forgets {s : Host} (h : Alive s) {id : ℕ} (hid : id ∉ s.ids) : Forgets s id where
  regs r hr howner := hid (howner ▸ h.regs r hr)
  ifaces i hi howner := hid (howner ▸ h.ifaces i hi)
  chatPrefixes p hp howner := hid (howner ▸ h.chatPrefixes p hp)
  tasks t ht howner := hid (howner ▸ h.tasks t ht)
  cvarQueries q hq howner := hid (howner ▸ h.cvarQueries q hq)
  admins p hp howner := hid (howner ▸ h.admins p hp)

structure Allowed (s : Host) (c : Call) : Prop where
  owner : c.owner ∈ s.ids ∨ (∃ p ∈ s.admins, p.owner = c.owner) ∨
    ∃ h ∈ s.copiedHits, h.owner = c.owner
  command : ∀ r q, c = .reg r (.command q) → r ∈ s.regs ∧ (r.id, q) ∈ s.addressed

/-- What a step between two loads or unloads can do. -/
structure Acts (s t : Host) : Prop where
  roster : t.roster = s.roster
  nextId : t.nextId = s.nextId
  current : ∀ p, t.current = some p → s.current = some p ∨ p ∈ s.roster
  regs : (t.regs.Sublist s.regs ∧ t.nextHandle = s.nextHandle) ∨
    ∃ r, r.owner ∈ s.ids ∧ r.id = s.nextHandle + 1 ∧ t.regs = s.regs ++ [r] ∧
    t.nextHandle = s.nextHandle + 1
  ifaces : ∀ i ∈ t.ifaces, i ∈ s.ifaces ∨ i.2.owner ∈ s.ids
  chatPrefixes : ∀ p ∈ t.chatPrefixes, p ∈ s.chatPrefixes ∨ p.2.owner ∈ s.ids
  tasks : ∀ q ∈ t.tasks, q ∈ s.tasks ∨ q.owner ∈ s.ids
  cvarQueries : ∀ q ∈ t.cvarQueries, (∃ p ∈ s.cvarQueries, p.owner = q.owner) ∨ q.owner ∈ s.ids
  admins : ∀ p ∈ t.admins, p ∈ s.admins ∨ p.owner ∈ s.ids
  copied : ∀ h ∈ t.copiedHits, h ∈ s.copiedHits ∨ h.owner ∈ s.ids
  addressed : ∀ a ∈ t.addressed, a ∈ s.addressed ∨ ∃ r ∈ s.regs, a.1 = r.id ∧ a.2.owner = r.owner
  calls : ∃ l, t.calls = s.calls ++ l ∧ ∀ c ∈ l, s.Allowed c

theorem Acts.rfl (s : Host) : Acts s s where
  roster := .refl _
  nextId := .refl _
  current _ hp := .inl hp
  regs := .inl ⟨.refl _, .refl _⟩
  ifaces _ hi := .inl hi
  chatPrefixes _ hp := .inl hp
  tasks _ ht := .inl ht
  cvarQueries q hq := .inl ⟨q, hq, .refl _⟩
  admins _ hp := .inl hp
  copied _ hh := .inl hh
  addressed _ ha := .inl ha
  calls := ⟨[], (List.append_nil _).symm, fun _ hc => by cases hc⟩

/-- Nothing of what is gone comes back or is called. -/
def Follows (s t : Host) : Prop :=
  ∃ l, t.calls = s.calls ++ l ∧ ∀ id, Gone s id → Gone t id ∧ ∀ c ∈ l, c.owner ≠ id

/-- A step that keeps the tables right. -/
def Keeps (s t : Host) : Prop := Alive s → Alive t ∧ Follows s t

theorem Follows.refl (s : Host) : Follows s s :=
  ⟨[], (List.append_nil _).symm, fun _ hid => ⟨hid, fun _ hc => by cases hc⟩⟩

theorem Follows.trans {s t u : Host} (h : Follows s t) (h' : Follows t u) : Follows s u := by
  obtain ⟨l, hl, hgone⟩ := h
  obtain ⟨l', hl', hgone'⟩ := h'
  refine ⟨l ++ l', by rw [hl', hl, List.append_assoc], fun id hid => ?_⟩
  obtain ⟨ht, hc⟩ := hgone id hid
  obtain ⟨hu, hc'⟩ := hgone' id ht
  exact ⟨hu, List.forall_mem_append.mpr ⟨hc, hc'⟩⟩

theorem Keeps.trans {s t u : Host} (h : Keeps s t) (h' : Keeps t u) : Keeps s u := by
  intro hs
  obtain ⟨ht, hst⟩ := h hs
  obtain ⟨hu, htu⟩ := h' ht
  exact ⟨hu, hst.trans htu⟩

section Acts

variable {s t : Host}

theorem Acts.ids (h : Acts s t) : t.ids = s.ids := by
  have hroster := congrArg (List.map (·.2)) h.roster
  rw [Host.roster, Host.roster, List.map_map, List.map_map] at hroster
  exact hroster

theorem Allowed.owner_mem {c : Call} (h : s.Allowed c) (hs : Alive s) : c.owner ∈ s.ids := by
  rcases h.owner with hid | ⟨p, hp, howner⟩ | ⟨q, hq, howner⟩
  · exact hid
  · exact howner ▸ hs.admins p hp
  · exact howner ▸ hs.copied q hq

theorem Acts.handles (h : Acts s t) (hs : Alive s) :
    (t.regs.map (·.id)).Nodup ∧ (∀ r ∈ t.regs, r.owner ∈ s.ids ∧ r.id ≤ t.nextHandle) ∧
      s.nextHandle ≤ t.nextHandle ∧ ∀ r ∈ t.regs, r ∈ s.regs ∨ s.nextHandle < r.id := by
  rcases h.regs with ⟨hsub, hnext⟩ | ⟨r, howner, hid, hregs, hnext⟩
  · refine ⟨hs.handles.sublist (hsub.map _), fun r hr => ⟨hs.regs r (hsub.subset hr), ?_⟩, hnext.ge,
      fun r hr => .inl (hsub.subset hr)⟩
    exact hnext ▸ hs.handle r (hsub.subset hr)
  · rw [hregs, hnext, hid.symm]
    refine ⟨?_, ?_, by omega, ?_⟩
    · rw [List.map_append, List.nodup_append]
      refine ⟨hs.handles, List.nodup_singleton _, fun a ha b hb => ?_⟩
      obtain ⟨r', hr', rfl⟩ := List.mem_map.mp ha
      have hlt := hs.handle r' hr'
      rw [List.map_singleton, List.mem_singleton] at hb
      omega
    · rw [List.forall_mem_append, List.forall_mem_singleton]
      exact ⟨fun r' hr' => ⟨hs.regs r' hr', by have := hs.handle r' hr'; omega⟩, howner, le_rfl⟩
    · rw [List.forall_mem_append, List.forall_mem_singleton]
      exact ⟨fun r' hr' => .inl hr', .inr (by omega)⟩

theorem Acts.alive (h : Acts s t) (hs : Alive s) : Alive t where
  names := h.roster ▸ hs.names
  ids := h.ids ▸ hs.ids
  given := by rw [h.ids, h.nextId]; exact hs.given
  current p hp := h.roster ▸ (h.current p hp).elim (hs.current p) id
  regs r hr := h.ids ▸ ((h.handles hs).2.1 r hr).1
  ifaces i hi := h.ids ▸ (h.ifaces i hi).elim (hs.ifaces i) id
  chatPrefixes p hp := h.ids ▸ (h.chatPrefixes p hp).elim (hs.chatPrefixes p) id
  tasks q hq := h.ids ▸ (h.tasks q hq).elim (hs.tasks q) id
  cvarQueries q hq :=
    h.ids ▸ (h.cvarQueries q hq).elim (fun ⟨p, hp, howner⟩ => howner ▸ hs.cvarQueries p hp) id
  admins p hp := h.ids ▸ (h.admins p hp).elim (hs.admins p) id
  copied q hq := h.ids ▸ (h.copied q hq).elim (hs.copied q) id
  handles := (h.handles hs).1
  handle r hr := ((h.handles hs).2.1 r hr).2
  addressed := by
    obtain ⟨-, -, hle, hregs⟩ := h.handles hs
    intro a ha
    -- the command was on its way already, or is queued for a registration that is there
    have hold : a.1 ≤ s.nextHandle ∧ ∀ r ∈ s.regs, r.id = a.1 → r.owner = a.2.owner := by
      rcases h.addressed a ha with hold | ⟨r, hr, hid, howner⟩
      · exact hs.addressed a hold
      · refine ⟨hid ▸ hs.handle r hr, fun r' hr' hid' => ?_⟩
        rw [howner, List.inj_on_of_nodup_map hs.handles hr' hr (hid'.trans hid)]
    refine ⟨hold.1.trans hle, fun r hr hid => ?_⟩
    rcases hregs r hr with hmem | hnew
    · exact hold.2 r hmem hid
    · omega
  delivered := by
    obtain ⟨l, hl, hallowed⟩ := h.calls
    intro r c hc
    rw [hl, List.mem_append] at hc
    rcases hc with hc | hc
    · exact hs.delivered r c hc
    · obtain ⟨hr, haddressed⟩ := (hallowed _ hc).command r c (.refl _)
      exact (hs.addressed _ haddressed).2 r hr (.refl _)

theorem Acts.keeps (h : Acts s t) : Keeps s t := by
  intro hs
  obtain ⟨l, hl, hallowed⟩ := h.calls
  refine ⟨h.alive hs, l, hl, fun id hid => ⟨?_, fun c hc howner => ?_⟩⟩
  · rw [Gone, h.ids, h.nextId]
    exact hid
  · exact hid.2 (howner ▸ (hallowed c hc).owner_mem hs)

end Acts

section Steps

variable {s : Host}

theorem Queues.acts {t : Host} (h : Queues s t) : Acts s t := by
  obtain ⟨l, rfl, hl⟩ := h
  refine { Acts.rfl s with addressed := fun a ha => ?_ }
  rw [addressed, List.map_append, List.mem_append, List.mem_append] at ha
  rcases ha with (ha | ha) | ha
  · exact .inl (List.mem_append_left _ ha)
  · obtain ⟨c, hc, rfl⟩ := List.mem_map.mp ha
    exact .inr (hl c hc)
  · exact .inl (List.mem_append_right _ ha)

theorem addReg_acts {owner : ℕ} (howner : owner ∈ s.ids) (kind : RegKind) (name : Bytes) (type : ℕ)
    (fn user : Ptr) (flags : CmdFlags) :
    Acts s (s.addReg owner kind name type fn user flags).1 := by
  rw [addReg]
  split_ifs
  · exact .rfl s
  · exact { Acts.rfl s with regs := .inr ⟨_, howner, rfl, rfl, rfl⟩ }

theorem apply_acts {owner : ℕ} (howner : owner ∈ s.ids) (call : Api) :
    Acts s (s.apply owner call) := by
  have hadd : ∀ {p : Prop} [Decidable p] {t : Host × ℕ}, Acts s t.1 →
      Acts s (if p then t else (s, 0)).1 := by
    intro p _ t h
    split_ifs
    · exact h
    · exact .rfl s
  cases call with
  | registerChat name flags fn user => exact hadd (addReg_acts howner _ _ _ _ _ _)
  | registerConsole name flags fn user => exact hadd (addReg_acts howner _ _ _ _ _ _)
  | registerRuSub name fn user => exact hadd (addReg_acts howner _ _ _ _ _ _)
  | filterClientCommand name fn user => exact hadd (addReg_acts howner _ _ _ _ _ _)
  | onTick fn user => exact hadd (addReg_acts howner _ _ _ _ _ _)
  | onFrame fn user => exact hadd (addReg_acts howner _ _ _ _ _ _)
  | subscribe type fn user => exact hadd (addReg_acts howner _ _ _ _ _ _)
  | subscribeGameEvent name fn user =>
    exact hadd { Acts.rfl s with regs := .inr ⟨_, howner, rfl, rfl, rfl⟩ }
  | subscribeLogLine fn user =>
    refine hadd ?_
    have h := addReg_acts howner .logLine [] 0 fn user {}
    dsimp only
    split_ifs
    · exact { h with }
    · exact h
  | unregister handle =>
    rw [apply, unregister]
    split_ifs
    · exact .rfl s
    · exact { Acts.rfl s with regs := .inl ⟨List.eraseP_sublist, rfl⟩ }
  | provideInterface name version ptr =>
    rw [apply, provideInterface]
    split_ifs
    · exact .rfl s
    · refine { Acts.rfl s with ifaces := ?_ }
      rw [List.forall_mem_cons]
      exact ⟨.inr howner, fun i hi => .inl (List.mem_of_mem_filter hi)⟩
  | setChatNamePrefix steamid64 pre =>
    rw [apply, setChatNamePrefix]
    split_ifs
    · exact .rfl s
    · exact { Acts.rfl s with chatPrefixes := fun p hp => .inl (List.mem_of_mem_filter hp) }
    · refine { Acts.rfl s with chatPrefixes := ?_ }
      rw [List.forall_mem_cons]
      exact ⟨.inr howner, fun p hp => .inl (List.mem_of_mem_filter hp)⟩
  | setAdminProvider fn user =>
    refine { Acts.rfl s with admins := ?_ }
    dsimp only [apply, setAdminProvider]
    split_ifs
    · rw [List.forall_mem_append, List.forall_mem_singleton]
      exact ⟨fun p hp => .inl (List.mem_of_mem_filter hp), .inr howner⟩
    · exact fun p hp => .inl (List.mem_of_mem_filter hp)
  | cvarQuery name fn user now =>
    rw [apply, cvarQuery]
    split_ifs
    · refine { Acts.rfl s with cvarQueries := ?_ }
      rw [List.forall_mem_append, List.forall_mem_singleton]
      exact ⟨fun q hq => .inl ⟨q, hq, rfl⟩, .inr howner⟩
    · exact .rfl s

theorem enqueued_acts (s : Host) (ok : Bool) : Acts s (s.enqueued ok) := by
  rw [enqueued]
  split
  · exact .rfl s
  · split_ifs
    · exact { Acts.rfl s with }
    · refine { Acts.rfl s with cvarQueries := fun q hq => .inl ⟨q, ?_, rfl⟩ }
      exact List.mem_reverse.mp (List.mem_of_mem_eraseP (List.mem_reverse.mp hq))
    · exact { Acts.rfl s with }

theorem postLogLine_acts (s : Host) (line : Bytes) : Acts s (s.postLogLine line) := by
  obtain ⟨lines, h | h⟩ := postLogLine_eq s line
  · rw [h]
    exact { Acts.rfl s with }
  · rw [h]
    refine { Acts.rfl s with cvarQueries := fun q hq => ?_ }
    obtain ⟨p, hp, rfl⟩ := List.mem_map.mp hq
    refine .inl ⟨p, hp, ?_⟩
    rw [answered]
    split <;> rfl

theorem callReg_allowed {u : Host} (hids : u.ids = s.ids) (hregs : u.regs = s.regs)
    (id : ℕ) (arg : Arg) (harg : ∀ c, arg = .command c → (id, c) ∈ s.addressed) :
    ∃ l, u.callReg id arg = { u with calls := u.calls ++ l } ∧ ∀ c ∈ l, s.Allowed c := by
  obtain ⟨l, h, hl⟩ := callReg_eq u id arg
  refine ⟨l, h, fun c hc => ?_⟩
  obtain ⟨r, hr, hid, howner, rfl⟩ := hl c hc
  refine ⟨.inl (hids ▸ howner), fun r' q heq => ?_⟩
  obtain ⟨rfl, rfl⟩ := Call.reg.inj heq
  exact ⟨hregs ▸ hr, hid ▸ harg q rfl⟩

theorem doNested_acts {n : Nested} {rest : List Nested} (hn : s.nested = n :: rest) (env : Env) :
    Acts s ({ s with nested := rest }.doNested env n) := by
  have hrest : ∀ h ∈ rest.flatMap (·.copied), h ∈ s.copiedHits := by
    intro h hh
    rw [copiedHits, hn]
    exact List.mem_append_right _ hh
  have hpop : Acts s { s with nested := rest } :=
    { Acts.rfl s with copied := fun h hh => .inl (hrest h hh) }
  rw [doNested.eq_def]
  split
  · exact hpop
  · rename_i h hs
    have hmem : ∀ h' ∈ h :: hs, h' ∈ s.copiedHits := by
      intro h' hh'
      rw [copiedHits, hn]
      exact List.mem_append_left _ hh'
    have hcall : ∀ c ∈ [Call.filter h], s.Allowed c := by
      rw [List.forall_mem_singleton]
      exact ⟨.inr (.inr ⟨h, hmem h List.mem_cons_self, rfl⟩), fun _ _ heq => by cases heq⟩
    dsimp only
    split_ifs
    · exact { hpop with calls := ⟨_, rfl, hcall⟩ }
    · refine { hpop with calls := ⟨_, rfl, hcall⟩, copied := fun h' hh' => .inl ?_ }
      rcases List.mem_append.mp hh' with hh' | hh'
      · exact hmem h' (List.mem_cons_of_mem _ hh')
      · exact hrest h' hh'
  · exact hpop
  · rename_i n id ids
    obtain ⟨l, h, hl⟩ :=
      callReg_allowed (s := s) (u := { s with nested := .events n ids :: rest }) rfl rfl id
      (.gameEvent n) fun _ heq => by cases heq
    rw [h]
    exact { hpop with calls := ⟨l, rfl, hl⟩ }

theorem addressed_of_work {work : List Work} (hwork : ∀ w ∈ work, w ∈ s.work ∨ w.commands = []) :
    ∀ a ∈ { s with work := work }.addressed, a ∈ s.addressed ∨ ∃ r ∈ s.regs, a.1 = r.id ∧
    a.2.owner = r.owner := by
  intro a ha
  refine .inl ?_
  rcases List.mem_append.mp ha with ha | ha
  · exact List.mem_append_left _ ha
  · obtain ⟨w, hw, haw⟩ := List.mem_flatMap.mp ha
    rcases hwork w hw with hmem | hnil
    · exact List.mem_append_right _ (List.mem_flatMap.mpr ⟨w, hmem, haw⟩)
    · rw [hnil] at haw
      cases haw

theorem Acts.push {w : Work} {rest l : List Work} (hw : s.work = w :: rest)
    (hl : ∀ w ∈ l, w.commands = []) : Acts s { s with work := l ++ rest } := by
  refine { Acts.rfl s with addressed := addressed_of_work fun w' hw' => ?_ }
  rcases List.mem_append.mp hw' with hw' | hw'
  · exact .inr (hl w' hw')
  · rw [hw]
    exact .inl (List.mem_cons_of_mem _ hw')

theorem Acts.pop {w : Work} {rest : List Work} (hw : s.work = w :: rest) :
    Acts s { s with work := rest } :=
  Acts.push (l := []) hw fun _ hw' => by cases hw'

theorem runOp_acts {w : Work} {rest : List Work} (hw : s.work = w :: rest) (o : PendingOp)
    (env : Env) : Acts s ({ s with work := rest }.runOp o env) := by
  rw [runOp]
  split
  · exact Acts.push (l := [_]) hw (List.forall_mem_singleton.mpr rfl)
  · exact Acts.push (l := [_]) hw (List.forall_mem_singleton.mpr rfl)
  · refine Acts.push hw ?_
    split_ifs
    · exact List.forall_mem_cons.mpr ⟨rfl, List.forall_mem_singleton.mpr rfl⟩
    · exact List.forall_mem_singleton.mpr rfl
  · split_ifs
    · exact Acts.push (l := [_]) hw (List.forall_mem_singleton.mpr rfl)
    · exact Acts.pop hw
  · split_ifs
    · exact Acts.push (l := [_]) hw (List.forall_mem_singleton.mpr rfl)
    · exact Acts.pop hw

theorem mem_roster_of_findByName {name : Bytes} {i : Instance} (h : s.findByName name = some i) :
    (name, i.id) ∈ s.roster := by
  have hname : i.name = name := by simpa using List.find?_some h
  exact List.mem_map.mpr ⟨i, List.mem_of_find?_eq_some h, by rw [hname]⟩

theorem unloadNow_acts (s : Host) (name : Bytes) : Acts s (s.unloadNow name) := by
  rw [unloadNow]
  split
  · exact .rfl s
  · rename_i i hi
    have hmem := mem_roster_of_findByName hi
    refine { Acts.rfl s with roster := ?_, current := ?_, calls := ⟨_, rfl, ?_⟩ }
    · rw [roster, List.map_map]
      refine List.map_congr_left fun i' _ => ?_
      dsimp only [Function.comp_apply]
      split_ifs <;> rfl
    · rintro p ⟨⟩
      exact .inr hmem
    · rw [List.forall_mem_singleton]
      exact ⟨.inl (mem_ids_iff.mpr ⟨name, hmem⟩), fun _ _ heq => by cases heq⟩

theorem Alive.load {name : Bytes} (hs : Alive s) (hname : name ∉ s.roster.map (·.1)) :
    Alive { s with
      nextId := s.nextId + 1
      loaded := s.loaded ++ [{ name, id := s.nextId + 1 }]
      running := some (.load name (s.nextId + 1))
      calls := s.calls ++ [.load (s.nextId + 1)] } := by
  have hold :
      ∀ {o : ℕ}, o ∈ s.ids → o ∈ List.map (·.id) (s.loaded ++ [{ name, id := s.nextId + 1 }]) := by
    intro o ho
    rw [List.map_append]
    exact List.mem_append_left _ ho
  refine { hs with
    names := ?_
    ids := ?_
    given := ?_
    current := ?_
    regs := fun r hr => hold (hs.regs r hr)
    ifaces := fun i hi => hold (hs.ifaces i hi)
    chatPrefixes := fun p hp => hold (hs.chatPrefixes p hp)
    tasks := fun t ht => hold (hs.tasks t ht)
    cvarQueries := fun q hq => hold (hs.cvarQueries q hq)
    admins := fun p hp => hold (hs.admins p hp)
    copied := fun h hh => hold (hs.copied h hh)
    delivered := ?_ }
  · rw [roster, List.map_append, List.map_append]
    refine List.Nodup.append hs.names (List.nodup_singleton _) ?_
    exact List.disjoint_singleton.mpr hname
  · rw [Host.ids, List.map_append]
    refine List.Nodup.append hs.ids (List.nodup_singleton _)
      (List.disjoint_singleton.mpr fun hmem => ?_)
    exact absurd (hs.given _ hmem) (Nat.not_succ_le_self _)
  · rw [Host.ids, List.map_append, List.forall_mem_append]
    exact ⟨fun id hid => Nat.le_succ_of_le (hs.given id hid), List.forall_mem_singleton.mpr le_rfl⟩
  · rintro p ⟨⟩
    rw [roster, List.map_append]
    exact List.mem_append_right _ (List.mem_singleton.mpr rfl)
  · intro r c hc
    rcases List.mem_append.mp hc with hc | hc
    · exact hs.delivered r c hc
    · cases List.mem_singleton.mp hc

theorem loadNow_keeps (s : Host) (name : Bytes) (image : Bool) :
    Keeps s (s.loadNow name image) := by
  rw [loadNow]
  split_ifs with hload
  · intro hs
    have hname : name ∉ s.roster.map (·.1) := by
      rw [roster, List.map_map]
      intro hmem
      obtain ⟨i, hi, heq⟩ := List.mem_map.mp hmem
      exact List.find?_eq_none.mp (Option.isNone_iff_eq_none.mp hload.2.1) i hi (beq_iff_eq.mpr heq)
    refine ⟨hs.load hname, _, rfl, fun id hid => ?_⟩
    have hne : s.nextId + 1 ≠ id := by
      have hle := hid.1
      omega
    refine ⟨⟨Nat.le_succ_of_le hid.1, ?_⟩, List.forall_mem_singleton.mpr hne⟩
    rw [Host.ids, List.map_append, List.mem_append, not_or]
    exact ⟨hid.2, fun hmem => hne (List.mem_singleton.mp hmem).symm⟩
  · exact (Acts.rfl s).keeps

/-- The end of an instance takes its id away and nothing else. -/
theorem mem_ids_close {name : Bytes} {id : ℕ} (hs : Alive s) (hid : (name, id) ∈ s.roster) (o : ℕ) :
    o ∈ (s.close name id).ids ↔ o ∈ s.ids ∧ o ≠ id := by
  have hids : (s.roster.map (·.2)).Nodup := by
    rw [roster, List.map_map]
    exact hs.ids
  have hroster : (s.close name id).roster = s.roster.filter (·.1 ≠ name) := by
    rw [roster, roster, List.filter_map]
    rfl
  rw [mem_ids_iff, mem_ids_iff, hroster]
  simp only [List.mem_filter, decide_eq_true_eq]
  constructor
  · rintro ⟨n, hn, hne⟩
    refine ⟨⟨n, hn⟩, fun heq => hne ?_⟩
    have heq' := List.inj_on_of_nodup_map hids hn hid heq
    exact congrArg Prod.fst heq'
  · rintro ⟨⟨n, hn⟩, hne⟩
    refine ⟨n, hn, fun heq => hne ?_⟩
    have heq' := List.inj_on_of_nodup_map hs.names hn hid heq
    exact congrArg Prod.snd heq'

/-- `UnloadNow` and a load that failed take everything down that the instance owns. -/
theorem close_keeps {name : Bytes} {id : ℕ} (hcurrent : s.current = some (name, id))
    (hnested : s.nested = []) : Keeps s (s.close name id) := by
  intro hs
  have hmem := mem_ids_close hs (hs.current _ hcurrent)
  have hleft : ∀ {α : Type} {l : List α} (owner : α → ℕ), (∀ a ∈ l, owner a ∈ s.ids) →
      ∀ a ∈ l.filter (owner · ≠ id), owner a ∈ (s.close name id).ids := by
    intro α l owner hl a ha
    rw [List.mem_filter, decide_eq_true_eq] at ha
    exact (hmem _).mpr ⟨hl a ha.1, ha.2⟩
  have hloaded : (s.close name id).loaded.Sublist s.loaded := List.filter_sublist
  have hregs : (s.close name id).regs.Sublist s.regs := List.filter_sublist
  refine ⟨?_, [], (List.append_nil _).symm, fun o ho =>
    ⟨⟨ho.1, fun h => ho.2 ((hmem o).mp h).1⟩, fun _ hc => by cases hc⟩⟩
  exact {
    names := hs.names.sublist ((hloaded.map _).map _)
    ids := hs.ids.sublist (hloaded.map _)
    given := fun o ho => hs.given o ((hmem o).mp ho).1
    current := fun _ hp => by cases hp
    regs :=
      fun r hr => (hmem _).mpr ⟨hs.regs r (hregs.subset hr), by simpa using List.of_mem_filter hr⟩
    ifaces := hleft (fun i : Bytes × Iface => i.2.owner) hs.ifaces
    chatPrefixes := hleft (fun p : ℕ × ChatPrefix => p.2.owner) hs.chatPrefixes
    tasks := hleft QueuedTask.owner hs.tasks
    cvarQueries := hleft CvarQuery.owner hs.cvarQueries
    admins := hleft AdminProvider.owner hs.admins
    copied := by
      intro h hh
      rw [copiedHits, show (s.close name id).nested = [] from hnested] at hh
      cases hh
    handles := hs.handles.sublist (hregs.map _)
    handle := fun r hr => hs.handle r (hregs.subset hr)
    addressed := fun a ha =>
      ⟨(hs.addressed a ha).1, fun r hr => (hs.addressed a ha).2 r (hregs.subset hr)⟩
    delivered := hs.delivered }

theorem doWork_keeps {w : Work} {rest : List Work} (hw : s.work = w :: rest) (env : Env) :
    Keeps s ({ s with work := rest }.doWork env w) := by
  have hpop : Acts s { s with work := rest } := Acts.pop hw
  -- a call of an instance that is loaded
  have hcall : ∀ c : Call, c.owner ∈ s.ids → (∀ r q, c ≠ .reg r (.command q)) →
      Acts s ({ s with work := rest }.note c) := by
    intro c howner hcommand
    refine { hpop with calls := ⟨[c], rfl, List.forall_mem_singleton.mpr ?_⟩ }
    exact ⟨.inl howner, fun r q heq => absurd heq (hcommand r q)⟩
  cases w with
  | load name => exact hpop.keeps.trans (loadNow_keeps _ name env.image)
  | unload name => exact hpop.keeps.trans (unloadNow_acts _ name).keeps
  | ops =>
    have h := Acts.push (l := s.ops.map .op) hw (List.forall_mem_map.mpr fun _ _ => rfl)
    exact Acts.keeps { h with }
  | op o => exact (runOp_acts hw o env).keeps
  | queues =>
    refine Acts.keeps { hpop with
      tasks := fun _ ht => (by cases ht), addressed := fun a ha => .inl ?_ }
    -- the queued commands are the next ones to deliver
    obtain ⟨w, hmem, ha⟩ :=
      List.mem_flatMap.mp ((List.mem_append.mp ha).resolve_left List.not_mem_nil)
    simp only [doWork, List.mem_append, List.mem_map] at hmem
    rcases hmem with ((⟨t, -, rfl⟩ | ⟨c, hc, rfl⟩) | ⟨e, -, rfl⟩) | hmem
    · cases ha
    · rw [List.mem_singleton.mp ha]
      exact List.mem_append_left _ (List.mem_map.mpr ⟨c, hc, rfl⟩)
    · cases ha
    · rw [addressed, hw]
      exact List.mem_append_right _ (List.mem_append_right _ (List.mem_flatMap.mpr ⟨w, hmem, ha⟩))
  | task t =>
    rw [doWork]
    split_ifs with hlive
    · exact (hcall (.task t) (mem_ids_of_live (s := s) hlive) fun _ _ heq => by cases heq).keeps
    · exact hpop.keeps
  | event e => exact (Acts.push hw (List.forall_mem_map.mpr fun _ _ => rfl)).keeps
  | reg id arg =>
    obtain ⟨l, h, hl⟩ := callReg_allowed (s := s) (u := { s with work := rest }) rfl rfl id arg (by
      rintro c rfl
      rw [addressed, hw]
      exact List.mem_append_right _ List.mem_cons_self)
    rw [doWork, h]
    exact Acts.keeps { hpop with calls := ⟨l, rfl, hl⟩ }
  | logLines =>
    rw [doWork]
    split_ifs
    · have h :=
        Acts.push (l := s.logLines.flatMap fun l =>
          (s.regIds (·.kind = .logLine)).map (.reg · (.line l))) hw
        (List.forall_mem_flatMap.mpr fun _ _ => List.forall_mem_map.mpr fun _ _ => rfl)
      exact Acts.keeps { h with }
    · exact hpop.keeps
  | cvars =>
    have h := Acts.push (l := (s.cvarQueries.filter (isReady env.now)).map .answer) hw
      (List.forall_mem_map.mpr fun _ _ => rfl)
    exact Acts.keeps { h with cvarQueries := fun q hq => .inl ⟨q, List.mem_of_mem_filter hq, rfl⟩ }
  | answer q =>
    rw [doWork]
    split_ifs with hlive
    · exact (hcall (.cvar q) (mem_ids_of_live (s := s) hlive) fun _ _ heq => by cases heq).keeps
    · exact hpop.keeps
  | ticks kind simulating => exact (Acts.push hw (List.forall_mem_map.mpr fun _ _ => rfl)).keeps

theorem gameStep_keeps (s : Host) (env : Env) : Keeps s (s.gameStep env) := by
  rw [gameStep]
  split
  · rename_i n rest hn
    exact (doNested_acts hn env).keeps
  · rename_i name id hnested hrunning
    split_ifs
    · exact Acts.keeps { Acts.rfl s with current := fun _ hp => by cases hp }
    · exact close_keeps (by rw [current, hrunning]; rfl) hnested
  · rename_i name id hnested hrunning
    exact close_keeps (by rw [current, hrunning]; rfl) hnested
  · rename_i w rest _ _ hw
    exact doWork_keeps hw env
  · exact (Acts.rfl s).keeps

theorem mem_of_mem_asked {answer : AdminProvider → ℤ} {p : AdminProvider} {l : List AdminProvider}
    (h : p ∈ asked answer l) : p ∈ l := by
  induction l with
  | nil => exact h
  | cons q l ih =>
    rw [asked, List.mem_cons] at h
    rcases h with rfl | h
    · exact List.mem_cons_self
    · split_ifs at h
      · cases h
      · exact List.mem_cons_of_mem _ (ih h)

theorem adminVerdict_acts (s : Host) (steamid64 : ℕ) (answer : AdminProvider → ℤ) :
    Acts s (s.adminVerdict steamid64 answer) := by
  refine { Acts.rfl s with calls := ⟨_, rfl, List.forall_mem_map.mpr fun p hp => ?_⟩ }
  exact ⟨.inr (.inl ⟨p, mem_of_mem_asked hp, rfl⟩), fun _ _ heq => by cases heq⟩

theorem runPluginSelftests_acts (s : Host) : Acts s s.runPluginSelftests := by
  refine { Acts.rfl s with calls := ⟨_, rfl, List.forall_mem_map.mpr fun i hi => ?_⟩ }
  have hlive := List.of_mem_filter hi
  simp only [Bool.and_eq_true] at hlive
  exact ⟨.inl (mem_ids_of_live hlive.2), fun _ _ heq => by cases heq⟩

theorem callInterface_acts (s : Host) (name : Bytes) (minVersion : ℕ) :
    Acts s (s.callInterface name minVersion) := by
  rw [callInterface]
  split
  · exact .rfl s
  · rename_i i _
    split_ifs with hcall
    · refine { Acts.rfl s with calls := ⟨_, rfl, List.forall_mem_singleton.mpr ?_⟩ }
      exact ⟨.inl (mem_ids_of_live hcall.2), fun _ _ heq => by cases heq⟩
    · exact .rfl s

theorem filterCommand_acts (s : Host) (argv : List Bytes) : Acts s (s.filterCommand argv) := by
  rw [filterCommand.eq_def]
  split
  · exact .rfl s
  · rename_i cmd rest
    refine { Acts.rfl s with copied := fun h hh => ?_ }
    rcases List.mem_append.mp hh with hh | hh
    · obtain ⟨r, hr, rfl⟩ := List.mem_map.mp hh
      have hlive := List.of_mem_filter hr
      rw [Bool.and_eq_true] at hlive
      exact .inr (mem_ids_of_live hlive.2)
    · exact .inl hh

theorem frame_acts (s : Host) (simulating : Bool) (files : List Bytes) :
    Acts s (s.frame simulating files) := by
  have hwork : ∀ w ∈ frameWork s.initialized simulating files, w.commands = [] := by
    simp only [frameWork, List.forall_mem_append, List.forall_mem_cons]
    refine ⟨⟨⟨?_, rfl, rfl, rfl, rfl, ?_⟩, ?_⟩, rfl, ?_⟩
    · split_ifs
      · exact fun _ hw => by cases hw
      · exact List.forall_mem_map.mpr fun _ _ => rfl
    · exact fun _ hw => by cases hw
    · split_ifs
      · exact List.forall_mem_singleton.mpr rfl
      · exact fun _ hw => by cases hw
    · exact fun _ hw => by cases hw
  rw [frame]
  split_ifs
  · have h : Acts s { s with work := frameWork s.initialized simulating files } :=
      { Acts.rfl s with addressed := addressed_of_work fun w hw => .inr (hwork w hw) }
    exact { h with }
  · exact .rfl s

theorem quit_acts (s : Host) : Acts s s.quit :=
  { Acts.rfl s with
    current := fun _ hp => by cases hp
    copied := fun _ hh => by cases hh
    addressed := addressed_of_work (List.forall_mem_map.mpr fun _ _ => .inr rfl) }

/-- Every step keeps the tables right, and calls nothing of what is gone. -/
theorem step_keeps (s : Host) (e : Event) : Keeps s (s.step e) := by
  have hgame : ∀ {t : Host}, Keeps s t → Keeps s (s.onGameThread t) := by
    intro t h
    rw [onGameThread]
    split_ifs
    · exact (Acts.rfl s).keeps
    · exact h
  cases e with
  | api self call =>
    refine hgame ?_
    split_ifs with hself
    · exact (apply_acts (mem_ids_of_findById hself) call).keeps
    · exact (Acts.rfl s).keeps
  | enqueued ok => exact (enqueued_acts s ok).keeps
  | postToGameThread self fn user =>
    rw [step, postToGameThread]
    split_ifs with hpost
    · refine Acts.keeps { Acts.rfl s with tasks := ?_ }
      rw [List.forall_mem_append, List.forall_mem_singleton]
      exact ⟨fun t ht => .inl ht, .inr (mem_ids_of_live hpost.2.1)⟩
    · exact (Acts.rfl s).keeps
  | postEvent e =>
    obtain ⟨map, events, h⟩ := postEvent_eq s e
    rw [step, h]
    exact Acts.keeps { Acts.rfl s with }
  | postLogLine line => exact (postLogLine_acts s line).keeps
  | dispatchChat steamid64 playerName text slot =>
    exact (tryDispatchChat_queues s _ _ _ _).acts.keeps
  | dispatchRu console steamid64 playerName text slot =>
    exact (tryDispatchRu_queues s _ _ _ _ _).acts.keeps
  | dispatchConsole line => exact (tryDispatchConsole_queues s line).acts.keeps
  | observeConsole line => exact (observeConsole_queues s line).acts.keeps
  | pluginCommand verb name =>
    rw [step]
    split_ifs
    · exact Acts.keeps { Acts.rfl s with }
    · exact (Acts.rfl s).keeps
  | adminVerdict steamid64 answer => exact (adminVerdict_acts s steamid64 answer).keeps
  | runPluginSelftests => exact (runPluginSelftests_acts s).keeps
  | callInterface name minVersion => exact hgame (callInterface_acts s name minVersion).keeps
  | filterCommand argv => exact hgame (filterCommand_acts s argv).keeps
  | gameEvent name =>
    refine hgame ?_
    rw [dispatchGameEvent]
    split_ifs
    · exact Acts.keeps { Acts.rfl s with }
    · exact (Acts.rfl s).keeps
  | frame simulating files => exact hgame (frame_acts s simulating files).keeps
  | game env => exact hgame (gameStep_keeps s env)
  | quit => exact (quit_acts s).keeps

theorem run_keeps (s : Host) (es : List Event) : Keeps s (run step s es) := by
  induction es generalizing s with
  | nil => exact (Acts.rfl s).keeps
  | cons e es ih => exact (step_keeps s e).trans (ih _)

theorem alive_empty : Alive {} where
  names := List.nodup_nil
  ids := List.nodup_nil
  given _ hid := by cases hid
  current _ hp := by cases hp
  regs _ hr := by cases hr
  ifaces _ hi := by cases hi
  chatPrefixes _ hp := by cases hp
  tasks _ ht := by cases ht
  cvarQueries _ hq := by cases hq
  admins _ hp := by cases hp
  copied _ hh := by cases hh
  handles := List.nodup_nil
  handle _ hr := by cases hr
  addressed _ ha := by cases ha
  delivered _ _ hc := by cases hc

/-- The step in which `UnloadNow` of an instance, or a load of it that failed, is over. -/
def Ends (s : Host) (env : Env) (id : ℕ) : Prop :=
  s.asking = none ∧ s.nested = [] ∧
    ∃ name, s.running = some (.unload name id) ∨ s.running = some (.load name id) ∧ env.rc ≠ 0

theorem Ends.step_eq {env : Env} {id : ℕ} (h : Ends s env id) :
    ∃ name, s.current = some (name, id) ∧ s.step (.game env) = s.close name id := by
  obtain ⟨hasking, hnested, name, hrunning⟩ := h
  refine ⟨name, ?_, ?_⟩
  · rcases hrunning with hrunning | ⟨hrunning, -⟩
    · rw [current, hrunning]; rfl
    · rw [current, hrunning]; rfl
  · rw [step, onGameThread, hasking, gameStep, hnested]
    rcases hrunning with hrunning | ⟨hrunning, hrc⟩
    · rw [hrunning]; rfl
    · rw [hrunning]
      exact if_neg hrc

/-- An instance whose unload or failed load is over is never called again, owns nothing any more,
and no command that was queued for it reaches another instance, whatever happens next. -/
theorem gone_for_ever (es : List Event) (env : Env) (id : ℕ) (h : Ends (run step {} es) env id)
    (fs : List Event) : let s := (run step {} es).step (.game env)
    let t := run step s fs
    id ∉ t.ids ∧ Forgets t id ∧ ∃ l, t.calls = s.calls ++ l ∧ (∀ c ∈ l, c.owner ≠ id) ∧
      ∀ r c, Call.reg r (.command c) ∈ l → r.owner = c.owner := by
  intro s t
  have hbefore := (run_keeps {} es alive_empty).1
  obtain ⟨name, hcurrent, hclose⟩ := h.step_eq
  have hs : Alive s := (step_keeps _ _ hbefore).1
  have hgone : Gone s id := by
    have hmem : id ∈ (run step {} es).ids := mem_ids_iff.mpr ⟨name, hbefore.current _ hcurrent⟩
    refine ⟨?_, ?_⟩
    · exact (hbefore.given id hmem).trans_eq (by rw [show s = _ from hclose]; rfl)
    · rw [show s = _ from hclose, mem_ids_close hbefore (hbefore.current _ hcurrent)]
      exact fun hid => hid.2 rfl
  obtain ⟨ht, l, hl, hfollows⟩ := run_keeps s fs hs
  obtain ⟨hgone', hcalls⟩ := hfollows id hgone
  refine ⟨hgone'.2, ht.forgets hgone'.2, l, hl, hcalls, fun r c hc => ht.delivered r c ?_⟩
  rw [show t.calls = _ from hl]
  exact List.mem_append_right _ hc

/-- A plugin that is reloaded while a command for it waits, up to the end of the unload. -/
def reloading : List Event :=
  [.frame false [ascii "stats"], .game {}, .api 1 (.registerChat (ascii ".st") {} 7 0)] ++
    List.replicate 6 (.game {}) ++
    [.dispatchChat 5 [] (ascii ".st") 0, .pluginCommand .reload (ascii "stats"), .frame false []] ++
      List.replicate 3 (.game {})

/-- The new instance has the command under the same name, and does not get what was queued. -/
theorem gone_after_reload : Ends (run step {} reloading) {} 1 ∧
    (run step {} (reloading.take 10)).cmds.map (·.owner) = [1] ∧
      (let s := (run step {} reloading).step (.game {})
      let t := run step s ([.game {}, .api 2 (.registerChat (ascii ".st") {} 8 0)] ++
    List.replicate 9 (.game {}))
      (1 ∉ t.ids ∧ Forgets t 1 ∧ ∃ l, t.calls = s.calls ++ l ∧ (∀ c ∈ l, c.owner ≠ 1) ∧
        ∀ r c, Call.reg r (.command c) ∈ l → r.owner = c.owner) ∧
        t.calls = [.load 1, .unload 1, .load 2]) := by
  have hends : Ends (run step {} reloading) {} 1 :=
    ⟨by decide, by decide, ascii "stats", .inl (by decide)⟩
  exact ⟨hends, by decide, gone_for_ever reloading {} 1 hends _, by decide⟩

end Steps

end Host

end ReadyUp.Plugins
