import ReadyUp.Plugins.Host

/-!
# What the dispatchers queue

A dispatcher looks a command up among the registrations and queues it for the game thread. What
may be queued is said once (`QueuesOnly`): a command for a registration, and nothing else changes.
-/
namespace ReadyUp.Plugins

open Support

namespace Host

section Spec

variable {s : Host}

theorem mem_ids_of_findById {self : ℕ} (h : (s.findById self).isSome = true) : self ∈ s.ids := by
  obtain ⟨i, hi⟩ := Option.isSome_iff_exists.mp h
  have hid : i.id = self := by simpa using List.find?_some hi
  exact List.mem_map.mpr ⟨i, List.mem_of_find?_eq_some hi, hid⟩

theorem mem_ids_of_live {id : ℕ} (h : (s.live id).isSome = true) : id ∈ s.ids := by
  obtain ⟨i, hi⟩ := Option.isSome_iff_exists.mp h
  exact mem_ids_of_findById (Option.isSome_of_mem (Option.filter_eq_some_iff.mp hi).1)

/-- A command that was queued for a registration. -/
def QueuedFor (s : Host) (c : QueuedCmd) : Prop := ∃ r ∈ s.regs, c.reg = r.id ∧ c.owner = r.owner

/-- Commands are queued for registrations, and nothing else changes. -/
structure Queues (s t : Host) : Prop where
  eq : ∃ l, t = { s with cmds := s.cmds ++ l } ∧ ∀ c ∈ l, s.QueuedFor c

theorem queues_refl (s : Host) : Queues s s :=
  ⟨[], by rw [List.append_nil], fun _ hc => by cases hc⟩

theorem queueCommand_queues (s : Host) (kind : RegKind) (token : Bytes) (c : QueuedCmd) :
    Queues s (s.queueCommand kind token c).1 := by
  rw [queueCommand]
  split
  · exact queues_refl s
  · rename_i r hr
    split_ifs
    · exact queues_refl s
    · exact queues_refl s
    · refine ⟨_, rfl, ?_⟩
      rw [List.forall_mem_singleton]
      exact ⟨r, List.mem_of_find?_eq_some hr, rfl, rfl⟩

theorem tryDispatchChat_queues (s : Host) (steamid64 : ℕ) (playerName text : Bytes) (slot : ℤ) :
    Queues s (s.tryDispatchChat steamid64 playerName text slot).1 := by
  rw [tryDispatchChat]
  split
  · exact queues_refl s
  · split_ifs
    · exact queues_refl s
    · exact queueCommand_queues _ _ _ _

theorem tryDispatchRu_queues (s : Host) (console : Bool) (steamid64 : ℕ) (playerName text : Bytes)
    (slot : ℤ) : Queues s (s.tryDispatchRu console steamid64 playerName text slot).1 := by
  unfold tryDispatchRu
  split
  · split
    · exact queues_refl s
    · exact queueCommand_queues _ _ _ _
  · exact queues_refl s

theorem tryDispatchConsole_queues (s : Host) (line : Bytes) :
    Queues s (s.tryDispatchConsole line).1 := by
  rw [tryDispatchConsole]
  split
  · exact queues_refl s
  · exact queueCommand_queues _ _ _ _

theorem observeConsole_queues (s : Host) (line : Bytes) : Queues s (s.observeConsole line) := by
  rw [observeConsole]
  split
  · exact queues_refl s
  · rename_i first rest _
    -- the loop goes over the registrations, which it does not change
    have hloop : ∀ l : List Reg, (∀ r ∈ l, r ∈ s.regs) → ∀ t, Queues s t →
        Queues s (l.foldl (observe (lower first) line) t) := by
      intro l
      induction l with
      | nil => exact fun _ t ht => ht
      | cons r l ih =>
        intro hl t ht
        rw [List.forall_mem_cons] at hl
        refine ih hl.2 _ ?_
        rw [observe]
        split_ifs
        · obtain ⟨l', rfl, hl'⟩ := ht
          refine ⟨l' ++ [_], by rw [← List.append_assoc], ?_⟩
          rw [List.forall_mem_append, List.forall_mem_singleton]
          exact ⟨hl', r, hl.1, rfl, rfl⟩
        · exact ht
    exact hloop s.regs (fun r hr => hr) s (queues_refl s)

/-- Commands are queued for registrations that may have them, and nothing else changes. -/
def QueuesOnly (p : QueuedCmd → Reg → Prop) (s t : Host) : Prop :=
  ∃ l, t = { s with cmds := s.cmds ++ l } ∧ ∀ c ∈ l, ∃ r ∈ s.regs, c.reg = r.id ∧ p c r

section QueuesOnly

variable {p : QueuedCmd → Reg → Prop}

theorem QueuesOnly.refl (s : Host) : QueuesOnly p s s :=
  ⟨[], by rw [List.append_nil], fun _ hc => by cases hc⟩

theorem QueuesOnly.trans {t u : Host} (h : QueuesOnly p s t) (h' : QueuesOnly p t u) :
    QueuesOnly p s u := by
  obtain ⟨l, rfl, hl⟩ := h
  obtain ⟨l', rfl, hl'⟩ := h'
  exact ⟨l ++ l', by rw [← List.append_assoc], List.forall_mem_append.mpr ⟨hl, hl'⟩⟩

/-- A command is queued for a registration with its name, or nothing happens. -/
theorem queueCommand_only {kind : RegKind} {token : Bytes} {c : QueuedCmd}
    (hp : ∀ r ∈ s.regs, r.kind = kind → r.name = token →
      p { c with reg := r.id, owner := r.owner } r) :
    QueuesOnly p s (s.queueCommand kind token c).1 ∧
      ((s.queueCommand kind token c).2 = false → (s.queueCommand kind token c).1 = s) := by
  rw [queueCommand]
  split
  · exact ⟨.refl s, fun _ => rfl⟩
  · rename_i r hr
    split
    · exact ⟨.refl s, fun _ => rfl⟩
    · split
      · exact ⟨.refl s, fun _ => rfl⟩
      · have hfound := List.find?_some hr
        rw [decide_eq_true_eq] at hfound
        have hmem := List.mem_of_find?_eq_some hr
        refine ⟨⟨_, rfl, List.forall_mem_singleton.mpr
          ⟨r, hmem, rfl, hp r hmem hfound.1 hfound.2.1⟩⟩, fun h => ?_⟩
        cases h

theorem tryDispatchChat_only {text : Bytes} (steamid64 : ℕ) (playerName : Bytes) (slot : ℤ)
    (hp : ∀ first rest, splitWS text = first :: rest → ∀ r ∈ s.regs, r.kind = .chat →
      r.name = lower first → ∀ c : QueuedCmd, c.text = text → p c r) :
    QueuesOnly p s (s.tryDispatchChat steamid64 playerName text slot).1 ∧
      ((s.tryDispatchChat steamid64 playerName text slot).2 = false →
        (s.tryDispatchChat steamid64 playerName text slot).1 = s) := by
  rw [tryDispatchChat]
  split
  · exact ⟨.refl s, fun _ => rfl⟩
  · rename_i first rest hwords
    split
    · exact ⟨.refl s, fun _ => rfl⟩
    · exact queueCommand_only fun r hr hkind hname => hp first rest hwords r hr hkind hname _ rfl

theorem tryDispatchRu_only {text : Bytes} (console : Bool) (steamid64 : ℕ)
    (playerName : Bytes) (slot : ℤ)
    (hp : ∀ first sub rest, splitWS text = first :: sub :: rest → ∀ r ∈ s.regs, r.kind = .ruSub →
      r.name = lower sub → ∀ c : QueuedCmd, c.text = text → p c r) :
    QueuesOnly p s (s.tryDispatchRu console steamid64 playerName text slot).1 ∧
      ((s.tryDispatchRu console steamid64 playerName text slot).2 = false →
        (s.tryDispatchRu console steamid64 playerName text slot).1 = s) := by
  unfold tryDispatchRu
  split
  · rename_i first sub rest hwords
    split
    · exact ⟨.refl s, fun _ => rfl⟩
    · refine queueCommand_only fun r hr hkind hname =>
        hp first sub rest hwords r hr hkind hname _ ?_
      split_ifs <;> rfl
  · exact ⟨.refl s, fun _ => rfl⟩

theorem tryDispatchConsole_only {line : Bytes}
    (hp : ∀ first rest, splitWS line = first :: rest → ∀ r ∈ s.regs, r.kind = .console →
      r.name = lower first → ∀ c : QueuedCmd, c.text = line → p c r) :
    QueuesOnly p s (s.tryDispatchConsole line).1 ∧
      ((s.tryDispatchConsole line).2 = false → (s.tryDispatchConsole line).1 = s) := by
  rw [tryDispatchConsole]
  split
  · exact ⟨.refl s, fun _ => rfl⟩
  · rename_i first rest hwords
    exact queueCommand_only fun r hr hkind hname => hp first rest hwords r hr hkind hname _ rfl

theorem observeConsole_only {line : Bytes}
    (hp : ∀ first rest, splitWS line = first :: rest → ∀ r ∈ s.regs, r.kind = .console →
      r.name = lower first → ∀ c : QueuedCmd, c.text = line → p c r) :
    QueuesOnly p s (s.observeConsole line) := by
  rw [observeConsole]
  split
  · exact .refl s
  · rename_i first rest hwords
    have hloop : ∀ l : List Reg, (∀ r ∈ l, r ∈ s.regs) → ∀ t, QueuesOnly p s t →
        QueuesOnly p s (l.foldl (observe (lower first) line) t) := by
      intro l
      induction l with
      | nil => exact fun _ t ht => ht
      | cons r l ih =>
        intro hl t ht
        rw [List.forall_mem_cons] at hl
        refine ih hl.2 _ ?_
        rw [observe]
        split_ifs with hobserves
        · obtain ⟨l', rfl, hl'⟩ := ht
          refine ⟨l' ++ [_], by rw [← List.append_assoc], ?_⟩
          rw [List.forall_mem_append, List.forall_mem_singleton]
          exact ⟨hl', r, hl.1, rfl, hp first rest hwords r hl.1 hobserves.1 hobserves.2.2.1 _ rfl⟩
        · exact ht
    exact hloop s.regs (fun r hr => hr) s (.refl s)

end QueuesOnly

theorem postEvent_eq (s : Host) (e : LifecycleEvent) :
    ∃ map events, s.postEvent e = { s with currentMap := map, events := events } := by
  have hpush :
      ∀ (t : Host) (e : LifecycleEvent), ∃ events, t.pushEvent e = { t with events := events } := by
    intro t e
    rw [pushEvent]
    split_ifs
    · exact ⟨_, rfl⟩
    · exact ⟨_, rfl⟩
    · exact ⟨t.events, rfl⟩
  rw [postEvent]
  split_ifs
  · exact ⟨s.currentMap, s.events, rfl⟩
  · obtain ⟨events, h⟩ := hpush { s with currentMap := e.map } e
    exact ⟨e.map, events, h⟩
  · obtain ⟨events, h⟩ := hpush s { e with map := s.currentMap }
    exact ⟨s.currentMap, events, h⟩

theorem postLogLine_eq (s : Host) (line : Bytes) :
    ∃ lines, s.postLogLine line = { s with logLines := lines } ∨
      s.postLogLine line = { s.matchCvarLine line with logLines := lines } := by
  have hqueue : ∀ t : Host, ∃ lines, t.queueLine line = { t with logLines := lines } := by
    intro t
    rw [queueLine]
    split_ifs
    · exact ⟨_, rfl⟩
    · exact ⟨_, rfl⟩
    · exact ⟨t.logLines, rfl⟩
  rw [postLogLine]
  split_ifs
  · exact ⟨s.logLines, .inl rfl⟩
  · obtain ⟨lines, h⟩ := hqueue (s.matchCvarLine line)
    exact ⟨lines, .inr h⟩
  · obtain ⟨lines, h⟩ := hqueue s
    exact ⟨lines, .inl h⟩

/-- A handle is called only while its registration and the owner of it are there. -/
theorem callReg_eq (s : Host) (id : ℕ) (arg : Arg) :
    ∃ l, s.callReg id arg = { s with calls := s.calls ++ l } ∧
      ∀ c ∈ l, ∃ r ∈ s.regs, r.id = id ∧ r.owner ∈ s.ids ∧ c = .reg r arg := by
  rw [callReg]
  split
  · exact ⟨[], by rw [List.append_nil], fun _ hc => by cases hc⟩
  · rename_i r hr
    obtain ⟨hfind, hlive⟩ := Option.filter_eq_some_iff.mp hr
    refine ⟨_, rfl, ?_⟩
    rw [List.forall_mem_singleton]
    exact ⟨r, List.mem_of_find?_eq_some hfind, by simpa using List.find?_some hfind,
      mem_ids_of_live hlive, rfl⟩

end Spec

end Host

end ReadyUp.Plugins
