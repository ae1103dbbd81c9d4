import ReadyUp.Status.MergeCarry
import ReadyUp.Support.Runs

/-!
# The live state stream

The bridge publishes the match state once, at `Reset`, and then sends merge patches. Every
patch bumps `live_rev`, which is a member of the state itself. The platform keeps a replica
by applying the patches in order; `replica_eq_state` says that the replica never drifts.
-/
namespace ReadyUp.Fleet

open Support Status Json

mutual

/-- `StripNulls`: unlike `dropNulls` it also goes into arrays. -/
def stripNulls : Json → Json
  | .object ms => .object (stripMembers [] ms)
  | .array vs => .array (stripItems vs)
  | v => v

def stripMembers : List (Bytes × Json) → List (Bytes × Json) → List (Bytes × Json)
  | out, [] => out
  | out, (k, v) :: ms =>
    if v.isNull then stripMembers out ms else stripMembers (assign out k (stripNulls v)) ms

def stripItems : List Json → List Json
  | [] => []
  | v :: vs => stripNulls v :: stripItems vs

end

attribute [local simp] stripNulls stripMembers stripItems

/-- The member that numbers the states. -/
def liveRev : Bytes := ascii "live_rev"

structure LiveStream where
  state : Json := .null
  rev : ℤ := 0

/-- `if (n.IsObject()) n["live_rev"] = rev` -/
def withRev (v : Json) (rev : ℤ) : Json := if v.isObject then v.set liveRev (.int rev) else v

namespace LiveStream

def reset (state : Json) (rev : ℤ) : LiveStream :=
  if state.isNull then { state := .null, rev }
  else { state := (stripNulls state).set liveRev (.int rev), rev }

/-- `LiveStream::Advance`: the new stream, and the patch and rev of the event if one is
emitted. -/
def advance (s : LiveStream) (next : Json) (force : Bool) : LiveStream × Option (Json × ℤ) :=
  -- compared without a live_rev change
  let n := withRev (stripNulls next) s.rev
  let changed := (mergeDiff s.state n).isSome
  if !changed && !force then (s, none)
  else
    let rev := s.rev + 1
    let n := withRev n rev
    let p := (mergeDiff s.state n).getD (.object [])
    -- whole-state replacement is sent as is
    let p := if p.isObject then p else n
    ({ state := n, rev }, some (p, rev))

def bumpRevOnly (s : LiveStream) : LiveStream × Option (Json × ℤ) :=
  if s.state.isObject then
    let rev := s.rev + 1
    ({ state := s.state.set liveRev (.int rev), rev },
      some (Json.set (.object []) liveRev (.int rev), rev))
  else (s, none)

end LiveStream

inductive StreamOp where
  | reset (state : Json) (rev : ℤ)
  | advance (next : Json) (force : Bool)
  | bumpRevOnly

/-- States handed to the stream are objects without NaN. -/
def StreamOp.Ok : StreamOp → Prop
  | .reset state _ => state.isObject = true ∧ state.NoNaN
  | .advance next _ => next.isObject = true ∧ next.NoNaN
  | .bumpRevOnly => True

instance : DecidablePred StreamOp.Ok
  | .reset state _ => inferInstanceAs (Decidable (state.isObject = true ∧ state.NoNaN))
  | .advance next _ => inferInstanceAs (Decidable (next.isObject = true ∧ next.NoNaN))
  | .bumpRevOnly => inferInstanceAs (Decidable True)

/-- The stream with what went out since the last `Reset`: the state published there, its
rev, and the events in order. -/
structure Replication where
  stream : LiveStream
  published : Json
  base : ℤ
  sent : List (Json × ℤ)

namespace Replication

/-- A `Reset` publishes the state it leaves behind. -/
def start (state : Json) (rev : ℤ) : Replication :=
  let stream := LiveStream.reset state rev
  { stream, published := stream.state, base := rev, sent := [] }

def emit (r : Replication) (out : LiveStream × Option (Json × ℤ)) : Replication :=
  { r with stream := out.1, sent := r.sent ++ out.2.toList }

def step (r : Replication) : StreamOp → Replication
  | .reset state rev => start state rev
  | .advance next force => r.emit (r.stream.advance next force)
  | .bumpRevOnly => r.emit r.stream.bumpRevOnly

/-- What a receiver holds that applies every patch to the published state. -/
def replica (r : Replication) : Json :=
  r.sent.foldl (fun v event => mergePatchApply v event.1) r.published

end Replication

def withoutRev (v : Json) : Json := .object (v.members.filter fun kv => kv.1 ≠ liveRev)

section StripNulls

def stripMember (_ : Bytes) (v : Json) : Option Json :=
  if v.isNull then none else some (stripNulls v)

theorem stripMembers_eq (out ms : List (Bytes × Json)) :
    stripMembers out ms = assignAll stripMember out ms := by
  induction ms generalizing out with
  | nil => rw [stripMembers, assignAll]
  | cons kv ms ih =>
    obtain ⟨k, v⟩ := kv
    rw [stripMembers]
    split_ifs with hv
    · have hnone : stripMember k v = none := by rw [stripMember, if_pos hv]
      rw [assignAll_cons_none hnone, ih]
    · have hsome : stripMember k v = some (stripNulls v) := by rw [stripMember, if_neg hv]
      rw [assignAll_cons_some hsome, ih]

theorem stripItems_eq (vs : List Json) : stripItems vs = vs.map stripNulls := by
  induction vs with
  | nil => rfl
  | cons v vs ih => rw [stripItems, ih, List.map_cons]

@[simp] theorem isObject_stripNulls (v : Json) : (stripNulls v).isObject = v.isObject := by
  cases v <;> simp [stripNulls, isObject]

theorem isNull_stripNulls (v : Json) : (stripNulls v).isNull = v.isNull := by
  cases v <;> simp [stripNulls, isNull]

theorem mem_stripMembers {ms : List (Bytes × Json)} {k : Bytes} {w : Json}
    (h : (k, w) ∈ stripMembers [] ms) :
    ∃ v, (k, v) ∈ ms ∧ v.isNull = false ∧ w = stripNulls v := by
  rw [stripMembers_eq] at h
  rcases mem_assignAll h with h | ⟨v, hv, hw⟩
  · cases h
  · rw [stripMember] at hw
    split_ifs at hw with hnull
    exact ⟨v, hv, by simpa using hnull, (Option.some.inj hw).symm⟩

theorem uniqueKeys_stripNulls (v : Json) : (stripNulls v).UniqueKeys := by
  induction v with
  | object ms ih =>
    rw [stripNulls, uniqueKeys_object]
    constructor
    · rw [stripMembers_eq]
      exact nodup_keys_assignAll nodup_keys_nil ms
    · intro k w h
      obtain ⟨v, hv, -, rfl⟩ := mem_stripMembers h
      exact ih k v hv
  | array vs ih =>
    rw [stripNulls, uniqueKeys_array, stripItems_eq, List.forall_mem_map]
    exact ih
  | _ => rfl

theorem nullFree_stripNulls (v : Json) : (stripNulls v).NullFree := by
  induction v with
  | object ms ih =>
    rw [stripNulls, nullFree_object]
    intro k w h
    obtain ⟨v, hv, hnull, rfl⟩ := mem_stripMembers h
    exact ⟨(isNull_stripNulls v).trans hnull, ih k v hv⟩
  | array vs ih =>
    rw [stripNulls]
    rfl
  | _ => rfl

theorem noNaN_stripNulls {v : Json} (h : v.NoNaN) : (stripNulls v).NoNaN := by
  induction v with
  | object ms ih =>
    rw [noNaN_object] at h
    rw [stripNulls, noNaN_object]
    intro k w hmem
    obtain ⟨v, hv, -, rfl⟩ := mem_stripMembers hmem
    exact ih k v hv (h k v hv)
  | array vs ih =>
    rw [noNaN_array] at h
    rw [stripNulls, noNaN_array, stripItems_eq, List.forall_mem_map]
    exact fun v hv => ih v hv (h v hv)
  | _ => exact h

end StripNulls

/-- What a stream holds: an object without nulls that carries its own number. -/
structure Stamped (v : Json) (rev : ℤ) : Prop where
  isObject : v.isObject = true
  unique : v.UniqueKeys
  nullFree : v.NullFree
  noNaN : v.NoNaN
  find : v.find liveRev = some (.int rev)

theorem stamped_set {v : Json} (hobj : v.isObject = true) (hu : v.UniqueKeys) (hf : v.NullFree)
    (hn : v.NoNaN) (rev : ℤ) : Stamped (v.set liveRev (.int rev)) rev := by
  cases v with
  | object ms =>
    rw [nullFree_object] at hf
    rw [noNaN_object] at hn
    refine ⟨rfl, hu.set (w := .int rev) rfl liveRev, nullFree_object.mpr ?_,
      noNaN_object.mpr ?_, ?_⟩
    · intro k w h
      rcases mem_assign h with heq | h
      · exact (Prod.mk.inj heq).2 ▸ ⟨rfl, rfl⟩
      · exact hf k w h
    · intro k w h
      rcases mem_assign h with heq | h
      · exact (Prod.mk.inj heq).2 ▸ rfl
      · exact hn k w h
    · rw [find_set, if_pos rfl]
  | _ => cases hobj

theorem stamped_stripNulls {next : Json} (hobj : next.isObject = true) (hn : next.NoNaN)
    (rev : ℤ) : Stamped ((stripNulls next).set liveRev (.int rev)) rev :=
  stamped_set ((isObject_stripNulls next).trans hobj) (uniqueKeys_stripNulls next)
    (nullFree_stripNulls next) (noNaN_stripNulls hn) rev

theorem Stamped.set {v : Json} {rev : ℤ} (h : Stamped v rev) (rev' : ℤ) :
    Stamped (v.set liveRev (.int rev')) rev' :=
  stamped_set h.isObject h.unique h.nullFree h.noNaN rev'

theorem withRev_eq {v : Json} (h : v.isObject = true) (rev : ℤ) :
    withRev v rev = v.set liveRev (.int rev) := if_pos h

theorem Stamped.eq_false {v w : Json} {r r' : ℤ} (hv : Stamped v r) (hw : Stamped w r')
    (hne : r ≠ r') : v.eq w = false := by
  rw [Bool.eq_false_iff]
  intro heq
  have hk := (eq_iff_find hv.isObject hw.isObject hv.unique hw.unique).mp heq liveRev
  rw [hv.find, hw.find] at hk
  cases hk with
  | some h => exact hne (by simpa [Json.eq] using h)

theorem Stamped.mergeDiff_eq_none {v w : Json} {r r' : ℤ} (hv : Stamped v r)
    (hw : Stamped w r') : mergeDiff v w = none ↔ v.eq w := by
  constructor
  · intro h
    have hsame := carries hv.unique hw.unique hw.noNaN v hv.unique (same_refl hv.unique hv.noNaN)
    rw [h, receive] at hsame
    exact NullFree.eq_of_same hv.nullFree hw.nullFree hsame
  · exact mergeDiff_eq_none_of_eq

/-- Everything that `Advance` can do to a stream with a state. -/
theorem advance_cases {s : LiveStream} {next : Json} {force : Bool} (hs : Stamped s.state s.rev)
    (hobj : next.isObject = true) (hn : next.NoNaN) :
    (force = false ∧ mergeDiff s.state ((stripNulls next).set liveRev (.int s.rev)) = none ∧
      s.advance next force = (s, none)) ∨
    ∃ n p, Stamped n (s.rev + 1) ∧ mergeDiff s.state n = some p ∧
      (force = false → mergeDiff s.state ((stripNulls next).set liveRev (.int s.rev)) ≠ none) ∧
      s.advance next force = (⟨n, s.rev + 1⟩, some (p, s.rev + 1)) := by
  have hn₀ := stamped_stripNulls hobj hn s.rev
  have hn₁ := hn₀.set (s.rev + 1)
  have hw₀ := withRev_eq ((isObject_stripNulls next).trans hobj) s.rev
  have hw₁ := withRev_eq hn₀.isObject (s.rev + 1)
  unfold LiveStream.advance
  simp only [hw₀, hw₁]
  generalize (stripNulls next).set liveRev (.int s.rev) = n₀ at *
  generalize n₀.set liveRev (.int (s.rev + 1)) = n₁ at *
  by_cases hquiet : (mergeDiff s.state n₀).isSome = false ∧ force = false
  · refine Or.inl ⟨hquiet.2, by simpa using hquiet.1, ?_⟩
    rw [hquiet.1, hquiet.2]
    rfl
  · right
    -- the number has changed, so there is a patch, and it is the difference of two objects
    have hne := hs.eq_false hn₁ (by omega)
    obtain ⟨p, hp⟩ : ∃ p, mergeDiff s.state n₁ = some p := by
      rw [← Option.ne_none_iff_exists', ne_eq, hs.mergeDiff_eq_none hn₁, hne]
      exact Bool.false_ne_true
    have hpobj : p.isObject = true := by
      rcases mergeDiff_cases hp with ⟨-, h | h⟩ | ⟨fs, ts, -, -, rfl⟩
      · exact absurd hs.isObject (by simp [h])
      · exact absurd hn₁.isObject (by simp [h])
      · rfl
    refine ⟨n₁, p, hn₁, hp, ?_, ?_⟩
    · intro hforce hnone
      exact hquiet ⟨by simp [hnone], hforce⟩
    · have hcond : (!(mergeDiff s.state n₀).isSome && !force) = false := by
        cases h : (mergeDiff s.state n₀).isSome <;> cases force <;> simp_all
      rw [hcond, hp]
      simp [hpobj]

theorem find_withoutRev (v : Json) (k : Bytes) :
    (withoutRev v).find k = if k = liveRev then none else v.find k :=
  lookup_filter_ne v.members liveRev k

theorem uniqueKeys_withoutRev {v : Json} (h : v.UniqueKeys) : (withoutRev v).UniqueKeys := by
  obtain ⟨hnodup, hmembers⟩ := uniqueKeys_members h
  rw [withoutRev, uniqueKeys_object]
  exact ⟨hnodup.sublist (List.filter_sublist.map _),
    fun k w hmem => hmembers k w (List.mem_of_mem_filter hmem)⟩

/-- With equal numbers, two states are equal when they are equal apart from the number. -/
theorem eq_iff_withoutRev {v w : Json} {r : ℤ} (hv : Stamped v r) (hwu : w.UniqueKeys) :
    v.eq (w.set liveRev (.int r)) ↔ (withoutRev v).eq (withoutRev w) := by
  have hset : (w.set liveRev (.int r)).UniqueKeys := hwu.set (w := .int r) rfl liveRev
  rw [eq_iff_find hv.isObject rfl hv.unique hset,
    eq_iff_find rfl rfl (uniqueKeys_withoutRev hv.unique) (uniqueKeys_withoutRev hwu)]
  apply forall_congr'
  intro k
  rw [find_withoutRev, find_withoutRev, find_set]
  split_ifs with hk
  · rw [hk, hv.find]
    exact ⟨fun _ => .none, fun _ => .some (by simp [Json.eq])⟩
  · rfl

namespace Replication

/-- The replica is the state, and the events are numbered from the published rev on. -/
structure Inv (r : Replication) : Prop where
  stamped : Stamped r.stream.state r.stream.rev
  unique : r.replica.UniqueKeys
  nullFree : r.replica.NullFree
  same : r.replica.Same r.stream.state
  rev : r.stream.rev = r.base + r.sent.length
  revs : r.sent.map Prod.snd = (List.range r.sent.length).map fun i : ℕ => r.base + 1 + i

theorem inv_start {state : Json} (hobj : state.isObject = true) (hn : state.NoNaN) (rev : ℤ) :
    Inv (start state rev) := by
  have hnull : state.isNull = false := by
    cases state with
    | null => cases hobj
    | _ => rfl
  have hreset : LiveStream.reset state rev =
      { state := (stripNulls state).set liveRev (.int rev), rev } := by
    rw [LiveStream.reset, hnull]
    rfl
  have h := stamped_stripNulls hobj hn rev
  rw [start, hreset]
  exact ⟨h, h.unique, h.nullFree, same_refl h.unique h.noNaN, by simp, by simp⟩

theorem replica_emit_some (r : Replication) (s : LiveStream) (p : Json) (rev : ℤ) :
    (r.emit (s, some (p, rev))).replica = mergePatchApply r.replica p := by
  simp [emit, replica]

theorem emit_none (r : Replication) : r.emit (r.stream, none) = r := by
  simp [emit]

/-- An event whose patch takes the replica to the new state keeps the invariant. -/
theorem Inv.emit {r : Replication} (h : r.Inv) {n p : Json}
    (hn : Stamped n (r.stream.rev + 1)) (hp : p.UniqueKeys)
    (hsame : (mergePatchApply r.replica p).Same n) :
    Inv (r.emit (⟨n, r.stream.rev + 1⟩, some (p, r.stream.rev + 1))) := by
  refine ⟨hn, ?_, ?_, ?_, ?_, ?_⟩
  · rw [replica_emit_some]
    exact uniqueKeys_mergePatchApply h.unique hp
  · rw [replica_emit_some]
    exact nullFree_mergePatchApply h.nullFree
  · rw [replica_emit_some]
    exact hsame
  · have := h.rev
    simp only [Replication.emit, Option.toList_some, List.length_append, List.length_singleton]
    push_cast
    omega
  · have hrev := h.rev
    simp only [Replication.emit, Option.toList_some, List.length_append, List.length_singleton,
      List.map_append, List.map_cons, List.map_nil, List.range_succ, h.revs]
    congr 2
    omega

theorem mergePatchApply_bump {v w : Json} {r : ℤ} (hw : Stamped w r) (hv : v.UniqueKeys)
    (hsame : v.Same w) (rev : ℤ) :
    (mergePatchApply v (Json.set (.object []) liveRev (.int rev))).Same
      (w.set liveRev (.int rev)) := by
  have hobj : (mergePatchApply v (Json.set (.object []) liveRev (.int rev))).isObject = true := by
    rw [Json.set, mergePatchApply_object]
    rfl
  have hpatch : (Json.set (.object []) liveRev (.int rev)).UniqueKeys := rfl
  have hsame := (same_iff_find (hsame.isObject.trans hw.isObject) hw.isObject hv hw.unique).mp hsame
  have hset := hw.set rev
  rw [same_iff_find hobj rfl (uniqueKeys_mergePatchApply hv hpatch) hset.unique]
  intro k
  rw [find_mergePatchApply hv hpatch rfl, find_set, find_set]
  split_ifs with hk
  · rw [applyKey, if_neg (by simp [isNull]), mergePatchApply_of_not_object _ rfl]
    exact .some (same_refl rfl rfl)
  · exact hsame k

theorem Inv.step {r : Replication} (h : r.Inv) {op : StreamOp} (hop : op.Ok) :
    (r.step op).Inv := by
  cases op with
  | reset state rev => exact inv_start hop.1 hop.2 rev
  | advance next force =>
    rw [Replication.step]
    rcases advance_cases h.stamped hop.1 hop.2 with ⟨-, -, hadv⟩ | ⟨n, p, hn, hp, -, hadv⟩
    · rw [hadv, emit_none]
      exact h
    · have hsame := carries h.stamped.unique hn.unique hn.noNaN r.replica h.unique h.same
      rw [hp] at hsame
      rw [hadv]
      exact h.emit hn (uniqueKeys_mergeDiff hn.unique hp) hsame
  | bumpRevOnly =>
    rw [Replication.step, LiveStream.bumpRevOnly, if_pos h.stamped.isObject]
    exact h.emit (h.stamped.set _) rfl (mergePatchApply_bump h.stamped h.unique h.same _)

theorem inv_run {r : Replication} (h : r.Inv) {ops : List StreamOp} (hops : ∀ op ∈ ops, op.Ok) :
    (run step r ops).Inv :=
  run_invariant h fun op hop _ hr => hr.step (hops op hop)

theorem Inv.find_replica {r : Replication} (h : r.Inv) :
    r.replica.find liveRev = some (.int r.stream.rev) := by
  have hobj := h.same.isObject.trans h.stamped.isObject
  have hk := (same_iff_find hobj h.stamped.isObject h.unique h.stamped.unique).mp h.same liveRev
  rw [h.stamped.find, present_some rfl] at hk
  cases hrep : present (r.replica.find liveRev) with
  | none =>
    rw [hrep] at hk
    cases hk
  | some w =>
    rw [hrep] at hk
    cases hk with
    | some hw =>
      rw [(Option.filter_eq_some_iff.mp hrep).1]
      cases w with
      | int i => simpa [Same, dropNulls, Json.eq] using hw
      | _ => simp [Same, dropNulls, Json.eq] at hw

/-- For every sequence of operations the receiver that applies the patches holds the
state of the stream, numbered by the last rev that went out. -/
theorem replica_eq_state {state : Json} {rev : ℤ} {ops : List StreamOp}
    (hobj : state.isObject = true) (hn : state.NoNaN) (hops : ∀ op ∈ ops, op.Ok) :
    let r := run step (start state rev) ops
    r.replica.eq r.stream.state ∧
    r.replica.find liveRev = some (.int r.stream.rev) ∧
    r.stream.rev = r.base + r.sent.length ∧
    r.sent.map Prod.snd = ((List.range r.sent.length).map fun i : ℕ => r.base + 1 + i) ∧
    ∀ next : Json, next.isObject = true → next.NoNaN →
      ((r.stream.advance next false).2 = none ↔
        (withoutRev r.stream.state).eq (withoutRev (stripNulls next))) := by
  intro r
  have h : r.Inv := inv_run (inv_start hobj hn rev) hops
  refine ⟨NullFree.eq_of_same h.nullFree h.stamped.nullFree h.same, h.find_replica, h.rev,
    h.revs, ?_⟩
  intro next hnext hnan
  have hn₀ := stamped_stripNulls hnext hnan r.stream.rev
  rw [← eq_iff_withoutRev h.stamped (uniqueKeys_stripNulls next),
    ← h.stamped.mergeDiff_eq_none hn₀]
  rcases advance_cases h.stamped hnext hnan with ⟨-, hnone, hadv⟩ | ⟨n, p, -, -, hsome, hadv⟩
  · rw [hadv]
    exact iff_of_true rfl hnone
  · rw [hadv]
    exact iff_of_false (Option.some_ne_none _) (hsome rfl)

/-- A change of state, a forced event without one and a chat line. -/
theorem replica_eq_state_three_events :
    let first := Json.object [(ascii "phase", .string (ascii "warmup")), (ascii "pause", .null)]
    let next := Json.object [(ascii "phase", .string (ascii "live")),
      (ascii "score", .object [(ascii "a", .int 1)])]
    let r := run step (start first 7) [.advance next false, .advance next true, .bumpRevOnly]
    r.sent.length = 3 ∧ r.replica.eq r.stream.state := by
  intro first next r
  have hops : ∀ op ∈ [StreamOp.advance next false, .advance next true, .bumpRevOnly], op.Ok := by
    decide
  have h := @replica_eq_state first 7 _ rfl rfl hops
  exact ⟨by decide, h.1⟩

end Replication

end ReadyUp.Fleet
