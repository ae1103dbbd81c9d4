import ReadyUp.Support.Decimal
import ReadyUp.Support.Runs
import ReadyUp.Support.Table
import Mathlib.Data.Finset.Basic

/-!
# The registry of connected humans

Players are keyed by SteamID. The number of a player in the log (`userid`) and the slot in the
engine come from different sources, and either may be taken over by the next player while the
last one is still listed, when the line that says so never came. A log line that names a number
removes whoever had it; an event that names a slot does not (`identity_iff`).

A player who left is listed again by a connect line only: `departed` holds who is waiting for
one, and a log line is looked at when `acceptHumanLogLine` lets it through.
-/
namespace ReadyUp.Core

open Support

inductive TeamSource where
  | none
  | log
  | event
  deriving DecidableEq

structure HumanIdentity where
  userid : ℤ := -1
  slot : ℤ := -1
  steamid64 : ℕ := 0
  name : Bytes := []
  team : ℤ := 0
  teamSource : TeamSource := .none
  teamAt : ℕ := 0

instance : Inhabited HumanIdentity := ⟨{}⟩

/-- `ApplyTeamLocked`: the latest observation wins. -/
def HumanIdentity.applyTeam (h : HumanIdentity) (team : ℤ) (src : TeamSource) (at_ : ℕ) :
    HumanIdentity :=
  if team < 0 then h
  else if h.teamSource ≠ .none ∧ at_ < h.teamAt then h
  else { h with team, teamSource := src, teamAt := at_ }

/-- What a log line says about a player, and whether it is the line of their leaving or of their
coming. -/
structure LogLine where
  userid : ℤ
  steamid64 : ℕ
  name : Bytes
  team : ℤ
  leaving : Bool
  connect : Bool

structure Registry where
  humans : Table ℕ HumanIdentity := ∅
  /-- Left, and no connect line since. -/
  departed : Finset ℕ := ∅

namespace Registry

variable (r : Registry)

def observeHuman (userid : ℤ) (steamid64 : ℕ) (name : Bytes) (team : ℤ) (now : ℕ) : Registry :=
  if steamid64 = 0 then r
  else
    -- a userid belongs to one live client: whoever held it before is gone
    let humans := if 0 ≤ userid then r.humans.keepIf fun id h =>
      !(id ≠ steamid64 && h.userid = userid)
      else r.humans
    { r with
      humans := humans.modify steamid64 fun h =>
        ({ h with
            steamid64
            userid := if 0 ≤ userid then userid else h.userid
            name := if name ≠ [] then name else h.name } : HumanIdentity).applyTeam team .log now }

/-- `ObserveHumanTeamFromEvent`: an event alone never creates a human. -/
def observeHumanTeamFromEvent (steamid64 : ℕ) (slot team : ℤ) (now : ℕ) : Bool × Registry :=
  if steamid64 = 0 then (false, r)
  else match r.humans.lookup steamid64 with
    | none => (false, r)
    | some h =>
      let h := if 0 ≤ slot then { h with slot } else h
      (true, { r with humans := r.humans.insert steamid64 (h.applyTeam team .event now) })

def observeHumanSlot (steamid64 : ℕ) (slot : ℤ) : Registry :=
  if steamid64 = 0 ∨ slot < 0 then r
  else match r.humans.lookup steamid64 with
    | none => r
    | some h => { r with humans := r.humans.insert steamid64 { h with slot } }

def forgetHuman (steamid64 : ℕ) : Registry where
  humans := r.humans.erase steamid64
  departed := if steamid64 ≠ 0 then insert steamid64 r.departed else r.departed

def acceptHumanLogLine (steamid64 : ℕ) (leaving connectLine : Bool) : Bool × Registry :=
  if leaving then (true, r)
  else if steamid64 ∉ r.departed then (true, r)
  else if !connectLine then (false, r)
  else (true, { r with departed := r.departed.erase steamid64 })

/-- What the log hook does with a line of a player. -/
def handleLogLine (l : LogLine) (now : ℕ) : Registry :=
  let (accepted, r) := r.acceptHumanLogLine l.steamid64 l.leaving l.connect
  if !accepted then r
  else if l.leaving then r.forgetHuman l.steamid64
  else r.observeHuman l.userid l.steamid64 l.name l.team now

def resetHumanTeams (now : ℕ) : Registry :=
  { r with humans := r.humans.mapValues fun h =>
    { h with team := 0, teamSource := .none, teamAt := now } }

/-- Who `ReconcileHumanTeams` looks at: the humans with a slot, with that and their team. -/
def seen : List (ℕ × ℤ × ℤ) :=
  (r.humans.entries.filter fun e => 0 ≤ e.2.slot).map fun e => (e.1, e.2.slot, e.2.team)

def reconcileOne (engineTeam : ℤ → ℤ) (now : ℕ) (acc : ℕ × Registry) (s : ℕ × ℤ × ℤ) :
    ℕ × Registry :=
  let t := engineTeam s.2.1
  if t < 0 ∨ 3 < t ∨ t = s.2.2 then acc
  else
    let (known, r) := acc.2.observeHumanTeamFromEvent s.1 s.2.1 t now
    (if known then acc.1 + 1 else acc.1, r)

/-- `ReconcileHumanTeams`, with the number of changes. -/
def reconcileHumanTeams (engineTeam : Option (ℤ → ℤ)) (now : ℕ) : ℕ × Registry :=
  match engineTeam with
  | none => (0, r)
  | some engineTeam => r.seen.foldl (reconcileOne engineTeam now) (0, r)

def listHumans : List HumanIdentity := r.humans.entries.map (·.2)

end Registry

inductive RegistryEvent where
  | observeHuman (userid : ℤ) (steamid64 : ℕ) (name : Bytes) (team : ℤ) (now : ℕ)
  | teamFromEvent (steamid64 : ℕ) (slot team : ℤ) (now : ℕ)
  | slot (steamid64 : ℕ) (slot : ℤ)
  | forget (steamid64 : ℕ)
  | logLine (l : LogLine) (now : ℕ)
  | resetTeams (now : ℕ)
  | reconcile (engineTeam : Option (ℤ → ℤ)) (now : ℕ)

/-- A registry with a record of who was forgotten and has had no accepted connect line since. -/
structure Watched where
  registry : Registry := {}
  gone : Finset ℕ := ∅

namespace Watched

def step (w : Watched) : RegistryEvent → Watched
  | .observeHuman userid id name team now =>
    { w with registry := w.registry.observeHuman userid id name team now }
  | .teamFromEvent id slot team now =>
    { w with registry := (w.registry.observeHumanTeamFromEvent id slot team now).2 }
  | .slot id slot => { w with registry := w.registry.observeHumanSlot id slot }
  | .forget id => ⟨w.registry.forgetHuman id, insert id w.gone⟩
  | .logLine l now =>
    { registry := w.registry.handleLogLine l now
      gone :=
        if l.leaving then insert l.steamid64 w.gone
        else if l.connect then w.gone.erase l.steamid64
        else w.gone }
  | .resetTeams now => { w with registry := w.registry.resetHumanTeams now }
  | .reconcile engineTeam now =>
    { w with registry := (w.registry.reconcileHumanTeams engineTeam now).2 }

/-- No two listed humans share a userid or a slot, and nobody who is gone is listed. -/
structure Identified (w : Watched) : Prop where
  userid : w.registry.listHumans.Pairwise fun g h => 0 ≤ g.userid → g.userid ≠ h.userid
  slot : w.registry.listHumans.Pairwise fun g h => 0 ≤ g.slot → g.slot ≠ h.slot
  gone : ∀ h ∈ w.registry.listHumans, h.steamid64 ∉ w.gone

/-- No listed human but this one has the slot. -/
def SlotFree (r : Registry) (steamid64 : ℕ) (slot : ℤ) : Prop :=
  steamid64 ∈ r.humans → 0 ≤ slot → ∀ id h, r.humans.lookup id = some h → id ≠ steamid64 →
    h.slot ≠ slot

/-- An event that names a slot comes when nobody else has it, and a player who waits for a connect
line is observed by a log line only. -/
def Clear (w : Watched) : RegistryEvent → Prop
  | .observeHuman _ id _ _ _ => id ∉ w.registry.departed
  | .teamFromEvent id slot _ _ => SlotFree w.registry id slot
  | .slot id slot => SlotFree w.registry id slot
  | _ => True

end Watched

section Humans

/-- No two entries share a value that is not negative. -/
def Unshared (f : HumanIdentity → ℤ) (t : Table ℕ HumanIdentity) : Prop :=
  ∀ a b g h, t.lookup a = some g → t.lookup b = some h → a ≠ b → 0 ≤ f g → f g ≠ f h

namespace Unshared

variable {f : HumanIdentity → ℤ} {t : Table ℕ HumanIdentity}

theorem keepIf (h : Unshared f t) (p : ℕ → HumanIdentity → Bool) : Unshared f (t.keepIf p) := by
  intro a b g k hg hk
  rw [Table.lookup_keepIf, Option.filter_eq_some_iff] at hg hk
  exact h a b g k hg.1 hk.1

theorem erase (h : Unshared f t) (id : ℕ) : Unshared f (t.erase id) := by
  intro a b g k hg hk
  have hlookup : ∀ {j x}, (t.erase id).lookup j = some x → t.lookup j = some x := by
    intro j x hx
    by_cases hj : j = id
    · rw [hj, AList.lookup_erase] at hx
      cases hx
    · rwa [AList.lookup_erase_ne hj] at hx
  exact h a b g k (hlookup hg) (hlookup hk)

theorem insert (h : Unshared f t) {id : ℕ} {x : HumanIdentity}
    (hx : 0 ≤ f x → ∀ j k, t.lookup j = some k → j ≠ id → f k ≠ f x) :
    Unshared f (t.insert id x) := by
  intro a b g k hg hk hne hpos heq
  by_cases ha : a = id
  · have hb : b ≠ id := fun hb => hne (ha.trans hb.symm)
    rw [ha, AList.lookup_insert] at hg
    rw [AList.lookup_insert_ne hb] at hk
    obtain rfl := Option.some.inj hg
    exact hx hpos b k hk hb heq.symm
  · rw [AList.lookup_insert_ne ha] at hg
    by_cases hb : b = id
    · rw [hb, AList.lookup_insert] at hk
      obtain rfl := Option.some.inj hk
      exact hx (heq ▸ hpos) a g hg ha heq
    · rw [AList.lookup_insert_ne hb] at hk
      exact h a b g k hg hk hne hpos heq

theorem of_insert {id : ℕ} {x : HumanIdentity} (h : Unshared f (t.insert id x)) (hx : 0 ≤ f x) :
    ∀ j k, t.lookup j = some k → j ≠ id → f k ≠ f x := by
  intro j k hk hj heq
  have hk' : (t.insert id x).lookup j = some k := by rwa [AList.lookup_insert_ne hj]
  exact h id j x k (AList.lookup_insert t) hk' (Ne.symm hj) hx heq.symm

/-- The entry of a player may be rewritten as long as the value stays. -/
theorem insert_same (h : Unshared f t) {id : ℕ} {g x : HumanIdentity} (hg : t.lookup id = some g)
    (hx : f x = f g) : Unshared f (t.insert id x) := by
  apply h.insert
  intro hpos j k hk hj heq
  exact h id j g k hg hk (Ne.symm hj) (hx ▸ hpos) (hx.symm.trans heq.symm)

theorem congr {t' : Table ℕ HumanIdentity} (h : Unshared f t)
    (hsame : ∀ j, (t'.lookup j).map f = (t.lookup j).map f) : Unshared f t' := by
  have hback : ∀ {j x}, t'.lookup j = some x → ∃ y, t.lookup j = some y ∧ f y = f x := by
    intro j x hx
    have := hsame j
    rw [hx, Option.map_some] at this
    exact Option.map_eq_some_iff.mp this.symm
  intro a b g k hg hk hne hpos
  obtain ⟨g', hg', heq⟩ := hback hg
  obtain ⟨k', hk', heq'⟩ := hback hk
  rw [← heq] at hpos ⊢
  rw [← heq']
  exact h a b g' k' hg' hk' hne hpos

end Unshared

/-- An entry may be made or rewritten as long as the value stays. -/
theorem Unshared.modify {f : HumanIdentity → ℤ} {t : Table ℕ HumanIdentity} (h : Unshared f t)
    (hdefault : f default < 0) {id : ℕ} {g : HumanIdentity → HumanIdentity}
    (hg : ∀ x, f (g x) = f x) : Unshared f (t.modify id g) := by
  rw [Table.modify, Table.read]
  cases hid : t.lookup id with
  | none =>
    apply h.insert
    intro hpos
    rw [hg, Option.getD_none] at hpos
    exact absurd hpos (not_le.mpr hdefault)
  | some x => exact h.insert_same hid (hg x)

theorem pairwise_listHumans (f : HumanIdentity → ℤ) (r : Registry) :
    (r.listHumans.Pairwise fun g h => 0 ≤ f g → f g ≠ f h) ↔ Unshared f r.humans := by
  have hkeys := List.nodupKeys_iff_pairwise.mp r.humans.nodupKeys
  rw [Registry.listHumans, List.pairwise_map]
  constructor
  · intro h a b g k hg hk hne
    have hsymm : Std.Symm fun x y : Sigma fun _ : ℕ => HumanIdentity => 0 ≤ f x.2 → f x.2 ≠ f y.2 :=
      ⟨fun x y hxy hpos heq => hxy (heq ▸ hpos) heq.symm⟩
    have hne' : (⟨a, g⟩ : Sigma fun _ : ℕ => HumanIdentity) ≠ ⟨b, k⟩ :=
      fun heq => hne (congrArg Sigma.fst heq)
    exact h.forall (AList.mem_lookup_iff.mp hg) (AList.mem_lookup_iff.mp hk) hne'
  · intro h
    apply hkeys.imp_of_mem
    intro x y hx hy hne
    exact h x.1 y.1 x.2 y.2 (AList.mem_lookup_iff.mpr hx) (AList.mem_lookup_iff.mpr hy) hne

end Humans

@[simp] theorem userid_applyTeam (h : HumanIdentity) (team : ℤ) (src : TeamSource) (now : ℕ) :
    (h.applyTeam team src now).userid = h.userid := by
  rw [HumanIdentity.applyTeam]
  split_ifs <;> rfl

@[simp] theorem slot_applyTeam (h : HumanIdentity) (team : ℤ) (src : TeamSource) (now : ℕ) :
    (h.applyTeam team src now).slot = h.slot := by
  rw [HumanIdentity.applyTeam]
  split_ifs <;> rfl

@[simp] theorem steamid64_applyTeam (h : HumanIdentity) (team : ℤ) (src : TeamSource) (now : ℕ) :
    (h.applyTeam team src now).steamid64 = h.steamid64 := by
  rw [HumanIdentity.applyTeam]
  split_ifs <;> rfl

namespace Registry

/-- Userids and slots are nobody else's, and every entry is under its own SteamID. -/
structure Distinct (r : Registry) : Prop where
  userid : Unshared (·.userid) r.humans
  slot : Unshared (·.slot) r.humans
  key : ∀ id h, r.humans.lookup id = some h → h.steamid64 = id ∧ id ≠ 0

variable {r r' : Registry}

/-- The entries are the same but for names and teams. -/
structure SameIdentities (r r' : Registry) : Prop where
  lookup : ∀ id, (r'.humans.lookup id).map (fun h => (h.userid, h.slot, h.steamid64)) =
    (r.humans.lookup id).map fun h => (h.userid, h.slot, h.steamid64)
  departed : r'.departed = r.departed

theorem SameIdentities.refl (r : Registry) : SameIdentities r r := ⟨fun _ => rfl, rfl⟩

theorem SameIdentities.trans {r'' : Registry} (h : SameIdentities r r')
    (h' : SameIdentities r' r'') : SameIdentities r r'' :=
  ⟨fun id => (h'.lookup id).trans (h.lookup id), h'.departed.trans h.departed⟩

theorem SameIdentities.map (h : SameIdentities r r') {β : Type} (g : ℤ × ℤ × ℕ → β) (id : ℕ) :
    (r'.humans.lookup id).map (fun h => g (h.userid, h.slot, h.steamid64)) =
      (r.humans.lookup id).map fun h => g (h.userid, h.slot, h.steamid64) := by
  have := congrArg (Option.map g) (h.lookup id)
  rwa [Option.map_map, Option.map_map] at this

theorem SameIdentities.exists (h : SameIdentities r r') {id : ℕ} {x : HumanIdentity}
    (hx : r'.humans.lookup id = some x) : ∃ y, r.humans.lookup id = some y ∧ y.userid = x.userid ∧
      y.slot = x.slot ∧ y.steamid64 = x.steamid64 := by
  have hid := h.lookup id
  rw [hx, Option.map_some] at hid
  obtain ⟨y, hy, heq⟩ := Option.map_eq_some_iff.mp hid.symm
  simp only [Prod.mk.injEq] at heq
  exact ⟨y, hy, heq⟩

theorem SameIdentities.distinct (h : SameIdentities r r') (hr : r.Distinct) : r'.Distinct where
  userid := hr.userid.congr (h.map fun x => x.1)
  slot := hr.slot.congr (h.map fun x => x.2.1)
  key id x hx := by
    obtain ⟨y, hy, -, -, heq⟩ := h.exists hx
    rw [← heq]
    exact hr.key id y hy

theorem SameIdentities.lookup_eq_none (h : SameIdentities r r') {id : ℕ} :
    r'.humans.lookup id = none ↔ r.humans.lookup id = none := by
  have hid := h.lookup id
  cases hr : r.humans.lookup id <;> cases hr' : r'.humans.lookup id <;> simp_all

theorem sameIdentities_resetHumanTeams (r : Registry) (now : ℕ) :
    SameIdentities r (r.resetHumanTeams now) := by
  refine ⟨fun id => ?_, rfl⟩
  rw [resetHumanTeams, Table.lookup_mapValues, Option.map_map]
  rfl

theorem teamFromEvent_of_none {id : ℕ} (hid : r.humans.lookup id = none) (slot team : ℤ) (now : ℕ) :
    (r.observeHumanTeamFromEvent id slot team now).2 = r := by
  rw [observeHumanTeamFromEvent, hid]
  split_ifs <;> rfl

theorem teamFromEvent_of_some {id : ℕ} {h : HumanIdentity} (hne : id ≠ 0)
    (hid : r.humans.lookup id = some h) (slot team : ℤ) (now : ℕ) :
    (r.observeHumanTeamFromEvent id slot team now).2 = { r with
      humans := r.humans.insert id
        (({ h with slot := if 0 ≤ slot then slot else h.slot } : HumanIdentity).applyTeam
          team .event now) } := by
  rw [observeHumanTeamFromEvent, if_neg hne, hid]
  dsimp only
  split_ifs <;> rfl

theorem sameIdentities_teamFromEvent {id : ℕ} {slot : ℤ} (hne : id ≠ 0)
    (hslot : ∀ h, r.humans.lookup id = some h → h.slot = slot) (team : ℤ) (now : ℕ) :
    SameIdentities r (r.observeHumanTeamFromEvent id slot team now).2 := by
  cases hid : r.humans.lookup id with
  | none =>
    rw [teamFromEvent_of_none hid]
    exact .refl r
  | some h =>
    obtain rfl := hslot h hid
    rw [teamFromEvent_of_some hne hid]
    refine ⟨fun j => ?_, rfl⟩
    by_cases hj : j = id
    · rw [hj, AList.lookup_insert, hid, Option.map_some, Option.map_some, userid_applyTeam,
        slot_applyTeam, steamid64_applyTeam, ite_self]
    · rw [AList.lookup_insert_ne hj]

theorem sameIdentities_reconcile (hr : r.Distinct) (engineTeam : Option (ℤ → ℤ)) (now : ℕ) :
    SameIdentities r (r.reconcileHumanTeams engineTeam now).2 := by
  cases engineTeam with
  | none => exact .refl r
  | some engineTeam =>
    have hseen : ∀ s ∈ r.seen, s.1 ≠ 0 ∧ ∀ h, r.humans.lookup s.1 = some h → h.slot = s.2.1 := by
      intro s hs
      obtain ⟨e, he, rfl⟩ := List.mem_map.mp hs
      have hmem := AList.mem_lookup_iff.mpr (List.mem_filter.mp he).1
      refine ⟨(hr.key e.1 e.2 hmem).2, fun h hh => ?_⟩
      rw [Option.some.inj (hh.symm.trans hmem)]
    rw [reconcileHumanTeams]
    generalize r.seen = l at hseen
    suffices h : ∀ acc : ℕ × Registry, SameIdentities r acc.2 →
        SameIdentities r (l.foldl (reconcileOne engineTeam now) acc).2 from h (0, r) (.refl r)
    induction l with
    | nil => exact fun acc hacc => hacc
    | cons s l ih =>
      intro acc hacc
      apply ih fun s' hs' => hseen s' (List.mem_cons_of_mem _ hs')
      rw [reconcileOne]
      split_ifs
      · exact hacc
      · obtain ⟨hne, hslots⟩ := hseen s List.mem_cons_self
        have hslot : ∀ h, acc.2.humans.lookup s.1 = some h → h.slot = s.2.1 := by
          intro h hh
          obtain ⟨y, hy, -, heq, -⟩ := hacc.exists hh
          rw [← heq]
          exact hslots y hy
        exact hacc.trans (sameIdentities_teamFromEvent hne hslot _ now)

/-- Who waits for a connect line is not listed. -/
structure Sound (r : Registry) : Prop where
  distinct : r.Distinct
  absent : ∀ id ∈ r.departed, r.humans.lookup id = none
  nonzero : 0 ∉ r.departed

theorem SameIdentities.sound (h : SameIdentities r r') (hr : r.Sound) : r'.Sound where
  distinct := h.distinct hr.distinct
  absent id hid := h.lookup_eq_none.mpr (hr.absent id (h.departed ▸ hid))
  nonzero := h.departed ▸ hr.nonzero

theorem Sound.notMem_departed (h : r.Sound) {id : ℕ} {x : HumanIdentity}
    (hx : r.humans.lookup id = some x) : id ∉ r.departed := by
  intro hid
  rw [h.absent id hid] at hx
  cases hx

theorem Sound.insert (h : r.Sound) {id : ℕ} {g x : HumanIdentity} (hg : r.humans.lookup id = some g)
    (huserid : x.userid = g.userid) (hkey : x.steamid64 = g.steamid64)
    (hslot : Unshared (·.slot) (r.humans.insert id x)) :
    ({ r with humans := r.humans.insert id x } : Registry).Sound where
  distinct := by
    refine ⟨h.distinct.userid.insert_same hg huserid, hslot, ?_⟩
    intro j y hy
    by_cases hj : j = id
    · rw [hj, AList.lookup_insert] at hy
      rw [← Option.some.inj hy, hkey, hj]
      exact h.distinct.key id g hg
    · rw [AList.lookup_insert_ne hj] at hy
      exact h.distinct.key j y hy
  absent j hj := by
    have hne : j ≠ id := fun heq => h.notMem_departed hg (heq ▸ hj)
    rw [AList.lookup_insert_ne hne]
    exact h.absent j hj
  nonzero := h.nonzero

/-- The slot of a player's entry changes to one that is free. -/
theorem Sound.unshared_slot (h : r.Sound) {id : ℕ} {g x : HumanIdentity}
    (hg : r.humans.lookup id = some g)
    {slot : ℤ} (hfree : Watched.SlotFree r id slot)
    (hx : x.slot = if 0 ≤ slot then slot else g.slot) :
    Unshared (·.slot) (r.humans.insert id x) := by
  by_cases hslot : 0 ≤ slot
  · rw [if_pos hslot] at hx
    apply h.distinct.slot.insert
    intro _ j k hk hj
    rw [hx]
    exact hfree (AList.lookup_isSome.mp (by rw [hg]; rfl)) hslot j k hk hj
  · rw [if_neg hslot] at hx
    exact h.distinct.slot.insert_same hg hx

theorem Sound.teamFromEvent (h : r.Sound) {id : ℕ} {slot : ℤ} (hfree : Watched.SlotFree r id slot)
    (team : ℤ) (now : ℕ) : (r.observeHumanTeamFromEvent id slot team now).2.Sound := by
  cases hid : r.humans.lookup id with
  | none =>
    rw [teamFromEvent_of_none hid]
    exact h
  | some g =>
    rw [teamFromEvent_of_some (h.distinct.key id g hid).2 hid]
    refine h.insert hid ?_ ?_ (h.unshared_slot hid hfree (slot_applyTeam ..))
    · rw [userid_applyTeam]
    · rw [steamid64_applyTeam]

theorem observeHumanSlot_of_some {id : ℕ} {g : HumanIdentity} (hne : id ≠ 0)
    (hid : r.humans.lookup id = some g) {slot : ℤ} (hslot : 0 ≤ slot) :
    r.observeHumanSlot id slot = { r with humans := r.humans.insert id { g with slot } } := by
  rw [observeHumanSlot, if_neg (by omega), hid]

theorem Sound.observeHumanSlot (h : r.Sound) {id : ℕ} {slot : ℤ}
    (hfree : Watched.SlotFree r id slot) : (r.observeHumanSlot id slot).Sound := by
  cases hid : r.humans.lookup id with
  | none =>
    rw [Registry.observeHumanSlot, hid]
    split_ifs <;> exact h
  | some g =>
    by_cases hslot : 0 ≤ slot
    · rw [observeHumanSlot_of_some (h.distinct.key id g hid).2 hid hslot]
      exact h.insert hid rfl rfl (h.unshared_slot hid hfree (if_pos hslot).symm)
    · rw [Registry.observeHumanSlot, if_pos (Or.inr (not_le.mp hslot))]
      exact h

/-- The entries that a log line leaves before it writes its own. -/
theorem lookup_observeHuman {id : ℕ} (hne : id ≠ 0) (userid : ℤ) (name : Bytes)
    (team : ℤ) (now : ℕ) : (∀ j, j ≠ id → (r.observeHuman userid id name team now).humans.lookup j =
      (r.humans.lookup j).filter fun h => !(0 ≤ userid && h.userid = userid)) ∧
    ∃ x, (r.observeHuman userid id name team now).humans.lookup id = some x ∧ x.steamid64 = id := by
  rw [observeHuman, if_neg hne]
  refine ⟨?_, _, AList.lookup_insert _, steamid64_applyTeam ..⟩
  intro j hj
  dsimp only [Table.modify]
  rw [AList.lookup_insert_ne hj]
  split_ifs with hpos
  · rw [Table.lookup_keepIf]
    simp [hj, hpos]
  · have hall :
        ∀ h : HumanIdentity, (!(decide (0 ≤ userid) && decide (h.userid = userid))) = true := by
      simp [hpos]
    cases r.humans.lookup j with
    | none => rfl
    | some k => rw [Option.filter_some, if_pos (hall k)]

theorem Sound.observeHuman (h : r.Sound) {id : ℕ} (hid : id ∉ r.departed) (userid : ℤ)
    (name : Bytes) (team : ℤ) (now : ℕ) : (r.observeHuman userid id name team now).Sound := by
  by_cases hne : id = 0
  · rw [Registry.observeHuman, if_pos hne]
    exact h
  obtain ⟨hothers, x, hx, hkey⟩ := @lookup_observeHuman r id hne userid name team now
  have hdeparted : (r.observeHuman userid id name team now).departed = r.departed := by
    rw [Registry.observeHuman, if_neg hne]
  refine ⟨⟨?_, ?_, ?_⟩, ?_, hdeparted ▸ h.nonzero⟩
  · rw [Registry.observeHuman, if_neg hne]
    by_cases hpos : 0 ≤ userid
    · simp only [if_pos hpos]
      apply (h.distinct.userid.keepIf _).insert
      intro _ j k hk hj
      rw [Table.lookup_keepIf, Option.filter_eq_some_iff] at hk
      simpa [hj] using hk.2
    · simp only [if_neg hpos]
      exact h.distinct.userid.modify (by decide) fun y => userid_applyTeam ..
  · rw [Registry.observeHuman, if_neg hne]
    dsimp only
    have hkept : Unshared (·.slot) (if 0 ≤ userid then
        r.humans.keepIf fun id' h => !(id' ≠ id && h.userid = userid) else r.humans) := by
      split_ifs
      · exact h.distinct.slot.keepIf _
      · exact h.distinct.slot
    exact hkept.modify (by decide) fun y => slot_applyTeam ..
  · intro j y hy
    by_cases hj : j = id
    · subst hj
      rw [← Option.some.inj (hx.symm.trans hy)]
      exact ⟨hkey, hne⟩
    · rw [hothers j hj, Option.filter_eq_some_iff] at hy
      exact h.distinct.key j y hy.1
  · intro j hj
    rw [hdeparted] at hj
    have hji : j ≠ id := fun heq => hid (heq ▸ hj)
    rw [hothers j hji, h.absent j hj]
    rfl

theorem Sound.forgetHuman (h : r.Sound) (id : ℕ) : (r.forgetHuman id).Sound := by
  have hlookup :
      ∀ j, (r.humans.erase id).lookup j = if j = id then none else r.humans.lookup j := by
    intro j
    split_ifs with hj
    · rw [hj, AList.lookup_erase]
    · rw [AList.lookup_erase_ne hj]
  refine ⟨⟨h.distinct.userid.erase id, h.distinct.slot.erase id, ?_⟩, ?_, ?_⟩
  · intro j y hy
    rw [Registry.forgetHuman, hlookup] at hy
    split_ifs at hy
    exact h.distinct.key j y hy
  · intro j hj
    rw [Registry.forgetHuman, hlookup]
    split_ifs with heq
    · rfl
    · apply h.absent
      rw [Registry.forgetHuman] at hj
      dsimp only at hj
      split_ifs at hj
      · exact (Finset.mem_insert.mp hj).resolve_left heq
      · exact hj
  · rw [Registry.forgetHuman]
    dsimp only
    split_ifs with hne
    · rw [Finset.mem_insert, not_or]
      exact ⟨Ne.symm hne, h.nonzero⟩
    · exact h.nonzero

/-- A line of a player: leaving, coming back, or let through. -/
theorem handleLogLine_eq (r : Registry) (l : LogLine) (now : ℕ) :
    r.handleLogLine l now =
      if l.leaving then r.forgetHuman l.steamid64
      else if l.steamid64 ∉ r.departed then r.observeHuman l.userid l.steamid64 l.name l.team now
      else if l.connect then
        ({ r with departed := r.departed.erase l.steamid64 } : Registry).observeHuman
          l.userid l.steamid64 l.name l.team now
      else r := by
  rw [handleLogLine, acceptHumanLogLine]
  cases l.leaving with
  | true => rfl
  | false =>
    simp only [Bool.false_eq_true, if_false]
    by_cases hid : l.steamid64 ∈ r.departed
    · cases l.connect <;> simp [hid]
    · simp [hid]

theorem Sound.handleLogLine (h : r.Sound) (l : LogLine) (now : ℕ) :
    (r.handleLogLine l now).Sound := by
  have hback : ({ r with departed := r.departed.erase l.steamid64 } : Registry).Sound :=
    ⟨⟨h.distinct.userid, h.distinct.slot, h.distinct.key⟩,
      fun id hid => h.absent id (Finset.mem_of_mem_erase hid),
      fun hzero => h.nonzero (Finset.mem_of_mem_erase hzero)⟩
  rw [handleLogLine_eq]
  by_cases hleaving : l.leaving = true
  · rw [if_pos hleaving]
    exact h.forgetHuman l.steamid64
  rw [if_neg hleaving]
  by_cases hid : l.steamid64 ∈ r.departed
  · rw [if_neg (not_not.mpr hid)]
    split_ifs with hconnect
    · exact hback.observeHuman (Finset.notMem_erase l.steamid64 r.departed) ..
    · exact h
  · rw [if_pos hid]
    exact h.observeHuman hid ..

section Departed

variable (r)

theorem departed_observeHuman (userid : ℤ) (id : ℕ) (name : Bytes) (team : ℤ) (now : ℕ) :
    (r.observeHuman userid id name team now).departed = r.departed := by
  rw [observeHuman]
  split_ifs <;> rfl

theorem departed_teamFromEvent (id : ℕ) (slot team : ℤ) (now : ℕ) :
    (r.observeHumanTeamFromEvent id slot team now).2.departed = r.departed := by
  cases hid : r.humans.lookup id with
  | none => rw [teamFromEvent_of_none hid]
  | some g =>
    by_cases hne : id = 0
    · rw [observeHumanTeamFromEvent, if_pos hne]
    · rw [teamFromEvent_of_some hne hid]

theorem departed_observeHumanSlot (id : ℕ) (slot : ℤ) :
    (r.observeHumanSlot id slot).departed = r.departed := by
  rw [Registry.observeHumanSlot]
  split_ifs
  · rfl
  · cases r.humans.lookup id <;> rfl

theorem mem_departed_forgetHuman {id j : ℕ} (hj : j ≠ 0) :
    j ∈ (r.forgetHuman id).departed ↔ j = id ∨ j ∈ r.departed := by
  rw [forgetHuman]
  dsimp only
  split_ifs with hid
  · exact Finset.mem_insert
  · rw [not_not] at hid
    exact ⟨Or.inr, fun h => h.resolve_left (hid ▸ hj)⟩

end Departed

end Registry

namespace Watched

/-- Gone is who waits for a connect line. -/
structure Sound (w : Watched) : Prop where
  registry : w.registry.Sound
  gone : ∀ id, id ≠ 0 → (id ∈ w.gone ↔ id ∈ w.registry.departed)

variable {w : Watched}

theorem sound_new : ({} : Watched).Sound := by
  have hnone : ∀ id, (∅ : Table ℕ HumanIdentity).lookup id = none := AList.lookup_empty
  have hunshared : ∀ f, Unshared f (∅ : Table ℕ HumanIdentity) := by
    intro f a b g k hg
    rw [hnone] at hg
    cases hg
  refine ⟨⟨⟨hunshared _, hunshared _, ?_⟩, fun id _ => hnone id, Finset.notMem_empty 0⟩,
    fun id _ => Iff.rfl⟩
  intro id x hx
  rw [hnone] at hx
  cases hx

theorem Sound.identified (h : w.Sound) : w.Identified where
  userid := (pairwise_listHumans (·.userid) _).mpr h.registry.distinct.userid
  slot := (pairwise_listHumans (·.slot) _).mpr h.registry.distinct.slot
  gone x hx := by
    obtain ⟨e, he, rfl⟩ := List.mem_map.mp hx
    have hlookup := AList.mem_lookup_iff.mpr he
    obtain ⟨hkey, hne⟩ := h.registry.distinct.key e.1 e.2 hlookup
    rw [hkey, h.gone e.1 hne]
    exact h.registry.notMem_departed hlookup

theorem Sound.step (h : w.Sound) (e : RegistryEvent) (hclear : w.Clear e) : (w.step e).Sound := by
  cases e with
  | observeHuman userid id name team now =>
    exact ⟨h.registry.observeHuman hclear userid name team now, fun j hj => by
      rw [Watched.step, Registry.departed_observeHuman, h.gone j hj]⟩
  | teamFromEvent id slot team now =>
    exact ⟨h.registry.teamFromEvent hclear team now, fun j hj => by
      rw [Watched.step, Registry.departed_teamFromEvent, h.gone j hj]⟩
  | slot id slot =>
    exact ⟨h.registry.observeHumanSlot hclear, fun j hj => by
      rw [Watched.step, Registry.departed_observeHumanSlot, h.gone j hj]⟩
  | forget id =>
    exact ⟨h.registry.forgetHuman id, fun j hj => by
      rw [Watched.step, Registry.mem_departed_forgetHuman _ hj, ← h.gone j hj, Finset.mem_insert]⟩
  | logLine l now =>
    refine ⟨h.registry.handleLogLine l now, fun j hj => ?_⟩
    rw [Watched.step, Registry.handleLogLine_eq]
    dsimp only
    by_cases hleaving : l.leaving = true
    · rw [if_pos hleaving, if_pos hleaving, Registry.mem_departed_forgetHuman _ hj, ← h.gone j hj,
        Finset.mem_insert]
    rw [if_neg hleaving, if_neg hleaving]
    by_cases hid : l.steamid64 ∈ w.registry.departed
    · rw [if_neg (not_not.mpr hid)]
      split_ifs with hconnect
      · rw [Registry.departed_observeHuman, Finset.mem_erase, Finset.mem_erase, h.gone j hj]
      · exact h.gone j hj
    · rw [if_pos hid, Registry.departed_observeHuman, ← h.gone j hj]
      split_ifs with hconnect
      · rw [Finset.mem_erase]
        refine ⟨And.right, fun hjg => ⟨?_, hjg⟩⟩
        rintro rfl
        exact hid ((h.gone _ hj).mp hjg)
      · exact Iff.rfl
  | resetTeams now =>
    have hsame := Registry.sameIdentities_resetHumanTeams w.registry now
    exact ⟨hsame.sound h.registry, fun j hj => by rw [Watched.step, hsame.departed, h.gone j hj]⟩
  | reconcile engineTeam now =>
    have hsame := Registry.sameIdentities_reconcile h.registry.distinct engineTeam now
    exact ⟨hsame.sound h.registry, fun j hj => by rw [Watched.step, hsame.departed, h.gone j hj]⟩

/-- A slot that another listed human has is shared after the event that names it. -/
theorem Sound.slotFree_of_insert (h : w.Sound) {id : ℕ} {slot : ℤ}
    (hinsert : ∀ g, w.registry.humans.lookup id = some g → id ≠ 0 → 0 ≤ slot →
      ∃ x, x.slot = slot ∧ Unshared (·.slot) (w.registry.humans.insert id x)) :
    SlotFree w.registry id slot := by
  intro hlisted hslot j k hk hj
  obtain ⟨g, hg⟩ := Option.isSome_iff_exists.mp (AList.lookup_isSome.mpr hlisted)
  obtain ⟨x, hx, hunshared⟩ := hinsert g hg (h.registry.distinct.key id g hg).2 hslot
  rw [← hx]
  exact hunshared.of_insert (hx.symm ▸ hslot) j k hk hj

/-- Where the next state is as it should be, the event came when it may. -/
theorem Sound.clear (h : w.Sound) (e : RegistryEvent)
    (hnext : (w.step e).Identified) : w.Clear e := by
  cases e with
  | observeHuman userid id name team now =>
    intro hid
    have hne : id ≠ 0 := fun heq => h.registry.nonzero (heq ▸ hid)
    obtain ⟨-, x, hx, hkey⟩ := @Registry.lookup_observeHuman w.registry id hne userid name team now
    have hlisted : x ∈ (w.step (.observeHuman userid id name team now)).registry.listHumans :=
      List.mem_map.mpr ⟨⟨id, x⟩, AList.mem_lookup_iff.mp hx, rfl⟩
    apply hnext.gone x hlisted
    rw [hkey]
    exact (h.gone id hne).mpr hid
  | teamFromEvent id slot team now =>
    have hslots := (pairwise_listHumans (·.slot) _).mp hnext.slot
    apply h.slotFree_of_insert
    intro g hg hne hslot
    rw [Watched.step, Registry.teamFromEvent_of_some hne hg] at hslots
    exact ⟨_, (slot_applyTeam ..).trans (if_pos hslot), hslots⟩
  | slot id slot =>
    have hslots := (pairwise_listHumans (·.slot) _).mp hnext.slot
    apply h.slotFree_of_insert
    intro g hg hne hslot
    rw [Watched.step, Registry.observeHumanSlot_of_some hne hg hslot] at hslots
    exact ⟨_, rfl, hslots⟩
  | forget id => trivial
  | logLine l now => trivial
  | resetTeams now => trivial
  | reconcile engineTeam now => trivial

/-- The humans are told apart along a run exactly if every slot that an event names is free and
nobody who waits for a connect line is observed without one. -/
theorem identity_iff (events : List RegistryEvent) :
    Always step Identified {} events ↔ Guarded step Clear {} events :=
  always_iff_guarded sound_new (fun _ e h hclear => h.step e hclear) (fun _ h => h.identified)
    fun _ e h => h.clear e

/-- Two players connect; the line of the first one's leaving never comes, and the second one gets
the slot. -/
theorem taken_slot_shared :
    ¬Always step Identified {} [.logLine ⟨4, 76561198854229724, [], -1, false, true⟩ 1,
      .slot 76561198854229724 3, .logLine ⟨5, 76561198003830440, [], -1, false, true⟩ 2,
      .slot 76561198003830440 3] := by
  rw [identity_iff]
  rintro ⟨-, -, -, hfree, -⟩
  exact hfree (by decide) (by decide) 76561198854229724 _ rfl (by decide) rfl

end Watched

end ReadyUp.Core
