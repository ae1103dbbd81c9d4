import ReadyUp.Match.Context
import ReadyUp.Support.Decimal
import ReadyUp.Support.OrderedMap
import ReadyUp.Support.Runs
import ReadyUp.Support.Since

/-!
# The bots of a simulated match

In a simulation bots play for the roster. `assign` gives every bot that has joined a side a free
identity of the team on that side, and a bot keeps its identity while it is on the server. What the
plugin reports of the players follows the identities. Over any run no two bots play as the same
player and none waits while an identity of its side is free (`identities_assigned`,
`player_connected`), and a player is reported to come and to leave by turns (`reports_alternate`).
When a match is set up, when its map changes and when the setup of the bots is repeated are events
of their own, in any order.
-/
namespace ReadyUp.Match.Simulation

open Support

section Rules

/-- `Identity`; an id of 0 is an anonymous filler. -/
structure Identity where
  steamid64 : ℕ
  name : Bytes
  team : ℤ

structure Bot where
  userid : ℤ
  side : ℤ

/-- The part of `PlanIdentities` for a team. -/
def planTeam (roster : List Identity) (fillPerTeam team : ℤ) : List Identity :=
  let mine :=
    (roster.filter fun r => r.team = team && r.steamid64 ≠ 0).mergeSort fun a b =>
      decide (a.steamid64 ≤ b.steamid64)
  if mine.isEmpty then
    List.replicate fillPerTeam.toNat { steamid64 := 0, name := [], team }
  else mine

def planIdentities (roster : List Identity) (fillPerTeam : ℤ) : List Identity :=
  planTeam roster fillPerTeam 1 ++ planTeam roster fillPerTeam 2

def kFullTeam : ℤ := 5

/-- `IdentitiesFor` the roster of a match, in whatever order it is listed. -/
def identitiesFor (rosterTeam : Table ℕ Team) (rosterNames : Table ℕ Bytes) (playersPerTeam : ℤ) :
    List Identity :=
  planIdentities
    (rosterTeam.entries.map fun e =>
      { steamid64 := e.1, name := (rosterNames.lookup e.1).getD [], team := e.2.toInt })
    (if 0 < playersPerTeam then playersPerTeam else kFullTeam)

def sideOfTeam (team : ℤ) (team1IsCt : Bool) : ℤ :=
  if team = 1 then if team1IsCt then 3 else 2
  else if team = 2 then if team1IsCt then 2 else 3
  else 0

/-- The identities of the bots by their userids. -/
abbrev Playing := OrderedMap ℤ ℕ

/-- `used`: the identities that have been given out. -/
def used (out : Playing) (i : ℕ) : Bool := out.toList.any fun kv => kv.2 = i

/-- A bot that is still here keeps its identity. -/
def keepOne (bots : List Bot) (ids : List Identity) (out : Playing) (kv : ℤ × ℕ) : Playing :=
  if (bots.all fun b => b.userid ≠ kv.1) || ids.length ≤ kv.2 || used out kv.2 then out
  else out.insert kv.1 kv.2

/-- Identity `i` is of the team that plays the side. -/
def plays (ids : List Identity) (team1IsCt : Bool) (side : ℤ) (i : ℕ) : Bool :=
  ids[i]?.any fun id => sideOfTeam id.team team1IsCt = side

/-- A bot without an identity takes the first that is free. -/
def giveOne (ids : List Identity) (team1IsCt : Bool) (out : Playing) (b : Bot) : Playing :=
  if b.userid < 0 || out[b.userid]?.isSome || (b.side ≠ 2 && b.side ≠ 3) then out
  else
    match (List.range ids.length).find? fun i => !used out i && plays ids team1IsCt b.side i with
    | none => out
    | some i => out.insert b.userid i

def assign (prev : Playing) (bots : List Bot) (ids : List Identity) (team1IsCt : Bool) : Playing :=
  let out := prev.toList.foldl (keepOne bots ids) ∅
  (bots.mergeSort fun a b => decide (a.userid ≤ b.userid)).foldl (giveOne ids team1IsCt) out

end Rules

section Model

/-- What happened; the reports are the webhooks of players. -/
inductive Report where
  | reset
  | connect (id : ℕ)
  | disconnect (id : ℕ)
  deriving DecidableEq

/-- `Data`, as far as the identities go, with what was reported so far, the newest first. -/
structure Sim where
  ids : List Identity := []
  assigned : Playing := ∅
  announced : OrderedSet ℕ := ∅
  log : List Report := []

namespace Sim

variable (s : Sim)

def idOf (i : ℕ) : ℕ := (s.ids[i]?.map (·.steamid64)).getD 0

def leave (s : Sim) (kv : ℤ × ℕ) : Sim :=
  if s.idOf kv.2 ≠ 0 ∧ s.idOf kv.2 ∈ s.announced then
    { s with announced := s.announced.erase (s.idOf kv.2), log :=
      .disconnect (s.idOf kv.2) :: s.log }
  else s

def join (s : Sim) (kv : ℤ × ℕ) : Sim :=
  if s.idOf kv.2 ≠ 0 ∧ s.idOf kv.2 ∉ s.announced then
    { s with announced := s.announced.insert (s.idOf kv.2), log := .connect (s.idOf kv.2) :: s.log }
  else s

/-- The part of `SimulationTick` that hands out the identities. -/
def update (bots : List Bot) (team1IsCt : Bool) : Sim :=
  let next := assign s.assigned bots s.ids team1IsCt
  let gone := s.assigned.toList.filter fun kv => next[kv.1]?.isNone
  let come := next.toList.filter fun kv => s.assigned[kv.1]?.isNone
  { come.foldl join (gone.foldl leave s) with assigned := next }

/-- The data start again, for a match or for none. -/
def reset (ids : List Identity) : Sim := { ids, log := .reset :: s.log }

/-- `SimulationPlayerForSlot` -/
def playerForSlot (slot : ℤ) : Option (ℕ × Bytes) :=
  ((s.assigned[slot]?.bind (s.ids[·]?)).filter (·.steamid64 ≠ 0)).map fun id =>
    (id.steamid64, id.name)

end Sim

inductive SimEvent where
  | load (rosterTeam : Table ℕ Team) (rosterNames : Table ℕ Bytes) (playersPerTeam : ℤ)
  | unload
  | mapStart
  | setup
  | update (bots : List Bot) (team1IsCt : Bool)

def Sim.step (s : Sim) : SimEvent → Sim
  | .load rosterTeam rosterNames playersPerTeam =>
    s.reset (identitiesFor rosterTeam rosterNames playersPerTeam)
  | .unload => s.reset []
  | .mapStart => { s with assigned := ∅ }
  | .setup => { s with assigned := ∅ }
  | .update bots team1IsCt => s.update bots team1IsCt

/-- The player has come and not left again. -/
def connected (id : ℕ) : List Report → Bool
  | [] => false
  | .reset :: _ => false
  | .connect p :: log => p = id || connected id log
  | .disconnect p :: log => p ≠ id && connected id log

end Model

section Assign

variable {bots : List Bot} {ids : List Identity} {team1IsCt : Bool} {out prev : Playing}
    {a : ℤ} {i : ℕ}

/-- No two bots have the same identity. -/
structure Seated (ids : List Identity) (out : Playing) : Prop where
  injective : ∀ (a b : ℤ) (i : ℕ), out[a]? = some i → out[b]? = some i → a = b
  range : ∀ (a : ℤ) (i : ℕ), out[a]? = some i → i < ids.length

theorem used_iff : used out i = true ↔ ∃ a : ℤ, out[a]? = some i := by
  simp only [used, List.any_eq_true, decide_eq_true_eq]
  constructor
  · rintro ⟨⟨a, j⟩, hmem, rfl⟩
    exact ⟨a, Std.ExtTreeMap.mem_toList_iff_getElem?_eq_some.mp hmem⟩
  · rintro ⟨a, ha⟩
    exact ⟨(a, i), Std.ExtTreeMap.mem_toList_iff_getElem?_eq_some.mpr ha, rfl⟩

theorem seated_empty (ids : List Identity) : Seated ids ∅ where
  injective a b i h := by simp at h
  range a i h := by simp at h

theorem Seated.insert (h : Seated ids out) (hfree : used out i = false)
    (hi : i < ids.length) (u : ℤ) : Seated ids (out.insert u i) := by
  have hnot : ∀ a : ℤ, out[a]? ≠ some i := by
    intro a ha
    rw [used_iff.mpr ⟨a, ha⟩] at hfree
    cases hfree
  constructor
  · intro a b j ha hb
    rw [OrderedMap.getElem?_insert] at ha hb
    split_ifs at ha hb with hau hbu hbu
    · rw [hau, hbu]
    · cases ha
      exact absurd hb (hnot b)
    · cases hb
      exact absurd ha (hnot a)
    · exact h.injective a b j ha hb
  · intro a j ha
    rw [OrderedMap.getElem?_insert] at ha
    split_ifs at ha with hau
    · cases ha
      exact hi
    · exact h.range a j ha

/-- What the loop over the former identities does with one of them. -/
theorem keepOne_spec (bots : List Bot) (ids : List Identity) (out : Playing) (kv : ℤ × ℕ) :
    keepOne bots ids out kv = out ∧
    ((∀ b ∈ bots, b.userid ≠ kv.1) ∨ ids.length ≤ kv.2 ∨ used out kv.2 = true) ∨
      keepOne bots ids out kv = out.insert kv.1 kv.2 ∧ (∃ b ∈ bots, b.userid = kv.1) ∧
      kv.2 < ids.length ∧
        used out kv.2 = false := by
  unfold keepOne
  split_ifs with hout
  · simp only [Bool.or_eq_true, List.all_eq_true, decide_eq_true_eq, or_assoc] at hout
    exact .inl ⟨rfl, hout⟩
  · simp only [Bool.or_eq_true, List.all_eq_true, decide_eq_true_eq, not_or, not_forall, not_not,
      Bool.not_eq_true, not_le] at hout
    obtain ⟨⟨⟨b, hb, heq⟩, hlt⟩, hfree⟩ := hout
    exact .inr ⟨rfl, ⟨b, hb, heq⟩, hlt, hfree⟩

theorem Seated.keepOne (h : Seated ids out) (bots : List Bot) (kv : ℤ × ℕ) :
    Seated ids (keepOne bots ids out kv) := by
  obtain ⟨heq, -⟩ | ⟨heq, -, hlt, hfree⟩ := keepOne_spec bots ids out kv
  · rwa [heq]
  · rw [heq]
    exact h.insert hfree hlt kv.1

def Extends (out out' : Playing) : Prop := ∀ (a : ℤ) (i : ℕ), out[a]? = some i → out'[a]? = some i

theorem Extends.insert (hnew : out[a]? = none) (i : ℕ) : Extends out (out.insert a i) := by
  intro b j hb
  rw [OrderedMap.getElem?_insert, if_neg]
  · exact hb
  · rintro rfl
    rw [hnew] at hb
    cases hb

theorem Extends.trans {out₁ out₂ out₃ : Playing} (h : Extends out₁ out₂) (h' : Extends out₂ out₃) :
    Extends out₁ out₃ :=
  fun a i ha => h' a i (h a i ha)

/-- The bots of the list that are here keep their identities, when no two of them are the same. -/
theorem keep_spec {l : List (ℤ × ℕ)} (hpairs : l.Pairwise fun kv kv' => kv.1 ≠ kv'.1 ∧ kv.2 ≠ kv'.2)
    (hnew : ∀ kv ∈ l, out[kv.1]? = none ∧ used out kv.2 = false) :
    Extends out (l.foldl (keepOne bots ids) out) ∧
      ∀ kv ∈ l, (∃ b ∈ bots, b.userid = kv.1) → kv.2 < ids.length →
        (l.foldl (keepOne bots ids) out)[kv.1]? = some kv.2 := by
  induction l generalizing out with
  | nil => exact ⟨fun _ _ h => h, fun _ h => by cases h⟩
  | cons kv l ih =>
    obtain ⟨hfirst, hpairs⟩ := List.pairwise_cons.mp hpairs
    obtain ⟨⟨hkey, hfree⟩, hnew⟩ := List.forall_mem_cons.mp hnew
    rw [List.foldl_cons]
    obtain ⟨heq, hout⟩ | ⟨heq, -⟩ := keepOne_spec bots ids out kv
    · rw [heq]
      obtain ⟨hext, hkept⟩ := ih hpairs hnew
      refine ⟨hext, List.forall_mem_cons.mpr ⟨fun ⟨b, hb, hbot⟩ hlt => ?_, hkept⟩⟩
      obtain hgone | hlarge | hused := hout
      · exact absurd hbot (hgone b hb)
      · omega
      · rw [hfree] at hused
        cases hused
    · rw [heq]
      have hnew' : ∀ kv' ∈ l, (out.insert kv.1 kv.2)[kv'.1]? = none ∧
          used (out.insert kv.1 kv.2) kv'.2 = false := by
        intro kv' hkv'
        obtain ⟨hnone, hunused⟩ := hnew kv' hkv'
        obtain ⟨hkeys, hvalues⟩ := hfirst kv' hkv'
        refine ⟨by rw [OrderedMap.getElem?_insert, if_neg hkeys.symm, hnone], ?_⟩
        rw [Bool.eq_false_iff, Ne, used_iff]
        rintro ⟨a, ha⟩
        rw [OrderedMap.getElem?_insert] at ha
        split_ifs at ha
        · exact hvalues (Option.some.inj ha)
        · rw [used_iff.mpr ⟨a, ha⟩] at hunused
          cases hunused
      obtain ⟨hext, hkept⟩ := ih hpairs hnew'
      refine ⟨(Extends.insert hkey kv.2).trans hext,
        List.forall_mem_cons.mpr ⟨fun _ _ => ?_, hkept⟩⟩
      exact hext kv.1 kv.2 (by rw [OrderedMap.getElem?_insert, if_pos rfl])

theorem lt_of_plays {side : ℤ} (h : plays ids team1IsCt side i = true) : i < ids.length := by
  by_contra hlarge
  simp [plays, List.getElem?_eq_none (Nat.not_lt.mp hlarge)] at h

/-- A bot that has joined a side has an identity, or none of its side is free. -/
def Served (ids : List Identity) (team1IsCt : Bool) (out : Playing) (b : Bot) : Prop :=
  0 ≤ b.userid → b.side = 2 ∨ b.side = 3 → out[b.userid]? = none →
    ∀ i, plays ids team1IsCt b.side i = true → used out i = true

theorem giveOne_spec (ids : List Identity) (team1IsCt : Bool) (out : Playing) (b : Bot) :
    giveOne ids team1IsCt out b = out ∧ Served ids team1IsCt out b ∨
      ∃ i, giveOne ids team1IsCt out b = out.insert b.userid i ∧ out[b.userid]? = none ∧
      used out i = false ∧
        plays ids team1IsCt b.side i = true := by
  unfold giveOne
  split_ifs with hskip
  · refine .inl ⟨rfl, fun hid hside hnone => ?_⟩
    simp only [hnone, Bool.or_eq_true, Bool.and_eq_true, decide_eq_true_eq, Option.isSome_none,
      Bool.false_eq_true, or_false] at hskip
    omega
  · split
    · rename_i hnone
      refine .inl ⟨rfl, fun _ _ _ i hi => ?_⟩
      have hnot := List.find?_eq_none.mp hnone i (List.mem_range.mpr (lt_of_plays hi))
      simpa [hi] using hnot
    · rename_i i hi
      have hfound := List.find?_some hi
      simp only [Bool.and_eq_true, Bool.not_eq_true'] at hfound
      refine .inr ⟨i, rfl, ?_, hfound.1, hfound.2⟩
      simp only [Bool.or_eq_true, not_or, Bool.not_eq_true, Option.isSome_eq_false_iff,
        Option.isNone_iff_eq_none] at hskip
      exact hskip.1.2

theorem Served.extend {b : Bot} {out' : Playing} (h : Served ids team1IsCt out b)
    (hext : Extends out out') : Served ids team1IsCt out' b := by
  intro hid hside hnone i hi
  have hbefore : out[b.userid]? = none := by
    cases hout : out[b.userid]? with
    | none => rfl
    | some j =>
      rw [hext b.userid j hout] at hnone
      cases hnone
  obtain ⟨a, ha⟩ := used_iff.mp (h hid hside hbefore i hi)
  exact used_iff.mpr ⟨a, hext a i ha⟩

/-- What the loop over the bots comes to. -/
structure Given (ids : List Identity) (team1IsCt : Bool) (out : Playing) (l : List Bot)
    (out' : Playing) : Prop where
  seated : Seated ids out'
  kept : Extends out out'
  served : ∀ b ∈ l, Served ids team1IsCt out' b
  entitled : ∀ (a : ℤ) (i : ℕ), out'[a]? = some i →
    out[a]? = some i ∨ ∃ b ∈ l, b.userid = a ∧ plays ids team1IsCt b.side i = true

theorem give_spec (h : Seated ids out) (team1IsCt : Bool) (l : List Bot) :
    Given ids team1IsCt out l (l.foldl (giveOne ids team1IsCt) out) := by
  induction l generalizing out with
  | nil =>
    exact ⟨h, fun _ _ ha => ha, fun _ hb => absurd hb List.not_mem_nil, fun _ _ ha => .inl ha⟩
  | cons b l ih =>
    rw [List.foldl_cons]
    obtain ⟨heq, hserved⟩ | ⟨i, heq, hnew, hfree, hplays⟩ := giveOne_spec ids team1IsCt out b
    · rw [heq]
      have hrest := ih h
      refine ⟨hrest.seated, hrest.kept, ?_, fun a i ha => ?_⟩
      · exact List.forall_mem_cons.mpr ⟨hserved.extend hrest.kept, hrest.served⟩
      · obtain hold | ⟨b', hb', hgiven⟩ := hrest.entitled a i ha
        · exact .inl hold
        · exact .inr ⟨b', List.mem_cons_of_mem b hb', hgiven⟩
    · rw [heq]
      have hrest := ih (h.insert hfree (lt_of_plays hplays) b.userid)
      have htaken : (out.insert b.userid i)[b.userid]? =
          some i := by rw [OrderedMap.getElem?_insert, if_pos rfl]
      refine ⟨hrest.seated, (Extends.insert hnew i).trans hrest.kept, ?_, fun a j ha => ?_⟩
      · refine List.forall_mem_cons.mpr ⟨fun _ _ hnone => ?_, hrest.served⟩
        rw [hrest.kept _ i htaken] at hnone
        cases hnone
      · obtain hold | ⟨b', hb', hgiven⟩ := hrest.entitled a j ha
        · rw [OrderedMap.getElem?_insert] at hold
          split_ifs at hold with hab
          · cases hold
            exact .inr ⟨b, List.mem_cons_self, hab.symm, hplays⟩
          · exact .inl hold
        · exact .inr ⟨b', List.mem_cons_of_mem b hb', hgiven⟩

/-- What is asked of an assignment that follows another. -/
structure Assigned (prev : Playing) (bots : List Bot) (ids : List Identity) (team1IsCt : Bool)
    (next : Playing) : Prop where
  seated : Seated ids next
  kept : ∀ b ∈ bots, ∀ i, prev[b.userid]? = some i → next[b.userid]? = some i
  served : ∀ b ∈ bots, Served ids team1IsCt next b
  entitled : ∀ (a : ℤ) (i : ℕ), next[a]? = some i →
    ∃ b ∈ bots, b.userid = a ∧ (prev[a]? = some i ∨ plays ids team1IsCt b.side i = true)

theorem keep_entitled {l : List (ℤ × ℕ)} (h : Seated ids out) :
    Seated ids (l.foldl (keepOne bots ids) out) ∧
      ∀ (a : ℤ) (i : ℕ), (l.foldl (keepOne bots ids) out)[a]? = some i →
        out[a]? = some i ∨ (a, i) ∈ l ∧ ∃ b ∈ bots, b.userid = a := by
  induction l generalizing out with
  | nil => exact ⟨h, fun _ _ ha => .inl ha⟩
  | cons kv l ih =>
    rw [List.foldl_cons]
    obtain ⟨hseated, hfrom⟩ := ih (h.keepOne bots kv)
    refine ⟨hseated, fun a i ha => ?_⟩
    obtain hold | ⟨hmem, hhere⟩ := hfrom a i ha
    · obtain ⟨heq, -⟩ | ⟨heq, hhere, -⟩ := keepOne_spec bots ids out kv
      · exact .inl (heq ▸ hold)
      · rw [heq, OrderedMap.getElem?_insert] at hold
        split_ifs at hold with hak
        · cases hold
          exact .inr ⟨by rw [hak]; exact List.mem_cons_self, hak ▸ hhere⟩
        · exact .inl hold
    · exact .inr ⟨List.mem_cons_of_mem kv hmem, hhere⟩

theorem Seated.assign (h : Seated ids prev) (bots : List Bot) (team1IsCt : Bool) :
    Assigned prev bots ids team1IsCt (assign prev bots ids team1IsCt) := by
  have hpairs : prev.toList.Pairwise fun kv kv' => kv.1 ≠ kv'.1 ∧ kv.2 ≠ kv'.2 := by
    have hkeys := List.pairwise_map.mp (OrderedMap.nodup_keys_toList prev)
    refine hkeys.imp_of_mem fun {kv kv'} hkv hkv' hne => ⟨hne, fun heq => hne ?_⟩
    rw [Std.ExtTreeMap.mem_toList_iff_getElem?_eq_some] at hkv hkv'
    exact h.injective kv.1 kv'.1 kv.2 hkv (heq ▸ hkv')
  have hempty : ∀ kv ∈ prev.toList, (∅ : Playing)[kv.1]? = none ∧ used ∅ kv.2 = false := by
    intro kv _
    exact ⟨by simp, by rw [Bool.eq_false_iff, Ne, used_iff]; simp⟩
  obtain ⟨-, hkeep⟩ := @keep_spec bots ids ∅ prev.toList hpairs hempty
  obtain ⟨hseated, hfrom⟩ := @keep_entitled bots ids ∅ prev.toList (seated_empty ids)
  have hgiven :=
    give_spec hseated team1IsCt (bots.mergeSort fun a b => decide (a.userid ≤ b.userid))
  refine ⟨hgiven.seated, fun b hb i hi => ?_, fun b hb => ?_, fun a i ha => ?_⟩
  · have hmem := Std.ExtTreeMap.mem_toList_iff_getElem?_eq_some.mpr hi
    exact hgiven.kept b.userid i (hkeep _ hmem ⟨b, hb, rfl⟩ (h.range b.userid i hi))
  · exact hgiven.served b (List.mem_mergeSort.mpr hb)
  · obtain hold | ⟨b, hb, hbot, hplays⟩ := hgiven.entitled a i ha
    · obtain hnone | ⟨hmem, b, hb, hbot⟩ := hfrom a i hold
      · simp at hnone
      · exact ⟨b, hb, hbot, .inl (Std.ExtTreeMap.mem_toList_iff_getElem?_eq_some.mp hmem)⟩
    · exact ⟨b, List.mem_mergeSort.mp hb, hbot, .inr hplays⟩

end Assign

section Plan

variable {roster : List Identity} {ids : List Identity}

/-- The named players of the plan for a team are those of the roster. -/
theorem named_planTeam (roster : List Identity) (fillPerTeam team : ℤ) :
    ((planTeam roster fillPerTeam team).filter fun r => r.steamid64 ≠ 0).Perm
      (roster.filter fun r => r.team = team && r.steamid64 ≠ 0) := by
  unfold planTeam
  dsimp only
  have hsorted :=
    List.mergeSort_perm (roster.filter fun r => r.team = team && r.steamid64 ≠ 0) fun a b =>
    decide (a.steamid64 ≤ b.steamid64)
  split_ifs with hnone
  · rw [List.isEmpty_iff.mp hnone] at hsorted
    rw [List.filter_eq_nil_iff.mpr]
    · exact hsorted
    · intro r hr
      simp [List.eq_of_mem_replicate hr]
  · rw [List.filter_eq_self.mpr]
    · exact hsorted
    · intro r hr
      have hmem := List.mem_filter.mp (hsorted.mem_iff.mp hr)
      exact (Bool.and_eq_true_iff.mp hmem.2).2

/-- No named player is in the plan twice. -/
def Distinct (ids : List Identity) : Prop :=
  ((ids.filter fun r => r.steamid64 ≠ 0).map (·.steamid64)).Nodup

theorem distinct_plan (hroster : (roster.map (·.steamid64)).Nodup) (fillPerTeam : ℤ) :
    Distinct (planIdentities roster fillPerTeam) := by
  have hperm := (named_planTeam roster fillPerTeam 1).append (named_planTeam roster fillPerTeam 2)
  unfold Distinct planIdentities
  rw [List.filter_append, (hperm.map _).nodup_iff, List.map_append, List.nodup_append']
  refine ⟨hroster.sublist (List.filter_sublist.map _),
    hroster.sublist (List.filter_sublist.map _), ?_⟩
  intro id h1 h2
  obtain ⟨r, hr, rfl⟩ := List.mem_map.mp h1
  obtain ⟨r', hr', heq⟩ := List.mem_map.mp h2
  obtain ⟨hmem, hteam⟩ := List.mem_filter.mp hr
  obtain ⟨hmem', hteam'⟩ := List.mem_filter.mp hr'
  obtain rfl := List.inj_on_of_nodup_map hroster hmem' hmem heq
  simp only [Bool.and_eq_true, decide_eq_true_eq] at hteam hteam'
  omega

theorem Distinct.index_eq (h : Distinct ids) {i j : ℕ} {r r' : Identity} (hi : ids[i]? = some r)
    (hj : ids[j]? = some r')
    (heq : r.steamid64 = r'.steamid64) (hnamed : r.steamid64 ≠ 0) : i = j := by
  have hpairs :
      ids.Pairwise fun a b => a.steamid64 ≠ 0 → b.steamid64 ≠ 0 → a.steamid64 ≠ b.steamid64 := by
    simpa only [Distinct, List.Nodup,
      List.pairwise_map, List.pairwise_filter, decide_eq_true_eq] using h
  obtain ⟨hlt, rfl⟩ := List.getElem?_eq_some_iff.mp hi
  obtain ⟨hlt', rfl⟩ := List.getElem?_eq_some_iff.mp hj
  rw [List.pairwise_iff_getElem] at hpairs
  rcases Nat.lt_trichotomy i j with hij | hij | hij
  · exact absurd heq (hpairs i j hlt hlt' hij hnamed (heq ▸ hnamed))
  · exact hij
  · exact absurd heq.symm (hpairs j i hlt' hlt hij (heq ▸ hnamed) hnamed)

end Plan

section Reports

variable {s : Sim}

/-- What holds of a report, with what was reported before it: who comes was not there, and who
leaves was. -/
def Report.Lawful : Report → List Report → Prop
  | .reset, _ => True
  | .connect id, log => connected id log = false
  | .disconnect id, log => connected id log = true

namespace Sim

/-- The log says who was announced, and all that is in it is lawful. -/
structure Reported (s : Sim) : Prop where
  announced : ∀ id, id ∈ s.announced ↔ connected id s.log = true
  lawful : ∀ r before, (r :: before) <:+ s.log → r.Lawful before

theorem Reported.leave (h : s.Reported) (kv : ℤ × ℕ) : (s.leave kv).Reported := by
  unfold Sim.leave
  split_ifs with hgone
  · constructor
    · intro id
      simp only [OrderedSet.mem_erase, h.announced, connected, Bool.and_eq_true,
        decide_eq_true_eq, ne_comm]
    · exact forall_suffix_cons (P := fun before (r : Report) =>
        r.Lawful before) h.lawful ((h.announced _).mp hgone.2)
  · exact h

theorem Reported.join (h : s.Reported) (kv : ℤ × ℕ) : (s.join kv).Reported := by
  unfold Sim.join
  split_ifs with hcome
  · constructor
    · intro id
      simp only [OrderedSet.mem_insert, h.announced, connected, Bool.or_eq_true, decide_eq_true_eq,
        @eq_comm _ id]
    · have hnew : connected (s.idOf kv.2) s.log = false := by
        rw [Bool.eq_false_iff, Ne, ← h.announced]
        exact hcome.2
      exact forall_suffix_cons (P := fun before (r : Report) => r.Lawful before) h.lawful hnew
  · exact h

theorem ids_leave (s : Sim) (kv : ℤ × ℕ) : (s.leave kv).ids = s.ids := by
  unfold leave
  split_ifs <;> rfl

theorem ids_join (s : Sim) (kv : ℤ × ℕ) : (s.join kv).ids = s.ids := by
  unfold join
  split_ifs <;> rfl

theorem mem_leave {kv : ℤ × ℕ} {id : ℕ} (h : id ∈ s.announced) (hne : s.idOf kv.2 ≠ id) :
    id ∈ (s.leave kv).announced := by
  unfold leave
  split_ifs
  · exact (OrderedSet.mem_erase _ _ _).mpr ⟨hne.symm, h⟩
  · exact h

theorem mem_join {kv : ℤ × ℕ} {id : ℕ} (h : id ∈ s.announced ∨ id = s.idOf kv.2 ∧ id ≠ 0) :
    id ∈ (s.join kv).announced := by
  unfold join
  split_ifs with hcome
  · exact (OrderedSet.mem_insert _ _ _).mpr (h.elim .inr fun hid => .inl hid.1)
  · obtain hold | ⟨rfl, hnamed⟩ := h
    · exact hold
    · by_contra hnot
      exact hcome ⟨hnamed, hnot⟩

theorem leaves_spec (h : s.Reported) (l : List (ℤ × ℕ)) :
    (l.foldl Sim.leave s).Reported ∧ (l.foldl Sim.leave s).ids = s.ids ∧
      ∀ id ∈ s.announced, (∀ kv ∈ l, s.idOf kv.2 ≠ id) → id ∈ (l.foldl Sim.leave s).announced := by
  induction l generalizing s with
  | nil => exact ⟨h, rfl, fun _ hid _ => hid⟩
  | cons kv l ih =>
    obtain ⟨hreported, hids, hstay⟩ := ih (h.leave kv)
    refine ⟨hreported, hids.trans (ids_leave s kv), fun id hid hne => ?_⟩
    obtain ⟨hfirst, hrest⟩ := List.forall_mem_cons.mp hne
    refine hstay id (mem_leave hid hfirst) fun kv' hkv' => ?_
    simpa only [idOf, ids_leave] using hrest kv' hkv'

theorem joins_spec (h : s.Reported) (l : List (ℤ × ℕ)) :
    (l.foldl Sim.join s).Reported ∧ (l.foldl Sim.join s).ids = s.ids ∧
      ∀ id, id ∈ s.announced ∨ (∃ kv ∈ l, id = s.idOf kv.2 ∧ id ≠ 0) →
        id ∈ (l.foldl Sim.join s).announced := by
  induction l generalizing s with
  | nil =>
    refine ⟨h, rfl, fun id hid => ?_⟩
    simpa using hid
  | cons kv l ih =>
    obtain ⟨hreported, hids, hstay⟩ := ih (h.join kv)
    refine ⟨hreported, hids.trans (ids_join s kv), fun id hid => hstay id ?_⟩
    obtain hold | ⟨kv', hkv', hnew⟩ := hid
    · exact .inl (mem_join (.inl hold))
    · obtain rfl | htail := List.mem_cons.mp hkv'
      · exact .inl (mem_join (.inr hnew))
      · exact .inr ⟨kv', htail, by simpa only [idOf, ids_join] using hnew⟩

end Sim

end Reports

section Run

variable {s : Sim}

namespace Sim

/-- What holds of a simulation: no identity has two bots, no player two identities, and who plays is
announced. -/
structure Kept (s : Sim) : Prop where
  seated : Seated s.ids s.assigned
  distinct : Distinct s.ids
  reported : s.Reported
  playing : ∀ (a : ℤ) (i : ℕ), s.assigned[a]? = some i → s.idOf i ≠ 0 → s.idOf i ∈ s.announced

theorem kept_start : ({} : Sim).Kept where
  seated := seated_empty []
  distinct := List.nodup_nil
  reported := ⟨fun id => by simp [connected], fun r before h => by simp at h⟩
  playing a i h := by simp at h

theorem Kept.reset (h : s.Kept) {ids : List Identity} (hdistinct : Distinct ids) :
    (s.reset ids).Kept where
  seated := seated_empty ids
  distinct := hdistinct
  reported :=
    ⟨fun id => by simp [Sim.reset, connected],
      forall_suffix_cons (P := fun before (r : Report) => r.Lawful before)
      h.reported.lawful trivial⟩
  playing a i ha := by simp [Sim.reset] at ha

theorem Kept.unassign (h : s.Kept) : ({ s with assigned := ∅ } : Sim).Kept where
  seated := seated_empty s.ids
  distinct := h.distinct
  reported := ⟨h.reported.announced, h.reported.lawful⟩
  playing a i ha := by simp at ha

theorem Kept.idOf_inj (h : s.Kept) {i j : ℕ} (heq : s.idOf i = s.idOf j)
    (hnamed : s.idOf i ≠ 0) : i = j := by
  have hfound : ∀ k, s.idOf k ≠ 0 → ∃ r, s.ids[k]? = some r ∧ r.steamid64 = s.idOf k := by
    intro k hk
    unfold idOf at hk ⊢
    cases hr : s.ids[k]? with
    | none => simp [hr] at hk
    | some r => exact ⟨r, rfl, rfl⟩
  obtain ⟨r, hr, hid⟩ := hfound i hnamed
  obtain ⟨r', hr', hid'⟩ := hfound j (heq ▸ hnamed)
  exact h.distinct.index_eq hr hr' (by rw [hid, hid', heq]) (by rwa [hid])

theorem Kept.update (h : s.Kept) (bots : List Bot) (team1IsCt : Bool) :
    (s.update bots team1IsCt).Kept := by
  have hassigned := h.seated.assign bots team1IsCt
  unfold Sim.update
  generalize assign s.assigned bots s.ids team1IsCt = next at hassigned
  dsimp only
  obtain ⟨hleft, hids, hstay⟩ :=
    leaves_spec h.reported (s.assigned.toList.filter fun kv => next[kv.1]?.isNone)
  generalize (s.assigned.toList.filter fun kv => next[kv.1]?.isNone).foldl leave s =
    s' at hleft hids hstay
  obtain ⟨hcame, hids', hnew⟩ :=
    joins_spec hleft (next.toList.filter fun kv => s.assigned[kv.1]?.isNone)
  have hsame : ∀ i, s'.idOf i = s.idOf i := fun i => by rw [idOf, idOf, hids]
  have hsame' :
      ∀ i, idOf ((next.toList.filter fun kv => s.assigned[kv.1]?.isNone).foldl join s') i =
        s.idOf i :=
    fun i => by rw [idOf, idOf, hids', hids]
  refine ⟨?_, ?_, ⟨hcame.announced, hcame.lawful⟩, fun a i ha hnamed => ?_⟩
  · rw [hids', hids]
    exact hassigned.seated
  · rw [hids', hids]
    exact h.distinct
  · replace hnamed : s.idOf i ≠ 0 := hsame' i ▸ hnamed
    refine Eq.mpr (congrArg (· ∈ _) (hsame' i)) (hnew (s.idOf i) ?_)
    cases hold : s.assigned[a]? with
    | none =>
      refine .inr ⟨(a, i), List.mem_filter.mpr ⟨?_, by rw [hold]; rfl⟩, (hsame i).symm, hnamed⟩
      exact Std.ExtTreeMap.mem_toList_iff_getElem?_eq_some.mpr ha
    | some j =>
      -- The bot had this identity before: nobody who left had it.
      obtain ⟨b, hb, rfl, -⟩ := hassigned.entitled a i ha
      obtain rfl : j = i := Option.some.inj ((hassigned.kept b hb j hold).symm.trans ha)
      refine .inl (hstay _ (h.playing _ j hold hnamed) fun kv hkv heq => ?_)
      obtain ⟨hmem, hgone⟩ := List.mem_filter.mp hkv
      rw [Std.ExtTreeMap.mem_toList_iff_getElem?_eq_some, h.idOf_inj heq (heq ▸ hnamed)] at hmem
      rw [h.seated.injective _ _ j hmem hold, ha] at hgone
      cases hgone

theorem Kept.step (h : s.Kept) (e : SimEvent) : (s.step e).Kept := by
  cases e with
  | load rosterTeam rosterNames playersPerTeam =>
    refine h.reset (distinct_plan ?_ _)
    rw [List.map_map]
    exact rosterTeam.nodupKeys
  | unload => exact h.reset List.nodup_nil
  | mapStart => exact h.unassign
  | setup => exact h.unassign
  | update bots team1IsCt => exact h.update bots team1IsCt

theorem kept_run (es : List SimEvent) : (run step {} es).Kept :=
  run_invariant kept_start fun e _ _ h => h.step e

/-- Whatever happened before, an update lets every bot that is still here keep its identity, gives a
new one only of the side of the bot, and leaves no bot without one while one of its side is free. -/
theorem identities_assigned (es : List SimEvent) (bots : List Bot) (team1IsCt : Bool) :
    Assigned (run step {} es).assigned bots (run step {} es).ids team1IsCt
      (run step {} (es ++ [.update bots team1IsCt])).assigned := by
  rw [run_append]
  exact (kept_run es).seated.assign bots team1IsCt

theorem playerForSlot_spec {slot : ℤ} {p : ℕ × Bytes} (h : s.playerForSlot slot = some p) :
    ∃ i, s.assigned[slot]? = some i ∧ s.idOf i = p.1 ∧ p.1 ≠ 0 := by
  obtain ⟨r, hr, rfl⟩ := Option.map_eq_some_iff.mp h
  obtain ⟨hfound, hnamed⟩ := Option.filter_eq_some_iff.mp hr
  obtain ⟨i, hi, hid⟩ := Option.bind_eq_some_iff.mp hfound
  exact ⟨i, hi, by simp [idOf, hid], by simpa using hnamed⟩

/-- The player of a bot was reported to come and not to leave, and no other bot plays it. -/
theorem player_connected {es : List SimEvent} {slot : ℤ} {p : ℕ × Bytes}
    (h : (run step {} es).playerForSlot slot = some p) : connected p.1 (run step {} es).log = true ∧
      ∀ slot' p', (run step {} es).playerForSlot slot' = some p' → p'.1 = p.1 → slot' = slot := by
  have hkept := kept_run es
  obtain ⟨i, hi, hid, hnamed⟩ := playerForSlot_spec h
  refine ⟨?_, fun slot' p' h' heq => ?_⟩
  · rw [← hid] at hnamed ⊢
    exact (hkept.reported.announced _).mp (hkept.playing slot i hi hnamed)
  · obtain ⟨j, hj, hid', -⟩ := playerForSlot_spec h'
    obtain rfl := hkept.idOf_inj (hid'.trans (heq.trans hid.symm)) (by rw [hid', heq]; exact hnamed)
    exact hkept.seated.injective slot' slot j hj hi

/-- A bot that joins a match with a roster of one player. -/
def oneBot : List SimEvent := [.load (AList.singleton 7 Team.team1) ∅ 1, .update [⟨3, 3⟩] true]

theorem player_connected_one :
    connected 7 (run step {} oneBot).log = true ∧
      ∀ slot' p', (run step {} oneBot).playerForSlot slot' = some p' → p'.1 = 7 → slot' = 3 :=
  player_connected (show (run step {} oneBot).playerForSlot 3 = some (7, []) by decide +kernel)

/-- A player is reported to come only when it is not there, and to leave only when it is. -/
theorem reports_alternate {es : List SimEvent} {r : Report} {before : List Report}
    (h : (r :: before) <:+ (run step {} es).log) : r.Lawful before :=
  (kept_run es).reported.lawful r before h

theorem reports_alternate_one : (Report.connect 7).Lawful [.reset] :=
  @reports_alternate oneBot _ _ ⟨[], by decide +kernel⟩

end Sim

end Run

end ReadyUp.Match.Simulation
