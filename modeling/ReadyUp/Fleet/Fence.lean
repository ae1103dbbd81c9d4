import Mathlib.Data.Fintype.EquivFin
import ReadyUp.Support.Runs
import ReadyUp.Support.Table

/-!
# Epoch fencing

The fence remembers, for the last matches of a server, the highest epoch it has seen, so that a
late message with an older one is refused. The epochs are in one table and the order of eviction
in a list beside it. A match that is retired again keeps its old place in the list: it is then
forgotten as if it had not been heard of since.
-/
namespace ReadyUp.Fleet

open ReadyUp.Support

structure Assignment where
  active : Bool := false
  matchId : String := ""
  epoch : ℤ := 0
  configRev : ℤ := 0
  deriving DecidableEq, Repr

inductive Verdict where
  | ok
  | duplicate
  | staleEpoch
  | busy
  | notAssigned
  deriving DecidableEq, Repr

/-- `fs::Fence`: `retired` holds the epoch of each match remembered, `order` the matches from the
oldest to the newest. -/
structure Fence where
  retired : Table String ℤ
  order : List String
  nodup : order.Nodup
  mem_iff : ∀ id, id ∈ retired ↔ id ∈ order
  bounded : order.length ≤ 64
  named : "" ∉ order

instance : EmptyCollection Fence :=
  ⟨{ retired := ∅
     order := []
     nodup := List.nodup_nil
     mem_iff := fun id => by simp
     bounded := by simp
     named := List.not_mem_nil }⟩

/-- The loop at the end of `Fence::Retire`: the oldest go until 64 are left. -/
def trim (retired : Table String ℤ) : List String → Table String ℤ × List String
  | [] => (retired, [])
  | id :: rest =>
    if 64 < (id :: rest).length then trim (retired.erase id) rest else (retired, id :: rest)

theorem trim_of_le (retired : Table String ℤ) {order : List String} (h : order.length ≤ 64) :
    trim retired order = (retired, order) := by
  cases order with
  | nil => rfl
  | cons id rest => rw [trim, if_neg (not_lt.mpr h)]

theorem trim_cons (retired : Table String ℤ) (id : String) {rest : List String}
    (h : rest.length = 64) : trim retired (id :: rest) = (retired.erase id, rest) := by
  rw [trim, if_pos (by simp [h]), trim_of_le _ h.le]

theorem trim_suffix (retired : Table String ℤ) (order : List String) :
    (trim retired order).2 <:+ order := by
  induction order generalizing retired with
  | nil => exact List.suffix_rfl
  | cons oldest rest ih =>
    rw [trim]
    split_ifs
    · exact (ih _).trans (List.suffix_cons _ _)
    · exact List.suffix_rfl

/-- What is left of the table are the entries of what is left of the order. -/
theorem trim_spec (retired : Table String ℤ) (order : List String) (hnodup : order.Nodup)
    (hmem : ∀ id, id ∈ retired ↔ id ∈ order) :
    (trim retired order).2.Nodup ∧
      (∀ id, id ∈ (trim retired order).1 ↔ id ∈ (trim retired order).2) ∧
      (trim retired order).2.length ≤ 64 := by
  induction order generalizing retired with
  | nil => exact ⟨hnodup, hmem, by simp [trim]⟩
  | cons oldest rest ih =>
    rw [trim]
    split_ifs with hlong
    · have hrest : ∀ id, id ∈ retired.erase oldest ↔ id ∈ rest := by
        intro id
        have hne : id ∈ rest → id ≠ oldest := fun hid heq =>
          (List.nodup_cons.mp hnodup).1 (heq ▸ hid)
        rw [AList.mem_erase, hmem id, List.mem_cons]
        tauto
      exact ih (retired.erase oldest) hnodup.of_cons hrest
    · exact ⟨hnodup, hmem, not_lt.mp hlong⟩

namespace Fence

/-- `Fence::Retired`: 0 for a match that is not remembered. -/
def retiredEpoch (f : Fence) (matchId : String) : ℤ := f.retired.read matchId

def retire (f : Fence) (matchId : String) (epoch : ℤ) : Fence :=
  if hne : matchId = "" then f
  else if h : matchId ∈ f.retired then
    { f with
      retired := f.retired.insert matchId (max (f.retiredEpoch matchId) epoch)
      mem_iff := fun id => by
        rw [AList.mem_insert, f.mem_iff]
        exact ⟨fun hid => hid.elim (fun heq => heq ▸ (f.mem_iff _).mp h) fun hid => hid, .inr⟩ }
  else
    have hnodup : (f.order ++ [matchId]).Nodup :=
      f.nodup.append (List.nodup_singleton _)
        (List.disjoint_singleton.mpr fun hid => h ((f.mem_iff _).mpr hid))
    have hmem : ∀ id, id ∈ f.retired.insert matchId epoch ↔ id ∈ f.order ++ [matchId] := by
      intro id
      rw [AList.mem_insert, f.mem_iff, List.mem_append, List.mem_singleton, or_comm]
    let kept := trim (f.retired.insert matchId epoch) (f.order ++ [matchId])
    have hkept := trim_spec _ _ hnodup hmem
    ⟨kept.1, kept.2, hkept.1, hkept.2.1, hkept.2.2, fun hid => by
      have := (trim_suffix _ _).subset hid
      simp [f.named, Ne.symm hne] at this⟩

def checkAssign (f : Fence) (cur : Assignment) (matchId : String) (epoch : ℤ)
    (localMatchActive : Bool) : Verdict :=
  if epoch < 1 ∨ matchId = "" then .staleEpoch
  else if epoch < f.retiredEpoch matchId then .staleEpoch
  else if cur.active then
    if cur.matchId = matchId then
      if epoch = cur.epoch then .duplicate
      else if epoch < cur.epoch then .staleEpoch
      else .ok
    else .busy
  else if epoch = f.retiredEpoch matchId then .staleEpoch
  else if localMatchActive then .busy
  else .ok

def checkScoped (f : Fence) (cur : Assignment) (matchId : String) (epoch : ℤ) : Verdict :=
  if cur.active = false ∨ cur.matchId ≠ matchId then
    if matchId ≠ "" ∧ 0 < epoch ∧ epoch ≤ f.retiredEpoch matchId then .staleEpoch
    else .notAssigned
  else if epoch < cur.epoch then .staleEpoch
  else if cur.epoch < epoch then .notAssigned
  else .ok

/-- `Fence::ToJson`, as the list of its entries. -/
def toJson (f : Fence) : List (String × ℤ) := f.order.map fun id => (id, f.retiredEpoch id)

/-- One `Fence::Retire` call. -/
def retireCall (f : Fence) (call : String × ℤ) : Fence := f.retire call.1 call.2

def fromJson (entries : List (String × ℤ)) : Fence := run retireCall ∅ entries

/-! ## What a retirement does -/

variable {f : Fence} {m : String}

@[simp] theorem retire_empty (f : Fence) (epoch : ℤ) : f.retire "" epoch = f := by simp [retire]

theorem retire_of_mem (hm : m ∈ f.order) (hne : m ≠ "") (epoch : ℤ) :
    (f.retire m epoch).order = f.order ∧ ∀ id, (f.retire m epoch).retiredEpoch id =
      if id = m then max (f.retiredEpoch m) epoch else f.retiredEpoch id := by
  rw [retire, dif_neg hne, dif_pos ((f.mem_iff m).mpr hm)]
  exact ⟨rfl, fun id => Table.read_insert ..⟩

theorem retire_of_room (hm : m ∉ f.order) (hne : m ≠ "") (hroom : f.order.length < 64)
    (epoch : ℤ) :
    (f.retire m epoch).order = f.order ++ [m] ∧ ∀ id, (f.retire m epoch).retiredEpoch id =
      if id = m then epoch else f.retiredEpoch id := by
  have hlength : (f.order ++ [m]).length ≤ 64 := by
    rw [List.length_append, List.length_singleton]
    omega
  have htrim := trim_of_le (f.retired.insert m epoch) hlength
  rw [retire, dif_neg hne, dif_neg (mt (f.mem_iff m).mp hm)]
  refine ⟨congrArg Prod.snd htrim, ?_⟩
  intro id
  exact (congrArg (fun k => Table.read k.1 id) htrim).trans (Table.read_insert ..)

theorem retire_of_full {oldest : String} {rest : List String} (hm : m ∉ f.order) (hne : m ≠ "")
    (horder : f.order = oldest :: rest) (hfull : rest.length = 63) (epoch : ℤ) :
    (f.retire m epoch).order = rest ++ [m] ∧ ∀ id ≠ oldest, (f.retire m epoch).retiredEpoch id =
      if id = m then epoch else f.retiredEpoch id := by
  have htrim : trim (f.retired.insert m epoch) (f.order ++ [m]) =
      ((f.retired.insert m epoch).erase oldest, rest ++ [m]) := by
    rw [horder]
    exact trim_cons _ oldest (by simp [hfull])
  rw [retire, dif_neg hne, dif_neg (mt (f.mem_iff m).mp hm)]
  refine ⟨congrArg Prod.snd htrim, ?_⟩
  intro id hid
  refine (congrArg (fun k => Table.read k.1 id) htrim).trans ?_
  rw [Table.read, AList.lookup_erase_ne hid]
  exact Table.read_insert ..

theorem retiredEpoch_of_notMem (hm : m ∉ f.order) : f.retiredEpoch m = 0 :=
  Table.read_of_notMem (mt (f.mem_iff m).mp hm)

/-! ## A reload -/

/-- What is read back is what was written, in the same order. -/
theorem fromJson_toJson (f : Fence) :
    (fromJson f.toJson).order = f.order ∧
      ∀ id, (fromJson f.toJson).retiredEpoch id = f.retiredEpoch id := by
  -- the entries are put in one by one, and each is new
  have hprefix : ∀ l, l <+: f.order →
      (fromJson (l.map fun id => (id, f.retiredEpoch id))).order = l ∧
        ∀ id, (fromJson (l.map fun id => (id, f.retiredEpoch id))).retiredEpoch id =
          if id ∈ l then f.retiredEpoch id else 0 := by
    intro l
    induction l using List.reverseRecOn with
    | nil => exact fun _ => ⟨rfl, fun id => Table.read_empty id⟩
    | append_singleton l x ih =>
      intro hl
      obtain ⟨horder, hread⟩ := ih ((List.prefix_append l [x]).trans hl)
      have hnodup := f.nodup.sublist hl.sublist
      have hx : x ∉ l := by
        rw [List.nodup_append] at hnodup
        exact fun hmem => hnodup.2.2 x hmem x List.mem_cons_self rfl
      have hxne : x ≠ "" := fun heq => f.named (hl.subset (by simp [heq]))
      have hroom : l.length < 64 := by
        have := hl.length_le
        have := f.bounded
        simp at *
        omega
      have hstep : fromJson ((l ++ [x]).map fun id => (id, f.retiredEpoch id)) =
          (fromJson (l.map fun id => (id, f.retiredEpoch id))).retire x (f.retiredEpoch x) := by
        simp only [fromJson, List.map_append, run_append]
        rfl
      rw [hstep]
      generalize fromJson (l.map fun id => (id, f.retiredEpoch id)) = g at horder hread
      subst horder
      obtain ⟨horder', hread'⟩ := retire_of_room hx hxne hroom (f.retiredEpoch x)
      refine ⟨horder', ?_⟩
      intro id
      rw [hread' id, hread id]
      by_cases hid : id = x
      · simp [hid]
      · simp [hid]
  obtain ⟨horder, hread⟩ := hprefix f.order List.prefix_rfl
  refine ⟨horder, fun id => (hread id).trans ?_⟩
  split_ifs with hid
  · rfl
  · exact (retiredEpoch_of_notMem hid).symm

/-! ## The most recent matches -/

/-- The match is remembered with this epoch or a later one, and only matches of `seen` have been
added after it. -/
structure Remembers (f : Fence) (m : String) (epoch : ℤ) (seen : Finset String) : Prop where
  newer : ∃ older newer, f.order = older ++ m :: newer ∧ ∀ id ∈ newer, id ∈ seen
  epoch_le : epoch ≤ f.retiredEpoch m

/-- A match that is new to the fence, or its newest one, is the newest afterwards. -/
theorem remembers_retire (hne : m ≠ "") (hm : m ∉ f.order ∨ f.order.getLast? = some m) (epoch : ℤ)
    (seen : Finset String) : (f.retire m epoch).Remembers m epoch seen := by
  have newest : ∀ {older : List String}, (f.retire m epoch).order = older ++ [m] →
      epoch ≤ (f.retire m epoch).retiredEpoch m → (f.retire m epoch).Remembers m epoch seen :=
    fun horder hepoch => ⟨⟨_, [], horder, nofun⟩, hepoch⟩
  rcases hm with hm | hlast
  · rcases Nat.lt_or_ge f.order.length 64 with hroom | hfull
    · obtain ⟨horder, hepoch⟩ := retire_of_room hm hne hroom epoch
      exact newest horder (by rw [hepoch, if_pos rfl])
    · obtain ⟨oldest, rest, horder⟩ :=
        List.exists_cons_of_length_pos (by omega : 0 < f.order.length)
      have hlength : rest.length = 63 := by
        have := f.bounded
        rw [horder, List.length_cons] at hfull this
        omega
      obtain ⟨hkept, hepoch⟩ := retire_of_full hm hne horder hlength epoch
      have hoth : m ≠ oldest := fun heq => hm (by simp [horder, heq])
      exact newest hkept (by rw [hepoch m hoth, if_pos rfl])
  · obtain ⟨older, horder⟩ := List.getLast?_eq_some_iff.mp hlast
    obtain ⟨hkept, hepoch⟩ := retire_of_mem (List.mem_of_getLast? hlast) hne epoch
    exact newest (hkept.trans horder) (by rw [hepoch, if_pos rfl]; exact le_max_right _ _)

/-- As long as fewer than 64 matches are newer, another match does not push it out. -/
theorem Remembers.retire {e : ℤ} {seen : Finset String} (h : f.Remembers m e seen)
    (hfew : seen.card < 64) {id : String} (hid : id ≠ m) (hseen : id = "" ∨ id ∈ seen) (epoch : ℤ) :
    (f.retire id epoch).Remembers m e seen := by
  obtain ⟨⟨older, newer, horder, hnewer⟩, hepoch⟩ := h
  by_cases hempty : id = ""
  · rw [hempty, retire_empty]
    exact ⟨⟨older, newer, horder, hnewer⟩, hepoch⟩
  have hseen := hseen.resolve_left hempty
  have hnewer' : ∀ x ∈ newer ++ [id], x ∈ seen := by
    intro x hx
    rcases List.mem_append.mp hx with hx | hx
    · exact hnewer x hx
    · exact List.mem_singleton.mp hx ▸ hseen
  by_cases hmem : id ∈ f.order
  · obtain ⟨hkept, hread⟩ := retire_of_mem hmem hempty epoch
    exact ⟨⟨older, newer, hkept.trans horder, hnewer⟩, by rwa [hread, if_neg hid.symm]⟩
  rcases Nat.lt_or_ge f.order.length 64 with hroom | hfull
  · obtain ⟨hkept, hread⟩ := retire_of_room hmem hempty hroom epoch
    exact ⟨⟨older, newer ++ [id], by rw [hkept, horder]; simp, hnewer'⟩,
      by rwa [hread, if_neg hid.symm]⟩
  have hlength : f.order.length = 64 := le_antisymm f.bounded hfull
  cases older with
  | nil =>
    -- the match itself is the oldest: the 63 newer ones and `id` are 64 of `seen`
    have hnodup : (newer ++ [id]).Nodup := by
      have := f.nodup
      rw [horder] at this hmem
      exact (List.nodup_cons.mp this).2.append (List.nodup_singleton id)
        (List.disjoint_singleton.mpr fun hx => hmem (List.mem_cons_of_mem m hx))
    have hcard : (newer ++ [id]).toFinset.card ≤ seen.card :=
      Finset.card_le_card fun x hx => hnewer' x (List.mem_toFinset.mp hx)
    rw [List.toFinset_card_of_nodup hnodup] at hcard
    rw [horder] at hlength
    simp at hlength hcard
    omega
  | cons oldest older =>
    have hm : m ≠ oldest := by
      have := f.nodup
      rw [horder, List.cons_append] at this
      exact fun heq => (List.nodup_cons.mp this).1 (by simp [heq])
    obtain ⟨hkept, hread⟩ := retire_of_full hmem hempty (horder.trans (List.cons_append ..))
      (by rw [horder] at hlength; simpa using hlength) epoch
    exact ⟨⟨older, newer ++ [id], by rw [hkept]; simp, hnewer'⟩,
      by rwa [hread m hm, if_neg hid.symm]⟩

/-- A match.assign with an epoch older than the retired one is refused, and so is one with that
epoch unless the match is the current one. -/
theorem checkAssign_of_retired {e epoch : ℤ} (he : e ≤ f.retiredEpoch m) (cur : Assignment)
    (localMatchActive : Bool) :
    (epoch < e → f.checkAssign cur m epoch localMatchActive = .staleEpoch) ∧
      (epoch ≤ e → ¬(cur.active = true ∧ cur.matchId = m) →
        f.checkAssign cur m epoch localMatchActive ≠ .ok) := by
  constructor
  · intro hold
    unfold checkAssign
    split_ifs
    · rfl
    · rfl
    all_goals omega
  · intro hold hcur
    unfold checkAssign
    split_ifs <;> grind

/-- The matches that a list of calls names. -/
def matchesOf (calls : List (String × ℤ)) : Finset String :=
  ((calls.map Prod.fst).filter (· ≠ "")).toFinset

/-- A call for a match that the fence does not remember, or remembers as its newest. -/
def InOrder (f : Fence) (call : String × ℤ) : Prop :=
  call.1 ∉ f.order ∨ f.order.getLast? = some call.1

instance (f : Fence) (call : String × ℤ) : Decidable (f.InOrder call) :=
  inferInstanceAs (Decidable (_ ∨ _))

/-- The match is remembered, and epochs up to `e` of it are refused: the older ones always, `e`
itself unless the match is the current one. -/
structure Holds (f : Fence) (m : String) (e : ℤ) : Prop where
  remembered : m ∈ f.order
  refused : ∀ cur epoch localMatchActive,
    (epoch < e → f.checkAssign cur m epoch localMatchActive = .staleEpoch) ∧
      (epoch ≤ e → ¬(cur.active = true ∧ cur.matchId = m) →
        f.checkAssign cur m epoch localMatchActive ≠ .ok)

theorem Remembers.holds {e : ℤ} {seen : Finset String}
    (h : f.Remembers m e seen) : f.Holds m e := by
  obtain ⟨older, newer, horder, -⟩ := h.newer
  refine ⟨by simp [horder], ?_⟩
  intro cur _ localMatchActive
  exact checkAssign_of_retired h.epoch_le cur localMatchActive

/-- Fewer than 64 other matches do not push out a match whose last call was in order. -/
theorem holds_run {e : ℤ} {after : List (String × ℤ)} (hne : m ≠ "") (hcall : f.InOrder (m, e))
    (hlast : ∀ call ∈ after, call.1 ≠ m) (hfew : (matchesOf after).card < 64) :
    (run retireCall (f.retire m e) after).Holds m e := by
  have hseen : ∀ call ∈ after, call.1 = "" ∨ call.1 ∈ matchesOf after := by
    intro call hmem
    by_cases hempty : call.1 = ""
    · exact .inl hempty
    · refine .inr (List.mem_toFinset.mpr (List.mem_filter.mpr ?_))
      exact ⟨List.mem_map_of_mem hmem, by simpa using hempty⟩
  have hrun : (run retireCall (f.retire m e) after).Remembers m e (matchesOf after) := by
    apply run_invariant (P := (Remembers · m e (matchesOf after)))
    · exact remembers_retire hne hcall e _
    · intro call hmem g hg
      exact hg.retire hfew (hlast call hmem) (hseen call hmem) call.2
  exact hrun.holds

/-- New matches go to the end of the order, and only the front of it is lost. -/
theorem order_run_fresh {ids : List String} (hnodup : ids.Nodup)
    (hfresh : ∀ id ∈ ids, id ∉ f.order ∧ id ≠ "") :
    (run retireCall f (ids.map (·, 1))).order <:+ f.order ++ ids := by
  induction ids generalizing f with
  | nil => simp
  | cons id ids ih =>
    obtain ⟨hid, hne⟩ := hfresh id List.mem_cons_self
    have hsuffix : (f.retire id 1).order <:+ f.order ++ [id] := by
      rw [retire, dif_neg hne, dif_neg (mt (f.mem_iff id).mp hid)]
      exact trim_suffix _ _
    have hrest : ∀ x ∈ ids, x ∉ (f.retire id 1).order ∧ x ≠ "" := by
      intro x hx
      obtain ⟨hxf, hxne⟩ := hfresh x (List.mem_cons_of_mem id hx)
      refine ⟨?_, hxne⟩
      intro hmem
      rcases List.mem_append.mp (hsuffix.subset hmem) with hmem | hmem
      · exact hxf hmem
      · exact (List.nodup_cons.mp hnodup).1 (List.mem_singleton.mp hmem ▸ hx)
    obtain ⟨dropped, hdropped⟩ := hsuffix
    refine (ih hnodup.of_cons hrest).trans ⟨dropped, ?_⟩
    rw [← List.append_assoc, hdropped, List.append_assoc]
    rfl

theorem order_run_room {ids : List String} (hnodup : ids.Nodup)
    (hfresh : ∀ id ∈ ids, id ∉ f.order ∧ id ≠ "") (hroom : f.order.length + ids.length ≤ 64) :
    (run retireCall f (ids.map (·, 1))).order = f.order ++ ids := by
  induction ids generalizing f with
  | nil => simp
  | cons id ids ih =>
    obtain ⟨hid, hne⟩ := hfresh id List.mem_cons_self
    rw [List.length_cons] at hroom
    obtain ⟨horder, -⟩ := retire_of_room hid hne (by omega) 1
    have hrest : ∀ x ∈ ids, x ∉ (f.retire id 1).order ∧ x ≠ "" := by
      intro x hx
      obtain ⟨hxf, hxne⟩ := hfresh x (List.mem_cons_of_mem id hx)
      rw [horder, List.mem_append, List.mem_singleton, not_or]
      exact ⟨⟨hxf, fun heq => (List.nodup_cons.mp hnodup).1 (heq ▸ hx)⟩, hxne⟩
    have hlength : (f.retire id 1).order.length + ids.length ≤ 64 := by
      rw [horder, List.length_append, List.length_singleton]
      omega
    have hrun := ih hnodup.of_cons hrest hlength
    rw [horder, List.append_assoc] at hrun
    exact hrun

/-- A match with another one after it is pushed out by 63 new ones. -/
theorem exists_forgotten {e : ℤ} (hne : m ≠ "") (hcall : ¬f.InOrder (m, e)) :
    ∃ after : List (String × ℤ), (∀ call ∈ after, call.1 ≠ m) ∧ (matchesOf after).card < 64 ∧
      m ∉ (run retireCall (f.retire m e) after).order := by
  obtain ⟨hmem, hlast⟩ := not_or.mp hcall
  have hmem : m ∈ f.order := not_not.mp hmem
  obtain ⟨horder, -⟩ := retire_of_mem hmem hne e
  obtain ⟨older, newer, hsplit⟩ := List.append_of_mem hmem
  have hnewer : 1 ≤ newer.length := by
    by_contra hnone
    have hnil : newer = [] := List.length_eq_zero_iff.mp (by omega)
    exact hlast (by rw [hsplit, hnil, List.getLast?_concat])
  obtain ⟨all, hknown, hcard⟩ := Infinite.exists_superset_card_eq (insert "" f.order.toFinset)
    ((insert "" f.order.toFinset).card + 63) (Nat.le_add_right _ _)
  let ids := (all \ insert "" f.order.toFinset).toList
  have hids : ids.length = 63 := by
    rw [Finset.length_toList, Finset.card_sdiff_of_subset hknown, hcard]
    omega
  have hfresh : ∀ id ∈ ids, id ∉ f.order ∧ id ≠ "" := by
    intro id hid
    have hnot := (Finset.mem_sdiff.mp (Finset.mem_toList.mp hid)).2
    simp only [Finset.mem_insert, List.mem_toFinset, not_or] at hnot
    exact ⟨hnot.2, hnot.1⟩
  have hnodup : ids.Nodup := Finset.nodup_toList _
  refine ⟨ids.map (·, 1), ?_, ?_, ?_⟩
  · intro call hmap heq
    obtain ⟨id, hid, rfl⟩ := List.mem_map.mp hmap
    exact (hfresh id hid).1 ((show id = m from heq) ▸ hmem)
  · have hlength : ((ids.map (·, (1 : ℤ))).map Prod.fst).length = 63 := by simp [hids]
    have hle := List.length_filter_le (· ≠ "") ((ids.map (·, (1 : ℤ))).map Prod.fst)
    have hcount := List.toFinset_card_le (((ids.map (·, (1 : ℤ))).map Prod.fst).filter (· ≠ ""))
    unfold matchesOf
    omega
  · -- what is left ends in the matches after `m`, and these alone are 64
    have hsuffix : (run retireCall (f.retire m e) (ids.map (·, 1))).order <:+ newer ++ ids := by
      apply List.suffix_of_suffix_length_le (order_run_fresh hnodup (horder ▸ hfresh))
      · rw [horder, hsplit]
        exact ⟨older ++ [m], by simp⟩
      · have := (run retireCall (f.retire m e) (ids.map (·, 1))).bounded
        rw [List.length_append]
        omega
    intro hleft
    rcases List.mem_append.mp (hsuffix.subset hleft) with hleft | hleft
    · have := f.nodup
      rw [hsplit] at this
      exact (List.nodup_cons.mp (List.nodup_append.mp this).2.1).1 hleft
    · exact (hfresh m hleft).1 hmem

/-- A match outlasts every sequence of calls with fewer than 64 other matches after its last call
if and only if that call found it new to the fence or its newest. -/
theorem remembers_recent_iff (f : Fence) (before : List (String × ℤ)) (m : String) (e : ℤ)
    (hne : m ≠ "") :
    (∀ after : List (String × ℤ), (∀ call ∈ after, call.1 ≠ m) → (matchesOf after).card < 64 →
        (run retireCall f (before ++ (m, e) :: after)).Holds m e) ↔
      (run retireCall f before).InOrder (m, e) := by
  simp only [run_append, run_cons]
  constructor
  · intro hholds
    by_contra hcall
    obtain ⟨after, hlast, hfew, hforgotten⟩ := exists_forgotten hne hcall
    exact hforgotten (hholds after hlast hfew).remembered
  · intro hcall after hlast hfew
    exact holds_run hne hcall hlast hfew

/-- A match, the same again with its next epoch while it is the newest, and another one. -/
theorem remembers_recent_iff_again :
    (run retireCall ∅ [("m", 1), ("m", 2), ("n", 1)]).Holds "m" 2 :=
  (remembers_recent_iff ∅ [("m", 1)] "m" 2 (by decide)).mpr (by decide) [("n", 1)] (by decide)
    (by decide)

/-- Sixty-three matches beside the one in question. -/
def others : List (String × ℤ) :=
  (List.range 63).map fun n => (String.ofList [Char.ofNat (n + 48)], 1)

theorem others_eq : ∃ ids : List String, others = ids.map (·, 1) ∧ ids.Nodup ∧ ids.length = 63 ∧
    ∀ id ∈ ids, id.length = 1 := by
  have hchars : ((List.range 63).map fun n => Char.ofNat (n + 48)).Nodup := by decide
  refine ⟨((List.range 63).map fun n => Char.ofNat (n + 48)).map fun c => String.ofList [c], ?_,
    ?_, by simp, ?_⟩
  · rw [others, List.map_map, List.map_map]
    rfl
  · exact hchars.map fun a b heq => by simpa using heq
  · intro id hid
    obtain ⟨c, -, rfl⟩ := List.mem_map.mp hid
    simp

/-- The match is retired again after 63 others, and one more match pushes it out: its first epoch
is accepted again. -/
theorem retired_again_forgotten :
    let calls := [("match", 1)] ++ others ++ [("match", 2), ("next", 1)]
    let f := run retireCall ∅ calls
    matchesOf [("next", (1 : ℤ))] = {"next"} ∧ "match" ∉ f.order ∧
      f.checkAssign {} "match" 1 false = .ok := by
  obtain ⟨ids, hothers, hnodup, hlength, hshort⟩ := others_eq
  intro calls f
  have hother : ∀ {id : String}, id ∈ ids → ∀ {name : String}, name.length ≠ 1 → id ≠ name := by
    intro id hid name hname heq
    exact hname (heq ▸ hshort id hid)
  have hfirst : ((∅ : Fence).retire "match" 1).order = ["match"] := by decide
  have hrun : (run retireCall ((∅ : Fence).retire "match" 1) others).order = "match" :: ids := by
    rw [hothers, order_run_room hnodup, hfirst]
    · rfl
    · intro id hid
      rw [hfirst, List.mem_singleton]
      exact ⟨hother hid (by decide), hother hid (by decide)⟩
    · rw [hfirst, hlength]
      decide
  have hcalls :
      f = ((run retireCall ((∅ : Fence).retire "match" 1) others).retire "match" 2).retire "next"
        1 := by
    rw [show f = run retireCall ∅ ([("match", 1)] ++ others ++ [("match", 2), ("next", 1)]) from
      rfl]
    rw [run_append, run_append, run_cons, run_cons, run_cons, run_nil, run_nil, retireCall,
      retireCall, retireCall]
  generalize run retireCall ((∅ : Fence).retire "match" 1) others = g at hrun hcalls
  -- the second call keeps the place of the match, which is the oldest
  have hagain : (g.retire "match" 2).order = "match" :: ids :=
    (retire_of_mem (by rw [hrun]; exact List.mem_cons_self) (by decide) 2).1.trans hrun
  have hnext : "next" ∉ (g.retire "match" 2).order := by
    rw [hagain, List.mem_cons, not_or]
    exact ⟨by decide, fun hmem => hother hmem (by decide) rfl⟩
  obtain ⟨horder, -⟩ := retire_of_full hnext (by decide) hagain hlength 1
  have hgone : "match" ∉ f.order := by
    rw [hcalls, horder, List.mem_append, List.mem_singleton, not_or]
    exact ⟨fun hmem => hother hmem (by decide) rfl, by decide⟩
  refine ⟨by decide, hgone, ?_⟩
  rw [checkAssign, retiredEpoch_of_notMem hgone]
  decide

end Fence

end ReadyUp.Fleet
