import ReadyUp.Status.Json

/-!
# Merge patches

`MergeDiff` writes the difference of two values as an RFC 7386 merge patch and
`MergePatchApply` applies one. A patch cannot set a member to null: null deletes. `Same`
compares two values up to null members, which `dropNulls` takes out. What the two functions
do at one key is `diffKey` and `applyKey`.
-/
namespace ReadyUp.Status

open Support

namespace Json

mutual

/-- The value without null members, through objects but not inside arrays. -/
def dropNulls : Json → Json
  | .object ms => .object (dropNullMembers ms)
  | v => v

def dropNullMembers : List (Bytes × Json) → List (Bytes × Json)
  | [] => []
  | (k, v) :: ms =>
    if v.isNull then dropNullMembers ms else (k, dropNulls v) :: dropNullMembers ms

end

attribute [local simp] dropNulls dropNullMembers

def Same (a b : Json) : Prop := a.dropNulls.eq b.dropNulls

/-- A null member is as good as none. -/
def present (o : Option Json) : Option Json := o.filter fun v => !v.isNull

end Json

open Json

mutual

/-- `MergeDiff(from, to, patch)`: the patch, or nothing where the function returns false. -/
def mergeDiff : Json → Json → Option Json
  | source, .object ts =>
    if source.eq (.object ts) then none
    else match source with
      | .object fs =>
        let removed := assignAll
          (fun k _ => if (ts.lookup k).isNone then some .null else none) [] fs
        let patch := diffMembers fs removed ts
        if patch.isEmpty then none else some (.object patch)
      | _ => some (.object ts)
  | source, target => if source.eq target then none else some target

/-- The loop over the members of `to`. -/
def diffMembers (fs : List (Bytes × Json)) :
    List (Bytes × Json) → List (Bytes × Json) → List (Bytes × Json)
  | patch, [] => patch
  | patch, (k, v) :: ts =>
    match fs.lookup k with
    | none => diffMembers fs (assign patch k v) ts
    | some old =>
      if v.isNull then
        -- a merge patch cannot set a member to null: it is dropped
        if old.isNull then diffMembers fs patch ts
        else diffMembers fs (assign patch k .null) ts
      else match mergeDiff old v with
        | none => diffMembers fs patch ts
        | some sub => diffMembers fs (assign patch k sub) ts

end

attribute [local simp] mergeDiff diffMembers

/-- What a member of a patch does to the member of the target: a null deletes it. -/
def editOf (p : Json) (apply : Json → Json) : Option (Json → Json) :=
  if p.isNull then none else some apply

/-- A member of the target: kept where no edit names it, deleted or edited otherwise. -/
def keepEdited (edits : List (Bytes × Option (Json → Json))) (k : Bytes) (v : Json) :
    Option Json :=
  match edits.lookup k with
  | none => some v
  | some none => none
  | some (some apply) => some (apply v)

/-- A member of the patch that the target does not have, applied to a null. -/
def addEdited (ts : List (Bytes × Json)) (k : Bytes) (edit : Option (Json → Json)) :
    Option Json :=
  if (ts.lookup k).isSome then none else edit.map (· .null)

mutual

/-- `MergePatchApply(target, patch)` -/
def mergePatchApply : Json → Json → Json
  | target, .object ps =>
    let edits := patchMembers ps
    let kept := assignAll (keepEdited edits) [] target.members
    .object (assignAll (addEdited target.members) kept edits)
  | _, patch => patch

/-- The recursive calls that `MergePatchApply` makes for the members of a patch. -/
def patchMembers : List (Bytes × Json) → List (Bytes × Option (Json → Json))
  | [] => []
  | (k, p) :: ps => (k, editOf p fun v => mergePatchApply v p) :: patchMembers ps

end

/-- What the loop over the members of `to` puts into the patch. -/
def diffMember (fs : List (Bytes × Json)) (k : Bytes) (v : Json) : Option Json :=
  match fs.lookup k with
  | none => some v
  | some old =>
    if v.isNull then if old.isNull then none else some .null
    else mergeDiff old v

theorem diffMembers_eq (fs patch ts : List (Bytes × Json)) :
    diffMembers fs patch ts = assignAll (diffMember fs) patch ts := by
  induction ts generalizing patch with
  | nil => rw [diffMembers, assignAll]
  | cons kv ts ih =>
    obtain ⟨k, v⟩ := kv
    rw [diffMembers]
    cases hk : fs.lookup k with
    | none =>
      have hmember : diffMember fs k v = some v := by rw [diffMember, hk]
      rw [assignAll_cons_some hmember, ← ih]
    | some old =>
      dsimp only
      split_ifs with hv hold
      · have hmember : diffMember fs k v = none := by simp [diffMember, hk, hv, hold]
        rw [assignAll_cons_none hmember, ← ih]
      · have hmember : diffMember fs k v = some .null := by simp [diffMember, hk, hv, hold]
        rw [assignAll_cons_some hmember, ← ih]
      · have hmember : diffMember fs k v = mergeDiff old v := by simp [diffMember, hk, hv]
        cases hsub : mergeDiff old v with
        | none => rw [assignAll_cons_none (hmember.trans hsub), ← ih]
        | some sub => rw [assignAll_cons_some (hmember.trans hsub), ← ih]

/-- A member of the target: kept where the patch does not name it, deleted where the
patch is null, patched otherwise. -/
def keepMember (ps : List (Bytes × Json)) (k : Bytes) (v : Json) : Option Json :=
  match ps.lookup k with
  | none => some v
  | some p => if p.isNull then none else some (mergePatchApply v p)

/-- A member of the patch that the target does not have. -/
def addMember (ts : List (Bytes × Json)) (k : Bytes) (p : Json) : Option Json :=
  if (ts.lookup k).isSome || p.isNull then none else some (mergePatchApply .null p)

theorem patchMembers_eq (ps : List (Bytes × Json)) :
    patchMembers ps = ps.map fun kv => (kv.1, editOf kv.2 fun v => mergePatchApply v kv.2) := by
  induction ps with
  | nil => rfl
  | cons kv ps ih => rw [patchMembers, ih, List.map_cons]

theorem keepEdited_patchMembers (ps : List (Bytes × Json)) :
    keepEdited (patchMembers ps) = keepMember ps := by
  funext k v
  rw [keepEdited, keepMember, patchMembers_eq,
    lookup_map (fun p => editOf p fun v => mergePatchApply v p)]
  cases ps.lookup k with
  | none => rfl
  | some p => cases hp : p.isNull <;> simp [editOf, hp]

theorem addEdited_editOf (ts : List (Bytes × Json)) (k : Bytes) (p : Json) :
    addEdited ts k (editOf p fun v => mergePatchApply v p) = addMember ts k p := by
  rw [addEdited, addMember]
  cases (ts.lookup k).isSome <;> cases hp : p.isNull <;> simp [editOf, hp]

/-- The two loops of `MergePatchApply`, as the source has them. -/
theorem mergePatchApply_object (target : Json) (ps : List (Bytes × Json)) :
    mergePatchApply target (.object ps) =
      .object (assignAll (addMember target.members)
        (assignAll (keepMember ps) [] target.members) ps) := by
  rw [mergePatchApply, keepEdited_patchMembers, patchMembers_eq,
    assignAll_map fun p => editOf p fun v => mergePatchApply v p]
  simp only [addEdited_editOf]

namespace Json

@[simp] theorem present_none : present none = none := rfl

theorem present_some_of_isNull {v : Json} (h : v.isNull = true) : present (some v) = none := by
  simp [present, h]

theorem present_some {v : Json} (h : v.isNull = false) : present (some v) = some v := by
  simp [present, h]

@[simp] theorem isNull_dropNulls (v : Json) : v.dropNulls.isNull = v.isNull := by
  cases v <;> rfl

theorem keys_dropNullMembers_sublist (ms : List (Bytes × Json)) :
    (keys (dropNullMembers ms)).Sublist (keys ms) := by
  induction ms with
  | nil => exact .slnil
  | cons kv ms ih =>
    obtain ⟨k, v⟩ := kv
    rw [dropNullMembers]
    split_ifs with hv
    · exact ih.cons k
    · exact ih.cons_cons k

theorem lookup_dropNullMembers {ms : List (Bytes × Json)} (h : (keys ms).Nodup) (k : Bytes) :
    (dropNullMembers ms).lookup k = (present (ms.lookup k)).map dropNulls := by
  induction ms with
  | nil => rfl
  | cons kv ms ih =>
    obtain ⟨j, v⟩ := kv
    rw [keys_cons, List.nodup_cons] at h
    rw [dropNullMembers, lookup_cons_eq]
    by_cases hk : k = j
    · subst hk
      have hnone : ms.lookup k = none := lookup_eq_none.mpr h.1
      rw [if_pos rfl]
      split_ifs with hv
      · rw [ih h.2, hnone, present_some_of_isNull hv, present_none]
      · rw [present_some (by simpa using hv), lookup_cons_eq, if_pos rfl, Option.map_some]
    · rw [if_neg hk, ← ih h.2]
      split_ifs with hv
      · rfl
      · rw [lookup_cons_eq, if_neg hk]

theorem UniqueKeys.dropNulls {v : Json} (h : v.UniqueKeys) : v.dropNulls.UniqueKeys := by
  induction v with
  | object ms ih =>
    rw [uniqueKeys_object] at h
    rw [Json.dropNulls, uniqueKeys_object]
    have hnodup := h.1.sublist (keys_dropNullMembers_sublist ms)
    refine ⟨hnodup, ?_⟩
    intro k v hmem
    have hk := lookup_of_mem hnodup hmem
    rw [lookup_dropNullMembers h.1, Option.map_eq_some_iff] at hk
    obtain ⟨w, hw, rfl⟩ := hk
    have hmem' := mem_of_lookup (Option.filter_eq_some_iff.mp hw).1
    exact ih k w hmem' (h.2 k w hmem')
  | _ => exact h

section Same

theorem isNull_of_eq {a b : Json} (h : a.eq b) : a.isNull = b.isNull := by
  cases a <;> cases b <;> first | rfl | (simp [eq] at h)

theorem Same.isNull {a b : Json} (h : a.Same b) : a.isNull = b.isNull := by
  cases a <;> cases b <;> first | rfl | (simp [Same, Json.dropNulls, eq] at h)

theorem Same.isObject {a b : Json} (h : a.Same b) : a.isObject = b.isObject := by
  cases a <;> cases b <;> first | rfl | (simp [Same, Json.dropNulls, eq] at h)

theorem same_trans {a b c : Json} (ha : a.UniqueKeys) (hb : b.UniqueKeys) (hc : c.UniqueKeys)
    (hab : a.Same b) (hbc : b.Same c) : a.Same c :=
  eq_trans ha.dropNulls hb.dropNulls hc.dropNulls hab hbc

/-- Objects are the same when they agree key by key, up to null members. -/
theorem same_object_iff {as bs : List (Bytes × Json)} (ha : (keys as).Nodup)
    (hb : (keys bs).Nodup) : Same (.object as) (.object bs) ↔
      ∀ k, Option.Rel Same (present (as.lookup k)) (present (bs.lookup k)) := by
  have ha' := ha.sublist (keys_dropNullMembers_sublist as)
  have hb' := hb.sublist (keys_dropNullMembers_sublist bs)
  rw [Same, Json.dropNulls, Json.dropNulls, eq_object_iff ha' hb']
  apply forall_congr'
  intro k
  rw [lookup_dropNullMembers ha, lookup_dropNullMembers hb]
  generalize present (as.lookup k) = x
  generalize present (bs.lookup k) = y
  constructor
  · intro h
    cases x <;> cases y <;> cases h
    · exact .none
    · exact .some ‹_›
  · intro h
    cases h with
    | none => exact .none
    | some h => exact .some h

theorem same_iff_find {a b : Json} (ha : a.isObject = true) (hb : b.isObject = true)
    (hau : a.UniqueKeys) (hbu : b.UniqueKeys) :
    a.Same b ↔ ∀ k, Option.Rel Same (present (a.find k)) (present (b.find k)) := by
  cases a with
  | object as =>
    cases b with
    | object bs => exact same_object_iff (uniqueKeys_object.mp hau).1 (uniqueKeys_object.mp hbu).1
    | _ => cases hb
  | _ => cases ha

theorem rel_present {x y : Option Json} (h : Option.Rel Same x y) :
    Option.Rel Same (present x) (present y) := by
  cases h with
  | none => exact .none
  | @some a b hab =>
    cases ha : a.isNull with
    | true =>
      rw [present_some_of_isNull ha, present_some_of_isNull (hab.isNull ▸ ha)]
      exact .none
    | false =>
      rw [present_some ha, present_some (hab.isNull ▸ ha)]
      exact .some hab

theorem same_of_eq {a b : Json} (ha : a.UniqueKeys) (hb : b.UniqueKeys) (h : a.eq b) :
    a.Same b := by
  induction a generalizing b with
  | object as ih =>
    cases b with
    | object bs =>
      rw [uniqueKeys_object] at ha hb
      rw [eq_object_iff ha.1 hb.1] at h
      rw [same_object_iff ha.1 hb.1]
      intro k
      apply rel_present
      apply rel_imp (h k)
      intro a b hak hbk hab
      have hmem := mem_of_lookup hak
      exact ih k a hmem (ha.2 k a hmem) (hb.2 k b (mem_of_lookup hbk)) hab
    | _ => simp [eq] at h
  | _ =>
    cases b with
    | object bs => simp [eq] at h
    | _ => exact h

theorem same_refl {v : Json} (hu : v.UniqueKeys) (hn : v.NoNaN) : v.Same v :=
  same_of_eq hu hu (eq_refl hu hn)

end Same

end Json

/-- One key of a difference of two objects. -/
def diffKey (old new : Option Json) : Option Json :=
  match old, new with
  | none, new => new
  | some _, none => some .null
  | some old, some v =>
    if v.isNull then if old.isNull then none else some .null
    else mergeDiff old v

/-- One key of an object under a patch. -/
def applyKey (v p : Option Json) : Option Json :=
  match p with
  | none => v
  | some p => if p.isNull then none else some (mergePatchApply (v.getD .null) p)

def diffObjects (fs ts : List (Bytes × Json)) : List (Bytes × Json) :=
  assignAll (diffMember fs)
    (assignAll (fun k _ => if (ts.lookup k).isNone then some .null else none) [] fs) ts

theorem nodup_keys_diffObjects (fs ts : List (Bytes × Json)) :
    (keys (diffObjects fs ts)).Nodup :=
  nodup_keys_assignAll (nodup_keys_assignAll nodup_keys_nil fs) ts

theorem lookup_diffObjects {fs ts : List (Bytes × Json)} (hf : (keys fs).Nodup)
    (ht : (keys ts).Nodup) (k : Bytes) :
    (diffObjects fs ts).lookup k = diffKey (fs.lookup k) (ts.lookup k) := by
  rw [diffObjects, lookup_assignAll ht, lookup_assignAll hf]
  cases hfk : fs.lookup k <;> cases htk : ts.lookup k <;> simp [diffKey, diffMember, hfk]

theorem lookup_mergePatchApply {ts ps : List (Bytes × Json)} (ht : (keys ts).Nodup)
    (hp : (keys ps).Nodup) (k : Bytes) :
    (assignAll (addMember ts) (assignAll (keepMember ps) [] ts) ps).lookup k =
      applyKey (ts.lookup k) (ps.lookup k) := by
  rw [lookup_assignAll hp, lookup_assignAll ht]
  cases htk : ts.lookup k with
  | none => cases hpk : ps.lookup k <;> simp [applyKey, addMember, htk]
  | some v => cases hpk : ps.lookup k <;> simp [applyKey, addMember, keepMember, htk, hpk]

theorem mergeDiff_eq_none_of_eq {source target : Json} (h : source.eq target) :
    mergeDiff source target = none := by
  cases target <;> simp [mergeDiff, h]

theorem mergeDiff_of_not_object {source target : Json} (h : source.eq target = false)
    (hobj : source.isObject = false ∨ target.isObject = false) :
    mergeDiff source target = some target := by
  cases target with
  | object ts =>
    cases source with
    | object fs => simp [isObject] at hobj
    | _ => simp [mergeDiff, h]
  | _ => simp [mergeDiff, h]

theorem mergeDiff_objects {fs ts : List (Bytes × Json)}
    (h : eq (.object fs) (.object ts) = false) :
    mergeDiff (.object fs) (.object ts) =
      if (diffObjects fs ts).isEmpty then none else some (.object (diffObjects fs ts)) := by
  rw [mergeDiff, h, if_neg Bool.false_ne_true]
  simp only [diffMembers_eq]
  rfl

/-- A patch is the target itself, or the difference of two objects. -/
theorem mergeDiff_cases {source target p : Json} (h : mergeDiff source target = some p) :
    p = target ∧ (source.isObject = false ∨ target.isObject = false) ∨
      ∃ fs ts, source = .object fs ∧ target = .object ts ∧ p = .object (diffObjects fs ts) := by
  cases heq : source.eq target with
  | true =>
    rw [mergeDiff_eq_none_of_eq heq] at h
    cases h
  | false =>
    by_cases hobj : source.isObject = false ∨ target.isObject = false
    · rw [mergeDiff_of_not_object heq hobj] at h
      exact Or.inl ⟨(Option.some.inj h).symm, hobj⟩
    · cases source with
      | object fs =>
        cases target with
        | object ts =>
          rw [mergeDiff_objects heq] at h
          split_ifs at h
          exact Or.inr ⟨fs, ts, rfl, rfl, (Option.some.inj h).symm⟩
        | _ => simp [isObject] at hobj
      | _ => simp [isObject] at hobj

@[simp] theorem isNull_mergePatchApply (v p : Json) :
    (mergePatchApply v p).isNull = p.isNull := by
  cases p <;> simp [mergePatchApply, isNull]

theorem mergePatchApply_of_not_object (v : Json) {p : Json} (h : p.isObject = false) :
    mergePatchApply v p = p := by
  cases p with
  | object ps => cases h
  | _ => simp [mergePatchApply]

theorem nodup_keys_applied (ts ps : List (Bytes × Json)) :
    (keys (assignAll (addMember ts) (assignAll (keepMember ps) [] ts) ps)).Nodup := by
  apply nodup_keys_assignAll
  exact nodup_keys_assignAll nodup_keys_nil ts

/-- The members of a patched object: kept from the target, or the work of a patch. -/
theorem mem_applied {ts ps : List (Bytes × Json)} {k : Bytes} {w : Json}
    (h : (k, w) ∈ assignAll (addMember ts) (assignAll (keepMember ps) [] ts) ps) :
    (k, w) ∈ ts ∨ ∃ v p, ((k, v) ∈ ts ∨ v = .null) ∧ (k, p) ∈ ps ∧ p.isNull = false ∧
      w = mergePatchApply v p := by
  rcases mem_assignAll h with h | ⟨p, hp, hw⟩
  · rcases mem_assignAll h with h | ⟨v, hv, hw⟩
    · cases h
    · rw [keepMember] at hw
      cases hk : ps.lookup k with
      | none =>
        rw [hk] at hw
        exact Or.inl (Option.some.inj hw ▸ hv)
      | some p =>
        simp only [hk] at hw
        split_ifs at hw with hp
        exact Or.inr ⟨v, p, Or.inl hv, mem_of_lookup hk, by simpa using hp,
          (Option.some.inj hw).symm⟩
  · rw [addMember] at hw
    split_ifs at hw with hnull
    simp only [Bool.or_eq_true, not_or, Bool.not_eq_true] at hnull
    exact Or.inr ⟨.null, p, Or.inr rfl, hp, hnull.2, (Option.some.inj hw).symm⟩

theorem members_of_not_object {v : Json} (h : v.isObject = false) : v.members = [] := by
  cases v with
  | object ms => cases h
  | _ => rfl

/-- Applied to a value that is no object, a patch gives itself without its nulls. -/
theorem mergePatchApply_same_of_not_object {v p : Json} (hv : v.isObject = false)
    (hu : p.UniqueKeys) (hn : p.NoNaN) : (mergePatchApply v p).Same p := by
  induction p generalizing v with
  | object ps ih =>
    rw [uniqueKeys_object] at hu
    rw [noNaN_object] at hn
    rw [mergePatchApply_object, members_of_not_object hv,
      same_object_iff (nodup_keys_applied _ _) hu.1]
    intro k
    rw [lookup_mergePatchApply nodup_keys_nil hu.1]
    cases hk : ps.lookup k with
    | none => exact .none
    | some p =>
      have hmem := mem_of_lookup hk
      cases hp : p.isNull with
      | true =>
        rw [present_some_of_isNull hp, applyKey, if_pos hp]
        exact .none
      | false =>
        rw [applyKey, if_neg (by simp [hp]), present_some hp, present_some (by simpa using hp)]
        exact .some (ih k p hmem rfl (hu.2 k p hmem) (hn k p hmem))
  | _ =>
    rw [mergePatchApply_of_not_object v rfl]
    exact same_refl hu hn

end ReadyUp.Status
