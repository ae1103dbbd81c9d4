import ReadyUp.Status.MergePatch

/-!
# Patches on the way

A sender makes patches of its own values, and a receiver applies them to what it has, which may
have drifted in the order of its members and in null members. `Carries` says that the receiver
is then up to date again; `CarriesAs` is the same where every value is changed on the way. Values
without null members that are the same are equal (`NullFree.eq_of_same`).
-/
namespace ReadyUp.Status

open Support Json

/-- What a receiver makes of a difference: nothing when there is none. -/
def receive (v : Json) (patch : Option Json) : Json :=
  match patch with
  | none => v
  | some p => mergePatchApply v p

/-- The difference of two values, applied to whatever is the same as the first, gives the
second. -/
def Carries (source target : Json) : Prop :=
  ∀ v : Json, v.UniqueKeys → v.Same source → (receive v (mergeDiff source target)).Same target

/-- A map of values that goes through objects member by member and knows equal values as
equal. -/
structure Reshapes (f : Json → Json) : Prop where
  null : f .null = .null
  object : ∀ ms, f (.object ms) = .object (ms.map fun kv => (kv.1, f kv.2))
  isObject : ∀ v, (f v).isObject = v.isObject
  uniqueKeys : ∀ v, v.UniqueKeys → (f v).UniqueKeys
  eq : ∀ a b, a.UniqueKeys → b.UniqueKeys → a.eq b → (f a).eq (f b)

theorem reshapes_id : Reshapes id where
  null := rfl
  object ms := by simp
  isObject _ := rfl
  uniqueKeys _ h := h
  eq _ _ _ _ h := h

theorem isNull_getD_of_present {v : Option Json} (h : present v = none) :
    (v.getD .null).isNull = true := by
  cases v with
  | none => rfl
  | some w =>
    cases hw : w.isNull with
    | true => exact hw
    | false =>
      rw [present_some hw] at h
      cases h

theorem isObject_of_isNull {v : Json} (h : v.isNull = true) : v.isObject = false := by
  cases v with
  | null => rfl
  | _ => cases h

theorem rel_applyKey {v : Option Json} {p w : Json} (hp : p.isNull = false) (hw : w.isNull = false)
    (h : (mergePatchApply (v.getD .null) p).Same w) :
    Option.Rel Same (present (applyKey v (some p))) (present (some w)) := by
  rw [applyKey, if_neg (by simp [hp]), present_some (by simpa using hp), present_some hw]
  exact .some h

theorem present_eq_none_of_rel {v w : Option Json} (h : Option.Rel Same (present v) (present w))
    (hw : present w = none) : present v = none := by
  rw [hw] at h
  generalize present v = x at h
  cases h
  rfl

section Reshaped

variable {f : Json → Json}

/-- The same for a sender that sends every value through `f`, to a receiver that has what came
through `f`. -/
def CarriesAs (f : Json → Json) (source target : Json) : Prop :=
  ∀ v : Json, v.UniqueKeys → v.Same (f source) →
    (receive v ((mergeDiff source target).map f)).Same (f target)

theorem Reshapes.isNull (hf : Reshapes f) {v : Json} (h : v.isNull = true) :
    (f v).isNull = true := by
  cases v with
  | null =>
    rw [hf.null]
    rfl
  | _ => cases h

/-- What becomes a null without being one is not equal to anything that stays. -/
theorem Reshapes.eq_false (hf : Reshapes f) {o w : Json} (ho : o.UniqueKeys) (hw : w.UniqueKeys)
    (hfo : (f o).isNull = true) (hfw : (f w).isNull = false) : o.eq w = false := by
  cases h : o.eq w with
  | false => rfl
  | true =>
    have hnull := isNull_of_eq (hf.eq o w ho hw h)
    rw [hfo, hfw] at hnull
    cases hnull

theorem Reshapes.isNull_patch (hf : Reshapes f) {source target p : Json}
    (h : mergeDiff source target = some p) : (f p).isNull = (f target).isNull := by
  rcases mergeDiff_cases h with ⟨rfl, -⟩ | ⟨fs, ts, -, rfl, rfl⟩
  · rfl
  · rw [hf.object, hf.object]
    rfl

/-- A member that the receiver does not have is set from scratch. -/
theorem applyKey_fresh (hf : Reshapes f) {v : Option Json} {w : Json} (hv : present v = none)
    (hu : w.UniqueKeys) (hn : (f w).NoNaN) :
    Option.Rel Same (present (applyKey v (some (f w)))) (present (some (f w))) := by
  cases hfw : (f w).isNull with
  | true =>
    rw [present_some_of_isNull hfw, applyKey, if_pos hfw]
    exact .none
  | false =>
    apply rel_applyKey hfw hfw
    have hobj := isObject_of_isNull (isNull_getD_of_present hv)
    exact mergePatchApply_same_of_not_object hobj (hf.uniqueKeys w hu) hn

/-- What the receiver has for it is nothing, and the patch is the whole new value. -/
theorem applyKey_hidden (hf : Reshapes f) {v : Option Json} {o w : Json} (hv : present v = none)
    (ho : o.UniqueKeys) (hfo : (f o).isNull = true) (hu : w.UniqueKeys) (hn : (f w).NoNaN) :
    Option.Rel Same (present (applyKey v ((mergeDiff o w).map f))) (present (some (f w))) := by
  have hobj : o.isObject = false := by rw [← hf.isObject, isObject_of_isNull hfo]
  cases hd : mergeDiff o w with
  | none =>
    have hfw : (f w).isNull = true := by
      by_contra hfw
      have hne := hf.eq_false ho hu hfo (by simpa using hfw)
      rw [mergeDiff_of_not_object hne (Or.inl hobj)] at hd
      cases hd
    rw [Option.map_none, applyKey, hv, present_some_of_isNull hfw]
    exact .none
  | some q =>
    rcases mergeDiff_cases hd with ⟨rfl, -⟩ | ⟨fs, ts, rfl, -, -⟩
    · exact applyKey_fresh hf hv hu hn
    · cases hobj

theorem applyKey_carried (hf : Reshapes f) {x o w : Json} (hx : x.isNull = false)
    (hc : (receive x ((mergeDiff o w).map f)).Same (f w)) :
    Option.Rel Same (present (applyKey (some x) ((mergeDiff o w).map f)))
      (present (some (f w))) := by
  cases hd : mergeDiff o w with
  | none =>
    rw [hd] at hc
    rw [Option.map_none, applyKey, present_some hx, present_some (hc.isNull ▸ hx)]
    exact .some hc
  | some q =>
    rw [hd] at hc
    cases hfw : (f w).isNull with
    | true =>
      rw [Option.map_some, applyKey, if_pos ((hf.isNull_patch hd).trans hfw),
        present_some_of_isNull hfw]
      exact .none
    | false => exact rel_applyKey ((hf.isNull_patch hd).trans hfw) hfw hc

theorem exists_of_rel_present {v : Option Json} {y : Json}
    (h : Option.Rel Same (present v) (some y)) : ∃ x, v = some x ∧ x.Same y := by
  cases v with
  | none => cases h
  | some x =>
    cases hx : x.isNull with
    | true =>
      rw [present_some_of_isNull hx] at h
      cases h
    | false =>
      rw [present_some hx] at h
      cases h with
      | some hsame => exact ⟨x, rfl, hsame⟩

/-- One key of an object: the patch for it takes what the receiver has to what the sender
has. -/
theorem applyKey_diffKey (hf : Reshapes f) {v old new : Option Json}
    (hv : Option.Rel Same (present v) (present (old.map f)))
    (hvu : ∀ w, v = some w → w.UniqueKeys) (hold : ∀ o, old = some o → o.UniqueKeys)
    (hnew : ∀ w, new = some w → w.UniqueKeys ∧ (f w).NoNaN)
    (hcarry : ∀ o w, old = some o → new = some w → CarriesAs f o w) :
    Option.Rel Same (present (applyKey v ((diffKey old new).map f))) (present (new.map f)) := by
  cases new with
  | none =>
    cases old with
    | none => exact hv
    | some o =>
      rw [diffKey, Option.map_some, hf.null]
      exact .none
  | some w =>
    obtain ⟨hu, hn⟩ := hnew w rfl
    cases old with
    | none => exact applyKey_fresh hf (present_eq_none_of_rel hv rfl) hu hn
    | some o =>
      rw [diffKey]
      cases hw : w.isNull with
      | true =>
        have hfw := hf.isNull hw
        rw [if_pos rfl, Option.map_some, present_some_of_isNull hfw]
        split_ifs with honull
        · have hnone : present ((some o).map f) = none := present_some_of_isNull (hf.isNull honull)
          rw [Option.map_none, applyKey, present_eq_none_of_rel hv hnone]
          exact .none
        · rw [Option.map_some, hf.null]
          exact .none
      | false =>
        rw [if_neg Bool.false_ne_true, Option.map_some]
        cases hfo : (f o).isNull with
        | true =>
          have hnone := present_eq_none_of_rel hv (present_some_of_isNull hfo)
          exact applyKey_hidden hf hnone (hold o rfl) hfo hu hn
        | false =>
          rw [Option.map_some, present_some hfo] at hv
          obtain ⟨x, rfl, hx⟩ := exists_of_rel_present hv
          exact applyKey_carried hf (hx.isNull.trans hfo) (hcarry o w rfl rfl x (hvu x rfl) hx)

theorem carriesAs_of_eq (hf : Reshapes f) {source target : Json} (hs : source.UniqueKeys)
    (ht : target.UniqueKeys) (h : source.eq target) : CarriesAs f source target := by
  intro v hv hsame
  have hfs := hf.uniqueKeys source hs
  have hft := hf.uniqueKeys target ht
  rw [mergeDiff_eq_none_of_eq h]
  exact same_trans hv hfs hft hsame (same_of_eq hfs hft (hf.eq source target hs ht h))

theorem carriesAs_of_not_object (hf : Reshapes f) {source target : Json} (hs : source.UniqueKeys)
    (ht : target.UniqueKeys) (hn : (f target).NoNaN)
    (hobj : source.isObject = false ∨ target.isObject = false) : CarriesAs f source target := by
  cases heq : source.eq target with
  | true => exact carriesAs_of_eq hf hs ht heq
  | false =>
    intro v hv hsame
    have hft := hf.uniqueKeys target ht
    rw [mergeDiff_of_not_object heq hobj, Option.map_some, receive]
    rcases hobj with hobj | hobj
    · have hvobj : v.isObject = false := by rw [hsame.isObject, hf.isObject, hobj]
      exact mergePatchApply_same_of_not_object hvobj hft hn
    · rw [mergePatchApply_of_not_object v ((hf.isObject target).trans hobj)]
      exact same_refl hft hn

theorem keys_map_snd (ms : List (Bytes × Json)) :
    keys (ms.map fun kv => (kv.1, f kv.2)) = keys ms := by
  rw [keys, List.map_map]
  rfl

/-- The sender's difference does at the receiver what it says. -/
theorem carriesAs (hf : Reshapes f) {source target : Json} (hs : source.UniqueKeys)
    (ht : target.UniqueKeys) (hn : (f target).NoNaN) : CarriesAs f source target := by
  induction target generalizing source with
  | object ts ih =>
    cases heq : source.eq (.object ts) with
    | true => exact carriesAs_of_eq hf hs ht heq
    | false =>
      cases source with
      | object fs =>
        intro v hv hsame
        cases v with
        | object vs =>
          rw [uniqueKeys_object] at hs ht hv
          rw [hf.object, noNaN_object] at hn
          have hnan : ∀ k w, (k, w) ∈ ts → (f w).NoNaN := fun k w hmem =>
            hn k (f w) (List.mem_map.mpr ⟨(k, w), hmem, rfl⟩)
          have hfs : (keys (fs.map fun kv => (kv.1, f kv.2))).Nodup := by
            rw [keys_map_snd]
            exact hs.1
          have hft : (keys (ts.map fun kv => (kv.1, f kv.2))).Nodup := by
            rw [keys_map_snd]
            exact ht.1
          rw [hf.object, same_object_iff hv.1 hfs] at hsame
          have hkey : ∀ k, Option.Rel Same
              (present (applyKey (vs.lookup k) (((diffObjects fs ts).lookup k).map f)))
              (present ((ts.lookup k).map f)) := by
            intro k
            have hk := hsame k
            rw [lookup_map] at hk
            rw [lookup_diffObjects hs.1 ht.1]
            apply applyKey_diffKey hf hk
            · intro w hw
              exact hv.2 k w (mem_of_lookup hw)
            · intro o ho
              exact hs.2 k o (mem_of_lookup ho)
            · intro w hw
              have hmem := mem_of_lookup hw
              exact ⟨ht.2 k w hmem, hnan k w hmem⟩
            · intro o w ho hw
              have hmem := mem_of_lookup hw
              exact ih k w hmem (hs.2 k o (mem_of_lookup ho)) (ht.2 k w hmem) (hnan k w hmem)
          rw [mergeDiff_objects heq, hf.object]
          split_ifs with hempty
          · rw [List.isEmpty_iff] at hempty
            rw [Option.map_none, receive, same_object_iff hv.1 hft]
            intro k
            rw [lookup_map]
            simpa [hempty, applyKey] using hkey k
          · have hpatch : (keys ((diffObjects fs ts).map fun kv => (kv.1, f kv.2))).Nodup := by
              rw [keys_map_snd]
              exact nodup_keys_diffObjects fs ts
            rw [Option.map_some, hf.object, receive, mergePatchApply_object, members_object,
              same_object_iff (nodup_keys_applied vs _) hft]
            intro k
            rw [lookup_mergePatchApply hv.1 hpatch, lookup_map, lookup_map]
            exact hkey k
        | _ =>
          have := hsame.isObject
          rw [hf.object] at this
          cases this
      | _ => exact carriesAs_of_not_object hf hs ht hn (Or.inl rfl)
  | _ => exact carriesAs_of_not_object hf hs ht hn (Or.inr rfl)

end Reshaped

theorem carries {source target : Json} (hs : source.UniqueKeys) (ht : target.UniqueKeys)
    (hn : target.NoNaN) : Carries source target := by
  intro v hv hsame
  have h := carriesAs reshapes_id hs ht hn v hv hsame
  rwa [Option.map_id] at h

section NullFree

/-- No null members, through objects. -/
def Json.NullFree (v : Json) : Prop := v.dropNulls = v

theorem dropNullMembers_eq_self_iff {ms : List (Bytes × Json)} :
    dropNullMembers ms = ms ↔ ∀ kv ∈ ms, kv.2.isNull = false ∧ kv.2.NullFree := by
  induction ms with
  | nil => simp [dropNullMembers]
  | cons kv ms ih =>
    obtain ⟨k, v⟩ := kv
    rw [dropNullMembers, List.forall_mem_cons, ← ih]
    split_ifs with hv
    · -- a dropped member leaves the list too short
      have hlen : (dropNullMembers ms).length ≤ ms.length := by
        simpa using (keys_dropNullMembers_sublist ms).length_le
      constructor
      · intro h
        rw [h, List.length_cons] at hlen
        omega
      · intro h
        rw [hv] at h
        exact absurd h.1.1 (by decide)
    · rw [List.cons.injEq, Prod.mk.injEq]
      simp only [true_and, NullFree]
      simp [hv]

theorem nullFree_object {ms : List (Bytes × Json)} :
    (Json.object ms).NullFree ↔ ∀ k v, (k, v) ∈ ms → v.isNull = false ∧ v.NullFree := by
  rw [NullFree, dropNulls, Json.object.injEq, dropNullMembers_eq_self_iff]
  exact Prod.forall

theorem NullFree.eq_of_same {a b : Json} (ha : a.NullFree) (hb : b.NullFree) (h : a.Same b) :
    a.eq b := by
  rw [← ha, ← hb]
  exact h

theorem nullFree_members {v : Json} (h : v.NullFree) :
    ∀ k w, (k, w) ∈ v.members → w.isNull = false ∧ w.NullFree := by
  cases v with
  | object ms => exact nullFree_object.mp h
  | _ =>
    intro k w hmem
    cases hmem

theorem nullFree_mergePatchApply {v p : Json} (hv : v.NullFree) :
    (mergePatchApply v p).NullFree := by
  induction p generalizing v with
  | object ps ih =>
    rw [mergePatchApply_object, nullFree_object]
    intro k w hmem
    rcases mem_applied hmem with hmem | ⟨x, p, hx, hp, hnull, rfl⟩
    · exact nullFree_members hv k w hmem
    · refine ⟨by simpa using hnull, ih k p hp ?_⟩
      rcases hx with hx | rfl
      · exact (nullFree_members hv k x hx).2
      · rfl
  | _ =>
    rw [mergePatchApply_of_not_object v rfl]
    rfl

theorem uniqueKeys_mergePatchApply {v p : Json} (hv : v.UniqueKeys) (hp : p.UniqueKeys) :
    (mergePatchApply v p).UniqueKeys := by
  induction p generalizing v with
  | object ps ih =>
    rw [mergePatchApply_object, uniqueKeys_object]
    refine ⟨nodup_keys_applied _ _, ?_⟩
    intro k w hmem
    rcases mem_applied hmem with hmem | ⟨x, p, hx, hpatch, -, rfl⟩
    · exact (uniqueKeys_members hv).2 k w hmem
    · apply ih k p hpatch _ ((uniqueKeys_object.mp hp).2 k p hpatch)
      rcases hx with hx | rfl
      · exact (uniqueKeys_members hv).2 k x hx
      · rfl
  | _ =>
    rw [mergePatchApply_of_not_object v rfl]
    exact hp

section Patch

variable {q : Json → Bool}

theorem all_diffMember (hnull : q .null = true) {fs : List (Bytes × Json)} {k : Bytes} {v p : Json}
    (hv : v.all q = true) (hdiff : ∀ o r, mergeDiff o v = some r → r.all q = true)
    (h : diffMember fs k v = some p) : p.all q = true := by
  rw [diffMember] at h
  cases hk : fs.lookup k with
  | none =>
    rw [hk] at h
    exact Option.some.inj h ▸ hv
  | some old =>
    simp only [hk] at h
    split_ifs at h
    · exact Option.some.inj h ▸ hnull
    · exact hdiff old p h

/-- A patch is made of nulls and of what the target is made of. -/
theorem all_mergeDiff (hnull : q .null = true)
    (hobject : ∀ ms : List (Bytes × Json), (keys ms).Nodup → q (.object ms) = true)
    {source target p : Json} (ht : target.all q = true) (h : mergeDiff source target = some p) :
    p.all q = true := by
  induction target generalizing source p with
  | object ts ih =>
    rcases mergeDiff_cases h with ⟨rfl, -⟩ | ⟨fs, ts', -, heq, rfl⟩
    · exact ht
    · obtain rfl := Json.object.inj heq
      rw [all_object] at ht ⊢
      refine ⟨hobject _ (nodup_keys_diffObjects fs ts), ?_⟩
      intro k r hmem
      rcases mem_assignAll hmem with hmem | ⟨v, hv, hr⟩
      · -- a removed member is a null
        rcases mem_assignAll hmem with hmem | ⟨v, -, hr⟩
        · cases hmem
        · split_ifs at hr
          exact Option.some.inj hr ▸ hnull
      · have hvall := ht.2 k v hv
        exact all_diffMember hnull hvall (fun o r => ih k v hv hvall) hr
  | _ =>
    rcases mergeDiff_cases h with ⟨rfl, -⟩ | ⟨fs, ts, -, heq, -⟩
    · exact ht
    · cases heq

end Patch

theorem uniqueKeys_mergeDiff {source target p : Json} (ht : target.UniqueKeys)
    (h : mergeDiff source target = some p) : p.UniqueKeys :=
  all_mergeDiff rfl (fun ms hms => decide_eq_true (by rwa [members_object])) ht h

theorem same_getD_null {x y : Option Json} (h : Option.Rel Same (present x) (present y)) :
    (x.getD .null).Same (y.getD .null) := by
  cases hx : present x with
  | none =>
    rw [hx] at h
    have hy : present y = none := by
      generalize present y = z at h
      cases h
      rfl
    have hnull : ∀ z : Option Json, present z = none → z.getD .null = .null := by
      intro z hz
      have := isNull_getD_of_present hz
      cases hv : z.getD .null with
      | null => rfl
      | _ =>
        rw [hv] at this
        cases this
    rw [hnull x hx, hnull y hy]
    rfl
  | some a =>
    obtain ⟨rfl, -⟩ := Option.filter_eq_some_iff.mp hx
    rw [hx] at h
    cases hy : present y with
    | none =>
      rw [hy] at h
      cases h
    | some b =>
      obtain ⟨rfl, -⟩ := Option.filter_eq_some_iff.mp hy
      rw [hy] at h
      cases h with
      | some hab => exact hab

theorem mergePatchApply_congr {a b p : Json} (ha : a.UniqueKeys) (hb : b.UniqueKeys)
    (hp : p.UniqueKeys) (hn : p.NoNaN) (h : a.Same b) :
    (mergePatchApply a p).Same (mergePatchApply b p) := by
  induction p generalizing a b with
  | object ps ih =>
    obtain ⟨hnodup, hpatches⟩ := uniqueKeys_object.mp hp
    rw [noNaN_object] at hn
    obtain ⟨hanodup, hamembers⟩ := uniqueKeys_members ha
    obtain ⟨hbnodup, hbmembers⟩ := uniqueKeys_members hb
    rw [mergePatchApply_object, mergePatchApply_object,
      same_object_iff (nodup_keys_applied _ _) (nodup_keys_applied _ _)]
    intro k
    rw [lookup_mergePatchApply hanodup hnodup, lookup_mergePatchApply hbnodup hnodup]
    have hk : Option.Rel Same (present (a.members.lookup k)) (present (b.members.lookup k)) := by
      cases hobj : a.isObject with
      | true => exact (same_iff_find hobj (h.isObject ▸ hobj) ha hb).mp h k
      | false =>
        rw [members_of_not_object hobj, members_of_not_object (h.isObject ▸ hobj)]
        exact .none
    cases hpk : ps.lookup k with
    | none => exact hk
    | some p =>
      have hmem := mem_of_lookup hpk
      cases hnull : p.isNull with
      | true =>
        rw [applyKey, applyKey, if_pos hnull, if_pos hnull]
        exact .none
      | false =>
        have hvalue : ∀ v : Json, v.UniqueKeys → ((v.members.lookup k).getD .null).UniqueKeys := by
          intro v hv
          cases hvk : v.members.lookup k with
          | none => rfl
          | some w => exact (uniqueKeys_members hv).2 k w (mem_of_lookup hvk)
        have hsame := ih k p hmem (hvalue a ha) (hvalue b hb) (hpatches k p hmem) (hn k p hmem)
          (same_getD_null hk)
        rw [applyKey, applyKey, if_neg (by simp [hnull]), if_neg (by simp [hnull]),
          present_some (by simpa using hnull), present_some (by simpa using hnull)]
        exact .some hsame
  | _ =>
    rw [mergePatchApply_of_not_object a rfl, mergePatchApply_of_not_object b rfl]
    exact same_refl hp hn

theorem find_mergePatchApply {v p : Json} (hv : v.UniqueKeys) (hp : p.UniqueKeys)
    (hobj : p.isObject = true) (k : Bytes) :
    (mergePatchApply v p).find k = applyKey (v.find k) (p.find k) := by
  cases p with
  | object ps =>
    rw [mergePatchApply_object]
    exact lookup_mergePatchApply (uniqueKeys_members hv).1 (uniqueKeys_object.mp hp).1 k
  | _ => cases hobj

end NullFree

/-- A merge patch turns the value it was made from into the value it was made for, up to
null members; without a patch the two are the same up to null members. -/
theorem mergePatchApply_mergeDiff {source target : Json} (hs : source.UniqueKeys)
    (ht : target.UniqueKeys) (hsn : source.NoNaN) (htn : target.NoNaN) :
    (∀ p, mergeDiff source target = some p →
      (mergePatchApply source p).dropNulls.eq target.dropNulls) ∧
    (mergeDiff source target = none → source.dropNulls.eq target.dropNulls) := by
  have h := carries hs ht htn source hs (same_refl hs hsn)
  constructor
  · intro p hp
    rwa [hp] at h
  · intro hp
    rwa [hp] at h

/-- A member removed, one replaced by an object with a null in it, one patched. -/
theorem mergePatchApply_mergeDiff_nested :
    let source := Json.object [(ascii "a", .int 1), (ascii "b", .array [.null]),
      (ascii "c", .object [(ascii "d", .null)])]
    let target := Json.object [(ascii "c", .object [(ascii "e", .bool true)]),
      (ascii "b", .object [(ascii "x", .null)])]
    ∃ p, mergeDiff source target = some p ∧
      (mergePatchApply source p).dropNulls.eq target.dropNulls := by
  intro source target
  obtain ⟨p, hp⟩ : ∃ p, mergeDiff source target = some p := ⟨_, rfl⟩
  have h := @mergePatchApply_mergeDiff source target (by decide) (by decide) (by decide) (by decide)
  exact ⟨p, hp, h.1 p hp⟩

end ReadyUp.Status
