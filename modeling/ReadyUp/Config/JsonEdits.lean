import ReadyUp.Config.Minijson
import ReadyUp.Config.Updates

/-!
# Edits of a configuration

An update edits a configuration member by member and with merge patches. `Within` says that a value
has no key twice and that a predicate holds of everything in it; edits keep it when the predicate is
about scalars alone (`Scalar`), as the range of the integers is (`scalar_inRange`) and what the
small reader takes of the doubles (`isSome_ofJson_iff`).
-/
namespace ReadyUp.Config.Assign

open Support Status

section Values

variable {q : Json → Bool} {v w : Json}

/-- No key twice, and the predicate for everything in the value. -/
structure Within (q : Json → Bool) (v : Json) : Prop where
  unique : v.UniqueKeys
  all : v.all q = true

/-- The predicate is about scalars other than strings. -/
structure Scalar (q : Json → Bool) : Prop where
  object : ∀ ms, q (.object ms) = true
  array : ∀ vs, q (.array vs) = true
  string : ∀ s, q (.string s) = true
  null : q .null = true

theorem within_object_iff (hq : Scalar q) {ms : List (Bytes × Json)} :
    Within q (.object ms) ↔ (keys ms).Nodup ∧ ∀ k v, (k, v) ∈ ms → Within q v := by
  constructor
  · rintro ⟨hunique, hall⟩
    obtain ⟨hnodup, hmembers⟩ := Json.uniqueKeys_object.mp hunique
    exact ⟨hnodup, fun k v h => ⟨hmembers k v h, (Json.all_object.mp hall).2 k v h⟩⟩
  · rintro ⟨hnodup, h⟩
    exact ⟨Json.uniqueKeys_object.mpr ⟨hnodup, fun k v hm => (h k v hm).unique⟩,
      Json.all_object.mpr ⟨hq.object ms, fun k v hm => (h k v hm).all⟩⟩

theorem within_array_iff (hq : Scalar q) {vs : List Json} :
    Within q (.array vs) ↔ ∀ v ∈ vs, Within q v := by
  constructor
  · rintro ⟨hunique, hall⟩ v hv
    exact ⟨Json.uniqueKeys_array.mp hunique v hv, (Json.all_array.mp hall).2 v hv⟩
  · intro h
    exact ⟨Json.uniqueKeys_array.mpr fun v hv => (h v hv).unique,
      Json.all_array.mpr ⟨hq.array vs, fun v hv => (h v hv).all⟩⟩

theorem within_string (hq : Scalar q) (s : Bytes) : Within q (.string s) := ⟨rfl, hq.string s⟩

theorem within_null (hq : Scalar q) : Within q .null := ⟨rfl, hq.null⟩

theorem Within.members (hq : Scalar q) (h : Within q v) :
    (keys v.members).Nodup ∧ ∀ k w, (k, w) ∈ v.members → Within q w := by
  cases v with
  | object ms => exact (within_object_iff hq).mp h
  | _ => exact ⟨nodup_keys_nil, fun k w hm => by cases hm⟩

theorem Within.put (hq : Scalar q) (hv : Within q v) (hw : Within q w) (key : String) :
    Within q (put v key w) := by
  obtain ⟨hnodup, hmembers⟩ := hv.members hq
  unfold Assign.put Json.set
  rw [within_object_iff hq]
  refine ⟨nodup_keys_assign hnodup _ w, fun k x hx => ?_⟩
  rcases mem_assign hx with heq | hx
  · rw [(Prod.mk.inj heq).2]
    exact hw
  · exact hmembers k x hx

theorem Within.get (hq : Scalar q) (hv : Within q v) {key : String} (h : get v key = some w) :
    Within q w :=
  (hv.members hq).2 _ w (mem_of_lookup h)

theorem Within.arr (hq : Scalar q) (hv : Within q v) {key : String} {ps : List Json}
    (h : arr v key = some ps) : ∀ p ∈ ps, Within q p := by
  unfold Assign.arr at h
  split at h
  · rename_i a hget
    cases h
    exact (within_array_iff hq).mp (hv.get hq hget)
  · cases h

theorem Within.mergePatchApply (hq : Scalar q) (hv : Within q v) {p : Json} (hp : Within q p) :
    Within q (mergePatchApply v p) := by
  induction p generalizing v with
  | object ps ih =>
    rw [mergePatchApply_object, within_object_iff hq]
    refine ⟨nodup_keys_applied _ _, fun k x hx => ?_⟩
    rcases mem_applied hx with hx | ⟨y, p, hy, hpatch, -, rfl⟩
    · exact (hv.members hq).2 k x hx
    · apply ih k p hpatch _ (((within_object_iff hq).mp hp).2 k p hpatch)
      rcases hy with hy | rfl
      · exact (hv.members hq).2 k y hy
      · exact within_null hq
  | _ =>
    rw [mergePatchApply_of_not_object v rfl]
    exact hp

/-- The small reader takes what a double is written as. -/
def readable : Json → Bool
  | .double d => !d.isFinite || (Minijson.ofDouble d).isSome
  | _ => true

theorem scalar_inRange : Scalar Json.inRange := ⟨fun _ => rfl, fun _ => rfl, fun _ => rfl, rfl⟩

/-- Integers in range and readable doubles. -/
def plainScalar (v : Json) : Bool := v.inRange && readable v

theorem scalar_plainScalar : Scalar plainScalar := ⟨fun _ => rfl, fun _ => rfl, fun _ => rfl, rfl⟩

theorem all_and {p q : Json → Bool} :
    v.all (fun w => p w && q w) = true ↔ v.all p = true ∧ v.all q = true := by
  induction v with
  | object ms ih =>
    rw [Json.all_object, Json.all_object, Json.all_object, Bool.and_eq_true]
    constructor
    · rintro ⟨⟨hp, hq⟩, h⟩
      exact ⟨⟨hp, fun k v hm => ((ih k v hm).mp (h k v hm)).1⟩, hq, fun k v hm =>
        ((ih k v hm).mp (h k v hm)).2⟩
    · rintro ⟨⟨hp, h⟩, hq, h'⟩
      exact ⟨⟨hp, hq⟩, fun k v hm => (ih k v hm).mpr ⟨h k v hm, h' k v hm⟩⟩
  | array vs ih =>
    rw [Json.all_array, Json.all_array, Json.all_array, Bool.and_eq_true]
    constructor
    · rintro ⟨⟨hp, hq⟩, h⟩
      exact ⟨⟨hp, fun v hm => ((ih v hm).mp (h v hm)).1⟩, hq, fun v hm => ((ih v hm).mp (h v hm)).2⟩
    · rintro ⟨⟨hp, h⟩, hq, h'⟩
      exact ⟨⟨hp, hq⟩, fun v hm => (ih v hm).mpr ⟨h v hm, h' v hm⟩⟩
  | _ => simp [Json.all]

theorem isSome_ofJson_iff : (Minijson.ofJson v).isSome = true ↔ v.all readable = true := by
  induction v with
  | double d =>
    unfold Minijson.ofJson Json.readAs
    cases hd : d.isFinite <;> simp [Json.all, readable, hd]
  | object ms ih =>
    have hroot : readable (.object ms) = true := rfl
    rw [Json.all_object, and_iff_right hroot, Minijson.ofJson, Json.readAs, Option.isSome_map]
    clear hroot
    induction ms with
    | nil => simp [Json.readMembersAs]
    | cons kv ms ihms =>
      obtain ⟨k, v⟩ := kv
      have hv := ih k v List.mem_cons_self
      have hms := ihms fun j w hm => ih j w (List.mem_cons_of_mem _ hm)
      rw [Json.readMembersAs]
      have hsplit : ((Json.readAs Minijson.dialect Minijson.ofInt Minijson.ofDouble v).bind fun x =>
          (Json.readMembersAs Minijson.dialect Minijson.ofInt Minijson.ofDouble ms).map
          ((k, x) :: ·)).isSome = true ↔
          (Minijson.ofJson v).isSome = true ∧
            (Json.readMembersAs Minijson.dialect Minijson.ofInt Minijson.ofDouble ms).isSome =
              true := by
        show (Option.bind (Minijson.ofJson v) _).isSome = true ↔ _
        cases Minijson.ofJson v <;> simp
      rw [hsplit, and_congr hv hms]
      simp only [List.mem_cons, Prod.mk.injEq]
      constructor
      · rintro ⟨h, h'⟩ j w (⟨rfl, rfl⟩ | hm)
        · exact h
        · exact h' j w hm
      · intro h
        exact ⟨h k v (.inl ⟨rfl, rfl⟩), fun j w hm => h j w (.inr hm)⟩
  | array vs ih =>
    have hroot : readable (.array vs) = true := rfl
    rw [Json.all_array, and_iff_right hroot, Minijson.ofJson, Json.readAs, Option.isSome_map]
    clear hroot
    induction vs with
    | nil => simp [Json.readItemsAs]
    | cons v vs ihvs =>
      have hv := ih v List.mem_cons_self
      have hvs := ihvs fun w hm => ih w (List.mem_cons_of_mem _ hm)
      rw [Json.readItemsAs]
      have hsplit : ((Json.readAs Minijson.dialect Minijson.ofInt Minijson.ofDouble v).bind fun x =>
          (Json.readItemsAs Minijson.dialect Minijson.ofInt Minijson.ofDouble vs).map
          (x :: ·)).isSome = true ↔
          (Minijson.ofJson v).isSome = true ∧
            (Json.readItemsAs Minijson.dialect Minijson.ofInt Minijson.ofDouble vs).isSome =
              true := by
        show (Option.bind (Minijson.ofJson v) _).isSome = true ↔ _
        cases Minijson.ofJson v <;> simp
      rw [hsplit, and_congr hv hvs, List.forall_mem_cons]
  | _ => simp [Minijson.ofJson, Json.readAs, Json.all, readable, Minijson.ofInt]

end Values

section Access

variable {c v : Json} {key : String}

theorem get_put (c : Json) (k j : String) (v : Json) :
    get (put c k v) j = if ascii j = ascii k then some v else get c j :=
  Json.find_set c (ascii k) (ascii j) v

@[simp] theorem get_put_self (c : Json) (k : String) (v : Json) : get (put c k v) k = some v := by
  rw [get_put, if_pos rfl]

theorem get_put_of_ne {k j : String} (h : ascii j ≠ ascii k) (c v : Json) :
    get (put c k v) j = get c j := by
  rw [get_put, if_neg h]

@[simp] theorem isObject_put (c : Json) (k : String) (v : Json) : (put c k v).isObject = true := rfl

theorem obj_congr {c c' : Json} (h : get c' key = get c key) : obj c' key = obj c key := by
  unfold obj
  rw [h]

theorem arr_congr {c c' : Json} (h : get c' key = get c key) : arr c' key = arr c key := by
  unfold arr
  rw [h]

theorem obj_put_self (hv : v.isObject = true) : obj (put c key v) key = some v := by
  unfold obj
  rw [get_put_self]
  simp [hv]

theorem arr_put_self (vs : List Json) : arr (put c key (.array vs)) key = some vs := by
  unfold arr
  rw [get_put_self]

theorem get_of_obj {t : Json} (h : obj c key = some t) : get c key = some t ∧ t.isObject = true :=
  Option.filter_eq_some_iff.mp h

/-- The ruleset is checked against the rules and the maps alone. -/
theorem validateRuleset_congr {server : Ruleset} {c c' : Json}
    (hrules : get c' "rules" = get c "rules")
    (hmaps : get c' "maps" = get c "maps") :
    validateRuleset server c' = validateRuleset server c := by
  unfold validateRuleset rulesOf
  rw [obj_congr hrules, arr_congr hmaps]

end Access

end ReadyUp.Config.Assign
