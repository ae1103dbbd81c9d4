import ReadyUp.Support.Assoc
import ReadyUp.Support.Binary64
import ReadyUp.Support.Strto

/-!
# Json values of the status library

`Json` keeps the members of an object in insertion order; `operator[]` is the only way to
add one, and `operator==` ignores the order. Strings are bytes, numbers are integers or
doubles.
-/
namespace ReadyUp.Status

open Support

inductive Json where
  | null
  | bool (b : Bool)
  | int (i : ℤ)
  | double (d : Binary64)
  | string (s : Bytes)
  | object (members : List (Bytes × Json))
  | array (items : List Json)

namespace Json

def isNull : Json → Bool
  | .null => true
  | _ => false

def isObject : Json → Bool
  | .object _ => true
  | _ => false

/-- `Members()`: empty unless the value is an object. -/
def members : Json → List (Bytes × Json)
  | .object ms => ms
  | _ => []

@[simp] theorem members_object (ms : List (Bytes × Json)) : (object ms).members = ms := rfl

def asInt : Json → ℤ
  | .int i => i
  | .bool b => if b then 1 else 0
  | .double d => d.toInt64
  | _ => 0

/-- `AsBool`; it looks at the integer alone, which is 0 in a double. -/
def asBool : Json → Bool
  | .int i => decide (i ≠ 0)
  | .bool b => b
  | _ => false

def asString : Json → Bytes
  | .string s => s
  | _ => []

/-- `Find`: the first member of the key. -/
def find (v : Json) (key : Bytes) : Option Json := v.members.lookup key

/-- `v[key] = value`: a value that is no object becomes an empty one first. -/
def set (v : Json) (key : Bytes) (value : Json) : Json := .object (assign v.members key value)

mutual

/-- `operator==` -/
def eq : Json → Json → Bool
  | .null, .null => true
  | .bool a, .bool b => a == b
  | .int a, .int b => a == b
  | .double a, .double b => a.eq b
  | .string a, .string b => a == b
  | .array as, .array bs => itemsEq as bs
  | .object as, .object bs => as.length == bs.length && membersEq as bs
  | _, _ => false

def itemsEq : List Json → List Json → Bool
  | [], [] => true
  | a :: as, b :: bs => eq a b && itemsEq as bs
  | _, _ => false

/-- Every member is found on the other side with an equal value. -/
def membersEq : List (Bytes × Json) → List (Bytes × Json) → Bool
  | [], _ => true
  | (k, a) :: as, bs =>
    (match bs.lookup k with
      | none => false
      | some b => eq a b) && membersEq as bs

end

attribute [local simp] eq itemsEq membersEq

mutual

/-- `p` holds of the value and of all values below it. -/
def all (p : Json → Bool) : Json → Bool
  | .object ms => p (.object ms) && allMembers p ms
  | .array vs => p (.array vs) && allItems p vs
  | v => p v

def allMembers (p : Json → Bool) : List (Bytes × Json) → Bool
  | [] => true
  | (_, v) :: ms => all p v && allMembers p ms

def allItems (p : Json → Bool) : List Json → Bool
  | [] => true
  | v :: vs => all p v && allItems p vs

end

attribute [local simp] all allMembers allItems

/-- No object in the value holds a key twice. -/
def UniqueKeys (v : Json) : Prop := v.all (fun w => decide (keys w.members).Nodup) = true

def isNaN : Json → Bool
  | .double d => d.isNaN
  | _ => false

def NoNaN (v : Json) : Prop := v.all (fun w => !w.isNaN) = true

instance (v : Json) : Decidable v.UniqueKeys := inferInstanceAs (Decidable (_ = true))

instance (v : Json) : Decidable v.NoNaN := inferInstanceAs (Decidable (_ = true))

/-- Values are built from scalars through the members of objects and the items of arrays. -/
@[elab_as_elim, induction_eliminator]
theorem induct {P : Json → Prop} (null : P .null) (bool : ∀ b, P (.bool b))
    (int : ∀ i, P (.int i)) (double : ∀ d, P (.double d)) (string : ∀ s, P (.string s))
    (object : ∀ ms : List (Bytes × Json), (∀ k v, (k, v) ∈ ms → P v) → P (.object ms))
    (array : ∀ vs : List Json, (∀ v ∈ vs, P v) → P (.array vs)) (v : Json) : P v := by
  apply @Json.rec P (fun ms => ∀ k v, (k, v) ∈ ms → P v) (fun vs => ∀ v ∈ vs, P v)
    (fun kv => P kv.2)
  · exact null
  · exact bool
  · exact int
  · exact double
  · exact string
  · exact object
  · exact array
  · intro k v h
    cases h
  · intro kv ms hkv hms k v h
    rcases List.mem_cons.mp h with rfl | h
    · exact hkv
    · exact hms k v h
  · intro v h
    cases h
  · intro v vs hv hvs w h
    rcases List.mem_cons.mp h with rfl | h
    · exact hv
    · exact hvs w h
  · exact fun _ _ hv => hv

section All

variable {p : Json → Bool}

theorem allMembers_iff {ms : List (Bytes × Json)} :
    allMembers p ms = true ↔ ∀ k v, (k, v) ∈ ms → v.all p = true := by
  induction ms with
  | nil => simp [allMembers]
  | cons kv ms ih =>
    obtain ⟨k, v⟩ := kv
    rw [allMembers, Bool.and_eq_true, ih]
    constructor
    · rintro ⟨hv, hms⟩ j w h
      rcases List.mem_cons.mp h with heq | h
      · obtain ⟨rfl, rfl⟩ := Prod.mk.inj heq
        exact hv
      · exact hms j w h
    · intro h
      exact ⟨h k v List.mem_cons_self, fun j w hm => h j w (List.mem_cons_of_mem _ hm)⟩

theorem allItems_iff {vs : List Json} : allItems p vs = true ↔ ∀ v ∈ vs, v.all p = true := by
  induction vs with
  | nil => simp [allItems]
  | cons v vs ih => simp [allItems, ih]

theorem all_object {ms : List (Bytes × Json)} :
    (Json.object ms).all p = true ↔
      p (.object ms) = true ∧ ∀ k v, (k, v) ∈ ms → v.all p = true := by
  rw [all, Bool.and_eq_true, allMembers_iff]

theorem all_array {vs : List Json} :
    (Json.array vs).all p = true ↔ p (.array vs) = true ∧ ∀ v ∈ vs, v.all p = true := by
  rw [all, Bool.and_eq_true, allItems_iff]

end All

theorem uniqueKeys_object {ms : List (Bytes × Json)} :
    (Json.object ms).UniqueKeys ↔ (keys ms).Nodup ∧ ∀ k v, (k, v) ∈ ms → v.UniqueKeys := by
  unfold UniqueKeys
  rw [all_object, members_object, decide_eq_true_iff]

theorem uniqueKeys_members {v : Json} (h : v.UniqueKeys) :
    (keys v.members).Nodup ∧ ∀ k w, (k, w) ∈ v.members → w.UniqueKeys := by
  cases v with
  | object ms => exact uniqueKeys_object.mp h
  | _ => exact ⟨nodup_keys_nil, fun k w hmem => (by cases hmem)⟩

theorem UniqueKeys.set {v w : Json} (hv : v.UniqueKeys) (hw : w.UniqueKeys) (k : Bytes) :
    (v.set k w).UniqueKeys := by
  obtain ⟨hnodup, hmembers⟩ := uniqueKeys_members hv
  rw [Json.set, uniqueKeys_object]
  refine ⟨nodup_keys_assign hnodup k w, ?_⟩
  intro j x h
  rcases mem_assign h with heq | h
  · exact (Prod.mk.inj heq).2 ▸ hw
  · exact hmembers j x h

theorem uniqueKeys_array {vs : List Json} :
    (Json.array vs).UniqueKeys ↔ ∀ v ∈ vs, v.UniqueKeys := by
  unfold UniqueKeys
  rw [all_array]
  exact and_iff_right rfl

theorem noNaN_object {ms : List (Bytes × Json)} :
    (Json.object ms).NoNaN ↔ ∀ k v, (k, v) ∈ ms → v.NoNaN := by
  unfold NoNaN
  rw [all_object]
  exact and_iff_right rfl

theorem noNaN_array {vs : List Json} : (Json.array vs).NoNaN ↔ ∀ v ∈ vs, v.NoNaN := by
  unfold NoNaN
  rw [all_array]
  exact and_iff_right rfl

section Eq

theorem itemsEq_iff {as bs : List Json} :
    itemsEq as bs = true ↔ List.Forall₂ (fun a b => a.eq b) as bs := by
  induction as generalizing bs with
  | nil => cases bs <;> simp [itemsEq]
  | cons a as ih => cases bs <;> simp [itemsEq, ih]

theorem membersEq_iff {as bs : List (Bytes × Json)} :
    membersEq as bs = true ↔ ∀ kv ∈ as, ∃ b, bs.lookup kv.1 = some b ∧ kv.2.eq b := by
  induction as with
  | nil => simp [membersEq]
  | cons kv as ih =>
    obtain ⟨k, a⟩ := kv
    rw [membersEq, Bool.and_eq_true, ih, List.forall_mem_cons]
    cases bs.lookup k <;> simp

theorem eq_array {as bs : List Json} :
    eq (.array as) (.array bs) ↔ List.Forall₂ (fun a b => a.eq b) as bs := by
  rw [eq, itemsEq_iff]

theorem eq_object {as bs : List (Bytes × Json)} :
    eq (.object as) (.object bs) ↔ SameMembers (fun a b => a.eq b) as bs := by
  rw [eq, Bool.and_eq_true, membersEq_iff, beq_iff_eq, SameMembers]

/-- Objects without repeated keys are equal when they agree key by key. -/
theorem eq_object_iff {as bs : List (Bytes × Json)} (ha : (keys as).Nodup)
    (hb : (keys bs).Nodup) : eq (.object as) (.object bs) ↔
      ∀ k, Option.Rel (fun a b => a.eq b) (as.lookup k) (bs.lookup k) := by
  rw [eq_object, sameMembers_iff ha hb]

theorem eq_refl {v : Json} (hu : v.UniqueKeys) (hn : v.NoNaN) : v.eq v := by
  induction v with
  | null => rfl
  | bool b => simp [eq]
  | int i => simp [eq]
  | double d =>
    rw [eq, Binary64.eq_self]
    exact hn
  | string s => simp [eq]
  | object ms ih =>
    rw [uniqueKeys_object] at hu
    rw [noNaN_object] at hn
    rw [eq_object_iff hu.1 hu.1]
    intro k
    cases hk : ms.lookup k with
    | none => exact .none
    | some v =>
      have hmem := mem_of_lookup hk
      exact .some (ih k v hmem (hu.2 k v hmem) (hn k v hmem))
  | array vs ih =>
    rw [uniqueKeys_array] at hu
    rw [noNaN_array] at hn
    rw [eq_array, List.forall₂_same]
    exact fun v hv => ih v hv (hu v hv) (hn v hv)

theorem eq_trans {a b c : Json} (ha : a.UniqueKeys) (hb : b.UniqueKeys) (hc : c.UniqueKeys)
    (hab : a.eq b) (hbc : b.eq c) : a.eq c := by
  induction a generalizing b c with
  | object as ih =>
    cases b with
    | object bs =>
      cases c with
      | object cs =>
        rw [uniqueKeys_object] at ha hb hc
        rw [eq_object_iff ha.1 hb.1] at hab
        rw [eq_object_iff hb.1 hc.1] at hbc
        rw [eq_object_iff ha.1 hc.1]
        intro k
        apply rel_trans (hab k) (hbc k)
        intro a b c hak hbk hck h h'
        have hmem := mem_of_lookup hak
        exact ih k a hmem (ha.2 k a hmem) (hb.2 k b (mem_of_lookup hbk))
          (hc.2 k c (mem_of_lookup hck)) h h'
      | _ => simp [eq] at hbc
    | _ => simp [eq] at hab
  | array as ih =>
    cases b with
    | array bs =>
      cases c with
      | array cs =>
        rw [uniqueKeys_array] at ha hb hc
        rw [eq_array] at hab hbc ⊢
        induction hab generalizing cs with
        | nil => exact hbc
        | @cons a b as bs h _ ihl =>
          obtain ⟨c, cs, hbc', htail, rfl⟩ := List.forall₂_cons_left_iff.mp hbc
          rw [List.forall_mem_cons] at ha hb hc
          refine .cons (ih a List.mem_cons_self ha.1 hb.1 hc.1 h hbc') ?_
          exact ihl (fun v hv => ih v (List.mem_cons_of_mem _ hv)) ha.2 hb.2 cs hc.2 htail
      | _ => simp [eq] at hbc
    | _ => simp [eq] at hab
  | double d =>
    cases b with
    | double d' =>
      cases c with
      | double d'' =>
        rw [eq] at hab hbc ⊢
        exact Binary64.eq_trans hab hbc
      | _ => simp [eq] at hbc
    | _ => simp [eq] at hab
  | _ => cases b <;> cases c <;> simp_all [eq]

theorem eq_iff_find {a b : Json} (ha : a.isObject = true) (hb : b.isObject = true)
    (hau : a.UniqueKeys) (hbu : b.UniqueKeys) :
    a.eq b ↔ ∀ k, Option.Rel (fun a b => a.eq b) (a.find k) (b.find k) := by
  cases a with
  | object as =>
    cases b with
    | object bs => exact eq_object_iff (uniqueKeys_object.mp hau).1 (uniqueKeys_object.mp hbu).1
    | _ => cases hb
  | _ => cases ha

end Eq

@[simp] theorem find_set (v : Json) (k j : Bytes) (w : Json) :
    (v.set k w).find j = if j = k then some w else v.find j := lookup_assign v.members k j w

end Json

end ReadyUp.Status
