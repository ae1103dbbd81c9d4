import ReadyUp.Fleet.JsonBlanks

/-!
# Values without floating numbers

A value that a program builds from `int64_t` numbers and bytes, with each key once in an
object, comes back unchanged when it is written and read (`parse_dump_plain`), as long as the
reader allows its depth.
-/
namespace ReadyUp.Fleet.JsonText

open Support JsonScan

namespace Value

def members : Value → List (Bytes × Value)
  | .obj o => o
  | _ => []

mutual

/-- `p` holds of the value and of all values below it. -/
def all (p : Value → Bool) : Value → Bool
  | .obj o => p (.obj o) && allMembers p o
  | .arr a => p (.arr a) && allItems p a
  | v => p v

def allMembers (p : Value → Bool) : List (Bytes × Value) → Bool
  | [] => true
  | (_, v) :: o => all p v && allMembers p o

def allItems (p : Value → Bool) : List Value → Bool
  | [] => true
  | v :: a => all p v && allItems p a

end

mutual

/-- How many levels the deepest value in it is below the value. -/
def depth : Value → ℕ
  | .obj o => depthMembers o
  | .arr a => depthItems a
  | _ => 0

/-- The same for the object that has the members. -/
def depthMembers : List (Bytes × Value) → ℕ
  | [] => 0
  | (_, v) :: o => max (depth v + 1) (depthMembers o)

def depthItems : List Value → ℕ
  | [] => 0
  | v :: a => max (depth v + 1) (depthItems a)

end

def isNum : Value → Bool
  | .num _ => true
  | _ => false

/-- An integer is an `int64_t`. -/
def inRange : Value → Bool
  | .int i => InInt64 i
  | _ => true

/-- No object in the value holds a key twice. -/
def UniqueKeys (v : Value) : Prop := (v.all fun w => decide (keys w.members).Nodup) = true

/-- No number in the value is a floating one. -/
def NoFloats (v : Value) : Prop := (v.all fun w => !w.isNum) = true

/-- The integers in the value are those of an `int64_t`. -/
def InRange (v : Value) : Prop := v.all inRange = true

instance (v : Value) : Decidable v.UniqueKeys := inferInstanceAs (Decidable (_ = true))

instance (v : Value) : Decidable v.NoFloats := inferInstanceAs (Decidable (_ = true))

instance (v : Value) : Decidable v.InRange := inferInstanceAs (Decidable (_ = true))

/-- Values are built from scalars through the members of objects and the items of arrays. -/
@[elab_as_elim, induction_eliminator]
theorem induct {P : Value → Prop} (null : P .null) (bool : ∀ b, P (.bool b)) (int : ∀ i, P (.int i))
    (num : ∀ n, P (.num n)) (str : ∀ s, P (.str s))
    (obj : ∀ o : List (Bytes × Value), (∀ k v, (k, v) ∈ o → P v) → P (.obj o))
    (arr : ∀ a : List Value, (∀ v ∈ a, P v) → P (.arr a)) (v : Value) : P v := by
  apply @Value.rec P (fun o => ∀ k v, (k, v) ∈ o → P v) (fun a => ∀ v ∈ a, P v) (fun kv => P kv.2)
  · exact null
  · exact bool
  · exact int
  · exact num
  · exact str
  · exact obj
  · exact arr
  · intro k v h
    cases h
  · intro kv o hkv ho k v h
    rcases List.mem_cons.mp h with rfl | h
    · exact hkv
    · exact ho k v h
  · intro v h
    cases h
  · intro v a hv ha w h
    rcases List.mem_cons.mp h with rfl | h
    · exact hv
    · exact ha w h
  · exact fun _ _ hv => hv

section All

variable {p : Value → Bool}

theorem allMembers_iff {o : List (Bytes × Value)} :
    allMembers p o = true ↔ ∀ k v, (k, v) ∈ o → v.all p = true := by
  induction o with
  | nil => simp [allMembers]
  | cons kv o ih =>
    obtain ⟨k, v⟩ := kv
    rw [allMembers, Bool.and_eq_true, ih]
    constructor
    · rintro ⟨hv, ho⟩ j w h
      rcases List.mem_cons.mp h with heq | h
      · obtain ⟨rfl, rfl⟩ := Prod.mk.inj heq
        exact hv
      · exact ho j w h
    · intro h
      exact ⟨h k v List.mem_cons_self, fun j w hm => h j w (List.mem_cons_of_mem _ hm)⟩

theorem allItems_iff {a : List Value} : allItems p a = true ↔ ∀ v ∈ a, v.all p = true := by
  induction a with
  | nil => simp [allItems]
  | cons v a ih => simp [allItems, ih]

theorem all_obj {o : List (Bytes × Value)} :
    (Value.obj o).all p = true ↔ p (.obj o) = true ∧ ∀ k v, (k, v) ∈ o → v.all p = true := by
  rw [all, Bool.and_eq_true, allMembers_iff]

theorem all_arr {a : List Value} :
    (Value.arr a).all p = true ↔ p (.arr a) = true ∧ ∀ v ∈ a, v.all p = true := by
  rw [all, Bool.and_eq_true, allItems_iff]

theorem depthMembers_le {o : List (Bytes × Value)} {n : ℕ} :
    depthMembers o ≤ n ↔ ∀ k v, (k, v) ∈ o → v.depth + 1 ≤ n := by
  induction o with
  | nil => simp [depthMembers]
  | cons kv o ih =>
    obtain ⟨k, v⟩ := kv
    rw [depthMembers, max_le_iff, ih]
    constructor
    · rintro ⟨hv, ho⟩ j w h
      rcases List.mem_cons.mp h with heq | h
      · obtain ⟨rfl, rfl⟩ := Prod.mk.inj heq
        exact hv
      · exact ho j w h
    · intro h
      exact ⟨h k v List.mem_cons_self, fun j w hm => h j w (List.mem_cons_of_mem _ hm)⟩

theorem depthItems_le {a : List Value} {n : ℕ} : depthItems a ≤ n ↔ ∀ v ∈ a, v.depth + 1 ≤ n := by
  induction a with
  | nil => simp [depthItems]
  | cons v a ih => simp [depthItems, ih]

end All

end Value

section Plain

open Value

theorem rereadMembers_eq_self {o : List (Bytes × Value)} (h : ∀ k v, (k, v) ∈ o → reread v = v) :
    rereadMembers o = o := by
  induction o with
  | nil => rfl
  | cons kv o ih =>
    obtain ⟨k, v⟩ := kv
    rw [rereadMembers, h k v List.mem_cons_self, ih fun j w hm => h j w (List.mem_cons_of_mem _ hm)]

theorem rereadItems_eq_self {a : List Value} (h : ∀ v ∈ a, reread v = v) : rereadItems a = a := by
  induction a with
  | nil => rfl
  | cons v a ih =>
    rw [rereadItems, h v List.mem_cons_self, ih fun w hm => h w (List.mem_cons_of_mem _ hm)]

theorem reread_of_noFloats {v : Value} (h : v.NoFloats) : reread v = v := by
  induction v with
  | num n => cases h
  | obj o ih =>
    have hmembers := (all_obj.mp h).2
    rw [reread, rereadMembers_eq_self fun k v hmem => ih k v hmem (hmembers k v hmem)]
  | arr a ih =>
    have hitems := (all_arr.mp h).2
    rw [reread, rereadItems_eq_self fun v hmem => ih v hmem (hitems v hmem)]
  | _ => simp [reread]

theorem fits_of_depth {v : Value} (hkeys : v.UniqueKeys) (hfloats : v.NoFloats) (hrange : v.InRange)
    {levels : ℕ} (hdepth : v.depth ≤ levels) : Fits (levels + 1) v := by
  induction v generalizing levels with
  | null => exact .null
  | bool b => exact .bool
  | int i => exact .int (of_decide_eq_true hrange)
  | num n => cases hfloats
  | str s => exact .str
  | obj o ih =>
    obtain ⟨hnodup, hkeys⟩ := all_obj.mp hkeys
    have hfloats := (all_obj.mp hfloats).2
    have hrange := (all_obj.mp hrange).2
    rw [depth, depthMembers_le] at hdepth
    refine .obj (of_decide_eq_true hnodup) ?_
    intro k v hmem
    have hlevel := hdepth k v hmem
    obtain ⟨n, rfl⟩ := Nat.exists_eq_add_of_le' (Nat.one_le_of_lt hlevel)
    exact ih k v hmem (hkeys k v hmem) (hfloats k v hmem) (hrange k v hmem)
      (Nat.le_of_succ_le_succ hlevel)
  | arr a ih =>
    have hkeys := (all_arr.mp hkeys).2
    have hfloats := (all_arr.mp hfloats).2
    have hrange := (all_arr.mp hrange).2
    rw [depth, depthItems_le] at hdepth
    refine .arr ?_
    intro v hmem
    have hlevel := hdepth v hmem
    obtain ⟨n, rfl⟩ := Nat.exists_eq_add_of_le' (Nat.one_le_of_lt hlevel)
    exact ih v hmem (hkeys v hmem) (hfloats v hmem) (hrange v hmem) (Nat.le_of_succ_le_succ hlevel)

theorem parse_dump_plain {v : Value} (hkeys : v.UniqueKeys) (hfloats : v.NoFloats)
    (hrange : v.InRange) {maxDepth : ℕ} (hdepth : v.depth ≤ maxDepth) :
    parse (dump v) maxDepth = some v := by
  rw [parse_dump (fits_of_depth hkeys hfloats hrange hdepth), reread_of_noFloats hfloats]

namespace Value

/-- A value that comes back unchanged if its depth allows it. -/
structure Plain (v : Value) : Prop where
  uniqueKeys : v.UniqueKeys
  noFloats : v.NoFloats
  inRange : v.InRange

@[simp] theorem plain_bool (b : Bool) : (Value.bool b).Plain := ⟨rfl, rfl, rfl⟩

@[simp] theorem plain_str (s : Bytes) : (Value.str s).Plain := ⟨rfl, rfl, rfl⟩

@[simp] theorem plain_int_iff {i : ℤ} : (Value.int i).Plain ↔ InInt64 i :=
  ⟨fun h => of_decide_eq_true h.inRange, fun h => ⟨rfl, rfl, decide_eq_true h⟩⟩

theorem plain_obj {o : List (Bytes × Value)} (hkeys : (keys o).Nodup) (h : ∀ kv ∈ o, kv.2.Plain) :
    (Value.obj o).Plain where
  uniqueKeys := all_obj.mpr ⟨decide_eq_true hkeys, fun _ _ hmem => (h _ hmem).uniqueKeys⟩
  noFloats := all_obj.mpr ⟨rfl, fun _ _ hmem => (h _ hmem).noFloats⟩
  inRange := all_obj.mpr ⟨rfl, fun _ _ hmem => (h _ hmem).inRange⟩

theorem plain_arr {a : List Value} (h : ∀ v ∈ a, v.Plain) : (Value.arr a).Plain where
  uniqueKeys := all_arr.mpr ⟨rfl, fun v hmem => (h v hmem).uniqueKeys⟩
  noFloats := all_arr.mpr ⟨rfl, fun v hmem => (h v hmem).noFloats⟩
  inRange := all_arr.mpr ⟨rfl, fun v hmem => (h v hmem).inRange⟩

end Value

theorem parse_line_plain {v : Value} (h : v.Plain) {maxDepth : ℕ} (hdepth : v.depth ≤ maxDepth) :
    parse (dump v ++ [10]) maxDepth = some v := by
  have hfits := fits_of_depth h.uniqueKeys h.noFloats h.inRange hdepth
  rw [parse, value_dump hfits (numEnd_cons (by decide) []), reread_of_noFloats h.noFloats,
    Option.bind_some]
  rfl

end Plain

end ReadyUp.Fleet.JsonText
