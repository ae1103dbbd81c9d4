import ReadyUp.Config.Minijson
import ReadyUp.Fleet.JsonPlain
import ReadyUp.Fleet.Outbox

/-!
# One text, three readers

The status library writes JSON that the status library, the fleet link and the small reader of
the match configurations read, each with its own parser and its own values. A value without
doubles means the same to all of them (`readers_agree`): `toJson` brings what the other two
read back to a status value, where a double that is an integer is that integer.
-/
namespace ReadyUp.Config

open Support JsonScan Status

section ToJson

mutual

/-- A value of the fleet link as a status value. -/
def ofFleet : Fleet.JsonText.Value → Json
  | .null => .null
  | .bool b => .bool b
  | .int i => .int i
  | .num n => .double n
  | .str s => .string s
  | .obj o => .object (ofFleetMembers o)
  | .arr a => .array (ofFleetItems a)

def ofFleetMembers : List (Bytes × Fleet.JsonText.Value) → List (Bytes × Json)
  | [] => []
  | (k, v) :: o => (k, ofFleet v) :: ofFleetMembers o

def ofFleetItems : List Fleet.JsonText.Value → List Json
  | [] => []
  | v :: a => ofFleet v :: ofFleetItems a

end

/-- A double that is an integer stands for the integer. -/
def numberToJson (d : Binary64) : Json :=
  if (Binary64.ofInt d.toInt).eq d then .int d.toInt else .double d

mutual

/-- A value of the small reader as a status value. -/
def ofMini : Minijson.Value → Json
  | .null => .null
  | .bool b => .bool b
  | .number d => numberToJson d
  | .string s => .string s
  | .object o => .object (ofMiniMembers o)
  | .array a => .array (ofMiniItems a)

def ofMiniMembers : List (Bytes × Minijson.Value) → List (Bytes × Json)
  | [] => []
  | (k, v) :: o => (k, ofMini v) :: ofMiniMembers o

def ofMiniItems : List Minijson.Value → List Json
  | [] => []
  | v :: a => ofMini v :: ofMiniItems a

end

end ToJson

section Fleet

open Fleet.JsonText (Value Fits reread)

mutual

/-- A status value as the fleet link has it. -/
def toFleet : Json → Value
  | .null => .null
  | .bool b => .bool b
  | .int i => .int i
  | .double d => .num d
  | .string s => .str s
  | .object ms => .obj (toFleetMembers ms)
  | .array vs => .arr (toFleetItems vs)

def toFleetMembers : List (Bytes × Json) → List (Bytes × Value)
  | [] => []
  | (k, v) :: ms => (k, toFleet v) :: toFleetMembers ms

def toFleetItems : List Json → List Value
  | [] => []
  | v :: vs => toFleet v :: toFleetItems vs

end

attribute [local simp] toFleet toFleetMembers toFleetItems

theorem toFleetMembers_eq (ms : List (Bytes × Json)) :
    toFleetMembers ms = ms.map fun kv => (kv.1, toFleet kv.2) := by
  induction ms with
  | nil => rfl
  | cons kv ms ih => rw [toFleetMembers, ih, List.map_cons]

theorem toFleetItems_eq (vs : List Json) : toFleetItems vs = vs.map toFleet := by
  induction vs with
  | nil => rfl
  | cons v vs ih => rw [toFleetItems, ih, List.map_cons]

theorem ofFleet_toFleet (v : Json) : ofFleet (toFleet v) = v := by
  induction v with
  | object ms ih =>
    have hms : ofFleetMembers (toFleetMembers ms) = ms := by
      induction ms with
      | nil => rfl
      | cons kv ms ihms =>
        obtain ⟨k, v⟩ := kv
        rw [toFleetMembers, ofFleetMembers, ih k v List.mem_cons_self,
          ihms fun j w hm => ih j w (List.mem_cons_of_mem _ hm)]
    rw [toFleet, ofFleet, hms]
  | array vs ih =>
    have hvs : ofFleetItems (toFleetItems vs) = vs := by
      induction vs with
      | nil => rfl
      | cons v vs ihvs =>
        rw [toFleetItems, ofFleetItems, ih v List.mem_cons_self,
          ihvs fun w hm => ih w (List.mem_cons_of_mem _ hm)]
    rw [toFleet, ofFleet, hvs]
  | _ => rw [toFleet, ofFleet]

theorem dumpMembers_toFleet {ms : List (Bytes × Json)}
    (h : ∀ k v, (k, v) ∈ ms → Fleet.JsonText.dump (toFleet v) = v.dump) :
    Fleet.JsonText.dumpMembers (toFleetMembers ms) = Json.dumpMembers ms := by
  induction ms with
  | nil => rfl
  | cons kv ms ih =>
    obtain ⟨k, v⟩ := kv
    have hempty : (toFleetMembers ms).isEmpty = ms.isEmpty := by
      rw [toFleetMembers_eq, List.isEmpty_map]
    rw [toFleetMembers, Fleet.JsonText.dumpMembers, Json.dumpMembers, h k v List.mem_cons_self,
      ih fun j w hm => h j w (List.mem_cons_of_mem _ hm), hempty]

theorem dumpItems_toFleet {vs : List Json}
    (h : ∀ v ∈ vs, Fleet.JsonText.dump (toFleet v) = v.dump) :
    Fleet.JsonText.dumpItems (toFleetItems vs) = Json.dumpItems vs := by
  induction vs with
  | nil => rfl
  | cons v vs ih =>
    have hempty : (toFleetItems vs).isEmpty = vs.isEmpty := by
      rw [toFleetItems_eq, List.isEmpty_map]
    rw [toFleetItems, Fleet.JsonText.dumpItems, Json.dumpItems, h v List.mem_cons_self,
      ih fun w hm => h w (List.mem_cons_of_mem _ hm), hempty]

theorem dump_toFleet {v : Json} (h : v.NoDoubles) : Fleet.JsonText.dump (toFleet v) = v.dump := by
  induction v with
  | bool b => cases b <;> rw [toFleet, Fleet.JsonText.dump, Json.dump] <;> rfl
  | double d => cases h
  | object ms ih =>
    have hmembers := (Json.all_object.mp h).2
    rw [toFleet, Fleet.JsonText.dump, Json.dump,
      dumpMembers_toFleet fun k v hmem => ih k v hmem (hmembers k v hmem)]
  | array vs ih =>
    have hitems := (Json.all_array.mp h).2
    rw [toFleet, Fleet.JsonText.dump, Json.dump,
      dumpItems_toFleet fun v hmem => ih v hmem (hitems v hmem)]
  | _ => rw [toFleet, Fleet.JsonText.dump, Json.dump]

theorem reread_toFleet {v : Json} (h : v.NoDoubles) : reread (toFleet v) = toFleet v := by
  induction v with
  | double d => cases h
  | object ms ih =>
    have hmembers := (Json.all_object.mp h).2
    rw [toFleet, reread, Fleet.JsonText.rereadMembers_eq_self]
    intro k w hmem
    rw [toFleetMembers_eq] at hmem
    obtain ⟨⟨j, v⟩, hv, heq⟩ := List.mem_map.mp hmem
    obtain ⟨-, rfl⟩ := Prod.mk.inj heq
    exact ih j v hv (hmembers j v hv)
  | array vs ih =>
    have hitems := (Json.all_array.mp h).2
    rw [toFleet, reread, Fleet.JsonText.rereadItems_eq_self]
    intro w hmem
    rw [toFleetItems_eq] at hmem
    obtain ⟨v, hv, rfl⟩ := List.mem_map.mp hmem
    exact ih v hv (hitems v hv)
  | _ => simp [toFleet, reread]

theorem fits_toFleet {v : Json} (hdoubles : v.NoDoubles) (hrange : v.InRange) (hkeys : v.UniqueKeys)
    {levels : ℕ} (hdepth : v.depth ≤ levels) : Fits (levels + 1) (toFleet v) := by
  induction v generalizing levels with
  | null => exact .null
  | bool b => exact .bool
  | int i => exact .int (of_decide_eq_true hrange)
  | double d => cases hdoubles
  | string s => exact .str
  | object ms ih =>
    have hdoubles := (Json.all_object.mp hdoubles).2
    have hrange := (Json.all_object.mp hrange).2
    obtain ⟨hnodup, hkeys⟩ := Json.uniqueKeys_object.mp hkeys
    rw [Json.depth, Json.depthMembers_le] at hdepth
    rw [toFleet, toFleetMembers_eq]
    refine .obj (by simpa [keys, List.map_map, Function.comp_def] using hnodup) ?_
    intro k w hmem
    obtain ⟨⟨j, v⟩, hv, heq⟩ := List.mem_map.mp hmem
    obtain ⟨-, rfl⟩ := Prod.mk.inj heq
    have hlevel := hdepth j v hv
    obtain ⟨n, rfl⟩ := Nat.exists_eq_add_of_le' (Nat.one_le_of_lt hlevel)
    exact ih j v hv (hdoubles j v hv) (hrange j v hv) (hkeys j v hv) (Nat.le_of_succ_le_succ hlevel)
  | array vs ih =>
    have hdoubles := (Json.all_array.mp hdoubles).2
    have hrange := (Json.all_array.mp hrange).2
    have hkeys := Json.uniqueKeys_array.mp hkeys
    rw [Json.depth, Json.depthItems_le] at hdepth
    rw [toFleet, toFleetItems_eq]
    refine .arr ?_
    intro w hmem
    obtain ⟨v, hv, rfl⟩ := List.mem_map.mp hmem
    have hlevel := hdepth v hv
    obtain ⟨n, rfl⟩ := Nat.exists_eq_add_of_le' (Nat.one_le_of_lt hlevel)
    exact ih v hv (hdoubles v hv) (hrange v hv) (hkeys v hv) (Nat.le_of_succ_le_succ hlevel)

end Fleet

section Mini

open Minijson (ofJson)

/-- An integer that a double holds exactly. -/
def smallInt : Json → Bool
  | .int i => decide (i.natAbs < 2 ^ 53)
  | _ => true

/-- The integers in the value have a magnitude below `2 ^ 53`. -/
def SmallInts (v : Json) : Prop := v.all smallInt = true

instance (v : Json) : Decidable (SmallInts v) := inferInstanceAs (Decidable (_ = true))

theorem inRange_of_smallInts {v : Json} (h : SmallInts v) : v.InRange := by
  induction v with
  | int i =>
    have hi : i.natAbs < 2 ^ 53 := of_decide_eq_true h
    exact decide_eq_true ⟨by omega, by omega⟩
  | object ms ih =>
    exact Json.all_object.mpr ⟨rfl, fun k v hmem => ih k v hmem ((Json.all_object.mp h).2 k v hmem)⟩
  | array vs ih =>
    exact Json.all_array.mpr ⟨rfl, fun v hmem => ih v hmem ((Json.all_array.mp h).2 v hmem)⟩
  | _ => rfl

theorem numberToJson_ofInt {i : ℤ} (h : i.natAbs < 2 ^ 53) :
    numberToJson (Binary64.ofInt i) = .int i := by
  have hnan : (Binary64.ofInt i).isNaN = false := Binary64.isNaN_ofRat _ _
  rw [numberToJson, Binary64.toInt_ofInt h, if_pos]
  rw [Binary64.eq_self, hnan]
  rfl

theorem ofMini_ofJson {v : Json} (hdoubles : v.NoDoubles) (hsmall : SmallInts v) :
    (ofJson v).map ofMini = some v := by
  induction v with
  | int i =>
    have hi : i.natAbs < 2 ^ 53 := of_decide_eq_true hsmall
    rw [ofJson, Json.readAs, Minijson.ofInt, Option.map_some, ofMini, numberToJson_ofInt hi]
  | double d => cases hdoubles
  | object ms ih =>
    have hms : ((Json.readMembersAs Minijson.dialect Minijson.ofInt Minijson.ofDouble ms).map
        ofMiniMembers) = some ms := by
      have hdoubles := (Json.all_object.mp hdoubles).2
      have hsmall := (Json.all_object.mp hsmall).2
      clear * - ih hdoubles hsmall
      induction ms with
      | nil => rfl
      | cons kv ms ihms =>
        obtain ⟨k, v⟩ := kv
        have hv := ih k v List.mem_cons_self (hdoubles k v List.mem_cons_self)
          (hsmall k v List.mem_cons_self)
        have htail := ihms (fun j w hm => ih j w (List.mem_cons_of_mem _ hm))
          (fun j w hm => hdoubles j w (List.mem_cons_of_mem _ hm))
          fun j w hm => hsmall j w (List.mem_cons_of_mem _ hm)
        obtain ⟨x, hx, rfl⟩ := Option.map_eq_some_iff.mp hv
        obtain ⟨xs, hxs, rfl⟩ := Option.map_eq_some_iff.mp htail
        rw [ofJson] at hx
        rw [Json.readMembersAs, hx, hxs]
        rfl
    obtain ⟨xs, hxs, hback⟩ := Option.map_eq_some_iff.mp hms
    rw [ofJson, Json.readAs, hxs, Option.map_some, Option.map_some]
    exact congrArg (some ∘ Json.object) hback
  | array vs ih =>
    have hvs : ((Json.readItemsAs Minijson.dialect Minijson.ofInt Minijson.ofDouble vs).map
        ofMiniItems) = some vs := by
      have hdoubles := (Json.all_array.mp hdoubles).2
      have hsmall := (Json.all_array.mp hsmall).2
      clear * - ih hdoubles hsmall
      induction vs with
      | nil => rfl
      | cons v vs ihvs =>
        have hv := ih v List.mem_cons_self (hdoubles v List.mem_cons_self)
          (hsmall v List.mem_cons_self)
        have htail := ihvs (fun w hm => ih w (List.mem_cons_of_mem _ hm))
          (fun w hm => hdoubles w (List.mem_cons_of_mem _ hm))
          fun w hm => hsmall w (List.mem_cons_of_mem _ hm)
        obtain ⟨x, hx, rfl⟩ := Option.map_eq_some_iff.mp hv
        obtain ⟨xs, hxs, rfl⟩ := Option.map_eq_some_iff.mp htail
        rw [ofJson] at hx
        rw [Json.readItemsAs, hx, hxs]
        rfl
    obtain ⟨xs, hxs, hback⟩ := Option.map_eq_some_iff.mp hvs
    rw [ofJson, Json.readAs, hxs, Option.map_some, Option.map_some]
    exact congrArg (some ∘ Json.array) hback
  | _ =>
    rw [ofJson, Json.readAs]
    rfl

end Mini

/-- The three readers accept what the status library writes and read the same value. -/
theorem readers_agree {v : Json} (hdoubles : v.NoDoubles) (hsmall : SmallInts v)
    (hkeys : v.UniqueKeys) (hdepth : v.depth ≤ 60) :
    Json.parse v.dump = some v ∧
      (Fleet.JsonText.parse v.dump Fleet.maxDepth).map ofFleet = some v ∧
      (Minijson.parse v.dump).map ofMini = some v := by
  have hrange := inRange_of_smallInts hsmall
  refine ⟨Json.parse_dump_eq hdoubles hrange hkeys (by omega), ?_, ?_⟩
  · have hfits : Fleet.JsonText.Fits (Fleet.maxDepth + 1) (toFleet v) :=
      fits_toFleet hdoubles hrange hkeys (hdepth.trans (by decide))
    rw [← dump_toFleet hdoubles, Fleet.JsonText.parse_dump hfits, reread_toFleet hdoubles,
      Option.map_some, ofFleet_toFleet]
  · rw [Minijson.parse_dump hkeys hrange, ofMini_ofJson hdoubles hsmall]

/-- Every kind of value, with bytes that need an escape and the largest integers. -/
def mixed : Json :=
  .object [(ascii "id", .int (2 ^ 53 - 1)), (ascii "\"\\", .array [.bool true, .int (-7), .null]),
    ([], .object [([0, 31, 127, 255], .string [8, 9, 10, 12, 13, 92, 34])])]

theorem readers_agree_mixed :
    Json.parse mixed.dump = some mixed ∧
      (Fleet.JsonText.parse mixed.dump Fleet.maxDepth).map ofFleet = some mixed ∧
      (Minijson.parse mixed.dump).map ofMini = some mixed :=
  readers_agree (by decide) (by decide) (by decide) (by decide)

end ReadyUp.Config
