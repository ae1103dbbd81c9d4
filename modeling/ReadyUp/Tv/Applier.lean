import Mathlib.Logic.Function.Basic
import ReadyUp.Config.Minijson
import ReadyUp.Support.FloatText
import ReadyUp.Support.OrderedMap
import ReadyUp.Support.Runs

/-!
# The GOTV settings

`PlanApply` says which commands bring the cvars of the broadcast to the values that are wanted. It
keeps what was applied, what each cvar was before and which cvars could not be read in three maps,
and leaves out the commands that would change nothing. The maps are kept as text across a reload of
the plugin. A command is its cvar and its value here; the text that is sent has a blank between
them.
-/
namespace ReadyUp.Tv

open Support JsonScan JsonGrammar Config

structure Applier where
  baseline : OrderedMap Bytes Bytes := ∅
  baselineUnknown : OrderedSet Bytes := ∅
  applied : OrderedMap Bytes Bytes := ∅

structure Plan where
  commands : List (Bytes × Bytes)
  needBaseline : List Bytes
  notes : List Bytes

namespace Applier

variable (a : Applier)

/-- A cvar that was not applied and has not been read. -/
def needs (cvar : Bytes) : Bool :=
  !a.applied.contains cvar && !a.baseline.contains cvar && !a.baselineUnknown.contains cvar

/-- What a cvar without a baseline goes back to, if that is known. -/
def safeValue (cvar : Bytes) : Option Bytes :=
  if cvar = ascii "tv_secure_bypass" then some (ascii "0")
  else if cvar = ascii "sv_deltaticks_enforce" then some (ascii "2")
  else none

/-- The command that sets back an applied cvar. -/
def release (force : Bool) (kv : Bytes × Bytes) : Option (Bytes × Bytes) :=
  match a.baseline[kv.1]? with
  | some b => if b ≠ kv.2 ∨ force = true then some (kv.1, b) else none
  | none => (safeValue kv.1).map (kv.1, ·)

/-- The note on a cvar that stays as it is. -/
def note (kv : Bytes × Bytes) : Option Bytes :=
  match a.baseline[kv.1]?, safeValue kv.1 with
  | none, none => some (kv.1 ++ ascii " left at " ++ kv.2 ++
      ascii " (its value before Ready Up changed it is not known)")
  | _, _ => none

/-- The wanted settings whose cvars have been read or applied. -/
def kept (desired : List (Bytes × Bytes)) : List (Bytes × Bytes) :=
  desired.filter fun kv => !a.needs kv.1

/-- The cvars that are no longer wanted. -/
def dropped (desired : List (Bytes × Bytes)) : List (Bytes × Bytes) :=
  let next := OrderedMap.insertAll ∅ (a.kept desired)
  let needBaseline := (desired.filter fun kv => a.needs kv.1).map Prod.fst
  a.applied.toList.filter fun kv => !next.contains kv.1 && !needBaseline.contains kv.1

def planApply (desired : List (Bytes × Bytes)) (force : Bool) : Applier × Plan :=
  let kept := a.kept desired
  let dropped := a.dropped desired
  ({ a with applied := OrderedMap.insertAll ∅ kept },
    { commands := (kept.filter fun kv => force || decide (a.applied[kv.1]? ≠ some kv.2)) ++
        dropped.filterMap (a.release force)
      needBaseline := (desired.filter fun kv => a.needs kv.1).map Prod.fst
      notes := dropped.filterMap a.note })

end Applier

def numericValue (v : Bytes) : Bool :=
  v ≠ [] ∧ v.length ≤ 24 ∧ v.all fun c => isDigit c || c == byte '-' || c == byte '.'

def isPassword (cvar : Bytes) : Bool := ascii "password" <:+: cvar

/-- What is recorded of an answer, none for an answer that cannot be used. -/
def baselineText (value : Option Bytes) : Option Bytes :=
  let v := trimBy isSpace (value.getD [])
  let clean :=
    if numericValue v ∧ byte '.' ∈ v then toDecimal ((strtod v).elim 0 (·.1.toInt64)) else v
  if numericValue clean then some clean else none

def Applier.recordBaseline (a : Applier) (cvar : Bytes) (value : Option Bytes) : Applier :=
  if isPassword cvar then a
  else
    match baselineText value with
    | none => { a with baselineUnknown := a.baselineUnknown.insert cvar }
    | some clean =>
      { a with
        baseline := a.baseline.insert cvar clean
        baselineUnknown := a.baselineUnknown.erase cvar }

section Text

open Status

/-- One byte in `Quote`. -/
def quoteByte (c : UInt8) : Bytes :=
  if c = byte '"' ∨ c = byte '\\' then [byte '\\', c]
  else if c < 0x20 then
    [byte '\\', byte 'u', byte '0', byte '0', hexDigit (c.toNat / 16), hexDigit (c.toNat % 16)]
  else [c]

def quote (s : Bytes) : Bytes := byte '"' :: (s.flatMap quoteByte ++ [byte '"'])

def stringMembers (l : List (Bytes × Bytes)) : Json :=
  .object (l.map fun kv => (kv.1, .string kv.2))

def Applier.document (a : Applier) : Json :=
  .object [(ascii "baseline", stringMembers a.baseline.toList),
    (ascii "unknown", .array (a.baselineUnknown.toList.map .string)),
    (ascii "applied", stringMembers a.applied.toList)]

def applierJson (a : Applier) : Bytes := a.document.textBy quote

/-- An object of numbers, read by `ParseApplier`. -/
def readMap (o : Option Minijson.Value) : OrderedMap Bytes Bytes :=
  match o with
  | some (.object o) => o.foldl (fun m kv =>
      match kv.2 with
      | .string s => if numericValue s ∧ ¬ isPassword kv.1 then m.insert kv.1 s else m
      | _ => m) ∅
  | _ => ∅

def readNames (u : Option Minijson.Value) : OrderedSet Bytes :=
  match u with
  | some (.array vs) => vs.foldl (fun m v =>
      match v with
      | .string s => m.insert s
      | _ => m) ∅
  | _ => ∅

def parseApplier (json : Bytes) : Option Applier :=
  match Minijson.parse json with
  | some (.object o) =>
    let v := Minijson.Value.object o
    some
      { baseline := readMap (v.get "baseline")
        baselineUnknown := readNames (v.get "unknown")
        applied := readMap (v.get "applied") }
  | _ => none

theorem quotes_quote : Minijson.dialect.Quotes quote := by
  refine Minijson.quotes_flatMap fun c => ?_
  rw [quoteByte]
  split_ifs with hback hcontrol
  · rcases hback with rfl | rfl
    · exact .inr ⟨_, rfl, fun s => Minijson.unescapes.simple _ _ _ (by decide) rfl⟩
    · exact .inr ⟨_, rfl, fun s => Minijson.unescapes.simple _ _ _ (by decide) rfl⟩
  · refine .inr ⟨_, rfl, fun s => Minijson.unescapes.control c s ?_⟩
    have hlt := UInt8.lt_iff_toNat_lt.mp hcontrol
    have h20 : (0x20 : UInt8).toNat = 32 := rfl
    omega
  · rw [not_or] at hback
    exact .inl ⟨rfl, hback.1, hback.2, rfl⟩

/-- The values are numbers, and no key is that of a password. -/
structure Applier.Plain (a : Applier) : Prop where
  baseline : ∀ c v, a.baseline[c]? = some v → numericValue v = true ∧ isPassword c = false
  applied : ∀ c v, a.applied[c]? = some v → numericValue v = true ∧ isPassword c = false

theorem readMap_toList {m : OrderedMap Bytes Bytes}
    (h : ∀ c v, m[c]? = some v → numericValue v = true ∧ isPassword c = false) :
    readMap (some (.object (m.toList.map fun kv => (kv.1, .string kv.2)))) = m := by
  have hloop : ∀ (l : List (Bytes × Bytes)) (t : OrderedMap Bytes Bytes),
      (∀ kv ∈ l, numericValue kv.2 = true ∧ isPassword kv.1 = false) →
      (l.map fun kv => (kv.1, Minijson.Value.string kv.2)).foldl (fun m kv =>
        match kv.2 with
        | .string s => if numericValue s ∧ ¬ isPassword kv.1 then m.insert kv.1 s else m
        | _ => m) t = OrderedMap.insertAll t l := by
    intro l
    induction l with
    | nil => exact fun _ _ => rfl
    | cons kv l ih =>
      intro t hl
      obtain ⟨hnum, hpass⟩ := hl kv List.mem_cons_self
      rw [List.map_cons, List.foldl_cons, OrderedMap.insertAll, List.foldl_cons]
      simp only [hnum, hpass, Bool.false_eq_true, not_false_eq_true, and_self, if_true]
      exact ih _ fun kv hkv => hl kv (List.mem_cons_of_mem _ hkv)
  rw [readMap, hloop]
  · exact m.insertAll_toList
  · intro kv hkv
    exact h kv.1 kv.2 (Std.ExtTreeMap.mem_toList_iff_getElem?_eq_some.mp hkv)

theorem readNames_toList (u : OrderedSet Bytes) :
    readNames (some (.array (u.toList.map .string))) = u := by
  rw [readNames, List.foldl_map]
  exact u.insertAll_toList

theorem plain_stringMembers (m : OrderedMap Bytes Bytes) : (stringMembers m.toList).Plain := by
  refine Json.plain_object ?_ ?_
  · rw [keys, List.map_map]
    exact m.nodup_keys_toList
  · intro k v hmem
    obtain ⟨kv, -, heq⟩ := List.mem_map.mp hmem
    rw [← (Prod.mk.inj heq).2]
    exact Json.plain_string kv.2

theorem plain_document (a : Applier) : a.document.Plain := by
  refine Json.plain_object (show (keys _).Nodup from
    (by decide : [ascii "baseline", ascii "unknown", ascii "applied"].Nodup)) ?_
  intro k v hmem
  simp only [List.mem_cons, Prod.mk.injEq, List.not_mem_nil, or_false] at hmem
  rcases hmem with ⟨-, rfl⟩ | ⟨-, rfl⟩ | ⟨-, rfl⟩
  · exact plain_stringMembers a.baseline
  · refine Json.plain_array fun v hv => ?_
    obtain ⟨s, -, rfl⟩ := List.mem_map.mp hv
    exact Json.plain_string s
  · exact plain_stringMembers a.applied

theorem ofPlain_stringMembers (l : List (Bytes × Bytes)) :
    Minijson.ofPlain (stringMembers l) = .object (l.map fun kv => (kv.1, .string kv.2)) := by
  rw [stringMembers, Minijson.ofPlain, Minijson.ofPlainMembers_eq, List.map_map]
  rfl

theorem parseApplier_applierJson {a : Applier} (h : a.Plain) :
    parseApplier (applierJson a) = some a := by
  have hnames : Minijson.ofPlain (.array (a.baselineUnknown.toList.map .string)) =
      .array (a.baselineUnknown.toList.map .string) := by
    rw [Minijson.ofPlain, Minijson.ofPlainItems_eq, List.map_map]
    rfl
  have hget : ∀ x y z : Minijson.Value, ∀ v, v = Minijson.Value.object [(ascii "baseline", x),
      (ascii "unknown", y), (ascii "applied", z)] →
        v.get "baseline" = some x ∧ v.get "unknown" = some y ∧ v.get "applied" = some z := by
    rintro x y z _ rfl
    exact ⟨rfl, rfl, rfl⟩
  rw [parseApplier, applierJson, Minijson.parse_plain quotes_quote (plain_document a),
    Applier.document, Minijson.ofPlain]
  obtain ⟨hbaseline, hunknown, happlied⟩ := hget _ _ _ _ rfl
  simp only [Minijson.ofPlainMembers_eq, List.map_cons, List.map_nil, ofPlain_stringMembers, hnames]
  rw [hbaseline, hunknown, happlied, readMap_toList h.baseline, readNames_toList,
    readMap_toList h.applied]

end Text

end ReadyUp.Tv
