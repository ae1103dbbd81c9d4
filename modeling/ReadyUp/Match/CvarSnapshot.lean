import ReadyUp.Status.JsonText
import ReadyUp.Support.Checks
import ReadyUp.Support.FloatText
import ReadyUp.Support.OrderedMap
import ReadyUp.Support.Runs
import ReadyUp.Support.Since

/-!
# The cvars from before a match

A match sets cvars, and the end of the series puts back what they were. A snapshot asks the engine
for every cvar once and keeps the first answer, since a later one may be the value of the match. It
survives a reload of the plugin as a document. A `Log` has all that was done with a snapshot;
`Recorded` and `Asked` say what it has to hold.
-/
namespace ReadyUp.Match

open Support Status

namespace CvarSnapshot

def lower (s : Bytes) : Bytes := s.map toLower

def quotableValue (value : Bytes) : Bool :=
  value.all fun c => !(c == byte '"' || c == byte ';' || c < 32 || c == 127)

structure Snapshot where
  values : OrderedMap Bytes Bytes := ∅
  asked : OrderedSet Bytes := ∅

namespace Snapshot

def takeKeysToQuery (s : Snapshot) : List Bytes → List Bytes × Snapshot
  | [] => ([], s)
  | k :: ks =>
    let n := lower k
    if n = [] ∨ n ∈ s.values ∨ n ∈ s.asked then s.takeKeysToQuery ks
    else
      let rest := Snapshot.takeKeysToQuery { s with asked := s.asked.insert n } ks
      (n :: rest.1, rest.2)

/-- `Record`: the first value wins. -/
def record (s : Snapshot) (name : Bytes) (value : Option Bytes) : Snapshot :=
  match value with
  | none => s
  | some v =>
    let n := lower name
    if n = [] then s
    else { values := if n ∈ s.values then s.values else s.values.insert n v, asked :=
      s.asked.insert n }

def unask (s : Snapshot) (name : Bytes) : Snapshot :=
  if lower name ∈ s.values then s else { s with asked := s.asked.erase (lower name) }

def command (kv : Bytes × Bytes) : Bytes := kv.1 ++ ascii " \"" ++ kv.2 ++ ascii "\""

/-- `RestoreCommands`: the commands, and the names that are skipped. -/
def restoreCommands (s : Snapshot) : List Bytes × List Bytes :=
  ((s.values.toList.filter fun kv => quotableValue kv.2).map command,
    keys (s.values.toList.filter fun kv => !quotableValue kv.2))

def toJson (s : Snapshot) (withAsked : Bool) : Bytes :=
  let values := s.values.toList.foldl (fun v kv => v.set kv.1 (.string kv.2)) (.object [])
  let j := (Json.object []).set (ascii "values") values
  (if withAsked then j.set (ascii "asked") (.array (s.asked.toList.map .string)) else j).dump

/-- A member of the values; what is no string is left out. -/
def addValue (m : OrderedMap Bytes Bytes) (kv : Bytes × Json) : OrderedMap Bytes Bytes :=
  match kv.2 with
  | .string v => m.insert (lower kv.1) v
  | _ => m

def addAsked (m : OrderedSet Bytes) : Json → OrderedSet Bytes
  | .string n => if n = [] then m else m.insert (lower n)
  | _ => m

/-- `FromJson`: no snapshot where the text is not that of an object. -/
def fromJson (json : Bytes) (withAsked : Bool) : Option Snapshot :=
  match Json.parse json with
  | some (.object ms) =>
    let values :=
      match ms.lookup (ascii "values") with
      | some (.object vs) => vs.foldl addValue ∅
      | _ => ∅
    let read := OrderedSet.insertAll ∅ (keys values.toList)
    let asked :=
      match ms.lookup (ascii "asked") with
      | some (.array ns) => if withAsked then ns.foldl addAsked read else read
      | _ => read
    some { values, asked }
  | _ => none

end Snapshot

/-! ### Names and commands -/

theorem lower_lower (s : Bytes) : lower (lower s) = lower s := by
  rw [lower, lower, List.map_map]
  exact List.map_congr_left fun c _ => toLower_toLower c

@[simp] theorem lower_eq_nil {s : Bytes} : lower s = [] ↔ s = [] := List.map_eq_nil_iff

/-- A command says which value it sets, since the value has no quote. -/
theorem command_inj {kv kv' : Bytes × Bytes} (h : quotableValue kv.2 = true)
    (h' : quotableValue kv'.2 = true)
    (heq : Snapshot.command kv = Snapshot.command kv') : kv = kv' := by
  have hquote :
      ∀ v : Bytes, quotableValue v = true → ∀ c ∈ v.reverse, decide (c ≠ byte '"') = true := by
    intro v hv c hc
    have hnot := List.all_eq_true.mp hv c (List.mem_reverse.mp hc)
    exact decide_eq_true fun heq => by simp [heq] at hnot
  have htake : ∀ n v : Bytes, quotableValue v = true →
      (((n ++ ascii " \"" ++ v).reverse).takeWhile fun c => decide (c ≠ byte '"')) = v.reverse := by
    intro n v hv
    rw [List.reverse_append, List.takeWhile_append_of_pos (hquote v hv), List.reverse_append]
    simp [ascii, byte]
  obtain ⟨n, v⟩ := kv
  obtain ⟨n', v'⟩ := kv'
  have hbody : n ++ ascii " \"" ++ v = n' ++ ascii " \"" ++ v' := List.append_cancel_right heq
  have hvalue : v.reverse = v'.reverse := by rw [← htake n v h, hbody, htake n' v' h']
  obtain rfl := List.reverse_injective hvalue
  rw [List.append_cancel_right (List.append_cancel_right hbody)]

/-! ### What is handed out -/

section Take

variable {s : Snapshot} {n : Bytes}

@[simp] theorem take_values (s : Snapshot) (ks : List Bytes) :
    (s.takeKeysToQuery ks).2.values = s.values := by
  induction ks generalizing s with
  | nil => rfl
  | cons k ks ih =>
    rw [Snapshot.takeKeysToQuery]
    dsimp only
    split_ifs
    · exact ih s
    · exact ih _

theorem take_spec (s : Snapshot) (ks : List Bytes) :
    (s.takeKeysToQuery ks).1.Nodup ∧
      (∀ n ∈ (s.takeKeysToQuery ks).1, n ≠ [] ∧ lower n = n ∧ n ∉ s.values ∧ n ∉ s.asked) ∧
        ∀ n, n ∈ (s.takeKeysToQuery ks).2.asked ↔ n ∈ s.asked ∨ n ∈ (s.takeKeysToQuery ks).1 := by
  induction ks generalizing s with
  | nil => simp [Snapshot.takeKeysToQuery]
  | cons k ks ih =>
    rw [Snapshot.takeKeysToQuery]
    dsimp only
    by_cases hold : lower k = [] ∨ lower k ∈ s.values ∨ lower k ∈ s.asked
    · rw [if_pos hold]
      exact ih s
    · rw [if_neg hold]
      rw [not_or, not_or] at hold
      obtain ⟨hnodup, hnew, hasked⟩ := ih { s with asked := s.asked.insert (lower k) }
      simp only [OrderedSet.mem_insert] at hnew hasked
      refine ⟨List.nodup_cons.mpr ⟨fun hmem => ?_, hnodup⟩, fun n hn => ?_, fun n => ?_⟩
      · exact (hnew _ hmem).2.2.2 (.inl rfl)
      · rcases List.mem_cons.mp hn with rfl | hn
        · exact ⟨hold.1, lower_lower k, hold.2.1, hold.2.2⟩
        · obtain ⟨hne, hlower, hvalues, hnot⟩ := hnew n hn
          exact ⟨hne, hlower, hvalues, fun h => hnot (.inr h)⟩
      · rw [hasked n, List.mem_cons, or_assoc, or_left_comm]

end Take

/-! ### What was done with a snapshot -/

inductive Call where
  | take (ks : List Bytes)
  | record (name : Bytes) (value : Option Bytes)
  | unask (name : Bytes)
  | clear
  /-- The plugin is reloaded: the snapshot is read from its own document. -/
  | reload

/-- A call with what it gave; of an unask, whether the name had a value. -/
inductive Entry where
  | take (ks out : List Bytes)
  | record (name : Bytes) (value : Option Bytes)
  | unask (name : Bytes) (known : Bool)
  | clear
  | reload

structure Log where
  snapshot : Snapshot := {}
  entries : List Entry := []

def Log.step (l : Log) : Call → Log
  | .take ks =>
    { snapshot := (l.snapshot.takeKeysToQuery ks).2
      entries := l.entries ++ [.take ks (l.snapshot.takeKeysToQuery ks).1] }
  | .record name value =>
    { snapshot := l.snapshot.record name value, entries := l.entries ++ [.record name value] }
  | .unask name =>
    { snapshot := l.snapshot.unask name
      entries := l.entries ++ [.unask name (lower name ∈ l.snapshot.values)] }
  | .clear => { snapshot := {}, entries := l.entries ++ [.clear] }
  | .reload =>
    { snapshot := (Snapshot.fromJson (l.snapshot.toJson true) true).getD {}
      entries := l.entries ++ [.reload] }

/-- A name is handed out for a query. -/
def Entry.Hands (n : Bytes) : Entry → Prop
  | .take _ out => n ∈ out
  | _ => False

/-- The name may be handed out again: it is unasked without a value, or all is cleared. -/
def Entry.Frees (n : Bytes) : Entry → Prop
  | .unask name known => lower name = n ∧ known = false
  | .clear => True
  | _ => False

def Entry.IsClear : Entry → Prop
  | .clear => True
  | _ => False

def Entry.Answers (n v : Bytes) : Entry → Prop
  | .record name value => lower name = n ∧ n ≠ [] ∧ value = some v
  | _ => False

/-- The name was handed out, and has not been freed since. -/
def HandedOut (entries : List Entry) (n : Bytes) : Prop :=
  Since (fun _ => Entry.Hands n) (¬·.Frees n) entries

/-- There was an answer for the name since all was cleared. -/
def Answered (entries : List Entry) (n : Bytes) : Prop :=
  Since (fun _ e => ∃ v, e.Answers n v) (¬·.IsClear) entries

/-- The first answer for the name since all was cleared. -/
def FirstAnswer (entries : List Entry) (n v : Bytes) : Prop :=
  Since (fun before e => e.Answers n v ∧ ¬Answered before n) (¬·.IsClear) entries

theorem handedOut_concat {entries : List Entry} {e : Entry} {n : Bytes} :
    HandedOut (entries ++ [e]) n ↔ e.Hands n ∨ HandedOut entries n ∧ ¬e.Frees n := since_concat

theorem firstAnswer_concat {entries : List Entry} {e : Entry} {n v : Bytes} :
    FirstAnswer (entries ++ [e]) n v ↔
      e.Answers n v ∧ ¬Answered entries n ∨ FirstAnswer entries n v ∧ ¬e.IsClear := since_concat

theorem answered_concat {entries : List Entry} {e : Entry} {n : Bytes} :
    Answered (entries ++ [e]) n ↔ (∃ v, e.Answers n v) ∨ Answered entries n ∧ ¬e.IsClear :=
  since_concat

/-- What an entry means, given what was logged before. -/
def Entry.Told (before : List Entry) : Entry → Prop
  | .take _ out => out.Nodup ∧ ∀ n ∈ out, ¬HandedOut before n ∧ ¬Answered before n
  | .unask name known => known = true ↔ Answered before (lower name)
  | _ => True

/-- The snapshot holds the first answers, and has asked for what was handed out or answered. -/
structure Log.Sound (l : Log) : Prop where
  values : ∀ n v, l.snapshot.values[n]? = some v ↔ FirstAnswer l.entries n v
  answered : ∀ n, n ∈ l.snapshot.values ↔ Answered l.entries n
  handed : ∀ n, HandedOut l.entries n → n ∈ l.snapshot.asked
  known : ∀ n, n ∈ l.snapshot.values → n ∈ l.snapshot.asked
  lower : ∀ n, n ∈ l.snapshot.asked → n ≠ [] ∧ lower n = n
  told : ∀ front e back, l.entries = front ++ e :: back → e.Told front

section Document

variable {s : Snapshot}

theorem foldl_set {l : List (Bytes × Bytes)} {ms : List (Bytes × Json)}
    (h : (keys ms ++ keys l).Nodup) :
    l.foldl (fun v kv => v.set kv.1 (.string kv.2)) (Json.object ms) =
      .object (ms ++ l.map fun kv => (kv.1, .string kv.2)) := by
  induction l generalizing ms with
  | nil => simp
  | cons kv l ih =>
    have hnew : kv.1 ∉ keys ms := by
      intro hmem
      exact (List.nodup_append.mp h).2.2 _ hmem _ List.mem_cons_self rfl
    rw [List.foldl_cons, Json.set, Json.members_object, assign_of_notMem hnew, ih, List.map_cons,
      List.append_assoc]
    · rfl
    · rw [keys, List.map_append, List.append_assoc]
      exact h

/-- The document of a snapshot with the names that were asked for. -/
def document (s : Snapshot) : Json :=
  .object [(ascii "values", .object (s.values.toList.map fun kv => (kv.1, .string kv.2))),
    (ascii "asked", .array (s.asked.toList.map .string))]

theorem toJson_eq (s : Snapshot) : s.toJson true = (document s).dump := by
  have hkeys : (keys ([] : List (Bytes × Json)) ++ keys s.values.toList).Nodup :=
    s.values.nodup_keys_toList
  rw [Snapshot.toJson, foldl_set hkeys]
  rfl

theorem plain_document (s : Snapshot) : (document s).Plain := by
  refine Json.plain_object (show [ascii "values", ascii "asked"].Nodup by decide) ?_
  intro k v hmem
  simp only [List.mem_cons, Prod.mk.injEq, List.not_mem_nil, or_false] at hmem
  rcases hmem with ⟨-, rfl⟩ | ⟨-, rfl⟩
  · refine Json.plain_object ?_ fun k v hmem => ?_
    · rw [keys, List.map_map]
      exact s.values.nodup_keys_toList
    · obtain ⟨kv, -, heq⟩ := List.mem_map.mp hmem
      rw [← (Prod.mk.inj heq).2]
      exact Json.plain_string kv.2
  · refine Json.plain_array fun v hv => ?_
    obtain ⟨n, -, rfl⟩ := List.mem_map.mp hv
    exact Json.plain_string n

theorem depth_document (s : Snapshot) : (document s).depth ≤ 64 := by
  refine (Json.depth_object_le (n := 2) fun kv hkv => ?_).trans (by decide)
  simp only [List.mem_cons, List.not_mem_nil, or_false] at hkv
  rcases hkv with rfl | rfl
  · refine Nat.succ_le_succ (Json.depth_object_le fun kv hkv => ?_)
    obtain ⟨kv, -, rfl⟩ := List.mem_map.mp hkv
    exact le_rfl
  · refine Nat.succ_le_succ (Json.depth_array_le fun v hv => ?_)
    obtain ⟨n, -, rfl⟩ := List.mem_map.mp hv
    exact le_rfl

/-- Values whose names are in lower case are read as they are. -/
theorem foldl_addValue {l : List (Bytes × Bytes)} (h : ∀ kv ∈ l, CvarSnapshot.lower kv.1 = kv.1)
    (m : OrderedMap Bytes Bytes) :
    (l.map fun kv => (kv.1, Json.string kv.2)).foldl Snapshot.addValue m = m.insertAll l := by
  induction l generalizing m with
  | nil => rfl
  | cons kv l ih =>
    rw [List.forall_mem_cons] at h
    rw [List.map_cons, List.foldl_cons, ih h.2, Snapshot.addValue, h.1]
    rfl

theorem foldl_addAsked {l : List Bytes} (h : ∀ n ∈ l, n ≠ [] ∧ CvarSnapshot.lower n = n)
    (m : OrderedSet Bytes) : (l.map Json.string).foldl Snapshot.addAsked m = m.insertAll l := by
  induction l generalizing m with
  | nil => rfl
  | cons n l ih =>
    rw [List.forall_mem_cons] at h
    rw [List.map_cons, List.foldl_cons, ih h.2, Snapshot.addAsked, if_neg h.1.1, h.1.2]
    rfl

theorem fromJson_toJson (hknown : ∀ n, n ∈ s.values → n ∈ s.asked)
    (hlower : ∀ n, n ∈ s.asked → n ≠ [] ∧ CvarSnapshot.lower n = n) :
    Snapshot.fromJson (s.toJson true) true = some s := by
  have hplain := plain_document s
  have hvalues : ∀ kv ∈ s.values.toList, CvarSnapshot.lower kv.1 = kv.1 := by
    intro kv hkv
    have hmem := Std.ExtTreeMap.mem_toList_iff_getElem?_eq_some.mp hkv
    exact (hlower kv.1
      (hknown kv.1 (Std.ExtTreeMap.mem_iff_isSome_getElem?.mpr (by simp [hmem])))).2
  have hasked : ∀ n ∈ s.asked.toList, n ≠ [] ∧ CvarSnapshot.lower n = n := by
    intro n hn
    exact hlower n (Std.ExtTreeSet.mem_toList.mp hn)
  have hread : Snapshot.fromJson (s.toJson true) true = some
      { values := (s.values.toList.map fun kv => (kv.1, Json.string kv.2)).foldl Snapshot.addValue ∅
        asked := (s.asked.toList.map Json.string).foldl Snapshot.addAsked (OrderedSet.insertAll ∅
          (keys ((s.values.toList.map fun kv => (kv.1, Json.string kv.2)).foldl Snapshot.addValue
            ∅).toList)) } := by
    rw [Snapshot.fromJson, toJson_eq,
      Json.parse_dump_eq hplain.noDoubles hplain.inRange hplain.uniqueKeys (depth_document s)]
    rfl
  rw [hread, foldl_addValue hvalues, foldl_addAsked hasked, OrderedMap.insertAll_toList]
  congr 2
  apply Std.ExtTreeSet.ext_mem
  intro n
  rw [OrderedSet.mem_insertAll, OrderedSet.mem_insertAll, Std.ExtTreeSet.mem_toList]
  have hkeys : n ∈ keys s.values.toList → n ∈ s.asked := by
    intro hmem
    obtain ⟨kv, hkv, rfl⟩ := List.mem_map.mp hmem
    have hsome := Std.ExtTreeMap.mem_toList_iff_getElem?_eq_some.mp hkv
    exact hknown kv.1 (Std.ExtTreeMap.mem_iff_isSome_getElem?.mpr (by simp [hsome]))
  simp only [Std.ExtTreeSet.not_mem_empty, or_false]
  exact ⟨fun hmem => hmem.elim id hkeys, .inl⟩

end Document

/-! ### What the log says of the snapshot -/

section Step

variable {l : Log} {e : Entry} {n v : Bytes}

/-- An entry that answers nothing and clears nothing. -/
def Entry.Quiet (e : Entry) : Prop := (∀ n v, ¬e.Answers n v) ∧ ¬e.IsClear

theorem firstAnswer_quiet (he : e.Quiet) {entries : List Entry} :
    FirstAnswer (entries ++ [e]) n v ↔ FirstAnswer entries n v := by
  simp [firstAnswer_concat, he.1, he.2]

theorem answered_quiet (he : e.Quiet) {entries : List Entry} :
    Answered (entries ++ [e]) n ↔ Answered entries n := by
  simp [answered_concat, he.1, he.2]

theorem sound_quiet (h : l.Sound) (he : e.Quiet) {s : Snapshot}
    (hvalues : s.values = l.snapshot.values)
    (hhanded : ∀ n, HandedOut (l.entries ++ [e]) n → n ∈ s.asked)
    (hknown : ∀ n, n ∈ s.values → n ∈ s.asked)
    (hlower : ∀ n, n ∈ s.asked → n ≠ [] ∧ lower n = n) (htold : e.Told l.entries) :
    Log.Sound { snapshot := s, entries := l.entries ++ [e] } where
  values n v := by rw [firstAnswer_quiet he, hvalues, h.values]
  answered n := by rw [answered_quiet he, hvalues, h.answered]
  handed := hhanded
  known := hknown
  lower := hlower
  told := forall_split_concat h.told htold

theorem sound_take (h : l.Sound) (ks : List Bytes) : (l.step (.take ks)).Sound := by
  obtain ⟨hnodup, hnew, hasked⟩ := take_spec l.snapshot ks
  refine sound_quiet h ⟨by simp [Entry.Answers], by simp [Entry.IsClear]⟩
    (take_values l.snapshot ks) ?_ ?_ ?_ ?_
  · intro n hhanded
    rw [hasked]
    rcases handedOut_concat.mp hhanded with hnow | ⟨hbefore, -⟩
    · exact .inr hnow
    · exact .inl (h.handed n hbefore)
  · intro n hn
    rw [take_values] at hn
    rw [hasked]
    exact .inl (h.known n hn)
  · intro n hn
    rcases (hasked n).mp hn with hbefore | hnow
    · exact h.lower n hbefore
    · exact ⟨(hnew n hnow).1, (hnew n hnow).2.1⟩
  · refine ⟨hnodup, fun n hn => ?_⟩
    obtain ⟨-, -, hvalues, hnot⟩ := hnew n hn
    exact ⟨fun hbefore => hnot (h.handed n hbefore), fun hanswered =>
      hvalues ((h.answered n).mpr hanswered)⟩

theorem sound_unask (h : l.Sound) (name : Bytes) : (l.step (.unask name)).Sound := by
  have hquiet : (Entry.unask name (lower name ∈ l.snapshot.values)).Quiet :=
    ⟨by simp [Entry.Answers], by simp [Entry.IsClear]⟩
  have hvalues : (l.snapshot.unask name).values = l.snapshot.values := by
    rw [Snapshot.unask]
    split_ifs <;> rfl
  have hasked : ∀ n, n ∈ (l.snapshot.unask name).asked ↔
      n ∈ l.snapshot.asked ∧ ¬(lower name = n ∧ lower name ∉ l.snapshot.values) := by
    intro n
    rw [Snapshot.unask]
    split_ifs with hknown
    · simp [hknown]
    · rw [OrderedSet.mem_erase, and_comm, Ne, eq_comm]
      simp [hknown]
  refine sound_quiet h hquiet hvalues ?_ ?_ ?_ ?_
  · intro n hhanded
    rw [hasked]
    rcases handedOut_concat.mp hhanded with hnow | ⟨hbefore, hfree⟩
    · cases hnow
    · exact ⟨h.handed n hbefore, fun ⟨heq, hnot⟩ => hfree ⟨heq, decide_eq_false hnot⟩⟩
  · intro n hn
    rw [hvalues] at hn
    rw [hasked]
    exact ⟨h.known n hn, fun ⟨heq, hnot⟩ => hnot (heq ▸ hn)⟩
  · intro n hn
    exact h.lower n ((hasked n).mp hn).1
  · rw [Entry.Told, decide_eq_true_eq]
    exact h.answered _

theorem getElem?_record (s : Snapshot) {name : Bytes} (hname : name ≠ []) (w n : Bytes) :
    (s.record name (some w)).values[n]? =
      if n = lower name ∧ lower name ∉ s.values then some w else s.values[n]? := by
  rw [Snapshot.record, if_neg (by simpa using hname)]
  by_cases hold : lower name ∈ s.values
  · simp [hold]
  · simp only [hold, if_false, not_false_eq_true, and_true]
    exact OrderedMap.getElem?_insert s.values (lower name) n w

theorem sound_record (h : l.Sound) {name : Bytes} (hname : name ≠ []) (w : Bytes) :
    (l.step (.record name (some w))).Sound := by
  have hlower : lower name ≠ [] := by simpa using hname
  have hvalues := getElem?_record l.snapshot hname w
  have hanswers : ∀ n v, (Entry.record name (some w)).Answers n v ↔ lower name = n ∧ w = v := by
    intro n v
    simp only [Entry.Answers, Option.some.injEq]
    exact ⟨fun h => ⟨h.1, h.2.2⟩, fun h => ⟨h.1, h.1 ▸ hlower, h.2⟩⟩
  have hasked : ∀ n, n ∈ (l.snapshot.record name (some w)).asked ↔
      n = lower name ∨ n ∈ l.snapshot.asked := by
    intro n
    rw [Snapshot.record, if_neg hlower]
    exact OrderedSet.mem_insert l.snapshot.asked (lower name) n
  have hmem : ∀ n, n ∈ (l.snapshot.record name (some w)).values ↔
      n = lower name ∨ n ∈ l.snapshot.values := by
    intro n
    rw [Std.ExtTreeMap.mem_iff_isSome_getElem?, hvalues]
    by_cases hn : n = lower name
    · subst hn
      by_cases hold : lower name ∈ l.snapshot.values
      · simp [hold]
      · simp [hold]
    · simp [hn]
  have hquiet : ¬(Entry.record name (some w)).IsClear := by simp [Entry.IsClear]
  constructor
  · intro n v
    change (l.snapshot.record name (some w)).values[n]? = some v ↔
      FirstAnswer (l.entries ++ [_]) n v
    rw [hvalues, firstAnswer_concat, hanswers, ← h.answered, ← h.values]
    by_cases hn : n = lower name
    · subst hn
      by_cases hold : lower name ∈ l.snapshot.values
      · simp [hold, hquiet]
      · simp [hold]
    · have hne : lower name ≠ n := fun heq => hn heq.symm
      simp [hn, hne, hquiet]
  · intro n
    change n ∈ (l.snapshot.record name (some w)).values ↔ Answered (l.entries ++ [_]) n
    rw [hmem, answered_concat, h.answered]
    simp [hanswers, hquiet, eq_comm]
  · intro n hhanded
    rcases handedOut_concat.mp hhanded with hnow | ⟨hbefore, -⟩
    · cases hnow
    · exact (hasked n).mpr (.inr (h.handed n hbefore))
  · intro n hn
    rcases (hmem n).mp hn with hnow | hbefore
    · exact (hasked n).mpr (.inl hnow)
    · exact (hasked n).mpr (.inr (h.known n hbefore))
  · intro n hn
    rcases (hasked n).mp hn with rfl | hbefore
    · exact ⟨hlower, lower_lower name⟩
    · exact h.lower n hbefore
  · exact forall_split_concat h.told trivial

/-- A record without a value or without a name does nothing. -/
theorem sound_unrecorded (h : l.Sound) {name : Bytes} {value : Option Bytes}
    (hnone : value = none ∨ name = []) : (l.step (.record name value)).Sound := by
  have hsame : l.snapshot.record name value = l.snapshot := by
    rcases hnone with rfl | rfl
    · rfl
    · cases value <;> rfl
  have hquiet : (Entry.record name value).Quiet := by
    refine ⟨fun n v hanswers => ?_, by simp [Entry.IsClear]⟩
    obtain ⟨rfl, hne, hvalue⟩ := hanswers
    rcases hnone with rfl | rfl
    · cases hvalue
    · exact hne rfl
  refine sound_quiet h hquiet (congrArg Snapshot.values hsame) (fun n hhanded => ?_) ?_ ?_ trivial
  · rw [hsame]
    rcases handedOut_concat.mp hhanded with hnow | ⟨hbefore, -⟩
    · cases hnow
    · exact h.handed n hbefore
  · rw [hsame]
    exact h.known
  · rw [hsame]
    exact h.lower

theorem sound_clear (h : l.Sound) : (l.step .clear).Sound where
  values n v := by simp [Log.step, firstAnswer_concat, Entry.Answers, Entry.IsClear]
  answered n := by simp [Log.step, answered_concat, Entry.Answers, Entry.IsClear]
  handed n hhanded := by
    rcases handedOut_concat.mp hhanded with hnow | ⟨-, hfree⟩
    · cases hnow
    · exact absurd trivial hfree
  known n hn := by simp [Log.step] at hn
  lower n hn := by simp [Log.step] at hn
  told := forall_split_concat h.told trivial

theorem sound_reload (h : l.Sound) : (l.step .reload).Sound := by
  have hsame : (Snapshot.fromJson (l.snapshot.toJson true) true).getD {} = l.snapshot := by
    rw [fromJson_toJson h.known h.lower, Option.getD_some]
  rw [Log.step, hsame]
  refine sound_quiet h ⟨by simp [Entry.Answers], by simp [Entry.IsClear]⟩ rfl
    (fun n hhanded => ?_) h.known h.lower
    trivial
  rcases handedOut_concat.mp hhanded with hnow | ⟨hbefore, -⟩
  · cases hnow
  · exact h.handed n hbefore

theorem sound_step (h : l.Sound) (c : Call) : (l.step c).Sound := by
  cases c with
  | take ks => exact sound_take h ks
  | record name value =>
    cases value with
    | none => exact sound_unrecorded h (.inl rfl)
    | some w =>
      by_cases hname : name = []
      · exact sound_unrecorded h (.inr hname)
      · exact sound_record h hname w
  | unask name => exact sound_unask h name
  | clear => exact sound_clear h
  | reload => exact sound_reload h

theorem sound_new : Log.Sound {} where
  values n v := by simp [FirstAnswer, not_since_nil]
  answered n := by simp [Answered, not_since_nil]
  handed n h := absurd h not_since_nil
  known n hn := by simp at hn
  lower n hn := by simp at hn
  told front e back h := by simp at h

end Step

section Restore

variable {s : Snapshot} {n v : Bytes}

theorem mem_toList_values : (n, v) ∈ s.values.toList ↔ s.values[n]? = some v :=
  Std.ExtTreeMap.mem_toList_iff_getElem?_eq_some

theorem mem_restoreCommands {c : Bytes} : c ∈ s.restoreCommands.1 ↔
    ∃ n v, s.values[n]? = some v ∧ quotableValue v = true ∧ c = Snapshot.command (n, v) := by
  rw [Snapshot.restoreCommands, List.mem_map]
  constructor
  · rintro ⟨⟨n, v⟩, hmem, rfl⟩
    obtain ⟨hentry, hquotable⟩ := List.mem_filter.mp hmem
    exact ⟨n, v, mem_toList_values.mp hentry, hquotable, rfl⟩
  · rintro ⟨n, v, hentry, hquotable, rfl⟩
    exact ⟨(n, v), List.mem_filter.mpr ⟨mem_toList_values.mpr hentry, hquotable⟩, rfl⟩

theorem nodup_restoreCommands (s : Snapshot) : s.restoreCommands.1.Nodup := by
  have hkeys : s.values.toList.Nodup := List.Nodup.of_map Prod.fst s.values.nodup_keys_toList
  refine List.Nodup.map_on (fun kv hkv kv' hkv' heq => ?_) (hkeys.filter _)
  exact command_inj (List.mem_filter.mp hkv).2 (List.mem_filter.mp hkv').2 heq

theorem mem_skipped :
    n ∈ s.restoreCommands.2 ↔ ∃ v, s.values[n]? = some v ∧ quotableValue v = false := by
  rw [Snapshot.restoreCommands, keys, List.mem_map]
  constructor
  · rintro ⟨⟨n, v⟩, hmem, rfl⟩
    obtain ⟨hentry, hquotable⟩ := List.mem_filter.mp hmem
    exact ⟨v, mem_toList_values.mp hentry, by simpa using hquotable⟩
  · rintro ⟨v, hentry, hquotable⟩
    exact ⟨(n, v), List.mem_filter.mpr ⟨mem_toList_values.mpr hentry, by simp [hquotable]⟩, rfl⟩

end Restore

/-- Whatever was done with a snapshot, a name is handed out once until it is unasked without a value
or all is cleared, the value of a name is the first answer for it, the document of the snapshot
gives the snapshot, and a restore has one command for each value that can be quoted and none
besides. -/
theorem snapshot_keeps (calls : List Call) :
    (∀ front e back, (run Log.step {} calls).entries = front ++ e :: back → e.Told front) ∧
      (∀ n v, (run Log.step {} calls).snapshot.values[n]? = some v ↔
        FirstAnswer (run Log.step {} calls).entries n v) ∧
      Snapshot.fromJson ((run Log.step {} calls).snapshot.toJson true) true =
        some (run Log.step {} calls).snapshot ∧
      (∀ n v, FirstAnswer (run Log.step {} calls).entries n v → quotableValue v = true →
        (run Log.step {} calls).snapshot.restoreCommands.1.count (Snapshot.command (n, v)) = 1) ∧
      (∀ c ∈ (run Log.step {} calls).snapshot.restoreCommands.1, ∃ n v,
        FirstAnswer (run Log.step {} calls).entries n v ∧ quotableValue v = true ∧
        c = Snapshot.command (n, v)) ∧
      ∀ n, n ∈ (run Log.step {} calls).snapshot.restoreCommands.2 ↔
        ∃ v, FirstAnswer (run Log.step {} calls).entries n v ∧ quotableValue v = false := by
  have hsound : (run Log.step {} calls).Sound :=
    run_invariant sound_new fun c _ _ h => sound_step h c
  refine ⟨hsound.told, hsound.values, fromJson_toJson hsound.known hsound.lower, ?_, ?_, ?_⟩
  · intro n v hfirst hquotable
    apply List.count_eq_one_of_mem (nodup_restoreCommands _)
    exact mem_restoreCommands.mpr ⟨n, v, (hsound.values n v).mpr hfirst, hquotable, rfl⟩
  · intro c hc
    obtain ⟨n, v, hvalue, hquotable, rfl⟩ := mem_restoreCommands.mp hc
    exact ⟨n, v, (hsound.values n v).mp hvalue, hquotable, rfl⟩
  · intro n
    simp only [mem_skipped, hsound.values]

end CvarSnapshot

end ReadyUp.Match
