import ReadyUp.Status.JsonSyntax
import ReadyUp.Support.Files
import ReadyUp.Support.JsonLayout

/-!
# Small JSON files

A file of the store is one object with a schema version. `save` writes it under a new name and
renames it, `load` reads it back and moves a file that it cannot use out of the way. Objects are
written with one member on a line; the items of an array are written by the compact writer, one on a
line. The reader skips all of that white space (`parse_pretty`), so a document comes back as it was
saved, with the version in front, as long as its text is not too large for `readAll`
(`store_roundTrip`).
-/
namespace ReadyUp.Status.Json

open Support JsonScan JsonGrammar JsonTree

section Pretty

def indent (d : ℕ) : Bytes := List.replicate (d * 2) (byte ' ')

/-- The items of an array, one on a line. -/
def prettyItems (d : ℕ) : List Json → Bytes
  | [] => []
  | v :: vs => indent d ++ (dump v ++ if vs.isEmpty then [] else byte ',' :: 10 :: prettyItems d vs)

mutual

def prettyTo (d : ℕ) : Json → Bytes
  | .object [] => ascii "\x7b\x7d"
  | .object ms => byte '{' :: 10 :: (prettyMembers (d + 1) ms ++ 10 :: (indent d ++ [byte '}']))
  | .array [] => ascii "[]"
  | .array vs => byte '[' :: 10 :: (prettyItems (d + 1) vs ++ 10 :: (indent d ++ [byte ']']))
  | v => dump v

def prettyMembers (d : ℕ) : List (Bytes × Json) → Bytes
  | [] => []
  | (k, v) :: ms =>
    indent d ++ (quoted k ++ byte ':' :: byte ' ' :: (prettyTo d v ++
      if ms.isEmpty then [] else byte ',' :: 10 :: prettyMembers d ms))

end

def pretty (v : Json) : Bytes := prettyTo 0 v ++ [10]

theorem blank_indent (d : ℕ) : Node.Blank (indent d) := by
  intro c hc
  rw [(List.mem_replicate.mp hc).2]
  decide

theorem blank_line (d : ℕ) : Node.Blank (10 :: indent d) :=
  List.forall_mem_cons.mpr ⟨by decide, blank_indent d⟩

theorem blank_space : Node.Blank [byte ' '] := List.forall_mem_singleton.mpr (by decide)

theorem blank_nil : Node.Blank ([] : Bytes) := List.forall_mem_nil _

theorem dumpMembers_eq (ms : List (Bytes × Json)) :
    dumpMembers ms = layMembers [] [] [] dump ms := by
  induction ms with
  | nil => rfl
  | cons kv ms ih =>
    obtain ⟨k, v⟩ := kv
    rw [dumpMembers, layMembers, ih]
    rfl

theorem dumpItems_eq (vs : List Json) : dumpItems vs = layItems [] [] dump vs := by
  induction vs with
  | nil => rfl
  | cons v vs ih =>
    rw [dumpItems, layItems, ih]
    rfl

/-- The lines of an object, from the end of the first one to the indentation of the last one. -/
theorem prettyMembers_eq (d e : ℕ) {ms : List (Bytes × Json)} (hms : ms ≠ []) :
    10 :: (prettyMembers e ms ++ 10 :: indent d) =
      layMembers (10 :: indent e) [byte ' '] (10 :: indent d) (prettyTo e) ms := by
  induction ms with
  | nil => exact absurd rfl hms
  | cons kv ms ih =>
    obtain ⟨k, v⟩ := kv
    rw [prettyMembers, layMembers]
    cases ms with
    | nil => simp
    | cons kv ms =>
      rw [← ih (by simp)]
      simp

theorem prettyItems_eq (d e : ℕ) {vs : List Json} (hvs : vs ≠ []) :
    10 :: (prettyItems e vs ++ 10 :: indent d) =
      layItems (10 :: indent e) (10 :: indent d) dump vs := by
  induction vs with
  | nil => exact absurd rfl hvs
  | cons v vs ih =>
    rw [prettyItems, layItems]
    cases vs with
    | nil => simp
    | cons w vs =>
      rw [← ih (by simp)]
      simp

end Pretty

section Spelled

theorem numValue_toDecimal {i : ℤ} (h : InInt64 i) :
    lexis.number (toDecimal i) = some (.int i) := by
  show numValue (toDecimal i) = some (.int i)
  rw [numValue, wholeInt_toDecimal]
  simp only [toInt_intToken, if_pos h]

theorem Plain.member {ms : List (Bytes × Json)} (h : (object ms).Plain) {k : Bytes} {v : Json}
    (hmem : (k, v) ∈ ms) : v.Plain :=
  ⟨(uniqueKeys_object.mp h.uniqueKeys).2 k v hmem, (all_object.mp h.inRange).2 k v hmem,
    (all_object.mp h.noDoubles).2 k v hmem⟩

theorem Plain.item {vs : List Json} (h : (array vs).Plain) {v : Json} (hmem : v ∈ vs) : v.Plain :=
  ⟨uniqueKeys_array.mp h.uniqueKeys v hmem, (all_array.mp h.inRange).2 v hmem,
    (all_array.mp h.noDoubles).2 v hmem⟩

/-- An object is spelled by the texts of its members, whatever the white space. -/
theorem spelled_lay {front sep back : Bytes} (hfront : Node.Blank front) (hsep : Node.Blank sep)
    (hback : Node.Blank back)
    {text : Json → Bytes} {ms : List (Bytes × Json)} {n : ℕ} (hplain : (object ms).Plain)
    (hdepth : (object ms).depth ≤ n)
    (hval : ∀ kv ∈ ms, ∀ m, kv.2.Plain → kv.2.depth ≤ m → lexis.Spelled (m + 1) (text kv.2) kv.2) :
    lexis.Spelled (n + 1) (byte '{' :: (layMembers front sep back text ms ++ [byte '}']))
      (object ms) := by
  refine Lexis.spelled_object hfront hsep hback (uniqueKeys_object.mp hplain.uniqueKeys).1
    fun kv hkv => ?_
  have hlevel := depthMembers_le.mp hdepth kv.1 kv.2 hkv
  obtain ⟨m, rfl⟩ := Nat.exists_eq_add_of_le' (Nat.one_le_of_lt hlevel)
  exact hval kv hkv m (hplain.member hkv) (Nat.le_of_succ_le_succ hlevel)

theorem spelled_layItems {front back : Bytes} (hfront : Node.Blank front) (hback : Node.Blank back)
    {text : Json → Bytes}
    {vs : List Json} {n : ℕ} (hplain : (array vs).Plain) (hdepth : (array vs).depth ≤ n)
    (hval : ∀ v ∈ vs, ∀ m, v.Plain → v.depth ≤ m → lexis.Spelled (m + 1) (text v) v) :
    lexis.Spelled (n + 1) (byte '[' :: (layItems front back text vs ++ [byte ']'])) (array vs) := by
  refine Lexis.spelled_array hfront hback fun v hv => ?_
  have hlevel := depthItems_le.mp hdepth v hv
  obtain ⟨m, rfl⟩ := Nat.exists_eq_add_of_le' (Nat.one_le_of_lt hlevel)
  exact hval v hv m (hplain.item hv) (Nat.le_of_succ_le_succ hlevel)

theorem spelled_dump {v : Json} (hplain : v.Plain) {n : ℕ} (hdepth : v.depth ≤ n) :
    lexis.Spelled (n + 1) v.dump v := by
  induction v generalizing n with
  | null => exact Lexis.spelled_null
  | bool b => exact Lexis.spelled_bool b
  | int i => exact Lexis.spelled_number (numValue_toDecimal (of_decide_eq_true hplain.inRange))
  | double d => cases hplain.noDoubles
  | string s => exact Lexis.spelled_string s
  | object ms ih =>
    rw [dump, dumpMembers_eq]
    exact spelled_lay blank_nil blank_nil blank_nil hplain hdepth fun kv hkv m hv hm =>
      ih kv.1 kv.2 hkv hv hm
  | array vs ih =>
    rw [dump, dumpItems_eq]
    exact spelled_layItems blank_nil blank_nil hplain hdepth fun v hv m hplain hm =>
      ih v hv hplain hm

theorem spelled_prettyTo {v : Json} (hplain : v.Plain) (d : ℕ) {n : ℕ} (hdepth : v.depth ≤ n) :
    lexis.Spelled (n + 1) (prettyTo d v) v := by
  induction v generalizing d n with
  | object ms ih =>
    cases ms with
    | nil => exact spelled_dump hplain hdepth
    | cons kv ms =>
      have hlay := spelled_lay (blank_line (d + 1)) blank_space (blank_line d) hplain
        hdepth fun kv hkv m hv hm => ih kv.1 kv.2 hkv hv (d + 1) hm
      rw [← prettyMembers_eq d (d + 1) (List.cons_ne_nil _ _)] at hlay
      simpa [prettyTo] using hlay
  | array vs _ =>
    cases vs with
    | nil => exact spelled_dump hplain hdepth
    | cons v vs =>
      have hlay := spelled_layItems (blank_line (d + 1)) (blank_line d) hplain hdepth
        fun v _ m hv hm => spelled_dump hv hm
      rw [← prettyItems_eq d (d + 1) (List.cons_ne_nil _ _)] at hlay
      simpa [prettyTo] using hlay
  | _ => exact spelled_dump hplain hdepth

theorem parse_pretty {v : Json} (hplain : v.Plain) (hdepth : v.depth ≤ 64) :
    parse v.pretty = some v :=
  (spelled_prettyTo hplain 0 hdepth).parse blank_nil (blank_line 0)

end Spelled

theorem foldl_set {l ms : List (Bytes × Json)} (h : (keys ms ++ keys l).Nodup) :
    l.foldl (fun v kv => v.set kv.1 kv.2) (object ms) = object (ms ++ l) := by
  induction l generalizing ms with
  | nil => simp
  | cons kv l ih =>
    have hnew : kv.1 ∉ keys ms := by
      intro hmem
      exact (List.nodup_append.mp h).2.2 _ hmem _ List.mem_cons_self rfl
    rw [List.foldl_cons, set, members_object, assign_of_notMem hnew, ih, List.append_assoc]
    · rfl
    · rw [keys, List.map_append, List.append_assoc]
      exact h

end ReadyUp.Status.Json

namespace ReadyUp.Status.JsonStore

open Support JsonScan Files

section Load

def maxText : ℕ := 64 * 2 ^ 20

def readAll (content : Bytes) : Option Bytes := readUpTo 16384 maxText content

inductive LoadResult where
  | ok (doc : Json)
  | missing
  | corrupt

/-- The document has a version that this build understands. -/
def versionOk (maxVersion : ℤ) (doc : Json) : Bool :=
  match doc.find (ascii "version") with
  | some (.int n) => 1 ≤ n ∧ n ≤ maxVersion
  | _ => false

/-- What `Load` makes of the text of a file. -/
def accepted (maxVersion : ℤ) (text : Bytes) : Option Json :=
  (Json.parse text).bind fun doc =>
    if doc.isObject && versionOk maxVersion doc then some doc else none

/-- What the calls of `Load` meet: the file can be read, the file can be moved, and the time. -/
structure LoadCalls where
  readable : Bool := true
  movable : Bool := true
  now : ℤ := 0

/-- `Load`: the file is moved aside when it is of no use. -/
def load (disk : Disk) (path : Bytes) (maxVersion : ℤ) (calls : LoadCalls) : LoadResult × Disk :=
  match disk.lookup path with
  | none => (.missing, disk)
  | some content =>
    match (if calls.readable then readAll content else none).bind (accepted maxVersion) with
    | some doc => (.ok doc, disk)
    | none =>
      (.corrupt,
        if calls.movable then
          rename disk path (path ++ ascii ".corrupt-" ++ toDecimal calls.now)
        else disk)

end Load

section Save

/-- What the calls of `Save` meet. -/
structure SaveCalls extends Calls where
  dirs : Bool := true
  pid : ℕ := 1
  counter : ℕ := 1

/-- The document with its version in front. -/
def stamped (doc : Json) (version : ℤ) : Json :=
  doc.members.foldl (fun out kv => if kv.1 ≠ ascii "version" then out.set kv.1 kv.2 else out)
    ((Json.object []).set (ascii "version") (.int version))

def tmpPath (path : Bytes) (calls : SaveCalls) : Bytes :=
  path ++ ascii ".tmp." ++ decimal calls.pid ++ ascii "." ++ decimal calls.counter

def save (disk : Disk) (path : Bytes) (doc : Json) (version : ℤ) (calls : SaveCalls) :
    Bool × Disk :=
  if !calls.dirs then (false, disk)
  else writeBehind disk path (tmpPath path calls) (stamped doc version).pretty calls.toCalls

/-- Who reads the file sees the old text or the whole new one. -/
theorem lookup_save (disk : Disk) (path : Bytes) (doc : Json) (version : ℤ) (calls : SaveCalls) :
    (save disk path doc version calls).2.lookup path =
      if (save disk path doc version calls).1 then some (stamped doc version).pretty
      else disk.lookup path := by
  have htmp : path ≠ tmpPath path calls := by
    intro h
    have hlen := congrArg List.length h
    simp only [tmpPath, List.length_append] at hlen
    have hdot : (ascii ".tmp.").length = 5 := by decide
    omega
  cases hdirs : calls.dirs with
  | false => simp [save, hdirs]
  | true =>
    have hwrite := lookup_writeBehind disk htmp (stamped doc version).pretty calls.toCalls
    simpa [save, hdirs] using hwrite

end Save

section RoundTrip

theorem foldl_skip {l : List (Bytes × Json)} {k : Bytes} (out : Json) :
    l.foldl (fun out kv => if kv.1 ≠ k then out.set kv.1 kv.2 else out) out =
      (l.filter (·.1 ≠ k)).foldl (fun out kv => out.set kv.1 kv.2) out := by
  rw [List.foldl_filter]
  simp only [decide_eq_true_eq]

/-- The version stands in front, and a version among the members is gone. -/
theorem stamped_eq {doc : Json} (hkeys : (keys doc.members).Nodup) (version : ℤ) :
    stamped doc version =
      .object ((ascii "version", .int version) :: doc.members.filter (·.1 ≠ ascii "version")) := by
  have hsub : (keys (doc.members.filter (·.1 ≠ ascii "version"))).Nodup :=
    (List.filter_sublist.map _).nodup hkeys
  have hnew : ascii "version" ∉ keys (doc.members.filter (·.1 ≠ ascii "version")) := by
    rintro hmem
    obtain ⟨kv, hkv, heq⟩ := List.mem_map.mp hmem
    exact of_decide_eq_true (List.mem_filter.mp hkv).2 heq
  rw [stamped, foldl_skip]
  exact Json.foldl_set (List.nodup_cons.mpr ⟨hnew, hsub⟩)

/-- A document that can be written and read: an object without doubles, and not nested too deep. -/
structure Storable (doc : Json) : Prop where
  isObject : doc.isObject = true
  plain : doc.Plain
  depth : doc.depth ≤ 64

theorem Storable.exists_members {doc : Json} (h : Storable doc) : ∃ ms, doc = .object ms := by
  have hobject := h.isObject
  cases doc with
  | object ms => exact ⟨ms, rfl⟩
  | _ => cases hobject

variable {doc : Json} {version : ℤ}

/-- What is saved of a document can be written and read too. -/
theorem Storable.stamped (h : Storable doc) (hversion : InInt64 version) :
    Storable (stamped doc version) := by
  obtain ⟨ms, rfl⟩ := h.exists_members
  have hunique : (keys ms).Nodup := (Json.uniqueKeys_object.mp h.plain.uniqueKeys).1
  have hdepth := Json.depthMembers_le.mp h.depth
  have hmem : ∀ kv ∈ (ascii "version", Json.int version) :: ms.filter (·.1 ≠ ascii "version"),
      kv = (ascii "version", Json.int version) ∨ kv ∈ ms := fun kv hkv =>
    (List.mem_cons.mp hkv).imp_right List.mem_of_mem_filter
  have hkeys :
      (keys ((ascii "version", Json.int version) :: ms.filter (·.1 ≠ ascii "version"))).Nodup := by
    refine List.nodup_cons.mpr ⟨fun hmem => ?_, (List.filter_sublist.map _).nodup hunique⟩
    obtain ⟨kv, hkv, heq⟩ := List.mem_map.mp hmem
    exact of_decide_eq_true (List.mem_filter.mp hkv).2 heq
  rw [@stamped_eq (.object ms) hunique]
  refine ⟨rfl, Json.plain_object hkeys fun k v hkv => ?_, Json.depth_object_le fun kv hkv => ?_⟩
  · rcases hmem _ hkv with heq | hkv
    · rw [(Prod.mk.inj heq).2]
      exact Json.plain_int hversion
    · exact h.plain.member hkv
  · rcases hmem _ hkv with rfl | hkv
    · exact (by decide : (0 : ℕ) + 1 ≤ 64)
    · exact hdepth kv.1 kv.2 hkv

theorem versionOk_stamped (h : Storable doc) {maxVersion : ℤ} (hlow : 1 ≤ version)
    (hhigh : version ≤ maxVersion) : versionOk maxVersion (stamped doc version) = true := by
  rw [stamped_eq (Json.uniqueKeys_members h.plain.uniqueKeys).1]
  simp [versionOk, Json.find, hlow, hhigh]

theorem load_of_saved (h : Storable doc) {maxVersion : ℤ} (hlow : 1 ≤ version)
    (hhigh : version ≤ maxVersion) (hmax : InInt32 maxVersion) {disk : Disk} {path : Bytes}
    (hfile : disk.lookup path = some (stamped doc version).pretty) (calls : LoadCalls)
    (hread : calls.readable = true) : (load disk path maxVersion calls) =
      if (stamped doc version).pretty.length ≤ maxText then (.ok (stamped doc version), disk)
      else (.corrupt,
        if calls.movable then
          rename disk path (path ++ ascii ".corrupt-" ++ toDecimal calls.now)
        else disk) := by
  have hversion : InInt64 version := by
    unfold InInt64 InInt32 at *
    omega
  have hstored := h.stamped hversion
  have htaken : accepted maxVersion (stamped doc version).pretty = some (stamped doc version) := by
    rw [accepted, Json.parse_pretty hstored.plain hstored.depth, Option.bind_some, hstored.isObject,
      versionOk_stamped h hlow hhigh]
    rfl
  rw [load, hfile]
  simp only [hread, if_true, readAll, readUpTo_eq (show 0 < 16384 by decide)]
  by_cases hlen : (stamped doc version).pretty.length ≤ maxText
  · simp only [if_pos hlen, Option.bind_some, htaken]
  · simp only [if_neg hlen, Option.bind_none]

/-- The text of a value comes back as the value. A document that was saved comes back with its
members and the version, if the text has at most 64 MiB; a larger file is refused and moved
aside. -/
theorem store_roundTrip :
    (∀ v : Json, v.Plain → v.depth ≤ 64 → Json.parse v.pretty = some v ∧ v.eq v = true) ∧
      ∀ (disk disk' : Disk) (path : Bytes) (doc : Json) (version maxVersion : ℤ)
        (saving : SaveCalls)
        (loading : LoadCalls), Storable doc → 1 ≤ version → version ≤ maxVersion →
          InInt32 maxVersion →
        save disk path doc version saving = (true, disk') → loading.readable = true →
        stamped doc version =
            .object ((ascii "version", .int version) :: doc.members.filter
              (·.1 ≠ ascii "version")) ∧
          load disk' path maxVersion loading =
            if (stamped doc version).pretty.length ≤ maxText then (.ok (stamped doc version), disk')
            else (.corrupt,
              if loading.movable then
                rename disk' path (path ++ ascii ".corrupt-" ++ toDecimal loading.now)
              else disk') := by
  refine ⟨fun v hplain hdepth => ⟨Json.parse_pretty hplain hdepth,
    Json.eq_refl hplain.uniqueKeys (Json.noNaN_of_noDoubles hplain.noDoubles)⟩, ?_⟩
  intro disk disk' path doc version maxVersion saving loading h hlow hhigh hmax hsave hread
  have hfile := lookup_save disk path doc version saving
  rw [hsave, if_pos rfl] at hfile
  exact ⟨stamped_eq (Json.uniqueKeys_members h.plain.uniqueKeys).1 version,
    load_of_saved h hlow hhigh hmax hfile loading hread⟩

/-- Two admins, and a version of the document's own. -/
def admins : Json :=
  .object [(ascii "admins", .array [.string (ascii "a"), .object []]), (ascii "version", .int 7),
    ([], .object [([0], .null)])]

/-- The text is written in two pieces, with an interrupt between them. -/
def savingAdmins : SaveCalls := { writes := [.wrote 5, .interrupted, .wrote 200] }

theorem store_roundTrip_admins :
    Json.parse admins.pretty = some admins ∧
      load (save ∅ (ascii "a.json") admins 1 savingAdmins).2 (ascii "a.json") 2 {} =
        (.ok (stamped admins 1), (save ∅ (ascii "a.json") admins 1 savingAdmins).2) := by
  have hstorable : Storable admins := ⟨rfl, ⟨by decide, by decide, by decide⟩, by decide⟩
  have hsaved : (save ∅ (ascii "a.json") admins 1 savingAdmins).1 = true := by decide
  have hlen : (stamped admins 1).pretty.length ≤ 200 := by decide
  have hload :=
    (store_roundTrip.2 ∅ _ (ascii "a.json") admins 1 2 savingAdmins {} hstorable
      (by decide) (by decide)
    (by decide) (Prod.ext hsaved rfl) rfl).2
  rw [if_pos (hlen.trans (by decide))] at hload
  exact ⟨(store_roundTrip.1 admins hstorable.plain hstorable.depth).1, hload⟩

end RoundTrip

section TooLarge

/-- The calls of a save in which nothing fails. -/
def calm (data : Bytes) : SaveCalls := { toCalls := .calm data }

theorem save_calm (disk : Disk) (path : Bytes) (doc : Json) (version : ℤ) :
    (save disk path doc version (calm (stamped doc version).pretty)).1 = true :=
  writeBehind_calm disk path _ _

def note (text : Bytes) : Json := .object [(ascii "note", .string text)]

theorem storable_note (text : Bytes) : Storable (note text) := by
  refine ⟨rfl, Json.plain_object (List.nodup_singleton _) fun k v hmem =>
    ?_, Json.depth_object_le fun kv hkv => ?_⟩
  · rw [(Prod.mk.inj (List.mem_singleton.mp hmem)).2]
    exact Json.plain_string text
  · rw [List.mem_singleton.mp hkv]
    exact (by decide : (0 : ℕ) + 1 ≤ 64)

theorem length_pretty_note (text : Bytes) :
    text.length < (stamped (note text) 1).pretty.length := by
  have hescaped := JsonScan.length_le_escaped text
  have hstamped := stamped_eq (Json.uniqueKeys_members (storable_note text).plain.uniqueKeys).1 1
  have hmembers : (note text).members.filter (·.1 ≠ ascii "version") = (note text).members := by
    simp only [note, Json.members_object]
    rfl
  rw [hstamped, hmembers, note, Json.members_object, Json.pretty, Json.prettyTo, Json.prettyMembers,
    Json.prettyMembers, Json.prettyTo, Json.prettyTo]
  · simp only [Json.dump, quoted, List.length_append, List.length_cons, List.isEmpty_cons,
      Bool.false_eq_true, if_false]
    omega
  all_goals simp

theorem load_of_large {doc : Json} (h : Storable doc)
    (hlarge : maxText < (stamped doc 1).pretty.length) (path : Bytes) :
    (load (save ∅ path doc 1 (calm (stamped doc 1).pretty)).2 path 1 {}).1 = .corrupt := by
  have hfile := lookup_save ∅ path doc 1 (calm (stamped doc 1).pretty)
  rw [if_pos (save_calm ∅ path doc 1)] at hfile
  rw [load_of_saved h le_rfl le_rfl (by decide) hfile {} rfl, if_neg (not_le.mpr hlarge)]

def largeText : Bytes := List.replicate maxText 97

/-- The document with that text is saved and then refused. -/
theorem large_note_refused :
    Storable (note largeText) ∧
      (save ∅ [97] (note largeText) 1 (calm (stamped (note largeText) 1).pretty)).1 = true ∧
      (load (save ∅ [97] (note largeText) 1 (calm (stamped (note largeText) 1).pretty)).2
        [97] 1 {}).1 = .corrupt := by
  refine ⟨storable_note largeText, save_calm ∅ [97] (note largeText) 1,
    load_of_large (storable_note largeText) ?_ [97]⟩
  have hlen := length_pretty_note largeText
  rwa [largeText, List.length_replicate] at hlen

end TooLarge

end ReadyUp.Status.JsonStore
