import ReadyUp.Config.Minijson
import ReadyUp.Fleet.JsonRoundTrip
import ReadyUp.Status.Wire

/-!
# Payloads that the plugins read

The fleet plugin writes a payload again with its own writer before it hands it on. The match plugin
reads that text with the reader of the status library, and the GOTV plugin with the small one. What
any reader of the grammar makes of it is `readAs` (`parse_dump_of_fits`), so what one of the two
finds as a string the other one finds as well.
-/
namespace ReadyUp.Fleet.JsonText

open Support JsonScan JsonGrammar

section Read

variable {α : Type} (D : Dialect α) (num : NumToken → Option α)

mutual

/-- What a reader makes of the text of a value, given what it makes of the numbers. -/
def readAs : Value → Option α
  | .null => some D.null
  | .bool b => some (D.bool b)
  | .int i => num (intToken i)
  | .num n => if n.isFinite then num n.format17 else some D.null
  | .str s => some (D.str s)
  | .obj o => (readMembersAs o).map D.obj
  | .arr a => (readItemsAs a).map D.arr

def readMembersAs : List (Bytes × Value) → Option (List (Bytes × α))
  | [] => some []
  | (k, v) :: o => (readAs v).bind fun x => (readMembersAs o).map ((k, x) :: ·)

def readItemsAs : List Value → Option (List α)
  | [] => some []
  | v :: a => (readAs v).bind fun x => (readItemsAs a).map (x :: ·)

end

/-- The members of an object with their texts and what is read of them. -/
def memberReads (o : List (Bytes × Value)) : List (Bytes × Bytes × Option α) :=
  o.map fun kv => (kv.1, dump kv.2, readAs D num kv.2)

def itemReads (a : List Value) : List (Bytes × Option α) := a.map fun v => (dump v, readAs D num v)

theorem keys_memberReads (o : List (Bytes × Value)) : keys (memberReads D num o) = keys o := by
  rw [keys, memberReads, List.map_map]
  rfl

theorem memberTexts_memberReads (o : List (Bytes × Value)) :
    Dialect.memberTexts (memberReads D num o) = dumpMembers o := by
  induction o with
  | nil => simp [memberReads, Dialect.memberTexts, dumpMembers]
  | cons kv o ih =>
    obtain ⟨k, v⟩ := kv
    have hempty : (memberReads D num o).isEmpty = o.isEmpty := List.isEmpty_map
    rw [dumpMembers, ← ih, ← hempty]
    rfl

theorem itemTexts_itemReads (a : List Value) :
    Dialect.itemTexts (itemReads D num a) = dumpItems a := by
  induction a with
  | nil => simp [itemReads, Dialect.itemTexts, dumpItems]
  | cons v a ih =>
    have hempty : (itemReads D num a).isEmpty = a.isEmpty := List.isEmpty_map
    rw [dumpItems, ← ih, ← hempty]
    rfl

theorem memberValues_memberReads (o : List (Bytes × Value)) :
    Dialect.memberValues (memberReads D num o) = readMembersAs D num o := by
  induction o with
  | nil => simp [memberReads, Dialect.memberValues, readMembersAs]
  | cons kv o ih =>
    obtain ⟨k, v⟩ := kv
    rw [readMembersAs, ← ih]
    rfl

theorem itemValues_itemReads (a : List Value) :
    Dialect.itemValues (itemReads D num a) = readItemsAs D num a := by
  induction a with
  | nil => simp [itemReads, Dialect.itemValues, readItemsAs]
  | cons v a ih =>
    rw [readItemsAs, ← ih]
    rfl

/-- The reader takes the numbers as `num` says. -/
def ReadsNumbers : Prop :=
  ∀ n : NumToken, n.WellFormed → ∀ t, Dialect.Ends t → D.number (n.text ++ t) = (num n).map (·, t)

theorem reads_dump (hnum : ReadsNumbers D num) {levels : ℕ} {v : Value} (h : Fits levels v) :
    D.Reads levels (dump v) (readAs D num v) := by
  have htoken : ∀ {levels : ℕ} {n : NumToken}, n.WellFormed → D.Reads (levels + 1) n.text (num n) :=
    fun hn => .num (Status.Json.startsNumber_text hn) (hnum _ hn)
  induction h with
  | null =>
    rw [dump, readAs]
    exact .null
  | @bool _ b =>
    have hdump : dump (.bool b) = ascii (if b then "true" else "false") := by
      cases b <;> simp [dump]
    rw [hdump, readAs]
    exact .bool b
  | @int _ i =>
    rw [dump, readAs, ← intToken_text]
    exact htoken (intToken_wellFormed i)
  | @num _ n =>
    rw [dump, readAs]
    split_ifs
    · exact htoken n.format17_wellFormed
    · exact .null
  | str =>
    rw [dump, readAs]
    exact .str _
  | obj hkeys _ ih =>
    rw [dump, readAs, ← memberTexts_memberReads D num, ← memberValues_memberReads]
    refine .obj (by rwa [keys_memberReads D num]) ?_
    intro m hmem
    obtain ⟨⟨k, v⟩, hv, rfl⟩ := List.mem_map.mp hmem
    exact ih k v hv
  | arr _ ih =>
    rw [dump, readAs, ← itemTexts_itemReads D num, ← itemValues_itemReads]
    refine .arr ?_
    intro m hmem
    obtain ⟨v, hv, rfl⟩ := List.mem_map.mp hmem
    exact ih v hv

end Read

section Levels

theorem length_dump_le_items {a : List Value} {v : Value} (h : v ∈ a) :
    (dump v).length ≤ (dumpItems a).length := by
  induction a with
  | nil => cases h
  | cons w a ih =>
    rw [dumpItems]
    simp only [List.length_append]
    rcases List.mem_cons.mp h with rfl | hmem
    · omega
    · have hrest := ih hmem
      have hne : a.isEmpty = false := by
        cases a with
        | nil => cases hmem
        | cons _ _ => rfl
      simp only [hne, Bool.false_eq_true, if_false, List.length_cons]
      omega

theorem Fits.length_dump {levels : ℕ} {v : Value} (h : Fits levels v) :
    Fits ((dump v).length + 1) v := by
  induction h with
  | null => exact .null
  | bool => exact .bool
  | int hi => exact .int hi
  | num hn => exact .num hn
  | str => exact .str
  | obj hkeys _ ih =>
    refine .obj hkeys fun k v hmem => (ih k v hmem).mono ?_
    have hle := length_dump_le_members hmem
    rw [dump]
    simp only [List.length_cons, List.length_append]
    omega
  | arr _ ih =>
    refine .arr fun v hmem => (ih v hmem).mono ?_
    have hle := length_dump_le_items hmem
    rw [dump]
    simp only [List.length_cons, List.length_append]
    omega

end Levels

section Plugins

variable {levels : ℕ} {v : Value}

/-- What the small reader makes of a number. -/
def miniNumber (n : NumToken) : Option Config.Minijson.Value :=
  if Config.Minijson.rangeError n.value then none else some (.number n.strtod)

/-- What the small reader makes of a payload. -/
def toMini (v : Value) : Option Config.Minijson.Value := readAs Config.Minijson.dialect miniNumber v

/-- What the reader of the status library makes of a payload. -/
def toStatus (v : Value) : Option Status.Json :=
  readAs Status.Json.dialect (fun n => some (Status.Json.ofToken n)) v

theorem parse_mini (h : Fits levels v) : Config.Minijson.parse (dump v) = toMini v := by
  refine (reads_dump Config.Minijson.dialect miniNumber (fun n hn t ht => ?_) h.length_dump).parse
  exact Config.Minijson.parseNumber_text hn ht.numEnd

theorem parse_status (h : Fits levels v) (hlevels : levels ≤ 65) :
    Status.Json.parse (dump v) = toStatus v :=
  (reads_dump Status.Json.dialect (fun n => some (Status.Json.ofToken n))
    (fun _ hn _ ht => Status.Json.number_text hn ht) (h.mono hlevels)).parse

theorem lookup_of_readMembersAs {α : Type} {D : Dialect α} {num : NumToken → Option α}
    {o : List (Bytes × Value)}
    {x : List (Bytes × α)} (h : readMembersAs D num o = some x) (k : Bytes) :
    x.lookup k = (o.lookup k).bind (readAs D num) := by
  induction o generalizing x with
  | nil =>
    obtain rfl : [] = x := Option.some.inj h
    rfl
  | cons kv o ih =>
    obtain ⟨j, v⟩ := kv
    rw [readMembersAs, Option.bind_eq_some_iff] at h
    obtain ⟨y, hy, hrest⟩ := h
    obtain ⟨x', hx', rfl⟩ := Option.map_eq_some_iff.mp hrest
    rw [lookup_cons_eq, lookup_cons_eq]
    split_ifs
    · exact hy.symm
    · exact ih hx'

theorem number_of_miniNumber {n : NumToken} {x : Config.Minijson.Value}
    (h : miniNumber n = some x) : ∃ d, x = .number d := by
  rw [miniNumber] at h
  split_ifs at h
  exact ⟨_, (Option.some.inj h).symm⟩

/-- A string is read from a string only, and an object from an object only. -/
theorem toMini_shape {x : Config.Minijson.Value} (h : toMini v = some x) :
    (∀ s, x = .string s → v = .str s) ∧
      ∀ o', x = .object o' → ∃ o, v = .obj o ∧
        readMembersAs Config.Minijson.dialect miniNumber o = some o' := by
  rw [toMini] at h
  cases v with
  | obj o =>
    rw [readAs] at h
    obtain ⟨x', hx', rfl⟩ := Option.map_eq_some_iff.mp h
    refine ⟨fun s hs => (by cases hs), fun o' ho' => ⟨o, rfl, ?_⟩⟩
    cases ho'
    exact hx'
  | arr a =>
    rw [readAs] at h
    obtain ⟨x', -, rfl⟩ := Option.map_eq_some_iff.mp h
    exact ⟨fun s hs => (by cases hs), fun o' ho' => (by cases ho')⟩
  | int i =>
    rw [readAs] at h
    obtain ⟨d, rfl⟩ := number_of_miniNumber h
    exact ⟨fun s hs => (by cases hs), fun o' ho' => (by cases ho')⟩
  | num n =>
    rw [readAs] at h
    split_ifs at h
    · obtain ⟨d, rfl⟩ := number_of_miniNumber h
      exact ⟨fun s hs => (by cases hs), fun o' ho' => (by cases ho')⟩
    · cases h
      exact ⟨fun s hs => (by cases hs), fun o' ho' => (by cases ho')⟩
  | str t =>
    rw [readAs] at h
    cases h
    refine ⟨fun s hs => ?_, fun o' ho' => (by cases ho')⟩
    cases hs
    rfl
  | _ =>
    rw [readAs] at h
    cases h
    exact ⟨fun s hs => (by cases hs), fun o' ho' => (by cases ho')⟩

/-- A string member that the small reader finds is the one that the status library finds. -/
theorem find_of_get {key : String} {s : Bytes} {x : Config.Minijson.Value} {y : Status.Json}
    (hx : toMini v = some x) (hy : toStatus v = some y) (h : x.get key = some (.string s)) :
    y.find (ascii key) = some (.string s) := by
  cases x with
  | object o₁ =>
    obtain ⟨o, rfl, ho₁⟩ := (toMini_shape hx).2 o₁ rfl
    rw [toStatus, readAs] at hy
    obtain ⟨o₂, ho₂, rfl⟩ := Option.map_eq_some_iff.mp hy
    have hmini : o₁.lookup (ascii key) = some (.string s) := h
    rw [lookup_of_readMembersAs ho₁, Option.bind_eq_some_iff] at hmini
    obtain ⟨w, hw, hread⟩ := hmini
    rw [(toMini_shape hread).1 s rfl] at hw
    have hstatus : o₂.lookup (ascii key) = some (.string s) := by
      rw [lookup_of_readMembersAs ho₂, hw]
      simp [readAs, Status.Json.dialect]
    exact hstatus
  | _ => cases h

end Plugins

end ReadyUp.Fleet.JsonText
