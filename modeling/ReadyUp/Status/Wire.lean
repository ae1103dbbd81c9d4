import ReadyUp.Status.JsonText
import ReadyUp.Status.MergeCarry

/-!
# What a text says

A value that was written and read again is not always the value: doubles are written with ten
digits, and those that are not finite as null. `wire` is what is read (`read_dump`), by a reader
that takes any nesting. Two values with one text are one value to a reader, and `wire` goes
through objects member by member, so that merge patches carry it (`reshapes_wire`).
-/
namespace ReadyUp.Status.Json

open Support JsonScan JsonGrammar

section Wire

/-- What is read from the text of a number. -/
def ofToken (n : NumToken) : Json :=
  if n.isFloat = false ∧ InInt64 n.toInt then .int n.toInt else .double n.strtod

mutual

/-- What is read from the text of a value. -/
def wire : Json → Json
  | .double d => if d.isFinite then ofToken (d.formatG 10) else .null
  | .object ms => .object (wireMembers ms)
  | .array vs => .array (wireItems vs)
  | v => v

def wireMembers : List (Bytes × Json) → List (Bytes × Json)
  | [] => []
  | (k, v) :: ms => (k, wire v) :: wireMembers ms

def wireItems : List Json → List Json
  | [] => []
  | v :: vs => wire v :: wireItems vs

end

attribute [local simp] wire wireMembers wireItems

def read (text : Bytes) : Option Json := dialect.parse (text.length + 1) text

theorem wireMembers_eq (ms : List (Bytes × Json)) :
    wireMembers ms = ms.map fun kv => (kv.1, wire kv.2) := by
  induction ms with
  | nil => rfl
  | cons kv ms ih => rw [wireMembers, ih, List.map_cons]

theorem wireItems_eq (vs : List Json) : wireItems vs = vs.map wire := by
  induction vs with
  | nil => rfl
  | cons v vs ih => rw [wireItems, ih, List.map_cons]

theorem isNumByte_of_mem_text {n : NumToken} (h : n.WellFormed) :
    ∀ c ∈ n.text, isNumByte c = true := by
  intro c hc
  rcases byte_of_mem_text h hc with hdigit | hmark
  · exact isNumByte_digit hdigit
  · have hmarks : ∀ c ∈ [byte '-', byte '.', byte 'e', byte '+'], isNumByte c = true :=
      List.all_eq_true.mp (by decide)
    exact hmarks c hmark

theorem number_text {n : NumToken} (h : n.WellFormed) {t : Bytes} (ht : Dialect.Ends t) :
    number (n.text ++ t) = some (ofToken n, t) := by
  have hbytes := isNumByte_of_mem_text h
  obtain ⟨htake, hdrop⟩ := not_isNumByte_of_ends ht
  rw [number, List.takeWhile_append_of_pos hbytes, List.dropWhile_append_of_pos hbytes,
    htake, hdrop, List.append_nil, numValue, wholeInt_text h, wholeFloat_text h, ofToken]
  cases n.isFloat with
  | true => simp
  | false =>
    simp only [Bool.false_eq_true, if_false, true_and]
    split_ifs <;> rfl

theorem readAs_eq_wire (v : Json) :
    readAs dialect (some ∘ .int) (fun d => some (ofToken (d.formatG 10))) v = some (wire v) := by
  induction v with
  | double d =>
    rw [readAs, wire]
    split_ifs <;> rfl
  | object ms ih =>
    have hmembers :
        readMembersAs dialect (some ∘ .int) (fun d => some (ofToken (d.formatG 10))) ms =
        some (wireMembers ms) := by
      induction ms with
      | nil => rfl
      | cons kv ms ihms =>
        obtain ⟨k, v⟩ := kv
        rw [readMembersAs, ih k v List.mem_cons_self,
          ihms fun j w hmem => ih j w (List.mem_cons_of_mem _ hmem), wireMembers]
        rfl
    rw [readAs, hmembers, wire]
    rfl
  | array vs ih =>
    have hitems : readItemsAs dialect (some ∘ .int) (fun d => some (ofToken (d.formatG 10))) vs =
        some (wireItems vs) := by
      induction vs with
      | nil => rfl
      | cons v vs ihvs =>
        rw [readItemsAs, ih v List.mem_cons_self,
          ihvs fun w hmem => ih w (List.mem_cons_of_mem _ hmem), wireItems]
        rfl
    rw [readAs, hitems, wire]
    rfl
  | _ => simp [readAs, wire, dialect]

theorem reads_wire {v : Json} (hkeys : v.UniqueKeys) (hrange : v.InRange) {levels : ℕ}
    (hdepth : v.depth ≤ levels) : dialect.Reads (levels + 1) v.dump (some (wire v)) := by
  have hreads :=
    reads_dump dialect (some ∘ .int) (fun d => some (ofToken (d.formatG 10))) hkeys hrange
    (fun _ hi _ ht => number_toDecimal hi ht)
    (.inr fun d _ => ⟨startsNumber_text (d.formatG_wellFormed 10),
      fun _ ht => number_text (d.formatG_wellFormed 10) ht⟩)
    hdepth
  rwa [readAs_eq_wire] at hreads

theorem read_dump {v : Json} (hkeys : v.UniqueKeys) (hrange : v.InRange) :
    read v.dump = some (wire v) :=
  (reads_wire hkeys hrange v.depth_le_length_dump).parse

theorem parse_dump {v : Json} (hkeys : v.UniqueKeys) (hrange : v.InRange) (hdepth : v.depth ≤ 64) :
    parse v.dump = some (wire v) :=
  (reads_wire hkeys hrange hdepth).parse

theorem find_wire (v : Json) (k : Bytes) : (wire v).find k = (v.find k).map wire := by
  cases v with
  | object ms =>
    rw [wire, find, find, members_object, members_object, wireMembers_eq]
    exact lookup_map wire ms k
  | double d =>
    have hmembers : (wire (.double d)).members = [] := by
      rw [wire]
      split_ifs
      · rw [ofToken]
        split_ifs <;> rfl
      · rfl
    rw [find, hmembers]
    rfl
  | _ => rfl

theorem wire_eq_self {v : Json} (h : v.NoDoubles) : wire v = v := by
  have hread := readAs_eq_wire v
  rw [readAs_eq_self h] at hread
  exact (Option.some.inj hread).symm

end Wire

section Reshaped

theorem isObject_ofToken (n : NumToken) : (ofToken n).isObject = false := by
  rw [ofToken]
  split_ifs <;> rfl

theorem isObject_wire (v : Json) : (wire v).isObject = v.isObject := by
  cases v with
  | double d =>
    rw [wire]
    split_ifs
    · exact isObject_ofToken _
    · rfl
  | object ms => rw [wire]; rfl
  | array vs => rw [wire]; rfl
  | _ => simp [wire]

theorem all_ofToken {p : Json → Bool} (hint : ∀ i, p (.int i) = true)
    (hdouble : ∀ n : NumToken, p (.double n.strtod) = true) (n : NumToken) :
    (ofToken n).all p = true := by
  rw [ofToken]
  split_ifs
  · rw [all, hint]
    all_goals simp
  · rw [all, hdouble]
    all_goals simp

theorem UniqueKeys.wire {v : Json} (h : v.UniqueKeys) : v.wire.UniqueKeys := by
  induction v with
  | double d =>
    rw [Json.wire]
    split_ifs
    · exact all_ofToken (fun _ => rfl) (fun _ => rfl) _
    · rfl
  | object ms ih =>
    obtain ⟨hnodup, hvalues⟩ := uniqueKeys_object.mp h
    rw [Json.wire, wireMembers_eq, uniqueKeys_object, keys_map_snd]
    refine ⟨hnodup, ?_⟩
    intro k w hmem
    obtain ⟨⟨j, v⟩, hv, heq⟩ := List.mem_map.mp hmem
    obtain ⟨rfl, rfl⟩ := Prod.mk.inj heq
    exact ih j v hv (hvalues j v hv)
  | array vs ih =>
    rw [uniqueKeys_array] at h
    rw [Json.wire, wireItems_eq, uniqueKeys_array]
    intro w hmem
    obtain ⟨v, hv, rfl⟩ := List.mem_map.mp hmem
    exact ih v hv (h v hv)
  | _ => simpa [Json.wire] using h

theorem noNaN_wire (v : Json) : v.wire.NoNaN := by
  induction v with
  | double d =>
    rw [wire]
    split_ifs
    · apply all_ofToken (fun _ => rfl)
      intro n
      simp [isNaN, NumToken.strtod, Binary64.isNaN_ofRat]
    · rfl
  | object ms ih =>
    rw [wire, wireMembers_eq, noNaN_object]
    intro k w hmem
    obtain ⟨⟨j, v⟩, hv, heq⟩ := List.mem_map.mp hmem
    obtain ⟨rfl, rfl⟩ := Prod.mk.inj heq
    exact ih j v hv
  | array vs ih =>
    rw [wire, wireItems_eq, noNaN_array]
    intro w hmem
    obtain ⟨v, hv, rfl⟩ := List.mem_map.mp hmem
    exact ih v hv
  | _ => simp [wire, NoNaN, all, isNaN]

theorem ofToken_zero {d : Binary64} (h : d.mag = 0) : ofToken (d.formatG 10) = .int 0 := by
  have hzero : (d.mag : ℕ) = 0 := by rw [h]; rfl
  rw [Binary64.formatG, if_pos hzero, ofToken]
  cases d.neg <;> exact if_pos (by decide)

theorem wire_double_eq {d e : Binary64} (h : d.eq e = true) :
    (wire (.double d)).eq (wire (.double e)) := by
  have hrefl : ∀ d : Binary64, (wire (.double d)).eq (wire (.double d)) = true := fun d =>
    eq_refl (UniqueKeys.wire rfl) (noNaN_wire _)
  simp only [Binary64.eq, Bool.and_eq_true, Bool.or_eq_true, beq_iff_eq] at h
  rcases h.2 with rfl | ⟨hd, he⟩
  · exact hrefl d
  · have hfinite : ∀ x : Binary64, x.mag = 0 → x.isFinite = true := by
      intro x hx
      rw [Binary64.isFinite, hx]
      decide
    rw [wire, wire, if_pos (hfinite d hd), if_pos (hfinite e he), ofToken_zero hd, ofToken_zero he]
    rfl

theorem wire_eq {a b : Json} (ha : a.UniqueKeys) (hb : b.UniqueKeys) (h : a.eq b) :
    a.wire.eq b.wire := by
  induction a generalizing b with
  | double d =>
    cases b with
    | double e => exact wire_double_eq h
    | _ => simp [eq] at h
  | object as ih =>
    cases b with
    | object bs =>
      rw [uniqueKeys_object] at ha hb
      rw [eq_object_iff ha.1 hb.1] at h
      rw [wire, wire, wireMembers_eq, wireMembers_eq,
        eq_object_iff (by rw [keys_map_snd]; exact ha.1) (by rw [keys_map_snd]; exact hb.1)]
      intro k
      rw [lookup_map, lookup_map]
      have hk := h k
      cases hak : as.lookup k with
      | none =>
        rw [hak] at hk
        cases hbk : bs.lookup k with
        | none => exact .none
        | some b =>
          rw [hbk] at hk
          cases hk
      | some a =>
        rw [hak] at hk
        cases hbk : bs.lookup k with
        | none =>
          rw [hbk] at hk
          cases hk
        | some b =>
          rw [hbk] at hk
          cases hk with
          | some hab =>
            have hmem := mem_of_lookup hak
            exact .some (ih k a hmem (ha.2 k a hmem) (hb.2 k b (mem_of_lookup hbk)) hab)
    | _ => simp [eq] at h
  | array as ih =>
    cases b with
    | array bs =>
      rw [uniqueKeys_array] at ha hb
      rw [eq_array] at h
      rw [wire, wire, wireItems_eq, wireItems_eq, eq_array]
      induction h with
      | nil => exact .nil
      | cons hab _ ihitems =>
        refine .cons (ih _ List.mem_cons_self (ha _ List.mem_cons_self)
          (hb _ List.mem_cons_self) hab) ?_
        exact ihitems (fun v hmem => ih v (List.mem_cons_of_mem _ hmem))
          (fun v hmem => ha v (List.mem_cons_of_mem _ hmem))
          (fun v hmem => hb v (List.mem_cons_of_mem _ hmem))
    | _ => simp [eq] at h
  | _ =>
    cases b with
    | double e => simp [eq] at h
    | object bs => simp [eq] at h
    | array bs => simp [eq] at h
    | _ => simpa [wire] using h

theorem reshapes_wire : Reshapes wire where
  null := by simp [wire]
  object ms := by rw [wire, wireMembers_eq]
  isObject := isObject_wire
  uniqueKeys _ h := h.wire
  eq _ _ ha hb h := wire_eq ha hb h

end Reshaped

end ReadyUp.Status.Json
