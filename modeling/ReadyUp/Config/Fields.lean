import ReadyUp.Status.JsonText

/-!
# Objects written member by member

`ofFields` is the object that a function leaves behind which assigns members one after another,
some of them only under a condition. A member has the last value that was assigned to it
(`find_ofFields`), and the object keeps what holds of all of its values.
-/
namespace ReadyUp.Config

open Support Status

section Ascii

/-- Only ASCII characters, so that the bytes tell the text. -/
def isAscii (s : String) : Bool := s.toList.all fun c => c.toNat < 128

theorem ascii_inj {s t : String} (hs : isAscii s = true) (ht : isAscii t = true) :
    ascii s = ascii t ↔ s = t := by
  refine ⟨?_, fun h => h ▸ rfl⟩
  intro h
  rw [isAscii, List.all_eq_true] at hs ht
  have hchar :
      ∀ c d : Char, c.toNat < 128 → d.toNat < 128 → c.toNat.toUInt8 = d.toNat.toUInt8 → c = d := by
    intro c d hc hd heq
    have hnat := congrArg UInt8.toNat heq
    simp only [Nat.toUInt8, UInt8.toNat_ofNat'] at hnat
    exact Char.ext (UInt32.toNat.inj (by simp only [Char.toNat] at *; omega))
  have hlist : s.toList = t.toList := by
    rw [ascii, ascii] at h
    generalize s.toList = l at h hs
    generalize t.toList = l' at h ht
    induction l generalizing l' with
    | nil =>
      cases l' with
      | nil => rfl
      | cons d l' => cases h
    | cons c l ih =>
      cases l' with
      | nil => cases h
      | cons d l' =>
        rw [List.map_cons, List.map_cons, List.cons.injEq] at h
        rw [hchar c d (by simpa using hs c List.mem_cons_self)
          (by simpa using ht d List.mem_cons_self) h.1,
          ih (fun x hx => hs x (List.mem_cons_of_mem _ hx)) l' h.2
            (fun x hx => ht x (List.mem_cons_of_mem _ hx))]
  exact String.toList_injective hlist

end Ascii

/-- `j[key] = v` where there is a value. -/
def setMember (j : Json) (kv : Bytes × Option Json) : Json :=
  match kv.2 with
  | none => j
  | some v => j.set kv.1 v

/-- An object with the members set in order. -/
def ofMembers (l : List (Bytes × Option Json)) : Json := l.foldl setMember (.object [])

/-- The same with keys as they stand in the source. -/
def ofFields (l : List (String × Option Json)) : Json :=
  ofMembers (l.map fun kv => (ascii kv.1, kv.2))

/-- The last value that was assigned. -/
def lastMember (k : Bytes) : List (Bytes × Option Json) → Option Json
  | [] => none
  | (j, v) :: l => (lastMember k l).or (if k = j then v else none)

/-- The last value that was assigned to a field. -/
def lastField (k : String) : List (String × Option Json) → Option Json
  | [] => none
  | (j, v) :: l => (lastField k l).or (if k = j then v else none)

section Find

theorem find_foldl_setMember (l : List (Bytes × Option Json)) (j : Json) (k : Bytes) :
    (l.foldl setMember j).find k = (lastMember k l).or (j.find k) := by
  induction l generalizing j with
  | nil => rfl
  | cons kv l ih =>
    obtain ⟨i, v⟩ := kv
    rw [List.foldl_cons, ih, lastMember, Option.or_assoc]
    cases v with
    | none => simp [setMember]
    | some v =>
      have hset : (setMember j (i, some v)).find k = if k = i then some v else j.find k :=
        lookup_assign _ _ _ _
      rw [hset]
      split_ifs <;> rfl

theorem find_ofMembers (l : List (Bytes × Option Json)) (k : Bytes) :
    (ofMembers l).find k = lastMember k l := by
  refine (find_foldl_setMember l (.object []) k).trans ?_
  cases lastMember k l <;> rfl

theorem lastMember_append (k : Bytes) (l l' : List (Bytes × Option Json)) :
    lastMember k (l ++ l') = (lastMember k l').or (lastMember k l) := by
  induction l with
  | nil => exact Option.or_none.symm
  | cons kv l ih =>
    obtain ⟨j, v⟩ := kv
    rw [List.cons_append, lastMember, lastMember, ih, Option.or_assoc]

/-- The members of an object that are kept have their own values. -/
theorem lastMember_filter {l : List (Bytes × Json)} (hl : (keys l).Nodup) (p : Bytes × Json → Bool)
    (f : Json → Json) (k : Bytes) :
    lastMember k ((l.filter p).map fun kv => (kv.1, some (f kv.2))) =
      ((l.lookup k).filter fun v => p (k, v)).map f := by
  induction l with
  | nil => rfl
  | cons kv l ih =>
    obtain ⟨j, v⟩ := kv
    rw [keys_cons, List.nodup_cons] at hl
    rw [lookup_cons_eq, List.filter_cons]
    by_cases hk : k = j
    · subst hk
      have hnone : l.lookup k = none := lookup_eq_none.mpr hl.1
      cases hp : p (k, v) with
      | false => simp [ih hl.2, hnone, hp]
      | true => simp [lastMember, ih hl.2, hnone, hp]
    · cases hp : p (j, v) with
      | false => simp [ih hl.2, hk]
      | true => simp [lastMember, ih hl.2, hk]

theorem lastMember_ascii {l : List (String × Option Json)} {k : String} (hk : isAscii k = true)
    (hl : l.all (fun kv => isAscii kv.1) = true) :
    lastMember (ascii k) (l.map fun kv => (ascii kv.1, kv.2)) = lastField k l := by
  induction l with
  | nil => rfl
  | cons kv l ih =>
    rw [List.all_cons, Bool.and_eq_true] at hl
    rw [List.map_cons, lastMember, lastField, ih hl.2]
    simp only [ascii_inj hk hl.1]

theorem find_ofFields {l : List (String × Option Json)} {k : String} (hk : isAscii k = true)
    (hl : l.all (fun kv => isAscii kv.1) = true) : (ofFields l).find (ascii k) = lastField k l := by
  rw [ofFields, find_ofMembers, lastMember_ascii hk hl]

end Find

section Members

theorem ofMembers_invariant {P : Json → Prop} {l : List (Bytes × Option Json)}
    (hnil : P (.object []))
    (hset : ∀ j k v, (k, some v) ∈ l → P j → P (j.set k v)) : P (ofMembers l) := by
  rw [ofMembers]
  generalize Json.object [] = j at hnil
  induction l generalizing j with
  | nil => exact hnil
  | cons kv l ih =>
    obtain ⟨k, v⟩ := kv
    refine ih (fun j i w hm => hset j i w (List.mem_cons_of_mem _ hm)) _ ?_
    cases v with
    | none => exact hnil
    | some v => exact hset j k v List.mem_cons_self hnil

theorem isObject_ofMembers (l : List (Bytes × Option Json)) : (ofMembers l).isObject = true :=
  ofMembers_invariant (P := fun j => j.isObject = true) rfl fun _ _ _ _ _ => rfl

theorem mem_ofMembers {l : List (Bytes × Option Json)} {k : Bytes} {v : Json}
    (h : (k, v) ∈ (ofMembers l).members) : (k, some v) ∈ l := by
  revert h
  apply ofMembers_invariant (P := fun j => (k, v) ∈ j.members → (k, some v) ∈ l)
  · exact fun h => by cases h
  · intro j i w hm hj h
    rcases mem_assign h with heq | h
    · obtain ⟨rfl, rfl⟩ := Prod.mk.inj heq
      exact hm
    · exact hj h

theorem uniqueKeys_ofMembers {l : List (Bytes × Option Json)}
    (h : ∀ k v, (k, some v) ∈ l → v.UniqueKeys) : (ofMembers l).UniqueKeys := by
  apply ofMembers_invariant (P := Json.UniqueKeys)
  · exact Json.uniqueKeys_object.mpr ⟨nodup_keys_nil, fun k v hm => by cases hm⟩
  · intro j k v hm hj
    exact hj.set (h k v hm) k

/-- What holds of objects and of all values assigned holds of the object. -/
theorem all_ofMembers {p : Json → Bool} {l : List (Bytes × Option Json)}
    (hp : ∀ ms, p (.object ms) = true) (h : ∀ k v, (k, some v) ∈ l → v.all p = true) :
    (ofMembers l).all p = true := by
  have hobject := isObject_ofMembers l
  have hmem := fun k v => mem_ofMembers (l := l) (k := k) (v := v)
  generalize ofMembers l = j at hobject hmem
  cases j with
  | object ms => exact Json.all_object.mpr ⟨hp ms, fun k v hm => h k v (hmem k v hm)⟩
  | _ => cases hobject

theorem depth_ofMembers_le {l : List (Bytes × Option Json)} {n : ℕ}
    (h : ∀ k v, (k, some v) ∈ l → v.depth + 1 ≤ n) : (ofMembers l).depth ≤ n := by
  have hobject := isObject_ofMembers l
  have hmem := fun k v => mem_ofMembers (l := l) (k := k) (v := v)
  generalize ofMembers l = j at hobject hmem
  cases j with
  | object ms =>
    rw [Json.depth, Json.depthMembers_le]
    exact fun k v hm => h k v (hmem k v hm)
  | _ => cases hobject

/-- A statement about the values of fields, from one about the list. -/
theorem forall_fields {l : List (String × Option Json)} {P : Json → Prop}
    (h : ∀ kv ∈ l, ∀ v ∈ kv.2, P v) :
    ∀ k v, (k, some v) ∈ l.map (fun kv => (ascii kv.1, kv.2)) → P v := by
  intro k v hm
  obtain ⟨kv, hkv, heq⟩ := List.mem_map.mp hm
  exact h kv hkv v (Prod.mk.inj heq).2

end Members

end ReadyUp.Config
