import ReadyUp.Status.Hub

/-!
# What a submission does not change

`MergeDiff` returns false exactly for equal values (`mergeDiff_eq_none_iff`): a null member that
the other side does not have is a difference, in whichever direction, so the branch behind its
last comment never runs. A reader takes a null member for an absent one (`SameButNulls`), and a
submission that differs in such members only is a new `rev` to it.
-/
namespace ReadyUp.Status

open Support

namespace Json

mutual

/-- The value without null members, at any depth. -/
def stripNulls : Json → Json
  | .object ms => .object (stripMembers ms)
  | .array vs => .array (stripItems vs)
  | v => v

def stripMembers : List (Bytes × Json) → List (Bytes × Json)
  | [] => []
  | (k, v) :: ms =>
    if v.isNull then stripMembers ms else (k, stripNulls v) :: stripMembers ms

def stripItems : List Json → List Json
  | [] => []
  | v :: vs => stripNulls v :: stripItems vs

end

/-- Equal up to null-valued versus absent members, at any depth. -/
def SameButNulls (a b : Json) : Prop := a.stripNulls.eq b.stripNulls

mutual

/-- No object on one side has a null member that its counterpart on the other side lacks. -/
def nullsAgree : Json → Json → Bool
  | .object as, .object bs =>
    membersAgree as bs && bs.all fun kv => !kv.2.isNull || (as.lookup kv.1).isSome
  | .array as, .array bs => itemsAgree as bs
  | _, _ => true

def membersAgree : List (Bytes × Json) → List (Bytes × Json) → Bool
  | [], _ => true
  | (k, a) :: as, bs =>
    (match bs.lookup k with
      | none => !a.isNull
      | some b => nullsAgree a b) && membersAgree as bs

def itemsAgree : List Json → List Json → Bool
  | a :: as, b :: bs => nullsAgree a b && itemsAgree as bs
  | _, _ => true

end

/-- The null members of both sides are null members of the other. -/
def NullsAgree (a b : Json) : Prop := a.nullsAgree b = true

instance (a b : Json) : Decidable (a.NullsAgree b) := inferInstanceAs (Decidable (_ = true))

theorem eq_null_of_isNull {v : Json} (h : v.isNull = true) : v = .null := by
  cases v with
  | null => rfl
  | _ => cases h

theorem keys_stripMembers_sublist (ms : List (Bytes × Json)) :
    (keys (stripMembers ms)).Sublist (keys ms) := by
  induction ms with
  | nil => exact .slnil
  | cons kv ms ih =>
    obtain ⟨k, v⟩ := kv
    rw [stripMembers]
    split_ifs with hv
    · exact ih.cons k
    · exact ih.cons_cons k

theorem lookup_stripMembers {ms : List (Bytes × Json)} (h : (keys ms).Nodup) (k : Bytes) :
    (stripMembers ms).lookup k = (present (ms.lookup k)).map stripNulls := by
  induction ms with
  | nil => rfl
  | cons kv ms ih =>
    obtain ⟨j, v⟩ := kv
    rw [keys_cons, List.nodup_cons] at h
    rw [stripMembers, lookup_cons_eq]
    by_cases hk : k = j
    · subst hk
      have hnone : ms.lookup k = none := lookup_eq_none.mpr h.1
      rw [if_pos rfl]
      split_ifs with hv
      · rw [ih h.2, hnone, present_some_of_isNull hv, present_none]
      · rw [present_some (by simpa using hv), lookup_cons_eq, if_pos rfl, Option.map_some]
    · rw [if_neg hk, ← ih h.2]
      split_ifs with hv
      · rfl
      · rw [lookup_cons_eq, if_neg hk]

theorem stripItems_eq (vs : List Json) : stripItems vs = vs.map stripNulls := by
  induction vs with
  | nil => rfl
  | cons v vs ih => rw [stripItems, ih, List.map_cons]

theorem sameButNulls_object {as bs : List (Bytes × Json)} (ha : (keys as).Nodup)
    (hb : (keys bs).Nodup) : SameButNulls (.object as) (.object bs) ↔
      ∀ k, Option.Rel SameButNulls (present (as.lookup k)) (present (bs.lookup k)) := by
  have ha' := ha.sublist (keys_stripMembers_sublist as)
  have hb' := hb.sublist (keys_stripMembers_sublist bs)
  rw [SameButNulls, stripNulls, stripNulls, eq_object_iff ha' hb']
  apply forall_congr'
  intro k
  rw [lookup_stripMembers ha, lookup_stripMembers hb]
  generalize present (as.lookup k) = x
  generalize present (bs.lookup k) = y
  constructor
  · intro h
    cases x <;> cases y <;> cases h
    · exact .none
    · exact .some ‹_›
  · intro h
    cases h with
    | none => exact .none
    | some h => exact .some h

theorem sameButNulls_array {as bs : List Json} :
    SameButNulls (.array as) (.array bs) ↔ List.Forall₂ SameButNulls as bs := by
  rw [SameButNulls, stripNulls, stripNulls, eq_array, stripItems_eq, stripItems_eq,
    List.forall₂_map_left_iff, List.forall₂_map_right_iff]
  rfl

theorem membersAgree_iff {as bs : List (Bytes × Json)} :
    membersAgree as bs = true ↔ ∀ k a, (k, a) ∈ as →
      (bs.lookup k = none → a.isNull = false) ∧ ∀ b, bs.lookup k = some b → a.NullsAgree b := by
  induction as with
  | nil => simp [membersAgree]
  | cons kv as ih =>
    obtain ⟨k, a⟩ := kv
    rw [membersAgree, Bool.and_eq_true, ih]
    constructor
    · rintro ⟨ha, hall⟩ j v hmem
      rcases List.mem_cons.mp hmem with heq | hmem
      · obtain ⟨rfl, rfl⟩ := Prod.mk.inj heq
        cases hk : bs.lookup j with
        | none => simpa [hk] using ha
        | some b => simpa [hk, NullsAgree] using ha
      · exact hall j v hmem
    · intro h
      obtain ⟨hnone, hsome⟩ := h k a List.mem_cons_self
      refine ⟨?_, fun j v hmem => h j v (List.mem_cons_of_mem _ hmem)⟩
      cases hk : bs.lookup k with
      | none => simpa using hnone hk
      | some b => exact hsome b hk

theorem nullsAgree_object {as bs : List (Bytes × Json)} :
    NullsAgree (.object as) (.object bs) ↔
      (∀ k a, (k, a) ∈ as → (bs.lookup k = none → a.isNull = false) ∧
        ∀ b, bs.lookup k = some b → a.NullsAgree b) ∧
      ∀ k b, (k, b) ∈ bs → b.isNull = true → (as.lookup k).isSome = true := by
  rw [NullsAgree, nullsAgree, Bool.and_eq_true, membersAgree_iff, List.all_eq_true]
  apply and_congr_right'
  rw [Prod.forall]
  apply forall₃_congr
  intro k b _
  cases b.isNull <;> simp

theorem nullsAgree_cons {a b : Json} {as bs : List Json} :
    NullsAgree (.array (a :: as)) (.array (b :: bs)) ↔
      a.NullsAgree b ∧ NullsAgree (.array as) (.array bs) := by
  rw [NullsAgree, nullsAgree, itemsAgree, Bool.and_eq_true]
  rfl

/-- What is equal is the same, and has the same null members. -/
theorem sameButNulls_of_eq {a b : Json} (ha : a.UniqueKeys) (hb : b.UniqueKeys) (h : a.eq b) :
    a.SameButNulls b ∧ a.NullsAgree b := by
  induction a generalizing b with
  | object as ih =>
    cases b with
    | object bs =>
      rw [uniqueKeys_object] at ha hb
      rw [eq_object_iff ha.1 hb.1] at h
      rw [sameButNulls_object ha.1 hb.1, nullsAgree_object]
      have hmember : ∀ k x y, as.lookup k = some x → bs.lookup k = some y → x.eq y →
          x.SameButNulls y ∧ x.NullsAgree y := by
        intro k x y hx hy hxy
        have hmem := mem_of_lookup hx
        exact ih k x hmem (ha.2 k x hmem) (hb.2 k y (mem_of_lookup hy)) hxy
      refine ⟨?_, ?_, ?_⟩
      · intro k
        have hk := h k
        cases hx : as.lookup k with
        | none =>
          rw [hx] at hk
          generalize bs.lookup k = y at hk
          cases hk
          exact .none
        | some x =>
          cases hy : bs.lookup k with
          | none =>
            rw [hx, hy] at hk
            cases hk
          | some y =>
            rw [hx, hy] at hk
            cases hk with
            | some hxy =>
              have hnull := isNull_of_eq hxy
              cases hxn : x.isNull with
              | true =>
                rw [present_some_of_isNull hxn, present_some_of_isNull (hnull ▸ hxn)]
                exact .none
              | false =>
                rw [present_some hxn, present_some (hnull ▸ hxn)]
                exact .some (hmember k x y hx hy hxy).1
      · intro k x hmem
        have hx := lookup_of_mem ha.1 hmem
        have hk := h k
        rw [hx] at hk
        refine ⟨?_, ?_⟩
        · intro hy
          rw [hy] at hk
          cases hk
        · intro y hy
          rw [hy] at hk
          cases hk with
          | some hxy => exact (hmember k x y hx hy hxy).2
      · intro k y hmem _
        have hk := h k
        rw [lookup_of_mem hb.1 hmem] at hk
        cases hx : as.lookup k with
        | none =>
          rw [hx] at hk
          cases hk
        | some x => rfl
    | _ => simp [eq] at h
  | array as ih =>
    cases b with
    | array bs =>
      rw [uniqueKeys_array] at ha hb
      rw [eq_array] at h
      rw [sameButNulls_array]
      induction h with
      | nil => exact ⟨.nil, rfl⟩
      | @cons a b as bs hab _ ihl =>
        rw [List.forall_mem_cons] at ha hb
        obtain ⟨hsame, hnulls⟩ := ih a List.mem_cons_self ha.1 hb.1 hab
        obtain ⟨htail, hagree⟩ := ihl (fun v hv => ih v (List.mem_cons_of_mem _ hv)) ha.2 hb.2
        exact ⟨.cons hsame htail, nullsAgree_cons.mpr ⟨hnulls, hagree⟩⟩
    | _ => simp [eq] at h
  | _ =>
    cases b with
    | object bs => simp [eq] at h
    | array bs => simp [eq] at h
    | _ => exact ⟨h, rfl⟩

/-- What is the same and has the same null members is equal. -/
theorem eq_of_sameButNulls {a b : Json} (ha : a.UniqueKeys) (hb : b.UniqueKeys)
    (h : a.SameButNulls b) (hnulls : a.NullsAgree b) : a.eq b := by
  induction a generalizing b with
  | object as ih =>
    cases b with
    | object bs =>
      rw [uniqueKeys_object] at ha hb
      rw [sameButNulls_object ha.1 hb.1] at h
      rw [nullsAgree_object] at hnulls
      rw [eq_object_iff ha.1 hb.1]
      intro k
      have hk := h k
      cases hx : as.lookup k with
      | none =>
        cases hy : bs.lookup k with
        | none => exact .none
        | some y =>
          rw [hx, hy, present_none] at hk
          cases hyn : y.isNull with
          | true =>
            have := hnulls.2 k y (mem_of_lookup hy) hyn
            rw [hx] at this
            cases this
          | false =>
            rw [present_some hyn] at hk
            cases hk
      | some x =>
        have hmem := mem_of_lookup hx
        cases hy : bs.lookup k with
        | none =>
          have hxn := (hnulls.1 k x hmem).1 hy
          rw [hx, hy, present_none, present_some hxn] at hk
          cases hk
        | some y =>
          rw [hx, hy] at hk
          apply Option.Rel.some
          cases hxn : x.isNull with
          | true =>
            cases hyn : y.isNull with
            | true =>
              rw [eq_null_of_isNull hxn, eq_null_of_isNull hyn]
              rfl
            | false =>
              rw [present_some_of_isNull hxn, present_some hyn] at hk
              cases hk
          | false =>
            cases hyn : y.isNull with
            | true =>
              rw [present_some hxn, present_some_of_isNull hyn] at hk
              cases hk
            | false =>
              rw [present_some hxn, present_some hyn] at hk
              cases hk with
              | some hxy =>
                exact ih k x hmem (ha.2 k x hmem) (hb.2 k y (mem_of_lookup hy)) hxy
                  ((hnulls.1 k x hmem).2 y hy)
    | _ => simp [SameButNulls, stripNulls, eq] at h
  | array as ih =>
    cases b with
    | array bs =>
      rw [uniqueKeys_array] at ha hb
      rw [sameButNulls_array] at h
      rw [eq_array]
      induction h with
      | nil => exact .nil
      | @cons a b as bs hab _ ihl =>
        rw [List.forall_mem_cons] at ha hb
        rw [nullsAgree_cons] at hnulls
        refine .cons (ih a List.mem_cons_self ha.1 hb.1 hab hnulls.1) ?_
        exact ihl (fun v hv => ih v (List.mem_cons_of_mem _ hv)) ha.2 hb.2 hnulls.2
    | _ => simp [SameButNulls, stripNulls, eq] at h
  | _ =>
    cases b with
    | object bs => simp [SameButNulls, stripNulls, eq] at h
    | array bs => simp [SameButNulls, stripNulls, eq] at h
    | _ => exact h

end Json

/-- A key that a difference leaves out is equal on both sides. -/
theorem eq_of_diffKey {x y : Option Json}
    (hsub : ∀ a b, x = some a → y = some b → mergeDiff a b = none → a.eq b)
    (h : diffKey x y = none) : Option.Rel (fun a b => a.eq b) x y := by
  cases x with
  | none =>
    rw [diffKey] at h
    rw [h]
    exact .none
  | some a =>
    cases y with
    | none =>
      rw [diffKey] at h
      cases h
    | some b =>
      apply Option.Rel.some
      rw [diffKey] at h
      split_ifs at h with hb ha
      · rw [Json.eq_null_of_isNull ha, Json.eq_null_of_isNull hb]
        rfl
      · exact hsub a b rfl rfl h

theorem mergeDiff_eq_none_iff {source target : Json} (hs : source.UniqueKeys)
    (ht : target.UniqueKeys) : mergeDiff source target = none ↔ source.eq target := by
  refine ⟨?_, mergeDiff_eq_none_of_eq⟩
  intro h
  induction target generalizing source with
  | object ts ih =>
    cases source with
    | object fs =>
      by_contra hne
      rw [Bool.not_eq_true] at hne
      rw [mergeDiff_objects hne] at h
      split_ifs at h with hempty
      rw [List.isEmpty_iff] at hempty
      rw [Json.uniqueKeys_object] at hs ht
      have heq : Json.eq (.object fs) (.object ts) = true := by
        rw [Json.eq_object_iff hs.1 ht.1]
        intro k
        have hk : diffKey (fs.lookup k) (ts.lookup k) = none := by
          rw [← lookup_diffObjects hs.1 ht.1, hempty]
          rfl
        apply eq_of_diffKey _ hk
        intro a b ha hb hab
        have hmem := mem_of_lookup hb
        exact ih k b hmem (hs.2 k a (mem_of_lookup ha)) (ht.2 k b hmem) hab
      rw [heq] at hne
      cases hne
    | _ =>
      by_contra hne
      rw [mergeDiff_of_not_object (by simpa using hne) (Or.inl rfl)] at h
      cases h
  | _ =>
    by_contra hne
    rw [mergeDiff_of_not_object (by simpa using hne) (Or.inr rfl)] at h
    cases h

namespace Document

/-- No change of the value is reported, and none of a submission makes a new `rev`, when the two
values are equal up to null-valued versus absent members; every other change is reported. -/
def SilentNoOp (source target : Document) : Prop :=
  (source.diff target = none ↔ source.value.SameButNulls target.value) ∧
    ∀ (h : Hub) (cur input : StatusInputs), h.cur = some cur → h.pending = some input →
      cur.state = source → input.state = target → source.value.SameButNulls target.value →
        h.process.1.rev = h.rev

theorem diff_eq_none_iff (source target : Document) :
    source.diff target = none ↔ source.value.eq target.value := by
  rw [← mergeDiff_eq_none_iff source.uniqueKeys target.uniqueKeys, ← map_value_diff,
    Option.map_eq_none_iff]

end Document

theorem Hub.rev_process {h : Hub} {cur input : StatusInputs} (hcur : h.cur = some cur)
    (hinput : h.pending = some input) :
    h.process.1.rev = if (cur.patch input).isSome then h.rev + 1 else h.rev := by
  have hstatus : ∀ (g : Hub) (cs : List (Part × Document)), (g.appendStatus cs).rev = g.rev := by
    intro g cs
    rw [appendStatus]
    split_ifs <;> rfl
  rw [process, hinput, hcur]
  dsimp only
  rw [hstatus]
  cases cur.patch input <;> rfl

namespace Document

/-- A change is silent as it should be exactly when the two values differ in more than null
members, or have the same null members. -/
theorem silentNoOp_iff (source target : Document) :
    source.SilentNoOp target ↔
      ¬source.value.SameButNulls target.value ∨ source.value.NullsAgree target.value := by
  constructor
  · rintro ⟨hdiff, -⟩
    by_cases hsame : source.value.SameButNulls target.value
    · have heq := (diff_eq_none_iff source target).mp (hdiff.mpr hsame)
      exact Or.inr (Json.sameButNulls_of_eq source.uniqueKeys target.uniqueKeys heq).2
    · exact Or.inl hsame
  · intro h
    have hquiet : source.value.SameButNulls target.value → source.diff target = none := by
      intro hsame
      rw [diff_eq_none_iff]
      rcases h with h | h
      · exact absurd hsame h
      · exact Json.eq_of_sameButNulls source.uniqueKeys target.uniqueKeys hsame h
    refine ⟨⟨?_, hquiet⟩, ?_⟩
    · intro hdiff
      have heq := (diff_eq_none_iff source target).mp hdiff
      exact (Json.sameButNulls_of_eq source.uniqueKeys target.uniqueKeys heq).1
    · rintro hub cur input hcur hinput rfl rfl hsame
      have hpatch : cur.patch input = none := by
        rw [StatusInputs.patch]
        split_ifs
        · rfl
        · exact hquiet hsame
      rw [Hub.rev_process hcur hinput, hpatch]
      rfl

/-- A member that becomes null is reported although it was not there before, and is a new
`rev` to every stream. -/
theorem null_member_reported :
    let source : Document := ⟨.object [], by decide, rfl⟩
    let target : Document := ⟨.object [(ascii "a", .null)], by decide, rfl⟩
    ¬source.SilentNoOp target := by
  intro source target h
  have hnone : source.diff target = none := h.1.mpr rfl
  have heq := (diff_eq_none_iff source target).mp hnone
  exact absurd heq (by decide)

end Document

end ReadyUp.Status
