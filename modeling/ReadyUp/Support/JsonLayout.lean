import ReadyUp.Support.JsonReading

/-!
# Texts with white space

A writer of JSON may put white space wherever the grammar has it. `Lexis.Spelled` says that a text
is that of a value for a reader; there is one rule for each kind of value, and `Lexis.Spelled.parse`
reads a whole text. The keys and strings are those of `quoted`.
-/
namespace ReadyUp.Support.JsonTree

open JsonScan JsonGrammar Node

variable {α : Type} {D : Dialect α}

section Strings

theorem exists_chr (c : UInt8) : ∃ e : Chr, e.Ok ∧ e.text = escapeByte c := by
  rw [escapeByte]
  split_ifs with h₁ h₂ h₃ h₄ h₅ h₆ h₇ h₈
  · exact ⟨.simple (byte '"'), show byte '"' ∈ Chr.letters by decide, rfl⟩
  · exact ⟨.simple (byte '\\'), show byte '\\' ∈ Chr.letters by decide, rfl⟩
  · exact ⟨.simple (byte 'n'), show byte 'n' ∈ Chr.letters by decide, rfl⟩
  · exact ⟨.simple (byte 'r'), show byte 'r' ∈ Chr.letters by decide, rfl⟩
  · exact ⟨.simple (byte 't'), show byte 't' ∈ Chr.letters by decide, rfl⟩
  · exact ⟨.simple (byte 'b'), show byte 'b' ∈ Chr.letters by decide, rfl⟩
  · exact ⟨.simple (byte 'f'), show byte 'f' ∈ Chr.letters by decide, rfl⟩
  · have hhex : ∀ d < 16, Chr.isHexDigit (hexDigit d) = true := by decide
    have hlow : c.toNat / 16 < 16 := by
      have := c.toNat_lt
      omega
    exact ⟨.unicode (byte '0') (byte '0') (hexDigit (c.toNat / 16)) (hexDigit (c.toNat % 16)),
      ⟨by decide, by decide, hhex _ hlow, hhex _ (Nat.mod_lt _ (by decide))⟩, rfl⟩
  · rw [not_or] at h₈
    exact ⟨.raw c, ⟨UInt8.not_lt.mp h₈.1, h₁, h₂⟩, rfl⟩

theorem exists_literal (x : Bytes) : ∃ cs, (∀ c ∈ cs, Chr.Ok c) ∧ literal cs = quoted x := by
  have hbody : ∃ cs, (∀ c ∈ cs, Chr.Ok c) ∧ stringText cs = x.flatMap escapeByte := by
    induction x with
    | nil => exact ⟨[], fun c hc => (by cases hc), rfl⟩
    | cons c x ih =>
      obtain ⟨e, he, htext⟩ := exists_chr c
      obtain ⟨cs, hcs, hrest⟩ := ih
      refine ⟨e :: cs, List.forall_mem_cons.mpr ⟨he, hcs⟩, ?_⟩
      rw [stringText] at hrest
      rw [stringText, List.flatMap_cons, List.flatMap_cons, htext, hrest]
  obtain ⟨cs, hcs, htext⟩ := hbody
  exact ⟨cs, hcs, by rw [literal, htext, quoted]⟩

end Strings

section Layout

variable (front sep back : Bytes) (text : α → Bytes)

/-- The text of members, with the same white space before every key, before every value and after
the last value. -/
def layMembers : List (Bytes × α) → Bytes
  | [] => []
  | (k, v) :: ms =>
    front ++ (quoted k ++ byte ':' :: (sep ++ (text v ++
      if ms.isEmpty then back else byte ',' :: layMembers ms)))

/-- The text of items, with the same white space before every item and after the last one. -/
def layItems : List α → Bytes
  | [] => []
  | v :: vs => front ++ (text v ++ if vs.isEmpty then back else byte ',' :: layItems vs)

end Layout

namespace Lexis

variable (L : Lexis D)

/-- The text is that of a value which takes so many levels. -/
def Spelled (levels : ℕ) (s : Bytes) (v : α) : Prop :=
  ∃ t : Node, t.Fits L.Number levels ∧ t.text = s ∧ L.eval t = v

variable {L} {levels : ℕ}

theorem decode_of_literal {cs : List Chr} {x : Bytes} (hcs : ∀ c ∈ cs, Chr.Ok c)
    (h : literal cs = quoted x) : L.decode cs = x := by
  have hread := L.string_complete [] hcs
  rw [h, D.string_quoted] at hread
  exact (Prod.mk.inj (Option.some.inj hread)).1.symm

theorem spelled_null : L.Spelled (levels + 1) (ascii "null") D.null := ⟨.null, .null, rfl, rfl⟩

theorem spelled_bool (b : Bool) :
    L.Spelled (levels + 1) (ascii (if b then "true" else "false")) (D.bool b) :=
  ⟨.bool b, .bool, rfl, rfl⟩

theorem spelled_number {n : Bytes} {v : α} (h : L.number n = some v) : L.Spelled (levels + 1) n v :=
  ⟨.num n, .num (Option.isSome_of_eq_some h), rfl, by rw [eval, h, Option.getD_some]⟩

theorem spelled_string (x : Bytes) : L.Spelled (levels + 1) (quoted x) (D.str x) := by
  obtain ⟨cs, hcs, hliteral⟩ := exists_literal x
  exact ⟨.str cs, .str hcs, by rw [Node.text, hliteral], by rw [eval,
    decode_of_literal hcs hliteral]⟩

variable {front sep back : Bytes} {text : α → Bytes}

theorem exists_members (hfront : Blank front) (hsep : Blank sep) (hback : Blank back)
    {ms : List (Bytes × α)} (hval : ∀ kv ∈ ms, L.Spelled levels (text kv.2) kv.2) :
    ∃ ns : List (Padded (List Chr) × Padded Node), ns.isEmpty = ms.isEmpty ∧
      textMembers ns = layMembers front sep back text ms ∧
      (∀ n ∈ ns, Blank n.1.before ∧ Blank n.1.after ∧ Blank n.2.before ∧ Blank n.2.after) ∧
      (∀ n ∈ ns, ∀ c ∈ n.1.val, Chr.Ok c) ∧ (∀ n ∈ ns, n.2.val.Fits L.Number levels) ∧
      ∀ o, (keys o ++ keys ms).Nodup → L.evalMembers o ns = o ++ ms := by
  induction ms with
  | nil => exact ⟨[], rfl, rfl, by simp, by simp, by simp, fun o _ => by simp [evalMembers]⟩
  | cons m ms ih =>
    obtain ⟨k, v⟩ := m
    rw [List.forall_mem_cons] at hval
    obtain ⟨ns, hempty, htext, hblanks, hkeys, hfits, heval⟩ := ih hval.2
    obtain ⟨cs, hcs, hliteral⟩ := exists_literal k
    obtain ⟨t, ht, hs, hv⟩ := hval.1
    have hnil : Blank ([] : Bytes) := by simp [Blank]
    have hafter : Blank (if ms.isEmpty then back else []) := by
      split_ifs
      · exact hback
      · exact hnil
    refine ⟨(⟨front, cs, []⟩, ⟨sep, t, if ms.isEmpty then back else []⟩) :: ns, rfl, ?_,
      List.forall_mem_cons.mpr ⟨⟨hfront, hnil, hsep, hafter⟩, hblanks⟩,
      List.forall_mem_cons.mpr ⟨hcs, hkeys⟩, List.forall_mem_cons.mpr ⟨ht, hfits⟩, fun o ho => ?_⟩
    · rw [textMembers, layMembers, hliteral, hs, hempty, htext]
      split_ifs <;> simp
    · have hnew : k ∉ keys o :=
        fun hmem => (List.nodup_append.mp ho).2.2 _ hmem _ List.mem_cons_self rfl
      rw [evalMembers, decode_of_literal hcs hliteral, hv, D.insert_of_notMem _ _ _ hnew, heval,
        List.append_assoc]
      · rfl
      · rw [keys, List.map_append, List.append_assoc]
        exact ho

theorem spelled_object (hfront : Blank front) (hsep : Blank sep) (hback : Blank back)
    {ms : List (Bytes × α)}
    (hkeys : (keys ms).Nodup) (hval : ∀ kv ∈ ms, L.Spelled levels (text kv.2) kv.2) :
    L.Spelled (levels + 1) (byte '{' :: (layMembers front sep back text ms ++ [byte '}']))
      (D.obj ms) := by
  obtain ⟨ns, hempty, htext, hblanks, hchars, hfits, heval⟩ := exists_members hfront hsep hback hval
  refine ⟨.obj [] ns, .obj (by simp [Blank]) hblanks hchars hfits, ?_, ?_⟩
  · rw [Node.text, htext, hempty]
    cases ms <;> rfl
  · rw [eval, heval [] hkeys, List.nil_append]

theorem exists_items (hfront : Blank front) (hback : Blank back) {vs : List α}
    (hval : ∀ v ∈ vs, L.Spelled levels (text v) v) :
    ∃ ns : List (Padded Node), ns.isEmpty = vs.isEmpty ∧
      textItems ns = layItems front back text vs ∧
      (∀ n ∈ ns, Blank n.before ∧ Blank n.after) ∧ (∀ n ∈ ns, n.val.Fits L.Number levels) ∧
      L.evalItems ns = vs := by
  induction vs with
  | nil => exact ⟨[], rfl, rfl, by simp, by simp, by simp [evalItems]⟩
  | cons v vs ih =>
    rw [List.forall_mem_cons] at hval
    obtain ⟨ns, hempty, htext, hblanks, hfits, heval⟩ := ih hval.2
    obtain ⟨t, ht, hs, hv⟩ := hval.1
    have hafter : Blank (if vs.isEmpty then back else []) := by
      split_ifs
      · exact hback
      · simp [Blank]
    refine ⟨⟨front, t, if vs.isEmpty then back else []⟩ :: ns, rfl, ?_,
      List.forall_mem_cons.mpr ⟨⟨hfront, hafter⟩, hblanks⟩,
      List.forall_mem_cons.mpr ⟨ht, hfits⟩, ?_⟩
    · rw [textItems, layItems, hs, hempty, htext]
      split_ifs <;> simp
    · rw [evalItems, hv, heval]

theorem spelled_array (hfront : Blank front) (hback : Blank back) {vs : List α}
    (hval : ∀ v ∈ vs, L.Spelled levels (text v) v) :
    L.Spelled (levels + 1) (byte '[' :: (layItems front back text vs ++ [byte ']']))
      (D.arr vs) := by
  obtain ⟨ns, hempty, htext, hblanks, hfits, heval⟩ := exists_items hfront hback hval
  refine ⟨.arr [] ns, .arr (by simp [Blank]) hblanks hfits, ?_, ?_⟩
  · rw [Node.text, htext, hempty]
    cases vs <;> rfl
  · rw [eval, heval]

theorem Spelled.parse {s before after : Bytes} {v : α} (h : L.Spelled levels s v)
    (hbefore : Blank before)
    (hafter : Blank after) : D.parse levels (before ++ (s ++ after)) = some v := by
  obtain ⟨t, ht, rfl, rfl⟩ := h
  exact L.parse_iff.mpr ⟨⟨before, t, after⟩, ⟨hbefore, hafter, ht, rfl⟩, rfl⟩

end Lexis

end ReadyUp.Support.JsonTree
