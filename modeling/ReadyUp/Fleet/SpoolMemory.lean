import ReadyUp.Fleet.Spool

/-!
# The records in memory

What each call of the spool does to the records it retains. They are in the order of their
seqs, between the acked one and the next one, and counted in `bytes` (`Ordered`); without a
gap none is missing (`Consecutive`). None of this depends on how the writes go.
-/
namespace ReadyUp.Fleet

open Support

def seqs (rs : List SpoolRecord) : List ℤ := rs.map SpoolRecord.seq

@[simp] theorem seqs_nil : seqs [] = [] := rfl

@[simp] theorem seqs_cons (r : SpoolRecord) (rs : List SpoolRecord) :
    seqs (r :: rs) = r.seq :: seqs rs := rfl

@[simp] theorem seqs_append (rs rs' : List SpoolRecord) : seqs (rs ++ rs') = seqs rs ++ seqs rs' :=
  List.map_append

@[simp] theorem length_seqs (rs : List SpoolRecord) : (seqs rs).length = rs.length :=
  List.length_map _

theorem mem_seqs {rs : List SpoolRecord} {r : SpoolRecord} (h : r ∈ rs) : r.seq ∈ seqs rs :=
  List.mem_map_of_mem h

def size (rs : List SpoolRecord) : ℕ := (rs.map SpoolRecord.bytes).sum

@[simp] theorem size_nil : size [] = 0 := rfl

@[simp] theorem size_cons (r : SpoolRecord) (rs : List SpoolRecord) :
    size (r :: rs) = r.bytes + size rs := by simp [size]

@[simp] theorem size_append (rs rs' : List SpoolRecord) :
    size (rs ++ rs') = size rs + size rs' := by
  simp [size]

section After

variable {a b : ℤ} {rs : List SpoolRecord}

theorem after_sublist (a : ℤ) (rs : List SpoolRecord) : (after a rs).Sublist rs :=
  List.dropWhile_sublist _

theorem seqs_after (a : ℤ) (rs : List SpoolRecord) :
    seqs (after a rs) = (seqs rs).dropWhile (· ≤ a) := by
  rw [seqs, seqs, after, List.dropWhile_map]
  rfl

theorem mem_after (h : (seqs rs).Pairwise (· < ·)) {r : SpoolRecord} :
    r ∈ after a rs ↔ r ∈ rs ∧ a < r.seq := by
  induction rs with
  | nil => simp [after]
  | cons x rs ih =>
    by_cases hx : x.seq ≤ a
    · rw [after, List.dropWhile_cons_of_pos (by simpa using hx), ← after, ih h.tail, List.mem_cons]
      constructor
      · rintro ⟨hr, hlt⟩
        exact ⟨Or.inr hr, hlt⟩
      · rintro ⟨rfl | hr, hlt⟩
        · exact absurd hx (not_le.mpr hlt)
        · exact ⟨hr, hlt⟩
    · rw [after, List.dropWhile_cons_of_neg (by simpa using hx)]
      refine ⟨fun hr => ⟨hr, ?_⟩, And.left⟩
      rcases List.mem_cons.mp hr with rfl | hr
      · exact not_le.mp hx
      · exact (not_le.mp hx).trans (List.rel_of_pairwise_cons h (mem_seqs hr))

theorem size_after (a : ℤ) (rs : List SpoolRecord) :
    size (rs.takeWhile fun r => r.seq ≤ a) + size (after a rs) = size rs := by
  rw [← size_append, after, List.takeWhile_append_dropWhile]

theorem after_append {old : List SpoolRecord} (hold : ∀ r ∈ old, r.seq ≤ a)
    (hrs : ∀ r ∈ rs, a < r.seq) : after a (old ++ rs) = rs := by
  have hnone : rs.dropWhile (fun r => r.seq ≤ a) = rs := by
    cases rs with
    | nil => rfl
    | cons r rs =>
      exact List.dropWhile_cons_of_neg (by simpa using hrs r List.mem_cons_self)
  rw [after, List.dropWhile_append_of_pos (by simpa using hold), hnone]

theorem after_after (hab : a ≤ b) (rs : List SpoolRecord) : after b (after a rs) = after b rs := by
  induction rs with
  | nil => rfl
  | cons r rs ih =>
    by_cases hr : r.seq ≤ a
    · rw [after, after, after, List.dropWhile_cons_of_pos (by simpa using hr),
        List.dropWhile_cons_of_pos (by simpa using hr.trans hab)]
      exact ih
    · rw [after, after, List.dropWhile_cons_of_neg (by simpa using hr)]
      rfl

theorem after_snoc {a : ℤ} {r : SpoolRecord} (h : a < r.seq) (rs : List SpoolRecord) :
    after a (rs ++ [r]) = after a rs ++ [r] := by
  have hr : [r].dropWhile (fun r => decide (r.seq ≤ a)) = [r] :=
    List.dropWhile_cons_of_neg (by simpa using h)
  rw [after, after, List.dropWhile_append, hr]
  split_ifs with hnil
  · rw [List.isEmpty_iff.mp hnil]
    rfl
  · rfl

/-- Records that are numbered up to the last one stay so after a later seq. -/
theorem numbered_after {last : ℤ} (hnum : Numbered (b + 1) (seqs rs)) (hlen : b + rs.length = last)
    (hb : b ≤ a) (ha : a ≤ last) :
    Numbered (a + 1) (seqs (after a rs)) ∧ a + ((after a rs).length : ℤ) = last := by
  obtain ⟨hnum', hlen'⟩ := hnum.dropWhile_le (a := a) (by omega) (by rw [length_seqs]; omega)
  rw [← seqs_after, length_seqs, length_seqs] at hlen'
  rw [← seqs_after] at hnum'
  exact ⟨hnum', by omega⟩

theorem after_eq_filter (h : (seqs rs).Pairwise (· < ·)) :
    after a rs = rs.filter fun r => a < r.seq := by
  induction rs with
  | nil => rfl
  | cons x rs ih =>
    by_cases hx : x.seq ≤ a
    · rw [after, List.dropWhile_cons_of_pos (by simpa using hx),
        List.filter_cons_of_neg (by simpa using hx)]
      exact ih h.tail
    · rw [after, List.dropWhile_cons_of_neg (by simpa using hx),
        List.filter_cons_of_pos (by simpa using hx)]
      congr 1
      symm
      rw [List.filter_eq_self]
      intro r hr
      have hlt := List.rel_of_pairwise_cons h (mem_seqs hr)
      rw [decide_eq_true_eq]
      exact (not_le.mp hx).trans hlt

theorem after_of_sublist {rs' : List SpoolRecord} (h : (seqs rs).Pairwise (· < ·))
    (hsub : rs'.Sublist rs) (hmem : ∀ r ∈ rs, a < r.seq → r ∈ rs') : after a rs' = after a rs := by
  rw [after_eq_filter (h.sublist (hsub.map _)), after_eq_filter h]
  apply (hsub.filter _).eq_of_length_le
  have hnodup : (rs.filter fun r => a < r.seq).Nodup := by
    apply List.Nodup.filter
    exact List.Nodup.of_map _ (h.imp ne_of_lt)
  refine (hnodup.subperm ?_).length_le
  intro r hr
  obtain ⟨hr, hlt⟩ := List.mem_filter.mp hr
  exact List.mem_filter.mpr ⟨hmem r hr (of_decide_eq_true hlt), hlt⟩

end After

namespace Spool

/-- The records are in order, after the acked seq and before the next one, and counted. -/
structure Ordered (s : Spool) : Prop where
  nonneg : 0 ≤ s.ackedSeq
  acked : s.ackedSeq < s.nextSeq
  increasing : (seqs s.recs).Pairwise (· < ·)
  above : ∀ r ∈ s.recs, s.ackedSeq < r.seq
  below : ∀ r ∈ s.recs, r.seq < s.nextSeq
  bytes : s.bytes = size s.recs

/-- The records are exactly those from the acked seq to the last one. -/
structure Consecutive (s : Spool) : Prop where
  numbered : Numbered (s.ackedSeq + 1) (seqs s.recs)
  last : s.ackedSeq + s.recs.length = s.lastSeq

instance (s : Spool) : Decidable s.Consecutive :=
  decidable_of_iff (Numbered (s.ackedSeq + 1) (seqs s.recs) ∧
    s.ackedSeq + s.recs.length = s.lastSeq)
    ⟨fun h => ⟨h.1, h.2⟩, fun h => ⟨h.1, h.2⟩⟩

@[simp] theorem toMeta_ackedSeq (s : Spool) : s.toMeta.ackedSeq = s.ackedSeq := rfl

theorem ordered_new : new.Ordered :=
  ⟨le_rfl, Int.zero_lt_one, List.Pairwise.nil, fun _ hr => (by cases hr), fun _ hr =>
    (by cases hr), rfl⟩

theorem consecutive_new : new.Consecutive := ⟨trivial, rfl⟩

section Dropped

/-- What dropping compactable records can do: any drop is a gap. -/
structure Dropped (s s' : Spool) : Prop where
  recs : s'.recs.Sublist s.recs
  limits : s'.limits = s.limits
  streamId : s'.streamId = s.streamId
  nextSeq : s'.nextSeq = s.nextSeq
  ackedSeq : s'.ackedSeq = s.ackedSeq
  rxSeq : s'.rxSeq = s.rxSeq
  bytes : s.bytes = size s.recs → s'.bytes = size s'.recs
  same : s'.recs.length = s.recs.length → s' = s
  gap : s'.recs.length < s.recs.length → s'.gap = true

theorem Dropped.refl (s : Spool) : Dropped s s :=
  ⟨List.Sublist.refl _, rfl, rfl, rfl, rfl, rfl, id, fun _ => rfl, fun h => absurd h (lt_irrefl _)⟩

theorem Dropped.trans {s s' s'' : Spool} (h : Dropped s s') (h' : Dropped s' s'') :
    Dropped s s'' where
  recs := h'.recs.trans h.recs
  limits := h'.limits.trans h.limits
  streamId := h'.streamId.trans h.streamId
  nextSeq := h'.nextSeq.trans h.nextSeq
  ackedSeq := h'.ackedSeq.trans h.ackedSeq
  rxSeq := h'.rxSeq.trans h.rxSeq
  bytes hb := h'.bytes (h.bytes hb)
  same hlen := by
    have hle := h.recs.length_le
    have hle' := h'.recs.length_le
    rw [h'.same (by omega), h.same (by omega)]
  gap hlt := by
    have hle := h.recs.length_le
    have hle' := h'.recs.length_le
    rcases Nat.lt_or_ge s''.recs.length s'.recs.length with hlt' | hge
    · exact h'.gap hlt'
    · rw [h'.same (by omega)]
      exact h.gap (by omega)

theorem size_eraseP {p : SpoolRecord → Bool} {rs : List SpoolRecord} {r : SpoolRecord}
    (h : rs.find? p = some r) : size rs = r.bytes + size (rs.eraseP p) := by
  induction rs with
  | nil => simp at h
  | cons x rs ih =>
    rw [List.find?_cons] at h
    cases hx : p x with
    | true =>
      rw [hx] at h
      rw [List.eraseP_cons_of_pos hx, size_cons, Option.some.inj h]
    | false =>
      rw [hx] at h
      rw [List.eraseP_cons_of_neg (by simp [hx]), size_cons, size_cons, ih h]
      omega

theorem dropped_dropOneCompactable {s s' : Spool} (h : s.dropOneCompactable = some s') :
    Dropped s s' := by
  rw [dropOneCompactable, Option.map_eq_some_iff] at h
  obtain ⟨r, hr, rfl⟩ := h
  have hlen := List.length_eraseP_of_mem (List.mem_of_find?_eq_some hr) (List.find?_some hr)
  have hpos := List.length_pos_of_mem (List.mem_of_find?_eq_some hr)
  refine ⟨List.eraseP_sublist, rfl, rfl, rfl, rfl, rfl, ?_, ?_, fun _ => rfl⟩
  · intro hb
    have := size_eraseP hr
    dsimp only at hb ⊢
    omega
  · intro heq
    dsimp only at heq
    omega

theorem dropped_makeRoom (full : Spool → Bool) (fuel : ℕ) (s : Spool) :
    Dropped s (makeRoom full fuel s) := by
  induction fuel generalizing s with
  | zero => exact .refl s
  | succ fuel ih =>
    rw [makeRoom]
    split
    · split
      · exact .refl s
      · next s' hs' => exact (dropped_dropOneCompactable hs').trans (ih s')
    · exact .refl s

theorem dropped_makeRoomFor (add : ℕ) (s : Spool) :
    Dropped s (s.makeRoomFor add).1 ∧
      ((s.makeRoomFor add).2 = true ↔ (s.makeRoomFor add).1.recs.length < s.recs.length) := by
  have hfirst := dropped_makeRoom (isOver add 100) s.recs.length s
  simp only [makeRoomFor]
  generalize makeRoom (isOver add 100) s.recs.length s = s' at hfirst ⊢
  split_ifs with hlt
  · have hsecond := dropped_makeRoom nearlyFull s'.recs.length s'
    have hle := hsecond.recs.length_le
    exact ⟨hfirst.trans hsecond, fun _ => lt_of_le_of_lt hle hlt, fun _ => rfl⟩
  · exact ⟨hfirst, fun h => (by cases h), fun h => absurd h hlt⟩

end Dropped

/-- What `Append` can do in memory: refuse the message, or give it the next seq. -/
theorem append_cases (s : Spool) (m : Message) :
    ∃ s', Dropped s s' ∧
      ((s.append m).droppedAny = true ↔ s'.recs.length < s.recs.length) ∧
      (((s.append m).seq = none ∧
          (s.append m).spool = { s' with gap := true, dropped := s'.dropped + 1 }) ∨
        ((s.append m).seq = some s'.nextSeq ∧ (s.append m).spool = s'.push m)) := by
  obtain ⟨hdrop, hany⟩ := dropped_makeRoomFor (m.record 0).bytes s
  refine ⟨(s.makeRoomFor (m.record 0).bytes).1, hdrop, ?_⟩
  rw [← hany]
  simp only [append]
  split_ifs with hfull
  · exact ⟨Iff.rfl, Or.inl ⟨rfl, rfl⟩⟩
  · exact ⟨Iff.rfl, Or.inr ⟨rfl, rfl⟩⟩

theorem append_of_not_isOver {s : Spool} {m : Message}
    (h : s.isOver (m.record 0).bytes 100 = false) :
    s.append m = ⟨s.push m, some s.nextSeq, false⟩ := by
  have hroom : makeRoom (isOver (m.record 0).bytes 100) s.recs.length s = s := by
    cases s.recs.length with
    | zero => rfl
    | succ n => rw [makeRoom, h, if_neg Bool.false_ne_true]
  rw [append, makeRoomFor, hroom]
  simp [h]

section Ordered

variable {s s' : Spool}

theorem Ordered.positive (h : s.Ordered) : (0 :: seqs s.recs).Pairwise (· < ·) := by
  refine .cons ?_ h.increasing
  intro x hx
  obtain ⟨r, hr, rfl⟩ := List.mem_map.mp hx
  exact lt_of_le_of_lt h.nonneg (h.above r hr)

theorem Ordered.after_recs (h : s.Ordered) {a : ℤ} (ha : a ≤ s.ackedSeq) :
    after a s.recs = s.recs := by
  have hnone : ∀ r ∈ ([] : List SpoolRecord), r.seq ≤ a := fun _ hr => (by cases hr)
  exact after_append hnone fun r hr => lt_of_le_of_lt ha (h.above r hr)

theorem Ordered.dropped (h : s.Ordered) (hdrop : Dropped s s') : s'.Ordered where
  nonneg := by
    rw [hdrop.ackedSeq]
    exact h.nonneg
  acked := by
    rw [hdrop.ackedSeq, hdrop.nextSeq]
    exact h.acked
  increasing := h.increasing.sublist (hdrop.recs.map _)
  above r hr := by
    rw [hdrop.ackedSeq]
    exact h.above r (hdrop.recs.subset hr)
  below r hr := by
    rw [hdrop.nextSeq]
    exact h.below r (hdrop.recs.subset hr)
  bytes := hdrop.bytes h.bytes

theorem Ordered.push (h : s.Ordered) (m : Message) : (s.push m).Ordered where
  nonneg := h.nonneg
  acked := h.acked.trans (lt_add_one _)
  increasing := by
    rw [Spool.push, seqs_append, List.pairwise_append]
    refine ⟨h.increasing, List.pairwise_singleton _ _, ?_⟩
    intro x hx y hy
    obtain ⟨r, hr, rfl⟩ := List.mem_map.mp hx
    rw [List.mem_singleton.mp hy]
    exact h.below r hr
  above r hr := by
    rcases List.mem_append.mp hr with hr | hr
    · exact h.above r hr
    · rw [List.mem_singleton.mp hr]
      exact h.acked
  below r hr := by
    rcases List.mem_append.mp hr with hr | hr
    · exact (h.below r hr).trans (lt_add_one _)
    · rw [List.mem_singleton.mp hr]
      exact lt_add_one _
  bytes := by
    rw [Spool.push, size_append, ← h.bytes]
    simp

theorem Consecutive.push (h : s.Consecutive) (m : Message) : (s.push m).Consecutive where
  numbered := by
    have hlast := h.last
    rw [lastSeq] at hlast
    rw [Spool.push, seqs_append, numbered_append, length_seqs]
    refine ⟨h.numbered, ?_, trivial⟩
    rw [Message.record]
    dsimp only
    omega
  last := by
    have hlast := h.last
    rw [lastSeq] at hlast ⊢
    rw [Spool.push, List.length_append, List.length_singleton]
    dsimp only
    push_cast
    omega

theorem Ordered.append (h : s.Ordered) (m : Message) : (s.append m).spool.Ordered := by
  obtain ⟨s', hdrop, -, ⟨-, hs⟩ | ⟨-, hs⟩⟩ := append_cases s m
  · have h' := h.dropped hdrop
    rw [hs]
    exact ⟨h'.nonneg, h'.acked, h'.increasing, h'.above, h'.below, h'.bytes⟩
  · rw [hs]
    exact (h.dropped hdrop).push m

/-- Without a gap after it, `Append` dropped nothing and took the message. -/
theorem append_of_not_gap {m : Message} (h : (s.append m).spool.gap = false) :
    (s.append m).droppedAny = false ∧ (s.append m).seq = some s.nextSeq ∧
      (s.append m).spool = s.push m := by
  obtain ⟨s', hdrop, hany, ⟨-, hs⟩ | ⟨hseq, hs⟩⟩ := append_cases s m
  · rw [hs] at h
    cases h
  · rw [hs] at h
    have hlen : s'.recs.length = s.recs.length := by
      apply le_antisymm hdrop.recs.length_le
      apply not_lt.mp
      intro hlt
      exact absurd (hdrop.gap hlt) (Bool.eq_false_iff.mp h)
    obtain rfl := hdrop.same hlen
    rw [Bool.eq_false_iff, Ne, hany]
    exact ⟨lt_irrefl _, hseq, hs⟩

theorem append_gap (h : s.gap = true) (m : Message) : (s.append m).spool.gap = true := by
  by_contra hgap
  obtain ⟨-, -, hs⟩ := append_of_not_gap (Bool.eq_false_iff.mpr hgap)
  rw [hs] at hgap
  exact hgap h

end Ordered

section Acked

variable {s : Spool}

theorem ordered_dropAcked (hnonneg : 0 ≤ s.ackedSeq) (hacked : s.ackedSeq < s.nextSeq)
    (hinc : (seqs s.recs).Pairwise (· < ·)) (hbelow : ∀ r ∈ s.recs, r.seq < s.nextSeq)
    (hbytes : s.bytes = size s.recs) : s.dropAcked.Ordered where
  nonneg := hnonneg
  acked := hacked
  increasing := hinc.sublist ((after_sublist _ _).map _)
  above r hr := ((mem_after hinc).mp hr).2
  below r hr := hbelow r ((after_sublist _ _).subset hr)
  bytes := by
    have := size_after s.ackedSeq s.recs
    rw [dropAcked, hbytes]
    dsimp only
    rw [← size]
    omega

theorem consecutive_dropAcked {b : ℤ} (hnum : Numbered (b + 1) (seqs s.recs))
    (hlast : b + s.recs.length = s.lastSeq) (hb : b ≤ s.ackedSeq) (hle : s.ackedSeq ≤ s.lastSeq) :
    s.dropAcked.Consecutive := by
  obtain ⟨hnum', hlen⟩ := numbered_after hnum hlast hb hle
  exact ⟨hnum', hlen⟩

theorem Ordered.ackUpTo (h : s.Ordered) (seq : ℤ) : (s.ackUpTo seq).Ordered := by
  rw [Spool.ackUpTo]
  split_ifs with hle
  · exact h
  · have hacked := h.acked
    have hnonneg := h.nonneg
    apply ordered_dropAcked
    · simp only [lastSeq]
      omega
    · simp only [lastSeq]
      omega
    · exact h.increasing
    · exact h.below
    · exact h.bytes

theorem Consecutive.ackUpTo (h : s.Consecutive) (hord : s.Ordered) (seq : ℤ) :
    (s.ackUpTo seq).Consecutive := by
  rw [Spool.ackUpTo]
  split_ifs with hle
  · exact h
  · have hacked := hord.acked
    apply consecutive_dropAcked (b := s.ackedSeq)
    · exact h.numbered
    · exact h.last
    · simp only [lastSeq]
      omega
    · exact min_le_right _ _

end Acked

section Load

variable {s : Spool}

theorem seq_le_getLast {rs : List SpoolRecord} (h : (seqs rs).Pairwise (· < ·)) {l : SpoolRecord}
    (hl : rs.getLast? = some l) {r : SpoolRecord} (hr : r ∈ rs) : r.seq ≤ l.seq := by
  obtain ⟨init, rfl⟩ := List.getLast?_eq_some_iff.mp hl
  rcases List.mem_append.mp hr with hr | hr
  · rw [seqs_append, List.pairwise_append] at h
    exact (h.2.2 _ (mem_seqs hr) _ (mem_seqs List.mem_cons_self)).le
  · rw [List.mem_singleton.mp hr]

theorem bumpNext_spec (s : Spool) (h : (seqs s.recs).Pairwise (· < ·)) :
    s.nextSeq ≤ s.bumpNext.nextSeq ∧ ∀ r ∈ s.recs, r.seq < s.bumpNext.nextSeq := by
  rw [bumpNext]
  cases hl : s.recs.getLast? with
  | none =>
    rw [List.getLast?_eq_none_iff] at hl
    simp [hl]
  | some l =>
    simp only [Option.elim_some]
    constructor
    · split_ifs <;> omega
    · intro r hr
      have := seq_le_getLast h hl hr
      split_ifs <;> omega

theorem consecutive_bumpNext (hnum : Numbered (s.ackedSeq + 1) (seqs s.recs))
    (hacked : s.ackedSeq < s.nextSeq) (hnext : s.nextSeq ≤ s.ackedSeq + s.recs.length + 1) :
    s.bumpNext.Consecutive := by
  refine ⟨hnum, ?_⟩
  rw [bumpNext, lastSeq]
  cases hl : s.recs.getLast? with
  | none =>
    rw [List.getLast?_eq_none_iff] at hl
    simp only [Option.elim_none]
    rw [hl] at hnext ⊢
    rw [List.length_nil] at hnext ⊢
    omega
  | some l =>
    obtain ⟨init, hinit⟩ := List.getLast?_eq_some_iff.mp hl
    rw [hinit, seqs_append, numbered_append] at hnum
    have hlast := hnum.2.1
    rw [length_seqs] at hlast
    simp only [Option.elim_some]
    rw [hinit, List.length_append, List.length_singleton] at hnext ⊢
    push_cast at hnext ⊢
    split_ifs <;> omega

theorem loadMeta_spec (s : Spool) {info : Option Meta} (hinfo : ∀ m ∈ info, m.ackedSeq < m.nextSeq)
    (bad : ℕ) (newId : Ulid) (hrecs : ∀ r ∈ s.recs, 0 < r.seq) :
    0 ≤ (s.loadMeta info bad newId).ackedSeq ∧
      (s.loadMeta info bad newId).ackedSeq < (s.loadMeta info bad newId).nextSeq ∧
      (s.loadMeta info bad newId).recs = s.recs ∧ (s.loadMeta info bad newId).bytes = s.bytes := by
  have hstart : (s.startOver newId).ackedSeq < (s.startOver newId).nextSeq := by
    rw [startOver]
    cases hl : s.recs.getLast? with
    | none => simp
    | some l =>
      have := hrecs l (List.mem_of_getLast? hl)
      simp only [Option.elim_some]
      omega
  cases info with
  | none => exact ⟨le_rfl, hstart, rfl, rfl⟩
  | some m =>
    have := hinfo m rfl
    simp only [loadMeta]
    split_ifs
    · exact ⟨le_rfl, hstart, rfl, rfl⟩
    · refine ⟨le_max_left _ _, ?_, rfl, rfl⟩
      dsimp only
      omega

theorem loadLog_increasing (d : Disk) : (0 :: seqs d.loadLog.recs).Pairwise (· < ·) := by
  rw [Disk.loadLog]
  split_ifs
  · exact List.pairwise_singleton _ _
  · exact scan_increasing 0 _

theorem ordered_bumpNext (hnonneg : 0 ≤ s.ackedSeq) (hacked : s.ackedSeq < s.nextSeq)
    (hinc : (seqs s.recs).Pairwise (· < ·)) (habove : ∀ r ∈ s.recs, s.ackedSeq < r.seq)
    (hbytes : s.bytes = size s.recs) : s.bumpNext.Ordered where
  nonneg := hnonneg
  acked := lt_of_lt_of_le hacked (bumpNext_spec s hinc).1
  increasing := hinc
  above := habove
  below := (bumpNext_spec s hinc).2
  bytes := hbytes

theorem ordered_loadMeta {info : Option Meta} (hinfo : ∀ m ∈ info, m.ackedSeq < m.nextSeq) (bad : ℕ)
    (newId : Ulid) (hinc : (0 :: seqs s.recs).Pairwise (· < ·)) (hbytes : s.bytes = size s.recs) :
    (s.loadMeta info bad newId).dropAcked.bumpNext.Ordered := by
  have hpos : ∀ r ∈ s.recs, 0 < r.seq := fun r hr => List.rel_of_pairwise_cons hinc (mem_seqs hr)
  obtain ⟨hnonneg, hacked, hrecs, hbytes'⟩ := loadMeta_spec s hinfo bad newId hpos
  apply ordered_bumpNext
  · exact hnonneg
  · exact hacked
  · rw [dropAcked, hrecs]
    exact hinc.tail.sublist ((after_sublist _ _).map _)
  · rw [dropAcked, hrecs]
    exact fun r hr => ((mem_after hinc.tail).mp hr).2
  · have hsize := size_after (s.loadMeta info bad newId).ackedSeq s.recs
    rw [dropAcked, hrecs, hbytes', hbytes, ← size]
    dsimp only
    omega

/-- Whatever is in the log, what `Open` makes of it is in order. -/
theorem ordered_load (s : Spool) {d : Disk} (hinfo : ∀ m ∈ d.info, m.ackedSeq < m.nextSeq)
    (limits : Limits) (newId : Ulid) : (s.load d limits newId).Ordered :=
  ordered_loadMeta hinfo d.loadLog.bad newId (loadLog_increasing d) rfl

end Load

section Rotate

theorem numbered_renumber (a : ℤ) (rs : List SpoolRecord) : Numbered a (seqs (renumber a rs)) := by
  induction rs generalizing a with
  | nil => trivial
  | cons r rs ih => exact ⟨rfl, ih (a + 1)⟩

theorem length_renumber (a : ℤ) (rs : List SpoolRecord) : (renumber a rs).length = rs.length := by
  induction rs generalizing a with
  | nil => rfl
  | cons r rs ih => rw [renumber, List.length_cons, List.length_cons, ih]

theorem size_renumber (a : ℤ) (rs : List SpoolRecord) : size (renumber a rs) = size rs := by
  induction rs generalizing a with
  | nil => rfl
  | cons r rs ih =>
    rw [renumber, size_cons, size_cons, ih]
    rfl

variable {s : Spool}

theorem consecutive_rotate (s : Spool) (newId : Ulid) : (s.rotate newId).Consecutive where
  numbered := numbered_renumber 1 s.recs
  last := by
    rw [rotate, lastSeq]
    simp [length_renumber]

theorem Ordered.rotate (h : s.Ordered) (newId : Ulid) : (s.rotate newId).Ordered where
  nonneg := le_rfl
  acked := by
    rw [Spool.rotate]
    dsimp only
    omega
  increasing := (numbered_renumber 1 s.recs).pairwise_lt
  above r hr := by
    have := (numbered_renumber 1 s.recs).mem_iff.mp (mem_seqs hr)
    rw [Spool.rotate]
    dsimp only
    omega
  below r hr := by
    have := (numbered_renumber 1 s.recs).mem_iff.mp (mem_seqs hr)
    rw [length_seqs, length_renumber] at this
    rw [Spool.rotate]
    dsimp only
    omega
  bytes := by
    rw [Spool.rotate]
    dsimp only
    rw [size_renumber, h.bytes]

end Rotate

end Spool

end ReadyUp.Fleet
