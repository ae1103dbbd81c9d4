import ReadyUp.Fleet.SpoolRun

/-!
# A full spool

`Append` makes room by dropping the oldest compactable records: as many as the message needs,
and if that was any, as many more as it takes to be below nine tenths of the limits. The records
that are left are a part of the old ones from which nothing critical and no compactable record
behind a kept one is missing (`Thinned`). Both loops end where their condition does or where only
critical records are left (`makeRoom_done`), so a message that still does not fit finds none that
could go.
-/
namespace ReadyUp.Fleet

open Support

namespace Spool

def compactable (rs : List SpoolRecord) : List SpoolRecord := rs.filter fun r => !r.critical

def criticals (rs : List SpoolRecord) : List SpoolRecord := rs.filter fun r => r.critical

/-- Some of the oldest compactable records are gone. -/
structure Thinned (rs rs' : List SpoolRecord) : Prop where
  sublist : rs'.Sublist rs
  criticals : criticals rs' = criticals rs
  compactable : compactable rs' <:+ compactable rs

theorem Thinned.refl (rs : List SpoolRecord) : Thinned rs rs :=
  ⟨.refl rs, rfl, List.suffix_refl _⟩

theorem Thinned.trans {rs rs' rs'' : List SpoolRecord} (h : Thinned rs rs')
    (h' : Thinned rs' rs'') : Thinned rs rs'' :=
  ⟨h'.sublist.trans h.sublist, h'.criticals.trans h.criticals, h'.compactable.trans h.compactable⟩

theorem thinned_eraseP (rs : List SpoolRecord) : Thinned rs (rs.eraseP fun r => !r.critical) := by
  refine ⟨List.eraseP_sublist, ?_, ?_⟩
  · induction rs with
    | nil => rfl
    | cons r rs ih =>
      cases hr : r.critical with
      | true => simp [criticals, hr] at ih ⊢; exact ih
      | false => simp [criticals, hr]
  · induction rs with
    | nil => exact List.suffix_refl _
    | cons r rs ih =>
      cases hr : r.critical with
      | true => simpa [compactable, hr] using ih
      | false => simp [compactable, hr]

theorem thinned_dropOneCompactable {s s' : Spool} (h : s.dropOneCompactable = some s') :
    Thinned s.recs s'.recs := by
  rw [dropOneCompactable, Option.map_eq_some_iff] at h
  obtain ⟨r, -, rfl⟩ := h
  exact thinned_eraseP s.recs

theorem dropOneCompactable_eq_none {s : Spool} :
    s.dropOneCompactable = none ↔ ∀ r ∈ s.recs, r.critical = true := by
  rw [dropOneCompactable, Option.map_eq_none_iff, List.find?_eq_none]
  simp

theorem length_dropOneCompactable {s s' : Spool} (h : s.dropOneCompactable = some s') :
    s'.recs.length + 1 = s.recs.length := by
  rw [dropOneCompactable, Option.map_eq_some_iff] at h
  obtain ⟨r, hr, rfl⟩ := h
  have hlen := List.length_eraseP_of_mem (List.mem_of_find?_eq_some hr) (List.find?_some hr)
  have hpos := List.length_pos_of_mem (List.mem_of_find?_eq_some hr)
  dsimp only
  omega

theorem thinned_makeRoom (full : Spool → Bool) (fuel : ℕ) (s : Spool) :
    Thinned s.recs (makeRoom full fuel s).recs := by
  induction fuel generalizing s with
  | zero => exact .refl _
  | succ fuel ih =>
    rw [makeRoom]
    split
    · split
      · exact .refl _
      · next s' hs' => exact (thinned_dropOneCompactable hs').trans (ih s')
    · exact .refl _

/-- The loop ends where its condition does, or without compactable records. -/
theorem makeRoom_done (full : Spool → Bool) {fuel : ℕ} {s : Spool} (hfuel : s.recs.length ≤ fuel)
    (hfull : full (makeRoom full fuel s) = true) :
    ∀ r ∈ (makeRoom full fuel s).recs, r.critical = true := by
  induction fuel generalizing s with
  | zero =>
    rw [makeRoom, List.length_eq_zero_iff.mp (Nat.le_zero.mp hfuel)]
    exact fun r hr => (by cases hr)
  | succ fuel ih =>
    rw [makeRoom] at hfull ⊢
    cases hs : full s with
    | false =>
      rw [hs, if_neg Bool.false_ne_true] at hfull
      rw [hs] at hfull
      cases hfull
    | true =>
      rw [hs, if_pos rfl] at hfull
      rw [if_pos rfl]
      cases hdrop : s.dropOneCompactable with
      | none => exact dropOneCompactable_eq_none.mp hdrop
      | some s' =>
        rw [hdrop] at hfull
        have hlen := length_dropOneCompactable hdrop
        exact ih (by omega) hfull

theorem size_le_of_sublist {rs rs' : List SpoolRecord} (h : rs'.Sublist rs) : size rs' ≤ size rs :=
  (h.map SpoolRecord.bytes).sum_le_sum fun _ _ => Nat.zero_le _

theorem isOver_of_dropped {s s' : Spool} (h : Dropped s s') (hbytes : s.bytes = size s.recs)
    {add percent : ℕ} (hover : s'.isOver add percent = true) : s.isOver add percent = true := by
  have hlen := h.recs.length_le
  have hsize := size_le_of_sublist h.recs
  rw [← h.bytes hbytes, ← hbytes] at hsize
  rw [isOver, Bool.or_eq_true, decide_eq_true_eq, decide_eq_true_eq, h.limits] at hover
  rw [isOver, Bool.or_eq_true, decide_eq_true_eq, decide_eq_true_eq]
  rcases hover with hover | hover
  · left
    omega
  · right
    omega

/-- Room for a message: the oldest compactable records go, and all of them where it does not
become enough. -/
theorem thinned_makeRoomFor {s : Spool} (hbytes : s.bytes = size s.recs) (add : ℕ) :
    Thinned s.recs (s.makeRoomFor add).1.recs ∧
      ((s.makeRoomFor add).1.isOver add 100 = true →
        ∀ r ∈ (s.makeRoomFor add).1.recs, r.critical = true) := by
  have hfirst := dropped_makeRoom (isOver add 100) s.recs.length s
  have hthin := thinned_makeRoom (isOver add 100) s.recs.length s
  have hdone := makeRoom_done (isOver add 100) (le_refl s.recs.length)
  simp only [makeRoomFor]
  generalize makeRoom (isOver add 100) s.recs.length s = s' at hfirst hthin hdone ⊢
  split_ifs with hlt
  · have hsecond := dropped_makeRoom nearlyFull s'.recs.length s'
    refine ⟨hthin.trans (thinned_makeRoom _ _ s'), ?_⟩
    intro hover r hr
    exact hdone (isOver_of_dropped hsecond (hfirst.bytes hbytes) hover) r (hsecond.recs.subset hr)
  · exact ⟨hthin, hdone⟩

theorem fits_of_not_isOver {s : Spool} {add percent : ℕ} (h : s.isOver add percent = false) :
    (s.recs.length + 1) * 100 ≤ s.limits.maxMsgs * percent ∧
      (s.bytes + add) * 100 ≤ s.limits.maxBytes * percent := by
  rw [isOver, Bool.or_eq_false_iff, decide_eq_false_iff_not, decide_eq_false_iff_not] at h
  omega

/-- What becomes of the old records `kept` and of the message when a spool `s` takes it or not. -/
structure Policy (s : Spool) (m : Message) (kept : List SpoolRecord) (seq : Option ℤ) (s' : Spool) :
    Prop where
  /-- What is kept, and the message at the end if it was accepted. -/
  recs : s'.recs = kept ++ (seq.map m.record).toList
  /-- Only compactable records are removed, the oldest first. -/
  thinned : Thinned s.recs kept
  gap : kept.length < s.recs.length ∨ seq = none → s'.gap = true
  compactable : seq.isSome = true → isCriticalType m.type = false →
    s'.recs.length ≤ s.limits.maxMsgs ∧ s'.bytes ≤ s.limits.maxBytes
  critical : seq.isSome = true → isCriticalType m.type = true →
    s'.recs.length ≤ 2 * s.limits.maxMsgs ∧ s'.bytes ≤ 2 * s.limits.maxBytes
  /-- A critical message is refused only where nothing can be dropped for it. -/
  refused : seq = none → isCriticalType m.type = true → (∀ r ∈ kept, r.critical = true) ∧
    (2 * s.limits.maxMsgs < kept.length + 1 ∨
      2 * s.limits.maxBytes < size kept + (m.record 0).bytes)

theorem append_policy {s : Spool} (hbytes : s.bytes = size s.recs) (m : Message) :
    ∃ kept, Policy s m kept (s.append m).seq (s.append m).spool := by
  obtain ⟨hdropped, -⟩ := dropped_makeRoomFor (m.record 0).bytes s
  obtain ⟨hthin, hdone⟩ := thinned_makeRoomFor hbytes (m.record 0).bytes
  rw [append]
  generalize s.makeRoomFor (m.record 0).bytes = room at hdropped hthin hdone
  obtain ⟨s', any⟩ := room
  dsimp only at hdropped hthin hdone ⊢
  have hsize := hdropped.bytes hbytes
  refine ⟨s'.recs, ?_⟩
  by_cases hrefused : (s'.isOver (m.record 0).bytes 100 &&
      (!isCriticalType m.type || s'.isOver (m.record 0).bytes 200)) = true
  · rw [if_pos hrefused]
    rw [Bool.and_eq_true] at hrefused
    refine ⟨(List.append_nil _).symm, hthin, fun _ => rfl, fun h => (by cases h), fun h =>
      (by cases h), ?_⟩
    intro _ hcritical
    refine ⟨hdone hrefused.1, ?_⟩
    have hover := hrefused.2
    rw [hcritical, Bool.not_true, Bool.false_or, isOver, Bool.or_eq_true, decide_eq_true_eq,
      decide_eq_true_eq, hdropped.limits, hsize] at hover
    omega
  · rw [if_neg hrefused]
    rw [Bool.and_eq_true, not_and, Bool.not_eq_true] at hrefused
    have hlimits := hdropped.limits
    have hadd : (m.record s'.nextSeq).bytes = (m.record 0).bytes := rfl
    have hlen : (s'.push m).recs.length = s'.recs.length + 1 := by
      rw [push, List.length_append, List.length_singleton]
    have hpushed : (s'.push m).bytes = s'.bytes + (m.record 0).bytes := rfl
    refine ⟨rfl, hthin, ?_, ?_, ?_, fun h => (by cases h)⟩
    · rintro (hlt | hnone)
      · exact hdropped.gap hlt
      · cases hnone
    · intro _ hcompactable
      rw [hcompactable, Bool.not_false, Bool.true_or] at hrefused
      cases hover : s'.isOver (m.record 0).bytes 100 with
      | true => exact absurd (hrefused hover) (by decide)
      | false =>
        have hfits := fits_of_not_isOver hover
        rw [hlen, hpushed, ← hlimits]
        omega
    · intro _ hcritical
      rw [hcritical, Bool.not_true, Bool.false_or] at hrefused
      rw [hlen, hpushed, ← hlimits]
      cases hover : s'.isOver (m.record 0).bytes 100 with
      | true =>
        have hfits := fits_of_not_isOver (hrefused hover)
        omega
      | false =>
        have hfits := fits_of_not_isOver hover
        omega

end Spool

/-- However its writes go, `Append` follows the policy. -/
theorem Host.append_overflow {h : Host} (hbytes : h.spool.bytes = size h.spool.recs) (m : Message) :
    ∃ kept, h.spool.Policy m kept (h.spool.append m).seq (h.append m).2.spool := by
  rw [append_spool]
  exact Spool.append_policy hbytes m

/-- A message that comes to a spool with room for one. -/
def Spool.roundEnd : Message := ⟨ascii "event.round_end", ascii "01", [], 5, 1, .empty⟩

/-- A host with room for one message, which is taken by a compactable one. -/
def Host.fullOfOne : Host :=
  let record := { Spool.roundEnd with type := ascii "event.player_ready" }.record 1
  { Host.new .empty with
    spool := { Spool.new with
      limits := ⟨1, 1000⟩, recs := [record], bytes := size [record], nextSeq := 2 } }

/-- It goes for a critical one. -/
theorem Host.append_overflow_fullOfOne :
    ∃ kept, fullOfOne.spool.Policy Spool.roundEnd kept (fullOfOne.spool.append Spool.roundEnd).seq
      (fullOfOne.append Spool.roundEnd).2.spool :=
  Host.append_overflow rfl Spool.roundEnd

end ReadyUp.Fleet
