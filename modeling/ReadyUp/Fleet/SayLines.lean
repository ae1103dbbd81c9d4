import ReadyUp.Fleet.Say

/-!
# The lines of a text

The loop of `splitSay` is greedy, so what it leaves over fits into the lines that are left exactly
when some layout does (`fits_nextRest_iff`). So the lines show the whole text exactly when it fits,
whatever one wants to see shown (`splits_iff_fits`).
-/
namespace ReadyUp.Fleet.Say

open Support JsonTree

section Layout

variable {n : ℕ} {s a t g : Bytes}

theorem StartsBlank.fresh (h : StartsBlank s) : StartsFresh s :=
  fun c t hs => isCont_of_isBlank (h c t hs)

theorem startsBlank_of_blank (h : ∀ c ∈ s, isBlank c = true) : StartsBlank s := by
  rintro c t rfl
  exact h c List.mem_cons_self

theorem Fits.cons {line rest : Bytes} (hsize : line.length ≤ lineBytes) (hfresh : StartsFresh rest)
    (hbreaks : Breaks line rest) (hrest : Fits n rest) : Fits (n + 1) (line ++ rest) := by
  have hgap : ∀ c ∈ ([] : Bytes), isBlank c = true := fun c hc => by cases hc
  exact .line hgap hsize hfresh hbreaks hrest

theorem Fits.succ (h : Fits n t) (ht : StartsFresh t) : Fits (n + 1) t := by
  have hnone : Breaks [] t := .inr fun i _ => by rw [List.getD_nil]; decide
  exact .cons (Nat.zero_le _) ht hnone h

/-- A layout of the text is one of what is left behind a part of it. -/
theorem Fits.suffix (h : Fits n s) (hs : s = a ++ t) (ht : StartsFresh t) : Fits n t := by
  induction h generalizing a with
  | blank hblank =>
    rw [hs, List.forall_mem_append] at hblank
    exact .blank hblank.2
  | @line n gap line rest hgap hsize hfresh hbreaks hrest ih =>
    rw [List.append_assoc] at hs
    rcases List.append_eq_append_iff.mp hs with ⟨a', rfl, htail⟩ | ⟨gap', rfl, rfl⟩
    · rcases List.append_eq_append_iff.mp htail with ⟨a'', rfl, hrest'⟩ | ⟨line', rfl, rfl⟩
      · exact (ih hrest').succ ht
      · -- the part ends inside the line
        have hbreaks' : Breaks line' rest := by
          refine hbreaks.imp_right fun hnone i hi => ?_
          have hread := hnone (a'.length + i) (by omega)
          rw [List.getD_eq_getElem?_getD, List.getElem?_append_right (by omega),
            Nat.add_sub_cancel_left] at hread
          exact hread
        rw [List.length_append] at hsize
        exact .cons (by omega) hfresh hbreaks' hrest
    · rw [List.forall_mem_append] at hgap
      rw [← List.append_assoc]
      exact .line hgap.2 hsize hfresh hbreaks hrest

theorem Fits.initial (h : Fits n s) (hs : s = t ++ g) : Fits n t := by
  induction h generalizing t with
  | blank hblank =>
    rw [hs, List.forall_mem_append] at hblank
    exact .blank hblank.1
  | @line n gap line rest hgap hsize hfresh hbreaks hrest ih =>
    rw [List.append_assoc] at hs
    rcases List.append_eq_append_iff.mp hs with ⟨t', rfl, htail⟩ | ⟨gap', rfl, -⟩
    · rcases List.append_eq_append_iff.mp htail with ⟨t'', rfl, hrest'⟩ | ⟨line', rfl, -⟩
      · have hhead : ∀ c u, t'' = c :: u → rest = c :: (u ++ g) := by
          rintro c u rfl
          exact hrest'
        rw [← List.append_assoc]
        refine .line hgap hsize ?_ ?_ (ih hrest')
        · exact fun c u htail' => hfresh c _ (hhead c u htail')
        · exact hbreaks.imp_left fun hspace c u htail' => hspace c _ (hhead c u htail')
      · -- the line is the last one
        rw [List.length_append] at hsize
        have hnil : Fits n [] := .blank fun c hc => by cases hc
        have hspace : StartsBlank [] := fun c u hnil' => by cases hnil'
        simpa using Fits.line hgap (by omega) startsFresh_nil (.inl hspace) hnil
    · rw [List.forall_mem_append] at hgap
      exact .blank hgap.1

theorem Fits.append_blank (h : Fits n t) (hg : ∀ c ∈ g, isBlank c = true) : Fits n (t ++ g) := by
  induction h with
  | blank hblank => exact .blank (List.forall_mem_append.mpr ⟨hblank, hg⟩)
  | @line n gap line rest hgap hsize hfresh hbreaks hrest ih =>
    rw [List.append_assoc]
    refine .line hgap hsize ?_ ?_ ih
    · cases rest with
      | nil => exact (startsBlank_of_blank hg).fresh
      | cons c u => exact startsFresh_cons (hfresh c u rfl)
    · refine hbreaks.imp_left fun hspace => ?_
      cases rest with
      | nil => exact startsBlank_of_blank hg
      | cons c u =>
        rintro d v heq
        rw [← (List.cons.inj heq).1]
        exact hspace c u rfl

theorem Fits.blank_append (h : Fits n t) (hg : ∀ c ∈ g, isBlank c = true) : Fits n (g ++ t) := by
  cases h with
  | blank hblank => exact .blank (List.forall_mem_append.mpr ⟨hg, hblank⟩)
  | @line n gap line rest hgap hsize hfresh hbreaks hrest =>
    rw [← List.append_assoc, ← List.append_assoc]
    exact .line (List.forall_mem_append.mpr ⟨hg, hgap⟩) hsize hfresh hbreaks hrest

theorem fits_trim_iff (h : IsUtf8 s) : Fits n (trim s) ↔ Fits n s := by
  obtain ⟨g, g', hs, hg, hg'⟩ := trim_spec s
  constructor
  · intro hfits
    rw [hs]
    exact (hfits.blank_append hg).append_blank hg'
  · intro hfits
    exact (hfits.initial hs).suffix rfl (isUtf8_trim h).startsFresh

/-- The rest fits into so many lines, and one more, exactly when what the loop leaves of it fits
into so many. -/
theorem fits_nextRest_iff {rest : Bytes} (h : IsUtf8 rest) (htrimmed : trim rest = rest)
    (hne : rest ≠ []) : Fits n (nextRest rest) ↔ Fits (n + 1) rest := by
  have hfresh : StartsFresh (rest.drop (lineCut rest)) := by
    by_cases hzero : lineCut rest = 0
    · rw [hzero, List.drop_zero]
      exact h.startsFresh
    · exact (lineCut_spec rest).2.2 hzero
  have hright : IsUtf8 (rest.drop (lineCut rest)) := by
    rw [← List.take_append_drop (lineCut rest) rest] at h
    exact (h.cut hfresh).2
  rw [nextRest, fits_trim_iff hright]
  constructor
  · intro hfits
    have hsize : (rest.take (lineCut rest)).length ≤ lineBytes := by
      rw [List.length_take]
      exact (min_le_left _ _).trans (lineCut_spec rest).2.1
    simpa using Fits.cons hsize hfresh (lineCut_breaks rest) hfits
  · intro hfits
    cases hfits with
    | blank hblank =>
      rw [← trim_eq_nil_iff, htrimmed] at hblank
      exact absurd hblank hne
    | @line _ gap line tail hgap hsize hfresh' hbreaks htail =>
      have hgapnil : gap = [] := by
        cases gap with
        | nil => rfl
        | cons c gap =>
          have hhead := head_trim (htrimmed.trans (by simp : _ = c :: (gap ++ line ++ tail)))
          rw [hgap c List.mem_cons_self] at hhead
          cases hhead
      subst hgapnil
      rw [List.nil_append] at hfresh ⊢
      have hle := le_lineCut hsize hfresh' hbreaks
      rw [List.drop_append, List.drop_eq_nil_of_le hle, List.nil_append] at hfresh ⊢
      exact htail.suffix (List.take_append_drop _ _).symm hfresh

end Layout

section Runs

variable {text : Bytes} {s : Saying}

/-- What holds of a text in UTF-8 while it is split. -/
structure Laid (text : Bytes) (s : Saying) : Prop where
  utf8 : IsUtf8 s.rest ∧ ∀ l ∈ s.out, IsUtf8 l
  shown : ∃ tail, Interleaves text s.out tail ∧ trim tail = s.rest
  fits : Fits (maxLines - s.out.length) s.rest ↔ Fits maxLines text

structure Sound (text : Bytes) (s : Saying) : Prop where
  trimmed : trim s.rest = s.rest
  count : s.out.length ≤ maxLines
  size : ∀ l ∈ s.out, l ≠ [] ∧ l.length ≤ lineBytes
  laid : IsUtf8 text → Laid (sanitizeSay text (lineBytes * maxLines)) s

theorem sound_start (text : Bytes) : Sound text (start text) := by
  refine ⟨trim_trim _, Nat.zero_le _, fun l hl => (by cases hl), fun h => ?_⟩
  have hsanitized := isUtf8_sanitizeSay h (lineBytes * maxLines)
  refine ⟨⟨isUtf8_trim hsanitized, fun l hl => (by cases hl)⟩, ⟨_, ⟨[], rfl, ?_, rfl⟩, rfl⟩, ?_⟩
  · intro g hg
    cases hg
  · exact fits_trim_iff hsanitized

/-- No text in UTF-8 has a byte with so many continuation bytes behind it. -/
theorem not_stuck_of_isUtf8 {rest : Bytes} (h : IsUtf8 rest) : ¬ Stuck rest := by
  rintro ⟨hlen, hcont⟩
  unfold lineBytes at hlen hcont
  have hsplit : rest.take 1 ++ ((rest.drop 1).take 4 ++ (rest.drop 1).drop 4) = rest := by
    rw [List.take_append_drop, List.take_append_drop]
  have hfour : ((rest.drop 1).take 4).length = 4 := by
    rw [List.length_take, List.length_drop]
    omega
  rw [← hsplit] at h
  obtain ⟨c, hc, hfresh⟩ := h.exists_start hfour
  obtain ⟨i, hi, rfl⟩ := List.mem_iff_getElem.mp hc
  rw [hfour] at hi
  have hbyte := hcont (1 + i) (by omega) (by omega)
  rw [List.getD_eq_getElem?_getD, List.getElem?_eq_getElem (by omega), Option.getD_some] at hbyte
  rw [List.getElem_take, List.getElem_drop] at hfresh
  rw [hfresh] at hbyte
  cases hbyte

theorem interleaves_snoc {text tail gap line rest : Bytes} {lines : List Bytes}
    (h : Interleaves text lines tail)
    (hgap : ∀ c ∈ gap, isBlank c = true) (htail : tail = gap ++ line ++ rest) :
    Interleaves text (lines ++ [line]) rest := by
  obtain ⟨gaps, hlen, hblank, htext⟩ := h
  refine ⟨gaps ++ [gap], by simp [hlen], ?_, ?_⟩
  · intro g hg
    rcases List.mem_append.mp hg with hg | hg
    · exact hblank g hg
    · rw [List.mem_singleton.mp hg]
      exact hgap
  · rw [List.zipWith_append hlen, List.flatten_append, htext, htail]
    simp

theorem line_spec {rest : Bytes} (htrimmed : trim rest = rest) (hne : rest ≠ [])
    (hstuck : ¬ Stuck rest) :
    trim (rest.take (lineCut rest)) ≠ [] ∧ (trim (rest.take (lineCut rest))).length ≤ lineBytes ∧
      ∃ e, rest.take (lineCut rest) = trim (rest.take (lineCut rest)) ++ e ∧
      ∀ c ∈ e, isBlank c = true := by
  obtain ⟨hle, hmax, -⟩ := lineCut_spec rest
  have hpos : lineCut rest ≠ 0 := fun h => hstuck ((lineCut_eq_zero_iff hne).mp h)
  obtain ⟨c, t, hrest⟩ := List.exists_cons_of_ne_nil hne
  have hhead : isBlank c = false := head_trim (htrimmed.trans hrest)
  obtain ⟨k, hk⟩ := Nat.exists_eq_succ_of_ne_zero hpos
  have htake : rest.take (lineCut rest) = c :: t.take k := by
    rw [hk, hrest, List.take_succ_cons]
  obtain ⟨g, e, hline, hg, he⟩ := trim_spec (rest.take (lineCut rest))
  have hgnil : g = [] := by
    cases g with
    | nil => rfl
    | cons d g =>
      rw [htake, List.cons_append, List.cons_append, List.cons.injEq] at hline
      have hd := hg d List.mem_cons_self
      rw [← hline.1, hhead] at hd
      cases hd
  rw [hgnil, List.nil_append] at hline
  refine ⟨?_, ?_, e, hline, he⟩
  · intro hnil
    rw [trim_eq_nil_iff, htake] at hnil
    have hc := hnil c List.mem_cons_self
    rw [hhead] at hc
    cases hc
  · refine (length_trim_le _).trans ?_
    rw [List.length_take]
    omega

theorem Laid.step {text : Bytes} (h : Laid text s) (htrimmed : trim s.rest = s.rest)
    (hne : s.rest ≠ [])
    (hcount : s.out.length < maxLines) (hstuck : ¬ Stuck s.rest) : Laid text s.step := by
  obtain ⟨⟨hutf8, hout⟩, ⟨tail, hinter, htail⟩, hfits⟩ := h
  obtain ⟨hline, -, e, he, heblank⟩ := line_spec htrimmed hne hstuck
  obtain ⟨-, -, hfresh⟩ := lineCut_spec s.rest
  have hpos : lineCut s.rest ≠ 0 := fun h => hstuck ((lineCut_eq_zero_iff hne).mp h)
  have hparts : s.rest = s.rest.take (lineCut s.rest) ++ s.rest.drop (lineCut s.rest) :=
    (List.take_append_drop _ _).symm
  obtain ⟨hleft, hright⟩ :
      IsUtf8 (s.rest.take (lineCut s.rest)) ∧ IsUtf8 (s.rest.drop (lineCut s.rest)) := by
    apply IsUtf8.cut _ (hfresh hpos)
    rw [← hparts]
    exact hutf8
  obtain ⟨g, g', hg, hgblank, hgblank'⟩ := trim_spec tail
  rw [htail] at hg
  unfold Saying.step
  simp only [if_neg hline]
  constructor
  · refine ⟨isUtf8_trim hright, ?_⟩
    intro l hl
    rcases List.mem_append.mp hl with hl | hl
    · exact hout l hl
    · rw [List.mem_singleton.mp hl]
      exact isUtf8_trim hleft
  · refine ⟨e ++ s.rest.drop (lineCut s.rest) ++ g', ?_, ?_⟩
    · apply interleaves_snoc hinter hgblank
      calc tail = g ++ s.rest ++ g' := hg
        _ = g ++ (s.rest.take (lineCut s.rest) ++ s.rest.drop (lineCut s.rest)) ++
          g' := by rw [← hparts]
        _ = g ++ (trim (s.rest.take (lineCut s.rest)) ++ e ++ s.rest.drop (lineCut s.rest)) ++
          g' := by
          rw [← he]
        _ = _ := by simp only [List.append_assoc]
    · rw [trim_append_blank hgblank', trim_blank_append heblank]
      rfl
  · have hleft : maxLines - s.out.length =
        maxLines - (s.out ++ [trim (s.rest.take (lineCut s.rest))]).length + 1 := by
      rw [List.length_append, List.length_singleton]
      omega
    rw [fits_nextRest_iff hutf8 htrimmed hne, ← hleft]
    exact hfits

theorem Sound.step {text : Bytes} (h : Sound text s) (hne : s.rest ≠ [])
    (hcount : s.out.length < maxLines)
    (hstuck : ¬ Stuck s.rest) : Sound text s.step ∧ s.step.out.length = s.out.length + 1 := by
  obtain ⟨hline, hlen, -⟩ := line_spec h.trimmed hne hstuck
  have hout : s.step.out = s.out ++ [trim (s.rest.take (lineCut s.rest))] := by
    unfold Saying.step
    simp only [if_neg hline]
  have hlength : s.step.out.length = s.out.length + 1 := by
    rw [hout, List.length_append, List.length_singleton]
  refine ⟨⟨trim_trim _, by omega, ?_, ?_⟩, hlength⟩
  · intro l hl
    rw [hout] at hl
    rcases List.mem_append.mp hl with hl | hl
    · exact h.size l hl
    · rw [List.mem_singleton.mp hl]
      exact ⟨hline, hlen⟩
  · exact fun hutf8 => (h.laid hutf8).step h.trimmed hne hcount hstuck

/-- When the loop is done, nothing is left exactly when the text fits. -/
theorem Laid.whole {text : Bytes} (h : Laid text s) (htrimmed : trim s.rest = s.rest)
    (hdone : s.done = true) : s.rest = [] ↔ Fits maxLines text := by
  rw [← h.fits]
  constructor
  · intro hnil
    rw [hnil]
    exact .blank fun c hc => by cases hc
  · intro hfits
    unfold Saying.done at hdone
    simp only [Bool.or_eq_true, decide_eq_true_eq, Bool.not_eq_true',
      decide_eq_false_iff_not] at hdone
    rcases hdone with hnil | hcount
    · exact hnil
    · rw [Nat.sub_eq_zero_of_le (not_lt.mp hcount)] at hfits
      cases hfits with
      | blank hblank => rw [← htrimmed, trim_eq_nil_iff.mpr hblank]

/-- As long as no line is stuck the loop ends in so many rounds as there may be lines. -/
theorem run_of_not_stuck (n : ℕ) (hcount : maxLines ≤ s.out.length + n) (h : Sound text s)
    (hstuck : ∀ i < n, ¬ Stuck (nextRest^[i] s.rest)) :
    ∃ t : Saying, run n s = some t.out ∧ Sound text t ∧ t.done = true := by
  induction n generalizing s with
  | zero =>
    have hdone : s.done = true := by
      unfold Saying.done
      simp only [Bool.or_eq_true, Bool.not_eq_true', decide_eq_false_iff_not]
      exact .inr (by omega)
    exact ⟨s, if_pos hdone, h, hdone⟩
  | succ n ih =>
    unfold run
    cases hdone : s.done with
    | true => exact ⟨s, rfl, h, hdone⟩
    | false =>
      unfold Saying.done at hdone
      simp only [Bool.or_eq_false_iff, decide_eq_false_iff_not, Bool.not_eq_false',
        decide_eq_true_eq] at hdone
      obtain ⟨hsound, hlength⟩ := h.step hdone.1 hdone.2 (hstuck 0 (by omega))
      apply ih (by omega) hsound
      intro i hi
      have hnext := hstuck (i + 1) (by omega)
      rw [Function.iterate_succ_apply] at hnext
      exact hnext

theorem run_unique {m n : ℕ} {lines lines' : List Bytes} (h : run m s = some lines)
    (h' : run n s = some lines') : lines = lines' := by
  induction m generalizing s n with
  | zero =>
    unfold run at h
    split_ifs at h with hdone
    cases n with
    | zero =>
      rw [run, if_pos hdone] at h'
      exact Option.some.inj (h.symm.trans h')
    | succ n =>
      rw [run, if_pos hdone] at h'
      exact Option.some.inj (h.symm.trans h')
  | succ m ih =>
    unfold run at h
    split_ifs at h with hdone
    · cases n with
      | zero =>
        rw [run, if_pos hdone] at h'
        exact Option.some.inj (h.symm.trans h')
      | succ n =>
        rw [run, if_pos hdone] at h'
        exact Option.some.inj (h.symm.trans h')
    · cases n with
      | zero =>
        rw [run, if_neg hdone] at h'
        cases h'
      | succ n =>
        rw [run, if_neg hdone] at h'
        exact ih h h'

/-- The lines say how much of the text they do not show, up to blanks. -/
theorem Interleaves.filter {text rest : Bytes} {lines : List Bytes}
    (h : Interleaves text lines rest) :
    text.filter (!isBlank ·) = lines.flatten.filter (!isBlank ·) ++ rest.filter (!isBlank ·) := by
  obtain ⟨gaps, hlen, hblank, rfl⟩ := h
  rw [List.filter_append]
  congr 1
  induction lines generalizing gaps with
  | nil => simp
  | cons l lines ih =>
    obtain ⟨g, gaps, rfl⟩ := List.exists_cons_of_length_eq_add_one hlen
    rw [List.forall_mem_cons] at hblank
    have hg : g.filter (!isBlank ·) = [] :=
      List.filter_eq_nil_iff.mpr fun c hc => by simp [hblank.1 c hc]
    rw [List.zipWith_cons_cons, List.flatten_cons, List.flatten_cons, List.filter_append,
      List.filter_append, List.filter_append, hg, List.nil_append,
      ih gaps (by simpa using hlen) hblank.2]

theorem Interleaves.blank_of_blank {text rest rest' : Bytes} {lines : List Bytes}
    (h : Interleaves text lines rest) (h' : Interleaves text lines rest')
    (hblank : ∀ c ∈ rest, isBlank c = true) : ∀ c ∈ rest', isBlank c = true := by
  have hsame := h.filter.symm.trans h'.filter
  rw [List.append_cancel_left_eq,
    List.filter_eq_nil_iff.mpr fun c hc => by simp [hblank c hc]] at hsame
  intro c hc
  simpa using List.filter_eq_nil_iff.mp hsame.symm c hc

section Result

variable {text : Bytes}

theorem rest_iterate (s : Saying) (i : ℕ) : (Saying.step^[i] s).rest = nextRest^[i] s.rest := by
  induction i generalizing s with
  | zero => rfl
  | succ i ih =>
    rw [Function.iterate_succ_apply, Function.iterate_succ_apply, ih]
    rfl

theorem length_out_iterate_le (s : Saying) (i : ℕ) :
    (Saying.step^[i] s).out.length ≤ s.out.length + i := by
  induction i with
  | zero => exact le_refl _
  | succ i ih =>
    rw [Function.iterate_succ_apply', Saying.step]
    simp only
    split_ifs
    · omega
    · rw [List.length_append, List.length_singleton]
      omega

theorem nextRest_iterate_nil (i : ℕ) : nextRest^[i] [] = [] := by
  induction i with
  | zero => rfl
  | succ i ih =>
    rw [Function.iterate_succ_apply']
    rw [ih]
    rfl

theorem run_eq_none {n : ℕ} {s : Saying} (h : ∀ i, (Saying.step^[i] s).done = false) :
    run n s = none := by
  induction n generalizing s with
  | zero =>
    have hdone : s.done = false := h 0
    unfold run
    rw [hdone]
    rfl
  | succ n ih =>
    have hdone : s.done = false := h 0
    unfold run
    rw [hdone]
    apply ih
    intro i
    exact h (i + 1)

theorem step_of_stuck {s : Saying} (htrimmed : trim s.rest = s.rest)
    (h : Stuck s.rest) : s.step = s := by
  have hne : s.rest ≠ [] := by
    intro hnil
    rw [hnil] at h
    exact absurd h.1 (by decide)
  have hzero : lineCut s.rest = 0 := (lineCut_eq_zero_iff hne).mpr h
  have hrest : nextRest s.rest = s.rest := by
    unfold nextRest
    rw [hzero, List.drop_zero, htrimmed]
  have hline : trim (s.rest.take (lineCut s.rest)) = [] := by
    rw [hzero]
    rfl
  unfold Saying.step
  simp only [hline, if_true, hrest]

/-- A rest that is stuck before the third line is done keeps the loop going. -/
theorem not_done_of_stuck {i : ℕ} (hi : i < maxLines) (h : Stuck (restAt text i)) (j : ℕ) :
    (Saying.step^[j] (start text)).done = false := by
  have hrest : (Saying.step^[i] (start text)).rest = restAt text i := rest_iterate _ _
  have hne : restAt text i ≠ [] := by
    intro hnil
    rw [hnil] at h
    exact absurd h.1 (by decide)
  have htrimmed : trim (restAt text i) = restAt text i := by
    unfold restAt
    cases i with
    | zero => exact trim_trim _
    | succ i =>
      rw [Function.iterate_succ_apply']
      exact trim_trim _
  have hfixed : (Saying.step^[i] (start text)).step = Saying.step^[i] (start text) := by
    apply step_of_stuck
    · rw [hrest, htrimmed]
    · rw [hrest]
      exact h
  -- the loop is at the stuck rest or on its way to it
  have hstate :
      (Saying.step^[j] (start text)).rest ≠ [] ∧ (Saying.step^[j] (start text)).out.length ≤ i := by
    rcases Nat.le_total i j with hij | hji
    · obtain ⟨k, rfl⟩ := Nat.exists_eq_add_of_le hij
      rw [Nat.add_comm, Function.iterate_add_apply, Function.iterate_fixed hfixed, hrest]
      have hout := length_out_iterate_le (start text) i
      exact ⟨hne, by simpa [start] using hout⟩
    · obtain ⟨k, rfl⟩ := Nat.exists_eq_add_of_le hji
      constructor
      · intro hnil
        rw [rest_iterate] at hnil
        apply hne
        unfold restAt
        rw [Nat.add_comm, Function.iterate_add_apply, hnil, nextRest_iterate_nil]
      · have hout := length_out_iterate_le (start text) j
        have hzero : (start text).out.length = 0 := rfl
        omega
  unfold Saying.done
  simp only [Bool.or_eq_false_iff, decide_eq_false_iff_not, Bool.not_eq_false', decide_eq_true_eq]
  exact ⟨hstate.1, lt_of_le_of_lt hstate.2 hi⟩

theorem not_stuck_restAt (hutf8 : IsUtf8 text) (i : ℕ) : ¬ Stuck (restAt text i) := by
  apply not_stuck_of_isUtf8
  unfold restAt
  induction i with
  | zero => exact isUtf8_trim (isUtf8_sanitizeSay hutf8 _)
  | succ i ih =>
    rw [Function.iterate_succ_apply']
    apply isUtf8_trim
    rcases Nat.eq_zero_or_pos (lineCut (nextRest^[i] (start text).rest)) with hzero | hpos
    · rw [hzero, List.drop_zero]
      exact ih
    · obtain ⟨-, -, hfresh⟩ := lineCut_spec (nextRest^[i] (start text).rest)
      rw [← List.take_append_drop (lineCut (nextRest^[i] (start text).rest))
        (nextRest^[i] (start text).rest)] at ih
      exact (ih.cut (hfresh (by omega))).2

/-- Whatever one wants to see shown as a whole: a text is split so exactly when no line begins with
a byte that has a whole line of continuation bytes behind it, and what is to be shown fits. -/
theorem splits_iff_fits (fits : Prop) (text : Bytes) :
    Splits fits text ↔ (∀ i < maxLines, ¬ Stuck (restAt text i)) ∧
      (IsUtf8 text → fits → Fits maxLines (sanitizeSay text (lineBytes * maxLines))) := by
  constructor
  · rintro ⟨lines, ⟨n, hrun⟩, hgood⟩
    have hstuck : ∀ i < maxLines, ¬ Stuck (restAt text i) := by
      intro i hi hstuck
      rw [run_eq_none (not_done_of_stuck hi hstuck)] at hrun
      cases hrun
    refine ⟨hstuck, fun hutf8 hfits => ?_⟩
    obtain ⟨t, hrun', hsound, hdone⟩ :=
      run_of_not_stuck maxLines (by simp [start]) (sound_start text) hstuck
    obtain ⟨-, rest, hinter, hblank⟩ := hgood.utf8 hutf8
    have hlaid := hsound.laid hutf8
    obtain ⟨tail, hinter', htail⟩ := hlaid.shown
    rw [run_unique hrun hrun'] at hinter
    have hnil := trim_eq_nil_iff.mpr (hinter.blank_of_blank hinter' (hblank hfits))
    rw [htail] at hnil
    exact (hlaid.whole hsound.trimmed hdone).mp hnil
  · rintro ⟨hstuck, hwhole⟩
    obtain ⟨t, hrun, hsound, hdone⟩ :=
      run_of_not_stuck maxLines (by simp [start]) (sound_start text) hstuck
    refine ⟨t.out, ⟨maxLines, hrun⟩, hsound.count, hsound.size, fun hutf8 => ?_⟩
    have hlaid := hsound.laid hutf8
    obtain ⟨tail, hinter, htail⟩ := hlaid.shown
    refine ⟨hlaid.utf8.2, tail, hinter, fun hfits => ?_⟩
    rw [← trim_eq_nil_iff, htail]
    exact (hlaid.whole hsound.trimmed hdone).mpr (hwhole hutf8 hfits)

/-- A text is split into good lines, which show all of it when it can be laid out in three lines,
exactly when no line begins with a byte that has a whole line of continuation bytes behind it. That
it is to be shown whenever it has no more bytes than three lines do takes the layout as well. A text
in UTF-8 is always split. -/
theorem splits_iff (text : Bytes) :
    (Splits (Fits maxLines (sanitizeSay text (lineBytes * maxLines))) text ↔
        ∀ i < maxLines, ¬ Stuck (restAt text i)) ∧
      (Splits ((text.filter isPrintable).length ≤ lineBytes * maxLines) text ↔
        (∀ i < maxLines, ¬ Stuck (restAt text i)) ∧
          (IsUtf8 text → (text.filter isPrintable).length ≤ lineBytes * maxLines →
            Fits maxLines (sanitizeSay text (lineBytes * maxLines)))) ∧
      (IsUtf8 text → Splits (Fits maxLines (sanitizeSay text (lineBytes * maxLines))) text) := by
  refine ⟨?_, splits_iff_fits _ text, fun hutf8 => ?_⟩
  · rw [splits_iff_fits]
    exact and_iff_left fun _ hfits => hfits
  · rw [splits_iff_fits]
    exact ⟨fun i _ => not_stuck_restAt hutf8 i, fun _ hfits => hfits⟩

/-- 191 continuation bytes keep the loop going for ever. -/
theorem continuation_bytes_stuck : ¬ ∃ lines, Returns (List.replicate 191 0x80) lines := by
  rintro ⟨lines, n, hrun⟩
  have hfilter :
      (List.replicate 191 (0x80 : UInt8)).filter isPrintable = List.replicate 191 0x80 := by
    rw [List.filter_eq_self]
    intro c hc
    rw [List.eq_of_mem_replicate hc]
    rfl
  have hrest : restAt (List.replicate 191 0x80) 0 = List.replicate 191 0x80 := by
    unfold restAt start sanitizeSay utf8Cut
    simp only [hfilter, List.length_replicate]
    rw [if_pos (by decide), List.take_of_length_le (by rw [List.length_replicate])]
    apply trimBy_eq_self
    intro c hc
    rw [List.eq_of_mem_replicate hc]
    rfl
  have hstuck : Stuck (restAt (List.replicate 191 0x80) 0) := by
    rw [hrest]
    constructor
    · rw [List.length_replicate]
      exact Nat.lt_succ_self 190
    · intro i hlow hhigh
      unfold lineBytes at hhigh
      rw [List.getD_eq_getElem?_getD, List.getElem?_replicate, if_pos (by omega), Option.getD_some]
      rfl
  rw [run_eq_none (not_done_of_stuck (by decide) hstuck)] at hrun
  cases hrun

end Result

end Runs

end ReadyUp.Fleet.Say
