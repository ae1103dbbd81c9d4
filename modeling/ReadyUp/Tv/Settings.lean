import ReadyUp.Tv.Applier

/-!
# The settings are applied and restored

`PlanApply` leaves out a command when the cvar has the value already, so what it remembers has to
agree with the engine at all times. The engine changes its cvars by the commands of the plans and in
no other way here; it answers a query with the integer that a cvar holds.
-/
namespace ReadyUp.Tv

open Support JsonScan

/-- The integer that the engine takes from a text. -/
def engineValue (s : Bytes) : ℤ :=
  let (neg, ds) := intPrefix s
  if neg then -(ofDigits ds : ℤ) else ofDigits ds

/-- The answer to a query for a cvar with that value: the integer, or the integer as a float. -/
def Prints (i : ℤ) (t : Bytes) : Prop :=
  trimBy isSpace t = toDecimal i ∨
    i.natAbs < 2 ^ 53 ∧
      ∃ n : ℕ, trimBy isSpace t = toDecimal i ++ byte '.' :: List.replicate (n + 1) (byte '0')

/-- The plugin and the cvars of the engine. -/
structure Gotv where
  applier : Applier := {}
  cvars : Bytes → ℤ
  /-- The cvars that the plugin has applied at some time. -/
  touched : List Bytes := []

inductive GotvEvent where
  | apply (desired : List (Bytes × ℤ)) (force : Bool)
  | record (cvar : Bytes) (value : Option Bytes)
  | reload

def texts (desired : List (Bytes × ℤ)) : List (Bytes × Bytes) :=
  desired.map fun kv => (kv.1, toDecimal kv.2)

/-- The engine runs commands in their order. -/
def exec (cvars : Bytes → ℤ) (commands : List (Bytes × Bytes)) : Bytes → ℤ :=
  commands.foldl (fun cvars c => Function.update cvars c.1 (engineValue c.2)) cvars

namespace Gotv

variable (s : Gotv)

def apply (desired : List (Bytes × ℤ)) (force : Bool) : Gotv :=
  let result := s.applier.planApply (texts desired) force
  { applier := result.1
    cvars := exec s.cvars result.2.commands
    touched := s.touched ++ keys (s.applier.kept (texts desired)) }

def step : GotvEvent → Gotv
  | .apply desired force => s.apply desired force
  | .record cvar value => { s with applier := s.applier.recordBaseline cvar value }
  | .reload => { s with applier := (parseApplier (applierJson s.applier)).getD {} }

/-- Distinct cvars are wanted, with values that are not too long for a number; a baseline is
recorded before the cvar is first applied, and what looks like a number is the value of the cvar. -/
def Allowed : GotvEvent → Prop
  | .apply desired _ => (keys desired).Nodup ∧ ∀ kv ∈ desired, (toDecimal kv.2).length ≤ 24
  | .record cvar value => cvar ∉ s.touched ∧
      ∀ t, value = some t → numericValue (trimBy isSpace t) = true → Prints (s.cvars cvar) t
  | .reload => True

end Gotv

section Plans

variable {a : Applier} {desired : List (Bytes × Bytes)}

theorem Applier.needs_eq_false_iff (c : Bytes) :
    a.needs c = false ↔ c ∈ a.applied ∨ c ∈ a.baseline ∨ c ∈ a.baselineUnknown := by
  simp only [Applier.needs, Bool.and_eq_false_iff, Bool.not_eq_false',
    Std.ExtTreeMap.contains_iff_mem, Std.ExtTreeSet.contains_iff_mem, or_assoc]

theorem Applier.lookup_kept (hl : (keys desired).Nodup) (c : Bytes) :
    (a.kept desired).lookup c = if a.needs c then none else desired.lookup c := by
  rw [Applier.kept, lookup_filter hl]
  cases hneeds : a.needs c <;> cases desired.lookup c <;> simp [hneeds]

theorem Applier.nodup_kept (hl : (keys desired).Nodup) : (keys (a.kept desired)).Nodup :=
  nodup_keys_filter hl _

theorem Applier.nodup_dropped : (keys (a.dropped desired)).Nodup :=
  nodup_keys_filter a.applied.nodup_keys_toList _

theorem Applier.getElem?_applied (hl : (keys desired).Nodup) (force : Bool) (c : Bytes) :
    (a.planApply desired force).1.applied[c]? = (a.kept desired).lookup c := by
  refine (OrderedMap.getElem?_insertAll (Applier.nodup_kept hl) ∅ c).trans ?_
  simp

theorem Applier.lookup_dropped (hl : (keys desired).Nodup) (c : Bytes) :
    (a.dropped desired).lookup c =
      if (a.kept desired).lookup c = none then a.applied[c]? else none := by
  have hnext : (OrderedMap.insertAll ∅ (a.kept desired)).contains c =
      ((a.kept desired).lookup c).isSome := by
    rw [Std.ExtTreeMap.contains_eq_isSome_getElem?,
      OrderedMap.getElem?_insertAll (Applier.nodup_kept hl)]
    simp
  rw [Applier.dropped, lookup_filter a.applied.nodup_keys_toList, OrderedMap.lookup_toList]
  cases happlied : a.applied[c]? with
  | none => simp
  | some v =>
    have hneeds : a.needs c = false :=
      (Applier.needs_eq_false_iff c).mpr
        (.inl (Std.ExtTreeMap.mem_iff_isSome_getElem?.mpr (by simp [happlied])))
    have hnot : c ∉ (desired.filter fun kv => a.needs kv.1).map Prod.fst := by
      intro hmem
      obtain ⟨kv, hkv, rfl⟩ := List.mem_map.mp hmem
      rw [(List.mem_filter.mp hkv).2] at hneeds
      cases hneeds
    rw [Option.filter, hnext]
    cases (a.kept desired).lookup c <;> simp [hnot]

theorem Applier.release_fst {force : Bool} {kv x : Bytes × Bytes}
    (h : a.release force kv = some x) : x.1 = kv.1 := by
  rw [Applier.release] at h
  split at h
  · split_ifs at h
    rw [← Option.some.inj h]
  · obtain ⟨v, -, rfl⟩ := Option.map_eq_some_iff.mp h
    rfl

theorem Applier.lookup_commands (hl : (keys desired).Nodup) (force : Bool) (c : Bytes) :
    (a.planApply desired force).2.commands.lookup c =
      match (a.kept desired).lookup c with
      | some v => if force = true ∨ a.applied[c]? ≠ some v then some v else none
      | none => a.applied[c]?.bind fun v => (a.release force (c, v)).map Prod.snd := by
  rw [Applier.planApply, List.lookup_append, lookup_filter (Applier.nodup_kept hl),
    lookup_filterMap Applier.nodup_dropped fun _ _ =>
      Applier.release_fst, Applier.lookup_dropped hl]
  cases (a.kept desired).lookup c with
  | none => simp
  | some v =>
    rw [if_neg (Option.some_ne_none v), Option.bind_none, Option.or_none, Option.filter]
    simp

theorem Applier.nodup_commands (hl : (keys desired).Nodup) (force : Bool) :
    (keys (a.planApply desired force).2.commands).Nodup := by
  have hreleased := @keys_filterMap_sublist _ _ _ (a.dropped desired) (a.release force)
    fun _ _ => Applier.release_fst
  rw [Applier.planApply, keys, List.map_append, List.nodup_append]
  refine ⟨nodup_keys_filter (Applier.nodup_kept hl) _, hreleased.nodup Applier.nodup_dropped, ?_⟩
  rintro c hc _ hc' rfl
  have hkept : (a.kept desired).lookup c ≠ none := fun hnone =>
    lookup_eq_none.mp hnone ((List.filter_sublist.map Prod.fst).subset hc)
  have hdropped : (a.dropped desired).lookup c ≠ none := fun hnone =>
    lookup_eq_none.mp hnone (hreleased.subset hc')
  rw [Applier.lookup_dropped hl, if_neg hkept] at hdropped
  exact hdropped rfl

theorem exec_apply {commands : List (Bytes × Bytes)} (hl : (keys commands).Nodup)
    (cvars : Bytes → ℤ)
    (c : Bytes) : exec cvars commands c = ((commands.lookup c).map engineValue).getD (cvars c) := by
  induction commands generalizing cvars with
  | nil => rfl
  | cons kv commands ih =>
    obtain ⟨k, v⟩ := kv
    rw [keys_cons, List.nodup_cons] at hl
    have hrest := ih hl.2 (Function.update cvars k (engineValue v))
    rw [exec] at hrest ⊢
    rw [List.foldl_cons, hrest, lookup_cons_eq]
    split_ifs with hk
    · rw [lookup_eq_none.mpr (hk ▸ hl.1), hk]
      simp
    · rw [Function.update_of_ne hk]

end Plans

section Answers

theorem engineValue_toDecimal (i : ℤ) : engineValue (toDecimal i) = i := by
  rw [engineValue, intPrefix_toDecimal]
  dsimp only
  rw [ofDigits_decimal]
  by_cases hneg : i < 0
  · rw [if_pos (decide_eq_true hneg)]
    omega
  · rw [if_neg (by simpa using hneg)]
    omega

theorem numericValue_toDecimal {i : ℤ} (h : (toDecimal i).length ≤ 24) :
    numericValue (toDecimal i) = true := by
  refine decide_eq_true ⟨?_, h, ?_⟩
  · rw [toDecimal]
    exact fun hnil => decimal_ne_nil _ (List.append_eq_nil_iff.mp hnil).2
  · rw [List.all_eq_true]
    intro c hc
    rcases List.mem_append.mp hc with hc | hc
    · split_ifs at hc
      · rw [List.mem_singleton.mp hc]
        decide
      · cases hc
    · simp [decimal_isDigit _ c hc]

theorem point_notMem_toDecimal (i : ℤ) : byte '.' ∉ toDecimal i := by
  intro hc
  rcases List.mem_append.mp hc with hc | hc
  · split_ifs at hc
    · exact absurd (List.mem_singleton.mp hc) (by decide)
    · cases hc
  · exact absurd (decimal_isDigit _ _ hc) (by decide)

theorem strtod_zeros (i : ℤ) (n : ℕ) :
    strtod (toDecimal i ++ byte '.' :: List.replicate (n + 1) (byte '0')) =
      some (Binary64.ofInt i, []) := by
  let token : NumToken :=
    { neg := decide (i < 0), int := decimal i.natAbs,
      frac := some (List.replicate (n + 1) (byte '0')) }
  have hzeros : ∀ c ∈ List.replicate (n + 1) (byte '0'), isDigit c = true := by
    intro c hc
    rw [(List.mem_replicate.mp hc).2]
    decide
  have hwell : token.WellFormed := by
    refine ⟨⟨decimal_ne_nil _, decimal_isDigit _⟩, ?_, fun e he => by cases he⟩
    rintro f hf
    obtain rfl := Option.some.inj hf
    exact ⟨List.cons_ne_nil _ _, hzeros⟩
  have htext : token.text = toDecimal i ++ byte '.' :: List.replicate (n + 1) (byte '0') := by
    rw [NumToken.text, NumToken.fracText, NumToken.expText, toDecimal, List.append_nil,
      List.append_assoc]
    exact congrArg (· ++ _) (if_congr (by simp [token]) rfl rfl)
  have hofDigits : ∀ m, ofDigits (List.replicate m (byte '0')) = 0 := by
    intro m
    induction m with
    | zero => rfl
    | succ m ih =>
      rw [List.replicate_succ, ofDigits_cons, ih]
      simp [digitValue, byte]
  have hvalue : token.value = (intToken i).value := by
    rw [value_intToken, NumToken.value]
    simp only [token, Option.getD_some, ofDigits_append, ofDigits_decimal, hofDigits,
      NumToken.expValue, List.length_replicate, add_zero, Nat.cast_mul, Nat.cast_pow,
      Nat.cast_ofNat, zero_sub]
    rw [mul_assoc, ← zpow_natCast, ← zpow_add₀ (by norm_num)]
    simp
  rw [← htext, strtod_text hwell, NumToken.strtod, hvalue]
  exact congrArg (fun x => some (x, [])) (strtod_intToken i)

theorem baselineText_eq {value : Option Bytes} {i : ℤ} {clean : Bytes}
    (hprints : ∀ t, value = some t → numericValue (trimBy isSpace t) = true → Prints i t)
    (h : baselineText value = some clean) : clean = toDecimal i ∧ numericValue clean = true := by
  cases value with
  | none =>
    have hnone : baselineText none = none := by decide
    rw [hnone] at h
    cases h
  | some t =>
    simp only [baselineText, Option.getD_some] at h
    by_cases hpoint : numericValue (trimBy isSpace t) = true ∧ byte '.' ∈ trimBy isSpace t
    · rw [if_pos hpoint] at h
      rcases hprints t rfl hpoint.1 with hint | ⟨hsmall, n, hfloat⟩
      · rw [hint] at hpoint
        exact absurd hpoint.2 (point_notMem_toDecimal i)
      · rw [hfloat, strtod_zeros, Option.elim_some, Binary64.toInt64_ofInt hsmall] at h
        split_ifs at h with hnumeric
        obtain rfl := Option.some.inj h
        exact ⟨rfl, hnumeric⟩
    · rw [if_neg hpoint] at h
      split_ifs at h with hnumeric
      obtain rfl := Option.some.inj h
      refine ⟨?_, hnumeric⟩
      rcases hprints t rfl hnumeric with hint | ⟨-, n, hfloat⟩
      · exact hint
      · refine absurd ⟨hnumeric, ?_⟩ hpoint
        rw [hfloat]
        exact List.mem_append_right _ List.mem_cons_self

end Answers

namespace Gotv

/-- The maps agree with the engine: what is applied is what the cvar holds, and a baseline is what
it held at the start. -/
structure Sound (start : Bytes → ℤ) (s : Gotv) : Prop where
  applied : ∀ c v, s.applier.applied[c]? = some v →
    numericValue v = true ∧ isPassword c = false ∧ v = toDecimal (s.cvars c) ∧ c ∈ s.touched
  baseline : ∀ c b, s.applier.baseline[c]? = some b →
    numericValue b = true ∧ isPassword c = false ∧ b = toDecimal (start c)
  unknown : ∀ c ∈ s.applier.baselineUnknown, isPassword c = false
  untouched : ∀ c, c ∉ s.touched → s.cvars c = start c
  released : ∀ c b, s.applier.applied[c]? = none → s.applier.baseline[c]? = some b →
    s.cvars c = start c

variable {start : Bytes → ℤ} {s : Gotv}

theorem sound_start : Sound start { cvars := start } where
  applied c v h := by simp at h
  baseline c b h := by simp at h
  unknown c h := by simp at h
  untouched _ _ := rfl
  released _ _ _ _ := rfl

theorem Sound.plain (hs : Sound start s) : s.applier.Plain where
  baseline c v h := ⟨(hs.baseline c v h).1, (hs.baseline c v h).2.1⟩
  applied c v h := ⟨(hs.applied c v h).1, (hs.applied c v h).2.1⟩

theorem Sound.reload (hs : Sound start s) : s.step .reload = s := by
  rw [step, parseApplier_applierJson hs.plain, Option.getD_some]

theorem Sound.record (hs : Sound start s) {cvar : Bytes} {value : Option Bytes}
    (h : s.Allowed (.record cvar value)) : Sound start (s.step (.record cvar value)) := by
  obtain ⟨hcvar, hprints⟩ := h
  rw [step, Applier.recordBaseline]
  by_cases hpassword : isPassword cvar = true
  · rw [if_pos hpassword]
    exact hs
  rw [if_neg hpassword]
  rw [Bool.not_eq_true] at hpassword
  cases htext : baselineText value with
  | none =>
    refine ⟨hs.applied, hs.baseline, ?_, hs.untouched, hs.released⟩
    intro c hc
    rw [Std.ExtTreeSet.mem_insert, Std.LawfulEqOrd.compare_eq_iff_eq] at hc
    rcases hc with rfl | hc
    · exact hpassword
    · exact hs.unknown c hc
  | some clean =>
    obtain ⟨hclean, hnumeric⟩ := baselineText_eq hprints htext
    refine ⟨hs.applied, ?_, ?_, hs.untouched, ?_⟩
    · intro c b hb
      rw [OrderedMap.getElem?_insert] at hb
      split_ifs at hb with hc
      · rw [hc, ← Option.some.inj hb, ← hs.untouched cvar hcvar]
        exact ⟨hnumeric, hpassword, hclean⟩
      · exact hs.baseline c b hb
    · intro c hc
      exact hs.unknown c (Std.ExtTreeSet.mem_of_mem_erase hc)
    · intro c b happlied hb
      rw [OrderedMap.getElem?_insert] at hb
      split_ifs at hb with hc
      · rw [hc]
        exact hs.untouched cvar hcvar
      · exact hs.released c b happlied hb

section Apply

variable {desired : List (Bytes × ℤ)} {force : Bool}

theorem keys_texts (desired : List (Bytes × ℤ)) : keys (texts desired) = keys desired := by
  rw [keys, texts, List.map_map]
  rfl

theorem lookup_texts (desired : List (Bytes × ℤ)) (c : Bytes) :
    (texts desired).lookup c = (desired.lookup c).map toDecimal := by
  induction desired with
  | nil => rfl
  | cons kv desired ih =>
    rw [texts, List.map_cons, lookup_cons_eq, lookup_cons_eq, ← texts, ih]
    split_ifs <;> rfl

theorem cvars_apply (hl : (keys desired).Nodup) (c : Bytes) :
    (s.apply desired force).cvars c =
      (((s.applier.planApply (texts desired) force).2.commands.lookup c).map engineValue).getD
        (s.cvars c) := by
  rw [← keys_texts] at hl
  exact exec_apply (Applier.nodup_commands hl force) s.cvars c

theorem applied_apply (hl : (keys desired).Nodup) (c : Bytes) :
    (s.apply desired force).applier.applied[c]? =
      if s.applier.needs c then none else (desired.lookup c).map toDecimal := by
  rw [← keys_texts] at hl
  rw [apply, Applier.getElem?_applied hl, Applier.lookup_kept hl, lookup_texts]

/-- A cvar that is wanted, and has been read or applied, has its value. -/
theorem Sound.cvars_kept (hs : Sound start s) (hl : (keys desired).Nodup) {c : Bytes} {i : ℤ}
    (hneeds : s.applier.needs c = false) (hc : desired.lookup c = some i) :
    (s.apply desired force).cvars c = i := by
  have hkept : (s.applier.kept (texts desired)).lookup c = some (toDecimal i) := by
    rw [Applier.lookup_kept (by rwa [keys_texts]), hneeds, lookup_texts, hc]
    rfl
  rw [cvars_apply hl, Applier.lookup_commands (by rwa [keys_texts]), hkept]
  by_cases hsend : force = true ∨ s.applier.applied[c]? ≠ some (toDecimal i)
  · simp only [if_pos hsend, Option.map_some, Option.getD_some, engineValue_toDecimal]
  · simp only [if_neg hsend, Option.map_none, Option.getD_none]
    -- the command is left out: the value was applied before
    rw [not_or, not_not] at hsend
    exact (toDecimal_injective (hs.applied c _ hsend.2).2.2.1).symm

/-- A cvar with a baseline that is not wanted holds what it held at the start. -/
theorem Sound.cvars_released (hs : Sound start s) (hl : (keys desired).Nodup) {c b : Bytes}
    (hkept : (s.applier.kept (texts desired)).lookup c = none)
    (hb : s.applier.baseline[c]? = some b) : (s.apply desired force).cvars c = start c := by
  rw [cvars_apply hl, Applier.lookup_commands (by rwa [keys_texts]), hkept]
  cases happlied : s.applier.applied[c]? with
  | none => exact hs.released c b happlied hb
  | some v =>
    have hstart := (hs.baseline c b hb).2.2
    simp only [Option.bind_some, Applier.release, hb]
    by_cases hsend : b ≠ v ∨ force = true
    · rw [if_pos hsend, hstart]
      exact engineValue_toDecimal _
    · rw [if_neg hsend]
      -- the command is left out: the applied value is the baseline
      rw [not_or, not_not] at hsend
      rw [hsend.1, (hs.applied c v happlied).2.2.1] at hstart
      exact toDecimal_injective hstart

theorem Sound.apply (hs : Sound start s) (h : s.Allowed (.apply desired force)) :
    Sound start (s.apply desired force) := by
  obtain ⟨hl, hlength⟩ := h
  have hl' : (keys (texts desired)).Nodup := by rwa [keys_texts]
  refine ⟨?_, hs.baseline, hs.unknown, ?_, ?_⟩
  · intro c v hv
    rw [applied_apply hl] at hv
    split_ifs at hv with hneeds
    rw [Bool.not_eq_true] at hneeds
    obtain ⟨i, hi, rfl⟩ := Option.map_eq_some_iff.mp hv
    refine ⟨numericValue_toDecimal (hlength (c, i) (mem_of_lookup hi)), ?_, ?_, ?_⟩
    · rcases (Applier.needs_eq_false_iff c).mp hneeds with hc | hc | hc
      · exact (hs.applied c _ (Std.ExtTreeMap.getElem?_eq_some_getElem hc)).2.1
      · exact (hs.baseline c _ (Std.ExtTreeMap.getElem?_eq_some_getElem hc)).2.1
      · exact hs.unknown c hc
    · rw [hs.cvars_kept hl hneeds hi]
    · have hkept : (s.applier.kept (texts desired)).lookup c = some (toDecimal i) := by
        rw [Applier.lookup_kept hl', hneeds, lookup_texts, hi]
        rfl
      exact List.mem_append_right _ (mem_keys_of_mem (mem_of_lookup hkept))
  · intro c hc
    rw [Gotv.apply, List.mem_append, not_or] at hc
    have hcvars : s.cvars c = start c := hs.untouched c hc.1
    have happlied : s.applier.applied[c]? = none := by
      by_contra hsome
      obtain ⟨v, hv⟩ := Option.ne_none_iff_exists'.mp hsome
      exact hc.1 (hs.applied c v hv).2.2.2
    rw [cvars_apply hl, Applier.lookup_commands hl', lookup_eq_none.mpr hc.2, happlied]
    exact hcvars
  · intro c b happlied hb
    refine hs.cvars_released hl ?_ hb
    rw [applied_apply hl] at happlied
    rw [Applier.lookup_kept hl', lookup_texts]
    exact happlied

end Apply

theorem Sound.step (hs : Sound start s) {e : GotvEvent} (h : s.Allowed e) :
    Sound start (s.step e) := by
  cases e with
  | apply desired force => exact hs.apply h
  | record cvar value => exact hs.record h
  | reload => rwa [hs.reload]

/-- A guarded run from the start of the plugin keeps the maps sound. -/
theorem sound_run {es : List GotvEvent} (h : Guarded step Allowed { cvars := start } es) :
    Sound start (run step { cvars := start } es) :=
  h.invariant sound_start fun _ _ hs he => hs.step he

/-- After a plan, each wanted cvar that has not to be read first has its value, and each other cvar
that the plugin changed is back at its baseline. A reload of the plugin changes nothing. -/
theorem applied_and_restored {es : List GotvEvent}
    (h : Guarded step Allowed { cvars := start } es) : let s := run step { cvars := start } es
    parseApplier (applierJson s.applier) = some s.applier ∧
      ∀ desired force, s.Allowed (.apply desired force) →
        let s' := s.step (.apply desired force)
        (∀ kv ∈ desired,
          kv.1 ∉ (s.applier.planApply (texts desired) force).2.needBaseline →
          s'.cvars kv.1 = kv.2) ∧
        ∀ c ∈ s'.touched, c ∉ keys desired → ∀ b, s'.applier.baseline[c]? = some b →
          b = toDecimal (start c) ∧ s'.cvars c = start c := by
  intro s
  have hs : Sound start s := sound_run h
  refine ⟨parseApplier_applierJson hs.plain, fun desired force hallowed => ⟨?_, ?_⟩⟩
  · rintro ⟨c, i⟩ hmem hread
    refine hs.cvars_kept hallowed.1 ?_ (lookup_of_mem hallowed.1 hmem)
    by_contra hneeds
    refine hread (List.mem_map.mpr ⟨(c, toDecimal i), List.mem_filter.mpr ⟨?_, ?_⟩, rfl⟩)
    · exact List.mem_map.mpr ⟨(c, i), hmem, rfl⟩
    · rwa [Bool.not_eq_false] at hneeds
  · intro c _ hc b hb
    refine ⟨(hs.baseline c b hb).2.2, hs.cvars_released hallowed.1 ?_ hb⟩
    rw [Applier.lookup_kept (by rw [keys_texts]; exact hallowed.1), lookup_texts,
      lookup_eq_none.mpr hc]
    split_ifs <;> rfl

/-- The delay of a match, and what the server had before. -/
theorem applied_and_restored_delay :
    let delay := ascii "tv_delay"
    let events : List GotvEvent := [.record delay (some (ascii "30")), .apply [(delay, 105)] false]
    let s := run step { cvars := fun _ => 30 } events
    parseApplier (applierJson s.applier) = some s.applier ∧
      s.cvars delay = 105 ∧ (s.step (.apply [] false)).cvars delay = 30 := by
  intro delay events s
  have hread : Allowed { cvars := fun _ => 30 } (.record delay (some (ascii "30"))) := by
    refine ⟨List.not_mem_nil, ?_⟩
    rintro t ht -
    rw [← Option.some.inj ht]
    exact .inl (by decide)
  have hallowed : Guarded step Allowed { cvars := fun _ => 30 } events :=
    ⟨hread, ⟨List.nodup_singleton _, by decide⟩, trivial⟩
  obtain ⟨hreload, hplans⟩ := applied_and_restored hallowed
  obtain ⟨-, hrestored⟩ := hplans [] false ⟨List.nodup_nil, by decide⟩
  refine ⟨hreload, rfl, (hrestored delay ?_ List.not_mem_nil (ascii "30") rfl).2⟩
  exact List.mem_of_elem_eq_true rfl

end Gotv

end ReadyUp.Tv
