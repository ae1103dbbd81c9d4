import ReadyUp.Fleet.Say

/-!
# Team names

`sanitizeTeamName` makes a team's name fit for a console command: it drops the bytes that would end
the command or its quotes, trims the rest and cuts it to 32 bytes. The cut comes last, so it can
leave a space at the end. It does so exactly when there is one right before the place of the cut
(`sanitized_iff`).
-/
namespace ReadyUp.Match.TeamNames

open Support JsonTree Fleet.Say

section Code

def isDropped (c : UInt8) : Bool :=
  c < 0x20 || c == byte '"' || c == byte ';' || c == byte '\\' || c == 0x7F

/-- The name without these bytes and without the spaces at its ends. -/
def trimmedName (s : Bytes) : Bytes := trim (s.filter fun c => !isDropped c)

def sanitizeTeamName (s : Bytes) : Bytes :=
  let t := trimmedName s
  if 32 < t.length then t.take (cutBack t 32) else t

end Code

section Spec

/-- What the value of a team name should be. -/
structure Sanitized (s name : Bytes) : Prop where
  length_le : name.length ≤ 32
  clean : ∀ c ∈ name, isDropped c = false
  head : ∀ c ∈ name.head?, isBlank c = false
  last : ∀ c ∈ name.getLast?, isBlank c = false
  utf8 : IsUtf8 s → IsUtf8 name
  again : sanitizeTeamName name = name

/-- A text of more than 32 bytes with a space right before the last of its first 33 bytes that is no
continuation byte. -/
def SpaceAtCut (t : Bytes) : Prop :=
  32 < t.length ∧ ∃ k < 32, isBlank (t.getD k 0) = true ∧ isCont (t.getD (k + 1) 0) = false ∧
    ∀ i, k + 1 < i → i ≤ 32 → isCont (t.getD i 0) = true

/-- The bytes that are not left out are spaces around such a text, which neither begins nor ends
with one. -/
def CutsAtSpace (s : Bytes) : Prop :=
  ∃ g t g', (s.filter fun c => !isDropped c) = g ++ t ++ g' ∧ (∀ c ∈ g, isBlank c = true) ∧
    (∀ c ∈ g', isBlank c = true) ∧ (∀ c ∈ t.head?, isBlank c = false) ∧
    (∀ c ∈ t.getLast?, isBlank c = false) ∧
    SpaceAtCut t

end Spec

section Trimming

variable {s t : Bytes}

theorem trim_eq_self_iff :
    trim s = s ↔ (∀ c ∈ s.head?, isBlank c = false) ∧ ∀ c ∈ s.getLast?, isBlank c = false := by
  constructor
  · intro h
    constructor
    · intro c hc
      obtain ⟨u, rfl⟩ := List.head?_eq_some_iff.mp hc
      exact head_trim h
    · intro c hc
      rw [← h] at hc
      obtain ⟨hne, rfl⟩ := List.mem_getLast?_eq_getLast hc
      exact Bool.eq_false_iff.mpr (List.rdropWhile_last_not isBlank (s.dropWhile isBlank) hne)
  · rintro ⟨hhead, hlast⟩
    have hdrop : s.dropWhile isBlank = s := by
      cases s with
      | nil => rfl
      | cons c u => simp [hhead c rfl]
    rw [trim, trimBy, hdrop, List.rdropWhile_eq_self_iff]
    intro hne
    simp [hlast _ (List.getLast?_eq_getLast_of_ne_nil hne)]

theorem trim_eq_iff :
    trim s = t ↔ (∀ c ∈ t.head?, isBlank c = false) ∧ (∀ c ∈ t.getLast?, isBlank c = false) ∧
    ∃ g g', s = g ++ t ++ g' ∧ (∀ c ∈ g, isBlank c = true) ∧ ∀ c ∈ g', isBlank c = true := by
  constructor
  · rintro rfl
    obtain ⟨hhead, hlast⟩ := trim_eq_self_iff.mp (trim_trim s)
    exact ⟨hhead, hlast, trim_spec s⟩
  · rintro ⟨hhead, hlast, g, g', rfl, hg, hg'⟩
    calc trim (g ++ t ++ g') = trim (g ++ t) := trim_append_blank hg' _
      _ = trim t := trim_blank_append hg t
      _ = t := trim_eq_self_iff.mpr ⟨hhead, hlast⟩

theorem mem_of_mem_trim {c : UInt8} (h : c ∈ trim s) : c ∈ s := by
  obtain ⟨g, g', hs, -, -⟩ := trim_spec s
  rw [hs]
  simp [h]

end Trimming

section Cut

variable {s t : Bytes} {n k : ℕ}

/-- The loop stops at the last byte that is no continuation byte. -/
theorem cutBack_eq_succ_iff : cutBack t n = k + 1 ↔
    k < n ∧ isCont (t.getD (k + 1) 0) = false ∧ ∀ i, k + 1 < i → i ≤ n →
      isCont (t.getD i 0) = true := by
  induction n with
  | zero => simp [cutBack]
  | succ n ih =>
    unfold cutBack
    split_ifs with hcont
    · rw [ih]
      constructor
      · rintro ⟨hlt, hfresh, hall⟩
        refine ⟨by omega, hfresh, fun i hlow hhigh => ?_⟩
        rcases Nat.lt_or_eq_of_le hhigh with hless | rfl
        · exact hall i hlow (by omega)
        · exact hcont
      · rintro ⟨hlt, hfresh, hall⟩
        have hne : k ≠ n := by
          rintro rfl
          exact absurd (hcont.symm.trans hfresh) Bool.noConfusion
        exact ⟨by omega, hfresh, fun i hlow hhigh => hall i hlow (by omega)⟩
    · constructor
      · intro h
        obtain rfl : n = k := by omega
        exact ⟨by omega, Bool.eq_false_iff.mpr hcont, fun i hlow hhigh => absurd hlow (by omega)⟩
      · rintro ⟨hlt, -, hall⟩
        by_contra hne
        exact hcont (hall (n + 1) (by omega) le_rfl)

/-- A text that is cut ends with a space exactly when there was one right before the cut. -/
theorem blank_last_iff (hlong : 32 < t.length) :
    (∃ c ∈ (t.take (cutBack t 32)).getLast?, isBlank c = true) ↔ SpaceAtCut t := by
  have hlast : ∀ k < 32, (t.take (k + 1)).getLast? = some (t.getD k 0) := by
    intro k hk
    have hlt : k < t.length := by omega
    rw [List.take_succ_eq_append_getElem hlt, List.getLast?_concat, List.getD_eq_getElem?_getD,
      List.getElem?_eq_getElem hlt, Option.getD_some]
  constructor
  · rintro ⟨c, hc, hblank⟩
    cases hcut : cutBack t 32 with
    | zero => simp [hcut] at hc
    | succ k =>
      obtain ⟨hlt, hfresh, hall⟩ := cutBack_eq_succ_iff.mp hcut
      rw [hcut, hlast k hlt, Option.mem_some_iff] at hc
      exact ⟨hlong, k, hlt, hc ▸ hblank, hfresh, hall⟩
  · rintro ⟨-, k, hlt, hblank, hfresh, hall⟩
    have hcut := cutBack_eq_succ_iff.mpr ⟨hlt, hfresh, hall⟩
    exact ⟨t.getD k 0, by simp [hcut, hlast k hlt], hblank⟩

end Cut

section Result

variable {s : Bytes}

theorem trimmedName_extends (s : Bytes) : sanitizeTeamName s <+: trimmedName s := by
  unfold sanitizeTeamName
  simp only
  split_ifs
  · exact List.take_prefix _ _
  · exact List.prefix_rfl

theorem length_sanitizeTeamName_le (s : Bytes) : (sanitizeTeamName s).length ≤ 32 := by
  unfold sanitizeTeamName
  simp only
  split_ifs with hlong
  · have hcut := cutBack_le (trimmedName s) 32
    rw [List.length_take]
    omega
  · exact not_lt.mp hlong

theorem isDropped_of_mem {c : UInt8} (h : c ∈ sanitizeTeamName s) : isDropped c = false := by
  have hmem := mem_of_mem_trim ((trimmedName_extends s).subset h)
  simpa using (List.mem_filter.mp hmem).2

/-- The first byte of the name is that of the trimmed text. -/
theorem head_sanitizeTeamName (s : Bytes) :
    ∀ c ∈ (sanitizeTeamName s).head?, isBlank c = false := by
  intro c hc
  obtain ⟨u, hname⟩ := List.head?_eq_some_iff.mp hc
  obtain ⟨v, hv⟩ := trimmedName_extends s
  rw [hname, List.cons_append] at hv
  exact head_trim hv.symm

theorem isDropped_lt {c : UInt8} (h : isDropped c = true) : c < 0x80 := by
  simp only [isDropped, Bool.or_eq_true, decide_eq_true_eq, beq_iff_eq] at h
  rcases h with (((h | rfl) | rfl) | rfl) | rfl
  · exact UInt8.lt_trans h (by decide)
  · decide
  · decide
  · decide
  · decide

theorem isUtf8_sanitizeTeamName (h : IsUtf8 s) : IsUtf8 (sanitizeTeamName s) := by
  have htrimmed : IsUtf8 (trimmedName s) := by
    apply isUtf8_trim
    apply h.filter
    intro c hc
    exact isDropped_lt (by simpa using hc)
  unfold sanitizeTeamName
  simp only
  split_ifs with hlong
  · by_cases hzero : cutBack (trimmedName s) 32 = 0
    · simpa [hzero] using isUtf8_nil
    · have hfresh := startsFresh_drop (cutBack_fresh hzero)
      rw [← List.take_append_drop (cutBack (trimmedName s) 32) (trimmedName s)] at htrimmed
      exact (htrimmed.cut hfresh).1
  · exact htrimmed

theorem cutsAtSpace_iff : CutsAtSpace s ↔ SpaceAtCut (trimmedName s) := by
  constructor
  · rintro ⟨g, t, g', hs, hg, hg', hhead, hlast, hspace⟩
    have htrim : trimmedName s = t := trim_eq_iff.mpr ⟨hhead, hlast, g, g', hs, hg, hg'⟩
    exact htrim ▸ hspace
  · intro h
    obtain ⟨hhead, hlast, g, g', hs, hg, hg'⟩ := trim_eq_iff.mp (rfl : trim _ = trimmedName s)
    exact ⟨g, _, g', hs, hg, hg', hhead, hlast, h⟩

/-- The space at the cut is all that can be wrong at the end of a name. -/
theorem last_sanitizeTeamName_iff :
    (∀ c ∈ (sanitizeTeamName s).getLast?, isBlank c = false) ↔ ¬CutsAtSpace s := by
  rw [cutsAtSpace_iff]
  unfold sanitizeTeamName
  simp only
  split_ifs with hlong
  · rw [← blank_last_iff hlong]
    simp
  · have htrimmed := trim_eq_self_iff.mp (trim_trim (s.filter fun c => !isDropped c))
    constructor
    · intro _ hspace
      exact hlong hspace.1
    · intro _
      exact htrimmed.2

/-- A short name without a byte to drop or a space at an end stays as it is. -/
theorem sanitizeTeamName_eq_self {name : Bytes} (hlength : name.length ≤ 32)
    (hclean : ∀ c ∈ name, isDropped c = false) (hhead : ∀ c ∈ name.head?, isBlank c = false)
    (hlast : ∀ c ∈ name.getLast?, isBlank c = false) : sanitizeTeamName name = name := by
  have hfilter : (name.filter fun c => !isDropped c) = name := by
    rw [List.filter_eq_self]
    intro c hc
    simp [hclean c hc]
  have htrimmed : trimmedName name = name := by
    rw [trimmedName, hfilter]
    exact trim_eq_self_iff.mpr ⟨hhead, hlast⟩
  unfold sanitizeTeamName
  simp only [htrimmed]
  exact if_neg (not_lt.mpr hlength)

/-- A name comes out as it should exactly when there is no space right before the place of the
cut. -/
theorem sanitized_iff (s : Bytes) : Sanitized s (sanitizeTeamName s) ↔ ¬CutsAtSpace s := by
  constructor
  · intro h
    exact last_sanitizeTeamName_iff.mp h.last
  · intro h
    have hlast := last_sanitizeTeamName_iff.mpr h
    have hlength := length_sanitizeTeamName_le s
    have hclean : ∀ c ∈ sanitizeTeamName s, isDropped c = false := fun c hc => isDropped_of_mem hc
    have hhead := head_sanitizeTeamName s
    exact ⟨hlength, hclean, hhead, hlast, isUtf8_sanitizeTeamName,
      sanitizeTeamName_eq_self hlength hclean hhead hlast⟩

/-- A space in the place of the 32nd byte is left at the end, and a second time it is trimmed. -/
theorem space_before_cut :
    let s := List.replicate 31 (byte 'a') ++ ascii " b"
    ¬Sanitized s (sanitizeTeamName s) ∧
      sanitizeTeamName (sanitizeTeamName s) = List.replicate 31 (byte 'a') := by
  intro s
  constructor
  · intro h
    exact absurd h.last (by decide)
  · decide

end Result

end ReadyUp.Match.TeamNames
