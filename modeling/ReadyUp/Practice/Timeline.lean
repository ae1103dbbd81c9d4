import ReadyUp.Practice.Scenario

/-!
# The timeline of a scenario

Every frame of a replay gets the events since the frame before. However the frames slice the round,
they get all of them, and in the same order (`due_append`, `complete_due`).
-/
namespace ReadyUp.Practice

open Support

inductive DueKind where
  | grenade
  | death
  | bomb
  deriving DecidableEq

/-- An event, by its place in its list. -/
structure Due where
  kind : DueKind
  index : ℕ
  deriving DecidableEq

/-- A row of `DueBetween`. -/
structure Entry where
  t : ℤ
  due : Due
  deriving DecidableEq

namespace Scenario

/-- The ticks of the events of a kind. -/
def ticks (sc : Scenario) : DueKind → List ℤ
  | .grenade => sc.grenades.map (·.t)
  | .death => sc.deaths.map (·.t)
  | .bomb => sc.bomb.map (·.t)

def entries (sc : Scenario) (kind : DueKind) : List Entry :=
  (sc.ticks kind).mapIdx fun i t => { t, due := { kind, index := i } }

/-- A loop of `DueBetween`. -/
def entriesBetween (sc : Scenario) (prevT nowT : ℤ) (kind : DueKind) : List Entry :=
  (sc.entries kind).filter fun e => prevT < e.t && e.t ≤ nowT

def dueBetween (sc : Scenario) (prevT nowT : ℤ) : List Due :=
  (sortBy (·.t) ([.grenade, .death, .bomb].flatMap (sc.entriesBetween prevT nowT))).map (·.due)

/-- The tick of an event of the scenario. -/
def tickOf (sc : Scenario) (d : Due) : Option ℤ := (sc.ticks d.kind)[d.index]?

end Scenario

section Slices

variable {sc : Scenario} {a b c T : ℤ} {d : Due} {e : Entry}

/-- All rows, in the order in which they are collected. -/
def allEntries (sc : Scenario) : List Entry := [.grenade, .death, .bomb].flatMap sc.entries

theorem dueBetween_eq (sc : Scenario) (a b : ℤ) :
    sc.dueBetween a b = (sortBy (·.t) ((allEntries sc).filter fun e => a < e.t && e.t ≤ b)).map
      (·.due) := by
  simp [Scenario.dueBetween, Scenario.entriesBetween, allEntries, List.flatMap_cons]

theorem due_append (sc : Scenario) (hab : a ≤ b) (hbc : b ≤ c) :
    sc.dueBetween a b ++ sc.dueBetween b c = sc.dueBetween a c := by
  let between : List Entry := (allEntries sc).filter fun e => a < e.t && e.t ≤ c
  have hearly : (allEntries sc).filter (fun e => a < e.t && e.t ≤ b) = between.filter fun e =>
      decide (e.t ≤ b) := by
    simp only [between, List.filter_filter]
    apply List.filter_congr
    intro e _
    by_cases heb : e.t ≤ b
    · simp [heb, heb.trans hbc]
    · simp [heb]
  have hlate : (allEntries sc).filter (fun e => b < e.t && e.t ≤ c) = between.filter fun e =>
      !decide (e.t ≤ b) := by
    simp only [between, List.filter_filter]
    apply List.filter_congr
    intro e _
    by_cases heb : e.t ≤ b
    · simp [heb, not_lt.mpr heb]
    · have hae : a < e.t := lt_of_le_of_lt hab (not_le.mp heb)
      simp [heb, not_le.mp heb, hae]
  have hcut : sortBy (·.t) between = sortBy (·.t) (between.filter fun e => decide (e.t ≤ b)) ++
      sortBy (·.t) (between.filter fun e => !decide (e.t ≤ b)) := by
    apply sortBy_cut
    intro e _ e' _ hle hgt
    simp only [decide_eq_true_eq, decide_eq_false_iff_not, not_le] at hle hgt
    exact lt_of_le_of_lt hle hgt
  simp only [dueBetween_eq, hearly, hlate, ← List.map_append, ← hcut, between]

theorem mem_entries : e ∈ sc.entries e.due.kind ↔ sc.tickOf e.due = some e.t := by
  obtain ⟨t, kind, index⟩ := e
  simp only [Scenario.entries, Scenario.tickOf, List.mem_mapIdx, List.getElem?_eq_some_iff]
  constructor
  · rintro ⟨i, hi, heq⟩
    cases heq
    exact ⟨hi, rfl⟩
  · rintro ⟨hi, rfl⟩
    exact ⟨index, hi, rfl⟩

theorem kind_of_mem_entries {kind : DueKind} (h : e ∈ sc.entries kind) : e.due.kind = kind := by
  obtain ⟨i, -, rfl⟩ := List.mem_mapIdx.mp h
  rfl

theorem mem_allEntries : e ∈ allEntries sc ↔ sc.tickOf e.due = some e.t := by
  rw [← mem_entries, allEntries, List.mem_flatMap]
  constructor
  · rintro ⟨kind, -, he⟩
    rw [kind_of_mem_entries he]
    exact he
  · intro he
    refine ⟨e.due.kind, ?_, he⟩
    cases e.due.kind <;> simp

theorem nodup_entries (sc : Scenario) (kind : DueKind) : (sc.entries kind).Nodup := by
  rw [List.nodup_iff_injective_getElem]
  intro i j heq
  simp only [Scenario.entries, List.getElem_mapIdx, Entry.mk.injEq, Due.mk.injEq] at heq
  exact Fin.ext heq.2.2

theorem nodup_allEntries (sc : Scenario) : (allEntries sc).Nodup := by
  have hdisjoint : ∀ {k k' : DueKind}, k ≠ k' → List.Disjoint (sc.entries k) (sc.entries k') := by
    intro k k' hne e he he'
    exact hne ((kind_of_mem_entries he).symm.trans (kind_of_mem_entries he'))
  rw [allEntries, List.nodup_flatMap]
  refine ⟨fun kind _ => nodup_entries sc kind, ?_⟩
  simp [List.pairwise_cons, Function.onFun, hdisjoint]

/-- The events of the scenario, each once and in the order of time. -/
structure Complete (sc : Scenario) (due : List Due) : Prop where
  mem_iff : ∀ d, d ∈ due ↔ (sc.tickOf d).isSome = true
  nodup : due.Nodup
  inOrder : due.Pairwise fun d d' => ∀ t ∈ sc.tickOf d, ∀ t' ∈ sc.tickOf d', t ≤ t'

theorem tickOf_nonneg (h : Sound sc) {t : ℤ} (ht : sc.tickOf d = some t) : 0 ≤ t := by
  have hmem := List.mem_of_getElem? ht
  cases hkind : d.kind with
  | grenade =>
    rw [hkind, Scenario.ticks, List.mem_map] at hmem
    obtain ⟨g, hg, rfl⟩ := hmem
    exact (h.grenades g hg).1
  | death =>
    rw [hkind, Scenario.ticks, List.mem_map] at hmem
    obtain ⟨x, hx, rfl⟩ := hmem
    exact (h.deaths x hx).1
  | bomb =>
    rw [hkind, Scenario.ticks, List.mem_map] at hmem
    obtain ⟨x, hx, rfl⟩ := hmem
    exact (h.bomb x hx).1

/-- From before the first tick to the last event or later, everything is due. -/
theorem complete_due (h : Sound sc) (hlast : ∀ d, ∀ t ∈ sc.tickOf d, t ≤ T) :
    Complete sc (sc.dueBetween (-1) T) := by
  have hall : ((allEntries sc).filter fun e => -1 < e.t && e.t ≤ T) = allEntries sc := by
    rw [List.filter_eq_self]
    intro e he
    have htick := mem_allEntries.mp he
    have hpos := tickOf_nonneg h htick
    have hle := hlast e.due e.t htick
    simp only [Bool.and_eq_true, decide_eq_true_eq]
    exact ⟨by omega, hle⟩
  rw [dueBetween_eq, hall]
  constructor
  · intro d
    simp only [List.mem_map, mem_sortBy, mem_allEntries, Option.isSome_iff_exists]
    constructor
    · rintro ⟨e, he, rfl⟩
      exact ⟨e.t, he⟩
    · rintro ⟨t, ht⟩
      exact ⟨⟨t, d⟩, ht, rfl⟩
  · -- two rows with the same event have the same tick
    apply List.Nodup.map_on
    · intro e he e' he' heq
      have htick := mem_allEntries.mp (mem_sortBy.mp he)
      have htick' := mem_allEntries.mp (mem_sortBy.mp he')
      obtain ⟨t, d⟩ := e
      obtain ⟨t', d'⟩ := e'
      simp only at heq htick htick'
      subst heq
      rw [Option.some.inj (htick.symm.trans htick')]
    · exact (sortBy_perm _ _).nodup_iff.mpr (nodup_allEntries sc)
  · rw [List.pairwise_map]
    refine (inOrder_sortBy (fun e : Entry => e.t) (allEntries sc)).imp_of_mem
      fun {e e'} he he' hle => ?_
    rw [mem_allEntries.mp (mem_sortBy.mp he), mem_allEntries.mp (mem_sortBy.mp he')]
    simpa using hle

end Slices

/-- A replay of a scenario that was accepted loses no event: the slices of two frames are that of
both together, and the slice from before the first tick to the last event has every event once, in
the order of time. -/
theorem replay_complete {json : Bytes} {sc : Scenario} (h : parse json = .ok sc) :
    (∀ a b c, a ≤ b → b ≤ c → sc.dueBetween a b ++ sc.dueBetween b c = sc.dueBetween a c) ∧
      ∀ T, (∀ d, ∀ t ∈ sc.tickOf d, t ≤ T) → Complete sc (sc.dueBetween (-1) T) :=
  ⟨fun _ _ _ => due_append sc, fun _ => complete_due (sound_parse h)⟩

/-- A round in which a player dies and the bomb explodes in the same tick. -/
def sampleText : Bytes :=
  [ascii "\x7b\"format\":\"readyup.scenario\",\"version\":1,\"id\":\"r\",\"map\":\"m\",",
    ascii "\"tickrate\":64,\"sample_ticks\":4,\"length\":9,\"players\":[\x7b\"team\":\"T\",",
    ascii "\"track\":[0,0,0,0,0],\"state\":[\x7b\"t\":0\x7d]\x7d],",
    ascii
    "\"deaths\":[\x7b\"t\":5,\"player\":0\x7d],\"bomb\":[\x7b\"t\":5,\"event\":\"exploded\"\x7d]\x7d"].flatten

theorem sampleText_ticks :
    ∃ sc, parse sampleText = .ok sc ∧ sc.ticks .grenade = [] ∧ sc.ticks .death = [5] ∧
    sc.ticks .bomb = [5] := by
  have hread :
      (parse sampleText).toOption.map
        (fun sc => (sc.ticks .grenade, sc.ticks .death, sc.ticks .bomb)) =
      some ([], [5], [5]) := by decide +kernel
  obtain ⟨sc, hsc, hticks⟩ := Option.map_eq_some_iff.mp hread
  simp only [Prod.mk.injEq] at hticks
  exact ⟨sc, eq_ok_of_toOption hsc, hticks⟩

theorem replay_complete_sample : ∃ sc, parse sampleText = .ok sc ∧
    sc.dueBetween (-1) 3 ++ sc.dueBetween 3 5 = sc.dueBetween (-1) 5 ∧
    Complete sc (sc.dueBetween (-1) 5) := by
  obtain ⟨sc, hparse, hgrenade, hdeath, hbomb⟩ := sampleText_ticks
  have hlast : ∀ d, ∀ t ∈ sc.tickOf d, t ≤ 5 := by
    intro d t ht
    have hmem := List.mem_of_getElem? ht
    cases hkind : d.kind with
    | grenade => simp [hkind, hgrenade] at hmem
    | death => simp_all
    | bomb => simp_all
  obtain ⟨hslices, hall⟩ := replay_complete hparse
  exact ⟨sc, hparse, hslices (-1) 3 5 (by decide) (by decide), hall 5 hlast⟩

end ReadyUp.Practice
