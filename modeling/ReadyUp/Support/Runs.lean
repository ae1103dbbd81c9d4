import Mathlib.Data.List.Basic
import Mathlib.Order.Defs.PartialOrder

/-!
# Finite runs of a transition function

A run feeds a list of events to a total step function. `Guarded` says that every
event meets a condition on the state it finds, so a guarded run is the same as a run
of the system restricted to the transitions the condition lets through. An invariant
of the restricted system needs one preservation lemma and no further induction.
-/
namespace ReadyUp.Support

variable {σ ε : Type*}

/-- The state after the events, in order. -/
def run (step : σ → ε → σ) : σ → List ε → σ
  | s, [] => s
  | s, e :: es => run step (step s e) es

@[simp] theorem run_nil (step : σ → ε → σ) (s : σ) : run step s [] = s := rfl

@[simp] theorem run_cons (step : σ → ε → σ) (s : σ) (e : ε) (es : List ε) :
    run step s (e :: es) = run step (step s e) es := rfl

@[simp] theorem run_append (step : σ → ε → σ) (s : σ) (es fs : List ε) :
    run step s (es ++ fs) = run step (run step s es) fs := by
  induction es generalizing s with
  | nil => rfl
  | cons e es ih => exact ih (step s e)

theorem run_invariant {step : σ → ε → σ} {P : σ → Prop} {es : List ε} {s : σ} (hs : P s)
    (hstep : ∀ e ∈ es, ∀ s, P s → P (step s e)) : P (run step s es) := by
  induction es generalizing s with
  | nil => exact hs
  | cons e es ih =>
    exact ih (hstep e List.mem_cons_self s hs) fun e' he' =>
      hstep e' (List.mem_cons_of_mem _ he')

/-- Every event meets `guard` in the state that it finds. -/
def Guarded (step : σ → ε → σ) (guard : σ → ε → Prop) : σ → List ε → Prop
  | _, [] => True
  | s, e :: es => guard s e ∧ Guarded step guard (step s e) es

instance Guarded.decidable (step : σ → ε → σ) (guard : σ → ε → Prop)
    [∀ s e, Decidable (guard s e)] : ∀ s es, Decidable (Guarded step guard s es)
  | _, [] => inferInstanceAs (Decidable True)
  | s, e :: es =>
    have := Guarded.decidable step guard (step s e) es
    inferInstanceAs (Decidable (guard s e ∧ Guarded step guard (step s e) es))

section Guarded

variable {step : σ → ε → σ} {guard : σ → ε → Prop} {s : σ}

@[simp] theorem guarded_nil : Guarded step guard s [] := trivial

@[simp] theorem guarded_cons {e : ε} {es : List ε} :
    Guarded step guard s (e :: es) ↔ guard s e ∧ Guarded step guard (step s e) es := Iff.rfl

@[simp] theorem guarded_append {es fs : List ε} :
    Guarded step guard s (es ++ fs) ↔
      Guarded step guard s es ∧ Guarded step guard (run step s es) fs := by
  induction es generalizing s with
  | nil => simp
  | cons e es ih => simp [ih, and_assoc]

theorem Guarded.and_forall {p : ε → Prop} {es : List ε} (h : Guarded step guard s es)
    (hes : ∀ e ∈ es, p e) : Guarded step (fun s e => guard s e ∧ p e) s es := by
  induction es generalizing s with
  | nil => trivial
  | cons e es ih =>
    exact ⟨⟨h.1, hes e List.mem_cons_self⟩,
      ih h.2 fun e' he' => hes e' (List.mem_cons_of_mem _ he')⟩

/-- One preservation lemma carries an invariant through every guarded run. -/
theorem Guarded.invariant {P : σ → Prop} {es : List ε} (h : Guarded step guard s es)
    (hs : P s) (hstep : ∀ s e, P s → guard s e → P (step s e)) : P (run step s es) := by
  induction es generalizing s with
  | nil => exact hs
  | cons e es ih => exact ih h.2 (hstep s e hs h.1)

/-- What every guarded step from an invariant state meets, a guarded run meets at every step. -/
theorem Guarded.imp {P : σ → Prop} {q : σ → ε → Prop} {es : List ε}
    (h : Guarded step guard s es) (hs : P s)
    (hstep : ∀ s e, P s → guard s e → P (step s e) ∧ q s e) : Guarded step q s es := by
  induction es generalizing s with
  | nil => trivial
  | cons e es ih =>
    obtain ⟨hp, hq⟩ := hstep s e hs h.1
    exact ⟨hq, ih h.2 hp⟩

/-- A measure that no step lowers is back at its start only if no step has raised it. -/
theorem Guarded.measure_eq_iff {β : Type*} [PartialOrder β] {P : σ → Prop} {m : σ → β}
    {es : List ε} (h : Guarded step guard s es) (hs : P s)
    (hstep : ∀ s e, P s → guard s e → P (step s e) ∧ m s ≤ m (step s e)) :
    m s ≤ m (run step s es) ∧
      (m (run step s es) = m s ↔ Guarded step (fun s e => m (step s e) = m s) s es) := by
  induction es generalizing s with
  | nil => simp
  | cons e es ih =>
    obtain ⟨hp, hle⟩ := hstep s e hs h.1
    obtain ⟨hrest, hiff⟩ := ih h.2 hp
    rw [run_cons, guarded_cons]
    refine ⟨le_trans hle hrest, ?_⟩
    constructor
    · intro heq
      have hone : m (step s e) = m s := le_antisymm (heq ▸ hrest) hle
      exact ⟨hone, hiff.mp (heq.trans hone.symm)⟩
    · rintro ⟨hone, hguarded⟩
      exact (hiff.mpr hguarded).trans hone

/-- Two conditions that agree wherever an invariant holds guard the same runs. -/
theorem Guarded.congr {P : σ → Prop} {p q : σ → ε → Prop} {es : List ε}
    (h : Guarded step guard s es) (hs : P s)
    (hstep : ∀ s e, P s → guard s e → P (step s e) ∧ (p s e ↔ q s e)) :
    Guarded step p s es ↔ Guarded step q s es := by
  induction es generalizing s with
  | nil => simp
  | cons e es ih =>
    obtain ⟨hp, hiff⟩ := hstep s e hs h.1
    rw [guarded_cons, guarded_cons, hiff, ih h.2 hp]

end Guarded

/-- `P` holds in every state of the run, the first one included. -/
def Always (step : σ → ε → σ) (P : σ → Prop) : σ → List ε → Prop
  | s, [] => P s
  | s, e :: es => P s ∧ Always step P (step s e) es

section Always

variable {step : σ → ε → σ} {P : σ → Prop} {s : σ}

theorem Always.first {es : List ε} (h : Always step P s es) : P s := by
  cases es with
  | nil => exact h
  | cons e es => exact h.1

theorem always_iff {es : List ε} : Always step P s es ↔ ∀ fs, fs <+: es → P (run step s fs) := by
  induction es generalizing s with
  | nil =>
    refine ⟨?_, fun h => h [] (List.prefix_refl _)⟩
    intro h fs hfs
    rw [List.prefix_nil.mp hfs]
    exact h
  | cons e es ih =>
    rw [Always, ih]
    constructor
    · rintro ⟨hs, h⟩ fs hfs
      cases fs with
      | nil => exact hs
      | cons f fs =>
        obtain ⟨rfl, htail⟩ := List.cons_prefix_cons.mp hfs
        exact h fs htail
    · intro h
      exact ⟨h [] List.nil_prefix, fun fs hfs => h (e :: fs) (List.cons_prefix_cons.mpr ⟨rfl, hfs⟩)⟩

/-- What follows from an invariant of the guarded runs holds in every state of them. -/
theorem Guarded.always {guard : σ → ε → Prop} {inv : σ → Prop} {es : List ε}
    (h : Guarded step guard s es)
    (hs : inv s) (hinv : ∀ s e, inv s → guard s e → inv (step s e)) (hP : ∀ s, inv s → P s) :
    Always step P s es := by
  induction es generalizing s with
  | nil => exact hP s hs
  | cons e es ih => exact ⟨hP s hs, ih h.2 (hinv s e hs h.1)⟩

/-- Where a condition on the steps is what keeps an invariant, and the property of the next state
gives it back, the property holds along exactly the guarded runs. The steps may be known to meet
`base`. -/
theorem Guarded.always_iff {base guard : σ → ε → Prop} {inv : σ → Prop} {es : List ε}
    (hbase : Guarded step base s es) (hs : inv s)
    (hinv : ∀ s e, inv s → base s e → guard s e → inv (step s e)) (hP : ∀ s, inv s → P s)
    (hguard : ∀ s e, inv s → base s e → P (step s e) → guard s e) :
    Always step P s es ↔ Guarded step guard s es := by
  induction es generalizing s with
  | nil => exact ⟨fun _ => trivial, fun _ => hP s hs⟩
  | cons e es ih =>
    obtain ⟨hb, hbase⟩ := hbase
    constructor
    · rintro ⟨-, h⟩
      have he := hguard s e hs hb h.first
      exact ⟨he, (ih hbase (hinv s e hs hb he)).mp h⟩
    · rintro ⟨he, h⟩
      exact ⟨hP s hs, (ih hbase (hinv s e hs hb he)).mpr h⟩

theorem guarded_true (s : σ) (es : List ε) : Guarded step (fun _ _ => True) s es := by
  induction es generalizing s with
  | nil => trivial
  | cons e es ih => exact ⟨trivial, ih (step s e)⟩

theorem always_iff_guarded {guard : σ → ε → Prop} {inv : σ → Prop} {es : List ε} (hs : inv s)
    (hinv : ∀ s e, inv s → guard s e → inv (step s e)) (hP : ∀ s, inv s → P s)
    (hguard : ∀ s e, inv s → P (step s e) → guard s e) :
    Always step P s es ↔ Guarded step guard s es :=
  (guarded_true s es).always_iff hs (fun s e h _ => hinv s e h) hP fun s e h _ => hguard s e h

end Always

end ReadyUp.Support
