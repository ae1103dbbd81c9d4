import Mathlib.Data.List.Forall2
import Mathlib.Tactic.Common

/-!
# Checks that pass or name what is wrong

`check` refuses with a reason, `checkAll` checks the items of a list one after another. What
follows from a run that was accepted is read off with `bind_eq_ok`, `check_eq_ok` and
`checkAll_eq_ok`; a loop that builds a value keeps every property its steps keep
(`foldlM_invariant`).
-/
namespace ReadyUp.Support

variable {ε α β σ : Type}

theorem bind_eq_ok {x : Except ε α} {f : α → Except ε β} {b : β} :
    (x >>= f) = .ok b ↔ ∃ a, x = .ok a ∧ f a = .ok b := by
  cases x with
  | error e => simp [bind, Except.bind]
  | ok a => simp [bind, Except.bind]

theorem map_eq_ok {x : Except ε α} {f : α → β} {b : β} :
    x.map f = .ok b ↔ ∃ a, x = .ok a ∧ f a = b := by
  cases x with
  | error e => simp [Except.map]
  | ok a => simp [Except.map]

theorem eq_ok_of_toOption {x : Except ε α} {a : α} (h : x.toOption = some a) : x = .ok a := by
  cases x with
  | error e => cases h
  | ok b =>
    cases h
    rfl

/-- Passes, or refuses with the reason. -/
def check (ok : Bool) (why : ε) : Except ε Unit := if ok then .ok () else .error why

@[simp] theorem check_eq_ok {ok : Bool} {why : ε} {u : Unit} :
    check ok why = .ok u ↔ ok = true := by
  cases ok <;> simp [check]

/-- Checks the items in order, up to the first that is refused. -/
def checkAll (f : α → Except ε Unit) : List α → Except ε Unit
  | [] => .ok ()
  | a :: l => f a >>= fun _ => checkAll f l

@[simp] theorem checkAll_eq_ok {f : α → Except ε Unit} {l : List α} {u : Unit} :
    checkAll f l = .ok u ↔ ∀ a ∈ l, f a = .ok () := by
  induction l with
  | nil => simp [checkAll]
  | cons a l ih =>
    rw [checkAll, bind_eq_ok, List.forall_mem_cons, ← ih]
    constructor
    · rintro ⟨⟨⟩, ha, hl⟩
      exact ⟨ha, hl⟩
    · rintro ⟨ha, hl⟩
      exact ⟨(), ha, hl⟩

/-- The results of the items in order, up to the first that is refused. -/
def collect (f : α → Except ε β) : List α → Except ε (List β)
  | [] => .ok []
  | a :: l => f a >>= fun b => (collect f l).map (b :: ·)

theorem collect_eq_ok {f : α → Except ε β} {l : List α} {bs : List β} :
    collect f l = .ok bs ↔ List.Forall₂ (fun a b => f a = .ok b) l bs := by
  induction l generalizing bs with
  | nil =>
    rw [collect, List.forall₂_nil_left_iff]
    constructor
    · intro h
      exact (Except.ok.inj h).symm
    · rintro rfl
      rfl
  | cons a l ih =>
    rw [collect, bind_eq_ok]
    simp only [map_eq_ok, ih]
    constructor
    · rintro ⟨b, hb, bs, hbs, rfl⟩
      exact .cons hb hbs
    · rintro (_ | ⟨hb, hbs⟩)
      exact ⟨_, hb, _, hbs, rfl⟩

theorem exists_of_mem_collect {f : α → Except ε β} {l : List α} {bs : List β}
    (h : collect f l = .ok bs) {b : β} (hb : b ∈ bs) : ∃ a ∈ l, f a = .ok b := by
  have hall := collect_eq_ok.mp h
  induction hall with
  | nil => cases hb
  | cons hstep hrest ih =>
    rcases List.mem_cons.mp hb with rfl | hb
    · exact ⟨_, List.mem_cons_self, hstep⟩
    · obtain ⟨a, ha, hok⟩ := ih (collect_eq_ok.mpr hrest) hb
      exact ⟨a, List.mem_cons_of_mem _ ha, hok⟩

theorem foldlM_invariant {f : σ → α → Except ε σ} {P : σ → Prop} {l : List α} {s t : σ} (hs : P s)
    (hstep : ∀ s a t, a ∈ l → P s → f s a = .ok t → P t) (h : l.foldlM f s = .ok t) : P t := by
  induction l generalizing s with
  | nil =>
    obtain rfl : s = t := Except.ok.inj h
    exact hs
  | cons a l ih =>
    rw [List.foldlM_cons, bind_eq_ok] at h
    obtain ⟨u, hu, hrest⟩ := h
    exact ih (hstep s a u List.mem_cons_self hs hu)
      (fun s b t hb => hstep s b t (List.mem_cons_of_mem _ hb)) hrest

/-- A loop that was not refused is not refused over items that no step tells apart. -/
theorem foldlM_map_eq_ok {f : σ → α → Except ε σ} {g : α → α} {l : List α} {s t : σ}
    (hstep : ∀ s t, ∀ a ∈ l, f s a = .ok t → f s (g a) = .ok t) (h : l.foldlM f s = .ok t) :
    (l.map g).foldlM f s = .ok t := by
  induction l generalizing s with
  | nil => exact h
  | cons a l ih =>
    rw [List.foldlM_cons, bind_eq_ok] at h
    obtain ⟨u, hu, hrest⟩ := h
    rw [List.map_cons, List.foldlM_cons, hstep s u a List.mem_cons_self hu]
    exact ih (fun s t b hb => hstep s t b (List.mem_cons_of_mem _ hb)) hrest

theorem exists_step_of_foldlM {f : σ → α → Except ε σ} {l : List α} {s t : σ}
    (h : l.foldlM f s = .ok t) {a : α} (ha : a ∈ l) : ∃ s' t', f s' a = .ok t' := by
  induction l generalizing s with
  | nil => cases ha
  | cons b l ih =>
    rw [List.foldlM_cons, bind_eq_ok] at h
    obtain ⟨u, hu, hrest⟩ := h
    rcases List.mem_cons.mp ha with rfl | ha
    · exact ⟨s, u, hu⟩
    · exact ih hrest ha

end ReadyUp.Support
