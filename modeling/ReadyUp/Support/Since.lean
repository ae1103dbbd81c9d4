import Mathlib.Data.List.Basic

/-!
# What has held since

`Since p q` says of a log that an entry meets `p`, which may look at what was logged before it, and
that every later one meets `q`. The entry that is added last either starts the span or prolongs it.
-/
namespace ReadyUp.Support

variable {ε : Type*}

def Since (p : List ε → ε → Prop) (q : ε → Prop) (es : List ε) : Prop :=
  ∃ before e rest, es = before ++ e :: rest ∧ p before e ∧ ∀ d ∈ rest, q d

variable {p : List ε → ε → Prop} {q : ε → Prop}

theorem not_since_nil : ¬Since p q [] := by
  rintro ⟨before, e, rest, heq, -⟩
  simp at heq

theorem since_concat {es : List ε} {e : ε} :
    Since p q (es ++ [e]) ↔ p es e ∨ Since p q es ∧ q e := by
  constructor
  · rintro ⟨before, d, rest, heq, hd, hrest⟩
    rcases List.eq_nil_or_concat rest with rfl | ⟨rest, last, rfl⟩
    · obtain ⟨rfl, he⟩ := List.append_inj' heq rfl
      obtain rfl := List.singleton_injective he
      exact .inl hd
    · rw [List.concat_eq_append] at hrest
      rw [List.concat_eq_append, ← List.cons_append, ← List.append_assoc] at heq
      obtain ⟨hes, he⟩ := List.append_inj' heq rfl
      obtain rfl := List.singleton_injective he
      refine .inr ⟨⟨before, d, rest, hes, hd, fun x hx => ?_⟩, ?_⟩
      · exact hrest x (List.mem_append_left _ hx)
      · exact hrest e (List.mem_append_right _ (List.mem_singleton_self e))
  · rintro (hp | ⟨⟨before, d, rest, rfl, hd, hrest⟩, hq⟩)
    · exact ⟨es, e, [], rfl, hp, fun x hx => by cases hx⟩
    · refine ⟨before, d, rest ++ [e], by simp, hd, fun x hx => ?_⟩
      rcases List.mem_append.mp hx with hx | hx
      · exact hrest x hx
      · rw [List.mem_singleton.mp hx]
        exact hq

/-- What holds of every entry and those before it is kept by an entry of which it holds too. -/
theorem forall_split_concat {P : List ε → ε → Prop} {es : List ε} {e : ε}
    (h : ∀ front d back, es = front ++ d :: back → P front d) (he : P es e) :
    ∀ front d back, es ++ [e] = front ++ d :: back → P front d := by
  intro front d back heq
  rcases List.eq_nil_or_concat back with rfl | ⟨back, last, rfl⟩
  · obtain ⟨rfl, hd⟩ := List.append_inj' heq rfl
    obtain rfl := List.singleton_injective hd
    exact he
  · rw [List.concat_eq_append, ← List.cons_append, ← List.append_assoc] at heq
    exact h front d back (List.append_inj' heq rfl).1

theorem forall_suffix_cons {P : List ε → ε → Prop} {es : List ε} {e : ε}
    (h : ∀ d before, (d :: before) <:+ es → P before d)
    (he : P es e) : ∀ d before, (d :: before) <:+ e :: es → P before d := by
  intro d before hbefore
  obtain heq | hsuffix := List.suffix_cons_iff.mp hbefore
  · cases heq
    exact he
  · exact h d before hsuffix

end ReadyUp.Support
