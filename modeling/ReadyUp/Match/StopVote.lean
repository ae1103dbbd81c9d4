import ReadyUp.Match.Votes
import ReadyUp.Support.Since

/-!
# When a restore vote passes

A `Log` keeps the calls of a restore vote with their answers. A request that was accepted is `Asked`
until a reset or a request that passes. The vote keeps one time for each team and one window for
both; since only one team can be waiting, the window is that of the request which waits.
-/
namespace ReadyUp.Match.StopVote

open Support

inductive Call where
  | request (team : ℤ) (now windowSeconds : ℚ)
  | expire (now : ℚ)
  | reset

/-- A call with its answer and the vote that it left. -/
inductive Entry where
  | request (team : ℤ) (now windowSeconds : ℚ) (answer : Result) (after : StopVote)
  | expire (now : ℚ)
  | reset

def Call.time : Call → Option ℚ
  | .request _ now _ => some now
  | .expire now => some now
  | .reset => none

def Entry.time : Entry → Option ℚ
  | .request _ now _ _ _ => some now
  | .expire now => some now
  | .reset => none

structure Log where
  vote : StopVote := {}
  entries : List Entry := []

def Log.step (l : Log) : Call → Log
  | .request team now window =>
    { vote := (l.vote.request team now window).2
      entries := l.entries ++
        [.request team now window (l.vote.request team now window).1
          (l.vote.request team now window).2] }
  | .expire now => { vote := (l.vote.expire now).2, entries := l.entries ++ [.expire now] }
  | .reset => { vote := l.vote.reset, entries := l.entries ++ [.reset] }

/-- The time of a call is positive and not before that of an earlier one. -/
def Log.InOrder (l : Log) (c : Call) : Prop :=
  ∀ x ∈ c.time, 0 < x ∧ ∀ e ∈ l.entries, ∀ y ∈ e.time, y ≤ x

instance (l : Log) : DecidablePred l.InOrder := fun c =>
  inferInstanceAs (Decidable (∀ x ∈ c.time, 0 < x ∧ ∀ e ∈ l.entries, ∀ y ∈ e.time, y ≤ x))

/-- A reset, or a request that passed. -/
def Entry.Ends : Entry → Prop
  | .request _ _ _ answer _ => answer = .passed
  | .expire _ => False
  | .reset => True

def Entry.Accepted (t : Team) (x w : ℚ) (e : Entry) : Prop :=
  ∃ team after, e = .request team x w .waiting after ∧ Team.ofInt team = t

/-- The team asked at a time, for a window, and nothing has ended the vote since. -/
def Asked (entries : List Entry) (t : Team) (x w : ℚ) : Prop :=
  Since (fun _ => Entry.Accepted t x w) (¬·.Ends) entries

/-! ### One team at a time -/

def Single (v : StopVote) : Prop := ∀ t, 0 < v.requested t → ¬0 < v.requested t.other

/-- The request of the team has not timed out. -/
def Live (v : StopVote) (t : Team) (now : ℚ) : Prop :=
  0 < v.requested t ∧ now - v.requested t < v.window

@[simp] theorem other_other (t : Team) : t.other.other = t := by cases t <;> rfl

theorem other_ne {t : Team} (ht : t ≠ .unknown) :
    t.other ≠ t := by cases t <;> simp_all [Team.other]

theorem eq_or_eq_other {t u : Team} (ht : t ≠ .unknown) (hu : u ≠ .unknown) :
    u = t ∨ u = t.other := by
  cases t <;> cases u <;> simp_all [Team.other]

variable {v : StopVote} {now window : ℚ} {team : ℤ}

@[simp] theorem reset_requested (t : Team) : v.reset.requested t = 0 := rfl

theorem single_reset : v.reset.Single := fun t h => absurd h (by simp)

theorem Single.unknown (h : v.Single) : ¬0 < v.requested .unknown :=
  fun hpos => h .unknown hpos hpos

theorem expire_window : (v.expire now).2.window = v.window := by
  unfold expire
  split_ifs <;> rfl

/-- With one team waiting, the request that timed out is the only one. -/
theorem expire_requested (h : v.Single) (t : Team) : (v.expire now).2.requested t =
    if 0 < v.requested t ∧ v.window ≤ now - v.requested t then 0 else v.requested t := by
  have hunknown := h.unknown
  have hother := h .team1
  unfold expire
  by_cases h₁ : 0 < v.requested .team1 ∧ v.window ≤ now - v.requested .team1
  · have h₂ : ¬0 < v.requested .team2 := hother h₁.1
    cases t <;> simp [h₁, h₂, hunknown, Function.update]
  · by_cases h₂ : 0 < v.requested .team2 ∧ v.window ≤ now - v.requested .team2
    · cases t <;> simp [h₁, h₂, hunknown, Function.update]
    · cases t <;> simp [h₁, h₂, hunknown]

theorem expire_pos_iff (h : v.Single) {t : Team} :
    0 < (v.expire now).2.requested t ↔ v.Live t now := by
  rw [expire_requested h, Live]
  split_ifs with hout
  · simpa using fun _ => hout.2
  · constructor
    · intro hpos
      exact ⟨hpos, not_le.mp fun hle => hout ⟨hpos, hle⟩⟩
    · exact fun hlive => hlive.1

theorem expire_requested_of_live (h : v.Single) {t : Team} (hlive : v.Live t now) :
    (v.expire now).2.requested t = v.requested t := by
  rw [expire_requested h, if_neg fun hout => absurd hout.2 (not_le.mpr hlive.2)]

theorem single_expire (h : v.Single) : (v.expire now).2.Single := by
  intro t hpos hother
  rw [expire_pos_iff h] at hpos hother
  exact h t hpos.1 hother.1

/-! ### What a request does -/

theorem request_unknown (ht : Team.ofInt team = .unknown) :
    v.request team now window = (.waiting, v) := if_pos ht

theorem request_passed (h : v.Single) (ht : Team.ofInt team ≠ .unknown)
    (hother : v.Live (Team.ofInt team).other now) :
    v.request team now window = (.passed, (v.expire now).2.reset) := by
  simp [request, ht, (expire_pos_iff h).mpr hother]

theorem request_already (h : v.Single) (ht : Team.ofInt team ≠ .unknown)
    (hother : ¬v.Live (Team.ofInt team).other now) (hlive : v.Live (Team.ofInt team) now) :
    v.request team now window = (.alreadyRequested, (v.expire now).2) := by
  simp [request, ht, expire_pos_iff h, hother, hlive]

theorem request_accepted (h : v.Single) (ht : Team.ofInt team ≠ .unknown) (hnow : 0 < now)
    (hother : ¬v.Live (Team.ofInt team).other now) (hlive : ¬v.Live (Team.ofInt team) now) :
    v.request team now window =
      (.waiting,
        { requested := Function.update (v.expire now).2.requested (Team.ofInt team) now,
          window }) := by
  simp [request, ht, expire_pos_iff h, hother, hlive, hnow]

theorem passed_iff (h : v.Single) (hnow : 0 < now) : (v.request team now window).1 = .passed ↔
    Team.ofInt team ≠ .unknown ∧ v.Live (Team.ofInt team).other now := by
  by_cases ht : Team.ofInt team = .unknown
  · simp [request_unknown ht, ht]
  · by_cases hother : v.Live (Team.ofInt team).other now
    · simp [request_passed h ht hother, ht, hother]
    · by_cases hlive : v.Live (Team.ofInt team) now
      · simp [request_already h ht hother hlive, hother]
      · simp [request_accepted h ht hnow hother hlive, hother]

theorem single_request (h : v.Single) (hnow : 0 < now) : (v.request team now window).2.Single := by
  by_cases ht : Team.ofInt team = .unknown
  · rwa [request_unknown ht]
  by_cases hother : v.Live (Team.ofInt team).other now
  · rw [request_passed h ht hother]
    exact single_reset
  by_cases hlive : v.Live (Team.ofInt team) now
  · rw [request_already h ht hother hlive]
    exact single_expire h
  rw [request_accepted h ht hnow hother hlive]
  -- nobody waits but the team that has just asked
  have hnone : ∀ u, ¬0 < (v.expire now).2.requested u := by
    intro u hpos
    rw [expire_pos_iff h] at hpos
    have hu : u ≠ .unknown := fun hu => h.unknown (hu ▸ hpos.1)
    rcases eq_or_eq_other ht hu with rfl | rfl
    · exact hlive hpos
    · exact hother hpos
  intro u hpos hboth
  have hwho : ∀ x, 0 < Function.update (v.expire now).2.requested (Team.ofInt team) now x →
      x = Team.ofInt team := by
    intro x hx
    by_contra hne
    rw [Function.update_of_ne hne] at hx
    exact hnone x hx
  have hsame : u.other = u := (hwho _ hboth).trans (hwho u hpos).symm
  exact other_ne (by rwa [hwho u hpos]) hsame

/-! ### What the log says of the vote -/

theorem asked_concat {entries : List Entry} {e : Entry} {t : Team} {x w : ℚ} :
    Asked (entries ++ [e]) t x w ↔ e.Accepted t x w ∨ Asked entries t x w ∧ ¬e.Ends := since_concat

/-- What the answer to a request means, given what was logged before: it passes when the other team
has asked less than its window ago, and then nobody waits. -/
def Entry.Told (before : List Entry) : Entry → Prop
  | .request team now _ answer after =>
    (answer = .passed ↔ Team.ofInt team ≠ .unknown ∧
      ∃ x w, Asked before (Team.ofInt team).other x w ∧ now - x < w) ∧
    (answer = .passed → after.pending = .unknown)
  | _ => True

/-- Who waits has asked for the window that runs; who has asked waits, unless the time was up at
some call. -/
structure Log.Sound (l : Log) : Prop where
  single : l.vote.Single
  asked : ∀ t, 0 < l.vote.requested t → Asked l.entries t (l.vote.requested t) l.vote.window
  waiting : ∀ t ≠ .unknown, ∀ x w, Asked l.entries t x w → 0 < x ∧
    (l.vote.requested t = x ∧ l.vote.window = w ∨ ∃ e ∈ l.entries, ∃ y ∈ e.time, w ≤ y - x)
  told : ∀ front e back, l.entries = front ++ e :: back → e.Told front

variable {l : Log} {t : Team}

/-- The requests that the log knows are those that the vote holds. -/
theorem live_iff (h : l.Sound) (ht : t ≠ .unknown)
    (horder : ∀ e ∈ l.entries, ∀ y ∈ e.time, y ≤ now) :
    l.vote.Live t now ↔ ∃ x w, Asked l.entries t x w ∧ now - x < w := by
  constructor
  · intro hlive
    exact ⟨_, _, h.asked t hlive.1, hlive.2⟩
  · rintro ⟨x, w, hasked, hlt⟩
    obtain ⟨hpos, ⟨rfl, rfl⟩ | ⟨e, he, y, hy, hout⟩⟩ := h.waiting t ht x w hasked
    · exact ⟨hpos, hlt⟩
    · have hle := horder e he y hy
      linarith

/-- The times that a call which expires may clear are those of requests whose time is up. -/
theorem waiting_expire (h : l.Sound) (ht : t ≠ .unknown) {x w : ℚ}
    (hasked : Asked l.entries t x w) {e : Entry} (htime : e.time = some now) : 0 < x ∧
      ((l.vote.expire now).2.requested t = x ∧ (l.vote.expire now).2.window = w ∨
        ∃ d ∈ l.entries ++ [e], ∃ y ∈ d.time, w ≤ y - x) := by
  obtain ⟨hpos, ⟨rfl, rfl⟩ | ⟨d, hd, y, hy, hout⟩⟩ := h.waiting t ht x w hasked
  · refine ⟨hpos, ?_⟩
    by_cases hlive : l.vote.Live t now
    · exact .inl ⟨expire_requested_of_live h.single hlive, expire_window⟩
    · refine .inr ⟨e, by simp, now, htime, ?_⟩
      exact not_lt.mp fun hlt => hlive ⟨hpos, hlt⟩
  · exact ⟨hpos, .inr ⟨d, List.mem_append_left _ hd, y, hy, hout⟩⟩

theorem sound_expiring (h : l.Sound) {e : Entry} (htime : e.time = some now) (hends : ¬e.Ends)
    (haccepted : ∀ t ≠ .unknown, ∀ x w, ¬e.Accepted t x w) (htold : e.Told l.entries) :
    Log.Sound { vote := (l.vote.expire now).2, entries := l.entries ++ [e] } where
  single := single_expire h.single
  asked t hpos := by
    have hlive := (expire_pos_iff h.single).mp hpos
    rw [expire_requested_of_live h.single hlive, expire_window]
    exact asked_concat.mpr (.inr ⟨h.asked t hlive.1, hends⟩)
  waiting t ht x w hasked := by
    obtain haccept | ⟨hasked, -⟩ := asked_concat.mp hasked
    · exact absurd haccept (haccepted t ht x w)
    · exact waiting_expire h ht hasked htime
  told := forall_split_concat h.told htold

theorem sound_ending (h : l.Sound) {e : Entry} (hends : e.Ends)
    (haccepted : ∀ t x w, ¬e.Accepted t x w)
    (htold : e.Told l.entries) (v : StopVote) :
    Log.Sound { vote := v.reset, entries := l.entries ++ [e] } where
  single := single_reset
  asked t hpos := absurd hpos (lt_irrefl 0)
  waiting t ht x w hasked := by
    obtain haccept | ⟨-, hnot⟩ := asked_concat.mp hasked
    · exact absurd haccept (haccepted t x w)
    · exact absurd hends hnot
  told := forall_split_concat h.told htold

theorem sound_unknown (h : l.Sound) (ht : Team.ofInt team = .unknown) :
    Log.Sound { vote := l.vote, entries := l.entries ++
      [.request team now window .waiting l.vote] } where
  single := h.single
  asked t hpos := asked_concat.mpr (.inr ⟨h.asked t hpos, by simp [Entry.Ends]⟩)
  waiting t hknown x w hasked := by
    obtain ⟨_, _, heq, hteam⟩ | ⟨hasked, -⟩ := asked_concat.mp hasked
    · obtain ⟨rfl, -⟩ := Entry.request.inj heq
      exact absurd (hteam.symm.trans ht) hknown
    · obtain ⟨hpos, hsame | ⟨d, hd, y, hy, hout⟩⟩ := h.waiting t hknown x w hasked
      · exact ⟨hpos, .inl hsame⟩
      · exact ⟨hpos, .inr ⟨d, List.mem_append_left _ hd, y, hy, hout⟩⟩
  told := forall_split_concat h.told (by simp [Entry.Told, ht])

theorem sound_accepted (h : l.Sound) (ht : Team.ofInt team ≠ .unknown) (hnow : 0 < now)
    (hother : ¬l.vote.Live (Team.ofInt team).other now) (hlive : ¬l.vote.Live (Team.ofInt team) now)
    {after : StopVote} (htold : Entry.Told l.entries (.request team now window .waiting after))
    (hsingle : Single
      { requested := Function.update (l.vote.expire now).2.requested (Team.ofInt team) now,
        window }) :
    Log.Sound
      { vote :=
        { requested := Function.update (l.vote.expire now).2.requested (Team.ofInt team) now,
          window }
        entries := l.entries ++ [.request team now window .waiting after] } where
  single := hsingle
  asked t hpos := by
    dsimp only at hpos ⊢
    by_cases hsame : t = Team.ofInt team
    · subst hsame
      rw [Function.update_self]
      exact asked_concat.mpr (.inl ⟨team, after, rfl, rfl⟩)
    · rw [Function.update_of_ne hsame, expire_pos_iff h.single] at hpos
      have hknown : t ≠ .unknown := fun hu => h.single.unknown (hu ▸ hpos.1)
      rcases eq_or_eq_other ht hknown with rfl | rfl
      · exact absurd rfl hsame
      · exact absurd hpos hother
  waiting t hknown x w hasked := by
    obtain ⟨_, _, heq, rfl⟩ | ⟨hasked, -⟩ := asked_concat.mp hasked
    · obtain ⟨rfl, rfl, rfl, -, -⟩ := Entry.request.inj heq
      exact ⟨hnow, .inl ⟨Function.update_self _ _ _, rfl⟩⟩
    · obtain ⟨hpos, ⟨hsame, -⟩ | hout⟩ :=
        waiting_expire (e := .request team now window .waiting after) h hknown hasked rfl
      · have hwaits : l.vote.Live t now := (expire_pos_iff h.single).mp (hsame ▸ hpos)
        rcases eq_or_eq_other ht hknown with rfl | rfl
        · exact absurd hwaits hlive
        · exact absurd hwaits hother
      · exact ⟨hpos, .inr hout⟩
  told := forall_split_concat h.told htold

/-- What was logged before settles the answer to a request. -/
theorem told_request (h : l.Sound) (hnow : 0 < now)
    (horder : ∀ e ∈ l.entries, ∀ y ∈ e.time, y ≤ now) : Entry.Told l.entries
      (.request team now window (l.vote.request team now window).1
        (l.vote.request team now window).2) := by
  constructor
  · rw [passed_iff h.single hnow]
    refine and_congr_right fun ht => live_iff h ?_ horder
    revert ht
    cases Team.ofInt team <;> simp [Team.other]
  · intro hpassed
    obtain ⟨ht, hother⟩ := (passed_iff h.single hnow).mp hpassed
    rw [request_passed h.single ht hother]
    rfl

theorem sound_step (h : l.Sound) {c : Call} (horder : l.InOrder c) : (l.step c).Sound := by
  cases c with
  | request team now window =>
    obtain ⟨hnow, hbefore⟩ := horder now rfl
    have htold : Entry.Told l.entries
        (.request team now window (l.vote.request team now window).1
          (l.vote.request team now window).2) :=
      told_request h hnow hbefore
    have hsingle : (l.vote.request team now window).2.Single := single_request h.single hnow
    unfold Log.step
    by_cases ht : Team.ofInt team = .unknown
    · simp only [request_unknown ht]
      exact sound_unknown h ht
    by_cases hother : l.vote.Live (Team.ofInt team).other now
    · simp only [request_passed h.single ht hother] at htold ⊢
      exact sound_ending (e := .request team now window .passed _)
        h rfl (by simp [Entry.Accepted]) htold _
    by_cases hlive : l.vote.Live (Team.ofInt team) now
    · simp only [request_already h.single ht hother hlive] at htold ⊢
      exact sound_expiring h rfl (by simp [Entry.Ends]) (by simp [Entry.Accepted]) htold
    simp only [request_accepted h.single ht hnow hother hlive] at htold hsingle ⊢
    exact sound_accepted h ht hnow hother hlive htold hsingle
  | expire now =>
    exact sound_expiring h rfl (by simp [Entry.Ends]) (by simp [Entry.Accepted]) trivial
  | reset => exact sound_ending (e := .reset) h trivial (by simp [Entry.Accepted]) trivial _

theorem sound_new : Log.Sound {} where
  single t h := absurd h (lt_irrefl 0)
  asked t h := absurd h (lt_irrefl 0)
  waiting t ht x w h := absurd h not_since_nil
  told front e back h := by simp at h

/-- The first team asks, and the second one ten seconds later. -/
def bothAsk : List Call := [.request 1 5 30, .expire 10, .request 2 15 30]

end ReadyUp.Match.StopVote
