import Mathlib.Algebra.Order.Floor.Ring
import Mathlib.Data.List.Induction
import Mathlib.Data.Rat.Floor
import Mathlib.Tactic.Linarith
import ReadyUp.Support.Runs
import ReadyUp.Support.Since

/-!
# The forfeit timer

A team with nobody connected loses the map after some time. The timer is fed once per tick with who
is there and answers with what to report. A `Log` keeps what it was fed and what it answered;
`Counting` says of a log that the last report is the start of a countdown which nothing has
disturbed since, and `Told` what every report of a log means.
-/
namespace ReadyUp.Match

open Support

namespace Forfeit

inductive Action where
  | none
  | started
  | cancelled
  | expired
  deriving DecidableEq, Repr

/-- The answer to an update; team 0 is none. -/
structure Result where
  action : Action := .none
  absentTeam : ℕ := 0
  secondsLeft : ℤ := 0
  deriving DecidableEq, Repr

structure ForfeitTimer where
  absent : ℕ := 0
  deadline : ℚ := 0
  fired : Bool := false
  deriving DecidableEq, Repr

structure Update where
  now : ℚ
  active : Bool
  limitSeconds : ℤ
  team1Present : Bool
  team2Present : Bool
  deriving DecidableEq

/-- The team that is absent while the other is there, where the rule is on; 0 otherwise. -/
def Update.lone (u : Update) : ℕ :=
  if u.active ∧ 0 < u.limitSeconds ∧ u.team1Present ≠ u.team2Present then
    (if u.team1Present then 2 else 1)
  else 0

def ForfeitTimer.secondsLeft (t : ForfeitTimer) (now : ℚ) : ℤ :=
  if t.absent = 0 then 0 else max 0 ⌈t.deadline - now - 1 / 10 ^ 9⌉

/-- The countdown of a team that was not the absent one before. -/
def ForfeitTimer.start (t : ForfeitTimer) (u : Update) : ForfeitTimer :=
  if t.absent ≠ u.lone then { t with absent := u.lone, deadline := u.now + u.limitSeconds } else t

def ForfeitTimer.update (t : ForfeitTimer) (u : Update) : Result × ForfeitTimer :=
  if u.lone = 0 then
    ({ action := if t.absent ≠ 0 ∧ t.fired = false then
      .cancelled else .none, absentTeam := t.absent }, {})
  else if t.fired then ({ absentTeam := t.absent }, t)
  else
    let t' := t.start u
    if t'.deadline ≤ u.now then
      ({ action := .expired, absentTeam := t'.absent }, { t' with fired := true })
    else
      ({ action := if t.absent ≠ u.lone then .started else .none
         absentTeam := t'.absent
         secondsLeft := t'.secondsLeft u.now }, t')

inductive Event where
  | update (u : Update)
  | reset

/-- What the timer was fed, with its answer and how it left the timer. -/
inductive Entry where
  | update (u : Update) (r : Result) (after : ForfeitTimer)
  | reset

structure Log where
  timer : ForfeitTimer := {}
  entries : List Entry := []

def Log.step (l : Log) : Event → Log
  | .update u =>
    { timer := (l.timer.update u).2
      entries := l.entries ++ [.update u (l.timer.update u).1 (l.timer.update u).2] }
  | .reset => { timer := {}, entries := l.entries ++ [.reset] }

/-- No update is earlier than those before. -/
def Log.InOrder (l : Log) : Event → Prop
  | .update u => ∀ v r t, .update v r t ∈ l.entries → v.now ≤ u.now
  | .reset => True

/-- The last report is the start `s` of a countdown; since then every entry is an update with the
same team absent. -/
def Counting (entries : List Entry) (s : Update) : Prop :=
  ∃ before r t rest, entries = before ++ .update s r t :: rest ∧ r.action = .started ∧
    ∀ e ∈ rest, ∃ v q t, e = .update v q t ∧ v.lone = s.lone ∧ q.action = .none

theorem counting_iff_since {entries : List Entry} {s : Update} : Counting entries s ↔
    Since (fun _ e => ∃ r t, e = .update s r t ∧ r.action = .started)
      (fun e => ∃ v q t, e = .update v q t ∧ v.lone = s.lone ∧ q.action = .none) entries := by
  constructor
  · rintro ⟨before, r, t, rest, heq, hstarted, hrest⟩
    exact ⟨before, _, rest, heq, ⟨r, t, rfl, hstarted⟩, hrest⟩
  · rintro ⟨before, e, rest, heq, ⟨r, t, rfl, hstarted⟩, hrest⟩
    exact ⟨before, r, t, rest, heq, hstarted, hrest⟩

theorem counting_concat {entries : List Entry} {e : Entry} {s : Update} :
    Counting (entries ++ [e]) s ↔ (∃ r t, e = .update s r t ∧ r.action = .started) ∨
      Counting entries s ∧ ∃ v q t, e = .update v q t ∧ v.lone = s.lone ∧ q.action = .none := by
  rw [counting_iff_since, counting_iff_since]
  exact since_concat

/-- What an answer means, given what was logged before. -/
structure Told (before : List Entry) (u : Update) (r : Result) (after : ForfeitTimer) : Prop where
  /-- The time is up for the team that has been absent since the start. -/
  expired : r.action = .expired →
    ∃ s, Counting before s ∧ u.lone = s.lone ∧ s.now + s.limitSeconds ≤ u.now
  cancelled : r.action = .cancelled ↔ u.lone = 0 ∧ ∃ s, Counting before s
  /-- Where the teams have changed places, the other one's countdown starts. -/
  restarted : ∀ s, Counting before s → u.lone ≠ 0 → u.lone ≠ s.lone → r.action = .started
  secondsLeft : ∀ s, Counting before s → r.action = .none →
    ∀ front v q t, before = front ++ [.update v q t] →
    r.secondsLeft ≤ q.secondsLeft ∧ ∀ x y, x ≤ y → after.secondsLeft y ≤ t.secondsLeft x

theorem lone_pos {u : Update} (h : u.lone ≠ 0) : 0 < u.limitSeconds := by
  unfold Update.lone at h
  split_ifs at h with hrule
  · exact hrule.2.1
  · exact hrule.2.1
  · exact absurd rfl h

theorem secondsLeft_antitone (t : ForfeitTimer) {x y : ℚ} (h : x ≤ y) :
    t.secondsLeft y ≤ t.secondsLeft x := by
  unfold ForfeitTimer.secondsLeft
  split_ifs
  · exact le_rfl
  · exact max_le_max le_rfl (Int.ceil_mono (by linarith))

structure Log.Sound (l : Log) : Prop where
  running : l.timer.absent ≠ 0 → l.timer.fired = false → ∃ s, Counting l.entries s
  counting : ∀ s, Counting l.entries s →
    s.lone ≠ 0 ∧ l.timer = { absent := s.lone, deadline := s.now + s.limitSeconds } ∧
      ∃ front u r, l.entries = front ++ [.update u r l.timer] ∧
      r.secondsLeft = l.timer.secondsLeft u.now
  told : ∀ front u r t back, l.entries = front ++ .update u r t :: back → Told front u r t

section Step

variable {l : Log} {u : Update}

theorem told_concat (h : ∀ front u r t back, l.entries = front ++ .update u r t :: back →
      Told front u r t)
    {e : Entry} (he : ∀ u r t, e = .update u r t → Told l.entries u r t) :
    ∀ front u r t back, l.entries ++ [e] = front ++ .update u r t :: back → Told front u r t := by
  have hall :=
    @forall_split_concat _ (fun front e => ∀ u r t, e = .update u r t →
      Told front u r t) l.entries e
    (fun front d back heq u r t hd => h front u r t back (hd ▸ heq)) he
  exact fun front u r t back heq => hall front _ back heq u r t rfl

/-- Nothing counts after an entry that reports something else than a start. -/
theorem not_counting_concat {entries : List Entry} {r : Result}
    {t : ForfeitTimer} (hstarted : r.action ≠ .started)
    (hnone : r.action = .none → ∀ s, Counting entries s → u.lone ≠ s.lone) (s : Update) :
    ¬Counting (entries ++ [.update u r t]) s := by
  intro h
  rcases counting_concat.mp h with ⟨q, t', he, hq⟩ | ⟨hs, v, q, t', he, hlone, hq⟩
  · cases he
    exact hstarted hq
  · cases he
    exact hnone hq s hs hlone

theorem sound_calm (h : l.Sound) (hlone : u.lone = 0) : (l.step (.update u)).Sound := by
  have hupdate : l.timer.update u =
      ({ action := if l.timer.absent ≠ 0 ∧ l.timer.fired = false then .cancelled else .none
         absentTeam := l.timer.absent }, {}) := if_pos hlone
  have hnot : ∀ s, Counting l.entries s → u.lone ≠ s.lone := fun s hs heq =>
    (h.counting s hs).1 (heq ▸ hlone)
  have hcounting := @not_counting_concat u l.entries (l.timer.update u).1 (l.timer.update u).2 (by
    rw [hupdate]
    dsimp only
    split_ifs <;> simp) fun _ => hnot
  refine ⟨fun habsent => ?_, fun s hs => absurd hs (hcounting s), told_concat h.told ?_⟩
  · rw [Log.step, hupdate] at habsent
    exact absurd rfl habsent
  · rintro v r t he
    cases he
    rw [hupdate]
    constructor
    · dsimp only
      split_ifs <;> simp
    · dsimp only
      constructor
      · intro haction
        split_ifs at haction with hrunning
        exact ⟨hlone, h.running hrunning.1 hrunning.2⟩
      · rintro ⟨-, s, hs⟩
        obtain ⟨hpos, htimer, -⟩ := h.counting s hs
        rw [htimer]
        exact if_pos ⟨hpos, rfl⟩
    · exact fun _ _ hpos => absurd hlone hpos
    · intro s hs haction
      obtain ⟨hpos, htimer, -⟩ := h.counting s hs
      rw [htimer] at haction
      dsimp only at haction
      rw [if_pos ⟨hpos, rfl⟩] at haction
      cases haction

theorem sound_fired (h : l.Sound) (hlone : u.lone ≠ 0) (hfired : l.timer.fired = true) :
    (l.step (.update u)).Sound := by
  have hupdate : l.timer.update u = ({ absentTeam := l.timer.absent }, l.timer) := by
    rw [ForfeitTimer.update, if_neg hlone, if_pos hfired]
  have hnot : ∀ s, ¬Counting l.entries s := by
    intro s hs
    rw [(h.counting s hs).2.1] at hfired
    cases hfired
  have hcounting := @not_counting_concat u l.entries (l.timer.update u).1 (l.timer.update u).2 (by
    rw [hupdate]
    simp) fun _ s hs => absurd hs (hnot s)
  refine ⟨fun _ hidle => ?_, fun s hs => absurd hs (hcounting s), told_concat h.told ?_⟩
  · rw [Log.step, hupdate] at hidle
    exact absurd hidle (by simp [hfired])
  · rintro v r t he
    cases he
    rw [hupdate]
    refine ⟨fun haction => (by cases haction), ⟨fun haction => (by cases haction), ?_⟩, ?_, ?_⟩
    · exact fun hs => absurd hs.1 hlone
    · exact fun s hs => absurd hs (hnot s)
    · exact fun s hs => absurd hs (hnot s)

theorem sound_started (h : l.Sound) (hlone : u.lone ≠ 0) (hfired : l.timer.fired = false)
    (habsent : l.timer.absent ≠ u.lone) : (l.step (.update u)).Sound := by
  have hpos : (0 : ℚ) < u.limitSeconds := by exact_mod_cast lone_pos hlone
  have hstart : l.timer.start u = { absent := u.lone, deadline := u.now + u.limitSeconds } := by
    rw [ForfeitTimer.start, if_pos habsent, hfired]
  have hupdate : l.timer.update u =
      ({ action := .started
         absentTeam := u.lone
         secondsLeft := (l.timer.start u).secondsLeft u.now }, l.timer.start u) := by
    rw [ForfeitTimer.update, if_neg hlone, if_neg (by simp [hfired])]
    dsimp only
    rw [hstart, if_neg (by dsimp only; linarith), if_pos habsent]
  have hnot : ∀ s, Counting (l.step (.update u)).entries s → s = u := by
    intro s hs
    rw [Log.step, hupdate] at hs
    rcases counting_concat.mp hs with ⟨q, t', he, -⟩ | ⟨-, v, q, t', he, -, hq⟩
    · cases he
      rfl
    · cases he
      cases hq
  refine ⟨fun _ _ => ⟨u, ?_⟩, fun s hs => ?_, told_concat h.told ?_⟩
  · rw [Log.step, hupdate]
    exact counting_concat.mpr (.inl ⟨_, _, rfl, rfl⟩)
  · obtain rfl := hnot s hs
    rw [Log.step, hupdate]
    exact ⟨hlone, hstart, l.entries, s, _, rfl, rfl⟩
  · rintro v r t he
    cases he
    rw [hupdate]
    refine ⟨fun haction => (by cases haction),
      ⟨fun haction => (by cases haction), ?_⟩, fun _ _ _ _ => rfl, ?_⟩
    · exact fun hs => absurd hs.1 hlone
    · exact fun _ _ haction => by cases haction

theorem sound_running (h : l.Sound) (hlone : u.lone ≠ 0) (hfired : l.timer.fired = false)
    (habsent : l.timer.absent = u.lone)
    (horder : l.InOrder (.update u)) : (l.step (.update u)).Sound := by
  have hsame : ∀ s, Counting l.entries s → u.lone = s.lone := by
    intro s hs
    rw [← habsent, (h.counting s hs).2.1]
  obtain ⟨s, hs⟩ := h.running (habsent ▸ hlone) hfired
  have htimer := (h.counting s hs).2.1
  have hstart : l.timer.start u = l.timer := if_neg (not_not.mpr habsent)
  by_cases hdue : l.timer.deadline ≤ u.now
  · have hupdate : l.timer.update u =
        ({ action := .expired, absentTeam := l.timer.absent }, { l.timer with fired := true }) := by
      rw [ForfeitTimer.update, if_neg hlone, if_neg (by simp [hfired])]
      dsimp only
      rw [hstart, if_pos hdue]
    have hcounting := @not_counting_concat u l.entries (l.timer.update u).1 (l.timer.update u).2 (by
      rw [hupdate]
      simp) (by
      rw [hupdate]
      simp)
    refine ⟨fun _ hidle => ?_, fun s hs => absurd hs (hcounting s), told_concat h.told ?_⟩
    · rw [Log.step, hupdate] at hidle
      cases hidle
    · rintro v r t he
      cases he
      rw [hupdate]
      refine ⟨fun _ => ⟨s, hs, hsame s hs, ?_⟩, ⟨fun haction => (by cases haction), ?_⟩, ?_, ?_⟩
      · rw [htimer] at hdue
        exact hdue
      · exact fun hs => absurd hs.1 hlone
      · exact fun s hs _ hne => absurd (hsame s hs) hne
      · exact fun _ _ haction => by cases haction
  · have hupdate : l.timer.update u =
        ({ absentTeam := l.timer.absent
           secondsLeft := l.timer.secondsLeft u.now }, l.timer) := by
      rw [ForfeitTimer.update, if_neg hlone, if_neg (by simp [hfired])]
      dsimp only
      rw [hstart, if_neg hdue, if_neg (not_not.mpr habsent)]
    refine ⟨fun _ _ => ⟨s, ?_⟩, fun s' hs' => ?_, told_concat h.told ?_⟩
    · rw [Log.step, hupdate]
      exact counting_concat.mpr (.inr ⟨hs, u, _, _, rfl, hsame s hs, rfl⟩)
    · rw [Log.step, hupdate] at hs' ⊢
      rcases counting_concat.mp hs' with ⟨q, t', he, hq⟩ | ⟨hold, -⟩
      · cases he
        cases hq
      · exact ⟨(h.counting s' hold).1, (h.counting s' hold).2.1, l.entries, u, _, rfl, rfl⟩
    · rintro v r t he
      cases he
      rw [hupdate]
      refine ⟨fun haction => (by cases haction), ⟨fun haction => (by cases haction), ?_⟩, ?_, ?_⟩
      · exact fun hs => absurd hs.1 hlone
      · exact fun s hs _ hne => absurd (hsame s hs) hne
      · intro s' hs' _ front v q t hfront
        -- the update before left the same timer
        obtain ⟨-, -, front', v', q', hlast, hleft⟩ := h.counting s' hs'
        obtain ⟨-, he⟩ := List.append_inj' (hfront.symm.trans hlast) rfl
        cases List.singleton_injective he
        refine ⟨?_, fun x y hxy => secondsLeft_antitone _ hxy⟩
        rw [hleft]
        apply secondsLeft_antitone
        exact horder v q l.timer (hfront ▸ List.mem_append_right front (List.mem_singleton_self _))

theorem sound_step (h : l.Sound) {e : Event} (horder : l.InOrder e) : (l.step e).Sound := by
  cases e with
  | update u =>
    by_cases hlone : u.lone = 0
    · exact sound_calm h hlone
    · cases hfired : l.timer.fired with
      | true => exact sound_fired h hlone hfired
      | false =>
        by_cases habsent : l.timer.absent = u.lone
        · exact sound_running h hlone hfired habsent horder
        · exact sound_started h hlone hfired habsent
  | reset =>
    have hcounting : ∀ s, ¬Counting (l.entries ++ [.reset]) s := by
      intro s hs
      rcases counting_concat.mp hs with ⟨q, t, he, -⟩ | ⟨-, v, q, t, he, -⟩
      · cases he
      · cases he
    exact ⟨fun habsent => absurd rfl habsent, fun s hs => absurd hs (hcounting s),
      told_concat h.told fun u r t he => by cases he⟩

end Step

theorem sound_new : Log.Sound {} where
  running habsent := absurd rfl habsent
  counting := by
    rintro s ⟨before, r, t, rest, heq, -⟩
    cases before <;> cases heq
  told := by
    rintro front u r t back heq
    cases front <;> cases heq

/-- After an expiry a countdown must start before the next one. -/
theorem started_between {front mid : List Entry} {u u' : Update} {r r' : Result}
    {t t' : ForfeitTimer}
    (h : Told (front ++ .update u r t :: mid) u' r' t') (hexpired : r.action = .expired)
    (hexpired' : r'.action = .expired) : ∃ v q w, .update v q w ∈ mid ∧ q.action = .started := by
  obtain ⟨s, ⟨before, q, w, rest, heq, hstarted, hrest⟩, -⟩ := h.expired hexpired'
  rcases List.append_eq_append_iff.mp heq with ⟨as, rfl, hmid⟩ | ⟨as, rfl, hmid⟩
  · cases as with
    | nil =>
      cases hmid
      rw [hexpired] at hstarted
      cases hstarted
    | cons e as =>
      cases hmid
      exact ⟨s, q, w, List.mem_append_right _ List.mem_cons_self, hstarted⟩
  · cases as with
    | nil =>
      cases hmid
      rw [hexpired] at hstarted
      cases hstarted
    | cons e as =>
      cases hmid
      obtain ⟨v, q, w, he, -, hnone⟩ :=
        hrest (.update u r t) (List.mem_append_right _ List.mem_cons_self)
      cases he
      rw [hexpired] at hnone
      cases hnone

/-- What the timer reports over a run, and that it is up once for every start. -/
theorem forfeit_told {events : List Event} (hevents : Guarded Log.step Log.InOrder {} events) :
    (∀ front u r t back, (run Log.step {} events).entries = front ++ .update u r t :: back →
      Told front u r t) ∧ ∀ front u r t mid u' r' t' back,
        (run Log.step {} events).entries = front ++ .update u r t :: mid ++
          .update u' r' t' :: back →
          r.action = .expired → r'.action = .expired →
            ∃ v q w, .update v q w ∈ mid ∧ q.action = .started := by
  have hsound : (run Log.step {} events).Sound := hevents.invariant sound_new fun _ _ h hguard =>
    sound_step h hguard
  refine ⟨hsound.told, fun front u r t mid u' r' t' back heq => ?_⟩
  exact started_between (hsound.told _ u' r' t' back heq)

/-- The first event is no later than the second. -/
def Event.upTo : Event → Event → Bool
  | .update u, .update v => decide (u.now ≤ v.now)
  | _, _ => true

/-- Updates that come in the order of their times are in order. -/
theorem inOrder_of_pairwise {l : Log} {events : List Event}
    (hevents : events.Pairwise fun e e' => e.upTo e' = true)
    (hl : ∀ u, .update u ∈ events → ∀ v r t, .update v r t ∈ l.entries → v.now ≤ u.now) :
    Guarded Log.step Log.InOrder l events := by
  induction events generalizing l with
  | nil => trivial
  | cons e events ih =>
    rw [List.pairwise_cons] at hevents
    cases e with
    | update w =>
      refine ⟨hl w List.mem_cons_self, ih hevents.2 fun u hu v r t hv => ?_⟩
      rcases List.mem_append.mp hv with hv | hv
      · exact hl u (List.mem_cons_of_mem _ hu) v r t hv
      · cases List.mem_singleton.mp hv
        exact of_decide_eq_true (hevents.1 _ hu)
    | reset =>
      refine ⟨trivial, ih hevents.2 fun u hu v r t hv => ?_⟩
      rcases List.mem_append.mp hv with hv | hv
      · exact hl u (List.mem_cons_of_mem _ hu) v r t hv
      · cases List.mem_singleton.mp hv

def Entry.action : Entry → Option Action
  | .update _ r _ => some r.action
  | .reset => none

/-- A tick of a map with a limit of a minute. -/
def minuteTick (now : ℚ) (team1Present team2Present : Bool) : Event :=
  .update { now, active := true, limitSeconds := 60, team1Present, team2Present }

/-- The second team comes back in time; then the first one stays away, and the second one again. -/
def comesAndGoes : List Event :=
  [minuteTick 0 true false, minuteTick 30 true true, minuteTick 40 false true,
    minuteTick 70 false true, minuteTick 100 false true, minuteTick 110 true true,
    minuteTick 120 true false, minuteTick 180 true false]

theorem forfeit_told_expired :
    (run Log.step {} comesAndGoes).entries.map Entry.action =
        [some .started, some .cancelled, some .started, some .none, some .expired, some .none,
          some .started, some .expired] ∧
      (∀ front u r t back, (run Log.step {} comesAndGoes).entries = front ++ .update u r t :: back →
        Told front u r t) ∧
      ∀ front u r t mid u' r' t' back,
        (run Log.step {} comesAndGoes).entries = front ++ .update u r t :: mid ++
          .update u' r' t' :: back →
          r.action = .expired → r'.action = .expired →
            ∃ v q w, .update v q w ∈ mid ∧ q.action = .started :=
  ⟨by decide +kernel,
    forfeit_told (inOrder_of_pairwise (by decide +kernel) fun u _ v r t hv => by cases hv)⟩

/-- The second team is gone, and a second later the first one instead. -/
def swapped : List Event :=
  [.update { now := 0, active := true, limitSeconds := 60,
             team1Present := true, team2Present := false },
    .update { now := 1, active := true, limitSeconds := 60,
              team1Present := false, team2Present := true }]

theorem inOrder_swapped : Guarded Log.step Log.InOrder {} swapped :=
  inOrder_of_pairwise (by decide +kernel) fun u _ v r t hv => by cases hv

/-- A countdown that ends because the teams have changed places is not reported as cancelled. -/
theorem swap_not_cancelled : Guarded Log.step Log.InOrder {} swapped ∧
    ¬∀ front u r t back, (run Log.step {} swapped).entries = front ++ .update u r t :: back →
      (r.action = .cancelled ↔ ∃ s, Counting front s ∧ u.lone ≠ s.lone) := by
  refine ⟨inOrder_swapped, fun h => ?_⟩
  have hcancelled := (h [.update _ _ _] _ _ _ [] rfl).mpr
    ⟨_, ⟨[], _, _, [], rfl, ?_, fun e he => (by cases he)⟩, ?_⟩
  · revert hcancelled
    decide +kernel
  · decide +kernel
  · decide

end Forfeit

end ReadyUp.Match
