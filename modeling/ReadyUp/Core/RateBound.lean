import ReadyUp.Core.RateLimiter
import ReadyUp.Support.Runs

/-!
# What the rate limit bounds

A request takes one from the level of its source and changes no other level, so what is allowed in
an interval is paid for by a full bucket and by what flows in (`Sound`). The log keeps the last
bucket of every source beside the table; one that the table has forgotten is full, so the source is
treated as if it were still there.
-/
namespace ReadyUp.Core

open Support

structure Request where
  key : Bytes
  now : ℚ

/-- A request with its answer, and with that of the bucket which was never forgotten. -/
structure Answer where
  key : Bytes
  now : ℚ
  allowed : Bool
  kept : Bool

/-- A limiter with all it was asked. `kept` holds the last bucket of every key, a forgotten one
too. -/
structure RateLog where
  limiter : RateLimiter
  kept : Table Bytes Bucket := ∅
  answers : List Answer := []

namespace RateLog

def step (l : RateLog) (r : Request) : RateLog :=
  let served := l.limiter.allow r.key r.now
  let remembered := l.limiter.take ((l.kept.lookup r.key).getD (l.limiter.fresh r.now)) r.now
  { limiter := served.2
    kept := if r.key ∈ served.2.buckets then l.kept.insert r.key remembered.2 else l.kept
    answers := l.answers ++ [⟨r.key, r.now, served.1, remembered.1⟩] }

/-- No request was made after the time. -/
def Before (l : RateLog) (x : ℚ) : Prop := ∀ a ∈ l.answers, a.now ≤ x

def InOrder (l : RateLog) (r : Request) : Prop := l.Before r.now

instance (l : RateLog) : DecidablePred l.InOrder := fun r =>
  inferInstanceAs (Decidable (∀ a ∈ l.answers, a.now ≤ r.now))

/-- How often a key was allowed in an interval. -/
def allowedIn (answers : List Answer) (key : Bytes) (s t : ℚ) : ℕ :=
  answers.countP fun a => a.key = key ∧ s ≤ a.now ∧ a.now ≤ t ∧ a.allowed = true

structure Sound (l : RateLog) : Prop where
  size : l.limiter.size ≤ l.limiter.maxKeys
  filled : ∀ k b, l.limiter.buckets.lookup k = some b → ∀ x, l.Before x → l.limiter.Filled x b
  same : ∀ k b, l.limiter.buckets.lookup k = some b → l.kept.lookup k = some b
  forgot : ∀ k b, l.limiter.buckets.lookup k = none → l.kept.lookup k = some b → ∀ x, l.Before x →
    l.limiter.Filled x b ∧ l.limiter.level (some b) x = l.limiter.burst
  paid : ∀ k s x, l.Before x → s ≤ x →
    allowedIn l.answers k s x + l.limiter.level (l.limiter.buckets.lookup k) x ≤
      l.limiter.burst + (x - s) * l.limiter.rate
  bound : ∀ k s t, s ≤ t → allowedIn l.answers k s t ≤ l.limiter.burst + (t - s) * l.limiter.rate
  keeping : ∀ a ∈ l.answers, a.allowed = true → a.kept = true

variable {l : RateLog} {r : Request} {x : ℚ} {k : Bytes}

theorem before_step : (l.step r).Before x ↔ l.Before x ∧ r.now ≤ x := by
  simp [Before, step, or_imp, forall_and]

theorem allowedIn_concat (answers : List Answer) (a : Answer) (key : Bytes) (s t : ℚ) :
    allowedIn (answers ++ [a]) key s t =
      allowedIn answers key s t + if a.key = key ∧ s ≤ a.now ∧ a.now ≤ t ∧ a.allowed = true then
        1 else 0 := by
  simp [allowedIn, List.countP_append, List.countP_singleton]

theorem allowedIn_congr {s t : ℚ} (hx : l.Before x) (hxt : x ≤ t) :
    allowedIn l.answers k s t = allowedIn l.answers k s x := by
  apply List.countP_congr
  intro a ha
  have hle := hx a ha
  have hlet : a.now ≤ t := hle.trans hxt
  simp [hle, hlet]

theorem allowedIn_of_lt {s t : ℚ} (hx : l.Before x) (hxs : x < s) :
    allowedIn l.answers k s t = 0 := by
  rw [allowedIn, List.countP_eq_zero]
  intro a ha
  have hlt : a.now < s := (hx a ha).trans_lt hxs
  simp [not_le.mpr hlt]

/-- The level of a key as the limiter holds it. -/
def levelOf (l : RateLog) (k : Bytes) (x : ℚ) : ℚ := l.limiter.level (l.limiter.buckets.lookup k) x

theorem serves_step (h : l.Sound) (r : Request) :
    l.limiter.Serves r.key r.now (l.limiter.allow r.key r.now).1 (l.step r).limiter :=
  RateLimiter.serves_allow h.size r.key r.now

theorem level_step (h : l.Sound) (r : Request) (o : Option Bucket) (x : ℚ) :
    (l.step r).limiter.level o x = l.limiter.level o x := by
  have hserves := serves_step h r
  cases o <;> simp only [RateLimiter.level, hserves.rate, hserves.burst]

theorem filled_step (h : l.Sound) {b : Bucket} :
    (l.step r).limiter.Filled x b ↔ l.limiter.Filled x b := by
  rw [RateLimiter.Filled, RateLimiter.Filled, (serves_step h r).burst]

theorem filled_own (h : l.Sound) (horder : l.InOrder r) {b : Bucket}
    (hb : l.limiter.buckets.lookup r.key = some b ∨
      l.limiter.buckets.lookup r.key = none ∧ b = l.limiter.fresh r.now) :
        l.limiter.Filled r.now b := by
  obtain hb | ⟨-, rfl⟩ := hb
  · exact h.filled r.key b hb r.now horder
  · exact RateLimiter.filled_fresh

/-- A request takes one from the level of its key if it is allowed, and nothing else from any
level. -/
theorem levelOf_step (h : l.Sound) (horder : l.InOrder r) (k : Bytes) :
    (l.step r).levelOf k r.now + (if r.key = k ∧ (l.limiter.allow r.key r.now).1 = true then
      1 else 0) = l.levelOf k r.now := by
  have hserves := serves_step h r
  rw [levelOf, levelOf, level_step h]
  by_cases hk : r.key = k
  · subst hk
    obtain ⟨hnone, hnone', hrefused⟩ | ⟨b, hb, hlookup, hallowed⟩ := hserves.own
    · rw [hnone, hnone', hrefused]
      simp
    · have hlevel : l.limiter.level (l.limiter.buckets.lookup r.key) r.now =
          l.limiter.level (some b) r.now := by
        obtain hb | ⟨hnone, rfl⟩ := hb
        · rw [hb]
        · rw [hnone, RateLimiter.level_fresh]
          rfl
      rw [hlookup, hallowed, hlevel, ← RateLimiter.level_take (filled_own h horder hb)]
      simp
  · rw [if_neg fun hboth => hk hboth.1, add_zero]
    obtain hsame | ⟨hgone, b, hb, hidle⟩ := hserves.other k fun heq => hk heq.symm
    · rw [hsame]
    · rw [hgone, hb, RateLimiter.level_of_idle (h.filled k b hb r.now horder) hidle le_rfl]
      rfl

theorem paid_step (h : l.Sound) (horder : l.InOrder r) {s : ℚ} (hx : (l.step r).Before x)
    (hs : s ≤ x) : allowedIn (l.step r).answers k s x + (l.step r).levelOf k x ≤
      l.limiter.burst + (x - s) * l.limiter.rate := by
  obtain ⟨hbefore, hnow⟩ := before_step.mp hx
  have hstep := allowedIn_concat l.answers ⟨r.key, r.now, (l.limiter.allow r.key r.now).1,
    (l.limiter.take ((l.kept.lookup r.key).getD (l.limiter.fresh r.now)) r.now).1⟩ k s x
  change allowedIn (l.step r).answers k s x = _ at hstep
  have hserves := serves_step h r
  rw [hstep]
  by_cases hlate : s ≤ r.now
  · have hpaid := h.paid k s r.now horder hlate
    have hlevel := levelOf_step h horder k
    have hflow :
        (l.step r).levelOf k x ≤ (l.step r).levelOf k r.now + (x - r.now) * l.limiter.rate := by
      rw [← hserves.rate]
      exact RateLimiter.level_le_add hnow
    rw [allowedIn_congr horder hnow, Nat.cast_add]
    simp only [hlate, hnow, true_and, Nat.cast_ite, Nat.cast_one, Nat.cast_zero]
    change allowedIn l.answers k s r.now + l.levelOf k r.now ≤ _ at hpaid
    have hsum : (r.now - s) * l.limiter.rate + (x - r.now) * l.limiter.rate =
        (x - s) * l.limiter.rate := by ring
    linarith
  · have hlow : (l.step r).levelOf k x ≤ l.limiter.burst := by
      rw [← hserves.burst]
      exact RateLimiter.level_le_burst
    have hflow : 0 ≤ (x - s) * l.limiter.rate :=
      mul_nonneg (sub_nonneg.mpr hs) l.limiter.rate_pos.le
    rw [allowedIn_of_lt horder (not_le.mp hlate), if_neg fun hboth => hlate hboth.2.1]
    simp only [add_zero, Nat.cast_zero, zero_add]
    linarith

theorem bound_step (h : l.Sound) (horder : l.InOrder r) {s t : ℚ} (hst : s ≤ t)
    (hnonneg : ∀ x, (l.step r).Before x → 0 ≤ (l.step r).levelOf k x) :
    allowedIn (l.step r).answers k s t ≤ l.limiter.burst + (t - s) * l.limiter.rate := by
  by_cases hnow : r.now ≤ t
  · have hbefore : (l.step r).Before t :=
      before_step.mpr ⟨fun a ha => (horder a ha).trans hnow, hnow⟩
    have hpaid := paid_step (k := k) h horder hbefore hst
    have hlevel := hnonneg t hbefore
    linarith
  · have hstep := allowedIn_concat l.answers ⟨r.key, r.now, (l.limiter.allow r.key r.now).1,
      (l.limiter.take ((l.kept.lookup r.key).getD (l.limiter.fresh r.now)) r.now).1⟩ k s t
    change allowedIn (l.step r).answers k s t = _ at hstep
    rw [hstep, if_neg fun hall => hnow hall.2.2.1, add_zero]
    exact h.bound k s t hst

/-- The bucket that was never forgotten answers as the one at which the key is charged. -/
theorem take_kept (h : l.Sound) (horder : l.InOrder r) {b : Bucket}
    (hb : l.limiter.buckets.lookup r.key = some b ∨
      l.limiter.buckets.lookup r.key = none ∧ b = l.limiter.fresh r.now) :
    l.limiter.take ((l.kept.lookup r.key).getD (l.limiter.fresh r.now)) r.now =
      l.limiter.take b r.now := by
  obtain hb | ⟨hnone, rfl⟩ := hb
  · rw [h.same r.key b hb, Option.getD_some]
  · cases hkept : l.kept.lookup r.key with
    | none => rfl
    | some b =>
      obtain ⟨hfilled, hfull⟩ := h.forgot r.key b hnone hkept r.now horder
      rw [Option.getD_some]
      exact RateLimiter.take_congr hfilled RateLimiter.filled_fresh
        (hfull.trans RateLimiter.level_fresh.symm)

theorem kept_step_of_ne (hk : k ≠ r.key) : (l.step r).kept.lookup k = l.kept.lookup k := by
  rw [step]
  split_ifs
  · exact AList.lookup_insert_ne hk
  · rfl

theorem kept_step_of_mem (hmem : r.key ∈ (l.step r).limiter.buckets) :
    (l.step r).kept.lookup r.key =
    some (l.limiter.take ((l.kept.lookup r.key).getD (l.limiter.fresh r.now)) r.now).2 := by
  change r.key ∈ (l.limiter.allow r.key r.now).2.buckets at hmem
  rw [step, if_pos hmem]
  exact AList.lookup_insert _

theorem kept_step_of_notMem (hmem : r.key ∉ (l.step r).limiter.buckets) :
    (l.step r).kept.lookup r.key = l.kept.lookup r.key := by
  change r.key ∉ (l.limiter.allow r.key r.now).2.buckets at hmem
  rw [step, if_neg hmem]

/-- A bucket of the table after a request: the one of the key, or one that was there before. -/
theorem bucket_step (h : l.Sound) (horder : l.InOrder r) {b : Bucket}
    (hb : (l.step r).limiter.buckets.lookup k = some b) :
    l.limiter.Filled r.now b ∧ (l.step r).kept.lookup k = some b := by
  by_cases hk : k = r.key
  · subst hk
    have hmem : r.key ∈ (l.step r).limiter.buckets := AList.lookup_isSome.mp (by simp [hb])
    obtain ⟨-, hnone, -⟩ | ⟨own, hown, hlookup, -⟩ := (serves_step h r).own
    · rw [hnone] at hb
      cases hb
    · obtain rfl : (l.limiter.take own r.now).2 = b := Option.some.inj (hlookup.symm.trans hb)
      exact ⟨RateLimiter.filled_take (filled_own h horder hown),
        by rw [kept_step_of_mem hmem, take_kept h horder hown]⟩
  · obtain hsame | ⟨hgone, -⟩ := (serves_step h r).other k hk
    · rw [hsame] at hb
      exact ⟨h.filled k b hb r.now horder, by rw [kept_step_of_ne hk, h.same k b hb]⟩
    · rw [hgone] at hb
      cases hb

theorem forgot_step (h : l.Sound) (horder : l.InOrder r) {b : Bucket}
    (hnone : (l.step r).limiter.buckets.lookup k = none) (hb : (l.step r).kept.lookup k = some b)
    (hx : l.Before x) (hnow : r.now ≤ x) :
    l.limiter.Filled x b ∧ l.limiter.level (some b) x = l.limiter.burst := by
  by_cases hk : k = r.key
  · subst hk
    obtain ⟨hbefore, -, -⟩ | ⟨own, -, hlookup, -⟩ := (serves_step h r).own
    · rw [kept_step_of_notMem (AList.lookup_eq_none.mp hnone)] at hb
      exact h.forgot r.key b hbefore hb x hx
    · rw [hlookup] at hnone
      cases hnone
  · rw [kept_step_of_ne hk] at hb
    obtain hsame | ⟨-, b', hb', hidle⟩ := (serves_step h r).other k hk
    · exact h.forgot k b (hsame ▸ hnone) hb x hx
    · obtain rfl : b' = b := Option.some.inj ((h.same k b' hb').symm.trans hb)
      have hfilled := h.filled k b' hb' r.now horder
      exact ⟨hfilled.mono hnow, RateLimiter.level_of_idle hfilled hidle hnow⟩

theorem keeping_step (h : l.Sound) (horder : l.InOrder r) :
    ∀ a ∈ (l.step r).answers, a.allowed = true → a.kept = true := by
  intro a ha hallowed
  rcases List.mem_append.mp ha with hold | hnew
  · exact h.keeping a hold hallowed
  · obtain rfl := List.mem_singleton.mp hnew
    dsimp only at hallowed ⊢
    obtain ⟨-, -, hrefused⟩ | ⟨b, hb, -, htake⟩ := (serves_step h r).own
    · rw [hrefused] at hallowed
      cases hallowed
    · rw [take_kept h horder hb, ← htake, hallowed]

theorem sound_step (h : l.Sound) (horder : l.InOrder r) : (l.step r).Sound := by
  have hserves := serves_step h r
  have hfilled : ∀ k b, (l.step r).limiter.buckets.lookup k = some b → ∀ x, (l.step r).Before x →
      (l.step r).limiter.Filled x b := by
    intro k b hb x hx
    rw [filled_step h]
    exact (bucket_step h horder hb).1.mono (before_step.mp hx).2
  have hnonneg : ∀ k x, (l.step r).Before x → 0 ≤ (l.step r).levelOf k x := by
    intro k x hx
    rw [levelOf]
    cases hb : (l.step r).limiter.buckets.lookup k with
    | none => exact zero_le_one.trans (l.step r).limiter.one_le_burst
    | some b => exact RateLimiter.level_nonneg (hfilled k b hb x hx) le_rfl
  constructor
  · exact hserves.size.trans_eq hserves.maxKeys.symm
  · exact hfilled
  · exact fun k b hb => (bucket_step h horder hb).2
  · intro k b hnone hb x hx
    obtain ⟨hbefore, hnow⟩ := before_step.mp hx
    rw [filled_step h, level_step h, hserves.burst]
    exact forgot_step h horder hnone hb hbefore hnow
  · intro k s x hx hs
    rw [hserves.burst, hserves.rate]
    exact paid_step h horder hx hs
  · intro k s t hst
    rw [hserves.burst, hserves.rate]
    exact bound_step h horder hst (hnonneg k)
  · exact keeping_step h horder

theorem sound_new (l : RateLimiter) (hempty : l.buckets = ∅) : Sound { limiter := l } := by
  have hlookup : ∀ k, l.buckets.lookup k = none := by simp [hempty]
  have hflow : ∀ s t, s ≤ t → 0 ≤ (t - s) * l.rate :=
    fun s t hst => mul_nonneg (sub_nonneg.mpr hst) l.rate_pos.le
  have hburst := zero_le_one.trans l.one_le_burst
  constructor
  · simp [RateLimiter.size, hempty]
  · intro k b hb
    rw [hlookup k] at hb
    cases hb
  · intro k b hb
    rw [hlookup k] at hb
    cases hb
  · intro k b _ hb
    simp at hb
  · intro k s x _ hs
    have := hflow s x hs
    simp only [hlookup, allowedIn, List.countP_nil, RateLimiter.level, Nat.cast_zero, zero_add]
    linarith
  · intro k s t hst
    have := hflow s t hst
    simp only [allowedIn, List.countP_nil, Nat.cast_zero]
    linarith
  · simp

/-- The limiter of the rate, the burst and the table size, before any request. -/
def new (rate burst : ℚ) (maxKeys : ℕ) : RateLog := { limiter := .new rate burst maxKeys }

theorem params_step (l : RateLog) (r : Request) : (l.step r).limiter.rate = l.limiter.rate ∧
    (l.step r).limiter.burst = l.limiter.burst ∧
    (l.step r).limiter.maxKeys = l.limiter.maxKeys := by
  rw [step, RateLimiter.allow]
  dsimp only
  split
  · exact ⟨rfl, rfl, rfl⟩
  · rw [RateLimiter.makeRoom]
    split_ifs <;> exact ⟨rfl, rfl, rfl⟩

theorem params_run (l : RateLog) (rs : List Request) :
    (run step l rs).limiter.rate = l.limiter.rate ∧
    (run step l rs).limiter.burst = l.limiter.burst ∧
    (run step l rs).limiter.maxKeys = l.limiter.maxKeys := by
  refine run_invariant (P := fun l' : RateLog => l'.limiter.rate = l.limiter.rate ∧
    l'.limiter.burst = l.limiter.burst ∧ l'.limiter.maxKeys = l.limiter.maxKeys) ⟨rfl, rfl, rfl⟩ ?_
  intro r _ l' h
  obtain ⟨hrate, hburst, hkeys⟩ := params_step l' r
  exact ⟨hrate.trans h.1, hburst.trans h.2.1, hkeys.trans h.2.2⟩

/-- In any interval a key is allowed at most the burst and what flows in during the interval, the
table holds no more keys than its size (one, where the size is 0), and a bucket that was never
forgotten would allow what is allowed. -/
theorem rate_limited {rate burst : ℚ} (hrate : 0 < rate) (hburst : 1 ≤ burst) (maxKeys : ℕ)
    {rs : List Request} (h : Guarded step InOrder (new rate burst maxKeys) rs) :
    (∀ key s t, s ≤ t → allowedIn (run step (new rate burst maxKeys) rs).answers key s t ≤
      burst + rate * (t - s)) ∧
      (run step (new rate burst maxKeys) rs).limiter.size ≤ max 1 maxKeys ∧
        ∀ a ∈ (run step (new rate burst maxKeys) rs).answers, a.allowed = true → a.kept = true := by
  have hsound : (run step (new rate burst maxKeys) rs).Sound :=
    h.invariant (sound_new _ rfl) fun _ _ hl horder => sound_step hl horder
  obtain ⟨hrate', hburst', hkeys⟩ := params_run (new rate burst maxKeys) rs
  have hnewRate : (new rate burst maxKeys).limiter.rate = rate := if_pos hrate
  have hnewBurst : (new rate burst maxKeys).limiter.burst = burst := if_pos hburst
  refine ⟨fun key s t hst => ?_, ?_, hsound.keeping⟩
  · have hbound := hsound.bound key s t hst
    rwa [hburst', hrate', hnewBurst, hnewRate, mul_comm (t - s)] at hbound
  · refine hsound.size.trans ?_
    rw [hkeys]
    change (if maxKeys = 0 then 1 else maxKeys) ≤ _
    split_ifs <;> omega

def twoSources : List Request := [⟨[97], 0⟩, ⟨[97], 0⟩, ⟨[98], 1⟩]

theorem rate_limited_two :
    (∀ key s t, s ≤ t → allowedIn (run step (new 1 1 1) twoSources).answers key s t ≤
      1 + 1 * (t - s)) ∧ (run step (new 1 1 1) twoSources).limiter.size ≤ max 1 1 ∧
        ∀ a ∈ (run step (new 1 1 1) twoSources).answers, a.allowed = true → a.kept = true :=
  rate_limited one_pos le_rfl 1 (by decide)

/-- A table of size 0 holds a key, and forgetting the bucket of a key lets another key in, which a
table that forgets nothing refuses. -/
theorem zero_holds_one : 0 < (run step (new 1 1 0) [⟨[97], 0⟩]).limiter.size ∧
    ((run step (new 1 1 1) [⟨[97], 0⟩]).limiter.allow [98] 1).1 = true ∧
      ((run step (new 1 1 1) [⟨[97], 0⟩]).limiter.allowKeeping [98] 1).1 = false := by
  decide +kernel

end RateLog

end ReadyUp.Core
