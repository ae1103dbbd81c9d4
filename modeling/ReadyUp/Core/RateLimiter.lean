import Mathlib.Algebra.Order.Field.Basic
import Mathlib.Tactic.Linarith
import Mathlib.Tactic.Positivity
import ReadyUp.Support.Decimal
import ReadyUp.Support.Table

/-!
# The rate limit of the status endpoint

Every source has a bucket of tokens that refills with the time; a request costs one. The table of
buckets is bounded, and a full table forgets the buckets that have refilled. `level` is what a
source has at a time, a full bucket when it has none; `Serves` is what a request may do to the
table.
-/
namespace ReadyUp.Core

open Support

@[ext] structure Bucket where
  tokens : ℚ
  last : ℚ
  deriving DecidableEq

instance : Inhabited Bucket := ⟨0, 0⟩

structure RateLimiter where
  rate : ℚ
  burst : ℚ
  maxKeys : ℕ
  buckets : Table Bytes Bucket := ∅
  rate_pos : 0 < rate
  one_le_burst : 1 ≤ burst
  maxKeys_pos : 0 < maxKeys

namespace RateLimiter

/-- The constructor; what makes no sense is 1. -/
def new (rate burst : ℚ) (maxKeys : ℕ) : RateLimiter where
  rate := if 0 < rate then rate else 1
  burst := if 1 ≤ burst then burst else 1
  maxKeys := if maxKeys = 0 then 1 else maxKeys
  rate_pos := by split_ifs with h; exacts [h, one_pos]
  one_le_burst := by split_ifs with h; exacts [h, le_rfl]
  maxKeys_pos := by split_ifs with h; exacts [one_pos, Nat.pos_of_ne_zero h]

def size (l : RateLimiter) : ℕ := l.buckets.keys.length

/-- `Prune`: the buckets that have had the time to refill are forgotten. -/
def prune (l : RateLimiter) (now : ℚ) : RateLimiter :=
  { l with buckets := l.buckets.keepIf fun _ b => !(l.burst / l.rate ≤ now - b.last) }

/-- A table that is full is pruned for a new key. -/
def makeRoom (l : RateLimiter) (now : ℚ) : RateLimiter :=
  if l.maxKeys ≤ l.size then l.prune now else l

def refill (l : RateLimiter) (b : Bucket) (now : ℚ) : Bucket :=
  if b.last < now then
    { tokens := min l.burst (b.tokens + (now - b.last) * l.rate), last := now }
  else b

def take (l : RateLimiter) (b : Bucket) (now : ℚ) : Bool × Bucket :=
  let b := l.refill b now
  if b.tokens < 1 then (false, b) else (true, { b with tokens := b.tokens - 1 })

def fresh (l : RateLimiter) (now : ℚ) : Bucket := { tokens := l.burst, last := now }

/-- The request is made at the bucket. -/
def charge (l : RateLimiter) (key : Bytes) (b : Bucket) (now : ℚ) : Bool × RateLimiter :=
  ((l.take b now).1, { l with buckets := l.buckets.insert key (l.take b now).2 })

def allow (l : RateLimiter) (key : Bytes) (now : ℚ) : Bool × RateLimiter :=
  match l.buckets.lookup key with
  | some b => l.charge key b now
  | none =>
    let l := l.makeRoom now
    if l.maxKeys ≤ l.size then (false, l) else l.charge key (l.fresh now) now

/-- `Allow` of a table that forgets nothing. -/
def allowKeeping (l : RateLimiter) (key : Bytes) (now : ℚ) : Bool × RateLimiter :=
  match l.buckets.lookup key with
  | some b => l.charge key b now
  | none => if l.maxKeys ≤ l.size then (false, l) else l.charge key (l.fresh now) now

def level (l : RateLimiter) (b : Option Bucket) (now : ℚ) : ℚ :=
  match b with
  | none => l.burst
  | some b => min l.burst (b.tokens + (now - b.last) * l.rate)

variable {l : RateLimiter} {b : Bucket} {o : Option Bucket} {key : Bytes} {now x y : ℚ}

/-! ### Levels -/

theorem level_le_burst : l.level o x ≤ l.burst := by
  cases o with
  | none => exact le_rfl
  | some b => exact min_le_left _ _

theorem level_le_add (h : x ≤ y) : l.level o y ≤ l.level o x + (y - x) * l.rate := by
  have hflow : 0 ≤ (y - x) * l.rate := mul_nonneg (sub_nonneg.mpr h) l.rate_pos.le
  cases o with
  | none => exact le_add_of_nonneg_right hflow
  | some b =>
    rw [level, level, ← min_add_add_right]
    apply min_le_min
    · exact le_add_of_nonneg_right hflow
    · exact le_of_eq (by ring)

/-- A bucket with tokens that is not from the future. -/
def Filled (l : RateLimiter) (now : ℚ) (b : Bucket) : Prop :=
  0 ≤ b.tokens ∧ b.tokens ≤ l.burst ∧ b.last ≤ now

theorem Filled.mono (h : l.Filled x b) (hle : x ≤ y) : l.Filled y b := ⟨h.1, h.2.1, h.2.2.trans hle⟩

theorem filled_fresh : l.Filled now (l.fresh now) :=
  ⟨zero_le_one.trans l.one_le_burst, le_rfl, le_rfl⟩

theorem level_nonneg (h : l.Filled now b) (hle : now ≤ x) : 0 ≤ l.level (some b) x := by
  have hflow : 0 ≤ (x - b.last) * l.rate := mul_nonneg (by linarith [h.2.2]) l.rate_pos.le
  exact le_min (zero_le_one.trans l.one_le_burst) (add_nonneg h.1 hflow)

theorem level_of_idle (h : l.Filled now b) (hidle : l.burst / l.rate ≤ now - b.last)
    (hle : now ≤ x) : l.level (some b) x = l.burst := by
  rw [div_le_iff₀ l.rate_pos] at hidle
  have hflow : (now - b.last) * l.rate ≤ (x - b.last) * l.rate :=
    mul_le_mul_of_nonneg_right (by linarith) l.rate_pos.le
  exact min_eq_left (by linarith [h.1])

theorem refill_tokens (h : l.Filled now b) : (l.refill b now).tokens = l.level (some b) now := by
  rw [refill]
  split_ifs with hlast
  · rfl
  · have hsame : now - b.last = 0 := by linarith [h.2.2, not_lt.mp hlast]
    rw [level, hsame, zero_mul, add_zero, min_eq_right h.2.1]

theorem refill_last (h : l.Filled now b) : (l.refill b now).last = now := by
  rw [refill]
  split_ifs with hlast
  · rfl
  · exact le_antisymm h.2.2 (not_lt.mp hlast)

theorem take_eq (h : l.Filled now b) : l.take b now =
    if l.level (some b) now < 1 then (false, ⟨l.level (some b) now, now⟩)
    else (true, ⟨l.level (some b) now - 1, now⟩) := by
  have hrefill : l.refill b now = ⟨l.level (some b) now, now⟩ :=
    Bucket.ext (refill_tokens h) (refill_last h)
  rw [take, hrefill]

theorem filled_take (h : l.Filled now b) : l.Filled now (l.take b now).2 := by
  have hnonneg := level_nonneg h le_rfl
  have hle : l.level (some b) now ≤ l.burst := level_le_burst
  rw [take_eq h]
  split_ifs with hlow
  · exact ⟨hnonneg, hle, le_rfl⟩
  · refine ⟨sub_nonneg.mpr (not_lt.mp hlow), ?_, le_rfl⟩
    dsimp only
    linarith

theorem level_now {tokens : ℚ} (h : tokens ≤ l.burst) :
    l.level (some ⟨tokens, now⟩) now = tokens := by
  rw [level, sub_self, zero_mul, add_zero, min_eq_right h]

theorem level_take (h : l.Filled now b) :
    l.level (some (l.take b now).2) now + (if (l.take b now).1 then 1 else 0) =
      l.level (some b) now := by
  have hle : l.level (some b) now ≤ l.burst := level_le_burst
  rw [take_eq h]
  by_cases hlow : l.level (some b) now < 1
  · rw [if_pos hlow, level_now hle]
    exact add_zero _
  · rw [if_neg hlow, level_now (by linarith)]
    exact sub_add_cancel _ _

theorem take_congr {b' : Bucket} (h : l.Filled now b) (h' : l.Filled now b')
    (hlevel : l.level (some b) now = l.level (some b') now) : l.take b now = l.take b' now := by
  rw [take_eq h, take_eq h', hlevel]

theorem level_fresh : l.level (some (l.fresh now)) now = l.burst := level_now le_rfl

/-! ### What a request does to the table -/

/-- A bucket is forgotten only when it had the time to refill. -/
theorem lookup_prune (l : RateLimiter) (now : ℚ) (k : Bytes) :
    (l.prune now).buckets.lookup k = l.buckets.lookup k ∨ (l.prune now).buckets.lookup k = none ∧
      ∃ b, l.buckets.lookup k = some b ∧ l.burst / l.rate ≤ now - b.last := by
  rw [prune, Table.lookup_keepIf]
  cases hb : l.buckets.lookup k with
  | none => exact .inl rfl
  | some b =>
    by_cases hidle : l.burst / l.rate ≤ now - b.last
    · exact .inr ⟨by simp [Option.filter_some, hidle], b, rfl, hidle⟩
    · exact .inl (by simp [Option.filter_some, hidle])

theorem size_prune_le (l : RateLimiter) (now : ℚ) : (l.prune now).size ≤ l.size := by
  have hsub : ((l.prune now).buckets.entries).Sublist l.buckets.entries := List.filter_sublist
  exact (hsub.map Sigma.fst).length_le

theorem size_charge (l : RateLimiter) (key : Bytes) (b : Bucket) (now : ℚ) :
    (l.charge key b now).2.size = if key ∈ l.buckets then l.size else l.size + 1 :=
  Table.length_keys_insert l.buckets key (l.take b now).2

/-- What a request may do: other keys keep their bucket or lose it when it had the time to refill,
and the key is refused for want of room, or it is charged at its bucket or at a new one. -/
structure Serves (l : RateLimiter) (key : Bytes) (now : ℚ) (allowed : Bool)
    (l' : RateLimiter) : Prop where
  rate : l'.rate = l.rate
  burst : l'.burst = l.burst
  maxKeys : l'.maxKeys = l.maxKeys
  size : l'.size ≤ l.maxKeys
  other : ∀ k ≠ key, l'.buckets.lookup k = l.buckets.lookup k ∨ l'.buckets.lookup k = none ∧
    ∃ b, l.buckets.lookup k = some b ∧ l.burst / l.rate ≤ now - b.last
  own : (l.buckets.lookup key = none ∧ l'.buckets.lookup key = none ∧ allowed = false) ∨
    ∃ b, (l.buckets.lookup key = some b ∨ l.buckets.lookup key = none ∧ b = l.fresh now) ∧
      l'.buckets.lookup key = some (l.take b now).2 ∧ allowed = (l.take b now).1

theorem serves_charge (hsize : (l.charge key b now).2.size ≤ l.maxKeys)
    (hb : l.buckets.lookup key = some b ∨ l.buckets.lookup key = none ∧ b = l.fresh now) :
    l.Serves key now (l.charge key b now).1 (l.charge key b now).2 where
  rate := rfl
  burst := rfl
  maxKeys := rfl
  size := hsize
  other _ hne := .inl (AList.lookup_insert_ne hne)
  own := .inr ⟨b, hb, AList.lookup_insert _, rfl⟩

theorem serves_room (hnone : l.buckets.lookup key = none) (hsize : l.size ≤ l.maxKeys) :
    l.Serves key now (if l.maxKeys ≤ l.size then (false, l) else l.charge key (l.fresh now) now).1
      (if l.maxKeys ≤ l.size then (false, l) else l.charge key (l.fresh now) now).2 := by
  split_ifs with hfull
  · exact ⟨rfl, rfl, rfl, hsize, fun _ _ => .inl rfl, .inl ⟨hnone, hnone, rfl⟩⟩
  · refine serves_charge ?_ (.inr ⟨hnone, rfl⟩)
    rw [size_charge, if_neg (AList.lookup_eq_none.mp hnone)]
    omega

theorem Serves.of_prune {allowed : Bool} {l' : RateLimiter} (hnone : l.buckets.lookup key = none)
    (h : (l.prune now).Serves key now allowed l') : l.Serves key now allowed l' where
  rate := h.rate
  burst := h.burst
  maxKeys := h.maxKeys
  size := h.size
  other k hne := by
    obtain hsame | ⟨hgone, b, hb, hidle⟩ := h.other k hne
    · rw [hsame]
      exact lookup_prune l now k
    · obtain hsame | ⟨hgone', -⟩ := lookup_prune l now k
      · exact .inr ⟨hgone, b, hsame ▸ hb, hidle⟩
      · rw [hgone'] at hb
        cases hb
  own := by
    have hpruned : (l.prune now).buckets.lookup key = none := by
      obtain hsame | ⟨hgone, -⟩ := lookup_prune l now key
      · exact hsame.trans hnone
      · exact hgone
    obtain ⟨-, hrest⟩ | ⟨b, hb | ⟨-, hfresh⟩, hlookup, hallowed⟩ := h.own
    · exact .inl ⟨hnone, hrest⟩
    · rw [hpruned] at hb
      cases hb
    · exact .inr ⟨b, .inr ⟨hnone, hfresh⟩, hlookup, hallowed⟩

theorem serves_allow (hsize : l.size ≤ l.maxKeys) (key : Bytes) (now : ℚ) :
    l.Serves key now (l.allow key now).1 (l.allow key now).2 := by
  rw [allow]
  cases hlookup : l.buckets.lookup key with
  | some b =>
    refine serves_charge ?_ (.inl hlookup)
    have hmem : key ∈ l.buckets := AList.lookup_isSome.mp (by simp [hlookup])
    rwa [size_charge, if_pos hmem]
  | none =>
    dsimp only
    rw [makeRoom]
    by_cases hfull : l.maxKeys ≤ l.size
    · rw [if_pos hfull]
      refine Serves.of_prune hlookup (serves_room ?_ ((size_prune_le l now).trans hsize))
      obtain hsame | ⟨hgone, -⟩ := lookup_prune l now key
      · exact hsame.trans hlookup
      · exact hgone
    · rw [if_neg hfull]
      exact serves_room hlookup hsize

end RateLimiter

end ReadyUp.Core
