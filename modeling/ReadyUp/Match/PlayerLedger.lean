import Mathlib.Algebra.Order.BigOperators.Group.List
import ReadyUp.Match.ScoreLedger

/-!
# Player totals and the records behind them

A player's totals should be what the records of the closed rounds carry, plus what the
round in progress has already counted. `slack` is a total without the open round's part;
an event is harmless when it leaves every slack alone, and then taking rounds back gives
the totals of the rounds that stay.

Not every event is harmless. `RewindSafe` names the ones that are: nothing is counted
outside a round, nobody dies or becomes MVP twice in one, the entry duel is between two
players whose sides are known and stay the same, and every record at the end of a round
belongs to a player who was on a side.
-/
namespace ReadyUp.Stats

open ReadyUp.Support

/-- The totals that a record of a round accounts for. -/
inductive Counter where
  | kills
  | deaths
  | assists
  | flashAssists
  | headshotKills
  | damage
  | utilityDamage
  | kastRounds
  | roundsPlayed
  | mvp
  | entryKillsT
  | entryKillsCt
  | entryDeathsT
  | entryDeathsCt
  | tradedDeaths
  | multiKills (n : Fin 5)
  | clutchesWon (n : Fin 5)
  deriving DecidableEq, Repr

def PlayerStats.count (s : PlayerStats) : Counter → ℤ
  | .kills => s.kills
  | .deaths => s.deaths
  | .assists => s.assists
  | .flashAssists => s.flashAssists
  | .headshotKills => s.headshotKills
  | .damage => s.damage
  | .utilityDamage => s.utilityDamage
  | .kastRounds => s.kastRounds
  | .roundsPlayed => s.roundsPlayed
  | .mvp => s.mvp
  | .entryKillsT => s.entryKillsT
  | .entryKillsCt => s.entryKillsCt
  | .entryDeathsT => s.entryDeathsT
  | .entryDeathsCt => s.entryDeathsCt
  | .tradedDeaths => s.tradedDeaths
  | .multiKills n => s.multiKills.get n
  | .clutchesWon n => s.clutchesWon.get n

/-- What `RewindTo` takes back for one record of a dropped round. -/
def PlayerRound.carried (r : PlayerRound) : Counter → ℤ
  | .kills => r.kills
  | .deaths => if r.died then 1 else 0
  | .assists => r.assists
  | .flashAssists => r.flashAssists
  | .headshotKills => r.headshotKills
  | .damage => r.damage
  | .utilityDamage => r.utilityDamage
  | .kastRounds => if r.kast then 1 else 0
  | .roundsPlayed => 1
  | .mvp => if r.mvp then 1 else 0
  | .entryKillsT => if r.entryKill ∧ r.side = 2 then 1 else 0
  | .entryKillsCt => if r.entryKill ∧ r.side ≠ 2 then 1 else 0
  | .entryDeathsT => if r.entryDeath ∧ r.side = 2 then 1 else 0
  | .entryDeathsCt => if r.entryDeath ∧ r.side ≠ 2 then 1 else 0
  | .tradedDeaths => if r.traded then 1 else 0
  | .multiKills n => if 0 < r.kills ∧ (n : ℤ) = min r.kills 5 - 1 then 1 else 0
  | .clutchesWon n =>
    if r.clutchWon ∧ 1 ≤ r.clutchVs ∧ r.clutchVs ≤ 5 ∧ (n : ℤ) = r.clutchVs - 1 then 1 else 0

/-- The part of an open record that is in the totals already: rounds played, KAST rounds,
multi-kills and clutches are counted when the round closes, the rest as it happens. -/
def PlayerRound.pending (r : PlayerRound) (side : ℤ) : Counter → ℤ
  | .kastRounds => 0
  | .roundsPlayed => 0
  | .multiKills _ => 0
  | .clutchesWon _ => 0
  | c => { r with side := side }.carried c

/-- Nothing of the record is in the totals. -/
def PlayerRound.Blank (r : PlayerRound) : Prop :=
  r.kills = 0 ∧ r.assists = 0 ∧ r.flashAssists = 0 ∧ r.headshotKills = 0 ∧ r.damage = 0 ∧
    r.utilityDamage = 0 ∧ r.died = false ∧ r.mvp = false ∧ r.entryKill = false ∧
    r.entryDeath = false ∧ r.traded = false

instance (r : PlayerRound) : Decidable r.Blank := inferInstanceAs (Decidable (_ ∧ _))

/-- What an open record always satisfies. -/
structure PlayerRound.Open (r : PlayerRound) : Prop where
  kills : 0 ≤ r.kills
  assists : 0 ≤ r.assists
  flashAssists : 0 ≤ r.flashAssists
  headshotKills : 0 ≤ r.headshotKills
  damage : 0 ≤ r.damage
  utilityDamage : 0 ≤ r.utilityDamage
  clutchVs : r.clutchVs ≤ 5
  clutchWon : r.clutchWon = false

/-- What the rounds carry for a player. -/
def carriedBy (rs : List RoundSummary) (id : ℕ) (c : Counter) : ℤ :=
  (rs.map fun r => ((r.players.filter (·.id = id)).map (·.carried c)).sum).sum

/-- A player's counter in a snapshot; a player without a line has zeros. -/
def MapStats.stat (m : MapStats) (id : ℕ) (c : Counter) : ℤ :=
  ((m.players.find? (·.id = id)).map (·.stats.count c)).getD 0

theorem pending_default (side : ℤ) (c : Counter) : (default : PlayerRound).pending side c = 0 := by
  cases c <;> simp [PlayerRound.pending, PlayerRound.carried, default]

theorem pending_of_blank {r : PlayerRound} (h : r.Blank) (side : ℤ) (c : Counter) :
    r.pending side c = 0 := by
  obtain ⟨h1, h2, h3, h4, h5, h6, h7, h8, h9, h10, h11⟩ := h
  cases c <;> simp [PlayerRound.pending, PlayerRound.carried, *]

/-! ## Taking records back -/

theorem get_updateAt (arr : Vector ℤ 5) (n : ℤ) (f : ℤ → ℤ) (i : Fin 5) :
    (updateAt arr n f).get i = if (i : ℤ) = n then f (arr.get i) else arr.get i := by
  change (updateAt arr n f)[i.val] = if (i : ℤ) = n then f arr[i.val] else arr[i.val]
  rw [updateAt, Vector.getElem_ofFn]
  rfl

theorem PlayerRound.carried_nonneg {r : PlayerRound} (h : 0 ≤ r.kills ∧ 0 ≤ r.assists ∧
    0 ≤ r.flashAssists ∧ 0 ≤ r.headshotKills ∧ 0 ≤ r.damage ∧ 0 ≤ r.utilityDamage)
    (c : Counter) : 0 ≤ r.carried c := by
  obtain ⟨hkills, hassists, hflashAssists, hheadshotKills, hdamage, hutilityDamage⟩ := h
  cases c with
  | kills => exact hkills
  | assists => exact hassists
  | flashAssists => exact hflashAssists
  | headshotKills => exact hheadshotKills
  | damage => exact hdamage
  | utilityDamage => exact hutilityDamage
  | roundsPlayed => exact zero_le_one
  | _ =>
    simp only [PlayerRound.carried]
    split_ifs <;> decide

theorem PlayerStats.count_takeBack {s : PlayerStats} {pr : PlayerRound} {c : Counter} {v : ℤ}
    (hv : 0 ≤ v) (h : s.count c = v + pr.carried c) : (s.takeBack pr).count c = v := by
  have hdec : ∀ d, dec (v + d) d = v := dec_add hv
  cases c <;> simp only [PlayerStats.count, PlayerRound.carried, PlayerStats.takeBack] at h ⊢
  case multiKills n =>
    by_cases hk : 0 < pr.kills
    · simp only [hk, true_and, if_true, get_updateAt] at h ⊢
      split_ifs at h ⊢ <;> simp [h, hdec]
    · simpa [hk] using h
  case clutchesWon n =>
    by_cases hk : pr.clutchWon = true ∧ 1 ≤ pr.clutchVs ∧ pr.clutchVs ≤ 5
    · simp only [hk, true_and, and_self, if_true, get_updateAt] at h ⊢
      split_ifs at h ⊢ <;> simp [h, hdec]
    · rw [if_neg fun hc => hk ⟨hc.1, hc.2.1, hc.2.2.1⟩, add_zero] at h
      simp only [if_neg hk, h]
  all_goals first
    | rw [h, hdec]
    | (split_ifs at h ⊢ <;> simp [h, hdec])

theorem find?_updateLine (id j : ℕ) (f : PlayerStats → PlayerStats) (ls : List PlayerLine) :
    (updateLine id f ls).find? (·.id = j) =
      if j = id then (ls.find? (·.id = j)).map fun l => { l with stats := f l.stats }
      else ls.find? (·.id = j) := by
  induction ls with
  | nil => simp [updateLine]
  | cons l ls ih =>
    unfold updateLine
    by_cases hl : l.id = id
    · by_cases hj : j = id
      · simp [hl, hj]
      · have hlj : l.id ≠ j := fun h => hj (h ▸ hl)
        rw [if_pos hl, if_neg hj, List.find?_cons_of_neg (by simpa using hlj),
          List.find?_cons_of_neg (by simpa using hlj)]
    · by_cases hj : l.id = j
      · have hne : j ≠ id := fun h => hl (hj.trans h)
        simp [hj, hne]
      · simp [hl, hj, ih]

/-- The records of a round, taken back one by one, leave what the others account for. -/
theorem foldl_updateLine_stat {ps : List PlayerRound} (hps : ∀ pr ∈ ps, ∀ c, 0 ≤ pr.carried c)
    {ls : List PlayerLine} {id : ℕ} {c : Counter} {v : ℤ} (hv : 0 ≤ v)
    (h : ((ls.find? (·.id = id)).map (·.stats.count c)).getD 0 =
      v + ((ps.filter (·.id = id)).map (·.carried c)).sum) :
    (((ps.foldl (fun ls pr => updateLine pr.id (·.takeBack pr) ls) ls).find? (·.id = id)).map
      (·.stats.count c)).getD 0 = v := by
  induction ps generalizing ls with
  | nil => simpa using h
  | cons pr ps ih =>
    have hps' : ∀ pr' ∈ ps, ∀ c, 0 ≤ pr'.carried c :=
      fun pr' hpr => hps pr' (List.mem_cons_of_mem _ hpr)
    rw [List.foldl_cons]
    apply ih hps'
    rw [find?_updateLine]
    by_cases hid : pr.id = id
    · have hrest : 0 ≤ ((ps.filter (·.id = id)).map (·.carried c)).sum := by
        apply List.sum_nonneg
        simp only [List.mem_map, List.mem_filter]
        rintro _ ⟨pr', ⟨hmem, -⟩, rfl⟩
        exact hps' pr' hmem c
      have hhead := hps pr List.mem_cons_self c
      simp only [hid, decide_true, List.filter_cons_of_pos, List.map_cons, List.sum_cons] at h
      rw [if_pos hid.symm]
      cases hl : ls.find? (·.id = id) with
      | none =>
        -- no line to write to: then the record carried nothing
        simp only [hl, Option.map_none, Option.getD_none] at h ⊢
        omega
      | some l =>
        simp only [hl, Option.map_some, Option.getD_some] at h ⊢
        exact PlayerStats.count_takeBack (by omega) (by omega)
    · rw [if_neg fun hc => hid hc.symm]
      simpa [hid] using h

/-- The rounds on record carry nonnegative amounts. -/
def Carries (rs : List RoundSummary) : Prop :=
  ∀ r ∈ rs, ∀ pr ∈ r.players, ∀ c, 0 ≤ pr.carried c

theorem carriedBy_append (rs rs' : List RoundSummary) (id : ℕ) (c : Counter) :
    carriedBy (rs ++ rs') id c = carriedBy rs id c + carriedBy rs' id c := by
  simp [carriedBy]

theorem Carries.carriedBy_nonneg {rs : List RoundSummary} (h : Carries rs) (id : ℕ)
    (c : Counter) : 0 ≤ carriedBy rs id c := by
  apply List.sum_nonneg
  simp only [List.mem_map]
  rintro _ ⟨r, hr, rfl⟩
  apply List.sum_nonneg
  simp only [List.mem_map, List.mem_filter]
  rintro _ ⟨pr, ⟨hpr, -⟩, rfl⟩
  exact h r hr pr hpr c

theorem foldl_takeBack_stat {rs : List RoundSummary} (hrs : Carries rs) {m : MapStats} {id : ℕ}
    {c : Counter} {v : ℤ} (hv : 0 ≤ v) (h : m.stat id c = v + carriedBy rs id c) :
    (rs.foldl MapStats.takeBack m).stat id c = v := by
  induction rs generalizing m with
  | nil => simpa [carriedBy] using h
  | cons r rs ih =>
    have htail : Carries rs := fun r' hr' => hrs r' (List.mem_cons_of_mem _ hr')
    rw [List.foldl_cons]
    apply ih htail
    have hrest := htail.carriedBy_nonneg id c
    simp only [carriedBy, List.map_cons, List.sum_cons] at h hrest ⊢
    apply foldl_updateLine_stat (hrs r List.mem_cons_self) (by omega)
    rw [← MapStats.stat, h]
    omega

/-! ## Snapshots -/

theorem map_id_updateLine (id : ℕ) (f : PlayerStats → PlayerStats) (ls : List PlayerLine) :
    (updateLine id f ls).map (·.id) = ls.map (·.id) := by
  induction ls with
  | nil => rfl
  | cons l ls ih => unfold updateLine; split_ifs <;> simp [ih]

theorem map_id_foldl_takeBack (rs : List RoundSummary) (m : MapStats) :
    (rs.foldl MapStats.takeBack m).players.map (·.id) = m.players.map (·.id) :=
  foldl_fixed MapStats.takeBack (fun m => m.players.map (·.id))
    (fun m r => foldl_fixed _ (fun ls => ls.map PlayerLine.id)
      (fun ls pr => map_id_updateLine pr.id _ ls) r.players m.players) rs m

namespace StatsAccumulator

/-- The line of a player in a snapshot. -/
def lineOf (id : ℕ) (p : Player) : PlayerLine :=
  { id := id, name := p.name, team := p.team, lastSide := p.lastSide, bot := p.bot, stats := p.s }

theorem snapshot_players_perm (a : StatsAccumulator) :
    a.snapshot.players.Perm (a.players.entries.map fun kv => lineOf kv.1 kv.2) :=
  List.perm_insertionSort _ _

theorem map_id_lineOf (a : StatsAccumulator) :
    (a.players.entries.map fun kv => lineOf kv.1 kv.2).map (·.id) = a.players.keys := by
  simp [AList.keys, List.keys, lineOf, Function.comp_def]

theorem snapshot_players_nodup (a : StatsAccumulator) :
    (a.snapshot.players.map (·.id)).Nodup := by
  rw [(a.snapshot_players_perm.map _).nodup_iff, map_id_lineOf]
  exact a.players.keys_nodup

theorem find?_snapshot (a : StatsAccumulator) (id : ℕ) :
    a.snapshot.players.find? (·.id = id) = (a.players.lookup id).map (lineOf id) := by
  rw [find?_eq_of_perm a.snapshot_players_perm a.snapshot_players_nodup, List.find?_map]
  simp only [Function.comp_def, lineOf]
  rw [find?_entries, Option.map_map]
  rfl

theorem count_default (c : Counter) : (default : Player).s.count c = 0 := by
  cases c with
  | multiKills n | clutchesWon n => exact Vector.getElem_replicate n.isLt
  | _ => rfl

theorem stat_snapshot (a : StatsAccumulator) (id : ℕ) (c : Counter) :
    a.snapshot.stat id c = (a.players.read id).s.count c := by
  rw [MapStats.stat, find?_snapshot, Table.read]
  cases a.players.lookup id with
  | none => simp [count_default]
  | some p => simp [lineOf]

theorem lookup_foldl_restoreLine {ls : List PlayerLine} (h : (ls.map (·.id)).Nodup)
    (t : Table ℕ Player) (id : ℕ) :
    (ls.foldl restoreLine t).lookup id =
      match ls.find? (·.id = id) with
      | some l => some ⟨l.name, l.team, l.lastSide, l.bot, l.stats⟩
      | none => t.lookup id := by
  induction ls generalizing t with
  | nil => rfl
  | cons l ls ih =>
    rw [List.map_cons, List.nodup_cons] at h
    obtain ⟨hl, hls⟩ := h
    rw [List.foldl_cons, ih hls]
    by_cases hid : l.id = id
    · have hnone : ls.find? (·.id = id) = none := by
        rw [List.find?_eq_none]
        intro l' hl' heq
        exact hl (List.mem_map.mpr ⟨l', hl', (of_decide_eq_true heq).trans hid.symm⟩)
      simp [hnone, hid, restoreLine]
    · simp only [hid, decide_false, Bool.false_eq_true, not_false_eq_true,
        List.find?_cons_of_neg]
      cases ls.find? (·.id = id) with
      | none => simp [restoreLine, AList.lookup_insert_ne fun h : id = l.id => hid h.symm]
      | some l' => rfl

/-- Restoring a snapshot and taking one again gives the same counters. -/
theorem stat_restore {m : MapStats} (h : (m.players.map (·.id)).Nodup) (id : ℕ) (c : Counter) :
    (restore m).snapshot.stat id c = m.stat id c := by
  rw [stat_snapshot, Table.read]
  simp only [restore, lookup_foldl_restoreLine h, MapStats.stat]
  cases m.players.find? (·.id = id) with
  | none => simp [count_default]
  | some l => rfl

end StatsAccumulator

end ReadyUp.Stats
