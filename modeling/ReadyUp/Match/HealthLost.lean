import ReadyUp.Match.DoubleEntry

/-!
# Damage is what the victim lost

A hit is credited with the health it takes from what the accumulator remembers of the victim, so the
credits for one victim add up to at most the 100 that a round starts with. The memory is cleared at
the end of a round as well as at its start: a later hit on a player who is already hurt counts his
lost health again.
-/
namespace ReadyUp.Stats

open ReadyUp.Support

namespace StatsAccumulator

variable {a : StatsAccumulator}

/-- The health that the next hit on a player starts from. -/
def remembered (a : StatsAccumulator) (id : ℕ) : ℤ := max 0 ((a.round.health.lookup id).getD 100)

/-- A hit that is credited: somebody else's, and not a teammate's. -/
def Credits (a : StatsAccumulator) (victim attacker : ℕ) (dmgHealth : ℤ) : Prop :=
  0 < dmgHealth ∧ ¬(attacker = 0 ∨ attacker = victim) ∧
    ¬(a.sideOf attacker ≠ 0 ∧ a.sideOf attacker = a.sideOf victim)

instance (a : StatsAccumulator) (victim attacker : ℕ) (dmgHealth : ℤ) :
    Decidable (a.Credits victim attacker dmgHealth) :=
  inferInstanceAs (Decidable (_ ∧ _))

/-! ## One hit -/

theorem total_modP_damage (a : StatsAccumulator) (k : ℕ) (d : ℤ) (f : PlayerStats → PlayerStats)
    (hf : ∀ s, (f s).damage = s.damage + d) :
    (a.modP k f).total (·.damage) = a.total (·.damage) + d := by
  refine Table.total_add (f := fun p : Player => p.s.damage) (k := k) rfl ?_
  intro j
  have hread := read_modP a k j f
  rw [hread]
  split_ifs with hj
  · rw [hf, hj]
  · rw [add_zero]

theorem total_modR (a : StatsAccumulator) (k : ℕ) (g : PlayerRound → PlayerRound)
    (f : PlayerStats → ℤ) : (a.modR k g).total f = a.total f := rfl

theorem onPlayerHurt_skipped {victim : ℕ} (h : ¬(a.live = true ∧ victim ≠ 0)) (attacker : ℕ)
    (dmgHealth healthAfter : ℤ) (weapon : String) :
    a.onPlayerHurt victim attacker dmgHealth healthAfter weapon = a := by
  unfold onPlayerHurt
  rw [if_pos]
  by_cases hlive : a.live = true
  · simpa [hlive] using h
  · simp [hlive]

/-- What a hit adds to the damage of all players, and what is remembered after it. -/
theorem onPlayerHurt_credit {victim : ℕ} (hlive : a.live = true) (hvictim : victim ≠ 0)
    (attacker : ℕ) (dmgHealth healthAfter : ℤ) (weapon : String) :
    (a.onPlayerHurt victim attacker dmgHealth healthAfter weapon).total (·.damage) =
        a.total (·.damage) + (if a.Credits victim attacker dmgHealth then
          a.remembered victim - max 0 (min healthAfter (a.remembered victim)) else 0) ∧
      (a.onPlayerHurt victim attacker dmgHealth healthAfter weapon).round.health =
        a.round.health.insert victim (max 0 (min healthAfter (a.remembered victim))) := by
  have hrun : (!a.live || victim == 0) = false := by simp [hlive, hvictim]
  unfold onPlayerHurt
  rw [if_neg (by simp [hrun])]
  dsimp only
  have hbefore : max 0 ((a.round.health.lookup victim).getD 100) = a.remembered victim := rfl
  rw [hbefore]
  by_cases hself : attacker = 0 ∨ attacker = victim
  · have hnot : ¬a.Credits victim attacker dmgHealth := fun h => h.2.1 hself
    rw [if_pos hself, if_neg hnot, add_zero]
    exact ⟨rfl, rfl⟩
  have hside :
      ∀ health id, ({ a with round := { a.round with health := health } } : StatsAccumulator).sideOf
        id =
      a.sideOf id := fun _ _ => rfl
  rw [if_neg hself]
  simp only [hside]
  by_cases hteam : a.sideOf attacker ≠ 0 ∧ a.sideOf attacker = a.sideOf victim
  · have hnot : ¬a.Credits victim attacker dmgHealth := fun h => h.2.2 hteam
    rw [if_pos hteam, if_neg hnot, add_zero]
    exact ⟨rfl, rfl⟩
  rw [if_neg hteam]
  have hiff : a.Credits victim attacker dmgHealth ↔ dmgHealth > 0 :=
    ⟨fun h => h.1, fun h => ⟨h, hself, hteam⟩⟩
  simp only [hiff]
  refine ⟨?_, rfl⟩
  rw [total_modR]
  refine total_modP_damage _ attacker _ _ ?_
  exact fun _ => rfl

/-! ## The other calls -/

section Frame

/-- What is remembered of the players' health. -/
def health (a : StatsAccumulator) : Table ℕ ℤ := a.round.health

@[simp] theorem modP_health (a : StatsAccumulator) (id : ℕ) (f : PlayerStats → PlayerStats) :
    (a.modP id f).health = a.health := rfl

@[simp] theorem modR_health (a : StatsAccumulator) (id : ℕ) (f : PlayerRound → PlayerRound) :
    (a.modR id f).health = a.health := rfl

theorem tradeStep_health (victim attacker : ℕ) (attackerSide : ℤ) (time : ℚ)
    (st : StatsAccumulator × Bool)
    (kv : Sigma fun _ : ℕ => ℕ × ℚ) :
    (tradeStep victim attacker attackerSide time st kv).1.health = st.1.health := by
  unfold tradeStep
  dsimp only
  split_ifs <;> simp

theorem creditEntry_health (a : StatsAccumulator) (victim attacker : ℕ)
    (victimSide attackerSide : ℤ) :
    (a.creditEntry victim attacker victimSide attackerSide).health = a.health := by
  unfold creditEntry
  split
  · rfl
  · rfl

theorem creditKill_health (a : StatsAccumulator) (victim attacker : ℕ) (victimSide attackerSide : ℤ)
    (headshot : Bool) (weapon : String) (time : ℚ) :
    (a.creditKill victim attacker victimSide attackerSide headshot weapon time).health =
      a.health := by
  have hloop := foldl_fixed _ (fun st : StatsAccumulator × Bool => st.1.health)
    (tradeStep_health victim attacker attackerSide time)
  unfold creditKill
  dsimp only
  split_ifs <;> simp [hloop, creditEntry_health]

theorem onPlayerDeath_health (a : StatsAccumulator) (victim attacker assister : ℕ)
    (assistedFlash headshot : Bool) (weapon : String) (time : ℚ) :
    (a.onPlayerDeath victim attacker assister assistedFlash headshot weapon time).health =
      a.health := by
  have hassist :
      ∀ b : StatsAccumulator, ∀ side,
        (b.creditAssist victim attacker assister side assistedFlash).health =
      b.health := by
    intro b side
    unfold creditAssist
    dsimp only
    split_ifs <;> simp
  have hclutch : ∀ b : StatsAccumulator, ∀ side, (b.noteClutch side).health = b.health := by
    intro b side
    unfold noteClutch
    dsimp only
    split_ifs
    · split <;> rfl
    · split <;> rfl
    · rfl
  have hdeath : ∀ side, (a.noteDeath victim side).health = a.health := fun _ => rfl
  unfold onPlayerDeath
  split_ifs
  · rfl
  · dsimp only
    rw [hclutch, hassist]
    split_ifs
    · rw [modP_health, hdeath]
    · change (modP _ _ _).health = _
      rw [modP_health, hdeath]
    · change (creditKill _ _ _ _ _ _ _ _).health = _
      rw [creditKill_health, hdeath]

/-- Only a hit and the two ends of a round touch what is remembered. -/
theorem step_health {op : StatsOp} (hstart : op ≠ .onRoundStart)
    (hhurt : ∀ victim attacker dmgHealth healthAfter weapon, op ≠
      .onPlayerHurt victim attacker dmgHealth healthAfter weapon)
    (hend : ∀ winnerSide reason, op ≠ .onRoundEnd winnerSide reason) :
    (a.step op).health = a.health := by
  cases op with
  | onRoundStart => exact absurd rfl hstart
  | observePlayer id name side teamSlot bot =>
    simp only [step, observePlayer]
    split_ifs
    · rfl
    · rfl
    · rfl
  | onPlayerDeath => exact onPlayerDeath_health ..
  | onPlayerHurt victim attacker dmgHealth healthAfter weapon =>
    exact absurd rfl (hhurt victim attacker dmgHealth healthAfter weapon)
  | onPlayerBlind => simp only [step, onPlayerBlind]; split_ifs <;> simp
  | onBombPlanted => simp only [step, onBombPlanted]; split_ifs <;> simp
  | onBombDefused => simp only [step, onBombDefused]; split_ifs <;> simp
  | onRoundMvp => simp only [step, onRoundMvp]; split_ifs <;> simp
  | setScore => simp only [step, setScore]; split_ifs <;> simp
  | setMoneyStart => simp only [step, setMoneyStart]; split_ifs <;> simp
  | setLoadout => simp only [step, setLoadout]; split_ifs <;> simp
  | onRoundEnd winnerSide reason => exact absurd rfl (hend winnerSide reason)

end Frame

end StatsAccumulator

/-! ## Whole runs -/

/-- The least health that the calls report for a player, of the 100 a round starts with. The last
call comes first. -/
def reportedHealth (id : ℕ) : List StatsOp → ℤ
  | [] => 100
  | .onPlayerHurt victim _ _ healthAfter _ :: log =>
    if victim = id then max 0 (min healthAfter (reportedHealth id log)) else reportedHealth id log
  | _ :: log => reportedHealth id log

/-- The least health that is reported for a player since the last end of a round among the calls. -/
def healthSinceEnd (id : ℕ) : List StatsOp → ℤ
  | [] => 100
  | .onRoundEnd _ _ :: _ => 100
  | .onPlayerHurt victim _ _ healthAfter _ :: log =>
    if victim = id then max 0 (min healthAfter (healthSinceEnd id log)) else healthSinceEnd id log
  | _ :: log => healthSinceEnd id log

theorem reportedHealth_nonneg (id : ℕ) (log : List StatsOp) : 0 ≤ reportedHealth id log := by
  induction log with
  | nil => exact Int.natCast_nonneg 100
  | cons op log ih =>
    cases op with
    | onPlayerHurt victim attacker dmgHealth healthAfter weapon =>
      rw [reportedHealth]
      split_ifs
      · exact le_max_left _ _
      · exact ih
    | _ => exact ih

theorem healthSinceEnd_eq_reported {id : ℕ} {log : List StatsOp}
    (hend : ∀ op ∈ log, ∀ winnerSide reason, op ≠ .onRoundEnd winnerSide reason) :
    healthSinceEnd id log = reportedHealth id log := by
  induction log with
  | nil => rfl
  | cons op log ih =>
    rw [List.forall_mem_cons] at hend
    have hlog := ih hend.2
    cases op with
    | onRoundEnd winnerSide reason => exact absurd rfl (hend.1 winnerSide reason)
    | onPlayerHurt => simp only [healthSinceEnd, reportedHealth, hlog]
    | _ => exact hlog

/-- The accumulator, watched from one round start to the next: what is credited for hits on each
player, and the calls since the round start, the last one first. -/
structure HurtWatch where
  acc : StatsAccumulator
  credited : ℕ → ℤ
  log : List StatsOp

namespace HurtWatch

open StatsAccumulator

def roundStart (a : StatsAccumulator) : HurtWatch := ⟨a.onRoundStart, fun _ => 0, []⟩

def step (s : HurtWatch) : StatsOp → HurtWatch
  | .onRoundStart => roundStart s.acc
  | .onPlayerHurt victim attacker dmgHealth healthAfter weapon =>
    let acc := s.acc.onPlayerHurt victim attacker dmgHealth healthAfter weapon
    { acc := acc
      credited := Function.update s.credited victim
        (s.credited victim + (acc.total (·.damage) - s.acc.total (·.damage)))
      log := .onPlayerHurt victim attacker dmgHealth healthAfter weapon :: s.log }
  | op => { s with acc := s.acc.step op, log := op :: s.log }

/-- A reported health is not above the ones reported before. -/
def Falling (s : HurtWatch) : StatsOp → Prop
  | .onPlayerHurt victim _ _ healthAfter _ => healthAfter ≤ reportedHealth victim s.log
  | _ => True

/-- A credited hit is on a player of whom no more health was reported since the last end of a round
than since the round start. -/
def HitKept (s : HurtWatch) : StatsOp → Prop
  | .onPlayerHurt victim attacker dmgHealth _ _ =>
    victim ≠ 0 → s.acc.Credits victim attacker dmgHealth →
      healthSinceEnd victim s.log ≤ reportedHealth victim s.log
  | _ => True

/-- What is credited for a player is health that he is reported to have lost. -/
def Covered (s : HurtWatch) : Prop := ∀ id, s.credited id + reportedHealth id s.log ≤ 100

/-- The accumulator remembers the reports since the last end of a round. -/
def Remembers (s : HurtWatch) : Prop :=
  s.acc.live = true → ∀ id, id ≠ 0 → s.acc.remembered id = healthSinceEnd id s.log

theorem covered_roundStart (a : StatsAccumulator) : (roundStart a).Covered := by
  intro id
  change (0 : ℤ) + 100 ≤ 100
  decide

theorem remembers_roundStart (a : StatsAccumulator) : (roundStart a).Remembers := fun _ _ _ => rfl

theorem Covered.step {s : HurtWatch} (h : s.Covered) (hrem : s.Remembers) {op : StatsOp}
    (hkept : s.HitKept op) : (s.step op).Covered := by
  cases op with
  | onRoundStart => exact covered_roundStart s.acc
  | onPlayerHurt victim attacker dmgHealth healthAfter weapon =>
    intro id
    have hle := h id
    by_cases hid : id = victim
    · subst hid
      have hleft := reportedHealth_nonneg id s.log
      simp only [HurtWatch.step, Function.update_self, reportedHealth, if_pos]
      by_cases hrun : s.acc.live = true ∧ id ≠ 0
      · rw [(onPlayerHurt_credit hrun.1 hrun.2 attacker dmgHealth healthAfter weapon).1]
        split_ifs with hcredits
        · have hmem : s.acc.remembered id ≤ reportedHealth id s.log := by
            rw [hrem hrun.1 id hrun.2]
            exact hkept hrun.2 hcredits
          have hpos : 0 ≤ s.acc.remembered id := le_max_left _ _
          omega
        · omega
      · rw [onPlayerHurt_skipped hrun]
        omega
    · simp only [HurtWatch.step, Function.update_of_ne hid, reportedHealth, if_neg (Ne.symm hid)]
      exact hle
  | _ => exact h

theorem Remembers.hurt {s : HurtWatch} (h : s.Remembers) (victim attacker : ℕ)
    (dmgHealth healthAfter : ℤ) (weapon : String) :
    (s.step (.onPlayerHurt victim attacker dmgHealth healthAfter weapon)).Remembers := by
  intro hlive id hid
  have hboard :=
    congrArg Board.live (onPlayerHurt_board s.acc victim attacker dmgHealth healthAfter weapon)
  have hlive' : s.acc.live = true := hboard.symm.trans hlive
  have hbefore := h hlive' id hid
  simp only [HurtWatch.step, healthSinceEnd]
  by_cases hvictim : victim = 0
  · rw [onPlayerHurt_skipped (by simp [hvictim]), if_neg (by omega)]
    exact hbefore
  have hhealth := (onPlayerHurt_credit hlive' hvictim attacker dmgHealth healthAfter weapon).2
  unfold remembered
  rw [hhealth]
  by_cases hv : id = victim
  · subst hv
    rw [AList.lookup_insert, if_pos rfl, ← hbefore, Option.getD_some,
      max_eq_right (le_max_left _ _)]
  · rw [AList.lookup_insert_ne hv, if_neg (Ne.symm hv)]
    exact hbefore

theorem Remembers.roundEnd {s : HurtWatch} (winnerSide reason : ℤ) :
    (s.step (.onRoundEnd winnerSide reason)).Remembers := by
  intro hlive id _
  change (s.acc.onRoundEnd winnerSide reason).remembered id = 100
  change (s.acc.onRoundEnd winnerSide reason).live = true at hlive
  rw [onRoundEnd] at hlive ⊢
  split_ifs at hlive ⊢ with hnot
  · rw [hlive] at hnot
    cases hnot
  · rfl

/-- The memory is what the calls since the last end of a round say. -/
theorem Remembers.step {s : HurtWatch} (h : s.Remembers) (op : StatsOp) :
    (s.step op).Remembers := by
  have hframe : (∀ victim attacker dmgHealth healthAfter weapon,
        op ≠ .onPlayerHurt victim attacker dmgHealth healthAfter weapon) → op ≠ .onRoundStart →
      (∀ winnerSide reason, op ≠ .onRoundEnd winnerSide reason) →
        (s.acc.step op).live = true → ∀ id, id ≠ 0 →
          (s.acc.step op).remembered id = healthSinceEnd id s.log := by
    intro hhurt hstart hend hlive id hid
    have hboard := congrArg Board.live (step_board s.acc op hend)
    have hhealth : (s.acc.step op).round.health = s.acc.round.health :=
      step_health hstart hhurt hend
    unfold remembered
    rw [hhealth]
    exact h (hboard.symm.trans hlive) id hid
  cases op with
  | onRoundStart => exact remembers_roundStart s.acc
  | onPlayerHurt victim attacker dmgHealth healthAfter weapon =>
    exact h.hurt victim attacker dmgHealth healthAfter weapon
  | onRoundEnd winnerSide reason => exact .roundEnd winnerSide reason
  | _ => exact hframe (by simp) (by simp) (by simp)

structure Sound (s : HurtWatch) : Prop where
  covered : s.Covered
  remembers : s.Remembers

theorem sound_roundStart (a : StatsAccumulator) : (roundStart a).Sound :=
  ⟨covered_roundStart a, remembers_roundStart a⟩

theorem Sound.step {s : HurtWatch} (h : s.Sound) {op : StatsOp} (hkept : s.HitKept op) :
    (s.step op).Sound :=
  ⟨h.covered.step h.remembers hkept, h.remembers.step op⟩

theorem hitKept_of_no_roundEnd {s : HurtWatch}
    (hend : ∀ op ∈ s.log, ∀ winnerSide reason, op ≠ .onRoundEnd winnerSide reason) (op : StatsOp) :
    s.HitKept op := by
  cases op with
  | onPlayerHurt => exact fun _ _ => (healthSinceEnd_eq_reported hend).le
  | _ => exact trivial

instance (s : HurtWatch) : ∀ op, Decidable (s.Falling op)
  | .onPlayerHurt victim _ _ healthAfter _ =>
    inferInstanceAs (Decidable (healthAfter ≤ reportedHealth victim s.log))
  | .onRoundStart | .observePlayer .. | .onPlayerDeath .. | .onPlayerBlind .. | .onBombPlanted
      _ | .onBombDefused _
  | .onRoundMvp _ | .setScore .. | .setMoneyStart .. | .setLoadout .. | .onRoundEnd .. =>
    inferInstanceAs (Decidable True)

instance (s : HurtWatch) : ∀ op, Decidable (s.HitKept op)
  | .onPlayerHurt victim attacker dmgHealth _ _ =>
    inferInstanceAs (Decidable (victim ≠ 0 → s.acc.Credits victim attacker dmgHealth →
      healthSinceEnd victim s.log ≤ reportedHealth victim s.log))
  | .onRoundStart | .observePlayer .. | .onPlayerDeath .. | .onPlayerBlind .. | .onBombPlanted
      _ | .onBombDefused _
  | .onRoundMvp _ | .setScore .. | .setMoneyStart .. | .setLoadout .. | .onRoundEnd .. =>
    inferInstanceAs (Decidable True)

end HurtWatch

/-- Between two round starts at most 100 is credited for hits on one player, as long as no credited
hit is on a player whose reported health was lower before the round ended than it was since. -/
theorem credited_le_hundred (a : StatsAccumulator) (ops : List StatsOp)
    (hkept : Guarded HurtWatch.step HurtWatch.HitKept (.roundStart a) ops) :
    Always HurtWatch.step (fun s => ∀ id, s.credited id ≤ 100) (.roundStart a) ops := by
  refine hkept.always (HurtWatch.sound_roundStart a) (fun s op hs hhit => hs.step hhit) ?_
  intro s hs id
  have hid := hs.covered id
  have hleft := reportedHealth_nonneg id s.log
  omega

/-- A hit on player 2, the end of the round, and after it hits on player 3, who was not hurt before,
and on player 2, once his own grenade has told how much he has left. -/
theorem credited_le_hundred_fresh :
    Always HurtWatch.step (fun s => ∀ id, s.credited id ≤ 100)
      (.roundStart (StatsAccumulator.beginMap {} true))
      [.onPlayerHurt 2 1 70 30 "ak47", .onRoundEnd 3 8, .onPlayerHurt 3 1 80 20 "ak47",
        .onPlayerHurt 2 2 5 25 "hegrenade", .onPlayerHurt 2 1 25 0 "ak47"] :=
  credited_le_hundred (StatsAccumulator.beginMap {} true) _ (by decide)

/-- The second hit takes the ten points that a falling health says, and is credited with eighty. -/
theorem credited_hit_after_roundEnd :
    Guarded HurtWatch.step HurtWatch.Falling (.roundStart (StatsAccumulator.beginMap {} true))
        [.onPlayerHurt 2 1 70 30 "ak47", .onRoundEnd 3 8, .onPlayerHurt 2 1 10 20 "ak47"] ∧
      (run HurtWatch.step (.roundStart (StatsAccumulator.beginMap {} true))
        [.onPlayerHurt 2 1 70 30 "ak47", .onRoundEnd 3 8, .onPlayerHurt 2 1 10 20 "ak47"]).credited
          2 = 150 := by
  decide

end ReadyUp.Stats
