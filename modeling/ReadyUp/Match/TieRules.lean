import ReadyUp.Match.MapDecision
import ReadyUp.Match.Server
import ReadyUp.Support.FloatText

/-!
# The tie rules that are announced

When a map goes live, `GoLiveRulesLines` tells what happens if it stays tied. A round start
announces an overtime, and `DetermineMapWinnerIfComplete` plays the rules. The three read the same
settings. They agree unless the overtimes are limited and the map is tied when the last of them has
been played: a limit of zero is announced as no limit, and nothing of what is announced allows for
the rounds that a tie on damage adds, which the next round start announces as one overtime more.
-/
namespace ReadyUp.Match

open ReadyUp.Support ReadyUp.Stats

structure Msg where
  key : Bytes
  args : List (Bytes × Bytes)
  deriving DecidableEq

/-- `std::toupper` of the first letter. -/
def capitalized : Bytes → Bytes
  | [] => []
  | c :: s => (if byte 'a' ≤ c ∧ c ≤ byte 'z' then c - 32 else c) :: s

def tieKey (overtime : Bool) (maxOvertimes : ℤ) (damageTiebreak : Bool) : Bytes :=
  if overtime then
    if maxOvertimes ≤ 0 then ascii "golive.tie_overtime"
    else if damageTiebreak then ascii "golive.tie_overtime_damage"
    else ascii "golive.tie_overtime_draw"
  else if damageTiebreak then ascii "golive.tie_damage"
  else ascii "golive.tie_draw"

def goLiveRulesLines (mapNumber numMaps : ℤ) (map : Bytes) (maxRounds : ℤ) (overtime : Bool)
    (overtimeHalfRounds maxOvertimes : ℤ) (damageTiebreak : Bool) : List Msg :=
  let name := capitalized (if ascii "de_" <+: map ∨ ascii "cs_" <+: map then map.drop 3 else map)
  let first := if 1 < numMaps then ascii "golive.map_of" else ascii "golive.one_map"
  let head : Msg :=
    { key := first ++ if name = [] then ascii "_noname" else []
      args := [(ascii "map_number", toDecimal mapNumber), (ascii "num_maps", toDecimal numMaps),
        (ascii "to_win", toDecimal (numMaps.tdiv 2 + 1)), (ascii "map", name)] }
  if maxRounds ≤ 0 then [head]
  else
    let half := maxRounds / 2
    let withOvertime := overtime && decide (0 < overtimeHalfRounds)
    let limits := if withOvertime then
      [(ascii "ot_rounds", toDecimal (overtimeHalfRounds * 2)),
        (ascii "ot_to_win", toDecimal (overtimeHalfRounds + 1)),
        (ascii "max_ot", toDecimal maxOvertimes)]
      else []
    [head,
      ⟨ascii "golive.rounds", [(ascii "rounds", toDecimal maxRounds),
        (ascii "to_win", toDecimal (half + 1))]⟩,
        ⟨ascii "golive.sides_switch", [(ascii "half", toDecimal half)]⟩,
      ⟨tieKey withOvertime maxOvertimes damageTiebreak, (ascii "half", toDecimal half) :: limits⟩]

/-- The lines that `OnMatchRoundStarted` sends. -/
def liveLines (ctx : MatchContext) (mapNumber : ℤ) (map : Bytes) : List Msg :=
  goLiveRulesLines mapNumber (max 1 ctx.numMaps) map ctx.maxRounds ctx.overtimeEnabled
    ctx.overtimeSegments ctx.maxOvertimes ctx.damageTiebreakEnabled

/-- The lines that tell how many overtimes there are at most. -/
def limitKeys : List Bytes := [ascii "golive.tie_overtime_damage", ascii "golive.tie_overtime_draw"]

def overtimeKeys : List Bytes := ascii "golive.tie_overtime" :: limitKeys

def AnnouncesOvertime (lines : List Msg) : Prop := ∃ line ∈ lines, line.key ∈ overtimeKeys

def NamesLimit (lines : List Msg) (limit : ℤ) : Prop :=
  ∃ line ∈ lines, line.key ∈ limitKeys ∧ (ascii "max_ot", toDecimal limit) ∈ line.args

/-- A map that is played: each round starts, and is won. -/
structure MapPlay where
  events : MatchEvents := {}
  map : MapRun := {}
  /-- The overtimes that `OnRoundStartLocked` has announced. -/
  announced : List ℤ := []

def MapPlay.round (ctx : MatchContext) (playout : Bool) (damage : ℕ → ℤ × ℤ) (p : MapPlay)
    (winner : Slot) : MapPlay where
  events := p.events.onRoundStart ctx p.map.team1Score p.map.team2Score
  map := p.map.roundWon ctx playout damage winner
  announced := p.announced ++
    (p.events.startsOvertime ctx p.map.team1Score p.map.team2Score).toList

/-- What `OnMatchRoundEnded` has made of the first `n` rounds. -/
def resultAfter (ctx : MatchContext) (playout : Bool) (damage : ℕ → ℤ × ℤ)
    (wins : List Slot) (n : ℕ) : Option (ℕ × MapWinner) :=
  (run (MapRun.roundWon ctx playout damage) {} (wins.take n)).result

/-- A score path: the rounds of a map, none of which is played after the map was decided. -/
structure ScorePath (ctx : MatchContext) (playout : Bool) (damage : ℕ → ℤ × ℤ) where
  wins : List Slot
  undecided : ∀ n < wins.length, resultAfter ctx playout damage wins n = none

/-- The score is tied after `n` rounds. -/
def TiedAfter (wins : List Slot) (n : ℕ) : Prop :=
  n ≤ wins.length ∧ (score (wins.take n)).1 = (score (wins.take n)).2

instance (wins : List Slot) (n : ℕ) : Decidable (TiedAfter wins n) :=
  inferInstanceAs (Decidable (_ ∧ _))

/-- The round count at which `limit` overtimes have been played. -/
def overtimeEnd (ctx : MatchContext) (limit : ℤ) : ℤ :=
  ctx.maxRounds + limit * (2 * ctx.overtimeSegments)

/-- What is announced is what is played. -/
structure AnnouncedAsPlayed (ctx : MatchContext) (playout : Bool) (damage : ℕ → ℤ × ℤ)
    (wins : List Slot) (lines : List Msg) : Prop where
  /-- A tie after regulation leads to overtime, whatever the damage, if a line says so. -/
  overtime : ∀ n : ℕ, (n : ℤ) = ctx.maxRounds → TiedAfter wins n →
    ((∀ d, determineMapWinnerIfComplete ctx playout d (score (wins.take n)).1
      (score (wins.take n)).2 = none) ↔ AnnouncesOvertime lines)
  /-- A tie ends the map after the overtimes that the line names, and only then. -/
  limit : AnnouncesOvertime lines → ∀ n, TiedAfter wins n →
    (resultAfter ctx playout damage wins n ≠ none ↔
      ∃ limit, NamesLimit lines limit ∧ (n : ℤ) = overtimeEnd ctx limit)
  numbers : 0 ≤ ctx.maxOvertimes →
    ∀ a ∈ (run (MapPlay.round ctx playout damage) {} wins).announced, a ≤ ctx.maxOvertimes

/-! ## The lines -/

section Lines

variable {ctx : MatchContext} {mapNumber : ℤ} {map : Bytes}

theorem tieKey_mem_overtimeKeys (overtime : Bool) (maxOvertimes : ℤ) (damageTiebreak : Bool) :
    tieKey overtime maxOvertimes damageTiebreak ∈ overtimeKeys ↔ overtime = true := by
  unfold tieKey
  split_ifs with hot <;> simp only [hot, Bool.false_eq_true, iff_false] <;> decide

theorem tieKey_mem_limitKeys (maxOvertimes : ℤ) (damageTiebreak : Bool) :
    tieKey true maxOvertimes damageTiebreak ∈ limitKeys ↔ 0 < maxOvertimes := by
  rw [tieKey, if_pos rfl, ← not_le]
  split_ifs with hmax <;> simp only [hmax, not_true_eq_false, not_false_eq_true, iff_false] <;>
    decide

theorem head_not_overtimeKey (numMaps : ℤ) (name : Bytes) :
    (if 1 < numMaps then ascii "golive.map_of" else ascii "golive.one_map") ++
      (if name = [] then ascii "_noname" else []) ∉ overtimeKeys := by
  split_ifs <;> decide

theorem mem_liveLines (hrounds : 1 ≤ ctx.maxRounds) (hseg : 1 ≤ ctx.overtimeSegments) {line : Msg}
    (hline : line ∈ liveLines ctx mapNumber map) (hkey : line.key ∈ overtimeKeys) :
    line.key = tieKey ctx.overtimeEnabled ctx.maxOvertimes ctx.damageTiebreakEnabled ∧
      (ctx.overtimeEnabled = true → ∀ limit, (ascii "max_ot", toDecimal limit) ∈ line.args →
        limit = ctx.maxOvertimes) := by
  have hpos : ¬ ctx.maxRounds ≤ 0 := by omega
  have hhalf : decide (0 < ctx.overtimeSegments) = true := decide_eq_true (by omega)
  have hfirst : ascii "golive.rounds" ∉ overtimeKeys := by decide
  have hswitch : ascii "golive.sides_switch" ∉ overtimeKeys := by decide
  simp only [liveLines, goLiveRulesLines, if_neg hpos, hhalf, Bool.and_true, List.mem_cons,
    List.not_mem_nil, or_false] at hline
  rcases hline with rfl | rfl | rfl | rfl
  · exact absurd hkey (head_not_overtimeKey _ _)
  · exact absurd hkey hfirst
  · exact absurd hkey hswitch
  · refine ⟨rfl, ?_⟩
    intro hot limit hlimit
    have hne : ascii "max_ot" ≠ ascii "half" ∧ ascii "max_ot" ≠ ascii "ot_rounds" ∧
        ascii "max_ot" ≠ ascii "ot_to_win" := by decide
    simp only [hot, if_true, List.mem_cons, Prod.mk.injEq, hne.1, hne.2.1, hne.2.2, false_and,
      false_or, true_and, List.not_mem_nil, or_false] at hlimit
    exact toDecimal_injective hlimit

theorem exists_tieLine (hrounds : 1 ≤ ctx.maxRounds) (hseg : 1 ≤ ctx.overtimeSegments)
    (hot : ctx.overtimeEnabled = true) :
    ∃ line ∈ liveLines ctx mapNumber map,
      line.key = tieKey true ctx.maxOvertimes ctx.damageTiebreakEnabled ∧
        (ascii "max_ot", toDecimal ctx.maxOvertimes) ∈ line.args := by
  have hpos : ¬ ctx.maxRounds ≤ 0 := by omega
  have hhalf : decide (0 < ctx.overtimeSegments) = true := decide_eq_true (by omega)
  rw [liveLines, goLiveRulesLines, if_neg hpos, hot, hhalf]
  refine ⟨_, List.mem_cons_of_mem _
    (List.mem_cons_of_mem _ (List.mem_cons_of_mem _ List.mem_cons_self)), rfl, ?_⟩
  exact List.mem_cons_of_mem _ (List.mem_cons_of_mem _ (List.mem_cons_of_mem _ List.mem_cons_self))

theorem announcesOvertime_iff (hrounds : 1 ≤ ctx.maxRounds) (hseg : 1 ≤ ctx.overtimeSegments) :
    AnnouncesOvertime (liveLines ctx mapNumber map) ↔ ctx.overtimeEnabled = true := by
  constructor
  · rintro ⟨line, hline, hkey⟩
    rw [(mem_liveLines hrounds hseg hline hkey).1] at hkey
    exact (tieKey_mem_overtimeKeys _ _ _).mp hkey
  · intro hot
    obtain ⟨line, hline, hkey, -⟩ := exists_tieLine hrounds hseg hot
    refine ⟨line, hline, ?_⟩
    rw [hkey]
    exact (tieKey_mem_overtimeKeys _ _ _).mpr rfl

theorem namesLimit_iff (hrounds : 1 ≤ ctx.maxRounds) (hseg : 1 ≤ ctx.overtimeSegments) {limit : ℤ} :
    NamesLimit (liveLines ctx mapNumber map) limit ↔
      ctx.overtimeEnabled = true ∧ 0 < ctx.maxOvertimes ∧ limit = ctx.maxOvertimes := by
  constructor
  · rintro ⟨line, hline, hkey, hlimit⟩
    have hovertime : line.key ∈ overtimeKeys := List.mem_cons_of_mem _ hkey
    have hot := (announcesOvertime_iff hrounds hseg).mp ⟨line, hline, hovertime⟩
    obtain ⟨heq, hargs⟩ := mem_liveLines hrounds hseg hline hovertime
    rw [heq, hot] at hkey
    exact ⟨hot, (tieKey_mem_limitKeys _ _).mp hkey, hargs hot limit hlimit⟩
  · rintro ⟨hot, hmax, rfl⟩
    obtain ⟨line, hline, hkey, hargs⟩ := exists_tieLine hrounds hseg hot
    refine ⟨line, hline, ?_, hargs⟩
    rw [hkey]
    exact (tieKey_mem_limitKeys _ _).mpr hmax

end Lines

/-! ## Ties -/

section Ties

variable {ctx : MatchContext} {playout : Bool} {damage : ℕ → ℤ × ℤ}

theorem playoutRoundsLeft_of_cap (hrounds : 1 ≤ ctx.maxRounds) (hseg : 1 ≤ ctx.overtimeSegments)
    {t1 t2 : ℤ} (h1 : 0 ≤ t1) (h2 : 0 ≤ t2) (hcap : CapExhausted ctx (t1 + t2)) :
    playoutRoundsLeft ctx.maxRounds ctx.overtimeEnabled ctx.overtimeSegments
      ctx.maxOvertimes t1 t2 = false := by
  obtain ⟨hreg, hover⟩ := hcap
  simp only [playoutRoundsLeft, max_eq_right hrounds, max_eq_right hseg, max_eq_right h1,
    max_eq_right h2]
  rw [if_neg (not_lt.mpr hreg)]
  split_ifs with hend hmax
  · rfl
  · rfl
  · rcases hover with hoff | ⟨hpos, hle⟩
    · exact absurd (.inr hoff) hend
    · exact absurd ⟨hpos, by linarith⟩ hmax

/-- With the playout, the rules are looked at once the period is over. -/
theorem determine_playout (hrounds : 1 ≤ ctx.maxRounds) {t1 t2 : ℤ} (h1 : 0 ≤ t1) (h2 : 0 ≤ t2)
    (d : ℤ × ℤ) :
    determineMapWinnerIfComplete ctx true d t1 t2 =
      if playoutRoundsLeft ctx.maxRounds ctx.overtimeEnabled ctx.overtimeSegments
        ctx.maxOvertimes t1 t2 then none
      else determineMapWinnerIfComplete ctx false d t1 t2 := by
  simp only [determineMapWinnerIfComplete, max_eq_right h1, max_eq_right h2, max_eq_right hrounds,
    Bool.true_and, Bool.false_and, Bool.false_eq_true, if_false]

/-- A tie decides the map where no period is left, unless it goes on in sudden death. -/
theorem determine_tie (hrounds : 1 ≤ ctx.maxRounds) (hseg : 1 ≤ ctx.overtimeSegments) {t : ℤ}
    (ht : 0 ≤ t) (d : ℤ × ℤ) :
    determineMapWinnerIfComplete ctx playout d t t ≠ none ↔
      CapExhausted ctx (t + t) ∧ ¬SuddenDeath ctx d := by
  have hplain : determineMapWinnerIfComplete ctx false d t t ≠ none ↔
      CapExhausted ctx (t + t) ∧ ¬SuddenDeath ctx d := by
    have hleft := roundsLeft_nonneg hseg (t + t)
    have hover : Over ctx d t t ↔ CapExhausted ctx (t + t) ∧ ¬SuddenDeath ctx d := by
      rw [Over, sub_self, abs_zero, or_iff_right (not_lt.mpr hleft)]
      simp
    rw [determineMapWinnerIfComplete_eq hrounds hseg ht ht, ← hover]
    split_ifs with h <;> simp [h]
  cases playout with
  | false => exact hplain
  | true =>
    rw [determine_playout hrounds ht ht]
    split_ifs with hleft
    · have hcap : ¬CapExhausted ctx (t + t) := by
        intro hcap
        rw [playoutRoundsLeft_of_cap hrounds hseg ht ht hcap] at hleft
        exact Bool.false_ne_true hleft
      simp [hcap]
    · exact hplain

/-- Where no period is left, only a tie leaves the map open. -/
theorem tie_of_open_cap (hrounds : 1 ≤ ctx.maxRounds) (hseg : 1 ≤ ctx.overtimeSegments) {t1 t2 : ℤ}
    (h1 : 0 ≤ t1) (h2 : 0 ≤ t2) {d : ℤ × ℤ} (hcap : CapExhausted ctx (t1 + t2))
    (hopen : determineMapWinnerIfComplete ctx playout d t1 t2 = none) : t1 = t2 := by
  have hplain : determineMapWinnerIfComplete ctx false d t1 t2 = none := by
    cases playout with
    | false => exact hopen
    | true =>
      rw [determine_playout hrounds h1 h2,
        playoutRoundsLeft_of_cap hrounds hseg h1 h2 hcap] at hopen
      exact hopen
  by_contra hne
  rw [determineMapWinnerIfComplete_eq hrounds hseg h1 h2,
    if_pos ((over_of_cap hseg hcap).mpr (.inl hne))] at hplain
  exact absurd hplain (Option.some_ne_none _)

end Ties

/-! ## Along a score path -/

section Paths

variable {ctx : MatchContext} {playout : Bool} {damage : ℕ → ℤ × ℤ}

theorem score_take_add {wins : List Slot} {n : ℕ} (hn : n ≤ wins.length) :
    (score (wins.take n)).1 + (score (wins.take n)).2 = n := by
  rw [score_add, List.length_take_of_le hn]

/-- The result of a round that the map was still open before. -/
theorem resultAfter_succ {wins : List Slot} {n : ℕ} (hn : n < wins.length)
    (hopen : resultAfter ctx playout damage wins n = none) :
    resultAfter ctx playout damage wins (n + 1) =
      (determineMapWinnerIfComplete ctx playout (damage (n + 1)) (score (wins.take (n + 1))).1
        (score (wins.take (n + 1))).2).map (n + 1, ·) := by
  have htake : wins.take (n + 1) = wins.take n ++ [wins[n]] := (List.take_append_getElem hn).symm
  obtain ⟨h1, h2, h3⟩ := @run_roundWon_score ctx damage playout (wins.take n)
  rw [List.length_take_of_le hn.le] at h3
  rw [resultAfter] at hopen ⊢
  rw [htake, run_append, run_cons, run_nil, score_append]
  simp only [MapRun.roundWon, hopen, h1, h2, h3]

variable {wins : List Slot}

/-- Past the limit, every round but the first that is open there leaves the map decided. -/
theorem ScorePath.tied_at_cap (hrounds : 1 ≤ ctx.maxRounds) (hseg : 1 ≤ ctx.overtimeSegments)
    (p : ScorePath ctx playout damage) {n : ℕ} (hn : n + 1 < p.wins.length)
    (hcap : CapExhausted ctx (n + 1 : ℕ)) : TiedAfter p.wins (n + 1) := by
  have hopen := p.undecided (n + 1) hn
  rw [resultAfter_succ (by omega) (p.undecided n (by omega)), Option.map_eq_none_iff] at hopen
  obtain ⟨h1, h2⟩ := score_nonneg (p.wins.take (n + 1))
  refine ⟨hn.le, tie_of_open_cap hrounds hseg h1 h2 ?_ hopen⟩
  rw [score_take_add hn.le]
  exact hcap

theorem ScorePath.resultAfter_tie (hrounds : 1 ≤ ctx.maxRounds) (hseg : 1 ≤ ctx.overtimeSegments)
    (p : ScorePath ctx playout damage) {n : ℕ} (htied : TiedAfter p.wins n) :
    resultAfter ctx playout damage p.wins n ≠ none ↔
      CapExhausted ctx n ∧ ¬SuddenDeath ctx (damage n) := by
  obtain ⟨hle, htie⟩ := htied
  cases n with
  | zero =>
    refine iff_of_false (fun h => h rfl) ?_
    rintro ⟨⟨hcap, -⟩, -⟩
    rw [Nat.cast_zero] at hcap
    omega
  | succ n =>
    have hsum := score_take_add hle
    have hpos := (score_nonneg (p.wins.take (n + 1))).1
    have hdetermine := @determine_tie ctx playout hrounds hseg _ hpos (damage (n + 1))
    rw [← htie] at hsum
    rw [hsum] at hdetermine
    rw [← hdetermine, resultAfter_succ (by omega) (p.undecided n (by omega)), ← htie, ne_eq,
      Option.map_eq_none_iff]

/-- Ties are two rounds apart, so there is none past the first that the limit leaves open. -/
theorem ScorePath.tie_eq_overtimeEnd (hrounds : 1 ≤ ctx.maxRounds) (hseg : 1 ≤ ctx.overtimeSegments)
    (p : ScorePath ctx playout damage) (hmax : 0 ≤ ctx.maxOvertimes) {n : ℕ}
    (htied : TiedAfter p.wins n) (hle : overtimeEnd ctx ctx.maxOvertimes ≤ n) :
    (n : ℤ) = overtimeEnd ctx ctx.maxOvertimes := by
  by_contra hne
  have hblock : 0 ≤ ctx.maxOvertimes * (2 * ctx.overtimeSegments) := by positivity
  have hend : ctx.maxRounds ≤ overtimeEnd ctx ctx.maxOvertimes := by
    rw [overtimeEnd]
    omega
  obtain ⟨k, rfl⟩ : ∃ k, n = k + 2 := ⟨n - 2, by omega⟩
  have hbefore : overtimeEnd ctx ctx.maxOvertimes ≤ (k + 1 : ℕ) := by omega
  have hprev := p.tied_at_cap hrounds hseg (n := k) (by have := htied.1; omega)
    ⟨hend.trans hbefore, .inr ⟨hmax, hbefore⟩⟩
  have hsum := score_take_add htied.1
  have hsumPrev := score_take_add hprev.1
  have htie := htied.2
  have htiePrev := hprev.2
  omega

/-- An overtime starts on a tie, when the one before is over. -/
theorem startsOvertime_some (hrounds : 1 ≤ ctx.maxRounds) (hseg : 1 ≤ ctx.overtimeSegments)
    {ev : MatchEvents} {t1 t2 a : ℤ} (h : ev.startsOvertime ctx t1 t2 = some a) :
    ctx.overtimeEnabled = true ∧ t1 = t2 ∧ t1 + t2 = overtimeEnd ctx (a - 1) := by
  simp only [MatchEvents.startsOvertime, max_eq_right hrounds, max_eq_right hseg] at h
  split_ifs at h with hstarts
  obtain ⟨hot, -, hmod, htie, -⟩ := hstarts
  refine ⟨hot, htie, ?_⟩
  have hdiv := Int.emod_add_mul_ediv (t1 + t2 - ctx.maxRounds) (2 * ctx.overtimeSegments)
  rw [hmod] at hdiv
  rw [overtimeEnd, ← Option.some.inj h, add_sub_cancel_right, mul_comm]
  omega

theorem run_round_map (wins : List Slot) :
    (run (MapPlay.round ctx playout damage) {} wins).map =
      run (MapRun.roundWon ctx playout damage) {} wins := by
  induction wins using List.reverseRecOn with
  | nil => rfl
  | append_singleton wins w ih => simp [MapPlay.round, ih]

theorem mem_announced {a : ℤ} (hrounds : 1 ≤ ctx.maxRounds) (hseg : 1 ≤ ctx.overtimeSegments)
    (ha : a ∈ (run (MapPlay.round ctx playout damage) {} wins).announced) :
    ctx.overtimeEnabled = true ∧
      ∃ n < wins.length, TiedAfter wins n ∧ (n : ℤ) = overtimeEnd ctx (a - 1) := by
  induction wins using List.reverseRecOn with
  | nil => exact absurd ha List.not_mem_nil
  | append_singleton wins w ih =>
    have hlen : (wins ++ [w]).length = wins.length + 1 := by simp
    rw [run_append, run_cons, run_nil] at ha
    rcases List.mem_append.mp ha with ha | ha
    · obtain ⟨hot, n, hn, htied, hend⟩ := ih ha
      refine ⟨hot, n, by omega, ⟨by omega, ?_⟩, hend⟩
      rw [List.take_append_of_le_length hn.le]
      exact htied.2
    · rw [run_round_map, Option.mem_toList] at ha
      obtain ⟨hot, htie, hend⟩ := startsOvertime_some hrounds hseg ha
      obtain ⟨h1, h2, -⟩ := @run_roundWon_score ctx damage playout wins
      rw [h1, h2] at htie hend
      refine ⟨hot, wins.length, by omega, ⟨by omega, ?_⟩, ?_⟩
      · rw [List.take_append_of_le_length le_rfl, List.take_length]
        exact htie
      · rw [← hend, score_add]

end Paths

section Announced

variable {ctx : MatchContext} {playout : Bool} {damage : ℕ → ℤ × ℤ} {mapNumber : ℤ} {map : Bytes}

/-- No tie decides on damage alone whether there is overtime. -/
theorem tie_open_iff (hrounds : 1 ≤ ctx.maxRounds) (hseg : 1 ≤ ctx.overtimeSegments)
    {wins : List Slot} {n : ℕ} (htied : TiedAfter wins n) :
    (∀ d, determineMapWinnerIfComplete ctx playout d (score (wins.take n)).1
      (score (wins.take n)).2 = none) ↔ ¬CapExhausted ctx n := by
  obtain ⟨hle, htie⟩ := htied
  have hsum := score_take_add hle
  have hpos := (score_nonneg (wins.take n)).1
  rw [← htie] at hsum ⊢
  constructor
  · intro hopen hcap
    refine (determine_tie hrounds hseg hpos (1, 0)).mpr ⟨hsum.symm ▸ hcap, ?_⟩ (hopen (1, 0))
    exact fun hsudden => absurd hsudden.2.2 (by decide)
  · intro hcap d
    by_contra hdecided
    exact hcap (hsum ▸ ((determine_tie hrounds hseg hpos d).mp hdecided).1)

theorem capExhausted_iff (hseg : 1 ≤ ctx.overtimeSegments)
    (hot : ctx.overtimeEnabled = true) (n : ℕ) :
    CapExhausted ctx n ↔ 0 ≤ ctx.maxOvertimes ∧ overtimeEnd ctx ctx.maxOvertimes ≤ n := by
  rw [CapExhausted, hot, overtimeEnd]
  simp only [Bool.true_eq_false, false_or]
  constructor
  · exact And.right
  · rintro ⟨hmax, hle⟩
    have hblock : 0 ≤ ctx.maxOvertimes * (2 * ctx.overtimeSegments) := by positivity
    exact ⟨by omega, hmax, hle⟩

/-- What is announced is played unless the overtimes are limited and the path is tied at the limit,
with the limit zero or the tie going on in sudden death. -/
theorem announcedAsPlayed_iff (hrounds : 1 ≤ ctx.maxRounds) (hseg : 1 ≤ ctx.overtimeSegments)
    (p : ScorePath ctx playout damage) :
    AnnouncedAsPlayed ctx playout damage p.wins (liveLines ctx mapNumber map) ↔
      (ctx.overtimeEnabled = true → 0 ≤ ctx.maxOvertimes →
        ∀ n : ℕ, (n : ℤ) = overtimeEnd ctx ctx.maxOvertimes → TiedAfter p.wins n →
          ctx.maxOvertimes ≠ 0 ∧ ¬SuddenDeath ctx (damage n)) := by
  constructor
  · intro h hot hmax n hn htied
    have hcap := (capExhausted_iff hseg hot n).mpr ⟨hmax, hn.ge⟩
    have hline : AnnouncesOvertime (liveLines ctx mapNumber map) :=
      (announcesOvertime_iff hrounds hseg).mpr hot
    have hzero : ctx.maxOvertimes ≠ 0 := by
      intro hzero
      rw [overtimeEnd, hzero, zero_mul, add_zero] at hn
      exact (tie_open_iff hrounds hseg htied).mp ((h.overtime n hn htied).mpr hline) hcap
    refine ⟨hzero, ?_⟩
    have hnamed : NamesLimit (liveLines ctx mapNumber map) ctx.maxOvertimes :=
      (namesLimit_iff hrounds hseg).mpr ⟨hot, lt_of_le_of_ne hmax hzero.symm, rfl⟩
    exact ((p.resultAfter_tie hrounds hseg htied).mp
      ((h.limit hline n htied).mpr ⟨_, hnamed, hn⟩)).2
  · intro hclear
    refine ⟨?_, ?_, ?_⟩
    · intro n hn htied
      rw [tie_open_iff hrounds hseg htied, announcesOvertime_iff hrounds hseg]
      constructor
      · intro hcap
        by_contra hoff
        exact hcap ⟨hn.ge, .inl (Bool.not_eq_true _ ▸ hoff)⟩
      · intro hot hcap
        obtain ⟨hmax, hle⟩ := (capExhausted_iff hseg hot n).mp hcap
        have hend := p.tie_eq_overtimeEnd hrounds hseg hmax htied hle
        have hblock : ctx.maxOvertimes * (2 * ctx.overtimeSegments) = 0 := by
          rw [overtimeEnd] at hend
          omega
        rcases mul_eq_zero.mp hblock with hzero | hzero
        · exact (hclear hot hmax n hend htied).1 hzero
        · omega
    · intro hline n htied
      have hot := (announcesOvertime_iff hrounds hseg).mp hline
      rw [p.resultAfter_tie hrounds hseg htied, capExhausted_iff hseg hot]
      constructor
      · rintro ⟨⟨hmax, hle⟩, -⟩
        have hend := p.tie_eq_overtimeEnd hrounds hseg hmax htied hle
        have hzero := (hclear hot hmax n hend htied).1
        exact ⟨_, (namesLimit_iff hrounds hseg).mpr ⟨hot, lt_of_le_of_ne hmax hzero.symm, rfl⟩,
          hend⟩
      · rintro ⟨limit, hnamed, hend⟩
        obtain ⟨-, hmax, rfl⟩ := (namesLimit_iff hrounds hseg).mp hnamed
        exact ⟨⟨hmax.le, hend.ge⟩, (hclear hot hmax.le n hend htied).2⟩
    · intro hmax a ha
      by_contra hlt
      obtain ⟨hot, n, hn, htied, hend⟩ := mem_announced hrounds hseg ha
      have hle : overtimeEnd ctx ctx.maxOvertimes ≤ n := by
        have hmul : ctx.maxOvertimes * (2 * ctx.overtimeSegments) ≤
            (a - 1) * (2 * ctx.overtimeSegments) :=
          mul_le_mul_of_nonneg_right (by omega) (by omega)
        rw [hend, overtimeEnd, overtimeEnd]
        omega
      have hcap := (capExhausted_iff hseg hot n).mpr ⟨hmax, hle⟩
      have hsudden := (hclear hot hmax n (p.tie_eq_overtimeEnd hrounds hseg hmax htied hle) htied).2
      exact (p.resultAfter_tie hrounds hseg htied).mpr ⟨hcap, hsudden⟩ (p.undecided n hn)

/-- Two rounds, one overtime of two rounds, and then the damage. -/
def oneOvertime : MatchContext where
  maxRounds := 2
  overtimeEnabled := true
  overtimeSegments := 1
  maxOvertimes := 1
  damageTiebreakEnabled := true

def evenPath : ScorePath oneOvertime false fun _ => (1, 0) where
  wins := [.team1, .team2, .team1, .team2]
  undecided := by decide

/-- The damage differs after the only overtime. -/
theorem announcedAsPlayed_evenPath :
    AnnouncedAsPlayed oneOvertime false (fun _ => (1, 0)) evenPath.wins
      (liveLines oneOvertime 1 (ascii "de_nuke")) := by
  refine (announcedAsPlayed_iff (by decide) (by decide) evenPath).mpr ?_
  exact fun _ _ _ _ _ => ⟨by decide, fun hsudden => absurd hsudden.2.2 (by decide)⟩

/-- Two rounds and no overtime, by a limit of zero. -/
def noOvertime : MatchContext where
  maxRounds := 2
  overtimeEnabled := true
  overtimeSegments := 1
  maxOvertimes := 0

def tiedPath : ScorePath noOvertime false fun _ => (0, 0) where
  wins := [.team1, .team2]
  undecided := by decide

/-- With a limit of zero overtime is announced, and the map is a draw at 1-1. -/
theorem zero_limit_announced : ¬ ∀ (ctx : MatchContext), 2 ≤ ctx.maxRounds → ctx.maxRounds % 2 = 0 →
    1 ≤ ctx.overtimeSegments → -1 ≤ ctx.maxOvertimes → ∀ (playout : Bool) (damage : ℕ → ℤ × ℤ)
    (p : ScorePath ctx playout damage) (mapNumber : ℤ) (map : Bytes),
      AnnouncedAsPlayed ctx playout damage p.wins (liveLines ctx mapNumber map) := by
  intro h
  have hplayed :=
    h noOvertime (by decide) (by decide) (by decide) (by decide) false (fun _ => (0, 0)) tiedPath 1
    (ascii "de_nuke")
  have hline : AnnouncesOvertime (liveLines noOvertime 1 (ascii "de_nuke")) :=
    (announcesOvertime_iff (by decide) (by decide)).mpr rfl
  have hopen := (hplayed.overtime 2 rfl (by decide)).mpr hline (0, 0)
  exact absurd hopen (by decide)

end Announced

end ReadyUp.Match
