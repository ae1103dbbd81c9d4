import ReadyUp.Match.DoubleEntry

/-!
# Entry duels

The first kill of a round is its entry duel. Its flag is cleared at both ends of a round and the
totals never are, so a kill between the end of a round and the next start is one more entry, which
no summary takes up. Runs without such a kill keep one entry a round, and no others do.
-/
namespace ReadyUp.Stats

open ReadyUp.Support

namespace StatsAccumulator

/-- One entry a round, the round in progress included, and for each player those on record. -/
structure OneEntry (a : StatsAccumulator) : Prop where
  total : a.total (fun s => s.entryKillsT + s.entryKillsCt) ≤ a.rounds.length + 1
  recorded : ∀ id, (a.players.read id).s.entryKillsT + (a.players.read id).s.entryKillsCt =
    recordedRounds a.rounds id (·.entryKill = true) + if (a.record id).entryKill = true then
      1 else 0

/-- The entries that are booked are those of the closed rounds and the one that the flag stands
for. -/
structure EntryBooks (a : StatsAccumulator) : Prop where
  roundOk : a.RoundOk
  total : a.total (fun s => s.booked.entryKills) ≤ a.rounds.length +
    if a.round.entryDone = true then 1 else 0
  recorded : ∀ id, (a.books id).entryKills =
    recordedRounds a.rounds id (·.entryKill = true) + if (a.record id).entryKill = true then
      1 else 0
  taken : a.round.entryDone = true → ∃ id, (a.record id).entryKill = true

variable {a b : StatsAccumulator}

theorem EntryBooks.oneEntry (h : a.EntryBooks) : a.OneEntry := by
  have htotal := h.total
  refine ⟨?_, h.recorded⟩
  change a.total (fun s => s.booked.entryKills) ≤ _
  split_ifs at htotal <;> omega

/-! ## The steps -/

theorem EntryBooks.of_sameBooks (h : a.EntryBooks) (hsame : a.SameBooks b)
    (hrounds : b.rounds = a.rounds) : b.EntryBooks := by
  have htotal : b.total (fun s => s.booked.entryKills) = a.total fun s => s.booked.entryKills :=
    total_of_books (f := Booked.entryKills) rfl fun id =>
      congrArg Booked.entryKills (hsame.books id)
  refine ⟨hsame.roundOk h.roundOk, ?_, ?_, ?_⟩
  · rw [htotal, hrounds, hsame.entryDone]
    exact h.total
  · intro id
    rw [hsame.books, hsame.entryKill, hrounds]
    exact h.recorded id
  · intro hdone
    rw [hsame.entryDone] at hdone
    obtain ⟨id, hid⟩ := h.taken hdone
    exact ⟨id, (hsame.entryKill id).trans hid⟩

/-- A kill that finds the flag clear is the entry, of a killer whose side is known. -/
theorem EntryBooks.of_dies (h : a.EntryBooks) {victim attacker : ℕ} {headshot : Bool}
    (hdies : a.Dies b victim attacker headshot) (hrounds : b.rounds = a.rounds)
    (hside : attacker ≠ 0 → IsSide (a.sideOf attacker)) : b.EntryBooks := by
  have hok := hdies.roundOk h.roundOk
  have hentries : ∀ id, (b.books id).entryKills = (a.books id).entryKills +
      if a.Kill victim attacker ∧ a.round.entryDone = false ∧ IsSide (a.sideOf attacker) ∧
        id = attacker then 1 else 0 :=
    fun id => congrArg Booked.entryKills (hdies.books id)
  by_cases hentry : a.Kill victim attacker ∧ a.round.entryDone = false
  · obtain ⟨hkill, hdone⟩ := hentry
    have hknown : IsSide (a.sideOf attacker) := hside fun h0 => hkill.1 (.inl h0)
    have hbefore := h.total
    have hdoneAfter : b.round.entryDone = true := by
      rw [hdies.entryDone]
      simp [hkill]
    have hblank : ∀ id, (a.record id).entryKill = false := fun id => (h.roundOk.entry hdone id).1
    have hrecord : ∀ id, (b.record id).entryKill = decide (id = attacker) := by
      intro id
      rw [hdies.entryKill, hblank, hdone]
      simp [hkill]
    have htotal :
        b.total (fun s => s.booked.entryKills) = a.total (fun s => s.booked.entryKills) + 1 :=
      total_of_books_add (f := Booked.entryKills) rfl (k := attacker) (by
        intro id
        rw [hentries]
        simp only [hkill, hdone, hknown, true_and])
    refine ⟨hok, ?_, ?_, fun _ => ⟨attacker, by simp [hrecord]⟩⟩
    · rw [htotal, hrounds, hdoneAfter]
      rw [hdone] at hbefore
      simpa using hbefore
    · intro id
      have hrec := h.recorded id
      rw [hblank] at hrec
      rw [hentries, hrecord, hrounds, hrec]
      simp [hkill, hdone, hknown]
  · have hnone : ∀ id, (b.books id).entryKills = (a.books id).entryKills := by
      intro id
      rw [hentries, if_neg (fun hc => hentry ⟨hc.1, hc.2.1⟩), add_zero]
    have hdoneAfter : b.round.entryDone = a.round.entryDone := by
      rw [hdies.entryDone]
      cases hdone : a.round.entryDone <;> simp_all
    have hrecord : ∀ id, (b.record id).entryKill = (a.record id).entryKill := by
      intro id
      rw [hdies.entryKill]
      cases hdone : a.round.entryDone <;> simp_all
    have htotal : b.total (fun s => s.booked.entryKills) = a.total fun s => s.booked.entryKills :=
      total_of_books (f := Booked.entryKills) rfl hnone
    refine ⟨hok, ?_, ?_, ?_⟩
    · rw [htotal, hrounds, hdoneAfter]
      exact h.total
    · intro id
      rw [hnone, hrecord, hrounds]
      exact h.recorded id
    · intro hdone
      rw [hdoneAfter] at hdone
      obtain ⟨id, hid⟩ := h.taken hdone
      exact ⟨id, (hrecord id).trans hid⟩

theorem EntryBooks.onPlayerDeath (h : a.EntryBooks) {victim attacker : ℕ}
    (hside : attacker ≠ 0 → IsSide (a.sideOf attacker)) (assister : ℕ)
    (assistedFlash headshot : Bool) (weapon : String)
    (time : ℚ) :
    (a.onPlayerDeath victim attacker assister assistedFlash headshot weapon time).EntryBooks := by
  by_cases hskip : (!a.live || victim == 0) = true
  · unfold StatsAccumulator.onPlayerDeath
    rw [if_pos hskip]
    exact h
  · simp only [Bool.or_eq_true, Bool.not_eq_eq_eq_not, Bool.not_true, beq_iff_eq, not_or,
      Bool.not_eq_false] at hskip
    obtain ⟨hlive, hvictim⟩ := hskip
    have hboard := onPlayerDeath_board a victim attacker assister assistedFlash headshot weapon time
    exact h.of_dies (onPlayerDeath_dies hlive hvictim attacker assister assistedFlash headshot
      weapon time)
      (congrArg Board.rounds hboard) hside

theorem EntryBooks.onRoundEnd (h : a.EntryBooks) (hlive : a.live = true) (winnerSide reason : ℤ) :
    (a.onRoundEnd winnerSide reason).EntryBooks := by
  have hrounds :
      (a.onRoundEnd winnerSide reason).rounds = a.rounds ++ [a.summary winnerSide reason] :=
    congrArg Board.rounds (onRoundEnd_board hlive winnerSide reason)
  have hround : (a.onRoundEnd winnerSide reason).round = {} := by
    rw [onRoundEnd_of_live hlive]
  have hentries :
      ∀ id, ((a.onRoundEnd winnerSide reason).books id).entryKills = (a.books id).entryKills := by
    intro id
    rw [onRoundEnd_books hlive]
    rfl
  set b := a.onRoundEnd winnerSide reason
  have hrecord : ∀ id, (b.record id).entryKill = false := by
    intro id
    unfold record
    rw [hround]
    rfl
  have htotal : b.total (fun s => s.booked.entryKills) = a.total fun s => s.booked.entryKills :=
    total_of_books (f := Booked.entryKills) rfl hentries
  refine ⟨roundOk_empty hround, ?_, ?_, ?_⟩
  · have hbefore := h.total
    rw [htotal, hrounds, List.length_append, List.length_singleton, hround]
    push_cast
    split_ifs at hbefore ⊢ <;> omega
  · intro id
    have hrec := h.recorded id
    rw [hentries, hrounds, recordedRounds_append, hrecord, hrec]
    simp only [exists_entry_iff h.roundOk winnerSide reason id, Bool.false_eq_true,
      if_false, add_zero]
  · intro hdone
    rw [hround] at hdone
    cases hdone

theorem EntryBooks.onRoundStart (h : a.EntryBooks) (hdone : a.round.entryDone = false) :
    a.onRoundStart.EntryBooks := by
  have hbefore := h.total
  rw [hdone] at hbefore
  refine ⟨roundOk_empty rfl, hbefore, ?_, fun hd => by cases hd⟩
  intro id
  have hrec := h.recorded id
  rw [(h.roundOk.entry hdone id).1] at hrec
  exact hrec

end StatsAccumulator

/-! ## Whole runs -/

namespace Recorder

open StatsAccumulator

/-- The calls on a live map; whoever kills is on a side. -/
def KnownSides (s : Recorder) : StatsCall → Prop
  | .event (.onPlayerDeath _ attacker _ _ _ _ _) => attacker ≠ 0 → IsSide (s.acc.sideOf attacker)
  | .event _ | .setTeam1IsCt _ | .snapshot => True
  | .beginMap _ | .endMap | .clear | .restore _ => False

/-- A round starts while no kill has been counted since the last one ended. -/
def EntryKept (s : Recorder) : StatsCall → Prop
  | .event .onRoundStart => s.acc.round.entryDone = false
  | _ => True

instance (s : Recorder) : ∀ call, Decidable (s.KnownSides call)
  | .event (.onPlayerDeath _ attacker _ _ _ _ _) =>
    inferInstanceAs (Decidable (attacker ≠ 0 → IsSide (s.acc.sideOf attacker)))
  | .event .onRoundStart | .event (.observePlayer ..) | .event (.onPlayerHurt ..) | .event
      (.onPlayerBlind ..)
  | .event (.onBombPlanted _) | .event (.onBombDefused _) | .event (.onRoundMvp _) | .event
      (.setScore ..)
  | .event (.setMoneyStart ..) | .event (.setLoadout ..) | .event
      (.onRoundEnd ..) | .setTeam1IsCt _ | .snapshot =>
    inferInstanceAs (Decidable True)
  | .beginMap _ | .endMap | .clear | .restore _ => inferInstanceAs (Decidable False)

/-- What the calls on a live map keep. -/
structure EntrySound (s : Recorder) : Prop where
  live : s.acc.live = true
  books : s.acc.EntryBooks

variable {s : Recorder} {call : StatsCall} {calls : List StatsCall}

theorem entrySound_beginMap (a : StatsAccumulator) (team1IsCt : Bool) :
    (⟨a.beginMap team1IsCt, []⟩ : Recorder).EntrySound := by
  have hread : ∀ id, (a.beginMap team1IsCt).players.read id = default :=
    fun id => Table.read_empty id
  have hrecord : ∀ id, (a.beginMap team1IsCt).record id = default := fun id => Table.read_empty id
  refine ⟨rfl, roundOk_empty rfl, le_refl 0, ?_, fun hd => by cases hd⟩
  intro id
  rw [hrecord]
  unfold books
  rw [hread]
  rfl

theorem EntrySound.step (h : s.EntrySound) (hknown : s.KnownSides call) (hkept : s.EntryKept call) :
    (s.step call).EntrySound := by
  cases call with
  | event op =>
    by_cases hend : ∃ winnerSide reason, op = .onRoundEnd winnerSide reason
    · obtain ⟨winnerSide, reason, rfl⟩ := hend
      have hboard := onRoundEnd_board h.live winnerSide reason
      exact ⟨(congrArg Board.live hboard).trans h.live, h.books.onRoundEnd h.live winnerSide reason⟩
    push Not at hend
    have hboard := step_board s.acc op hend
    refine ⟨(congrArg Board.live hboard).trans h.live, ?_⟩
    by_cases hstart : op = .onRoundStart
    · subst hstart
      exact h.books.onRoundStart hkept
    by_cases hdeath : ∃ victim attacker assister assistedFlash headshot weapon time,
        op = .onPlayerDeath victim attacker assister assistedFlash headshot weapon time
    · obtain ⟨victim, attacker, assister, assistedFlash, headshot, weapon, time, rfl⟩ := hdeath
      exact h.books.onPlayerDeath hknown assister assistedFlash headshot weapon time
    push Not at hdeath
    exact h.books.of_sameBooks (s.acc.step_sameBooks hstart hdeath hend)
      (congrArg Board.rounds hboard)
  | setTeam1IsCt team1IsCt =>
    obtain ⟨⟨hopened, hstamped, hentry⟩, htotal, hrecorded, htaken⟩ := h.books
    exact ⟨h.live, ⟨hopened, hstamped, hentry⟩, htotal, hrecorded, htaken⟩
  | snapshot => exact ⟨h.live, h.books⟩
  | beginMap team1IsCt => exact hknown.elim
  | endMap => exact hknown.elim
  | clear => exact hknown.elim
  | restore i => exact hknown.elim

/-- A start that drops a counted kill takes its killer's entry off the record. -/
theorem EntrySound.kept_of_oneEntry (h : s.EntrySound) (hone : (s.step call).acc.OneEntry) :
    s.EntryKept call := by
  by_cases hstart : call = .event .onRoundStart
  · subst hstart
    change s.acc.round.entryDone = false
    by_contra hdone
    obtain ⟨id, hid⟩ := h.books.taken (by simpa using hdone)
    have hbefore := h.books.recorded id
    have hafter := hone.recorded id
    have hrecord : (s.acc.onRoundStart.record id).entryKill = false := rfl
    rw [hid, if_pos rfl] at hbefore
    change (s.acc.books id).entryKills = recordedRounds s.acc.rounds id (·.entryKill = true) +
      if (s.acc.onRoundStart.record id).entryKill = true then 1 else 0 at hafter
    rw [hrecord, if_neg Bool.false_ne_true] at hafter
    omega
  · cases call with
    | event op => cases op <;> first | exact trivial | exact absurd rfl hstart
    | _ => exact trivial

end Recorder

/-- On a live map there is one entry a round exactly as long as no round starts on a counted
kill. -/
theorem oneEntry_iff_kept (a : StatsAccumulator) (team1IsCt : Bool) (calls : List StatsCall)
    (hknown : Guarded Recorder.step Recorder.KnownSides ⟨a.beginMap team1IsCt, []⟩ calls) :
    Always Recorder.step (·.acc.OneEntry) ⟨a.beginMap team1IsCt, []⟩ calls ↔
      Guarded Recorder.step Recorder.EntryKept ⟨a.beginMap team1IsCt, []⟩ calls :=
  hknown.always_iff (Recorder.entrySound_beginMap a team1IsCt)
    (fun _ _ h hk hkept => h.step hk hkept)
    (fun _ h => h.books.oneEntry) fun _ _ h _ hone => h.kept_of_oneEntry hone

/-- The starts and ends of rounds among the calls: true for a start. -/
def roundMarks (calls : List StatsCall) : List Bool :=
  calls.filterMap fun
    | .event .onRoundStart => some true
    | .event (.onRoundEnd _ _) => some false
    | _ => none

/-- Two players on their sides, and a round in which the one kills the other. -/
def duelRound : List StatsCall :=
  [.event (.observePlayer 1 [97] 3 1 false), .event (.observePlayer 2 [98] 2 2 false),
    .event .onRoundStart, .event (.onPlayerDeath 2 1 0 false false "ak47" 12),
    .event (.onRoundEnd 3 8)]

theorem oneEntry_iff_kept_duel :
    Always Recorder.step (·.acc.OneEntry) ⟨StatsAccumulator.beginMap {} true, []⟩ duelRound :=
  (oneEntry_iff_kept {} true duelRound (by decide)).mpr
    ⟨trivial, trivial, rfl, trivial, trivial, trivial⟩

/-- One more kill before the next start, and one after it. -/
def lateDuel : List StatsCall :=
  duelRound ++ [.event (.onPlayerDeath 2 1 0 false false "ak47" 20), .event .onRoundStart,
    .event (.onPlayerDeath 2 1 0 false false "ak47" 30)]

/-- Three entries over one recorded round. -/
theorem lateDuel_not_oneEntry :
    (roundMarks lateDuel).IsChain (· ≠ ·) ∧
      Guarded Recorder.step Recorder.KnownSides ⟨StatsAccumulator.beginMap {} true, []⟩ lateDuel ∧
      ¬(run Recorder.step ⟨StatsAccumulator.beginMap {} true, []⟩ lateDuel).acc.OneEntry := by
  refine ⟨by decide, by decide, ?_⟩
  intro h
  exact absurd h.total (by decide)

end ReadyUp.Stats
