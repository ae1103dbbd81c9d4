import ReadyUp.Match.Server

/-!
# The series score

Three events can end a map: a round end that decides it, a forfeit, and the engine's own end
of the game. All of them go through `FinishMapLocked`, behind one marker that remembers the map
a result was sent for. The series score is a pair of counters beside it. Here the server is
reduced to what these depend on, with the few moves that act on it; each event of the server is
one of the moves. `RestartMatch` clears the counters and the marker on every map, so the score
is that of the results sent only while it finds nothing to clear.
-/
namespace ReadyUp.Match

open ReadyUp.Support ReadyUp.Stats

/-- `g_mapNumber`, as `MapChanged` reads it. -/
def MatchLogState.map (l : MatchLogState) : ℤ := if l.mapNumber < 1 then 1 else l.mapNumber

/-- The part of a server that the results of a series depend on. -/
structure SeriesView where
  maplist : List String
  map : ℤ
  logMap : ℤ
  emitted : ℤ
  wins1 : ℕ
  wins2 : ℕ
  results : List MapResult
  pending : Option MapEndStep
  loading : Option String

def Server.series (s : Server) : SeriesView :=
  { maplist := s.ctx.maplist
    map := s.matchState.map
    logMap := s.log.map
    emitted := s.modes.mapResultEmittedForMapNumber
    wins1 := s.modes.seriesWinsTeam1
    wins2 := s.modes.seriesWinsTeam2
    results := s.mapResults
    pending := s.pending
    loading := s.loading }

/-- The maps up to `current` that `winner` has won, by the results sent. -/
def mapsWon (results : List MapResult) (current : ℤ) (winner : MapWinner) : ℕ :=
  results.countP fun r => decide (r.winner = winner ∧ r.mapNumber ≤ current)

/-- One result for each map, and the score of the series is that of the results. -/
def SeriesConserved (s : Server) : Prop :=
  (s.mapResults.map MapResult.mapNumber).Nodup ∧
    s.modes.seriesWinsTeam1 = mapsWon s.mapResults s.matchState.map .team1 ∧
    s.modes.seriesWinsTeam2 = mapsWon s.mapResults s.matchState.map .team2

instance (s : Server) : Decidable (SeriesConserved s) := inferInstanceAs (Decidable (_ ∧ _))

/-! ## Moves of the series -/

/-- A result for the current map, with the step that it schedules. -/
def SeriesView.finish (v : SeriesView) (r : MapResult) (next : MapEndStep) : SeriesView :=
  { v with
    emitted := v.map
    wins1 := if r.winner = .team1 then v.wins1 + 1 else v.wins1
    wins2 := if r.winner = .team2 then v.wins2 + 1 else v.wins2
    results := v.results ++ [r]
    pending := some next }

def SeriesView.arrive (v : SeriesView) : SeriesView :=
  { v with map := v.map + 1, logMap := v.map + 1, loading := none }

/-- What can happen to a series: nothing, a result for a map without one, the request for the
next map, its arrival, or a restart that has nothing to clear. -/
inductive SeriesMove (v : SeriesView) : SeriesView → Prop
  | stay : SeriesMove v v
  | finish (r : MapResult) (next : MapEndStep) (hemitted : v.emitted ≠ v.map)
      (hmap : r.mapNumber = v.map)
      (hnext : ∀ e, next = .nextMap e → entryAfter v.maplist v.map = some e) :
      SeriesMove v (v.finish r next)
  | request (e : String) (hpending : v.pending = some (.nextMap e)) :
      SeriesMove v { v with pending := none, loading := if e = "" then v.loading else some e }
  | arrive (e : String) (hloading : v.loading = some e) : SeriesMove v v.arrive
  | arriveSame (e : String) (hloading : v.loading = some e) :
      SeriesMove v { v with loading := none }
  | restart (hwins1 : v.wins1 = 0) (hwins2 : v.wins2 = 0) (hemitted : v.emitted ≠ v.map) :
      SeriesMove v { v with emitted := 0, wins1 := 0, wins2 := 0, pending := none }

/-- The score is that of the results, and no result is for a map still to come. A map is on its
way only when the current one has its result and the list names the next. -/
structure SeriesView.Kept (v : SeriesView) : Prop where
  wins1 : v.wins1 = v.results.countP (·.winner = .team1)
  wins2 : v.wins2 = v.results.countP (·.winner = .team2)
  once : (v.results.map MapResult.mapNumber).Nodup
  past : ∀ r ∈ v.results, r.mapNumber ≤ v.map
  marked : ∀ r ∈ v.results, r.mapNumber = v.map → v.emitted = v.map
  logMap : v.logMap = v.map
  one_le : 1 ≤ v.map
  nextMap : ∀ e, v.pending = some (.nextMap e) ∨ v.loading = some e →
    entryAfter v.maplist v.map = some e ∧ v.emitted = v.map
  idle : ∀ e, v.pending = some (.nextMap e) → v.loading = none

namespace SeriesView.Kept

variable {v : SeriesView}

theorem not_mem_results (h : v.Kept) (hemitted : v.emitted ≠ v.map) :
    v.map ∉ v.results.map MapResult.mapNumber := by
  intro hmem
  obtain ⟨r, hr, hmap⟩ := List.mem_map.mp hmem
  exact hemitted (h.marked r hr hmap)

/-- Nothing is on its way while the current map has no result. -/
theorem loading_eq_none (h : v.Kept) (hemitted : v.emitted ≠ v.map) : v.loading = none := by
  cases hloading : v.loading with
  | none => rfl
  | some e => exact absurd (h.nextMap e (.inr hloading)).2 hemitted

theorem finish (h : v.Kept) {r : MapResult} {next : MapEndStep} (hemitted : v.emitted ≠ v.map)
    (hmap : r.mapNumber = v.map)
    (hnext : ∀ e, next = .nextMap e → entryAfter v.maplist v.map = some e) :
    (v.finish r next).Kept where
  wins1 := by
    simp only [SeriesView.finish, List.countP_append, List.countP_singleton, h.wins1,
      decide_eq_true_eq]
    split_ifs <;> rfl
  wins2 := by
    simp only [SeriesView.finish, List.countP_append, List.countP_singleton, h.wins2,
      decide_eq_true_eq]
    split_ifs <;> rfl
  once := by
    simp only [SeriesView.finish, List.map_append, List.map_cons, List.map_nil, hmap]
    exact List.nodup_append.mpr ⟨h.once, List.nodup_singleton _, by
      intro a ha b hb hab
      obtain rfl := List.mem_singleton.mp hb
      exact h.not_mem_results hemitted (hab ▸ ha)⟩
  past := by
    intro q hq
    rcases List.mem_append.mp hq with hq | hq
    · exact h.past q hq
    · exact (List.mem_singleton.mp hq ▸ hmap).le
  marked := fun _ _ _ => rfl
  logMap := h.logMap
  one_le := h.one_le
  nextMap := by
    rintro e (he | he)
    · exact ⟨hnext e (Option.some.inj he), rfl⟩
    · exact absurd he (by simp [SeriesView.finish, h.loading_eq_none hemitted])
  idle := fun _ _ => h.loading_eq_none hemitted

theorem request (h : v.Kept) {e : String} (hpending : v.pending = some (.nextMap e)) :
    ({ v with pending := none, loading := if e = "" then v.loading else some e } :
      SeriesView).Kept where
  __ := h
  nextMap := by
    rintro e' (he | he)
    · exact (by cases he)
    · rcases eq_or_ne e "" with hempty | hempty
      · rw [if_pos hempty] at he
        exact h.nextMap e' (.inr he)
      · rw [if_neg hempty] at he
        exact Option.some.inj he ▸ h.nextMap e (.inl hpending)
  idle := fun _ he => by cases he

theorem not_pending (h : v.Kept) {e : String} (hloading : v.loading = some e) (e' : String) :
    v.pending ≠ some (.nextMap e') := by
  intro hpending
  rw [h.idle e' hpending] at hloading
  exact (by cases hloading)

theorem arrive (h : v.Kept) {e : String} (hloading : v.loading = some e) : v.arrive.Kept where
  wins1 := h.wins1
  wins2 := h.wins2
  once := h.once
  past := by
    intro r hr
    have := h.past r hr
    simp only [SeriesView.arrive]
    omega
  marked := by
    intro r hr hmap
    have := h.past r hr
    simp only [SeriesView.arrive] at hmap
    omega
  logMap := rfl
  one_le := by
    have := h.one_le
    simp only [SeriesView.arrive]
    omega
  nextMap := by
    rintro e' (he | he)
    · exact absurd he (h.not_pending hloading e')
    · exact (by cases he)
  idle := fun _ _ => rfl

theorem arriveSame (h : v.Kept) {e : String} (hloading : v.loading = some e) :
    ({ v with loading := none } : SeriesView).Kept where
  __ := h
  nextMap := by
    rintro e' (he | he)
    · exact absurd he (h.not_pending hloading e')
    · exact (by cases he)
  idle := fun _ _ => rfl

theorem restart (h : v.Kept) (hwins1 : v.wins1 = 0) (hwins2 : v.wins2 = 0)
    (hemitted : v.emitted ≠ v.map) :
    ({ v with emitted := 0, wins1 := 0, wins2 := 0, pending := none } : SeriesView).Kept where
  wins1 := hwins1 ▸ h.wins1
  wins2 := hwins2 ▸ h.wins2
  once := h.once
  past := h.past
  marked := fun r hr hmap => absurd (h.marked r hr hmap) hemitted
  logMap := h.logMap
  one_le := h.one_le
  nextMap := by
    rintro e (he | he)
    · exact (by cases he)
    · exact absurd he (by simp [h.loading_eq_none hemitted])
  idle := fun _ he => by cases he

theorem move {w : SeriesView} (h : v.Kept) (hmove : SeriesMove v w) : w.Kept := by
  cases hmove with
  | stay => exact h
  | finish r next hemitted hmap hnext => exact h.finish hemitted hmap hnext
  | request e hpending => exact h.request hpending
  | arrive e hloading => exact h.arrive hloading
  | arriveSame e hloading => exact h.arriveSame hloading
  | restart hwins1 hwins2 hemitted => exact h.restart hwins1 hwins2 hemitted

end SeriesView.Kept

/-! ## The moves of the server -/

namespace Server

variable {s : Server}

/-- The counters of the events, the stats and the live flags are no part of the series. -/
theorem series_congr {t : Server} (hctx : t.ctx = s.ctx)
    (hmap : t.matchState.map = s.matchState.map) (hlog : t.log.mapNumber = s.log.mapNumber)
    (hemitted : t.modes.mapResultEmittedForMapNumber = s.modes.mapResultEmittedForMapNumber)
    (hwins1 : t.modes.seriesWinsTeam1 = s.modes.seriesWinsTeam1)
    (hwins2 : t.modes.seriesWinsTeam2 = s.modes.seriesWinsTeam2)
    (hresults : t.mapResults = s.mapResults) (hpending : t.pending = s.pending)
    (hloading : t.loading = s.loading) : t.series = s.series := by
  simp only [series, MatchLogState.map, hctx, hmap, hlog, hemitted, hwins1, hwins2, hresults,
    hpending, hloading]

@[simp] theorem onMatchRoundStarted_series (s : Server) (justRestarted : Bool) :
    (s.onMatchRoundStarted justRestarted).series = s.series := by
  unfold onMatchRoundStarted
  split_ifs <;> rfl

@[simp] theorem statsRegisterRoundPlayers_series (s : Server) (controllers : List (ℤ × Observed)) :
    (s.statsRegisterRoundPlayers controllers).series = s.series := by
  unfold statsRegisterRoundPlayers
  dsimp only
  split <;> rfl

theorem onRoundStart_series (s : Server) (justRestarted : Bool)
    (controllers : List (ℤ × Observed)) :
    (s.onRoundStart justRestarted controllers).series = s.series := by
  unfold onRoundStart
  dsimp only
  split
  · rfl
  · simp only [statsRegisterRoundPlayers_series, onMatchRoundStarted_series]
    exact series_congr rfl (MatchState.setRound_map _ _) rfl rfl rfl rfl rfl rfl rfl

theorem onNotice_series (s : Server) (ct t : ℤ) : (s.onNotice ct t).series = s.series := by
  unfold onNotice
  split <;> rfl

theorem onPlayerHurt_series (s : Server) (victim attacker : EventPlayer) (dmgHealth health : ℤ)
    (weapon : String) :
    (s.onPlayerHurt victim attacker dmgHealth health weapon).series = s.series := by
  unfold onPlayerHurt
  dsimp only
  split <;> rfl

theorem onPlayerDeath_series (s : Server) (victim attacker assister : EventPlayer)
    (assistedFlash headshot : Bool) (weapon : String) (time : ℚ) :
    (s.onPlayerDeath victim attacker assister assistedFlash headshot weapon time).series =
      s.series := by
  unfold onPlayerDeath
  dsimp only
  split <;> rfl

theorem maybeGateMatch_series (s : Server) : s.maybeGateMatch.series = s.series := by
  unfold maybeGateMatch
  split_ifs <;> rfl

theorem onMatchStart_series (s : Server) : s.onMatchStart.series = s.series :=
  series_congr rfl (MatchState.setRound_map _ _) rfl rfl rfl rfl rfl rfl rfl

theorem doRestoreNow_series (s : Server) (round scoreT1 scoreT2 : ℤ) (now : ℚ)
    (onTeams : List ℤ) :
    (s.doRestoreNow round scoreT1 scoreT2 now onTeams).series = s.series :=
  series_congr rfl (MatchState.setRound_map _ _) rfl rfl rfl rfl rfl rfl rfl

theorem finishMap_move (map : String) (team1Score team2Score : ℤ) (winner : MapWinner)
    (forfeit : Bool) (hemitted : s.modes.mapResultEmittedForMapNumber ≠ s.matchState.map) :
    SeriesMove s.series
      (s.finishMap s.matchState.map map team1Score team2Score winner forfeit).series := by
  set f := finishMapLocked s.modes s.ctx s.matchState.map map team1Score team2Score winner forfeit
    (s.events.rosterTeamDamageTotals s.ctx) with hf
  have hview : (s.finishMap s.matchState.map map team1Score team2Score winner forfeit).series =
      s.series.finish f.result (if f.input.seriesOver then
        .reset else .nextMap f.input.nextMap) := by
    cases winner <;> rfl
  rw [hview]
  refine .finish _ _ hemitted rfl ?_
  intro e he
  -- a next map is only named while the series goes on, and then it is the entry of the list
  rcases Bool.eq_false_or_eq_true f.input.seriesOver with hover | hover
  · rw [if_pos hover] at he
    exact (by cases he)
  · rw [if_neg (by simp [hover])] at he
    obtain rfl := MapEndStep.nextMap.inj he
    simp only [hf, finishMapLocked, Bool.or_eq_false_iff, beq_eq_false_iff_ne] at hover ⊢
    obtain ⟨hgoes, hempty⟩ := hover
    simp only [hgoes.1, hgoes.2, Bool.or_self, Bool.false_eq_true, if_false] at hempty ⊢
    cases hentry : entryAfter s.ctx.maplist s.matchState.map with
    | none => simp [hentry] at hempty
    | some e => exact hentry

theorem onMatchRoundEnded_move (team1Score team2Score : ℤ) (mapName : String) :
    SeriesMove s.series
      (s.onMatchRoundEnded s.matchState.mapNumber team1Score team2Score mapName).series := by
  have hmap : (if s.matchState.mapNumber ≤ 0 then 1 else s.matchState.mapNumber) =
      s.matchState.map := rfl
  simp only [onMatchRoundEnded, hmap]
  by_cases hemitted : s.modes.mapResultEmittedForMapNumber = s.matchState.map
  · rw [if_pos hemitted]
    exact .stay
  · rw [if_neg hemitted]
    split
    · exact .stay
    · exact finishMap_move _ _ _ _ _ hemitted

theorem emitRoundEnd_move (winner reason : ℤ) (controllers : List (ℤ × Observed × Option ℤ)) :
    SeriesMove s.series (s.emitRoundEnd winner reason controllers).series := by
  have hclosed : ∀ t : Server, t.series = s.series → t.matchState = s.matchState →
      ∀ t1 t2 name, SeriesMove s.series
        (t.onMatchRoundEnded s.matchState.mapNumber t1 t2 name).series := by
    intro t ht hstate t1 t2 name
    rw [← ht, ← hstate]
    exact onMatchRoundEnded_move t1 t2 name
  unfold emitRoundEnd
  dsimp only
  refine hclosed _ ?_ ?_ _ _ _ <;> split <;> rfl

theorem onRoundEnd_move (winner reason : ℤ) (now : ℚ)
    (controllers : List (ℤ × Observed × Option ℤ)) :
    SeriesMove s.series (s.onRoundEnd winner reason now controllers).series := by
  unfold onRoundEnd
  dsimp only
  split_ifs
  · exact .stay
  · exact .stay
  · let reset := { s with events := s.events.maybeResetForMap s.matchState.mapNumber }
    exact emitRoundEnd_move (s := reset) winner reason controllers

theorem forfeitCurrentMap_move (loser : Slot) :
    SeriesMove s.series (s.forfeitCurrentMap loser).series := by
  unfold forfeitCurrentMap
  dsimp only
  split_ifs with h
  · exact .stay
  · exact finishMap_move _ _ _ _ _ (not_or.mp h).2

theorem onEngineGameOver_move (ctScore tScore : ℤ) :
    SeriesMove s.series (s.onEngineGameOver ctScore tScore).series := by
  unfold onEngineGameOver
  dsimp only
  by_cases h : s.modes.mode ≠ .matchLive ∨
      s.modes.mapResultEmittedForMapNumber = s.matchState.map
  · rw [if_pos h]
    exact .stay
  · rw [if_neg h]
    exact finishMap_move _ _ _ _ _ (not_or.mp h).2

theorem beginNextMap_move : SeriesMove s.series s.beginNextMap.series := by
  unfold beginNextMap
  split
  · rename_i next hpending
    have hview : ∀ modes : Modes, modes.mapResultEmittedForMapNumber =
          s.modes.mapResultEmittedForMapNumber →
        modes.seriesWinsTeam1 = s.modes.seriesWinsTeam1 →
        modes.seriesWinsTeam2 = s.modes.seriesWinsTeam2 →
        SeriesMove s.series
          ({ s with
              pending := none
              modes
              loading := if next = "" then s.loading else some next } : Server).series := by
      intro modes hemitted hwins1 hwins2
      have := SeriesMove.request (v := s.series) next hpending
      simpa only [series, hemitted, hwins1, hwins2] using this
    exact hview _ (by split <;> rfl) (by split <;> rfl) (by split <;> rfl)
  · exact .stay

theorem restartMatch_move (hwins1 : s.modes.seriesWinsTeam1 = 0)
    (hwins2 : s.modes.seriesWinsTeam2 = 0)
    (hemitted : s.modes.mapResultEmittedForMapNumber ≠ s.matchState.map) :
    SeriesMove s.series s.restartMatch.series :=
  SeriesMove.restart hwins1 hwins2 hemitted

/-- A loaded map that the entry after the current one matches is the next map. -/
theorem loadedMapNumber_next {loaded next : String} (hlog : s.log.map = s.matchState.map)
    (hentry : entryAfter s.ctx.maplist s.matchState.map = some next)
    (hmatch : s.maps.entryMatchesLoaded next loaded = true) :
    s.loadedMapNumber loaded = s.matchState.map + 1 := by
  have hpos := MatchState.one_le_map s.matchState
  rw [entryAfter, if_pos (by omega)] at hentry
  obtain ⟨hlt, hget⟩ := List.getElem?_eq_some_iff.mp hentry
  have hdrop : s.ctx.maplist.drop s.matchState.map.toNat =
      next :: s.ctx.maplist.drop (s.matchState.map.toNat + 1) := by
    rw [List.drop_eq_getElem_cons hlt, hget]
  unfold loadedMapNumber
  rw [show (if s.log.mapNumber < 1 then (1 : ℤ) else s.log.mapNumber) = s.matchState.map from hlog]
  simp [hdrop, List.findIdx?_cons, hmatch]

theorem mapLoaded_move {loaded next : String} (h : s.series.Kept) (hloading : s.loading = some next)
    (hmatch : s.maps.entryMatchesLoaded next loaded = true) :
    SeriesMove s.series (s.mapLoaded loaded).series := by
  have hnumber := loadedMapNumber_next h.logMap (h.nextMap next (.inr hloading)).1 hmatch
  have hpos := MatchState.one_le_map s.matchState
  unfold mapLoaded
  dsimp only
  split_ifs with hname
  · exact SeriesMove.arriveSame next hloading
  · have hloaded : ({ s with loading := none } : Server).loadedMapNumber loaded =
        s.matchState.map + 1 := hnumber
    have hlog : MatchLogState.map { mapNumber := s.matchState.map + 1 } = s.matchState.map + 1 :=
      if_neg (show ¬s.matchState.map + 1 < 1 by omega)
    convert SeriesMove.arrive (v := s.series) next hloading using 1
    simp only [series, SeriesView.arrive, hloaded, MatchState.setScore_map,
      MatchState.setRound_map, s.matchState.setMap_map (show 1 ≤ s.matchState.map + 1 by omega)]
    exact congrArg (fun l => SeriesView.mk _ _ l _ _ _ _ _ _) hlog

end Server

/-! ## Runs -/

/-- The map that loads is the one the series asked for, and a map is restarted only while the
series is without a won map and the current map without a result. -/
def SeriesSafe (s : Server) : MatchEvent → Prop
  | .mapLoaded loaded => s.loading.any (fun next => s.maps.entryMatchesLoaded next loaded) = true
  | .restartMatch =>
    s.modes.seriesWinsTeam1 = 0 ∧ s.modes.seriesWinsTeam2 = 0 ∧
      s.modes.mapResultEmittedForMapNumber ≠ s.matchState.map
  | _ => True

instance (s : Server) (e : MatchEvent) : Decidable (SeriesSafe s e) :=
  match e with
  | .mapLoaded _ => inferInstanceAs (Decidable (_ = _))
  | .restartMatch => inferInstanceAs (Decidable (_ ∧ _))
  | .roundStart .. | .notice .. | .roundEnd .. | .playerHurt .. | .playerDeath ..
  | .playerSpawn _ | .playerDisconnect _ | .matchStart | .rosterReady | .forceStart _
  | .forfeit _ | .engineGameOver .. | .nextMap | .restore .. => inferInstanceAs (Decidable True)

/-- A match on its first map: `OnMatchLoaded` has cleared the series, and the log and the match
state agree on the map. -/
structure SeriesStart (s : Server) : Prop where
  results : s.mapResults = []
  wins1 : s.modes.seriesWinsTeam1 = 0
  wins2 : s.modes.seriesWinsTeam2 = 0
  pending : s.pending = none
  loading : s.loading = none
  logMap : s.log.mapNumber = s.matchState.mapNumber

theorem SeriesStart.kept {s : Server} (h : SeriesStart s) : s.series.Kept where
  wins1 := by simp [Server.series, h.wins1, h.results]
  wins2 := by simp [Server.series, h.wins2, h.results]
  once := by simp [Server.series, h.results]
  past := by simp [Server.series, h.results]
  marked := by simp [Server.series, h.results]
  logMap := by
    simp only [Server.series, MatchLogState.map, MatchState.map, h.logMap, Int.lt_iff_add_one_le,
      add_le_iff_nonpos_left]
  one_le := MatchState.one_le_map s.matchState
  nextMap := by simp [Server.series, h.pending, h.loading]
  idle := by simp [Server.series, h.loading]

theorem Server.step_move {s : Server} {e : MatchEvent} (h : s.series.Kept)
    (hsafe : SeriesSafe s e) : SeriesMove s.series (s.step e).series := by
  have stay : ∀ {t : Server}, t.series = s.series → SeriesMove s.series t.series := by
    intro t ht
    exact ht ▸ .stay
  cases e with
  | roundStart justRestarted controllers => exact stay (s.onRoundStart_series _ _)
  | notice ct t => exact stay (s.onNotice_series _ _)
  | roundEnd winner reason now controllers => exact onRoundEnd_move _ _ _ _
  | playerHurt victim attacker dmgHealth health weapon => exact stay (s.onPlayerHurt_series ..)
  | playerDeath victim attacker assister assistedFlash headshot weapon time =>
    exact stay (s.onPlayerDeath_series ..)
  | playerSpawn slot => exact stay rfl
  | playerDisconnect slot => exact stay rfl
  | matchStart => exact stay s.onMatchStart_series
  | rosterReady => exact stay s.maybeGateMatch_series
  | forceStart allowed => cases allowed <;> exact stay rfl
  | forfeit loser => exact forfeitCurrentMap_move loser
  | engineGameOver ctScore tScore => exact onEngineGameOver_move _ _
  | nextMap => exact beginNextMap_move
  | mapLoaded loaded =>
    obtain ⟨next, hloading, hmatch⟩ := (Option.any_eq_true _ _).mp hsafe
    exact mapLoaded_move h hloading hmatch
  | restartMatch => exact restartMatch_move hsafe.1 hsafe.2.1 hsafe.2.2
  | restore round scoreT1 scoreT2 now onTeams => exact stay (s.doRestoreNow_series ..)

theorem SeriesView.Kept.conserved {s : Server} (h : s.series.Kept) : SeriesConserved s := by
  have hall : ∀ w, mapsWon s.mapResults s.matchState.map w =
      s.mapResults.countP (·.winner = w) := by
    intro w
    apply List.countP_congr
    intro r hr
    simp [show r.mapNumber ≤ s.matchState.map from h.past r hr]
  exact ⟨h.once, h.wins1.trans (hall _).symm, h.wins2.trans (hall _).symm⟩

/-- In every run that restarts no map of a series with something to lose, each map has one
result at most, and the score of the series is that of the results. -/
theorem seriesConserved_of_run (s : Server) (es : List MatchEvent) (hstart : SeriesStart s)
    (hsafe : Guarded Server.step SeriesSafe s es) : SeriesConserved (run Server.step s es) :=
  SeriesView.Kept.conserved <|
    hsafe.invariant (P := fun t => t.series.Kept) hstart.kept
      fun _ _ h he => h.move (Server.step_move h he)

/-- The first map of a best of three, loaded and in warmup. -/
def firstOfThree : Server :=
  { maps := { entryMatchesLoaded := fun e loaded => e == loaded, loadedBaseName := id }
    ctx := bestOfThree
    matchState := { currentMap := "de_nuke" }
    log := { currentMap := "de_nuke" }
    modes := { mode := .matchWarmup } }

/-- Restarted once before its end, the first map gives one point, which the second map keeps. -/
theorem seriesConserved_of_run_second_map :
    SeriesConserved (run Server.step firstOfThree
      [.forceStart true, .restartMatch, .forceStart true,
      .engineGameOver 13 7, .nextMap, .mapLoaded "de_dust2", .forceStart true]) :=
  seriesConserved_of_run firstOfThree _ ⟨rfl, rfl, rfl, rfl, rfl, rfl⟩ (by decide)

/-- A restart of the second map forgets who won the first, and a restart of a map that is over
lets it give a second result. -/
theorem restartMatch_not_seriesConserved :
    ¬SeriesConserved (run Server.step firstOfThree [.forceStart true, .engineGameOver 13 7,
        .nextMap, .mapLoaded "de_dust2", .forceStart true, .restartMatch]) ∧
      ¬SeriesConserved (run Server.step firstOfThree [.forceStart true, .engineGameOver 13 7,
        .restartMatch, .forceStart true, .engineGameOver 13 7]) := by
  decide

end ReadyUp.Match
