import ReadyUp.Config.Assign
import ReadyUp.Match.Server
import ReadyUp.Match.StatsText

/-!
# The progress of a running match

What is kept about a running match besides its configuration: the map, the phase, the maps won, the
statistics as text and the counters of the events. A server that starts again reads it.
-/
namespace ReadyUp.Match

open Support JsonScan Status
open Config.Assign (get items obj)

/-- `restore::Progress` with what only the recovered match reads. -/
structure ProgressRecord extends Progress where
  statsJson : Bytes := []
  haveEvents : Bool := false
  events : MatchEventsState := {}
  deriving DecidableEq, Repr

def ProgressPhase.text : ProgressPhase → Bytes
  | .warmup => ascii "warmup"
  | .live => ascii "live"
  | .mapOver => ascii "map_over"

/-- The phase with that name; a record with another one is refused. -/
def ProgressPhase.ofText (s : Bytes) : Option ProgressPhase :=
  if s = ascii "warmup" then some .warmup
  else if s = ascii "live" then some .live
  else if s = ascii "map_over" then some .mapOver
  else none

theorem ProgressPhase.ofText_text (phase : ProgressPhase) : ofText phase.text = some phase := by
  cases phase <;> rfl

section Writer

def Totals.members (t : Totals) : List (Bytes × Json) :=
  [(ascii "id", .string (decimal t.steamid64)),
    (ascii "name", .string t.name),
    (ascii "team", .int t.team),
    (ascii "k", .int t.kills),
    (ascii "d", .int t.deaths),
    (ascii "a", .int t.assists),
    (ascii "hs", .int t.headshotKills),
    (ascii "dmg", .int t.damage)]

def Totals.document (t : Totals) : Json := .object t.members

def MatchEventsState.members (e : MatchEventsState) : List (Bytes × Json) :=
  [(ascii "round", .int e.roundNumber),
    (ascii "last_map_number", .int e.lastMapNumber),
    (ascii "swaps", .int e.swapCount),
    (ascii "last_half_start_total", .int e.lastHalfStartTotal),
    (ascii "last_overtime", .int e.lastOvertimeNumber),
    (ascii "players", .array (e.players.map Totals.document))]

def MatchEventsState.document (e : MatchEventsState) : Json := .object e.members

namespace ProgressRecord

variable (p : ProgressRecord)

def statsMembers : List (Bytes × Json) :=
  if p.statsJson = [] then [] else [(ascii "stats", .string p.statsJson)]

def eventsMembers : List (Bytes × Json) :=
  if p.haveEvents then [(ascii "events", p.events.document)] else []

def members : List (Bytes × Json) :=
  [(ascii "v", .int 1),
    (ascii "map_number", .int p.mapNumber),
    (ascii "phase", .string p.phase.text),
    (ascii "series_team1", .int p.seriesTeam1),
    (ascii "series_team2", .int p.seriesTeam2)] ++ (p.statsMembers ++ p.eventsMembers)

def document : Json := .object p.members

end ProgressRecord

def progressToJson (p : ProgressRecord) : Bytes := p.document.dump

end Writer

section Reader

/-- `Int`: what does not fit into an `int` wraps around. -/
def intField (o : Json) (k : String) (dflt : ℤ) : ℤ :=
  (get o k).elim dflt fun v => v.asInt.bmod (2 ^ 32)

/-- `Str` -/
def strField (o : Json) (k : String) : Bytes := (get o k).elim [] Json.asString

def readTotals (x : Json) : Totals :=
  { steamid64 := strtoull (strField x "id")
    name := strField x "name"
    team := intField x "team" 0
    kills := intField x "k" 0
    deaths := intField x "d" 0
    assists := intField x "a" 0
    headshotKills := intField x "hs" 0
    damage := intField x "dmg" 0 }

def readEvents (e : Json) : MatchEventsState :=
  { roundNumber := intField e "round" 0
    lastMapNumber := intField e "last_map_number" 0
    swapCount := intField e "swaps" 0
    lastHalfStartTotal := intField e "last_half_start_total" (-1)
    lastOvertimeNumber := intField e "last_overtime" 0
    players := ((get e "players").elim [] items).map readTotals }

def readProgress (j : Json) (phase : ProgressPhase) : ProgressRecord :=
  let p : ProgressRecord :=
    { mapNumber := max 1 (intField j "map_number" 1)
      phase
      seriesTeam1 := max 0 (intField j "series_team1" 0)
      seriesTeam2 := max 0 (intField j "series_team2" 0)
      statsJson := strField j "stats" }
  match obj j "events" with
  | some e => { p with haveEvents := true, events := readEvents e }
  | none => p

def progressFromJson (json : Bytes) : Option ProgressRecord :=
  (Json.parse json).bind fun j =>
    if j.isObject ∧ intField j "v" 0 = 1 then
      (ProgressPhase.ofText (strField j "phase")).map (readProgress j)
    else none

end Reader

section RoundTrip

variable {ms : List (Bytes × Json)}

theorem intField_eq (hints : (Json.object ms).Ints) {k : String} {i : ℤ}
    (h : ms.lookup (ascii k) = some (.int i)) (dflt : ℤ) : intField (.object ms) k dflt = i := by
  obtain ⟨hlow, hhigh⟩ : InInt32 i := of_decide_eq_true (hints.member (mem_of_lookup h))
  have hget : get (.object ms) k = some (.int i) := h
  rw [intField, hget, Option.elim_some, Json.asInt, Int.bmod_def]
  split_ifs <;> omega

theorem strField_eq {k : String} {s : Bytes} (h : ms.lookup (ascii k) = some (.string s)) :
    strField (.object ms) k = s := by
  have hget : get (.object ms) k = some (.string s) := h
  rw [strField, hget]
  rfl

theorem readTotals_document {t : Totals} (hid : t.steamid64 < 2 ^ 64) (hints : t.document.Ints) :
    readTotals t.document = t := by
  have hint : ∀ k i, t.members.lookup (ascii k) = some (.int i) → intField t.document k 0 = i :=
    fun k i h => intField_eq hints h 0
  have hread : strField t.document "id" = decimal t.steamid64 := strField_eq rfl
  have hname : strField t.document "name" = t.name := strField_eq rfl
  have hsteam : strtoull (decimal t.steamid64) = t.steamid64 := by
    rw [strtoull_digits (decimal_ne_nil _) (decimal_isDigit _), ofDigits_decimal]
    omega
  rw [readTotals, hread, hsteam, hname, hint "team" t.team rfl, hint "k" t.kills rfl,
    hint "d" t.deaths rfl, hint "a" t.assists rfl, hint "hs" t.headshotKills rfl,
    hint "dmg" t.damage rfl]

theorem readEvents_document {e : MatchEventsState} (hids : ∀ t ∈ e.players, t.steamid64 < 2 ^ 64)
    (hints : e.document.Ints) : readEvents e.document = e := by
  have hint : ∀ k i d, e.members.lookup (ascii k) = some (.int i) → intField e.document k d = i :=
    fun k i d h => intField_eq hints h d
  have hplayers : (get e.document "players").elim [] items = e.players.map Totals.document := rfl
  have harray : (Json.array (e.players.map Totals.document)).Ints :=
    hints.member (mem_of_lookup (k := ascii "players") rfl)
  have hread : (e.players.map Totals.document).map readTotals = e.players := by
    rw [List.map_map]
    refine (List.map_congr_left fun t ht => ?_).trans (List.map_id _)
    exact readTotals_document (hids t ht) (harray.item (List.mem_map_of_mem ht))
  rw [readEvents, hint "round" e.roundNumber 0 rfl, hint "last_map_number" e.lastMapNumber 0 rfl,
    hint "swaps" e.swapCount 0 rfl, hint "last_half_start_total" e.lastHalfStartTotal (-1) rfl,
    hint "last_overtime" e.lastOvertimeNumber 0 rfl, hplayers, hread]

/-- What is written of a record: `int`s, and SteamIDs of 64 bits. -/
structure ProgressRecord.Written (p : ProgressRecord) : Prop where
  ints : p.document.Ints
  ids : ∀ t ∈ p.events.players, t.steamid64 < 2 ^ 64

/-- What is read back: the map is at least the first one, no score is negative, and the counters are
those of a record that has them. -/
def ProgressRecord.reload (p : ProgressRecord) : ProgressRecord :=
  { toProgress := p.toProgress.reload
    statsJson := p.statsJson
    haveEvents := p.haveEvents
    events := if p.haveEvents then p.events else {} }

section Record

variable {p : ProgressRecord}

theorem get_stats (p : ProgressRecord) :
    get p.document "stats" = if p.statsJson = [] then none else some (.string p.statsJson) := by
  have hlookup :
      get p.document "stats" = (p.statsMembers ++ p.eventsMembers).lookup (ascii "stats") := rfl
  rw [hlookup, ProgressRecord.statsMembers, ProgressRecord.eventsMembers]
  split_ifs <;> rfl

theorem get_events (p : ProgressRecord) :
    get p.document "events" = if p.haveEvents then some p.events.document else none := by
  have hlookup :
      get p.document "events" = (p.statsMembers ++ p.eventsMembers).lookup (ascii "events") := rfl
  rw [hlookup, ProgressRecord.statsMembers, ProgressRecord.eventsMembers]
  split_ifs <;> rfl

theorem readProgress_document (h : p.Written) : readProgress p.document p.phase = p.reload := by
  have hint : ∀ k i d, p.members.lookup (ascii k) = some (.int i) → intField p.document k d = i :=
    fun k i d hk => intField_eq h.ints hk d
  have hstats : strField p.document "stats" = p.statsJson := by
    rw [strField, get_stats]
    split_ifs with hnone
    · exact hnone.symm
    · rfl
  rw [readProgress, hint "map_number" p.mapNumber 1 rfl, hint "series_team1" p.seriesTeam1 0 rfl,
    hint "series_team2" p.seriesTeam2 0 rfl, hstats, obj, get_events, ProgressRecord.reload]
  cases hhave : p.haveEvents with
  | false => rfl
  | true =>
    have hlookup : p.members.lookup (ascii "events") = some p.events.document :=
      (get_events p).trans (if_pos hhave)
    have hevents : p.events.document.Ints := h.ints.member (mem_of_lookup hlookup)
    have hobject : (some p.events.document).filter (·.isObject) = some p.events.document := rfl
    rw [if_pos rfl, hobject]
    dsimp only
    rw [readEvents_document h.ids hevents]
    rfl

theorem regular_totals (t : Totals) : t.document.Regular := by
  have hkeys : (keys (Totals.members {})).Nodup := by decide
  refine Json.regular_object hkeys ?_
  simp [Totals.members]

theorem regular_events (e : MatchEventsState) : e.document.Regular := by
  have hkeys : (keys (MatchEventsState.members {})).Nodup := by decide
  have hplayers : (Json.array (e.players.map Totals.document)).Regular :=
    Json.regular_map fun t _ => regular_totals t
  refine Json.regular_object hkeys ?_
  simp [MatchEventsState.members, hplayers]

theorem keys_record_sublist (p : ProgressRecord) :
    (keys p.members).Sublist
      (keys (ProgressRecord.members { statsJson := [0], haveEvents := true })) := by
  rw [ProgressRecord.members, ProgressRecord.statsMembers, ProgressRecord.eventsMembers]
  split_ifs <;> exact List.isSublist_iff_sublist.mp rfl

theorem regular_record (p : ProgressRecord) : p.document.Regular := by
  refine Json.regular_object ((keys_record_sublist p).nodup (by decide)) ?_
  rw [ProgressRecord.members, ProgressRecord.statsMembers, ProgressRecord.eventsMembers]
  split_ifs <;> simp [regular_events]

theorem depth_events (e : MatchEventsState) : e.document.depth ≤ 3 := by
  have hplayers : (Json.array (e.players.map Totals.document)).depth ≤ 2 :=
    Json.depth_array_le (List.forall_mem_map.mpr fun t _ => (le_rfl : t.document.depth + 1 ≤ 2))
  refine Json.depth_object_le ?_
  simp only [Json.depth] at hplayers
  simp [MatchEventsState.members, Json.depth]
  omega

theorem depth_record (p : ProgressRecord) : p.document.depth ≤ 64 := by
  have hevents := depth_events p.events
  refine Json.depth_object_le ?_
  rw [ProgressRecord.members, ProgressRecord.statsMembers, ProgressRecord.eventsMembers]
  split_ifs <;> simp [Json.depth]
  all_goals omega

/-- A record that is written is read back, but for what the reader corrects. -/
theorem progressFromJson_progressToJson (h : p.Written) :
    progressFromJson (progressToJson p) = some p.reload := by
  have hv : intField p.document "v" 0 = 1 := intField_eq h.ints rfl 0
  have hphase : strField p.document "phase" = p.phase.text := strField_eq rfl
  have hobject : p.document.isObject = true := rfl
  have hregular := regular_record p
  rw [progressFromJson, progressToJson,
    Json.parse_dump_eq hregular.2 h.ints.inRange hregular.1 (depth_record p), Option.bind_some,
    if_pos ⟨hobject, hv⟩, hphase, ProgressPhase.ofText_text, Option.map_some,
    readProgress_document h]

end Record

/-- Statistics and progress survive a restart. A record is read back as it was if its map is one of
the series and the counters are there with the flag that says so. -/
theorem saved_and_restored :
    (∀ m : Stats.MapStats, m.Saved → Stats.fromJson (Stats.toJson m) = some m) ∧
      ∀ p : ProgressRecord, p.Written → 0 ≤ p.seriesTeam1 → 0 ≤ p.seriesTeam2 → 1 ≤ p.mapNumber →
        (p.haveEvents = false → p.events = {}) → progressFromJson (progressToJson p) = some p := by
  refine ⟨fun m hm => Stats.fromJson_toJson hm, ?_⟩
  intro p hp hteam1 hteam2 hmap hevents
  rw [progressFromJson_progressToJson hp]
  have hprogress : p.toProgress.reload = p.toProgress := by
    rw [Progress.reload, max_eq_right hteam1, max_eq_right hteam2, max_eq_right hmap]
  rw [ProgressRecord.reload, hprogress]
  cases hhave : p.haveEvents with
  | false =>
    rw [if_neg (by decide), ← hevents hhave, ← hhave]
  | true =>
    rw [if_pos rfl, ← hhave]

/-- A live map with one player, whose name is no text, and a round without his economy. -/
theorem saved_and_restored_live :
    let line : Stats.PlayerLine :=
  { id := 76561198000000001, name := [34, 92, 255, 1], stats := { kills := 3 } }
    let round : Stats.RoundSummary :=
      { roundNumber := 1, players := [{ id := 76561198000000001, kills := 3 }] }
    let m : Stats.MapStats := { live := true, players := [line], rounds := [round] }
    let p : ProgressRecord :=
      { phase := .live, statsJson := Stats.toJson m, haveEvents := true,
        events := { players := [{ steamid64 := 76561198000000001, name := [255], kills := 3 }] } }
    Stats.fromJson (Stats.toJson m) = some m ∧ progressFromJson (progressToJson p) = some p := by
  intro line round m p
  have hm : m.Saved := ⟨by decide, by decide, by decide⟩
  have hp : p.Written := ⟨rfl, by decide⟩
  exact ⟨saved_and_restored.1 m hm,
    saved_and_restored.2 p hp (by decide) (by decide) (by decide) (fun h => by cases h)⟩

/-- Map 0 is read back as map 1. -/
theorem map_zero_restored_as_one :
    let p : ProgressRecord := { mapNumber := 0 }
    0 ≤ p.seriesTeam1 ∧ 0 ≤ p.seriesTeam2 ∧ p.Written ∧
      progressFromJson (progressToJson p) ≠ some p := by
  intro p
  have hp : p.Written := ⟨by decide, fun t ht => by cases ht⟩
  refine ⟨le_rfl, le_rfl, hp, ?_⟩
  rw [progressFromJson_progressToJson hp]
  decide

end RoundTrip

end ReadyUp.Match
