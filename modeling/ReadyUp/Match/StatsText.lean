import ReadyUp.Config.Minijson
import ReadyUp.Match.Stats

/-!
# The statistics as text

The statistics of a map are saved as JSON and read back after a restart. One list of names is
written and another one is read: what a field is saved as and what it is read as stand far apart.
-/
namespace ReadyUp.Stats

open Support JsonScan JsonGrammar Config Status

section Writer

/-- A digit of `%04X`. -/
def upperHexDigit (d : ℕ) : UInt8 := if d < 10 then digit d else (65 + (d - 10)).toUInt8

/-- One byte in `JsonEscape`. -/
def jsonEscapeByte (c : UInt8) : Bytes :=
  if c = byte '\\' then [byte '\\', byte '\\']
  else if c = byte '"' then [byte '\\', byte '"']
  else if c = 10 then [byte '\\', byte 'n']
  else if c = 13 then [byte '\\', byte 'r']
  else if c = 9 then [byte '\\', byte 't']
  else if c < 0x20 then
    [byte '\\', byte 'u', byte '0', byte '0', upperHexDigit (c.toNat / 16),
      upperHexDigit (c.toNat % 16)]
  else [c]

/-- `JsonEscape`, in quotes. -/
def jsonQuote (s : Bytes) : Bytes := byte '"' :: (s.flatMap jsonEscapeByte ++ [byte '"'])

def intArray (a : Vector ℤ 5) : Json := .array (a.toList.map .int)

/-- `TeamJson` -/
def TeamLine.document (t : TeamLine) : Json :=
  .object [(ascii "score", .int t.score), (ascii "score_ct", .int t.scoreCt),
    (ascii "score_t", .int t.scoreT)]

def PlayerStats.members (s : PlayerStats) : List (Bytes × Json) :=
  [(ascii "kills", .int s.kills),
    (ascii "deaths", .int s.deaths),
    (ascii "assists", .int s.assists),
    (ascii "flash_assists", .int s.flashAssists),
    (ascii "team_kills", .int s.teamKills),
    (ascii "suicides", .int s.suicides),
    (ascii "headshot_kills", .int s.headshotKills),
    (ascii "knife_kills", .int s.knifeKills),
    (ascii "damage", .int s.damage),
    (ascii "utility_damage", .int s.utilityDamage),
    (ascii "enemies_flashed", .int s.enemiesFlashed),
    (ascii "friendlies_flashed", .int s.friendliesFlashed),
    (ascii "bomb_plants", .int s.bombPlants),
    (ascii "bomb_defuses", .int s.bombDefuses),
    (ascii "entry_kills_t", .int s.entryKillsT),
    (ascii "entry_kills_ct", .int s.entryKillsCt),
    (ascii "entry_deaths_t", .int s.entryDeathsT),
    (ascii "entry_deaths_ct", .int s.entryDeathsCt),
    (ascii "trade_kills", .int s.tradeKills),
    (ascii "traded_deaths", .int s.tradedDeaths),
    (ascii "kast_rounds", .int s.kastRounds),
    (ascii "rounds_played", .int s.roundsPlayed),
    (ascii "mvp", .int s.mvp),
    (ascii "score", .int s.score),
    (ascii "multi_kills", intArray s.multiKills),
    (ascii "clutches_won", intArray s.clutchesWon)]

/-- `ToJson(PlayerStats)` -/
def PlayerStats.document (s : PlayerStats) : Json := .object s.members

namespace PlayerRound

variable (p : PlayerRound)

/-- Nothing is known of the player's money. -/
def Unread : Prop := p.moneyStart < 0 ∧ p.moneyAfterBuy < 0

instance : Decidable p.Unread := inferInstanceAs (Decidable (_ ∧ _))

def econMembers : List (Bytes × Json) :=
  [(ascii "money_start", .int p.moneyStart),
    (ascii "money_after_buy", .int p.moneyAfterBuy),
    (ascii "armor", .int p.armor),
    (ascii "helmet", .bool p.helmet),
    (ascii "defuser", .bool p.defuser),
    (ascii "loadout", .array (p.loadout.map .string))]

def econ : List (Bytes × Json) := if p.Unread then [] else p.econMembers

def playMembers : List (Bytes × Json) :=
  [(ascii "id", .string (decimal p.id)),
    (ascii "team", .int p.team),
    (ascii "side", .int p.side),
    (ascii "kills", .int p.kills),
    (ascii "assists", .int p.assists),
    (ascii "flash_assists", .int p.flashAssists),
    (ascii "damage", .int p.damage),
    (ascii "utility_damage", .int p.utilityDamage),
    (ascii "headshot_kills", .int p.headshotKills),
    (ascii "died", .bool p.died),
    (ascii "survived", .bool p.survived),
    (ascii "traded", .bool p.traded),
    (ascii "kast", .bool p.kast),
    (ascii "entry_kill", .bool p.entryKill),
    (ascii "entry_death", .bool p.entryDeath),
    (ascii "mvp", .bool p.mvp),
    (ascii "clutch_vs", .int p.clutchVs),
    (ascii "clutch_won", .bool p.clutchWon)]

def document : Json := .object (p.playMembers ++ p.econ)

/-- The round of a player of whose economy nothing was read. -/
def withoutEconomy : PlayerRound :=
  { p with moneyStart := -1, moneyAfterBuy := -1, armor := -1, helmet := false, defuser :=
    false, loadout := [] }

end PlayerRound

def RoundSummary.members (r : RoundSummary) : List (Bytes × Json) :=
  [(ascii "round_number", .int r.roundNumber),
    (ascii "winner_side", .int r.winnerSide),
    (ascii "winner_team", .int r.winnerTeam),
    (ascii "reason", .int r.reason),
    (ascii "team1_score", .int r.team1Score),
    (ascii "team2_score", .int r.team2Score),
    (ascii "team1_was_ct", .bool r.team1WasCt),
    (ascii "players", .array (r.players.map PlayerRound.document))]

/-- `ToJson(RoundSummary)` -/
def RoundSummary.document (r : RoundSummary) : Json := .object r.members

def PlayerLine.members (l : PlayerLine) : List (Bytes × Json) :=
  [(ascii "id", .string (decimal l.id)),
    (ascii "name", .string l.name),
    (ascii "team", .int l.team),
    (ascii "last_side", .int l.lastSide),
    (ascii "bot", .bool l.bot),
    (ascii "stats", l.stats.document)]

def PlayerLine.document (l : PlayerLine) : Json := .object l.members

def MapStats.members (m : MapStats) : List (Bytes × Json) :=
  [(ascii "live", .bool m.live),
    (ascii "team1_is_ct", .bool m.team1IsCt),
    (ascii "team1", m.team1.document),
    (ascii "team2", m.team2.document),
    (ascii "players", .array (m.players.map PlayerLine.document)),
    (ascii "rounds", .array (m.rounds.map RoundSummary.document))]

def MapStats.document (m : MapStats) : Json := .object m.members

/-- `ToJson(MapStats)` -/
def toJson (m : MapStats) : Bytes := m.document.textBy jsonQuote

end Writer

section Reader

open Minijson (Value)

def ji (o : Option Value) (k : String) : ℤ :=
  match o.bind (·.get k) with
  | some (.number d) => d.toInt32
  | _ => 0

def jb (o : Option Value) (k : String) : Bool :=
  match o.bind (·.get k) with
  | some (.bool b) => b
  | _ => false

def js (o : Option Value) (k : String) : Bytes :=
  match o.bind (·.get k) with
  | some (.string s) => s
  | _ => []

def jId (o : Option Value) : ℕ := strtoull (js o "id")

/-- `num`, which is zero in a value that is no number. -/
def num : Value → Binary64
  | .number d => d
  | _ => Binary64.ofInt 0

/-- The items of a member, none unless it is an array. -/
def jItems (o : Option Value) (k : String) : List Value :=
  match o.bind (·.get k) with
  | some (.array vs) => vs
  | _ => []

def ja (o : Option Value) (k : String) : Vector ℤ 5 :=
  Vector.ofFn fun i => ((jItems o k)[i.val]?).elim 0 fun v => (num v).toInt32

def jTeam (o : Option Value) : TeamLine :=
  { score := ji o "score", scoreCt := ji o "score_ct", scoreT := ji o "score_t" }

def jStats (o : Option Value) : PlayerStats :=
  { kills := ji o "kills"
    deaths := ji o "deaths"
    assists := ji o "assists"
    flashAssists := ji o "flash_assists"
    teamKills := ji o "team_kills"
    suicides := ji o "suicides"
    headshotKills := ji o "headshot_kills"
    knifeKills := ji o "knife_kills"
    damage := ji o "damage"
    utilityDamage := ji o "utility_damage"
    enemiesFlashed := ji o "enemies_flashed"
    friendliesFlashed := ji o "friendlies_flashed"
    bombPlants := ji o "bomb_plants"
    bombDefuses := ji o "bomb_defuses"
    entryKillsT := ji o "entry_kills_t"
    entryKillsCt := ji o "entry_kills_ct"
    entryDeathsT := ji o "entry_deaths_t"
    entryDeathsCt := ji o "entry_deaths_ct"
    tradeKills := ji o "trade_kills"
    tradedDeaths := ji o "traded_deaths"
    kastRounds := ji o "kast_rounds"
    roundsPlayed := ji o "rounds_played"
    mvp := ji o "mvp"
    score := ji o "score"
    multiKills := ja o "multi_kills"
    clutchesWon := ja o "clutches_won" }

def readPlayer (p : Value) : PlayerLine :=
  { id := jId (some p)
    name := js (some p) "name"
    team := ji (some p) "team"
    lastSide := ji (some p) "last_side"
    bot := jb (some p) "bot"
    stats := jStats (p.get "stats") }

/-- What a round says about a player, without the economy. -/
def readPlay (p : Value) : PlayerRound :=
  { id := jId (some p)
    team := ji (some p) "team"
    side := ji (some p) "side"
    kills := ji (some p) "kills"
    assists := ji (some p) "assists"
    flashAssists := ji (some p) "flash_assists"
    damage := ji (some p) "damage"
    utilityDamage := ji (some p) "utility_damage"
    headshotKills := ji (some p) "headshot_kills"
    died := jb (some p) "died"
    survived := jb (some p) "survived"
    traded := jb (some p) "traded"
    kast := jb (some p) "kast"
    entryKill := jb (some p) "entry_kill"
    entryDeath := jb (some p) "entry_death"
    mvp := jb (some p) "mvp"
    clutchVs := ji (some p) "clutch_vs"
    clutchWon := jb (some p) "clutch_won" }

def readPlayerRound (p : Value) : PlayerRound :=
  let x := readPlay p
  if (p.get "money_start").isSome then
    { x with
      moneyStart := ji (some p) "money_start"
      moneyAfterBuy := ji (some p) "money_after_buy"
      armor := ji (some p) "armor"
      helmet := jb (some p) "helmet"
      defuser := jb (some p) "defuser"
      loadout := (jItems (some p) "loadout").filterMap (·.asString) }
  else x

def readRound (r : Value) : RoundSummary :=
  { roundNumber := ji (some r) "round_number"
    winnerSide := ji (some r) "winner_side"
    winnerTeam := ji (some r) "winner_team"
    reason := ji (some r) "reason"
    team1Score := ji (some r) "team1_score"
    team2Score := ji (some r) "team2_score"
    team1WasCt := jb (some r) "team1_was_ct"
    players := (jItems (some r) "players").map readPlayerRound }

/-- A line without an id is left out. -/
def readMap (root : Value) : MapStats :=
  { live := jb (some root) "live"
    team1IsCt := jb (some root) "team1_is_ct"
    team1 := jTeam (root.get "team1")
    team2 := jTeam (root.get "team2")
    players := ((jItems (some root) "players").map readPlayer).filter (·.id ≠ 0)
    rounds := (jItems (some root) "rounds").map readRound }

def fromJson (json : Bytes) : Option MapStats :=
  ((Minijson.parse json).filter (·.isObject)).map readMap

end Reader

section Quotes

theorem quotes_jsonQuote : Minijson.dialect.Quotes jsonQuote := by
  have hupper : ∀ d < 16, hexValue (upperHexDigit d) = some d := by decide
  refine Minijson.quotes_flatMap fun c => ?_
  have simple : ∀ e, e ≠ byte 'u' → unescape e = some c →
      Escaped Minijson.escape (fun _ => true) c [byte '\\', e] := fun e he hc =>
    .inr ⟨_, rfl, fun s => Minijson.unescapes.simple e c s he hc⟩
  rw [jsonEscapeByte]
  split_ifs with hback hquote hline hreturn htab hcontrol
  · exact simple _ (by decide) (by rw [hback]; rfl)
  · exact simple _ (by decide) (by rw [hquote]; rfl)
  · exact simple _ (by decide) (by rw [hline]; rfl)
  · exact simple _ (by decide) (by rw [hreturn]; rfl)
  · exact simple _ (by decide) (by rw [htab]; rfl)
  · have hlt := UInt8.lt_iff_toNat_lt.mp hcontrol
    have h20 : (0x20 : UInt8).toNat = 32 := rfl
    refine .inr ⟨_, rfl, fun s => ?_⟩
    refine (congrArg (Option.map _) (hex4_digits hupper (by omega) s)).trans ?_
    rw [Option.map_some, if_pos (by omega)]
    simp
  · exact .inl ⟨rfl, hquote, hback, rfl⟩

end Quotes

section RoundTrip

open Minijson (Value ofPlain)

variable {ms : List (Bytes × Json)}

theorem get_ofPlain (ms : List (Bytes × Json)) (k : String) :
    (ofPlain (.object ms)).get k = (ms.lookup (ascii k)).map ofPlain := by
  rw [ofPlain, Minijson.ofPlainMembers_eq]
  exact lookup_map ofPlain ms (ascii k)

theorem get_eq {k : String} {v : Json} (h : ms.lookup (ascii k) = some v) :
    (ofPlain (.object ms)).get k = some (ofPlain v) := by
  rw [get_ofPlain, h, Option.map_some]

theorem ji_eq (hints : (Json.object ms).Ints) {k : String} {i : ℤ}
    (h : ms.lookup (ascii k) = some (.int i)) : ji (some (ofPlain (.object ms))) k = i := by
  have hi : InInt32 i := of_decide_eq_true (hints.member (mem_of_lookup h))
  rw [ji, Option.bind_some, get_eq h]
  exact Binary64.toInt32_ofInt hi

theorem jb_eq {k : String} {b : Bool} (h : ms.lookup (ascii k) = some (.bool b)) :
    jb (some (ofPlain (.object ms))) k = b := by
  rw [jb, Option.bind_some, get_eq h]
  rfl

theorem js_eq {k : String} {s : Bytes} (h : ms.lookup (ascii k) = some (.string s)) :
    js (some (ofPlain (.object ms))) k = s := by
  rw [js, Option.bind_some, get_eq h]
  rfl

theorem jId_eq {id : ℕ} (hid : id < 2 ^ 64)
    (h : ms.lookup (ascii "id") = some (.string (decimal id))) :
    jId (some (ofPlain (.object ms))) = id := by
  rw [jId, js_eq h, strtoull_digits (decimal_ne_nil id) (decimal_isDigit id), ofDigits_decimal]
  omega

theorem jItems_eq {k : String} {vs : List Json} (h : ms.lookup (ascii k) = some (.array vs)) :
    jItems (some (ofPlain (.object ms))) k = vs.map ofPlain := by
  rw [jItems, Option.bind_some, get_eq h, ofPlain, Minijson.ofPlainItems_eq]

theorem ja_eq (hints : (Json.object ms).Ints) {k : String} {a : Vector ℤ 5}
    (h : ms.lookup (ascii k) = some (intArray a)) : ja (some (ofPlain (.object ms))) k = a := by
  have hitems : (intArray a).Ints := hints.member (mem_of_lookup h)
  ext i hi
  have hmem : Json.int a[i] ∈ a.toList.map Json.int :=
    List.mem_map.mpr ⟨a[i], by simp, rfl⟩
  have hai : InInt32 a[i] := of_decide_eq_true (hitems.item hmem)
  rw [ja, jItems_eq h]
  simp [ofPlain, num, Binary64.toInt32_ofInt hai]

theorem map_read {α : Type*} {l : List α} {document : α → Json} {read : Value → α}
    (hints : (Json.array (l.map document)).Ints)
    (h : ∀ a ∈ l, (document a).Ints → read (ofPlain (document a)) = a) :
    ((l.map document).map ofPlain).map read = l := by
  rw [List.map_map, List.map_map]
  refine (List.map_congr_left fun a ha => ?_).trans (List.map_id _)
  exact h a ha (hints.item (List.mem_map_of_mem ha))

theorem jTeam_document {t : TeamLine} (hints : t.document.Ints) :
    jTeam (some (ofPlain t.document)) = t := by
  have hint : ∀ k i, t.document.members.lookup (ascii k) = some (.int i) →
      ji (some (ofPlain t.document)) k = i := fun k i => ji_eq hints
  rw [jTeam, hint "score" t.score rfl, hint "score_ct" t.scoreCt rfl, hint "score_t" t.scoreT rfl]

theorem jStats_document {s : PlayerStats} (hints : s.document.Ints) :
    jStats (some (ofPlain s.document)) = s := by
  have hint : ∀ k i, s.members.lookup (ascii k) = some (.int i) →
      ji (some (ofPlain s.document)) k = i := fun k i => ji_eq hints
  have harray : ∀ k a, s.members.lookup (ascii k) = some (intArray a) →
      ja (some (ofPlain s.document)) k = a := fun k a => ja_eq hints
  rw [jStats, hint "kills" s.kills rfl, hint "deaths" s.deaths rfl, hint "assists" s.assists rfl,
    hint "flash_assists" s.flashAssists rfl, hint "team_kills" s.teamKills rfl,
    hint "suicides" s.suicides rfl, hint "headshot_kills" s.headshotKills rfl,
    hint "knife_kills" s.knifeKills rfl, hint "damage" s.damage rfl,
    hint "utility_damage" s.utilityDamage rfl, hint "enemies_flashed" s.enemiesFlashed rfl,
    hint "friendlies_flashed" s.friendliesFlashed rfl, hint "bomb_plants" s.bombPlants rfl,
    hint "bomb_defuses" s.bombDefuses rfl, hint "entry_kills_t" s.entryKillsT rfl,
    hint "entry_kills_ct" s.entryKillsCt rfl, hint "entry_deaths_t" s.entryDeathsT rfl,
    hint "entry_deaths_ct" s.entryDeathsCt rfl, hint "trade_kills" s.tradeKills rfl,
    hint "traded_deaths" s.tradedDeaths rfl, hint "kast_rounds" s.kastRounds rfl,
    hint "rounds_played" s.roundsPlayed rfl, hint "mvp" s.mvp rfl, hint "score" s.score rfl,
    harray "multi_kills" s.multiKills rfl, harray "clutches_won" s.clutchesWon rfl]

theorem readPlayer_document {l : PlayerLine} (hid : l.id < 2 ^ 64) (hints : l.document.Ints) :
    readPlayer (ofPlain l.document) = l := by
  have hint : ∀ k i, l.members.lookup (ascii k) = some (.int i) →
      ji (some (ofPlain l.document)) k = i := fun k i => ji_eq hints
  have hstats : (ofPlain l.document).get "stats" = some (ofPlain l.stats.document) := get_eq rfl
  have hbot : jb (some (ofPlain l.document)) "bot" = l.bot := jb_eq rfl
  have hname : js (some (ofPlain l.document)) "name" = l.name := js_eq rfl
  have hread : jId (some (ofPlain l.document)) = l.id := jId_eq hid rfl
  rw [readPlayer, hread, hname, hbot, hstats, hint "team" l.team rfl,
    hint "last_side" l.lastSide rfl,
    jStats_document (hints.member (mem_of_lookup (k := ascii "stats") rfl))]

section Round

variable {p : PlayerRound}

theorem readPlay_document (hid : p.id < 2 ^ 64) (hints : p.document.Ints) :
    readPlay (ofPlain p.document) = p.withoutEconomy := by
  have hint : ∀ k i, (p.playMembers ++ p.econ).lookup (ascii k) = some (.int i) →
      ji (some (ofPlain p.document)) k = i := fun k i => ji_eq hints
  have hbool : ∀ k b, (p.playMembers ++ p.econ).lookup (ascii k) = some (.bool b) →
      jb (some (ofPlain p.document)) k = b := fun k b => jb_eq
  have hread : jId (some (ofPlain p.document)) = p.id := jId_eq hid rfl
  rw [readPlay, hread, hint "team" p.team rfl, hint "side" p.side rfl, hint "kills" p.kills rfl,
    hint "assists" p.assists rfl, hint "flash_assists" p.flashAssists rfl,
    hint "damage" p.damage rfl, hint "utility_damage" p.utilityDamage rfl,
    hint "headshot_kills" p.headshotKills rfl, hbool "died" p.died rfl,
    hbool "survived" p.survived rfl, hbool "traded" p.traded rfl,
    hbool "kast" p.kast rfl, hbool "entry_kill"
    p.entryKill rfl, hbool "entry_death" p.entryDeath rfl,
    hbool "mvp" p.mvp rfl, hint "clutch_vs" p.clutchVs rfl, hbool "clutch_won" p.clutchWon rfl]
  rfl

theorem readPlayerRound_document (hid : p.id < 2 ^ 64) (hints : p.document.Ints)
    (hecon : p.Unread → p.withoutEconomy = p) : readPlayerRound (ofPlain p.document) = p := by
  have hplay := readPlay_document hid hints
  rw [readPlayerRound, hplay]
  by_cases hunread : p.Unread
  · have hnone : (ofPlain p.document).get "money_start" = none := by
      rw [PlayerRound.document, get_ofPlain, PlayerRound.econ, if_pos hunread]
      rfl
    rw [hnone]
    exact hecon hunread
  · have hdoc : p.document = .object (p.playMembers ++ p.econMembers) := by
      rw [PlayerRound.document, PlayerRound.econ, if_neg hunread]
    rw [hdoc] at hints ⊢
    have hint : ∀ k i, (p.playMembers ++ p.econMembers).lookup (ascii k) = some (.int i) →
        ji (some (ofPlain (.object (p.playMembers ++ p.econMembers)))) k = i :=
          fun k i => ji_eq hints
    have hsome : (ofPlain (.object (p.playMembers ++ p.econMembers))).get "money_start" =
        some (ofPlain (.int p.moneyStart)) := get_eq rfl
    have hhelmet :
        jb (some (ofPlain (.object (p.playMembers ++ p.econMembers)))) "helmet" = p.helmet :=
      jb_eq rfl
    have hdefuser :
        jb (some (ofPlain (.object (p.playMembers ++ p.econMembers)))) "defuser" = p.defuser :=
      jb_eq rfl
    have hloadout : jItems (some (ofPlain (.object (p.playMembers ++ p.econMembers)))) "loadout" =
        (p.loadout.map Json.string).map ofPlain := jItems_eq rfl
    have hitems : ((p.loadout.map Json.string).map ofPlain).filterMap (·.asString) = p.loadout := by
      rw [List.map_map, List.filterMap_map]
      exact List.filterMap_some
    rw [hsome, hint "money_start" p.moneyStart rfl, hint "money_after_buy" p.moneyAfterBuy rfl,
      hint "armor" p.armor rfl, hhelmet, hdefuser, hloadout, hitems]
    rfl

end Round

theorem readRound_document {r : RoundSummary} (hints : r.document.Ints)
    (hplayers : ∀ p ∈ r.players, p.id < 2 ^ 64 ∧ (p.Unread → p.withoutEconomy = p)) :
    readRound (ofPlain r.document) = r := by
  have hint : ∀ k i, r.members.lookup (ascii k) = some (.int i) →
      ji (some (ofPlain r.document)) k = i := fun k i => ji_eq hints
  have hct : jb (some (ofPlain r.document)) "team1_was_ct" = r.team1WasCt := jb_eq rfl
  have hitems : jItems (some (ofPlain r.document)) "players" =
      (r.players.map PlayerRound.document).map ofPlain := jItems_eq rfl
  have hread : ((r.players.map PlayerRound.document).map ofPlain).map readPlayerRound = r.players :=
    map_read (hints.member (mem_of_lookup (k := ascii "players") rfl)) fun p hp hp' =>
      readPlayerRound_document (hplayers p hp).1 hp' (hplayers p hp).2
  rw [readRound, hint "round_number" r.roundNumber rfl, hint "winner_side" r.winnerSide rfl,
    hint "winner_team" r.winnerTeam rfl, hint "reason" r.reason rfl,
    hint "team1_score" r.team1Score rfl, hint "team2_score" r.team2Score rfl, hct, hitems, hread]

/-- What is saved faithfully: lines have ids, and an economy is there when money is known. -/
structure MapStats.Saved (m : MapStats) : Prop where
  ints : m.document.Ints
  ids : ∀ l ∈ m.players, 0 < l.id ∧ l.id < 2 ^ 64
  rounds : ∀ r ∈ m.rounds, ∀ p ∈ r.players, p.id < 2 ^ 64 ∧ (p.Unread → p.withoutEconomy = p)

theorem readMap_document {m : MapStats} (h : m.Saved) : readMap (ofPlain m.document) = m := by
  have hlive : jb (some (ofPlain m.document)) "live" = m.live := jb_eq rfl
  have hct : jb (some (ofPlain m.document)) "team1_is_ct" = m.team1IsCt := jb_eq rfl
  have hteam1 : (ofPlain m.document).get "team1" = some (ofPlain m.team1.document) := get_eq rfl
  have hteam2 : (ofPlain m.document).get "team2" = some (ofPlain m.team2.document) := get_eq rfl
  have hlines : jItems (some (ofPlain m.document)) "players" =
      (m.players.map PlayerLine.document).map ofPlain := jItems_eq rfl
  have hrounds : jItems (some (ofPlain m.document)) "rounds" =
      (m.rounds.map RoundSummary.document).map ofPlain := jItems_eq rfl
  have hplayers :
      (((m.players.map PlayerLine.document).map ofPlain).map readPlayer).filter (·.id ≠ 0) =
      m.players := by
    rw [map_read (h.ints.member (mem_of_lookup (k := ascii "players") rfl)) fun l hl =>
      readPlayer_document (h.ids l hl).2, List.filter_eq_self]
    exact fun l hl => decide_eq_true (h.ids l hl).1.ne'
  have hround : ((m.rounds.map RoundSummary.document).map ofPlain).map readRound = m.rounds :=
    map_read (h.ints.member (mem_of_lookup (k := ascii "rounds") rfl)) fun r hr hr' =>
      readRound_document hr' (h.rounds r hr)
  rw [readMap, hlive, hct, hteam1, hteam2, hlines, hplayers, hrounds, hround,
    jTeam_document (h.ints.member (mem_of_lookup (k := ascii "team1") rfl)),
    jTeam_document (h.ints.member (mem_of_lookup (k := ascii "team2") rfl))]

section Shape

theorem regular_intArray (a : Vector ℤ 5) : (intArray a).Regular :=
  Json.regular_map fun i _ => Json.regular_int i

theorem regular_team (t : TeamLine) : t.document.Regular := by
  have hkeys : (keys (TeamLine.document {}).members).Nodup := by decide
  refine Json.regular_object hkeys ?_
  simp

theorem regular_stats (s : PlayerStats) : s.document.Regular := by
  have hkeys : (keys (PlayerStats.members {})).Nodup := by decide
  refine Json.regular_object hkeys ?_
  simp [PlayerStats.members, regular_intArray]

theorem regular_playerRound (p : PlayerRound) : p.document.Regular := by
  have hloadout : (Json.array (p.loadout.map .string)).Regular :=
    Json.regular_map fun s _ => Json.regular_string s
  rw [PlayerRound.document, PlayerRound.econ]
  split_ifs
  · have hkeys : (keys (PlayerRound.playMembers {})).Nodup := by decide
    refine Json.regular_object hkeys ?_
    simp [PlayerRound.playMembers]
  · have hkeys :
        (keys (PlayerRound.playMembers {} ++ PlayerRound.econMembers {})).Nodup := by decide
    refine Json.regular_object hkeys ?_
    simp [PlayerRound.playMembers, PlayerRound.econMembers, hloadout]

theorem regular_round (r : RoundSummary) : r.document.Regular := by
  have hkeys : (keys (RoundSummary.members {})).Nodup := by decide
  have hplayers : (Json.array (r.players.map PlayerRound.document)).Regular :=
    Json.regular_map fun p _ => regular_playerRound p
  refine Json.regular_object hkeys ?_
  simp [RoundSummary.members, hplayers]

theorem regular_player (l : PlayerLine) : l.document.Regular := by
  have hkeys : (keys (PlayerLine.members {})).Nodup := by decide
  refine Json.regular_object hkeys ?_
  simp [PlayerLine.members, regular_stats]

theorem regular_map (m : MapStats) : m.document.Regular := by
  have hkeys : (keys (MapStats.members {})).Nodup := by decide
  have hplayers : (Json.array (m.players.map PlayerLine.document)).Regular :=
    Json.regular_map fun l _ => regular_player l
  have hrounds : (Json.array (m.rounds.map RoundSummary.document)).Regular :=
    Json.regular_map fun r _ => regular_round r
  refine Json.regular_object hkeys ?_
  simp [MapStats.members, regular_team, hplayers, hrounds]

end Shape

theorem fromJson_toJson {m : MapStats} (h : m.Saved) : fromJson (toJson m) = some m := by
  have hobject : (ofPlain m.document).isObject = true := rfl
  rw [fromJson, toJson, Minijson.parse_plain quotes_jsonQuote ((regular_map m).plain h.ints),
    Option.filter_some, if_pos hobject, Option.map_some, readMap_document h]

end RoundTrip

end ReadyUp.Stats
