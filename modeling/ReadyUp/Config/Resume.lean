import ReadyUp.Config.Assign
import ReadyUp.Config.Codecs
import ReadyUp.Config.Context

/-!
# Failover resumes

The platform resumes a match on another server. `parseResume` reads what it sends with the
assignment into a plan, and `resumeToJson` and `resumeFromJson` keep the plan over a reload of the
plugin.

The scores and the round are read as 64-bit integers and kept in ints. `parseResumeBy` is the reader
over the conversion.
-/
namespace ReadyUp.Config.Resume

open Support Status Assign Codecs

/-- `ResumeMapResult` -/
structure MapResult where
  mapNumber : ℤ
  team1 : ℤ
  team2 : ℤ
  winner : Bytes
  deriving DecidableEq

structure ResumePlan where
  present : Bool := false
  fromEpoch : ℤ := 0
  mapNumber : ℤ := 1
  round : ℤ := 0
  inlineBackup : Bool := false
  file : Bytes := []
  raw : Bytes := []
  sha256 : Bytes := []
  seriesTeam1 : ℤ := 0
  seriesTeam2 : ℤ := 0
  mapsDone : List MapResult := []
  sides : Bytes := []
  scoreTeam1 : ℤ := -1
  scoreTeam2 : ℤ := -1
  team1Side : Bytes := []
  mapStats : Json := .null
  pauseAfterRestore : Bool := true

/-- The code and the line of a refusal. -/
abbrev Refusal := Bytes × Bytes

def refusal (code why : String) : Refusal := (ascii code, ascii "resume: " ++ ascii why)

section Parts

def isSha256Hex (s : Bytes) : Bool :=
  s.length == 64 && s.all fun c => isDigit c || (byte 'a' ≤ c && c ≤ byte 'f')

def safeBackupFileName (name : Bytes) : Bool :=
  5 ≤ name.length && name.length ≤ 128 && name.drop (name.length - 4) == ascii ".txt" &&
    name.head? != some (byte '.') &&
    name.all fun c => isAlnum c || c == byte '_' || c == byte '-' || c == byte '.'

/-- `std::atoi` of the C library in use: the number that `strtol` reads, cut to an int. -/
def atoi (s : Bytes) : ℤ :=
  let (neg, ds) := intPrefix s
  let n : ℤ := if neg then -(ofDigits ds : ℤ) else ofDigits ds
  toInt32 (max (-2 ^ 63) (min n (2 ^ 63 - 1)))

/-- The integers of a pair of scores. -/
def scoreInts (o : Option Json) : Option (ℤ × ℤ) :=
  (o.filter (·.isObject)).bind fun o =>
    match get o "team1", get o "team2" with
    | some (.int a), some (.int b) => if 0 ≤ a ∧ 0 ≤ b then some (a, b) else none
    | _, _ => none

def scorePair (narrow : ℤ → ℤ) (o : Option Json) : Option (ℤ × ℤ) :=
  (scoreInts o).map (Prod.map narrow narrow)

def pathObj : Option Json → List String → Option Json
  | o, [] => o.filter (·.isObject)
  | o, key :: keys => pathObj ((o.filter (·.isObject)).bind (get · key)) keys

/-- The epoch that is resumed, 0 for none. -/
def resumeEpoch (resume : Json) (epoch : ℤ) : Except Refusal ℤ :=
  match get resume "from_epoch" with
  | none => .ok 0
  | some (.int e) => do
    check (1 ≤ e) (refusal "invalid_config" "from_epoch must be an integer >= 1")
    check (!(0 < epoch && epoch ≤ e))
      (refusal "invalid_config" "from_epoch must be lower than epoch")
    .ok e
  | some _ => .error (refusal "invalid_config" "from_epoch must be an integer >= 1")

/-- How many maps the series may have. -/
def mapCount (config : Json) : ℤ :=
  min (int config "num_maps" 1) ((arr config "maps").elim 0 fun ms => ms.length)

def resumeMap (resume config : Json) : Except Refusal ℤ :=
  match get resume "map_number" with
  | some (.int n) => do
    check (1 ≤ n && n ≤ mapCount config) (refusal "invalid_config" "map_number must be 1..num_maps")
    .ok n
  | _ => .error (refusal "invalid_config" "map_number must be 1..num_maps")

/-- The backup to load, and the round it is said to be of. -/
structure Backup where
  inlined : Bool := false
  file : Bytes := []
  raw : Bytes := []
  sha256 : Bytes := []
  round : ℤ
  score : Option Json := none

/-- The round of the resume itself, -1 for none. -/
def statedRound (resume : Json) : Except Refusal ℤ :=
  match get resume "round" with
  | none => .ok (-1)
  | some (.int r) => do
    check (0 ≤ r && r ≤ 999) (refusal "invalid_config" "round must be 0..999")
    .ok r
  | some _ => .error (refusal "invalid_config" "round must be 0..999")

/-- A backup that comes with the resume. -/
def inlineBackup (b : Json) (mapNumber round : ℤ) : Except Refusal Backup := do
  check (int b "parts" 1 ≤ 1)
    (refusal "unsupported"
      "multi-part inline backups are not accepted; send the whole file as one part")
  let file := str b "file" []
  check (safeBackupFileName file) (refusal "invalid_config" "backup.file is not a plain *.txt name")
  match if str b "encoding" (ascii "base64") = ascii "base64" then
    base64Decode (str b "data" []) else none with
  | none => .error (refusal "invalid_config" "backup.data is not base64")
  | some raw =>
    check (raw ≠ []) (refusal "invalid_config" "backup.data is not base64")
    check (sha256Hex raw == str b "sha256" []) (refusal "checksum" "backup sha256 mismatch")
    check (int b "size" raw.length == raw.length) (refusal "checksum" "backup size mismatch")
    check (int b "map_number" mapNumber == mapNumber)
      (refusal "invalid_config" "backup.map_number is not map_number")
    let br := int b "round" 0
    check (1 ≤ br) (refusal "invalid_config" "backup.round must be >= 1")
    check (!(0 ≤ round && round != br)) (refusal "invalid_config" "round is not backup.round")
    .ok { inlined := true, file, raw, sha256 := sha256Hex raw, round := br, score := get b "score" }

def backupRef (ref : Json) (round : ℤ) : Except Refusal Backup := do
  let file := str ref "file" []
  check (file = [] || safeBackupFileName file)
    (refusal "invalid_config" "backup_ref.file is not a plain *.txt name")
  let sha256 := str ref "sha256" []
  check (sha256 = [] || isSha256Hex sha256)
    (refusal "invalid_config" "backup_ref.sha256 is not a sha256")
  check (1 ≤ round) (refusal "invalid_config" "backup_ref needs round >= 1")
  .ok { file, sha256, round }

def resumeBackup (resume : Json) (mapNumber : ℤ) : Except Refusal Backup := do
  let backup := obj resume "backup"
  let ref := obj resume "backup_ref"
  check ((get resume "backup").all (·.isObject))
    (refusal "invalid_config" "backup must be an InlineBackup object")
  check ((get resume "backup_ref").all (·.isObject))
    (refusal "invalid_config" "backup_ref must be an object")
  check (!(backup.isSome && ref.isSome))
    (refusal "invalid_config" "backup and backup_ref exclude each other")
  let round ← statedRound resume
  match backup, ref with
  | some b, _ => inlineBackup b mapNumber round
  | none, some r => backupRef r round
  | none, none => .ok { round }

/-- Where the maps won so far are found. -/
def seriesSource (resume : Json) : Option Json :=
  (get resume "series_score").or (pathObj (obj resume "state") ["series", "score"])

def resumeSeries (narrow : ℤ → ℤ) (resume : Json) : Except Refusal (ℤ × ℤ) :=
  match seriesSource resume with
  | none => .ok (0, 0)
  | some o =>
    match scorePair narrow (some o) with
    | some ab => .ok ab
    | none =>
      .error (refusal "invalid_config" "series_score must be {team1, team2} (integers >= 0)")

/-- The members that are results of maps before the one that is resumed. -/
def mapsBefore (resume : Json) (mapNumber : ℤ) : List (Bytes × Json) :=
  let counts := fun kv : Bytes × Json => 1 ≤ atoi kv.1 && atoi kv.1 < mapNumber && kv.2.isObject
  match obj resume "maps" with
  | some done => done.members.filter counts
  | none =>
    match pathObj (obj resume "state") ["series", "maps"] with
    | some done => done.members.filter fun kv => counts kv && str kv.2 "status" [] == ascii "done"
    | none => []

def isWinner (winner : Bytes) : Bool :=
  winner == ascii "team1" || winner == ascii "team2" || winner == ascii "none"

def mapResult (narrow : ℤ → ℤ) (kv : Bytes × Json) : Except Refusal MapResult := do
  let score := (scorePair narrow (get kv.2 "score")).getD (0, 0)
  let winner := str kv.2 "winner"
    (if score.2 < score.1 then ascii "team1" else if score.1 < score.2 then
      ascii "team2" else ascii "none")
  check (isWinner winner) (ascii "invalid_config", ascii "resume: bad winner for map " ++ kv.1)
  .ok { mapNumber := atoi kv.1, team1 := score.1, team2 := score.2, winner }

/-- The starting sides of a map of the configuration. -/
def configSides (config : Json) (mapNumber : ℤ) : Bytes :=
  match arr config "maps" with
  | some ms => str (ms.getD (mapNumber - 1).toNat .null) "sides" (ascii "knife")
  | none => ascii "knife"

/-- The starting sides that the resume sets, none for those of the configuration. -/
def resumeSides (resume config : Json) (mapNumber round : ℤ) : Except Refusal Bytes := do
  let sides := str resume "sides" []
  let sides :=
    if sides = [] then
      match pathObj (obj resume "state") ["series", "maps"] with
      | some ms =>
        match (ms.find (toDecimal mapNumber)).filter (·.isObject) with
        | some m => str m "sides" []
        | none => []
      | none => []
    else sides
  let sides := if sides = ascii "knife" then [] else sides
  check (sides = [] || sides == ascii "team1_ct" || sides == ascii "team2_ct")
    (refusal "invalid_config" "sides must be team1_ct or team2_ct")
  check (!(1 ≤ round && sides = [] && configSides config mapNumber == ascii "knife"))
    (refusal "invalid_config"
      "the resumed map's sides are still \"knife\": send the sides the knife round decided")
  .ok sides

/-- The integers of the score of the state. -/
def stateInts (resume : Json) : Option (ℤ × ℤ) :=
  match (pathObj (obj resume "state") ["teams", "team1"]).bind (get · "score"),
    (pathObj (obj resume "state") ["teams", "team2"]).bind (get · "score") with
  | some (.int a), some (.int b) => some (a, b)
  | _, _ => none

/-- The score at the start of the round. -/
def resumeScore (narrow : ℤ → ℤ) (resume : Json) (backup : Backup) : Except Refusal (ℤ × ℤ) :=
  match get resume "score" with
  | some sc =>
    match scorePair narrow (some sc) with
    | some ab => .ok ab
    | none => .error (refusal "invalid_config" "score must be {team1, team2}")
  | none =>
    let base := (scorePair narrow backup.score).getD (-1, -1)
    if base.1 < 0 then .ok (((stateInts resume).map (Prod.map narrow narrow)).getD base)
    else .ok base

def resumeSide (resume : Json) : Bytes :=
  match pathObj (obj resume "state") ["teams", "team1"] with
  | some t =>
    let side := str t "side" []
    if side = ascii "ct" ∨ side = ascii "t" then side else []
  | none => []

def resumeStats (resume : Json) : Except Refusal Json :=
  match get resume "map_stats" with
  | none => .ok .null
  | some ms =>
    if ms.isObject then .ok ms
    else .error (refusal "invalid_config" "map_stats must be a MapStats object")

def pauseAfter (config : Json) : Bool :=
  match pathObj (some config) ["rules", "pause"] with
  | some pz => bool pz "pause_after_restore" true
  | none => true

end Parts

/-- `ParseResume` over the conversion of its integers. -/
def parseResumeBy (narrow : ℤ → ℤ) (resume config : Json) (epoch : ℤ) :
    Except Refusal ResumePlan := do
  check resume.isObject (refusal "invalid_config" "must be an object")
  let fromEpoch ← resumeEpoch resume epoch
  let n ← resumeMap resume config
  let mapNumber := narrow n
  check ((get resume "state").all (·.isObject))
    (refusal "invalid_config" "state must be a MatchState object")
  let backup ← resumeBackup resume mapNumber
  let round := narrow (max 0 backup.round)
  let series ← resumeSeries narrow resume
  let mapsDone ← collect (mapResult narrow) (mapsBefore resume mapNumber)
  let sides ← resumeSides resume config mapNumber round
  let score ← resumeScore narrow resume backup
  let mapStats ← resumeStats resume
  .ok {
    present := true
    fromEpoch, mapNumber, round
    inlineBackup := backup.inlined
    file := backup.file
    raw := backup.raw
    sha256 := backup.sha256
    seriesTeam1 := series.1
    seriesTeam2 := series.2
    mapsDone, sides
    scoreTeam1 := score.1
    scoreTeam2 := score.2
    team1Side := resumeSide resume
    mapStats
    pauseAfterRestore := pauseAfter config }

def parseResume (resume config : Json) (epoch : ℤ) : Except Refusal ResumePlan :=
  parseResumeBy toInt32 resume config epoch

section Kept

def mapResultToJson (m : MapResult) : Json :=
  ofFields [("map_number", some (.int m.mapNumber)), ("team1", some (.int m.team1)),
    ("team2", some (.int m.team2)), ("winner", some (.string m.winner))]

def resumeToJson (p : ResumePlan) : Json :=
  ofFields [("present", some (.bool p.present)), ("from_epoch", some (.int p.fromEpoch)),
    ("map_number", some (.int p.mapNumber)), ("round", some (.int p.round)),
    ("inline_backup", some (.bool p.inlineBackup)), ("file", some (.string p.file)),
    ("sha256", some (.string p.sha256)), ("series_team1", some (.int p.seriesTeam1)),
    ("series_team2", some (.int p.seriesTeam2)),
    ("maps_done", some (.array (p.mapsDone.map mapResultToJson))),
    ("sides", some (.string p.sides)), ("score_team1", some (.int p.scoreTeam1)),
    ("score_team2", some (.int p.scoreTeam2)), ("team1_side", some (.string p.team1Side)),
    ("map_stats", some p.mapStats), ("pause_after_restore", some (.bool p.pauseAfterRestore))]

def mapResultFromJson (m : Json) : MapResult where
  mapNumber := toInt32 (int m "map_number" 0)
  team1 := toInt32 (int m "team1" 0)
  team2 := toInt32 (int m "team2" 0)
  winner := str m "winner" (ascii "none")

def resumeFromJson (j : Json) : ResumePlan :=
  if j.isObject then {
    present := bool j "present" false
    fromEpoch := int j "from_epoch" 0
    mapNumber := toInt32 (int j "map_number" 1)
    round := toInt32 (int j "round" 0)
    inlineBackup := bool j "inline_backup" false
    file := str j "file" []
    sha256 := str j "sha256" []
    seriesTeam1 := toInt32 (int j "series_team1" 0)
    seriesTeam2 := toInt32 (int j "series_team2" 0)
    mapsDone := ((arr j "maps_done").getD []).map mapResultFromJson
    sides := str j "sides" []
    scoreTeam1 := toInt32 (int j "score_team1" (-1))
    scoreTeam2 := toInt32 (int j "score_team2" (-1))
    team1Side := str j "team1_side" []
    mapStats := (obj j "map_stats").getD .null
    pauseAfterRestore := bool j "pause_after_restore" true }
  else {}

end Kept

end ReadyUp.Config.Resume
