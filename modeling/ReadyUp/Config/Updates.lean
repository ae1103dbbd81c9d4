import ReadyUp.Config.Assign
import ReadyUp.Status.MergePatch

/-!
# Updates of an assignment

The platform edits the configuration of a running match with a list of operations. `applyUpdateOps`
works on a copy and hands it back only when every operation was accepted.

No operation but `set_rules` is followed by a check of the whole configuration, and that one only
checks the ruleset. So an accepted update may leave a configuration that `validateAssign` refuses:
with more than 32 players in a team, or with rules whose `bot_fill` or `broadcast` it does not take
(`update_valid_iff`).
-/
namespace ReadyUp.Config.Assign

open Support Status

section Ops

/-- `c[key] = value` -/
def put (c : Json) (key : String) (value : Json) : Json := c.set (ascii key) value

/-- `c[key]` before it is written to: a null when it is missing. -/
def slot (c : Json) (key : String) : Json := (get c key).getD .null

def push (v x : Json) : Json := .array (items v ++ [x])

/-- The player of a roster list with the id. -/
def isPlayer (sid : Bytes) (p : Json) : Bool := (get p "steamid64").any fun s => asString s == sid

/-- A team without the player, and whether it had one. -/
def removeFromTeam (sid : Bytes) (c : Json × Bool) (team : String) : Json × Bool :=
  match obj c.1 team with
  | none => c
  | some t =>
    match arr t "players" with
    | none => c
    | some ps =>
      (put c.1 team (put t "players" (.array (ps.filter fun p => !isPlayer sid p))), c.2 ||
        ps.any (isPlayer sid))

def removeEverywhere (config : Json) (sid : Bytes) : Json × Bool :=
  let c := removeFromTeam sid (removeFromTeam sid (config, false) "team1") "team2"
  match arr c.1 "spectators" with
  | none => c
  | some ss =>
    (put c.1 "spectators" (.array (ss.filter fun s => asString s != sid)), c.2 || ss.any fun s =>
      asString s == sid)

def isTeam (team : Bytes) : Bool := team == ascii "team1" || team == ascii "team2"

def teamKey (team : Bytes) : String := if team = ascii "team1" then "team1" else "team2"

/-- The player that `add_player` puts into a team. -/
def newPlayer (sid name role : Bytes) : Json :=
  put (put (put (.object []) "steamid64" (.string sid)) "name" (.string name)) "role" (.string role)

/-- The id of an operation that names a player. -/
def opPlayer (op : Json) (why : String) : Except Bytes Bytes :=
  match get op "steamid64" with
  | some (.string s) => if isDigits s 20 then .ok s else .error (ascii why)
  | _ => .error (ascii why)

def addPlayer (c op : Json) : Except Bytes Json := do
  let sid ← opPlayer op "add_player: bad steamid64"
  let team := str op "team" []
  let role := str op "role" (ascii "player")
  check (isRole role) (ascii "add_player: bad role")
  let c := (removeEverywhere c sid).1
  if team = ascii "spectator" then
    .ok (put c "spectators" (push ((get c "spectators").getD (.array [])) (.string sid)))
  else if isTeam team then
    let t := slot c (teamKey team)
    .ok (put c (teamKey team) (put t "players"
      (push ((get t "players").getD (.array [])) (newPlayer sid (str op "name" []) role))))
  else .error (ascii "add_player: team must be team1, team2 or spectator")

def removePlayer (c op : Json) : Except Bytes Json := do
  let sid ← opPlayer op "remove_player: bad steamid64"
  let r := removeEverywhere c sid
  check r.2 (ascii "remove_player: " ++ sid ++ ascii " is not in the match")
  .ok r.1

def renameTeam (c op : Json) : Except Bytes Json := do
  let team := str op "team" []
  let name := str op "name" []
  check (isTeam team) (ascii "rename_team: team must be team1 or team2")
  check (name ≠ [] && name.length ≤ 64) (ascii "rename_team: name must be 1..64 bytes")
  .ok (put c (teamKey team) (put (slot c (teamKey team)) "name" (.string name)))

def setPassword (c op : Json) : Except Bytes Json :=
  match get op "password" with
  | some (.string p) =>
    if validPassword p then .ok (put c "password" (.string p))
    else .error (ascii "set_password: bad password")
  | _ => .error (ascii "set_password: bad password")

/-- The language of a player of a team. -/
def languageIn (sid language : Bytes) (c : Json) (team : String) : Json :=
  match obj c team with
  | none => c
  | some t =>
    match arr t "players" with
    | none => c
    | some ps =>
      put c team (put t "players" (.array (ps.map fun p =>
        if str p "steamid64" [] = sid then put p "language" (.string language) else p)))

def setLanguage (c op : Json) : Except Bytes Json := do
  let sid ← opPlayer op "set_language: bad steamid64"
  let language := str op "language" []
  check (language ≠ [] && language.length ≤ 16) (ascii "set_language: bad language")
  .ok (languageIn sid language (languageIn sid language c "team1") "team2")

/-- `set_rules` under the server's own ruleset. -/
def setRules (server : Ruleset) (c op : Json) : Except Bytes Json :=
  match obj op "rules" with
  | none => .error (ascii "set_rules: rules must be an object")
  | some r =>
    let c := put c "rules" (mergePatchApply ((get c "rules").getD (.object [])) r)
    validateRuleset server c >>= fun _ => .ok c

/-- One operation: the configuration, and whether the password was set. -/
def applyOp (server : Ruleset) (s : Json × Bool) (op : Json) : Except Bytes (Json × Bool) :=
  let kind := str op "op" []
  if kind = ascii "add_player" then (addPlayer s.1 op).map fun c => (c, s.2)
  else if kind = ascii "remove_player" then (removePlayer s.1 op).map fun c => (c, s.2)
  else if kind = ascii "rename_team" then (renameTeam s.1 op).map fun c => (c, s.2)
  else if kind = ascii "set_password" then (setPassword s.1 op).map fun c => (c, true)
  else if kind = ascii "set_language" then (setLanguage s.1 op).map fun c => (c, s.2)
  else if kind = ascii "set_rules" then (setRules server s.1 op).map fun c => (c, s.2)
  else .error (ascii "unknown op \"" ++ kind ++ ascii "\"")

/-- The copy that `ApplyUpdateOps` works on. -/
def runOps (server : Ruleset) (config ops : Json) : Except Bytes (Json × Bool) := do
  check config.isObject (ascii "no config")
  match ops with
  | .array (op :: rest) => (op :: rest).foldlM (applyOp server) (config, false)
  | _ => .error (ascii "ops must be a non-empty array")

/-- What a caller of `ApplyUpdateOps` holds. -/
structure Stored where
  config : Json
  passwordChanged : Bool

def applyUpdateOps (server : Ruleset) (s : Stored) (ops : Json) : Except Bytes Unit × Stored :=
  match runOps server s.config ops with
  | .ok r => (.ok (), { config := r.1, passwordChanged := r.2 })
  | .error why => (.error why, s)

end Ops

end ReadyUp.Config.Assign
