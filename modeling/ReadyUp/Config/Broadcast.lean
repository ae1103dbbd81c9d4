import ReadyUp.Config.Minijson
import ReadyUp.Config.Ruleset

/-!
# The broadcast profile of a match

`rules.broadcast` sets cvars of the broadcast. The check of an assignment reads the text of its
configuration with the small reader, so a configuration this reader refuses is refused whole.
-/
namespace ReadyUp.Config.Broadcast

open Support Minijson

inductive Key where
  | delay
  | insecure
  | maxClients
  | textChat
  | voice
  deriving DecidableEq

def maxDelaySeconds : ℤ := 960
def maxClients : ℤ := 255
def valveDelaySeconds : ℤ := 105

def keyName : Key → Bytes
  | .delay => ascii "delay_seconds"
  | .insecure => ascii "allow_insecure_observers"
  | .maxClients => ascii "max_clients"
  | .textChat => ascii "relay_text_chat"
  | .voice => ascii "relay_voice"

def parseKeyName (raw : Bytes) : Option Key :=
  [(ascii "delay_seconds", Key.delay), (ascii "delay", .delay),
    (ascii "allow_insecure_observers", .insecure), (ascii "insecure", .insecure),
    (ascii "max_clients", .maxClients), (ascii "maxclients", .maxClients),
    (ascii "relay_text_chat", .textChat), (ascii "textchat", .textChat),
    (ascii "relay_voice", .voice), (ascii "voice", .voice)].lookup (lower raw)

structure Profile where
  delaySeconds : Option ℤ := none
  allowInsecureObservers : Option Bool := none
  maxClients : Option ℤ := none
  relayTextChat : Option Bool := none
  relayVoice : Option Bool := none
  deriving DecidableEq

/-- `IntIn`: an integer from 0 to the bound. -/
def intIn (v : Value) (bound : ℤ) : Option ℤ :=
  match v with
  | .number d =>
    if d.isFinite ∧ d.isWhole ∧ 0 ≤ d.toRat ∧ d.toRat ≤ bound then some d.toInt else none
  | _ => none

/-- `CvarText`: the text the match applies. -/
def cvarText : Value → Option Bytes
  | .string s => some s
  | .bool b => some (if b then ascii "1" else ascii "0")
  | .number d => if d.isFinite ∧ d.isWhole then some (toDecimal d.toInt64) else none
  | _ => none

/-- `CvarInt`: -1 for anything that is no number. -/
def cvarInt (s : Bytes) : ℤ :=
  match strtod s with
  | none => -1
  | some (d, rest) =>
    if d.isFinite ∧ 0 ≤ d.toRat ∧ d.toRat ≤ 10 ^ 6 ∧ (rest.takeWhile (· ≠ 0)).all isSpace then
      d.toInt
    else -1

def badInt (name : Bytes) (bound : ℤ) : Bytes :=
  name ++ ascii " must be an integer 0.." ++ toDecimal bound

def setBool (name : Bytes) (v : Value) : Except Bytes Bool :=
  match v with
  | .bool b => .ok b
  | _ => .error (name ++ ascii " must be a boolean")

def setInt (name : Bytes) (v : Value) (bound : ℤ) : Except Bytes ℤ :=
  match intIn v bound with
  | some n => .ok n
  | none => .error (badInt name bound)

def parseMember (p : Profile) (kv : Bytes × Value) : Except Bytes Profile :=
  let (name, v) := kv
  match parseKeyName name with
  | none => .error (ascii "unknown key \"" ++ name.take 40 ++ ascii "\"")
  | some k =>
    if name ≠ keyName k then .error (ascii "unknown key \"" ++ name.take 40 ++ ascii "\"")
    else
      match v, k with
      | .null, _ => .error (name ++ ascii " must not be null")
      | v, .delay => setInt name v maxDelaySeconds >>= fun n => .ok { p with delaySeconds := n }
      | v, .maxClients => setInt name v maxClients >>= fun n => .ok { p with maxClients := n }
      | v, .insecure => setBool name v >>= fun b => .ok { p with allowInsecureObservers := b }
      | v, .textChat => setBool name v >>= fun b => .ok { p with relayTextChat := b }
      | v, .voice => setBool name v >>= fun b => .ok { p with relayVoice := b }

/-- `ParseProfile` without keys to clear; the members are read in the order of their names. -/
def parseProfile : Value → Except Bytes Profile
  | .object o => (o.mergeSort fun a b => decide (a.1 ≤ b.1)).foldlM parseMember {}
  | _ => .error (ascii "must be an object")

/-- The delay that the ruleset of a match asks for. -/
def rulesFloor (config : Value) : ℤ :=
  match config.get "rules" with
  | some (.object rules) =>
    let rules := Value.object rules
    match (rules.get "overrides").bind fun ov =>
      (ov.get "tv_delay").bind (intIn · maxDelaySeconds) with
    | some n => max 0 n
    | none =>
      if (rules.get "ruleset").bind Value.asString = some (ascii "valve") then valveDelaySeconds
      else 0
  | _ => 0

def delayFloor (config : Value) : ℤ :=
  match (config.get "cvars").bind fun cv => (cv.get "tv_delay").bind cvarText with
  | none => max (rulesFloor config) 0
  | some t => max (max (rulesFloor config) (min (cvarInt t) maxDelaySeconds)) 0

def profileFromAssign (config : Value) : Except Bytes Profile :=
  match (config.get "rules").bind (·.get "broadcast") with
  | none => .ok {}
  | some .null => .ok {}
  | some b =>
    match parseProfile b with
    | .ok p => .ok p
    | .error e => .error (ascii "rules.broadcast: " ++ e)

def flagText (b : Bool) : Bytes := if b then ascii "1" else ascii "0"

def desiredCvars (p : Profile) (delayFloor : ℤ) : List (String × Bytes) :=
  (p.delaySeconds.map fun d => ("tv_delay", toDecimal (max d (max delayFloor 0)))).toList ++
  (match p.allowInsecureObservers with
    | none => []
    | some b => ("tv_secure_bypass", flagText b) :: if b then
        [("sv_deltaticks_enforce", ascii "0")] else []) ++
  (p.maxClients.map fun n => ("tv_maxclients", toDecimal n)).toList ++
  (p.relayTextChat.map fun b => ("tv_relaytextchat", flagText b)).toList ++
  (p.relayVoice.map fun b => ("tv_relayvoice", flagText b)).toList

/-- A cvar of the profile against the same cvar of the match. -/
def checkCvar (cvars : Value) (kv : String × Bytes) : Except Bytes Unit :=
  match (cvars.get kv.1).bind cvarText with
  | none => .ok ()
  | some t =>
    check (cvarInt t == cvarInt kv.2) (ascii "rules.broadcast and cvars." ++ ascii kv.1 ++
      ascii " disagree (" ++ kv.2 ++ ascii " vs " ++ t.take 16 ++ ascii ")")

/-- The profile against the cvars of the match; its floor covers the delay. -/
def checkCvars (config : Value) (p : Profile) : Except Bytes Unit :=
  match config.get "cvars" with
  | some (.object o) =>
    checkAll (checkCvar (.object o)) ((desiredCvars p 0).filter (·.1 ≠ "tv_delay"))
  | _ => .ok ()

def validateAssignConfig (config : Value) : Except Bytes Unit :=
  profileFromAssign config >>= fun p =>
    if p = {} then .ok ()
    else
      match p.delaySeconds with
      | none => checkCvars config p
      | some d =>
        if d < delayFloor config then
          .error (ascii "rules.broadcast.delay_seconds " ++ toDecimal d ++
            ascii " is below the match's own GOTV delay (" ++
            toDecimal (delayFloor config) ++ ascii ")")
        else checkCvars config p

def validateAssignConfigText (configJson : Bytes) : Except Bytes Unit :=
  match parse configJson with
  | some (.object o) => validateAssignConfig (.object o)
  | _ => .error (ascii "config is not a JSON object")

/-- An accepted configuration is one that the small reader reads. -/
theorem parse_of_validateAssignConfigText {configJson : Bytes}
    (h : validateAssignConfigText configJson = .ok ()) : (parse configJson).isSome = true := by
  rw [validateAssignConfigText] at h
  split at h
  · rename_i hparse
    rw [hparse]
    rfl
  · cases h

end ReadyUp.Config.Broadcast
