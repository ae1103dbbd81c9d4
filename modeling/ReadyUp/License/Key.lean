import ReadyUp.Config.Minijson

/-!
# License keys

A key is `ATL1`, a base64url JSON payload and a base64url Ed25519 signature over the two, joined
with dots. `verify` checks the signature with a known public key and then every field of the
payload; a period that is over is a warning. The signature check itself is a parameter.
-/
namespace ReadyUp.License

open Support Config

section Text

def b64UrlValue (c : UInt8) : Option ℕ :=
  if byte 'A' ≤ c ∧ c ≤ byte 'Z' then some (c - byte 'A').toNat
  else if byte 'a' ≤ c ∧ c ≤ byte 'z' then some ((c - byte 'a').toNat + 26)
  else if byte '0' ≤ c ∧ c ≤ byte '9' then some ((c - byte '0').toNat + 52)
  else if c = byte '-' then some 62
  else if c = byte '_' then some 63
  else none

/-- The loop of `Base64UrlDecode`, over 32 bits that are not all written yet. -/
def decodeFrom : ℕ → ℕ → Bytes → Option Bytes
  | _, _, [] => some []
  | acc, bits, c :: s =>
    (b64UrlValue c).bind fun v =>
      let acc := (acc * 64 + v) % 2 ^ 32
      if 8 ≤ bits + 6 then
        (decodeFrom acc (bits - 2) s).map ((acc / 2 ^ (bits - 2)).toUInt8 :: ·)
      else decodeFrom acc (bits + 6) s

def base64UrlDecode (s : Bytes) : Option Bytes := decodeFrom 0 0 s

def isJsWhitespace (c : UInt8) : Bool := c == byte ' ' || (9 ≤ c && c ≤ 13)

def trim (s : Bytes) : Bytes := trimBy isJsWhitespace s

end Text

section Dates

def sub (s : Bytes) (pos n : ℕ) : Bytes := (s.drop pos).take n

def isDigits (s : Bytes) (pos n : ℕ) : Bool := pos + n ≤ s.length && (sub s pos n).all isDigit

def num (s : Bytes) (pos n : ℕ) : ℕ := ofDigits (sub s pos n)

structure Day where
  year : ℕ
  month : ℕ
  day : ℕ
  deriving DecidableEq

namespace Day

def lastOf (year month : ℕ) : ℕ :=
  let leap := (year % 4 == 0 && year % 100 != 0) || year % 400 == 0
  if month == 2 && leap then 29
  else [31, 28, 31, 30, 31, 30, 31, 31, 30, 31, 30, 31].getD (month - 1) 0

def next (d : Day) : Day :=
  if d.day < lastOf d.year d.month then { d with day := d.day + 1 }
  else if d.month < 12 then { d with month := d.month + 1, day := 1 }
  else ⟨d.year + 1, 1, 1⟩

/-- A number of at least so many digits. -/
def padded (width n : ℕ) : Bytes :=
  List.replicate (width - (decimal n).length) (byte '0') ++ decimal n

/-- `YYYY-MM-DD` -/
def text (d : Day) : Bytes :=
  padded 4 d.year ++ byte '-' :: padded 2 d.month ++ byte '-' :: padded 2 d.day

/-- The day that a text of the right form names. -/
def ofText (s : Bytes) : Day := ⟨num s 0 4, num s 5 2, num s 8 2⟩

end Day

def isDate (s : Bytes) : Bool :=
  if s.length ≠ 10 ∨ !isDigits s 0 4 ∨ s[4]? ≠ some (byte '-') ∨ !isDigits s 5 2 ∨
      s[7]? ≠ some (byte '-') ∨ !isDigits s 8 2 then false
  else
    let d := Day.ofText s
    if d.month < 1 ∨ 12 < d.month ∨ d.day < 1 then false else d.day ≤ Day.lastOf d.year d.month

/-- `AddDays`, for a number of days to come. -/
def addDays (day : Bytes) (days : ℕ) : Bytes :=
  if isDate day then (Day.next^[days] (Day.ofText day)).text else []

/-- The seconds of a timestamp and their fraction, if it has them; where they end. -/
def isoSeconds (s : Bytes) (i : ℕ) : Option ℕ :=
  if s[i]? = some (byte ':') then
    if !isDigits s (i + 1) 2 ∨ 59 < num s (i + 1) 2 then none
    else if s[i + 3]? = some (byte '.') then
      let n := ((s.drop (i + 4)).takeWhile isDigit).length
      if n = 0 then none else some (i + 4 + n)
    else some (i + 3)
  else some i

/-- The zone of a timestamp up to its end. -/
def isoZone (s : Bytes) (i : ℕ) : Bool :=
  if i = s.length then true
  else if s[i]? = some (byte 'Z') then i + 1 == s.length
  else if s[i]? = some (byte '+') ∨ s[i]? = some (byte '-') then
    i + 6 == s.length && isDigits s (i + 1) 2 && s[i + 3]? == some (byte ':') &&
      isDigits s (i + 4) 2 &&
      num s (i + 1) 2 ≤ 23 && num s (i + 4) 2 ≤ 59
  else false

def isIsoTimestamp (s : Bytes) : Bool :=
  if s.length < 10 ∨ !isDate (s.take 10) then false
  else if s.length = 10 then true
  else if s[10]? ≠ some (byte 'T') then false
  else if !isDigits s 11 2 ∨ s.length ≤ 13 ∨ s[13]? ≠ some (byte ':') ∨ !isDigits s 14 2 then false
  else if 23 < num s 11 2 ∨ 59 < num s 14 2 then false
  else (isoSeconds s 16).any (isoZone s)

end Dates

/-- A signing key: its id and the raw key as base64url. -/
structure PublicKey where
  kid : Bytes
  x : Bytes

inductive Status where
  | ok
  | warning
  | invalid
  deriving DecidableEq

structure Issue where
  code : Bytes
  message : Bytes

/-- What was signed; empty where a field is not set. -/
structure Payload where
  kid : Bytes := []
  id : Bytes := []
  customer : Bytes := []
  licensee : Bytes := []
  product : Bytes := []
  pack : Bytes := []
  maxServers : ℤ := 0
  kind : Bytes := []
  issuedAt : Bytes := []
  updatesUntil : Bytes := []
  validFrom : Bytes := []
  validTo : Bytes := []
  lease : Bool := false

structure Result where
  status : Status
  issues : List Issue
  license : Payload

def Result.valid (r : Result) : Bool := r.status ≠ .invalid

structure Options where
  lineDate : Bytes
  today : Bytes
  keys : List PublicKey

def Result.invalid (code message : Bytes) : Result := ⟨.invalid, [⟨code, message⟩], {}⟩

section Payload

variable (p : Minijson.Value)

def str (key : String) : Bytes := ((p.get key).bind (·.asString)).getD []

def nonEmptyString (v : Option Minijson.Value) : Bool := (v.bind (·.asString)).any (· ≠ [])

def oneOf (v : Option Minijson.Value) (options : List String) : Bool :=
  (v.bind (·.asString)).any fun s => options.any fun o => s = ascii o

def stringIs (v : Option Minijson.Value) (q : Bytes → Bool) : Bool := (v.bind (·.asString)).any q

/-- A whole number of servers that a double holds exactly. -/
def isServerCount : Option Minijson.Value → Bool
  | some (.number d) =>
    d.isFinite && (Binary64.ofInt d.toInt).eq d && 1 ≤ d.toInt && d.toInt ≤ 9007199254740991
  | _ => false

def isVersionOne : Option Minijson.Value → Bool
  | some (.number d) => d.eq (Binary64.ofInt 1)
  | _ => false

/-- The window of an event license, from its two ends. -/
def isWindow : Option Minijson.Value → Option Minijson.Value → Bool
  | some (.string vf), some (.string vt) => isDate vf && isDate vt && !(vt < vf)
  | _, _ => false

/-- `PayloadProblem`: an error message, none for a license of version one. -/
def payloadProblem : Option String :=
  if !p.isObject then some "payload is not an object"
  else if !isVersionOne (p.get "v") then some "unsupported version"
  else if !nonEmptyString (p.get "kid") then some "missing kid"
  else if !nonEmptyString (p.get "id") then some "missing id"
  else if !nonEmptyString (p.get "customer") then some "missing customer"
  else if !oneOf (p.get "product") ["servers", "platform"] then some "bad product"
  else if !oneOf (p.get "pack") ["S", "M", "L"] then some "bad pack"
  else if !isServerCount (p.get "max_servers") then some "bad max_servers"
  else if !oneOf (p.get "kind") ["month", "event", "year", "founder"] then some "bad kind"
  else if !stringIs (p.get "issued_at") isIsoTimestamp then some "bad issued_at"
  else if !stringIs (p.get "updates_until") isDate then some "bad updates_until"
  else if (p.get "valid_from").isNone ≠ (p.get "valid_to").isNone then
    some "valid_from and valid_to go together"
  else if (p.get "valid_from").isSome && !isWindow (p.get "valid_from") (p.get "valid_to") then
    some "bad valid_from/valid_to"
  else if (p.get "licensee").any fun v => v.asString.isNone then some "bad licensee"
  else match p.get "lease" with
    | none => none
    | some (.bool _) => none
    | some _ => some "bad lease"

/-- The fields of a payload without a problem. -/
def payloadOf : Payload where
  kid := str p "kid"
  id := str p "id"
  customer := str p "customer"
  licensee := str p "licensee"
  product := str p "product"
  pack := str p "pack"
  maxServers := ((p.get "max_servers").bind (·.asInt)).getD 0
  kind := str p "kind"
  issuedAt := str p "issued_at"
  updatesUntil := str p "updates_until"
  validFrom := str p "valid_from"
  validTo := str p "valid_to"
  lease := match p.get "lease" with
    | some (.bool b) => b
    | _ => false

end Payload

/-- What a release and a day have against a license. A founder's updates never end. -/
def periodIssues (p : Payload) (o : Options) : List Issue :=
  (if p.kind ≠ ascii "founder" ∧ o.lineDate ≠ [] ∧ p.updatesUntil < o.lineDate then
    [⟨ascii "updates_expired", ascii "updates for this version line ended " ++ p.updatesUntil ++
      ascii " (this build's line is from " ++ o.lineDate ++ ascii ")"⟩] else []) ++
  (if p.validTo ≠ [] ∧ o.today ≠ [] ∧ p.validTo < o.today then
    [⟨ascii "period_ended", ascii "the event window ended " ++ p.validTo⟩] else []) ++
  (if p.validFrom ≠ [] ∧ o.today ≠ [] ∧ o.today < p.validFrom then
    [⟨ascii "period_not_started", ascii "the event window starts " ++ p.validFrom⟩] else [])

/-- The parts of a token: the payload and the signature, as they are written. -/
def splitToken (t : Bytes) : Option (Bytes × Bytes) :=
  match t.splitOn (byte '.') with
  | [head, body, sig] => if head = ascii "ATL1" then some (body, sig) else none
  | _ => none

def keyOf (keys : List PublicKey) (payload : Minijson.Value) : Option PublicKey :=
  ((payload.get "kid").bind (·.asString)).bind fun kid => keys.find? fun k => kid = k.kid

def otherVersion : Option Minijson.Value → Option Binary64
  | some (.number d) => if d.eq (Binary64.ofInt 1) then none else some d
  | _ => none

section Verify

-- `crypto_ed25519_check`, of a signature, a public key and what was signed
variable (check : Bytes → Bytes → Bytes → Bool)

/-- The part of `Verify` that follows the decoding. -/
def verifyDecoded (body sig : Bytes) (payload : Minijson.Value) (o : Options) : Result :=
  match otherVersion (payload.get "v") with
  | some v => .invalid (ascii "unsupported_version")
      (ascii "License key version " ++ (v.formatG 6).text ++ ascii " needs a newer release.")
  | none =>
    match keyOf o.keys payload with
    | none => .invalid (ascii "unknown_kid")
        (ascii "This license key was signed with a key this release does not know.")
    | some key =>
      let signed := ascii "ATL1." ++ body
      if ((base64UrlDecode key.x).filter (·.length = 32)).any fun pub => check sig pub signed then
        match payloadProblem payload with
        | some problem => .invalid (ascii "malformed")
            (ascii "The license key content is not valid (" ++ ascii problem ++ ascii ").")
        | none =>
          let p := payloadOf payload
          let issues := periodIssues p o
          ⟨if issues.isEmpty then .ok else .warning, issues, p⟩
      else .invalid (ascii "bad_signature")
        (ascii "The license key signature does not match: the key was changed or mistyped.")

def verify (token : Bytes) (o : Options) : Result :=
  let t := trim token
  if 4096 < t.length then
    .invalid (ascii "malformed") (ascii "This is not a valid license key (too long).")
  else match splitToken t with
    | none =>
      .invalid (ascii "malformed") (ascii "This is not a valid license key (not an ATL1 key).")
    | some (body, sig) =>
      match (if body = [] ∨ sig = [] then none else base64UrlDecode body), base64UrlDecode sig with
      | some bodyBytes, some sigBytes =>
        match Minijson.parse bodyBytes with
        | none => .invalid (ascii "malformed")
            (ascii "This is not a valid license key (the payload is not JSON).")
        | some payload =>
          if sigBytes.length ≠ 64 then
            .invalid (ascii "malformed")
              (ascii "This is not a valid license key (bad signature length).")
          else verifyDecoded check body sigBytes payload o
      | _, _ =>
        .invalid (ascii "malformed") (ascii "This is not a valid license key (not base64url).")

end Verify

end ReadyUp.License
