import ReadyUp.Support.JsonScan
import ReadyUp.Support.Search
import ReadyUp.Support.Strto

/-!
# The requests of the status endpoint

A connection hands over what it has read so far, and `parseRequest` says whether that is the head of
a request. The head ends at the first blank line, of the two kinds that count (`headEnd`). A prefix
of the stream has that blank line if it is long enough, and none before (`headEnd_take`), so the
answer does not depend on how the stream was cut into packets.
-/
namespace ReadyUp.Core

open Support

inductive ParseStatus where
  | incomplete
  | ok
  | bad
  | tooLarge
  deriving DecidableEq, Repr

inductive Refusal where
  | bad
  | tooLarge
  deriving DecidableEq, Repr

def Refusal.status : Refusal → ParseStatus
  | .bad => .bad
  | .tooLarge => .tooLarge

structure HttpRequest where
  method : Bytes := []
  target : Bytes := []
  path : Bytes := []
  query : Bytes := []
  version : Bytes := []
  headers : List (Bytes × Bytes) := []
  headerBytes : ℕ := 0
  deriving DecidableEq

namespace HttpRequest

/-- `Header`: the first one of the name. -/
def header (r : HttpRequest) (lowerName : Bytes) : Bytes := (r.headers.lookup lowerName).getD []

def hasHeader (r : HttpRequest) (lowerName : Bytes) : Bool := (r.headers.lookup lowerName).isSome

end HttpRequest

/-! ### The parts of a head -/

def trimOws (s : Bytes) : Bytes :=
  (s.dropWhile fun c => c = 32 ∨ c = 9).rdropWhile fun c => c = 32 ∨ c = 9 ∨ c = 13

def isTchar (c : UInt8) : Bool := isAlnum c || (ascii "!#$%&'*+-.^_`|~").contains c

def plainChar (plusIsSpace : Bool) (c : UInt8) : UInt8 :=
  if plusIsSpace && c == byte '+' then 32 else c

def percentDecode (plusIsSpace : Bool) : Bytes → Bytes
  | c :: a :: b :: rest =>
    match c == byte '%', JsonScan.hexValue a, JsonScan.hexValue b with
    | true, some hi, some lo => (hi * 16 + lo).toUInt8 :: percentDecode plusIsSpace rest
    | _, _, _ => plainChar plusIsSpace c :: percentDecode plusIsSpace (a :: b :: rest)
  | c :: rest => plainChar plusIsSpace c :: percentDecode plusIsSpace rest
  | [] => []

/-- What is before the first byte of a kind and what is after it. -/
def cut (c : UInt8) (s : Bytes) : Option (Bytes × Bytes) :=
  (s.idxOf? c).map fun i => (s.take i, s.drop (i + 1))

/-- A line without the return at its end. -/
def dropReturn (line : Bytes) : Bytes := if line.getLast? = some 13 then line.dropLast else line

/-- The method, the target and the version of a request line. -/
def requestLine (line : Bytes) : Option (Bytes × Bytes × Bytes) :=
  match cut 32 line with
  | none => none
  | some (method, rest) =>
    match cut 32 rest with
    | none => none
    | some (target, version) =>
      if method = [] ∨ target = [] ∨ 32 ∈ version then none else some (method, target, version)

/-- The target without the scheme and the host. -/
def originForm (target : Bytes) : Bytes :=
  if (ascii "http://").isPrefixOf target || (ascii "https://").isPrefixOf target then
    let after := target.drop ((findSub (ascii "//") target).getD 0 + 2)
    match after.idxOf? (byte '/') with
    | none => [byte '/']
    | some i => after.drop i
  else target

/-- What is between the question mark and the fragment; a question mark of the fragment counts as
well. -/
def queryOf (target : Bytes) : Bytes :=
  match target.idxOf? (byte '?'), target.idxOf? (byte '#') with
  | none, _ => []
  | some q, none => target.drop (q + 1)
  | some q, some hash =>
    if hash < q then target.drop (q + 1) else (target.drop (q + 1)).take (hash - q - 1)

/-- The decoded path, which keeps a slash at its end only when it is nothing else. -/
def pathOf (target : Bytes) : Bytes :=
  match percentDecode false (target.takeWhile fun c => c ≠ byte '?' ∧ c ≠ byte '#') with
  | [] => []
  | c :: rest => c :: rest.rdropWhile (· = byte '/')

/-- A line of the head after the request line. -/
def addHeader (headers : List (Bytes × Bytes)) (line : Bytes) :
    Except Refusal (List (Bytes × Bytes)) :=
  if line = [] then .ok headers
  else if line.head? = some 32 ∨ line.head? = some 9 then .error .bad
  else
    match cut (byte ':') line with
    | none => .error .bad
    | some (name, value) =>
      if name = [] ∨ name.all isTchar = false then .error .bad
      else if 100 ≤ headers.length then .error .tooLarge
      else .ok (headers ++ [(name.map toLower, trimOws value)])

/-- A body is not accepted, and a request of version 1.1 names its host. -/
def checkHeaders (r : HttpRequest) : Except Refusal HttpRequest :=
  let length := r.header (ascii "content-length")
  if r.hasHeader (ascii "transfer-encoding") then .error .bad
  else if r.hasHeader (ascii "content-length") ∧
      (length = [] ∨ length.all isDigit = false ∨ min (ofDigits length) (2 ^ 64 - 1) ≠ 0) then
        .error .bad
  else if r.version = ascii "HTTP/1.1" ∧ r.hasHeader (ascii "host") = false then .error .bad
  else .ok r

def parseHead (head : Bytes) (headerBytes : ℕ) : Except Refusal HttpRequest :=
  match ((head.splitOn 10).map dropReturn).dropWhile (· = []) with
  | [] => .error .bad
  | line :: lines =>
    match requestLine line with
    | none => .error .bad
    | some (method, raw, version) =>
      let target := originForm raw
      if method.all isTchar = false then .error .bad
      else if version ≠ ascii "HTTP/1.1" ∧ version ≠ ascii "HTTP/1.0" then .error .bad
      else if raw.any fun c => c ≤ 32 || c == 127 then .error .bad
      else if target.head? ≠ some (byte '/') ∧ target ≠ ascii "*" then .error .bad
      else do
        let headers ← lines.foldlM addHeader []
        checkHeaders
          { method, target := raw, path := pathOf target, query := queryOf target, version, headers,
            headerBytes }

/-! ### The end of a head -/

def crlfcrlf : Bytes := [13, 10, 13, 10]

def lflf : Bytes := [10, 10]

/-- Where the head ends, and the length of the blank line there. -/
def headEnd (buf : Bytes) : Option (ℕ × ℕ) :=
  match findSub crlfcrlf buf, findSub lflf buf with
  | none, none => none
  | some crlf, none => some (crlf, 4)
  | none, some lf => some (lf, 2)
  | some crlf, some lf => if crlf < lf then some (crlf, 4) else some (lf, 2)

/-- `ParseRequest`: the status, and the request that is written when it is a good one. -/
def parseRequest (buf : Bytes) (maxBytes : ℕ) : ParseStatus × Option HttpRequest :=
  match headEnd buf with
  | none => (if maxBytes ≤ buf.length then .tooLarge else .incomplete, none)
  | some (stop, sep) =>
    if maxBytes < stop + sep then (.tooLarge, none)
    else
      match parseHead (buf.take stop) (stop + sep) with
      | .error e => (e.status, none)
      | .ok r => (.ok, some r)

theorem not_adjacent {s : Bytes} {c : ℕ} (hcrlf : findSub crlfcrlf s = some c) :
    findSub lflf s ≠ some (c + 1) := by
  intro hlf
  obtain ⟨b, rest, hs, rfl⟩ := exists_of_findSub hcrlf
  obtain ⟨b', rest', hs', hlen⟩ := exists_of_findSub hlf
  have hreturn : s[b.length + 2]? = some 13 := by
    rw [hs, List.getElem?_append_right (by omega), Nat.add_sub_cancel_left]
    rfl
  have hfeed : s[b.length + 2]? = some 10 := by
    have hone : b.length + 2 - (b.length + 1) = 1 := by omega
    rw [hs', List.getElem?_append_right (by omega), hlen, hone]
    rfl
  rw [hreturn] at hfeed
  cases hfeed

/-- A prefix of the stream has the end of the head if the blank line is in it. -/
theorem headEnd_take (s : Bytes) (k : ℕ) : headEnd (s.take k) = (headEnd s).filter fun e =>
    e.1 + e.2 ≤ k := by
  have hfour : crlfcrlf.length = 4 := rfl
  have htwo : lflf.length = 2 := rfl
  have hadj : ∀ c, findSub crlfcrlf s = some c → findSub lflf s ≠ some (c + 1) :=
    fun _ => not_adjacent
  simp only [headEnd, findSub_take, hfour, htwo]
  cases hcrlf : findSub crlfcrlf s with
  | none =>
    cases hlf : findSub lflf s with
    | none => rfl
    | some lf => by_cases hl : lf + 2 ≤ k <;> simp [Option.filter_some, hl]
  | some c =>
    cases hlf : findSub lflf s with
    | none => by_cases hc : c + 4 ≤ k <;> simp [Option.filter_some, hc]
    | some lf =>
      have hne : lf ≠ c + 1 := fun heq => hadj c hcrlf (heq ▸ hlf)
      by_cases hlt : c < lf
      · by_cases hc : c + 4 ≤ k
        · by_cases hl : lf + 2 ≤ k <;> simp [Option.filter_some, hc, hl, hlt]
        · have hl : ¬lf + 2 ≤ k := by omega
          simp [Option.filter_some, hc, hl, hlt]
      · by_cases hl : lf + 2 ≤ k
        · by_cases hc : c + 4 ≤ k <;> simp [Option.filter_some, hc, hl, hlt]
        · have hc : ¬c + 4 ≤ k := by omega
          simp [Option.filter_some, hc, hl, hlt]

/-! ### Packets -/

variable {s : Bytes} {limit k : ℕ}

theorem le_length_of_headEnd {e : ℕ × ℕ} (h : headEnd s = some e) : e.1 + e.2 ≤ s.length := by
  have htake := headEnd_take s s.length
  rw [List.take_length, h, Option.filter_some] at htake
  split_ifs at htake with hle
  exact of_decide_eq_true hle

theorem parseRequest_of_none (h : headEnd s = none) :
    parseRequest s limit = (if limit ≤ s.length then .tooLarge else .incomplete, none) := by
  rw [parseRequest, h]

theorem parseRequest_of_some {stop sep : ℕ} (h : headEnd s = some (stop, sep)) :
    parseRequest s limit =
      if limit < stop + sep then (.tooLarge, none)
      else
        match parseHead (s.take stop) (stop + sep) with
        | .error e => (e.status, none)
        | .ok r => (.ok, some r) := by
  rw [parseRequest, h]

theorem parseRequest_take_of_short (h : ∀ e ∈ headEnd s, k < e.1 + e.2) (hk : k ≤ s.length) :
    parseRequest (s.take k) limit = (if limit ≤ k then .tooLarge else .incomplete, none) := by
  have hnone : headEnd (s.take k) = none := by
    rw [headEnd_take, Option.filter_eq_none_iff]
    intro e he
    simpa using h e he
  rw [parseRequest_of_none hnone, List.length_take, min_eq_left hk]

/-- A prefix with the blank line gives what the whole stream gives. -/
theorem parseRequest_take_of_long {e : ℕ × ℕ} (h : headEnd s = some e) (hk : e.1 + e.2 ≤ k) :
    parseRequest (s.take k) limit = parseRequest s limit := by
  have htake : headEnd (s.take k) = some e := by
    rw [headEnd_take, h, Option.filter_some, if_pos (decide_eq_true hk)]
  have hmin : min e.1 k = e.1 := min_eq_left (by omega)
  rw [parseRequest_of_some htake, parseRequest_of_some h, List.take_take, hmin]

theorem parseRequest_ne_incomplete {e : ℕ × ℕ} (h : headEnd s = some e) :
    (parseRequest s limit).1 ≠ .incomplete := by
  rw [parseRequest_of_some h]
  split_ifs
  · simp
  · cases parseHead (s.take e.1) (e.1 + e.2) with
    | error r => cases r <;> simp [Refusal.status]
    | ok r => simp

/-- Every stream has a length at which its request is settled, whatever the packets: below it more
bytes are needed, from it on the answer stays. A stream that is never settled is shorter than the
limit. -/
theorem parse_of_packets (s : Bytes) (limit : ℕ) :
    (∃ n ≤ s.length, (∀ k < n, parseRequest (s.take k) limit = (.incomplete, none)) ∧
        (parseRequest (s.take n) limit).1 ≠ .incomplete ∧
          ∀ k, n ≤ k → k ≤ s.length →
            parseRequest (s.take k) limit = parseRequest (s.take n) limit) ∨
      s.length < limit ∧ ∀ k ≤ s.length, parseRequest (s.take k) limit = (.incomplete, none) := by
  cases hend : headEnd s with
  | none =>
    have hshort : ∀ k ≤ s.length,
        parseRequest (s.take k) limit = (if limit ≤ k then .tooLarge else .incomplete, none) :=
      fun k hk => parseRequest_take_of_short (by simp [hend]) hk
    by_cases hlimit : limit ≤ s.length
    · refine .inl ⟨limit, hlimit, fun k hk => ?_, ?_, fun k hk hlen => ?_⟩
      · rw [hshort k (by omega), if_neg (by omega)]
      · simp [hshort limit hlimit]
      · rw [hshort k hlen, hshort limit hlimit, if_pos hk, if_pos le_rfl]
    · refine .inr ⟨by omega, fun k hk => ?_⟩
      rw [hshort k hk, if_neg (by omega)]
  | some e =>
    have hlen := le_length_of_headEnd hend
    have hshort : ∀ k < e.1 + e.2,
        parseRequest (s.take k) limit = (if limit ≤ k then .tooLarge else .incomplete, none) :=
      fun k hk => parseRequest_take_of_short (by simp [hend, hk]) (by omega)
    have hlong : ∀ k, e.1 + e.2 ≤ k → parseRequest (s.take k) limit = parseRequest s limit :=
      fun k => parseRequest_take_of_long hend
    by_cases hlimit : limit < e.1 + e.2
    · -- the limit is passed before the head ends, and then the head is too long
      have hlarge : parseRequest s limit =
          (.tooLarge, none) := by rw [parseRequest_of_some hend, if_pos hlimit]
      have hall : ∀ k, limit ≤ k → parseRequest (s.take k) limit = (.tooLarge, none) := by
        intro k hk
        by_cases hin : k < e.1 + e.2
        · rw [hshort k hin, if_pos hk]
        · rw [hlong k (not_lt.mp hin), hlarge]
      refine .inl ⟨limit, by omega, fun k hk => ?_, ?_, fun k hk _ => ?_⟩
      · rw [hshort k (by omega), if_neg (by omega)]
      · simp [hall limit le_rfl]
      · rw [hall k hk, hall limit le_rfl]
    · refine .inl ⟨e.1 + e.2, hlen, fun k hk => ?_, ?_, fun k hk _ => ?_⟩
      · rw [hshort k hk, if_neg (by omega)]
      · rw [hlong _ le_rfl]
        exact parseRequest_ne_incomplete hend
      · rw [hlong k hk, hlong _ le_rfl]

end ReadyUp.Core
