import ReadyUp.Support.Assoc
import ReadyUp.Support.JsonScan

/-!
# The JSON reader and writer of the fleet link

`parse` reads one value from text, with a bound on nesting; `dump` writes one. Strings are
bytes and pass through unchanged. A number without fraction and exponent that fits 64 bits
is an integer, any other a double.

The reader works on the rest of the text. `value` recurses over the levels of nesting that
are left, so the depth check of the source is the base case; the loops over members and
items take the length of the text as their bound, which they never reach
(`value_append`, `value_dump`).
-/
namespace ReadyUp.Fleet.JsonText

open Support JsonScan

inductive Value where
  | null
  | bool (b : Bool)
  | int (i : ℤ)
  | num (n : Binary64)
  | str (s : Bytes)
  | obj (o : List (Bytes × Value))
  | arr (a : List Value)

namespace Value

/-- `Get`: the first member of the key. -/
def get (v : Value) (key : Bytes) : Option Value :=
  match v with
  | .obj o => o.lookup key
  | _ => none

def isObj : Value → Bool
  | .obj _ => true
  | _ => false

def asStr : Value → Bytes
  | .str s => s
  | _ => []

def asBool : Value → Bool
  | .bool b => b
  | _ => false

end Value

section Scanner

/-- `Lit`: the word, if the text starts with it. -/
def lit (w : Bytes) (v : Value) (s : Bytes) : Option (Value × Bytes) :=
  if w <+: s then some (v, s.drop w.length) else none

/-- After a high surrogate: with a second escape it may make a pair, otherwise the half is
replaced. -/
def surrogate (hi : ℕ) : Bytes → Option (Bytes × Bytes)
  | b :: u :: s =>
    if b = byte '\\' ∧ u = byte 'u' then
      (hex4 s).map fun lo =>
        if isLowSurrogate lo.1
        then (putUtf8 (0x10000 + (hi - 0xD800) * 1024 + (lo.1 - 0xDC00)), lo.2)
        else (putUtf8 0xFFFD ++ putUtf8 lo.1, lo.2)
    else some (putUtf8 0xFFFD, b :: u :: s)
  | s => some (putUtf8 0xFFFD, s)

/-- An escape after its backslash: the bytes it stands for and the rest of the text. -/
def escape : Bytes → Option (Bytes × Bytes)
  | [] => none
  | e :: s =>
    if e = byte 'u' then
      (hex4 s).bind fun cp =>
        if isHighSurrogate cp.1 then surrogate cp.1 cp.2
        else if isLowSurrogate cp.1 then some (putUtf8 0xFFFD, cp.2)
        else some (putUtf8 cp.1, cp.2)
    else (unescape e).map fun c => ([c], s)

/-- `Str` after its opening quote; every round takes at least one byte. -/
def strBody : ℕ → Bytes → Option (Bytes × Bytes)
  | 0, _ => none
  | _ + 1, [] => none
  | fuel + 1, c :: s =>
    if c = byte '"' then some ([], s)
    else if c < 0x20 then none
    else if c = byte '\\' then
      (escape s).bind fun e => (strBody fuel e.2).map fun r => (e.1 ++ r.1, r.2)
    else (strBody fuel s).map fun r => (c :: r.1, r.2)

/-- `Str` -/
def string : Bytes → Option (Bytes × Bytes)
  | [] => none
  | c :: s => if c = byte '"' then strBody s.length s else none

/-- The fraction of a number, if there is one. -/
def fracPart : Bytes → Option (Option Bytes × Bytes)
  | [] => some (none, [])
  | c :: s =>
    if c = byte '.' then
      if s.takeWhile isDigit = [] then none
      else some (some (s.takeWhile isDigit), s.dropWhile isDigit)
    else some (none, c :: s)

def expSign : Bytes → Bool × Bytes
  | [] => (false, [])
  | c :: s =>
    if c = byte '+' then (false, s) else if c = byte '-' then (true, s) else (false, c :: s)

/-- The exponent of a number, if there is one. -/
def expPart : Bytes → Option (Option (Bool × Bytes) × Bytes)
  | [] => some (none, [])
  | c :: s =>
    if c = byte 'e' ∨ c = byte 'E' then
      let (neg, s) := expSign s
      if s.takeWhile isDigit = [] then none
      else some (some (neg, s.takeWhile isDigit), s.dropWhile isDigit)
    else some (none, c :: s)

/-- The text that `Num` takes. -/
def numToken (s : Bytes) : Option (NumToken × Bytes) :=
  let (neg, s) := numSign s
  let int := s.takeWhile isDigit
  if int = [] then none
  else
    (fracPart (s.dropWhile isDigit)).bind fun f =>
    (expPart f.2).map fun e => ({ neg, int, frac := f.1, exp := e.1 }, e.2)

/-- The value of a number: an integer that does not fit is read as a double. -/
def numValue (t : NumToken) : Value :=
  if t.isFloat = false ∧ InInt64 t.toInt then .int t.toInt else .num t.strtod

/-- `Num` -/
def number (s : Bytes) : Option (Value × Bytes) :=
  (numToken s).map fun t => (numValue t.1, t.2)

end Scanner

section Reader

variable (val : Bytes → Option (Value × Bytes))

/-- The loop over the members of an object; of duplicate keys the last one wins. -/
def members : ℕ → List (Bytes × Value) → Bytes → Option (Value × Bytes)
  | 0, _, _ => none
  | fuel + 1, o, s =>
    (string (ws s)).bind fun k =>
    (expect (byte ':') k.2).bind fun s =>
    (val s).bind fun v =>
    (next (byte '}') v.2).bind fun n =>
      let o := assign o k.1 v.1
      if n.1 then members fuel o n.2 else some (.obj o, n.2)

/-- The loop over the items of an array. -/
def items : ℕ → List Value → Bytes → Option (Value × Bytes)
  | 0, _, _ => none
  | fuel + 1, a, s =>
    (val s).bind fun v =>
    (next (byte ']') v.2).bind fun n =>
      let a := a ++ [v.1]
      if n.1 then items fuel a n.2 else some (.arr a, n.2)

/-- An object after its opening brace. -/
def object (s : Bytes) : Option (Value × Bytes) :=
  match expect (byte '}') s with
  | some s => some (.obj [], s)
  | none => members val s.length [] s

/-- An array after its opening bracket. -/
def array (s : Bytes) : Option (Value × Bytes) :=
  match expect (byte ']') s with
  | some s => some (.arr [], s)
  | none => items val s.length [] s

variable {val}

/-- `Val`, with the levels of nesting that are left. -/
def value : ℕ → Bytes → Option (Value × Bytes)
  | 0, _ => none
  | levels + 1, s =>
    match ws s with
    | [] => none
    | c :: s =>
      if c = byte '{' then object (value levels) s
      else if c = byte '[' then array (value levels) s
      else if c = byte '"' then (string (c :: s)).map fun r => (.str r.1, r.2)
      else if c = byte 't' then lit (ascii "true") (.bool true) (c :: s)
      else if c = byte 'f' then lit (ascii "false") (.bool false) (c :: s)
      else if c = byte 'n' then lit (ascii "null") .null (c :: s)
      else number (c :: s)

/-- `Parse`: exactly one value, with white space around it. -/
def parse (s : Bytes) (maxDepth : ℕ) : Option Value :=
  (value (maxDepth + 1) s).bind fun r => if ws r.2 = [] then some r.1 else none

end Reader

section Writer

mutual

def dump : Value → Bytes
  | .null => ascii "null"
  | .bool true => ascii "true"
  | .bool false => ascii "false"
  | .int i => toDecimal i
  | .num n => if n.isFinite then n.format17.text else ascii "null"
  | .str s => quoted s
  | .obj o => byte '{' :: (dumpMembers o ++ [byte '}'])
  | .arr a => byte '[' :: (dumpItems a ++ [byte ']'])

def dumpMembers : List (Bytes × Value) → Bytes
  | [] => []
  | (k, v) :: o =>
    quoted k ++ byte ':' :: (dump v ++ if o.isEmpty then [] else byte ',' :: dumpMembers o)

def dumpItems : List Value → Bytes
  | [] => []
  | v :: a => dump v ++ if a.isEmpty then [] else byte ',' :: dumpItems a

end

theorem length_dump_le_members {o : List (Bytes × Value)} {k : Bytes} {v : Value} (h : (k, v) ∈ o) :
    (dump v).length ≤ (dumpMembers o).length := by
  induction o with
  | nil => cases h
  | cons kv o ih =>
    obtain ⟨j, w⟩ := kv
    rw [dumpMembers]
    simp only [List.length_append, List.length_cons]
    rcases List.mem_cons.mp h with heq | hmem
    · obtain ⟨-, rfl⟩ := Prod.mk.inj heq
      omega
    · have hrest := ih hmem
      have hne : o.isEmpty = false := by
        cases o with
        | nil => cases hmem
        | cons _ _ => rfl
      simp only [hne, Bool.false_eq_true, if_false, List.length_cons]
      omega

end Writer

end ReadyUp.Fleet.JsonText
