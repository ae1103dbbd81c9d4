import ReadyUp.Support.JsonGrammar

/-!
# Texts of JSON

The grammar of RFC 8259 as trees. A `Node` keeps everything that a text says, white space and the
way strings and numbers are written included, so that its text is a function of it; `Node.Fits` says
that every piece is one that the grammar has, with a bound on nesting and with the numbers left
open. A text is JSON when a tree has it (`IsJson`). The grammar is that of the bytes of a text:
characters outside ASCII only occur in strings, where every byte of them stands for itself.

A reader is one of the dialects of `JsonGrammar`. `Lexis` is what it makes of the strings and
numbers of the grammar; `Lexis.parse_iff` then says which texts it takes, and what it reads.
-/
namespace ReadyUp.Support.JsonTree

open JsonScan JsonGrammar

section Strings

/-- A character of a string as it is written: a byte of its own, an escape of one letter, or an
escape with four digits. -/
inductive Chr where
  | raw (c : UInt8)
  | simple (e : UInt8)
  | unicode (a b c d : UInt8)

namespace Chr

def text : Chr → Bytes
  | raw c => [c]
  | simple e => [byte '\\', e]
  | unicode a b c d => [byte '\\', byte 'u', a, b, c, d]

/-- The letters that stand behind a backslash. -/
def letters : Bytes :=
  [byte '"', byte '\\', byte '/', byte 'b', byte 'f', byte 'n', byte 'r', byte 't']

def isHexDigit (c : UInt8) : Bool :=
  isDigit c || (byte 'a' ≤ c && c ≤ byte 'f') || (byte 'A' ≤ c && c ≤ byte 'F')

def Ok : Chr → Prop
  | raw c => 0x20 ≤ c ∧ c ≠ byte '"' ∧ c ≠ byte '\\'
  | simple e => e ∈ letters
  | unicode a b c d => isHexDigit a ∧ isHexDigit b ∧ isHexDigit c ∧ isHexDigit d

end Chr

/-- The characters of a string without its quotes. -/
def stringText (x : List Chr) : Bytes := x.flatMap Chr.text

def literal (x : List Chr) : Bytes := byte '"' :: (stringText x ++ [byte '"'])

end Strings

section Numbers

def Digits (ds : Bytes) : Prop := ds ≠ [] ∧ ∀ d ∈ ds, isDigit d = true

/-- The digits before the dot, without a leading zero. -/
def IsInt (i : Bytes) : Prop := Digits i ∧ (i.head? = some (byte '0') → i = [byte '0'])

def IsFrac (f : Bytes) : Prop := f = [] ∨ ∃ ds, f = byte '.' :: ds ∧ Digits ds

def IsExp (e : Bytes) : Prop :=
  e = [] ∨ ∃ x sign ds, e = x :: (sign ++ ds) ∧ (x = byte 'e' ∨ x = byte 'E') ∧
    (sign = [] ∨ sign = [byte '+'] ∨ sign = [byte '-']) ∧ Digits ds

/-- A number with its parts; the integer part is left open. -/
def IsNumberBy (Int : Bytes → Prop) (n : Bytes) : Prop :=
  ∃ m i f e : Bytes, n = m ++ (i ++ (f ++ e)) ∧ (m = [] ∨ m = [byte '-']) ∧ Int i ∧
  IsFrac f ∧ IsExp e

def IsNumber (n : Bytes) : Prop := IsNumberBy IsInt n

end Numbers

section Trees

/-- A piece of a text with the white space around it. -/
structure Padded (α : Type) where
  before : Bytes
  val : α
  after : Bytes

/-- A value as it is written; the gap is the white space in an object or array that is empty. -/
inductive Node where
  | null
  | bool (b : Bool)
  | num (n : Bytes)
  | str (x : List Chr)
  | obj (gap : Bytes) (ms : List (Padded (List Chr) × Padded Node))
  | arr (gap : Bytes) (as : List (Padded Node))

namespace Node

mutual

def text : Node → Bytes
  | .null => ascii "null"
  | .bool b => ascii (if b then "true" else "false")
  | .num n => n
  | .str x => literal x
  | .obj gap ms => byte '{' :: ((if ms.isEmpty then gap else textMembers ms) ++ [byte '}'])
  | .arr gap as => byte '[' :: ((if as.isEmpty then gap else textItems as) ++ [byte ']'])

def textMembers : List (Padded (List Chr) × Padded Node) → Bytes
  | [] => []
  | (k, .mk before v after) :: ms =>
    k.before ++ (literal k.val ++ (k.after ++ byte ':' :: (before ++ (text v ++ (after ++
      if ms.isEmpty then [] else byte ',' :: textMembers ms)))))

def textItems : List (Padded Node) → Bytes
  | [] => []
  | .mk before v after :: as =>
    before ++ (text v ++ (after ++ if as.isEmpty then [] else byte ',' :: textItems as))

end

mutual

/-- The strings in the text, keys included. -/
def strings : Node → List (List Chr)
  | .str x => [x]
  | .obj _ ms => stringsMembers ms
  | .arr _ as => stringsItems as
  | _ => []

def stringsMembers : List (Padded (List Chr) × Padded Node) → List (List Chr)
  | [] => []
  | (k, .mk _ v _) :: ms => k.val :: (strings v ++ stringsMembers ms)

def stringsItems : List (Padded Node) → List (List Chr)
  | [] => []
  | .mk _ v _ :: as => strings v ++ stringsItems as

end

mutual

def numbers : Node → List Bytes
  | .num n => [n]
  | .obj _ ms => numbersMembers ms
  | .arr _ as => numbersItems as
  | _ => []

def numbersMembers : List (Padded (List Chr) × Padded Node) → List Bytes
  | [] => []
  | (_, .mk _ v _) :: ms => numbers v ++ numbersMembers ms

def numbersItems : List (Padded Node) → List Bytes
  | [] => []
  | .mk _ v _ :: as => numbers v ++ numbersItems as

end

def Blank (w : Bytes) : Prop := ∀ c ∈ w, isWs c = true

/-- The grammar has every piece of the value, which takes so many levels: one, and one more for
every object and array around a value in it. -/
inductive Fits (Number : Bytes → Prop) : ℕ → Node → Prop
  | null {levels} : Fits Number (levels + 1) .null
  | bool {levels b} : Fits Number (levels + 1) (.bool b)
  | num {levels n} : Number n → Fits Number (levels + 1) (.num n)
  | str {levels x} : (∀ c ∈ x, Chr.Ok c) → Fits Number (levels + 1) (.str x)
  | obj {levels gap ms} : Blank gap →
      (∀ m ∈ ms, Blank m.1.before ∧ Blank m.1.after ∧ Blank m.2.before ∧ Blank m.2.after) →
      (∀ m ∈ ms, ∀ c ∈ m.1.val, Chr.Ok c) → (∀ m ∈ ms, Fits Number levels m.2.val) →
      Fits Number (levels + 1) (.obj gap ms)
  | arr {levels gap as} : Blank gap → (∀ a ∈ as, Blank a.before ∧ Blank a.after) →
      (∀ a ∈ as, Fits Number levels a.val) → Fits Number (levels + 1) (.arr gap as)

end Node

/-- The text is that of the value with the white space around it. -/
def Spells (Number : Bytes → Prop) (levels : ℕ) (t : Padded Node) (s : Bytes) : Prop :=
  Node.Blank t.before ∧ Node.Blank t.after ∧ t.val.Fits Number levels ∧
    s = t.before ++ (t.val.text ++ t.after)

/-- A text of RFC 8259 in which every value is inside of at most so many objects and arrays. -/
def IsJson (nesting : ℕ) (s : Bytes) : Prop := ∃ t, Spells IsNumber (nesting + 1) t s

end Trees

end ReadyUp.Support.JsonTree
