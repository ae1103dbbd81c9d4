import ReadyUp.Support.Decimal

/-!
# Digests and base64

The match plugin computes SHA-256 itself, and decodes the base64 of an inline backup.
-/
namespace ReadyUp.Config.Codecs

open Support

section Sha256

def kK : List UInt32 :=
  [0x428a2f98, 0x71374491, 0xb5c0fbcf, 0xe9b5dba5, 0x3956c25b, 0x59f111f1, 0x923f82a4, 0xab1c5ed5,
    0xd807aa98, 0x12835b01, 0x243185be, 0x550c7dc3, 0x72be5d74, 0x80deb1fe, 0x9bdc06a7, 0xc19bf174,
    0xe49b69c1, 0xefbe4786, 0x0fc19dc6, 0x240ca1cc, 0x2de92c6f, 0x4a7484aa, 0x5cb0a9dc, 0x76f988da,
    0x983e5152, 0xa831c66d, 0xb00327c8, 0xbf597fc7, 0xc6e00bf3, 0xd5a79147, 0x06ca6351, 0x14292967,
    0x27b70a85, 0x2e1b2138, 0x4d2c6dfc, 0x53380d13, 0x650a7354, 0x766a0abb, 0x81c2c92e, 0x92722c85,
    0xa2bfe8a1, 0xa81a664b, 0xc24b8b70, 0xc76c51a3, 0xd192e819, 0xd6990624, 0xf40e3585, 0x106aa070,
    0x19a4c116, 0x1e376c08, 0x2748774c, 0x34b0bcb5, 0x391c0cb3, 0x4ed8aa4a, 0x5b9cca4f, 0x682e6ff3,
    0x748f82ee, 0x78a5636f, 0x84c87814, 0x8cc70208, 0x90befffa, 0xa4506ceb, 0xbef9a3f7, 0xc67178f2]

def rotr (x n : UInt32) : UInt32 := (x >>> n) ||| (x <<< (32 - n))

/-- The words of a digest, and of the work on a block. -/
structure Words where
  a : UInt32
  b : UInt32
  c : UInt32
  d : UInt32
  e : UInt32
  f : UInt32
  g : UInt32
  h : UInt32

def initial : Words where
  a := 0x6a09e667
  b := 0xbb67ae85
  c := 0x3c6ef372
  d := 0xa54ff53a
  e := 0x510e527f
  f := 0x9b05688c
  g := 0x1f83d9ab
  h := 0x5be0cd19

/-- The next word of a block, whose last word comes first. -/
def nextWord (w : List UInt32) : UInt32 :=
  let x := w.getD 14 0
  let y := w.getD 1 0
  let s0 := rotr x 7 ^^^ rotr x 18 ^^^ (x >>> 3)
  let s1 := rotr y 17 ^^^ rotr y 19 ^^^ (y >>> 10)
  w.getD 15 0 + s0 + w.getD 6 0 + s1

def extend : ℕ → List UInt32 → List UInt32
  | 0, w => w
  | n + 1, w => extend n (nextWord w :: w)

/-- One of the 64 rounds, with its constant and its word. -/
def mix (s : Words) (kw : UInt32 × UInt32) : Words :=
  let s1 := rotr s.e 6 ^^^ rotr s.e 11 ^^^ rotr s.e 25
  let ch := (s.e &&& s.f) ^^^ (~~~s.e &&& s.g)
  let t1 := s.h + s1 + ch + kw.1 + kw.2
  let s0 := rotr s.a 2 ^^^ rotr s.a 13 ^^^ rotr s.a 22
  let maj := (s.a &&& s.b) ^^^ (s.a &&& s.c) ^^^ (s.b &&& s.c)
  { a := t1 + (s0 + maj), b := s.a, c := s.b, d := s.c, e := s.d + t1, f := s.e,
    g := s.f, h := s.g }

/-- The words of a block, big end first. -/
def wordsOf : Bytes → List UInt32
  | p :: q :: r :: t :: s =>
    ((p.toUInt32 <<< 24) ||| (q.toUInt32 <<< 16) ||| (r.toUInt32 <<< 8) ||| t.toUInt32) :: wordsOf s
  | _ => []

def compress (s : Words) (block : Bytes) : Words :=
  let t := (kK.zip (extend 48 (wordsOf block).reverse).reverse).foldl mix s
  { a := s.a + t.a, b := s.b + t.b, c := s.c + t.c, d := s.d + t.d, e := s.e + t.e, f := s.f + t.f,
    g := s.g + t.g, h := s.h + t.h }

/-- The bytes of a number of 64 bits, big end first. -/
def bigEndian (n : ℕ) : Bytes := [7, 6, 5, 4, 3, 2, 1, 0].map fun i => (n / 2 ^ (i * 8)).toUInt8

/-- The data with a bit, zeros up to the last eight bytes of a block, and the number of its bits. -/
def padded (data : Bytes) : Bytes :=
  data ++ 0x80 :: (List.replicate ((119 - data.length % 64) % 64) 0 ++
    bigEndian (data.length * 8 % 2 ^ 64))

def digest (data : Bytes) : Words :=
  let msg := padded data
  (List.range (msg.length / 64)).foldl (fun s i => compress s ((msg.drop (i * 64)).take 64)) initial

/-- The digits of a word, the highest first. -/
def hexWord (v : UInt32) : Bytes :=
  ([28, 24, 20, 16, 12, 8, 4, 0] : List UInt32).map fun i =>
    (ascii "0123456789abcdef").getD ((v >>> i) &&& 0xf).toNat 0

def sha256Hex (data : Bytes) : Bytes :=
  let s := digest data
  [s.a, s.b, s.c, s.d, s.e, s.f, s.g, s.h].flatMap hexWord

end Sha256

section Base64

def kB64 : Bytes := ascii "ABCDEFGHIJKLMNOPQRSTUVWXYZabcdefghijklmnopqrstuvwxyz0123456789+/"

/-- The loop of `Base64Decode`. -/
def decodeFrom : ℕ → ℤ → ℕ → Bytes → Option Bytes
  | _, _, pad, [] => if pad ≤ 2 then some [] else none
  | val, bits, pad, c :: s =>
    if c = byte '\n' ∨ c = byte '\r' then decodeFrom val bits pad s
    else if c = byte '=' then decodeFrom val bits (pad + 1) s
    else if pad ≠ 0 then none
    else
      (kB64.idxOf? c).bind fun v =>
        let val := val * 64 + v
        if 0 ≤ bits + 6 then
          (decodeFrom (val % 2 ^ 16) (bits - 2) pad s).map
            ((val / 2 ^ (bits + 6).toNat).toUInt8 :: ·)
        else decodeFrom (val % 2 ^ 16) (bits + 6) pad s

def base64Decode (text : Bytes) : Option Bytes := decodeFrom 0 (-8) 0 text

end Base64

end ReadyUp.Config.Codecs
