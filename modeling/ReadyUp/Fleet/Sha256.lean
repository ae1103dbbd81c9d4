import ReadyUp.Config.Base64
import ReadyUp.Support.Blocks

/-!
# The digest of a demo that is read in parts

The fleet plugin reads a demo file part by part and takes the digest as it goes. `Sha256` keeps the
bytes after the last whole block in a buffer of 64, and pads through its own `Update`. However the
file was cut (`Sound`), the digest is the one that the match plugin computes from all the bytes at
once.
-/
namespace ReadyUp.Fleet

open Support Config

section Model

def kK : List UInt32 :=
  [0x428a2f98, 0x71374491, 0xb5c0fbcf, 0xe9b5dba5, 0x3956c25b, 0x59f111f1, 0x923f82a4, 0xab1c5ed5,
    0xd807aa98, 0x12835b01, 0x243185be, 0x550c7dc3, 0x72be5d74, 0x80deb1fe, 0x9bdc06a7, 0xc19bf174,
    0xe49b69c1, 0xefbe4786, 0x0fc19dc6, 0x240ca1cc,
    0x2de92c6f, 0x4a7484aa, 0x5cb0a9dc, 0x76f988da, 0x983e5152, 0xa831c66d, 0xb00327c8, 0xbf597fc7,
    0xc6e00bf3, 0xd5a79147, 0x06ca6351, 0x14292967, 0x27b70a85, 0x2e1b2138, 0x4d2c6dfc, 0x53380d13,
    0x650a7354, 0x766a0abb, 0x81c2c92e, 0x92722c85,
    0xa2bfe8a1, 0xa81a664b, 0xc24b8b70, 0xc76c51a3, 0xd192e819, 0xd6990624, 0xf40e3585, 0x106aa070,
    0x19a4c116, 0x1e376c08, 0x2748774c, 0x34b0bcb5, 0x391c0cb3, 0x4ed8aa4a, 0x5b9cca4f, 0x682e6ff3,
    0x748f82ee, 0x78a5636f, 0x84c87814, 0x8cc70208, 0x90befffa, 0xa4506ceb, 0xbef9a3f7, 0xc67178f2]

def block (h : Codecs.Words) (p : Bytes) : Codecs.Words :=
  let t := (kK.zip (Codecs.extend 48 (Codecs.wordsOf p).reverse).reverse).foldl Codecs.mix h
  { a := h.a + t.a, b := h.b + t.b, c := h.c + t.c, d := h.d + t.d, e := h.e + t.e, f := h.f + t.f,
    g := h.g + t.g, h := h.h + t.h }

/-- The loop of `Update` over the whole blocks, and the bytes that are left. -/
def blocks (h : Codecs.Words) (p : Bytes) : Codecs.Words × Bytes :=
  if 64 ≤ p.length then blocks (block h (p.take 64)) (p.drop 64) else (h, p)
termination_by p.length
decreasing_by simp only [List.length_drop]; omega

theorem blocks_eq (h : Codecs.Words) (p : Bytes) :
    blocks h p = (absorb 64 block h p, pending 64 p) := by
  induction p using blocks_induction 64 (by decide) generalizing h with
  | hshort p hp =>
    rw [blocks, if_neg (by omega), absorb_of_length_lt hp, pending_of_length_lt hp]
  | hblock k p hk ih =>
    have htake : (k ++ p).take 64 = k := by
      rw [← hk, List.take_left]
    have hdrop : (k ++ p).drop 64 = p := by
      rw [← hk, List.drop_left]
    rw [blocks, if_pos (by simp only [List.length_append]; omega), htake, hdrop, ih,
      absorb_block_append hk (by decide), pending_block_append hk (by decide)]

/-- `Sha256`, with the part of `buf_` that is in use. -/
structure Sha256 where
  h : Codecs.Words :=
    { a := 0x6a09e667, b := 0xbb67ae85, c := 0x3c6ef372, d := 0xa54ff53a, e := 0x510e527f,
                        f := 0x9b05688c, g := 0x1f83d9ab, h := 0x5be0cd19 }
  buf : Bytes := []
  total : UInt64 := 0
  room : buf.length < 64 := by decide

theorem length_blocks_lt (h : Codecs.Words) (p : Bytes) : (blocks h p).2.length < 64 := by
  rw [blocks_eq]
  exact length_pending_lt (by decide) p

/-- The bytes that `Update` puts behind the ones in the buffer. -/
def Sha256.filled (s : Sha256) (p : Bytes) : Bytes :=
  if 0 < s.buf.length then p.take (64 - s.buf.length) else []

theorem Sha256.length_filled_le (s : Sha256) (p : Bytes) : (s.buf ++ s.filled p).length ≤ 64 := by
  have hroom := s.room
  unfold filled
  split <;> simp only [List.length_append, List.length_take, List.length_nil] <;> omega

/-- What stays in the buffer: what the loop leaves, or else what was there. -/
theorem kept_lt {buf rest : Bytes} (hbuf : buf.length ≤ 64) (hrest : rest.length < 64) :
    (if 0 < rest.length then rest else if buf.length = 64 then [] else buf).length < 64 := by
  split_ifs
  · exact hrest
  · simp
  · omega

def Sha256.update (s : Sha256) (p : Bytes) : Sha256 :=
  let buf := s.buf ++ s.filled p
  let left := blocks (if buf.length = 64 then block s.h buf else s.h) (p.drop (s.filled p).length)
  { h := left.1
    buf := if 0 < left.2.length then left.2 else if buf.length = 64 then [] else buf
    total := s.total + p.length.toUInt64
    room := kept_lt (s.length_filled_le p) (length_blocks_lt _ _) }

theorem Sha256.filled_append_drop (s : Sha256) (p : Bytes) :
    s.filled p ++ p.drop (s.filled p).length = p := by
  have hprefix : s.filled p <+: p := by
    unfold filled
    split
    · exact List.take_prefix _ p
    · exact List.nil_prefix
  exact (List.prefix_append_drop hprefix).symm

/-- The buffer is full, or nothing stands in it, or all bytes went into it. -/
theorem Sha256.filled_cases (s : Sha256) (p : Bytes) :
    (s.buf ++ s.filled p).length = 64 ∨ s.buf ++ s.filled p = [] ∨
      (s.buf ++ s.filled p).length < 64 ∧ p.drop (s.filled p).length = [] := by
  have hroom := s.room
  by_cases hbuf : 0 < s.buf.length
  · have hfilled : s.filled p = p.take (64 - s.buf.length) := by simp only [filled, hbuf, if_true]
    by_cases hlong : 64 - s.buf.length ≤ p.length
    · left
      simp only [hfilled, List.length_append, List.length_take]
      omega
    · right; right
      simp only [hfilled, List.length_append, List.length_take, List.drop_eq_nil_iff]
      omega
  · right; left
    have hempty : s.buf = [] := List.eq_nil_of_length_eq_zero (by omega)
    simp [filled, hempty]

/-- `Update` takes the stream of the bytes in the buffer and the new ones. -/
theorem Sha256.update_eq (s : Sha256) (p : Bytes) :
    (s.update p).h = absorb 64 block s.h (s.buf ++ p) ∧
    (s.update p).buf = pending 64 (s.buf ++ p) := by
  have hall : s.buf ++ p = s.buf ++ s.filled p ++ p.drop (s.filled p).length := by
    rw [List.append_assoc, s.filled_append_drop p]
  rw [hall]
  simp only [update, blocks_eq]
  obtain hfull | hempty | ⟨hshort, hrest⟩ := s.filled_cases p
  · rw [absorb_block_append hfull (by decide), pending_block_append hfull (by decide)]
    simp only [hfull, if_true, true_and]
    split_ifs with hleft
    · rfl
    · exact (List.eq_nil_of_length_eq_zero (by omega)).symm
  · simp only [hempty, List.nil_append, List.length_nil, show ¬0 = 64 by decide, if_false, true_and]
    split_ifs with hleft
    · rfl
    · exact (List.eq_nil_of_length_eq_zero (by omega)).symm
  · simp only [hrest, List.append_nil, hshort.ne, if_false]
    rw [absorb_of_length_lt hshort, pending_of_length_lt hshort]
    simp [absorb, pending]

theorem Sha256.length_buf_update (s : Sha256) (p : Bytes) :
    (s.update p).buf.length = (s.buf.length + p.length) % 64 := by
  rw [(s.update_eq p).2, length_pending, List.length_append]

/-- The loop of `HexDigest` that fills a block up to the number of bits. -/
def Sha256.zeros (s : Sha256) : Sha256 := if s.buf.length = 56 then s else zeros (s.update [0])
termination_by (120 - s.buf.length) % 64
decreasing_by
  have hroom := s.room
  simp only [Sha256.length_buf_update, List.length_singleton]
  omega

/-- The eight bytes of the number of bits. -/
def bitCount (bits : UInt64) : Bytes :=
  ([56, 48, 40, 32, 24, 16, 8, 0] : List UInt64).map fun i => (bits >>> i).toUInt8

/-- The digits of a word, the highest first. -/
def hexOf (v : UInt32) : Bytes :=
  ([28, 24, 20, 16, 12, 8, 4, 0] : List UInt32).map fun i =>
    (ascii "0123456789abcdef").getD ((v >>> i) &&& 0xf).toNat 0

def Sha256.hexDigest (s : Sha256) : Bytes :=
  let bits := s.total * 8
  let t := (s.update [0x80]).zeros.update (bitCount bits)
  [t.h.a, t.h.b, t.h.c, t.h.d, t.h.e, t.h.f, t.h.g, t.h.h].flatMap hexOf

end Model

section Stream

/-- The digest has taken `data`: its whole blocks, and the rest is in the buffer. -/
structure Sha256.Sound (s : Sha256) (data : Bytes) : Prop where
  words : s.h = absorb 64 block Codecs.initial data
  buf : s.buf = pending 64 data
  total : s.total.toNat = data.length % 2 ^ 64

variable {s : Sha256} {data : Bytes}

theorem Sha256.sound_new : Sha256.Sound {} [] where
  words := rfl
  buf := rfl
  total := rfl

theorem Sha256.Sound.update (h : s.Sound data) (p : Bytes) : (s.update p).Sound (data ++ p) where
  words := by
    rw [(s.update_eq p).1, h.words, h.buf, ← absorb_append (by decide)]
  buf := by
    rw [(s.update_eq p).2, h.buf, ← pending_append (by decide)]
  total := by
    have htotal : (s.update p).total = s.total + p.length.toUInt64 := rfl
    rw [htotal, UInt64.toNat_add, h.total, List.length_append, Nat.toUInt64_eq, UInt64.toNat_ofNat']
    omega

theorem Sha256.Sound.updates (h : s.Sound data) (chunks : List Bytes) :
    (chunks.foldl Sha256.update s).Sound (data ++ chunks.flatten) := by
  induction chunks generalizing s data with
  | nil => simpa using h
  | cons p chunks ih =>
    simpa using ih (h.update p)

theorem Sha256.Sound.length_buf (h : s.Sound data) : s.buf.length = data.length % 64 := by
  rw [h.buf, length_pending]

theorem Sha256.Sound.zeros (h : s.Sound data) :
    s.zeros.Sound (data ++ List.replicate ((120 - data.length % 64) % 64) 0) := by
  induction s using Sha256.zeros.induct generalizing data with
  | case1 s hfull =>
    rw [Sha256.zeros, if_pos hfull]
    have hnone : (120 - data.length % 64) % 64 = 0 := by
      have hlength := h.length_buf
      omega
    simpa [hnone] using h
  | case2 s hmore ih =>
    rw [Sha256.zeros, if_neg hmore]
    have hone : (120 - data.length % 64) % 64 = (120 - (data ++ [0]).length % 64) % 64 + 1 := by
      have hlength := h.length_buf
      simp only [List.length_append, List.length_singleton]
      omega
    have hstep := ih (h.update [0])
    rwa [List.append_assoc, List.singleton_append, ← List.replicate_succ, ← hone] at hstep

theorem toUInt8_shiftRight (v : UInt64) {i : UInt64} (hi : i.toNat < 64) :
    (v >>> i).toUInt8 = (v.toNat / 2 ^ i.toNat).toUInt8 := by
  apply UInt8.toNat_inj.mp
  rw [UInt64.toNat_toUInt8, UInt64.toNat_shiftRight, Nat.mod_eq_of_lt hi, Nat.shiftRight_eq_div_pow,
    Nat.toUInt8_eq, UInt8.toNat_ofNat']

theorem bitCount_eq (h : s.Sound data) :
    bitCount (s.total * 8) = Codecs.bigEndian (data.length * 8 % 2 ^ 64) := by
  have hbits : (s.total * 8).toNat = data.length * 8 % 2 ^ 64 := by
    rw [UInt64.toNat_mul, h.total]
    simp
  simp (disch := decide) only [bitCount, Codecs.bigEndian, List.map_cons, List.map_nil,
    toUInt8_shiftRight, hbits, UInt64.reduceToNat, Nat.reduceMul]

theorem Sha256.Sound.hexDigest (h : s.Sound data) : s.hexDigest = Codecs.sha256Hex data := by
  have hpadded : data ++ [0x80] ++ List.replicate ((120 - (data ++ [0x80]).length % 64) % 64) 0 ++
      bitCount (s.total * 8) = Codecs.padded data := by
    have hcount :
        (120 - (data ++ [(0x80 : UInt8)]).length % 64) % 64 = (119 - data.length % 64) % 64 := by
      simp only [List.length_append, List.length_singleton]
      omega
    rw [hcount, bitCount_eq h]
    simp [Codecs.padded]
  have hlast := ((h.update [0x80]).zeros.update (bitCount (s.total * 8))).words
  rw [hpadded] at hlast
  have hsame : absorb 64 block Codecs.initial (Codecs.padded data) = Codecs.digest data := rfl
  rw [Sha256.hexDigest, hlast, hsame]
  rfl

end Stream

section Base64

/-- The digits of `Base64Encode`. -/
def k64 : Bytes := ascii "ABCDEFGHIJKLMNOPQRSTUVWXYZabcdefghijklmnopqrstuvwxyz0123456789+/"

def base64Encode (data : Bytes) : Bytes := Codecs.encodeWith k64 data

theorem base64Encode_eq (data : Bytes) : base64Encode data = Codecs.base64Encode data := rfl

end Base64

/-- The two plugins agree on digests and on base64, and what one encodes the other decodes. -/
theorem codecs_agree :
    (∀ chunks : List Bytes, (chunks.foldl Sha256.update {}).hexDigest =
      Codecs.sha256Hex chunks.flatten) ∧
      ∀ data, base64Encode data = Codecs.base64Encode data ∧
      Codecs.base64Decode (base64Encode data) = some data := by
  constructor
  · intro chunks
    have hsound := Sha256.sound_new.updates chunks
    rw [List.nil_append] at hsound
    exact hsound.hexDigest
  · intro data
    refine ⟨base64Encode_eq data, ?_⟩
    rw [base64Encode_eq]
    exact Codecs.base64Decode_encode data

end ReadyUp.Fleet
