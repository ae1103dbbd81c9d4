import Mathlib.Data.List.GetD
import ReadyUp.Config.Codecs

/-!
# Base64 both ways

`Base64Encode` writes three bytes as four digits of six bits. `Base64Decode` keeps 16 bits of what
it has read and does not clear the ones it has already written; a group of four digits still gives
its three bytes, whatever stood there before (`decodeFrom_four`).
-/
namespace ReadyUp.Config.Codecs

open Support

section Encode

/-- The digit for the six bits of `v` at a place. -/
def digitAt (k : Bytes) (v place : UInt32) : UInt8 := k.getD ((v >>> place) &&& 63).toNat 0

/-- `Base64Encode`, with its table of digits. -/
def encodeWith (k : Bytes) : Bytes → Bytes
  | [] => []
  | [a] =>
    let v := a.toUInt32 <<< 16
    [digitAt k v 18, digitAt k v 12, byte '=', byte '=']
  | [a, b] =>
    let v := (a.toUInt32 <<< 16) ||| (b.toUInt32 <<< 8)
    [digitAt k v 18, digitAt k v 12, digitAt k v 6, byte '=']
  | a :: b :: c :: s =>
    let v := (a.toUInt32 <<< 16) ||| (b.toUInt32 <<< 8) ||| c.toUInt32
    digitAt k v 18 :: digitAt k v 12 :: digitAt k v 6 :: digitAt k v 0 :: encodeWith k s

def base64Encode (data : Bytes) : Bytes := encodeWith kB64 data

end Encode

section Digits

variable {v place : UInt32}

theorem toNat_six (hplace : place.toNat < 32) :
    ((v >>> place) &&& 63).toNat = v.toNat / 2 ^ place.toNat % 64 := by
  have hmask : (63 : UInt32).toNat = 2 ^ 6 - 1 := rfl
  rw [UInt32.toNat_and, UInt32.toNat_shiftRight, hmask, Nat.and_two_pow_sub_one_eq_mod,
    Nat.mod_eq_of_lt hplace, Nat.shiftRight_eq_div_pow]

theorem kB64_eq :
    kB64 = ((List.range' 65 26 ++ List.range' 97 26 ++ List.range' 48 10 ++ [43, 47]).map
      Nat.toUInt8) := by decide

theorem length_kB64 : kB64.length = 64 := by
  simp [kB64_eq]

theorem nodup_kB64 : kB64.Nodup := by
  rw [kB64_eq]
  decide

/-- No digit is a line break or the sign that fills the last group. -/
theorem plain_of_mem_kB64 {c : UInt8} (h : c ∈ kB64) :
    c ≠ byte '\n' ∧ c ≠ byte '\r' ∧ c ≠ byte '=' := by
  have hnot : byte '\n' ∉ kB64 ∧ byte '\r' ∉ kB64 ∧ byte '=' ∉ kB64 := by
    rw [kB64_eq]
    decide
  exact ⟨ne_of_mem_of_not_mem h hnot.1, ne_of_mem_of_not_mem h hnot.2.1,
    ne_of_mem_of_not_mem h hnot.2.2⟩

theorem getD_mem_kB64 {i : ℕ} (h : i < 64) : kB64.getD i 0 ∈ kB64 := by
  have hlt : i < kB64.length := by rwa [length_kB64]
  rw [List.getD_eq_getElem _ _ hlt]
  exact List.getElem_mem hlt

theorem idxOf?_kB64 {i : ℕ} (h : i < 64) : kB64.idxOf? (kB64.getD i 0) = some i := by
  have hlt : i < kB64.length := by rwa [length_kB64]
  rw [List.getD_eq_getElem _ _ hlt, List.idxOf?_eq_some_iff]
  refine ⟨hlt, rfl, fun j hj => ?_⟩
  simp only [nodup_kB64.getElem_inj_iff]
  omega

theorem toNat_group (a b c : UInt8) :
    ((a.toUInt32 <<< 16) ||| (b.toUInt32 <<< 8) ||| c.toUInt32).toNat =
      a.toNat * 65536 + b.toNat * 256 + c.toNat := by
  have ha := a.toNat_lt
  have hb := b.toNat_lt
  have hc := c.toNat_lt
  have hhigh : (a.toUInt32 <<< 16).toNat = 2 ^ 16 * a.toNat := by
    simp [UInt32.toNat_shiftLeft, Nat.shiftLeft_eq]
    omega
  have hmid : (b.toUInt32 <<< 8).toNat = 2 ^ 8 * b.toNat := by
    simp [UInt32.toNat_shiftLeft, Nat.shiftLeft_eq]
    omega
  have htwo : 2 ^ 16 * a.toNat ||| 2 ^ 8 * b.toNat = 2 ^ 8 * (a.toNat * 256 + b.toNat) := by
    rw [← Nat.two_pow_add_eq_or_of_lt (by omega)]
    ring
  rw [UInt32.toNat_or, UInt32.toNat_or, hhigh, hmid, htwo,
    UInt8.toNat_toUInt32, ← Nat.two_pow_add_eq_or_of_lt (by omega)]
  ring

/-- The bytes of 24 bits, where the higher ones are not cut off. -/
theorem bytes_group (a b c : UInt8) :
    ((a.toNat * 65536 + b.toNat * 256 + c.toNat) / 2 ^ 16).toUInt8 = a ∧
      ((a.toNat * 65536 + b.toNat * 256 + c.toNat) / 2 ^ 8).toUInt8 = b ∧
      (a.toNat * 65536 + b.toNat * 256 + c.toNat).toUInt8 = c := by
  have ha := a.toNat_lt
  have hb := b.toNat_lt
  have hc := c.toNat_lt
  refine ⟨UInt8.toNat_inj.mp ?_, UInt8.toNat_inj.mp ?_, UInt8.toNat_inj.mp ?_⟩ <;>
    simp only [UInt8.toNat_ofNat', Nat.toUInt8_eq] <;> omega

end Digits

section Decode

variable {val i j k l : ℕ} {s : Bytes}

/-- A digit adds six bits, and gives a byte when there are eight that are not written. -/
theorem decodeFrom_digit (bits : ℤ) (h : i < 64) :
    decodeFrom val bits 0 (kB64.getD i 0 :: s) =
      if 0 ≤ bits + 6 then
        (decodeFrom ((val * 64 + i) % 2 ^ 16) (bits - 2) 0 s).map
          (((val * 64 + i) / 2 ^ (bits + 6).toNat).toUInt8 :: ·)
      else decodeFrom ((val * 64 + i) % 2 ^ 16) (bits + 6) 0 s := by
  obtain ⟨hline, hreturn, hfill⟩ := plain_of_mem_kB64 (getD_mem_kB64 h)
  simp only [decodeFrom, hline, hreturn, hfill, idxOf?_kB64 h, or_self, if_false, ne_eq,
    not_true_eq_false, Option.bind_some]

theorem written_congr {m n w x : ℕ} (bits : ℤ) (h : m % 256 = n % 256) (hw : w = x) :
    (decodeFrom w bits 0 s).map (m.toUInt8 :: ·) =
      (decodeFrom x bits 0 s).map (n.toUInt8 :: ·) := by
  have hbyte : m.toUInt8 = n.toUInt8 := by
    apply UInt8.toNat_inj.mp
    simpa using h
  rw [hbyte, hw]

variable (val v : ℕ) (s : Bytes)

/-- Two digits give the first byte of a group, whatever was read before it. -/
theorem decodeFrom_two :
    decodeFrom val (-8) 0 (kB64.getD (v / 2 ^ 18 % 64) 0 :: kB64.getD (v / 2 ^ 12 % 64) 0 :: s) =
      (decodeFrom ((val * 2 ^ 12 + v / 2 ^ 12 % 2 ^ 12) % 2 ^ 16) (-4) 0 s).map
        ((v / 2 ^ 16).toUInt8 :: ·) := by
  rw [decodeFrom_digit _ (by omega), if_neg (by decide), decodeFrom_digit _ (by omega),
    if_pos (by decide)]
  refine written_congr _ ?_ (by omega)
  simp
  omega

theorem decodeFrom_three :
    decodeFrom ((val * 2 ^ 12 + v / 2 ^ 12 % 2 ^ 12) % 2 ^ 16) (-4) 0
      (kB64.getD (v / 2 ^ 6 % 64) 0 :: s) =
      (decodeFrom ((val * 2 ^ 18 + v / 2 ^ 6 % 2 ^ 18) % 2 ^ 16) (-6) 0 s).map
        ((v / 2 ^ 8).toUInt8 :: ·) := by
  rw [decodeFrom_digit _ (by omega), if_pos (by decide)]
  refine written_congr _ ?_ (by omega)
  simp
  omega

theorem decodeFrom_four :
    decodeFrom ((val * 2 ^ 18 + v / 2 ^ 6 % 2 ^ 18) % 2 ^ 16) (-6) 0
      (kB64.getD (v / 2 ^ 0 % 64) 0 :: s) =
      (decodeFrom (v % 2 ^ 16) (-8) 0 s).map (v.toUInt8 :: ·) := by
  rw [decodeFrom_digit _ (by omega), if_pos (by decide)]
  refine written_congr _ ?_ (by omega)
  simp
  omega

theorem decodeFrom_encodeWith (data : Bytes) :
    ∀ val, decodeFrom val (-8) 0 (encodeWith kB64 data) = some data := by
  induction data using encodeWith.induct with
  | case1 => simp [encodeWith, decodeFrom]
  | case2 a =>
    intro val
    have hv :
        (a.toUInt32 <<< 16).toNat = a.toNat * 65536 + (0 : UInt8).toNat * 256 +
          (0 : UInt8).toNat := by
      simpa using toNat_group a 0 0
    obtain ⟨ha, -, -⟩ := bytes_group a 0 0
    simp (disch := decide) only [encodeWith, digitAt, toNat_six, UInt32.reduceToNat, hv]
    rw [decodeFrom_two, ha]
    simp [decodeFrom]
  | case3 a b =>
    intro val
    have hv : ((a.toUInt32 <<< 16) ||| (b.toUInt32 <<< 8)).toNat =
        a.toNat * 65536 + b.toNat * 256 + (0 : UInt8).toNat := by
      simpa using toNat_group a b 0
    obtain ⟨ha, hb, -⟩ := bytes_group a b 0
    simp (disch := decide) only [encodeWith, digitAt, toNat_six, UInt32.reduceToNat, hv]
    rw [decodeFrom_two, decodeFrom_three, ha, hb]
    simp [decodeFrom]
  | case4 a b c s ih =>
    intro val
    obtain ⟨ha, hb, hc⟩ := bytes_group a b c
    simp (disch := decide) only [encodeWith, digitAt, toNat_six, UInt32.reduceToNat, toNat_group]
    rw [decodeFrom_two, decodeFrom_three, decodeFrom_four, ih, ha, hb, hc]
    rfl

/-- `Base64Decode` gives back what `Base64Encode` was given. -/
theorem base64Decode_encode (data : Bytes) : base64Decode (base64Encode data) = some data :=
  decodeFrom_encodeWith data 0

end Decode

end ReadyUp.Config.Codecs
