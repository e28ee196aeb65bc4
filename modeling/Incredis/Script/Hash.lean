import Incredis.Hex
import Incredis.Reply
import Mathlib.Algebra.Ring.Int.Defs

/-! The SHA1 of a script: the text that the CryptoPP build makes of a digest, and
the array that both builds keep. -/
namespace Incredis.Script

/-- The bytes that `CalculateDigest` writes. -/
abbrev Digest := { rawBytes : List UInt8 // rawBytes.length = 20 }

abbrev Sha1Array := { chars : List Char // chars.length = 40 }

/-- What comes from elsewhere: the digest of CryptoPP, and `int_to_ary_hex` of
duckhandy as an array of characters with its NUL. -/
structure Hashing where
  calculateDigest : String → Digest
  intToAryHex : Nat → List Char

def nul : Char := Char.ofNat 0

structure Hashing.Correct (hashing : Hashing) : Prop where
  intToAryHex : ∀ n < 2 ^ 64, hashing.intToAryHex n = Nat.toDigits 16 n ++ [nul]

/-- The canonical text of a digest. -/
def hexText (digest : Digest) : String := String.ofList (Hex.text digest.val)

/-- The same, as kept. -/
def hexArray (digest : Digest) : Sha1Array :=
  ⟨Hex.text digest.val, by rw [Hex.length_text, digest.property]⟩

namespace Digest
variable (digest : Digest)

/-! `LuaScriptHash` on a little-endian host. -/

def bytesA : List UInt8 := digest.val.take 8
def bytesB : List UInt8 := (digest.val.drop 8).take 8
def bytesC : List UInt8 := digest.val.drop 16

def partA : Nat := Hex.littleEndian digest.bytesA
def partB : Nat := Hex.littleEndian digest.bytesB
def partC : Nat := Hex.littleEndian digest.bytesC

theorem bytes_eq : digest.val = digest.bytesA ++ digest.bytesB ++ digest.bytesC := by
  simp only [bytesA, bytesB, bytesC, List.append_assoc]
  rw [show digest.val.drop 16 = (digest.val.drop 8).drop 8 by rw [List.drop_drop],
    List.take_append_drop, List.take_append_drop]

@[simp] theorem length_bytesA : digest.bytesA.length = 8 := by
  rw [bytesA, List.length_take, digest.property]
  rfl

@[simp] theorem length_bytesB : digest.bytesB.length = 8 := by
  rw [bytesB, List.length_take, List.length_drop, digest.property]
  rfl

@[simp] theorem length_bytesC : digest.bytesC.length = 4 := by
  rw [bytesC, List.length_drop, digest.property]

end Digest

/-- Arithmetic on `std::size_t` wraps around. -/
def sizeT (n : Int) : Nat := (n % 2 ^ 64).toNat

/-- One of the three terms of the sum that makes `sha1_str`. Appending an array to
a string leaves the NUL out. -/
def padded (sizeOfPart : Nat) (part : List Char) : List Char :=
  List.replicate (sizeT (sizeOfPart * 2 - part.length + 1)) '0' ++ part.dropLast

def sha1Str (hashing : Hashing) (digest : Digest) : String :=
  let sha1StrPartA := hashing.intToAryHex (Hex.byteSwap 8 digest.partA)
  let sha1StrPartB := hashing.intToAryHex (Hex.byteSwap 8 digest.partB)
  let sha1StrPartC := hashing.intToAryHex (Hex.byteSwap 4 digest.partC)
  String.ofList (padded 8 sha1StrPartA ++ padded 8 sha1StrPartB ++ padded 4 sha1StrPartC)

/-- `std::copy` to the start of an array. -/
def copyTo (old : Sha1Array) (sha1Str : String) : Except Exception Sha1Array :=
  if fits : sha1Str.toList.length ≤ 40 then
    .ok ⟨sha1Str.toList ++ old.val.drop sha1Str.toList.length, by
      rw [List.length_append, List.length_drop, old.property]; omega⟩
  else .error .outOfRange

variable {hashing : Hashing}

/-- One part becomes the text of its bytes. -/
theorem padded_part (correct : hashing.Correct) (bytes : List UInt8) (some : 0 < bytes.length)
    (fits : bytes.length ≤ 8) :
    padded bytes.length (hashing.intToAryHex (Hex.byteSwap bytes.length (Hex.littleEndian bytes))) =
      Hex.text bytes := by
  have bound := Hex.littleEndian_lt bytes.reverse
  rw [List.length_reverse] at bound
  have hex : Hex.littleEndian bytes.reverse < 16 ^ (2 * bytes.length) := by
    rwa [Nat.pow_mul]
  have word : Hex.littleEndian bytes.reverse < 2 ^ 64 :=
    calc Hex.littleEndian bytes.reverse < 256 ^ bytes.length := bound
      _ ≤ 256 ^ 8 := Nat.pow_le_pow_right (by decide) fits
      _ = 2 ^ 64 := by decide
  have digitCount := (Nat.length_toDigits_le_iff (b := 16) (by decide) (by omega)).mpr hex
  have zeros : sizeT (bytes.length * 2 -
      (Nat.toDigits 16 (Hex.littleEndian bytes.reverse) ++ [nul]).length + 1) =
        2 * bytes.length - (Nat.toDigits 16 (Hex.littleEndian bytes.reverse)).length := by
    rw [List.length_append, List.length_singleton, sizeT]
    omega
  rw [Hex.byteSwap_littleEndian, correct.intToAryHex _ word, padded, zeros,
    List.dropLast_concat, Hex.padded_toDigits hex (by omega)]
  have reversed := Hex.digits_littleEndian bytes.reverse
  rwa [List.length_reverse, List.reverse_reverse] at reversed

/-- Zero bytes at the start of a part make no difference. -/
theorem sha1Str_eq (correct : hashing.Correct) (digest : Digest) :
    sha1Str hashing digest = hexText digest := by
  have partA := padded_part correct digest.bytesA (by simp) (by simp)
  have partB := padded_part correct digest.bytesB (by simp) (by simp)
  have partC := padded_part correct digest.bytesC (by simp) (by simp)
  rw [Digest.length_bytesA] at partA
  rw [Digest.length_bytesB] at partB
  rw [Digest.length_bytesC] at partC
  simp only [sha1Str, hexText, Digest.partA, Digest.partB, Digest.partC, partA, partB, partC]
  rw [← Hex.text_append, ← Hex.text_append, ← digest.bytes_eq]

theorem length_hexText (digest : Digest) : (hexText digest).toList.length = 40 := by
  rw [hexText, String.toList_ofList]
  exact (hexArray digest).property

/-- The text has forty characters: the two lowercase digits of every byte of the digest,
in its order. -/
theorem sha1Str_canonical (correct : hashing.Correct) (digest : Digest) :
    (sha1Str hashing digest).toList.length = 40 ∧
      (sha1Str hashing digest).toList = digest.val.flatMap Hex.ofByte ∧
      ∀ char ∈ (sha1Str hashing digest).toList, char ∈ Hex.alphabet := by
  have bytes : (sha1Str hashing digest).toList = Hex.text digest.val := by
    rw [sha1Str_eq correct, hexText, String.toList_ofList]
  refine ⟨?_, bytes, fun char member => ?_⟩
  · rw [sha1Str_eq correct]
    exact length_hexText digest
  · rw [bytes] at member
    exact Hex.mem_text member

/-- A digest with zeros at the start of every part. -/
def zerosFirst : Digest :=
  ⟨[0, 0, 171, 1, 2, 3, 4, 5, 0, 0, 0, 0, 0, 0, 0, 0, 0, 15, 16, 255], rfl⟩

def minimalDigits : Hashing where
  calculateDigest _ := zerosFirst
  intToAryHex n := Nat.toDigits 16 n ++ [nul]

theorem sha1Str_canonical_zeros :
    sha1Str minimalDigits zerosFirst = "0000ab01020304050000000000000000000f10ff" := by
  have correct : minimalDigits.Correct := ⟨fun _ _ => rfl⟩
  have canonical := (sha1Str_canonical correct zerosFirst).2.1
  exact String.toList_inj.mp (canonical.trans (by decide))

/-- A text of forty characters leaves nothing of what the array held. -/
theorem copyTo_hexText (old : Sha1Array) (digest : Digest) :
    copyTo old (hexText digest) = .ok (hexArray digest) := by
  have length := length_hexText digest
  have rest : old.val.drop 40 = [] := List.drop_eq_nil_of_le (Nat.le_of_eq old.property)
  simp only [copyTo, length, Nat.le_refl, ↓reduceDIte, rest, List.append_nil]
  simp only [hexText, String.toList_ofList, hexArray]

end Incredis.Script
