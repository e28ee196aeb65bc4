import Mathlib.Algebra.Ring.Nat

/-! Little-endian numbers and hexadecimal text of a fixed width. -/
namespace Hex

def littleEndian : List UInt8 → Nat
  | [] => 0
  | byte :: rest => byte.toNat + 256 * littleEndian rest

/-- The lowest bytes of a number, the first one lowest. -/
def lowBytes : Nat → Nat → List UInt8
  | 0, _ => []
  | n + 1, value => UInt8.ofNat value :: lowBytes n (value / 256)

/-- The number with its lowest `n` bytes in opposite order. -/
def byteSwap (n value : Nat) : Nat := littleEndian (lowBytes n value).reverse

/-- The lowest digits of a number, the last one lowest. -/
def digits : Nat → Nat → List Char
  | 0, _ => []
  | width + 1, value => digits width (value / 16) ++ [Nat.digitChar (value % 16)]

def ofByte (byte : UInt8) : List Char :=
  [Nat.digitChar (byte.toNat / 16), Nat.digitChar (byte.toNat % 16)]

/-- The two digits of every byte, one after the other. -/
def text (bytes : List UInt8) : List Char := bytes.flatMap ofByte

@[simp] theorem text_append (first second : List UInt8) :
    text (first ++ second) = text first ++ text second := by
  simp only [text, List.flatMap_append]

@[simp] theorem length_text (bytes : List UInt8) : (text bytes).length = 2 * bytes.length := by
  induction bytes with
  | nil => rfl
  | cons byte rest ih =>
    simp only [text, List.flatMap_cons, List.length_append] at ih ⊢
    simp only [ih, ofByte, List.length_cons, List.length_nil]
    omega

def alphabet : List Char := "0123456789abcdef".toList

theorem digitChar_mem {value : Nat} (digit : value < 16) : Nat.digitChar value ∈ alphabet := by
  have all : ∀ value ∈ List.range 16, Nat.digitChar value ∈ alphabet := by decide
  exact all value (List.mem_range.mpr digit)

theorem mem_text {bytes : List UInt8} {char : Char} (member : char ∈ text bytes) :
    char ∈ alphabet := by
  obtain ⟨byte, _, digit⟩ := List.mem_flatMap.mp member
  have bound := byte.toNat_lt
  simp only [ofByte, List.mem_cons, List.not_mem_nil, or_false] at digit
  rcases digit with rfl | rfl
  · exact digitChar_mem (by omega)
  · exact digitChar_mem (by omega)

theorem littleEndian_lt (bytes : List UInt8) : littleEndian bytes < 256 ^ bytes.length := by
  induction bytes with
  | nil => simp [littleEndian]
  | cons byte rest ih =>
    have := byte.toNat_lt
    simp only [littleEndian, List.length_cons, Nat.pow_succ]
    omega

theorem lowBytes_littleEndian (bytes : List UInt8) :
    lowBytes bytes.length (littleEndian bytes) = bytes := by
  induction bytes with
  | nil => rfl
  | cons byte rest ih =>
    have low : UInt8.ofNat (byte.toNat + 256 * littleEndian rest) = byte := by
      apply UInt8.toNat_inj.mp
      have := byte.toNat_lt
      simp only [UInt8.toNat_ofNat']
      omega
    have high : (byte.toNat + 256 * littleEndian rest) / 256 = littleEndian rest := by
      have := byte.toNat_lt
      omega
    simp only [List.length_cons, littleEndian, lowBytes, low, high, ih]

@[simp] theorem length_lowBytes (n value : Nat) : (lowBytes n value).length = n := by
  induction n generalizing value with
  | zero => rfl
  | succ n ih => simp only [lowBytes, List.length_cons, ih]

theorem littleEndian_lowBytes (n value : Nat) :
    littleEndian (lowBytes n value) = value % 256 ^ n := by
  induction n generalizing value with
  | zero => exact (Nat.mod_one value).symm
  | succ n ih =>
    rw [lowBytes, littleEndian, ih, Nat.pow_succ, Nat.mul_comm (256 ^ n), Nat.mod_mul]
    simp only [UInt8.toNat_ofNat']

theorem byteSwap_littleEndian (bytes : List UInt8) :
    byteSwap bytes.length (littleEndian bytes) = littleEndian bytes.reverse := by
  rw [byteSwap, lowBytes_littleEndian]

@[simp] theorem length_digits (width value : Nat) : (digits width value).length = width := by
  induction width generalizing value with
  | zero => rfl
  | succ width ih => simp only [digits, List.length_append, ih, List.length_singleton]

theorem digits_zero (width : Nat) : digits width 0 = List.replicate width '0' := by
  induction width with
  | zero => rfl
  | succ width ih =>
    rw [List.replicate_succ', digits, Nat.zero_div, ih]
    rfl

/-- Minimal digits padded with zeros are the digits of the full width. -/
theorem padded_toDigits {width value : Nat} (fits : value < 16 ^ width) (some : 0 < width) :
    List.replicate (width - (Nat.toDigits 16 value).length) '0' ++ Nat.toDigits 16 value =
      digits width value := by
  induction width generalizing value with
  | zero => contradiction
  | succ width ih =>
    rw [digits]
    by_cases small : value < 16
    · rw [Nat.toDigits_of_lt_base small, Nat.div_eq_of_lt small, Nat.mod_eq_of_lt small,
        digits_zero]
      rfl
    · have quotient : value / 16 < 16 ^ width := by
        rw [Nat.pow_succ] at fits
        omega
      have left : 0 < width := by
        rcases Nat.eq_zero_or_pos width with none | left
        · subst none
          simp only [Nat.pow_zero] at quotient
          omega
        · exact left
      rw [Nat.toDigits_of_base_le (by decide) (Nat.le_of_not_lt small), ← ih quotient left]
      simp only [List.length_append, List.length_singleton, Nat.add_sub_add_right,
        List.append_assoc]

/-- The digits of a little-endian number are those of its bytes, the last one first. -/
theorem digits_littleEndian (bytes : List UInt8) :
    digits (2 * bytes.length) (littleEndian bytes) = text bytes.reverse := by
  induction bytes with
  | nil => rfl
  | cons byte rest ih =>
    have bound := byte.toNat_lt
    have value : (byte.toNat + 256 * littleEndian rest) / 16 / 16 = littleEndian rest := by omega
    have high : (byte.toNat + 256 * littleEndian rest) / 16 % 16 = byte.toNat / 16 := by omega
    have low : (byte.toNat + 256 * littleEndian rest) % 16 = byte.toNat % 16 := by omega
    rw [List.length_cons, Nat.mul_add, littleEndian, List.reverse_cons, text_append, ← ih]
    simp only [digits, value, high, low, text, List.flatMap_cons, List.flatMap_nil, ofByte,
      List.append_assoc, List.append_nil, List.cons_append, List.nil_append]

end Hex
