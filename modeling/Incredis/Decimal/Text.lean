import Incredis.Decimal.Rounding
import Mathlib.Algebra.Field.Rat
import Mathlib.Data.List.DropRight

/-! Numbers written in general notation (`%g`) and the reader of decimal texts. What is
read back is the number rounded to as many significant digits as are written. -/
namespace Incredis.Decimal

def withoutZeros (digits : List Char) : List Char := digits.rdropWhile (· = '0')

/-- No point is written when nothing follows it. -/
def pointText : List Char → List Char
  | [] => []
  | fraction => '.' :: fraction

/-- The exponent has at least two digits. -/
def exponentText (exponent : Nat) : List Char :=
  'e' :: '+' :: ((if exponent < 10 then ['0'] else []) ++ Nat.toDigits 10 exponent)

/-- One digit of the mantissa stands before the point. -/
def scientific (mantissa exponent : Nat) : List Char :=
  let digits := Nat.toDigits 10 mantissa
  digits.take 1 ++ pointText (withoutZeros (digits.drop 1)) ++ exponentText exponent

/-- `%g`: the exponent is written when it is not less than the precision. -/
def general (precision n : Nat) : List Char :=
  if digitCount n ≤ precision then Nat.toDigits 10 n
  else
    let mantissa := divHalfEven n (unit precision n)
    if mantissa = 10 ^ precision then scientific (10 ^ (precision - 1)) (digitCount n)
    else scientific mantissa (digitCount n - 1)

def valueOf (digits : List Char) : Nat := Nat.ofDigitChars 10 digits 0

def readDigits (digits : List Char) : Option Nat :=
  if digits ≠ [] ∧ digits.all Char.isDigit then some (valueOf digits) else none

/-- The digits after a point, if there is one, and what follows them. -/
def readFraction : List Char → List Char × List Char
  | '.' :: rest => (rest.takeWhile Char.isDigit, rest.dropWhile Char.isDigit)
  | rest => ([], rest)

def readExponent : List Char → Option Int
  | [] => some 0
  | 'e' :: '+' :: digits => (readDigits digits).map Int.ofNat
  | 'e' :: '-' :: digits => (readDigits digits).map fun exponent => -exponent
  | 'e' :: digits => (readDigits digits).map Int.ofNat
  | _ => none

def readUnsigned (text : List Char) : Option ℚ :=
  let whole := text.takeWhile Char.isDigit
  let (fraction, rest) := readFraction (text.dropWhile Char.isDigit)
  if whole ++ fraction = [] then none
  else (readExponent rest).map fun exponent =>
    (valueOf (whole ++ fraction) : ℚ) * 10 ^ (exponent - (fraction.length : Int))

def read : List Char → Option ℚ
  | '-' :: rest => (readUnsigned rest).map fun value => -value
  | '+' :: rest => readUnsigned rest
  | text => readUnsigned text

theorem valueOf_toDigits (n : Nat) : valueOf (Nat.toDigits 10 n) = n :=
  Nat.ofDigitChars_ten_toDigits

theorem valueOf_append_zeros (digits : List Char) (count : Nat) :
    valueOf (digits ++ List.replicate count '0') = valueOf digits * 10 ^ count := by
  rw [valueOf, Nat.ofDigitChars_append, Nat.ofDigitChars_replicate_zero, Nat.mul_comm]
  rfl

theorem valueOf_zero_cons (digits : List Char) : valueOf ('0' :: digits) = valueOf digits := by
  rw [valueOf, Nat.ofDigitChars_cons]
  rfl

theorem withoutZeros_append (digits : List Char) :
    ∃ count, withoutZeros digits ++ List.replicate count '0' = digits := by
  refine ⟨(digits.rtakeWhile (· = '0')).length, ?_⟩
  have zeros : digits.rtakeWhile (· = '0') =
      List.replicate (digits.rtakeWhile (· = '0')).length '0' := by
    apply List.eq_replicate_of_mem
    intro c member
    simpa using List.mem_rtakeWhile_imp member
  rw [← zeros]
  exact List.rdropWhile_append_rtakeWhile ..

theorem isDigit_of_mem_toDigits {n : Nat} {c : Char} (member : c ∈ Nat.toDigits 10 n) :
    c.isDigit := Nat.isDigit_of_mem_toDigits (by omega) (by omega) member

theorem isDigit_of_mem_withoutZeros {digits : List Char} (all : ∀ c ∈ digits, c.isDigit) {c : Char}
    (member : c ∈ withoutZeros digits) : c.isDigit :=
  all c ((List.rdropWhile_prefix _ digits).subset member)

theorem readDigits_of_isDigit {digits : List Char} (some_ : digits ≠ [])
    (all : ∀ c ∈ digits, c.isDigit) : readDigits digits = some (valueOf digits) :=
  if_pos ⟨some_, List.all_eq_true.mpr all⟩

theorem readExponent_exponentText (exponent : Nat) :
    readExponent (exponentText exponent) = some (exponent : Int) := by
  have read (padding : List Char) (zeros : padding = [] ∨ padding = ['0']) :
      readDigits (padding ++ Nat.toDigits 10 exponent) = some exponent := by
    rcases zeros with rfl | rfl
    · rw [List.nil_append, readDigits_of_isDigit Nat.toDigits_ne_nil fun _ => isDigit_of_mem_toDigits,
        valueOf_toDigits]
    · rw [readDigits_of_isDigit (by simp), List.singleton_append, valueOf_zero_cons,
        valueOf_toDigits]
      intro c member
      rcases List.mem_cons.mp member with rfl | digit
      · rfl
      · exact isDigit_of_mem_toDigits digit
  simp only [exponentText, readExponent]
  rw [read _ (by split <;> simp)]
  rfl

/-- Digits, the fraction and an exponent are found again. -/
theorem readUnsigned_parts (whole fraction : List Char) {rest : List Char} {exponent : Int}
    (some_ : whole ≠ []) (wholeDigits : ∀ c ∈ whole, c.isDigit)
    (fractionDigits : ∀ c ∈ fraction, c.isDigit) (stops : rest = [] ∨ ∃ tail, rest = 'e' :: tail)
    (readRest : readExponent rest = some exponent) :
    readUnsigned (whole ++ pointText fraction ++ rest) =
      some ((valueOf (whole ++ fraction) : ℚ) * 10 ^ (exponent - (fraction.length : Int))) := by
  have taken : (pointText fraction ++ rest).takeWhile Char.isDigit = [] := by
    cases fraction with
    | nil => rcases stops with rfl | ⟨tail, rfl⟩ <;> rfl
    | cons => rfl
  have dropped : (pointText fraction ++ rest).dropWhile Char.isDigit = pointText fraction ++ rest := by
    cases fraction with
    | nil => rcases stops with rfl | ⟨tail, rfl⟩ <;> rfl
    | cons => rfl
  have split : readFraction (pointText fraction ++ rest) = (fraction, rest) := by
    cases fraction with
    | nil => rcases stops with rfl | ⟨tail, rfl⟩ <;> rfl
    | cons first others =>
      have stopped : rest.takeWhile Char.isDigit = [] ∧ rest.dropWhile Char.isDigit = rest := by
        rcases stops with rfl | ⟨tail, rfl⟩ <;> exact ⟨rfl, rfl⟩
      simp only [pointText, List.cons_append, readFraction]
      rw [← List.cons_append, List.takeWhile_append_of_pos fractionDigits,
        List.dropWhile_append_of_pos fractionDigits, stopped.1, stopped.2, List.append_nil]
  simp only [readUnsigned, List.append_assoc, List.takeWhile_append_of_pos wholeDigits,
    List.dropWhile_append_of_pos wholeDigits, taken, dropped, split, List.append_nil,
    List.append_eq_nil_iff, some_, false_and, ↓reduceIte, readRest, Option.map_some]

theorem readUnsigned_toDigits (n : Nat) : readUnsigned (Nat.toDigits 10 n) = some (n : ℚ) := by
  have parts := readUnsigned_parts (Nat.toDigits 10 n) [] Nat.toDigits_ne_nil
    (fun _ => isDigit_of_mem_toDigits) (by simp) (.inl rfl) rfl
  simpa [pointText, valueOf_toDigits] using parts

/-- The zeros that are not written are made up for by the exponent. -/
theorem readUnsigned_scientific (mantissa exponent : Nat) :
    readUnsigned (scientific mantissa exponent) =
      some ((mantissa : ℚ) * 10 ^ ((exponent : Int) - (digitCount mantissa - 1 : Int))) := by
  have digit : ∀ c ∈ Nat.toDigits 10 mantissa, c.isDigit := fun _ => isDigit_of_mem_toDigits
  have size : (Nat.toDigits 10 mantissa).length = digitCount mantissa := rfl
  have value := valueOf_toDigits mantissa
  simp only [scientific]
  cases digits : Nat.toDigits 10 mantissa with
  | nil => exact absurd digits Nat.toDigits_ne_nil
  | cons first fraction =>
    rw [digits] at digit size value
    obtain ⟨count, zeros⟩ := withoutZeros_append fraction
    have stops : ∃ tail, exponentText exponent = 'e' :: tail := ⟨_, rfl⟩
    have parts := readUnsigned_parts [first] (withoutZeros fraction) (by simp)
      (fun c member => digit c (by simp_all))
      (fun c => isDigit_of_mem_withoutZeros fun c member => digit c (List.mem_cons_of_mem _ member))
      (.inr stops) (readExponent_exponentText exponent)
    have whole : mantissa = valueOf (first :: withoutZeros fraction) * 10 ^ count := by
      rw [← valueOf_append_zeros, List.cons_append, zeros, value]
    have length : (withoutZeros fraction).length + count + 1 = digitCount mantissa := by
      have lengths := congrArg List.length zeros
      rw [List.length_append, List.length_replicate] at lengths
      rw [← size, List.length_cons, lengths]
    have exponents : (exponent : Int) - ((withoutZeros fraction).length : Int) =
        count + (exponent - (digitCount mantissa - 1 : Int)) := by omega
    rw [List.take_one, List.head?_cons, Option.toList_some, List.drop_one, List.tail_cons, parts,
      exponents, zpow_add₀ (by decide), zpow_natCast, ← mul_assoc]
    rw [List.singleton_append, whole, Nat.cast_mul, Nat.cast_pow]
    rfl

theorem digitCount_eq {m count : Nat} (low : 10 ^ (count - 1) ≤ m) (high : m < 10 ^ count)
    (positive : 0 < count) : digitCount m = count := by
  apply Nat.le_antisymm ((digitCount_le_iff m positive).mpr high)
  by_contra fewer
  have := digitCount_pos m
  have := (digitCount_le_iff m (show 0 < count - 1 by omega)).mp (by omega)
  omega

theorem pow_le_divHalfEven {precision n : Nat} (positive : 0 < precision)
    (long : precision < digitCount n) :
    10 ^ (precision - 1) ≤ divHalfEven n (unit precision n) := by
  have larger : 0 < n := by
    apply Nat.pos_of_ne_zero
    rintro rfl
    rw [show digitCount 0 = 1 from rfl] at long
    omega
  have power : 10 ^ (precision - 1) * unit precision n ≤ n := by
    rw [unit, ← Nat.pow_add]
    exact pow_le_of_lt_digitCount larger (by omega)
  calc 10 ^ (precision - 1)
      = divHalfEven (10 ^ (precision - 1) * unit precision n) (unit precision n) :=
        (divHalfEven_mul _ (unit_pos precision n)).symm
    _ ≤ divHalfEven n (unit precision n) := divHalfEven_mono _ power

/-- The number that a mantissa of full length stands for. -/
theorem mantissa_mul_zpow {precision : Nat} (mantissa : Nat) {exponent : Int} {weight : Nat}
    (exponents : exponent - (precision - 1 : Int) = weight) :
    (mantissa : ℚ) * 10 ^ (exponent - (precision - 1 : Int)) = (mantissa * 10 ^ weight : Nat) := by
  rw [exponents, zpow_natCast, Nat.cast_mul, Nat.cast_pow]
  rfl

/-- What is read from the text is the rounded number. -/
theorem readUnsigned_general {precision : Nat} (positive : 0 < precision) (n : Nat) :
    readUnsigned (general precision n) = some (roundTo precision n : ℚ) := by
  by_cases short : digitCount n ≤ precision
  · have fixed : roundTo precision n = n := (roundTo_eq_self_iff positive).mpr
      ⟨n, 0, (digitCount_le_iff n positive).mp short, (Nat.mul_one n).symm⟩
    simp only [general, short, ↓reduceIte, readUnsigned_toDigits, fixed]
  · have low := pow_le_divHalfEven positive (Nat.lt_of_not_le short)
    have high := divHalfEven_unit_le precision n
    by_cases carry : divHalfEven n (unit precision n) = 10 ^ precision
    · -- the mantissa has become a digit longer
      have count : digitCount (10 ^ (precision - 1)) = precision :=
        digitCount_eq (Nat.le_refl _) (Nat.pow_lt_pow_right (by omega) (by omega)) positive
      have powers : 10 ^ (precision - 1) * 10 ^ (digitCount n - precision + 1) =
          roundTo precision n := by
        rw [roundTo, carry, unit, ← Nat.pow_add, ← Nat.pow_add]
        congr 1
        omega
      simp only [general, if_neg short, if_pos carry, readUnsigned_scientific, count]
      rw [mantissa_mul_zpow _ (show _ = ((digitCount n - precision + 1 : Nat) : Int) by omega), powers]
    · have count : digitCount (divHalfEven n (unit precision n)) = precision :=
        digitCount_eq low (Nat.lt_of_le_of_ne high carry) positive
      simp only [general, if_neg short, if_neg carry, readUnsigned_scientific, count]
      rw [mantissa_mul_zpow _ (show _ = ((digitCount n - precision : Nat) : Int) by omega)]
      rfl

example : general 6 9999996 = "1e+07".toList := by decide

theorem toDigits_starts (n : Nat) :
    ∃ first rest, Nat.toDigits 10 n = first :: rest ∧ first.isDigit := by
  cases digits : Nat.toDigits 10 n with
  | nil => exact absurd digits Nat.toDigits_ne_nil
  | cons first rest =>
    have member : first ∈ Nat.toDigits 10 n := digits ▸ List.mem_cons_self
    exact ⟨first, rest, rfl, isDigit_of_mem_toDigits member⟩

theorem scientific_starts (mantissa exponent : Nat) :
    ∃ first rest, scientific mantissa exponent = first :: rest ∧ first.isDigit := by
  obtain ⟨first, rest, digits, digit⟩ := toDigits_starts mantissa
  rw [scientific, digits]
  exact ⟨first, _, rfl, digit⟩

theorem general_starts (precision n : Nat) :
    ∃ first rest, general precision n = first :: rest ∧ first.isDigit := by
  simp only [general]
  split_ifs
  · exact toDigits_starts n
  · exact scientific_starts _ _
  · exact scientific_starts _ _

theorem read_general {precision : Nat} (positive : 0 < precision) (n : Nat) :
    read (general precision n) = some (roundTo precision n : ℚ) := by
  obtain ⟨first, rest, starts, digit⟩ := general_starts precision n
  rw [← readUnsigned_general positive n, starts]
  unfold read
  split
  case h_1 sign =>
    obtain ⟨rfl, rfl⟩ := List.cons.inj sign
    exact absurd digit (by decide)
  case h_2 sign =>
    obtain ⟨rfl, rfl⟩ := List.cons.inj sign
    exact absurd digit (by decide)
  case h_3 => rfl

theorem read_neg_general {precision : Nat} (positive : 0 < precision) (n : Nat) :
    read ('-' :: general precision n) = some (-(roundTo precision n : ℚ)) := by
  rw [read, readUnsigned_general positive n, Option.map_some]

end Incredis.Decimal
