import Mathlib.Algebra.Order.Ring.Int
import Mathlib.Order.Monotone.Defs

/-! Rounding to a number of significant decimal digits, nearest with ties to even. The
rounding is monotone and fixes exactly the numbers that are short enough. -/
namespace Incredis.Decimal

/-- The integer nearest to `n / unit`, the even one of two. -/
def divHalfEven (n unit : Nat) : Nat :=
  if 2 * (n % unit) < unit then n / unit
  else if unit < 2 * (n % unit) then n / unit + 1
  else n / unit + n / unit % 2

theorem divHalfEven_mul (k : Nat) {unit : Nat} (positive : 0 < unit) :
    divHalfEven (k * unit) unit = k := by
  simp only [divHalfEven, Nat.mul_mod_left, Nat.mul_zero, positive, ↓reduceIte,
    Nat.mul_div_cancel k positive]

theorem div_le_divHalfEven (n unit : Nat) : n / unit ≤ divHalfEven n unit := by
  unfold divHalfEven
  split
  · exact Nat.le_refl _
  · split <;> omega

theorem divHalfEven_le (n unit : Nat) : divHalfEven n unit ≤ n / unit + 1 := by
  unfold divHalfEven
  split
  · omega
  · split <;> omega

theorem divHalfEven_mono (unit : Nat) {m n : Nat} (le : m ≤ n) :
    divHalfEven m unit ≤ divHalfEven n unit := by
  rcases Nat.eq_or_lt_of_le (Nat.div_le_div_right (c := unit) le) with same | less
  · -- the quotients agree, so the remainders decide
    have rest : m % unit ≤ n % unit := by
      have first := Nat.div_add_mod m unit
      have second := Nat.div_add_mod n unit
      rw [same] at first
      omega
    simp only [divHalfEven, same]
    split_ifs <;> omega
  · calc divHalfEven m unit ≤ m / unit + 1 := divHalfEven_le m unit
      _ ≤ n / unit := less
      _ ≤ divHalfEven n unit := div_le_divHalfEven n unit

def digitCount (n : Nat) : Nat := (Nat.toDigits 10 n).length

theorem digitCount_pos (n : Nat) : 0 < digitCount n := Nat.length_toDigits_pos

theorem digitCount_le_iff (n : Nat) {count : Nat} (positive : 0 < count) :
    digitCount n ≤ count ↔ n < 10 ^ count :=
  Nat.length_toDigits_le_iff (by omega) positive

theorem lt_pow_digitCount (n : Nat) : n < 10 ^ digitCount n :=
  (digitCount_le_iff n (digitCount_pos n)).mp (Nat.le_refl _)

theorem pow_le_of_lt_digitCount {n count : Nat} (positive : 0 < n) (less : count < digitCount n) :
    10 ^ count ≤ n := by
  cases count with
  | zero => exact positive
  | succ count =>
    by_contra fewer
    have := (digitCount_le_iff n (Nat.succ_pos count)).mpr (Nat.lt_of_not_le fewer)
    omega

theorem digitCount_mono {m n : Nat} (le : m ≤ n) : digitCount m ≤ digitCount n :=
  (digitCount_le_iff m (digitCount_pos n)).mpr (Nat.lt_of_le_of_lt le (lt_pow_digitCount n))

/-- The weight of the last digit that is kept. -/
def unit (precision n : Nat) : Nat := 10 ^ (digitCount n - precision)

theorem unit_pos (precision n : Nat) : 0 < unit precision n := Nat.pow_pos (by omega)

theorem unit_dvd_pow {precision n exponent : Nat} (enough : digitCount n ≤ precision + exponent) :
    unit precision n ∣ 10 ^ exponent := Nat.pow_dvd_pow 10 (by omega)

def roundTo (precision n : Nat) : Nat := divHalfEven n (unit precision n) * unit precision n

section
variable {precision n k : Nat}

theorem le_roundTo (multiple : unit precision n ∣ k) (le : k ≤ n) : k ≤ roundTo precision n := by
  obtain ⟨factor, rfl⟩ := multiple
  rw [Nat.mul_comm] at le ⊢
  apply Nat.mul_le_mul_right
  calc factor = divHalfEven (factor * unit precision n) (unit precision n) :=
        (divHalfEven_mul factor (unit_pos precision n)).symm
    _ ≤ divHalfEven n (unit precision n) := divHalfEven_mono _ le

theorem roundTo_le (multiple : unit precision n ∣ k) (le : n ≤ k) : roundTo precision n ≤ k := by
  obtain ⟨factor, rfl⟩ := multiple
  rw [Nat.mul_comm] at le ⊢
  apply Nat.mul_le_mul_right
  calc divHalfEven n (unit precision n)
      ≤ divHalfEven (factor * unit precision n) (unit precision n) := divHalfEven_mono _ le
    _ = factor := divHalfEven_mul factor (unit_pos precision n)

theorem roundTo_mono (positive : 0 < precision) : Monotone (roundTo precision) := by
  intro m n le
  rcases Nat.eq_or_lt_of_le (digitCount_mono le) with same | fewer
  · have units : unit precision m = unit precision n := by rw [unit, same, unit]
    rw [roundTo, units]
    exact Nat.mul_le_mul_right _ (divHalfEven_mono _ le)
  · -- powers of ten lie between them
    have larger : 0 < n := by
      apply Nat.pos_of_ne_zero
      rintro rfl
      rw [Nat.le_zero.mp le] at fewer
      omega
    calc roundTo precision m ≤ 10 ^ digitCount m :=
          roundTo_le (unit_dvd_pow (by omega)) (lt_pow_digitCount m).le
      _ ≤ 10 ^ (digitCount n - 1) := Nat.pow_le_pow_right (by omega) (by omega)
      _ ≤ roundTo precision n :=
          le_roundTo (unit_dvd_pow (by omega)) (pow_le_of_lt_digitCount larger (by omega))

/-- At most `precision` digits, then zeros. -/
def Significant (precision n : Nat) : Prop :=
  ∃ mantissa exponent, mantissa < 10 ^ precision ∧ n = mantissa * 10 ^ exponent

theorem divHalfEven_unit_le (precision n : Nat) :
    divHalfEven n (unit precision n) ≤ 10 ^ precision := by
  have below : n ≤ 10 ^ precision * unit precision n := by
    rw [unit, ← Nat.pow_add]
    exact (lt_pow_digitCount n).le.trans (Nat.pow_le_pow_right (by omega) (by omega))
  calc divHalfEven n (unit precision n)
      ≤ divHalfEven (10 ^ precision * unit precision n) (unit precision n) :=
        divHalfEven_mono _ below
    _ = 10 ^ precision := divHalfEven_mul _ (unit_pos precision n)

theorem significant_roundTo (positive : 0 < precision) (n : Nat) :
    Significant precision (roundTo precision n) := by
  rcases Nat.eq_or_lt_of_le (divHalfEven_unit_le precision n) with carry | below
  · refine ⟨1, precision + (digitCount n - precision), Nat.one_lt_pow (by omega) (by omega), ?_⟩
    rw [roundTo, carry, unit, Nat.pow_add, Nat.one_mul]
  · exact ⟨_, _, below, rfl⟩

theorem roundTo_eq_self_iff (positive : 0 < precision) :
    roundTo precision n = n ↔ Significant precision n := by
  constructor
  · intro fixed
    rw [← fixed]
    exact significant_roundTo positive n
  · rintro ⟨mantissa, exponent, short, rfl⟩
    have count : digitCount (mantissa * 10 ^ exponent) ≤ precision + exponent := by
      rw [digitCount_le_iff _ (by omega), Nat.pow_add]
      exact Nat.mul_lt_mul_of_pos_right short (Nat.pow_pos (by omega))
    have multiple := (unit_dvd_pow count).mul_left mantissa
    exact Nat.le_antisymm (roundTo_le multiple (Nat.le_refl _)) (le_roundTo multiple (Nat.le_refl _))

end

def roundInt (precision : Nat) (x : Int) : Int :=
  if x < 0 then -roundTo precision x.natAbs else roundTo precision x.natAbs

section
variable {precision : Nat}

theorem roundInt_mono (positive : 0 < precision) {x y : Int} (le : x ≤ y) :
    roundInt precision x ≤ roundInt precision y := by
  unfold roundInt
  split <;> split
  · have := roundTo_mono positive (show y.natAbs ≤ x.natAbs by omega)
    omega
  · omega
  · omega
  · have := roundTo_mono positive (show x.natAbs ≤ y.natAbs by omega)
    omega

theorem roundInt_natCast (precision n : Nat) : roundInt precision n = roundTo precision n := by
  have sign : ¬(n : Int) < 0 := by omega
  rw [roundInt, if_neg sign, Int.natAbs_natCast]

theorem roundInt_neg_natCast (precision n : Nat) :
    roundInt precision (-n) = -(roundTo precision n : Int) := by
  rcases Nat.eq_zero_or_pos n with rfl | positive
  · have zero : roundTo precision 0 = 0 := Nat.le_zero.mp (roundTo_le (Nat.dvd_zero _) (Nat.le_refl _))
    simp only [Nat.cast_zero, neg_zero]
    exact (roundInt_natCast precision 0).trans (by rw [zero]; rfl)
  · have sign : -(n : Int) < 0 := by omega
    rw [roundInt, if_pos sign, Int.natAbs_neg, Int.natAbs_natCast]

theorem natAbs_roundInt (precision : Nat) (x : Int) :
    (roundInt precision x).natAbs = roundTo precision x.natAbs := by
  unfold roundInt
  split <;> omega

theorem roundInt_eq_self_iff (positive : 0 < precision) (x : Int) :
    roundInt precision x = x ↔ Significant precision x.natAbs := by
  rw [← roundTo_eq_self_iff positive]
  unfold roundInt
  split <;> omega

end

end Incredis.Decimal
