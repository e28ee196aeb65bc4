import Incredis.Scan.Iterator
import Mathlib.Algebra.Ring.Nat

/-! `int_conv<RedisInt>` on the text of a reply. The translator of characters has a value for
every letter, so what is read as a number need not be a numeral. -/
namespace Incredis.Scan

namespace AsciiTranslator

def IsDigit (digit : Char) : Prop := '0' ≤ digit ∧ digit ≤ '9'

def IsLetter (digit : Char) : Prop := 'a' ≤ digit ∧ digit ≤ 'z' ∨ 'A' ≤ digit ∧ digit ≤ 'Z'

instance : Decidable (IsDigit digit) := inferInstanceAs (Decidable (_ ∧ _))
instance : Decidable (IsLetter digit) := inferInstanceAs (Decidable (_ ∨ _))

/-- A `char` is signed when it becomes an `int`. -/
def charAsInt (digit : Char) : Int := Int.bmod digit.toNat 256

def fromDigit (digit : Char) : Except Exception Int :=
  if '0' ≤ digit ∧ digit ≤ '9' then .ok (digit.toNat - '0'.toNat : Nat)
  else if 'a' ≤ digit ∧ digit ≤ 'z' then .ok (digit.toNat - 'a'.toNat : Nat)
  else if 'A' ≤ digit ∧ digit ≤ 'Z' then .ok (digit.toNat - 'A'.toNat : Nat)
  else .error (.domainError ("Can't convert invalid character '" ++ digit.toString ++ "' (" ++
    toString (charAsInt digit) ++ ") to a number"))

variable {digit : Char}

theorem fromDigit_digit (valid : IsDigit digit) :
    fromDigit digit = .ok (digit.toNat - '0'.toNat : Nat) := if_pos valid

theorem fromDigit_letter (letter : IsLetter digit) : ∃ value, fromDigit digit = .ok value := by
  unfold fromDigit
  split
  · exact ⟨_, rfl⟩
  · split
    · exact ⟨_, rfl⟩
    · rename_i lower
      rw [if_pos (letter.resolve_left lower)]
      exact ⟨_, rfl⟩

theorem fromDigit_other (invalid : ¬ IsDigit digit) (other : ¬ IsLetter digit) :
    ∃ what, fromDigit digit = .error (.domainError what) := by
  have lower : ¬ ('a' ≤ digit ∧ digit ≤ 'z') := fun lower => other (.inl lower)
  have upper : ¬ ('A' ≤ digit ∧ digit ≤ 'Z') := fun upper => other (.inr upper)
  rw [fromDigit, if_neg (show ¬ ('0' ≤ digit ∧ digit ≤ '9') from invalid), if_neg lower, if_neg upper]
  exact ⟨_, rfl⟩

end AsciiTranslator

open AsciiTranslator

/-- The characters that `IntConv` passes on: one NUL at the end is left out. -/
def passedOn (text : String) : List Char :=
  if text.toList.getLast? = some (Char.ofNat 0) then text.toList.dropLast else text.toList

def afterSign : List Char → List Char
  | '-' :: rest => rest
  | '+' :: rest => rest
  | chars => chars

def withSign (chars : List Char) (value : Int) : Int :=
  if chars.head? = some '-' then -value else value

/-- The fold of `ary_to_int` in base 10. -/
def foldDigits : Int → List Char → Except Exception Int
  | acc, [] => .ok acc
  | acc, digit :: rest => do foldDigits (acc * 10 + (← fromDigit digit)) rest

/-- `ary_to_int` takes a sign, folds and checks nothing. What comes out when the number is
not in the range is left open. -/
structure Folds (aryToInt : List Char → Except Exception Int) : Prop where
  returns : ∀ chars value, foldDigits 0 (afterSign chars) = .ok value →
    InRedisInt (withSign chars value) → aryToInt chars = .ok (withSign chars value)
  narrows : ∀ chars value, foldDigits 0 (afterSign chars) = .ok value →
    ∃ narrowed, aryToInt chars = .ok narrowed
  throws : ∀ chars thrown, foldDigits 0 (afterSign chars) = .error thrown →
    aryToInt chars = .error thrown

/-- `int_conv<RedisInt>` -/
def intConvRedisInt (aryToInt : List Char → Except Exception Int) (text : String) :
    Except Exception Int := aryToInt (passedOn text)

/-- Digits, with a sign or without, and the number that they denote. -/
inductive Numeral : List Char → Int → Prop
  | unsigned {digits} : digits ≠ [] → (∀ digit ∈ digits, IsDigit digit) →
      Numeral digits (Nat.ofDigitChars 10 digits 0)
  | plus {digits} : digits ≠ [] → (∀ digit ∈ digits, IsDigit digit) →
      Numeral ('+' :: digits) (Nat.ofDigitChars 10 digits 0)
  | minus {digits} : digits ≠ [] → (∀ digit ∈ digits, IsDigit digit) →
      Numeral ('-' :: digits) (-Nat.ofDigitChars 10 digits 0)

section
variable {chars digits : List Char}

theorem foldDigits_digits (valid : ∀ digit ∈ digits, IsDigit digit) (acc : Nat) :
    foldDigits acc digits = .ok (Nat.ofDigitChars 10 digits acc) := by
  induction digits generalizing acc with
  | nil => rfl
  | cons digit rest ih =>
    have next : (acc : Int) * 10 + (digit.toNat - '0'.toNat : Nat) =
        (10 * acc + (digit.toNat - '0'.toNat) : Nat) := by omega
    rw [foldDigits, fromDigit_digit (valid digit (by simp)), Nat.ofDigitChars_cons,
      ← ih fun other member => valid other (List.mem_cons_of_mem _ member), ← next]
    rfl

/-- Letters count as well. -/
theorem foldDigits_ok (valid : ∀ digit ∈ chars, IsDigit digit ∨ IsLetter digit) (acc : Int) :
    ∃ value, foldDigits acc chars = .ok value := by
  induction chars generalizing acc with
  | nil => exact ⟨acc, rfl⟩
  | cons digit rest ih =>
    obtain ⟨value, translated⟩ : ∃ value, fromDigit digit = .ok value := by
      rcases valid digit (by simp) with digit | letter
      · exact ⟨_, fromDigit_digit digit⟩
      · exact fromDigit_letter letter
    rw [foldDigits, translated]
    exact ih (fun other member => valid other (List.mem_cons_of_mem _ member)) _

theorem foldDigits_error {other : Char} (member : other ∈ chars) (invalid : ¬ IsDigit other)
    (noLetter : ¬ IsLetter other) (acc : Int) :
    ∃ what, foldDigits acc chars = .error (.domainError what) := by
  induction chars generalizing acc with
  | nil => contradiction
  | cons digit rest ih =>
    cases translated : fromDigit digit with
    | error thrown =>
      by_cases valid : IsDigit digit
      · rw [fromDigit_digit valid] at translated
        contradiction
      by_cases letter : IsLetter digit
      · obtain ⟨value, ok⟩ := fromDigit_letter letter
        rw [ok] at translated
        contradiction
      obtain ⟨what, failed⟩ := fromDigit_other valid letter
      exact ⟨what, by rw [foldDigits, failed]; rfl⟩
    | ok value =>
      rw [foldDigits, translated]
      rcases List.mem_cons.mp member with rfl | later
      · obtain ⟨what, failed⟩ := fromDigit_other invalid noLetter
        rw [failed] at translated
        contradiction
      · exact ih later _

theorem afterSign_digits (valid : ∀ digit ∈ digits, IsDigit digit) : afterSign digits = digits := by
  cases digits with
  | nil => rfl
  | cons digit rest =>
    have first := valid digit (by simp)
    unfold afterSign
    split
    · rename_i sign
      obtain ⟨rfl, _⟩ := List.cons.inj sign
      exact absurd first (by decide)
    · rename_i sign
      obtain ⟨rfl, _⟩ := List.cons.inj sign
      exact absurd first (by decide)
    · rfl

theorem withSign_digits (valid : ∀ digit ∈ digits, IsDigit digit) (value : Int) :
    withSign digits value = value := by
  rw [withSign, if_neg]
  intro sign
  exact absurd (valid '-' (List.mem_of_mem_head? sign)) (by decide)

/-- The digits of a numeral come after its sign. -/
theorem Numeral.fold {value : Int} (numeral : Numeral chars value) :
    (∀ digit ∈ afterSign chars, IsDigit digit) ∧ ∃ folded,
      foldDigits 0 (afterSign chars) = .ok folded ∧ withSign chars folded = value := by
  cases numeral with
  | unsigned _ valid =>
    rw [afterSign_digits valid]
    exact ⟨valid, _, foldDigits_digits valid 0, withSign_digits valid _⟩
  | plus _ valid => exact ⟨valid, _, foldDigits_digits valid 0, rfl⟩
  | minus _ valid => exact ⟨valid, _, foldDigits_digits valid 0, rfl⟩

variable {aryToInt : List Char → Except Exception Int} {text : String}

theorem intConvRedisInt_numeral (folds : Folds aryToInt) {value : Int}
    (numeral : Numeral (passedOn text) value) (inRange : InRedisInt value) :
    intConvRedisInt aryToInt text = .ok value := by
  obtain ⟨_, folded, fold, rfl⟩ := numeral.fold
  exact folds.returns _ _ fold inRange

end

/-- What a parser of decimal numerals does with a text. -/
structure ParsesDecimal (parse : String → Except Exception Int) (text : String) : Prop where
  accepts : ∀ value, Numeral (passedOn text) value → InRedisInt value → parse text = .ok value
  rejects : (∃ other ∈ afterSign (passedOn text), ¬ IsDigit other) →
    ∃ what, parse text = .error (.domainError what)

/-- A text is parsed as a decimal numeral or rejected, unless its only characters that are no
digits are letters. -/
theorem parses_decimal_iff {aryToInt : List Char → Except Exception Int} (folds : Folds aryToInt)
    (asserts : Bool) (text : String) :
    ParsesDecimal
        (fun text => getIntegerAutoconvIfStr asserts (intConvRedisInt aryToInt) (.string text)) text ↔
      ((∃ letter ∈ afterSign (passedOn text), IsLetter letter) →
        ∃ other ∈ afterSign (passedOn text), ¬ IsDigit other ∧ ¬ IsLetter other) := by
  constructor
  · rintro ⟨_, rejects⟩ ⟨letter, member, isLetter⟩
    refine Classical.byContradiction fun none => ?_
    have known : ∀ digit ∈ afterSign (passedOn text), IsDigit digit ∨ IsLetter digit := by
      intro digit there
      refine Classical.byContradiction fun neither => none ⟨digit, there, ?_⟩
      exact not_or.mp neither
    have noDigit : ¬ IsDigit letter := by
      rintro ⟨_, high⟩
      rcases isLetter with ⟨low, _⟩ | ⟨low, _⟩
      · exact absurd (Char.le_trans low high) (by decide)
      · exact absurd (Char.le_trans low high) (by decide)
    obtain ⟨value, fold⟩ := foldDigits_ok known 0
    obtain ⟨narrowed, returned⟩ := folds.narrows _ _ fold
    obtain ⟨what, threw⟩ := rejects ⟨letter, member, noDigit⟩
    rw [show getIntegerAutoconvIfStr asserts (intConvRedisInt aryToInt) (.string text) = .ok narrowed
      from returned] at threw
    contradiction
  · intro spoiled
    refine ⟨fun value numeral inRange => intConvRedisInt_numeral folds numeral inRange, ?_⟩
    rintro ⟨other, member, invalid⟩
    obtain ⟨first, there, noDigit, noLetter⟩ : ∃ first ∈ afterSign (passedOn text),
        ¬ IsDigit first ∧ ¬ IsLetter first := by
      by_cases letter : IsLetter other
      · exact spoiled ⟨other, member, letter⟩
      · exact ⟨other, member, invalid, letter⟩
    obtain ⟨what, failed⟩ := foldDigits_error there noDigit noLetter 0
    exact ⟨what, folds.throws _ _ failed⟩

/-! The texts of numbers are numerals, so that `int_conv` meets what scans ask of it. -/

theorem isDigit_of_isDigit {digit : Char} (valid : digit.isDigit = true) : IsDigit digit := by
  simp only [Char.isDigit, Bool.and_eq_true, decide_eq_true_eq] at valid
  exact valid

theorem toString_numeral (n : Int) : Numeral (toString n).toList n := by
  have digits (m : Nat) : m.repr.toList ≠ [] ∧ ∀ digit ∈ m.repr.toList, IsDigit digit := by
    rw [Nat.toList_repr]
    refine ⟨Nat.toDigits_ne_nil, fun digit member => ?_⟩
    exact isDigit_of_isDigit (Nat.isDigit_of_mem_toDigits (by decide) (by decide) member)
  cases n with
  | ofNat m =>
    obtain ⟨some, valid⟩ := digits m
    have numeral := Numeral.unsigned some valid
    rw [ofDigitChars_repr] at numeral
    exact numeral
  | negSucc m =>
    obtain ⟨some, valid⟩ := digits (m + 1)
    have numeral := Numeral.minus some valid
    rw [ofDigitChars_repr] at numeral
    rw [toList_negSucc]
    exact numeral

theorem Numeral.passedOn {text : String} {value : Int} (numeral : Numeral text.toList value) :
    passedOn text = text.toList := by
  rw [Scan.passedOn, if_neg]
  intro last
  have digit : IsDigit (Char.ofNat 0) := by
    generalize text.toList = chars at numeral last
    cases numeral with
    | unsigned _ valid => exact valid _ (List.mem_of_getLast? last)
    | plus some valid =>
      rw [List.getLast?_cons_of_ne_nil some] at last
      exact valid _ (List.mem_of_getLast? last)
    | minus some valid =>
      rw [List.getLast?_cons_of_ne_nil some] at last
      exact valid _ (List.mem_of_getLast? last)
  exact absurd digit (by decide)

theorem intConv_correct {aryToInt : List Char → Except Exception Int} (folds : Folds aryToInt)
    {print : Int → String} (prints : ∀ n, InRedisInt n → print n = toString n) :
    IntConv.Correct ⟨print, intConvRedisInt aryToInt⟩ := by
  refine ⟨prints, fun n inRange => intConvRedisInt_numeral folds ?_ inRange⟩
  rw [(toString_numeral n).passedOn]
  exact toString_numeral n

/-- An `ary_to_int` that wraps around. -/
def foldModulo (chars : List Char) : Except Exception Int :=
  (foldDigits 0 (afterSign chars)).map fun value => Int.bmod (withSign chars value) (2 ^ 64)

theorem foldModulo_folds : Folds foldModulo := by
  refine ⟨fun chars value fold inRange => ?_, fun chars value fold => ?_, fun chars thrown threw => ?_⟩
  · obtain ⟨low, high⟩ := inRange
    rw [foldModulo, fold]
    exact congrArg Except.ok (Int.bmod_eq_of_le (by omega) (by omega))
  · exact ⟨_, by rw [foldModulo, fold]; rfl⟩
  · rw [foldModulo, threw]
    rfl

theorem parses_decimal_iff_negative :
    getIntegerAutoconvIfStr true (intConvRedisInt foldModulo) (.string "-42") = .ok (-42) := by
  have digits : ∀ digit ∈ ['4', '2'], IsDigit digit := by
    simp only [List.forall_mem_cons, List.not_mem_nil, false_implies, implies_true, and_true]
    decide
  have numeral : Numeral ('-' :: ['4', '2']) (-Nat.ofDigitChars 10 ['4', '2'] 0) :=
    .minus (by decide) digits
  have noLetter : ∀ letter ∈ ['4', '2'], ¬ IsLetter letter := by
    simp only [List.forall_mem_cons, List.not_mem_nil, false_implies, implies_true, and_true]
    decide
  exact ((parses_decimal_iff foldModulo_folds true "-42").mpr
    (fun ⟨letter, member, isLetter⟩ => absurd isLetter (noLetter letter member))).accepts (-42)
    numeral (by decide)

/-- Letters are read as digits: a cursor `a` would end a scan. -/
theorem letters_accepted : Folds foldModulo ∧
    (∃ other ∈ afterSign (passedOn "a"), ¬ IsDigit other) ∧
      getIntegerAutoconvIfStr true (intConvRedisInt foldModulo) (.string "a") = .ok 0 ∧
    (∃ other ∈ afterSign (passedOn "OK"), ¬ IsDigit other) ∧
      getIntegerAutoconvIfStr true (intConvRedisInt foldModulo) (.string "OK") = .ok 150 :=
  ⟨foldModulo_folds, ⟨'a', by decide, by decide⟩, rfl, ⟨'O', by decide, by decide⟩, rfl⟩

end Incredis.Scan
