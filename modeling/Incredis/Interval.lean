import Mathlib.Algebra.Order.Ring.Cast

/-! Intervals with ends that belong to them or not, and what becomes of an interval of
integers when its ends are rounded: which of the integers in a window it still has. -/
namespace Incredis

structure Interval (α : Type) where
  lower : α
  upper : α
  lowerIncl : Bool
  upperIncl : Bool

namespace Interval

/-- The numbers after the lower end and before the upper one. -/
def Contains [LE α] [LT α] (i : Interval α) (s : α) : Prop :=
  (if i.lowerIncl then i.lower ≤ s else i.lower < s) ∧
    if i.upperIncl then s ≤ i.upper else s < i.upper

instance [LE α] [LT α] [DecidableLE α] [DecidableLT α] (i : Interval α) (s : α) :
    Decidable (i.Contains s) := inferInstanceAs (Decidable (_ ∧ _))

/-- Each end is replaced; whether it belongs to the interval stays. -/
def map (f : α → β) (i : Interval α) : Interval β where
  lower := f i.lower
  upper := f i.upper
  lowerIncl := i.lowerIncl
  upperIncl := i.upperIncl

theorem contains_cast (i : Interval ℤ) (s : ℤ) [Ring α] [PartialOrder α] [IsOrderedRing α]
    [Nontrivial α] : (i.map (Int.cast : ℤ → α)).Contains s ↔ i.Contains s := by
  simp only [Contains, map, Int.cast_le, Int.cast_lt]

def first (i : Interval ℤ) : ℤ := if i.lowerIncl then i.lower else i.lower + 1

def last (i : Interval ℤ) : ℤ := if i.upperIncl then i.upper else i.upper - 1

theorem contains_iff (i : Interval ℤ) (s : ℤ) : i.Contains s ↔ i.first ≤ s ∧ s ≤ i.last := by
  unfold Contains first last
  split_ifs <;> omega

/-- When two intervals have the same integers of a window, if the first has some. -/
theorem agree_of_nonempty {bot top first last first' last' : ℤ} (some : first ≤ last)
    (low : bot ≤ first) (high : last ≤ top) :
    (∀ s, bot ≤ s → s ≤ top → (first' ≤ s ∧ s ≤ last' ↔ first ≤ s ∧ s ≤ last)) ↔
      (first' = first ∨ first = bot ∧ first' ≤ bot) ∧
        (last' = last ∨ last = top ∧ top ≤ last') := by
  constructor
  · intro agree
    have atFirst := agree first low (by omega)
    have atLast := agree last (by omega) high
    have before := agree (first - 1)
    have after := agree (last + 1)
    omega
  · intro ends s _ _
    omega

/-- Without an integer in the first, the second must have none in the window. -/
theorem agree_of_empty {bot top first last first' last' : ℤ} (empty : last < first) :
    (∀ s, bot ≤ s → s ≤ top → (first' ≤ s ∧ s ≤ last' ↔ first ≤ s ∧ s ≤ last)) ↔
      ∀ s, bot ≤ s → s ≤ top → ¬(first' ≤ s ∧ s ≤ last') := by
  refine forall_congr' fun s => imp_congr_right fun _ => imp_congr_right fun _ => ?_
  omega

/-- A rounding, the integers it leaves alone and a window whose ends it does not move
inwards. -/
structure Rounds (exact : ℤ → Prop) (rounded : ℤ → ℤ) (bot top : ℤ) : Prop where
  mono : ∀ {x y}, x ≤ y → rounded x ≤ rounded y
  fixed : ∀ x, rounded x = x ↔ exact x
  image : ∀ x, exact (rounded x)
  low : rounded bot ≤ bot
  high : top ≤ rounded top

/-- The ends of an interval can be rounded without a loss. -/
inductive Unmoved (exact : ℤ → Prop) (rounded : ℤ → ℤ) (bot top : ℤ) (i : Interval ℤ) : Prop
  /-- Each end is exact, or no number of the window is on the wrong side of it. -/
  | ends (lower : exact i.lower ∨ i.lower = bot ∧ i.lowerIncl)
      (upper : exact i.upper ∨ i.upper = top ∧ i.upperIncl)
  /-- The interval is empty because an end does not belong to it, ... -/
  | excluded (empty : i.upper ≤ i.lower) (one : i.lowerIncl = false ∨ i.upperIncl = false)
  /-- ... because there is no integer between the ends, which become one, ... -/
  | adjacent (next : i.upper = i.lower + 1) (lowerExcl : i.lowerIncl = false)
      (upperExcl : i.upperIncl = false) (same : rounded i.lower = rounded i.upper)
  /-- ... or because the ends are in the wrong order and do not become one. -/
  | reversed (empty : i.upper < i.lower)
      (apart : rounded i.lower = rounded i.upper →
        rounded i.lower < bot ∨ top < rounded i.lower)

section
variable {exact : ℤ → Prop} {rounded : ℤ → ℤ} {bot top : ℤ} {i : Interval ℤ}

namespace Rounds

/-- Neighbours that do not become one move apart. -/
theorem apart (rounds : Rounds exact rounded bot top) (x : ℤ)
    (differ : rounded x ≠ rounded (x + 1)) : rounded x ≤ x ∧ x + 1 ≤ rounded (x + 1) := by
  have order := rounds.mono (show x ≤ x + 1 by omega)
  have still (y : ℤ) : rounded (rounded y) = rounded y := (rounds.fixed _).mpr (rounds.image y)
  constructor
  · by_contra above
    have := rounds.mono (show x + 1 ≤ rounded x by omega)
    rw [still] at this
    omega
  · by_contra below
    have := rounds.mono (show rounded (x + 1) ≤ x by omega)
    rw [still] at this
    omega

theorem first_map_iff (rounds : Rounds exact rounded bot top) (within : bot ≤ i.lower) :
    ((i.map rounded).first = i.first ∨ i.first = bot ∧ (i.map rounded).first ≤ bot) ↔
      exact i.lower ∨ i.lower = bot ∧ i.lowerIncl := by
  rw [← rounds.fixed]
  unfold first map
  cases i.lowerIncl with
  | false =>
    simp only [Bool.false_eq_true, ↓reduceIte, and_false, or_false]
    omega
  | true =>
    have low : i.lower = bot → rounded i.lower ≤ bot := fun at_ => at_ ▸ rounds.low
    simp only [↓reduceIte, and_true]
    omega

theorem last_map_iff (rounds : Rounds exact rounded bot top) (within : i.upper ≤ top) :
    ((i.map rounded).last = i.last ∨ i.last = top ∧ top ≤ (i.map rounded).last) ↔
      exact i.upper ∨ i.upper = top ∧ i.upperIncl := by
  rw [← rounds.fixed]
  unfold last map
  cases i.upperIncl with
  | false =>
    simp only [Bool.false_eq_true, ↓reduceIte, and_false, or_false]
    omega
  | true =>
    have high : i.upper = top → top ≤ rounded i.upper := fun at_ => at_ ▸ rounds.high
    simp only [↓reduceIte, and_true]
    omega

end Rounds

theorem last_lt_first_of_excluded (empty : i.upper ≤ i.lower)
    (one : i.lowerIncl = false ∨ i.upperIncl = false) : i.last < i.first := by
  unfold first last
  rcases one with excl | excl
  · simp only [excl, Bool.false_eq_true, ↓reduceIte]
    split_ifs <;> omega
  · simp only [excl, Bool.false_eq_true, ↓reduceIte]
    split_ifs <;> omega

theorem last_lt_first_of_open (close : i.upper ≤ i.lower + 1) (lowerExcl : i.lowerIncl = false)
    (upperExcl : i.upperIncl = false) : i.last < i.first := by
  unfold first last
  rw [lowerExcl, upperExcl]
  simp only [Bool.false_eq_true, ↓reduceIte]
  omega

theorem last_lt_first_of_reversed (empty : i.upper < i.lower) : i.last < i.first := by
  unfold first last
  split_ifs <;> omega

namespace Rounds

theorem nonempty (rounds : Rounds exact rounded bot top) (some : i.first ≤ i.last)
    (lower : bot ≤ i.lower) (upper : i.upper ≤ top) :
    (∀ s, bot ≤ s → s ≤ top → ((i.map rounded).Contains s ↔ i.Contains s)) ↔
      Unmoved exact rounded bot top i := by
  have low : bot ≤ i.first := by
    unfold first
    split <;> omega
  have high : i.last ≤ top := by
    unfold last
    split <;> omega
  simp only [contains_iff]
  rw [agree_of_nonempty some low high, rounds.first_map_iff lower, rounds.last_map_iff upper]
  constructor
  · rintro ⟨lower, upper⟩
    exact .ends lower upper
  · rintro (⟨lower, upper⟩ | ⟨empty, one⟩ | ⟨next, lowerExcl, upperExcl, _⟩ | ⟨empty, _⟩)
    · exact ⟨lower, upper⟩
    · exact absurd (last_lt_first_of_excluded empty one) (by omega)
    · exact absurd (last_lt_first_of_open next.le lowerExcl upperExcl) (by omega)
    · exact absurd (last_lt_first_of_reversed empty) (by omega)

/-- An interval without integers, none of which appears when it is rounded. -/
theorem unmoved_of_none (rounds : Rounds exact rounded bot top) (empty : i.last < i.first)
    (lower : bot ≤ i.lower) (upper : i.upper ≤ top)
    (none : ∀ s, bot ≤ s → s ≤ top → ¬((i.map rounded).first ≤ s ∧ s ≤ (i.map rounded).last)) :
    Unmoved exact rounded bot top i := by
  simp only [first, last, map] at empty none
  cases lowerIncl : i.lowerIncl <;> cases upperIncl : i.upperIncl <;>
    simp only [lowerIncl, upperIncl, Bool.false_eq_true, ↓reduceIte] at empty none
  · rcases Int.lt_or_le i.lower i.upper with less | le
    · have next : i.upper = i.lower + 1 := by omega
      by_cases same : rounded i.lower = rounded i.upper
      · exact .adjacent next lowerIncl upperIncl same
      · rw [next] at same
        obtain ⟨down, up⟩ := rounds.apart i.lower same
        rw [← next] at up
        have atLower := none i.lower lower (by omega)
        have atUpper := none i.upper (by omega) upper
        exact .ends (.inl ((rounds.fixed _).mp (by omega))) (.inl ((rounds.fixed _).mp (by omega)))
    · exact .excluded le (.inl lowerIncl)
  · exact .excluded (by omega) (.inl lowerIncl)
  · exact .excluded (by omega) (.inr upperIncl)
  · refine .reversed empty fun same => ?_
    have atRounded := none (rounded i.lower)
    omega

theorem none_of_unmoved (rounds : Rounds exact rounded bot top) (empty : i.last < i.first)
    (lower : bot ≤ i.lower) (upper : i.upper ≤ top) (unmoved : Unmoved exact rounded bot top i)
    (s : ℤ) (low : bot ≤ s) (high : s ≤ top) :
    ¬((i.map rounded).first ≤ s ∧ s ≤ (i.map rounded).last) := by
  rcases unmoved with ⟨lower', upper'⟩ | ⟨disorder, one⟩ | ⟨next, lowerExcl, upperExcl, same⟩ |
    ⟨disorder, apart⟩
  · have := (rounds.first_map_iff lower).mpr lower'
    have := (rounds.last_map_iff upper).mpr upper'
    omega
  · have := last_lt_first_of_excluded (show (i.map rounded).upper ≤ (i.map rounded).lower from
      rounds.mono disorder) one
    omega
  · have := last_lt_first_of_open (show (i.map rounded).upper ≤ (i.map rounded).lower + 1 by
      simp only [map, same]; omega) lowerExcl upperExcl
    omega
  · have order : rounded i.upper ≤ rounded i.lower := rounds.mono disorder.le
    simp only [first, last, map]
    split_ifs <;> omega

/-- When rounding the ends does not change which integers of the window are inside. -/
theorem unmoved_iff (rounds : Rounds exact rounded bot top) (lower : bot ≤ i.lower)
    (upper : i.upper ≤ top) :
    (∀ s, bot ≤ s → s ≤ top → ((i.map rounded).Contains s ↔ i.Contains s)) ↔
      Unmoved exact rounded bot top i := by
  rcases Int.lt_or_le i.last i.first with empty | some
  · simp only [contains_iff]
    rw [agree_of_empty empty]
    exact ⟨rounds.unmoved_of_none empty lower upper, rounds.none_of_unmoved empty lower upper⟩
  · exact rounds.nonempty some lower upper

end Rounds

end

end Interval

end Incredis
