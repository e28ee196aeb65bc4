import Incredis.Command
import Incredis.Decimal.Text
import Incredis.Interval
import Mathlib.Algebra.Order.Ring.Rat

/-! The bounds of `zrangebyscore` are sent as text, with the six significant digits that a
stream writes when it is told nothing else. Only bounds without a fraction are modelled. -/
namespace Incredis.Score
open Decimal

/-- A `double` that is an integer of at most 53 bits; there are two zeros. -/
structure IntegralDouble where
  signbit : Bool
  magnitude : Nat
  small : magnitude ≤ 2 ^ 53

def IntegralDouble.value (x : IntegralDouble) : Int :=
  if x.signbit then -x.magnitude else x.magnitude

/-- `oss << parValue` -/
def written (parValue : IntegralDouble) : List Char :=
  if parValue.signbit then '-' :: general 6 parValue.magnitude else general 6 parValue.magnitude

def makeBoundary (parValue : IntegralDouble) (parExclude : Bool) : String :=
  String.ofList (if parExclude then '(' :: written parValue else written parValue)

/-- The request of `IncRedisBatch::zrangebyscore` -/
def zrangebyscore (parKey : String) (parMin : IntegralDouble) (parMinIncl : Bool)
    (parMax : IntegralDouble) (parMaxIncl parWithScores : Bool) : Request :=
  let lowerBound := makeBoundary parMin (!parMinIncl)
  let upperBound := makeBoundary parMax (!parMaxIncl)
  if parWithScores then ["ZRANGEBYSCORE", parKey, lowerBound, upperBound, "WITHSCORES"]
  else ["ZRANGEBYSCORE", parKey, lowerBound, upperBound]

/-- The number a boundary names and whether it is in the interval itself. -/
def readBoundary (boundary : String) : Option (ℚ × Bool) :=
  match boundary.toList with
  | '(' :: number => (read number).map fun value => (value, false)
  | number => (read number).map fun value => (value, true)

/-- The interval that a request asks for. -/
def denoted : Request → Option (Interval ℚ)
  | _ :: _ :: lowerBound :: upperBound :: _ => do
    let (lower, lowerIncl) ← readBoundary lowerBound
    let (upper, upperIncl) ← readBoundary upperBound
    return ⟨lower, upper, lowerIncl, upperIncl⟩
  | _ => none

/-- The interval that the caller asks for. -/
def wanted (parMin : IntegralDouble) (parMinIncl : Bool) (parMax : IntegralDouble)
    (parMaxIncl : Bool) : Interval ℤ :=
  ⟨parMin.value, parMax.value, parMinIncl, parMaxIncl⟩

/-- Members with their scores, which are integers of at most 53 bits. -/
structure SortedSet where
  scored : List (String × ℤ)
  members : (scored.map Prod.fst).Nodup
  ordered : scored.Pairwise fun first second => first.2 ≤ second.2
  small : ∀ entry ∈ scored, -2 ^ 53 ≤ entry.2 ∧ entry.2 ≤ 2 ^ 53

/-- The answer to a request that can be read. -/
def SortedSet.answer (set : SortedSet) (request : Request) : Option (List (String × ℤ)) :=
  (denoted request).map fun interval => set.scored.filter fun entry => interval.Contains (entry.2 : ℚ)

theorem read_written (parValue : IntegralDouble) :
    read (written parValue) = some (roundInt 6 parValue.value : ℚ) := by
  unfold written IntegralDouble.value
  cases parValue.signbit with
  | false =>
    simp only [Bool.false_eq_true, ↓reduceIte]
    rw [read_general (by omega), roundInt_natCast, Int.cast_natCast]
  | true =>
    simp only [↓reduceIte]
    rw [read_neg_general (by omega), roundInt_neg_natCast, Int.cast_neg, Int.cast_natCast]

theorem readBoundary_makeBoundary (parValue : IntegralDouble) (parExclude : Bool) :
    readBoundary (makeBoundary parValue parExclude) =
      some ((roundInt 6 parValue.value : ℚ), !parExclude) := by
  cases parExclude with
  | true =>
    simp only [makeBoundary, readBoundary, ↓reduceIte, String.toList_ofList, read_written,
      Option.map_some, Bool.not_true]
  | false =>
    simp only [makeBoundary, readBoundary, Bool.false_eq_true, ↓reduceIte, String.toList_ofList,
      Bool.not_false]
    split
    case h_1 number opens =>
      -- no number starts like this
      have whole := read_written parValue
      rw [opens] at whole
      contradiction
    case h_2 => rw [read_written, Option.map_some]

theorem denoted_zrangebyscore (parKey : String) (parMin : IntegralDouble) (parMinIncl : Bool)
    (parMax : IntegralDouble) (parMaxIncl parWithScores : Bool) :
    denoted (zrangebyscore parKey parMin parMinIncl parMax parMaxIncl parWithScores) =
      some (((wanted parMin parMinIncl parMax parMaxIncl).map (roundInt 6)).map Int.cast) := by
  unfold zrangebyscore
  split <;> simp [denoted, readBoundary_makeBoundary, Interval.map, wanted]

/-- Integers of at most 53 bits, of which those with at most six significant digits are
left alone. -/
theorem rounds : Interval.Rounds (fun x => Significant 6 x.natAbs) (roundInt 6) (-2 ^ 53) (2 ^ 53) where
  mono := roundInt_mono (by omega)
  fixed := roundInt_eq_self_iff (by omega)
  image x := by
    rw [natAbs_roundInt]
    exact significant_roundTo (by omega) _
  low := by decide
  high := by decide

theorem IntegralDouble.bounded (x : IntegralDouble) : -2 ^ 53 ≤ x.value ∧ x.value ≤ 2 ^ 53 := by
  have := x.small
  unfold value
  split <;> omega

namespace SortedSet

def singleton (member : String) (score : ℤ) (small : -2 ^ 53 ≤ score ∧ score ≤ 2 ^ 53) :
    SortedSet where
  scored := [(member, score)]
  members := by simp
  ordered := List.pairwise_singleton _ _
  small entry one := by
    rw [List.mem_singleton.mp one]
    exact small

/-- Two intervals select the same of every set if no score tells them apart. -/
theorem selects_same_iff (asked : Interval ℚ) (meant : Interval ℤ) :
    (∀ set : SortedSet, set.scored.filter (fun entry => asked.Contains (entry.2 : ℚ)) =
        set.scored.filter fun entry => meant.Contains entry.2) ↔
      ∀ s : ℤ, -2 ^ 53 ≤ s → s ≤ 2 ^ 53 → (asked.Contains (s : ℚ) ↔ meant.Contains s) := by
  constructor
  · intro same s low high
    have one := same (singleton "member" s ⟨low, high⟩)
    simp only [singleton, List.filter_cons, List.filter_nil, decide_eq_true_eq] at one
    constructor
    · intro left
      by_contra right
      rw [if_pos left, if_neg right] at one
      contradiction
    · intro right
      by_contra left
      rw [if_neg left, if_pos right] at one
      contradiction
  · intro same set
    apply List.filter_congr
    intro entry member
    obtain ⟨low, high⟩ := set.small entry member
    rw [decide_eq_decide]
    exact same entry.2 low high

end SortedSet

/-- When the server selects, of every sorted set, what the caller asked for. -/
theorem bounds_kept_iff (parKey : String) (parMin : IntegralDouble) (parMinIncl : Bool)
    (parMax : IntegralDouble) (parMaxIncl parWithScores : Bool) :
    (∀ set : SortedSet,
      set.answer (zrangebyscore parKey parMin parMinIncl parMax parMaxIncl parWithScores) =
        some (set.scored.filter fun entry =>
          (wanted parMin parMinIncl parMax parMaxIncl).Contains entry.2)) ↔
      (wanted parMin parMinIncl parMax parMaxIncl).Unmoved
        (fun bound => Significant 6 bound.natAbs) (roundInt 6) (-2 ^ 53) (2 ^ 53) := by
  simp only [SortedSet.answer, denoted_zrangebyscore, Option.map_some, Option.some.injEq]
  rw [SortedSet.selects_same_iff, ← rounds.unmoved_iff parMin.bounded.1 parMax.bounded.2]
  simp only [Interval.contains_cast]

/-- A time stamp of seven digits as both bounds. -/
def stamp : IntegralDouble := ⟨false, 1234567, by decide⟩

/-- A score is not found under itself. -/
theorem bounds_moved : ∃ set : SortedSet,
    set.answer (zrangebyscore "events" stamp true stamp true false) = some [] ∧
      (set.scored.filter fun entry => (wanted stamp true stamp true).Contains entry.2) =
        [("start", 1234567)] := by
  refine ⟨.singleton "start" 1234567 (by decide), ?_, by decide⟩
  simp only [SortedSet.answer, denoted_zrangebyscore, Option.map_some, Interval.contains_cast]
  decide

end Incredis.Score
