import Incredis.Command
import Mathlib.Algebra.Ring.Int.Defs

/-! `ScanIterator`, for any way to fetch values. The counterpart of `increment()`
returns the object also when it throws. -/
namespace Incredis.Scan

/-- `RedisInt` is a 64-bit `long long`. -/
def InRedisInt (n : Int) : Prop := -2 ^ 63 ≤ n ∧ n < 2 ^ 63

instance : Decidable (InRedisInt n) := inferInstanceAs (Decidable (_ ∧ _))

/-- `int_conv` between `RedisInt` and `std::string`. -/
structure IntConv where
  print : Int → String
  parse : String → Except Exception Int

structure IntConv.Correct (intConv : IntConv) : Prop where
  print : ∀ n, InRedisInt n → intConv.print n = toString n
  parse : ∀ n, InRedisInt n → intConv.parse (toString n) = .ok n

theorem ofDigitChars_repr (m : Nat) : Nat.ofDigitChars 10 m.repr.toList 0 = m := by
  rw [Nat.toList_repr]
  exact Nat.ofDigitChars_ten_toDigits

theorem toList_negSucc (m : Nat) :
    (toString (Int.negSucc m)).toList = '-' :: (m + 1).repr.toList := by
  show ("-" ++ (m + 1).repr).toList = _
  rw [String.toList_append]
  rfl

/-- The template argument of `ScanIterator`, with the scan target of its object.
`makeValue` is given the elements from `parItem` on. -/
structure ValueFetch (V : Type) where
  command : String
  step : Nat
  workCount : Int
  scanTarget : Option String
  makeValue : List Reply → Except Exception V
  step_pos : 0 < step

/-- `get` is the accessor for `T`, with its assertions or without. -/
def scanSingleValues (get : Reply → Except Exception T) : ValueFetch T where
  command := "SCAN"
  step := 1
  workCount := 10
  scanTarget := none
  makeValue items := do get (← readAt items 0)
  step_pos := by decide

def scanSingleValuesInKey (get : Reply → Except Exception T) (scanTarget : String) :
    ValueFetch T where
  command := "SSCAN"
  step := 1
  workCount := 10
  scanTarget := some scanTarget
  makeValue items := do get (← readAt items 0)
  step_pos := by decide

inductive PairCommand
  | hscan
  | zscan
deriving DecidableEq, Repr

def PairCommand.toString : PairCommand → String
  | hscan => "HSCAN"
  | zscan => "ZSCAN"

/-- C++ leaves it to the compiler which argument of a call is evaluated first. -/
inductive ArgumentOrder
  | leftFirst
  | rightFirst
deriving DecidableEq, Repr

def scanPairs (order : ArgumentOrder) (command : PairCommand) (getA : Reply → Except Exception A)
    (getB : Reply → Except Exception B) (scanTarget : String) : ValueFetch (A × B) where
  command := command.toString
  step := 2
  workCount := 10
  scanTarget := some scanTarget
  makeValue items := match order with
    | .leftFirst => do
      let first ← getA (← readAt items 0)
      let second ← getB (← readAt items 1)
      return (first, second)
    | .rightFirst => do
      let second ← getB (← readAt items 1)
      let first ← getA (← readAt items 0)
      return (first, second)
  step_pos := by decide

/-- `command` stands for the address of the `Command`. -/
structure ScanIterator (V : Type) where
  command : Nat
  matchPattern : String
  reply : List V := []
  scanContext : Int := 0
  currIndex : Nat := 0
deriving DecidableEq, Repr

/-- The requests made so far, the object and how the call ended. -/
structure Outcome (V : Type) where
  requests : List Request
  iterator : ScanIterator V
  result : Except Exception Unit

section
variable {V : Type} (intConv : IntConv) (server : Server) (fetch : ValueFetch V) (asserts : Bool)

/-- What both overloads of `ScanIteratorBaseClass::run` hand to `Command::run`. -/
def arguments (matchPattern countHint scanContext : String) : Request :=
  let first := fetch.command :: fetch.scanTarget.toList ++ [scanContext]
  if matchPattern.isEmpty then first ++ ["COUNT", countHint]
  else first ++ ["MATCH", matchPattern, "COUNT", countHint]

def request (matchPattern : String) (scanContext : Int) : Request :=
  arguments fetch matchPattern (intConv.print fetch.workCount) (intConv.print scanContext)

namespace ScanIterator
variable {V : Type} (it : ScanIterator V)

def isEnd : Bool := it.currIndex = 0 && it.reply.isEmpty && it.scanContext = 0

/-- The test for identity at the head of `equal` is left out: an object is equal to
itself by the rest. -/
def equal (other : ScanIterator V) : Bool :=
  it.isEnd && other.isEnd ||
    !(it.isEnd || other.isEnd) && it.command = other.command &&
      it.scanContext = other.scanContext && it.currIndex = other.currIndex &&
      it.reply.length = other.reply.length

def dereference (asserts : Bool) : Except Exception V := do
  cassert asserts (it.reply ≠ [])
  cassert asserts (it.currIndex < it.reply.length)
  readAt it.reply it.currIndex

end ScanIterator

/-- What one pass of the fetch loop reads from a reply: the new context and the
elements of the page. -/
def readPage (wholeReply : Reply) : Except Exception (Int × List Reply) := do
  let arrayReply ← getArray asserts wholeReply
  cassert asserts (2 = arrayReply.length)
  cassert asserts (arrayReply.length % fetch.step = 0)
  let newContext ← getIntegerAutoconvIfStr asserts intConv.parse (← readAt arrayReply 0)
  let elements ← getArray asserts (← readAt arrayReply 1)
  return (newContext, elements)

/-- The `do` loop of `increment()`, with a bound on its passes. -/
def fetchLoop (matchPattern : String) : Nat → Int → List Request →
    Option (List Request × Except Exception (Int × List Reply))
  | 0, _, _ => none
  | fuel + 1, newContext, requests =>
    let requests := requests ++ [request intConv fetch matchPattern newContext]
    match commandRun (server requests) >>= readPage intConv fetch asserts with
    | .error thrown => some (requests, .error thrown)
    | .ok (newContext, elements) =>
      if newContext ≠ 0 ∧ elements = [] then fetchLoop matchPattern fuel newContext requests
      else some (requests, .ok (newContext, elements))

/-- The `for` loop of `increment()`, from the offsets that are left. -/
def pushValues (variantArray : List Reply) : List Nat → List V → List V × Except Exception Unit
  | [], reply => (reply, .ok ())
  | z :: rest, reply =>
    match fetch.makeValue (variantArray.drop z) with
    | .error thrown => (reply, .error thrown)
    | .ok value => pushValues variantArray rest (reply ++ [value])

/-- `0, step, 2 * step, ..` below `size` -/
def offsets (step size : Nat) : List Nat := List.range' 0 ((size + step - 1) / step) step

/-- The rest of the last branch of `increment()`. -/
def installPage (it : ScanIterator V) (newContext : Int) (variantArray : List Reply) :
    ScanIterator V × Except Exception Unit :=
  let expectedReplyCount := variantArray.length / fetch.step
  match cassert asserts (variantArray.length % fetch.step = 0) with
  | .error failed => (it, .error failed)
  | .ok () =>
    let (reply, pushed) := pushValues fetch variantArray (offsets fetch.step variantArray.length) []
    match pushed >>= fun _ => cassert asserts (expectedReplyCount = reply.length) with
    | .error thrown => ({ it with reply }, .error thrown)
    | .ok () => ({ it with reply, scanContext := newContext, currIndex := 0 }, .ok ())

def increment (fuel : Nat) (requests : List Request) (it : ScanIterator V) : Option (Outcome V) :=
  match cassert asserts (it.isEnd = false) with
  | .error failed => some ⟨requests, it, .error failed⟩
  | .ok () =>
    if it.currIndex + 1 < it.reply.length then
      some ⟨requests, { it with currIndex := it.currIndex + 1 }, .ok ()⟩
    else if it.currIndex + 1 = it.reply.length ∧ it.scanContext = 0 then
      some ⟨requests, { it with reply := [], currIndex := 0 }, .ok ()⟩
    else
      (fetchLoop intConv server fetch asserts it.matchPattern fuel it.scanContext requests).map
        fun (requests, fetched) => match fetched with
          | .error thrown => ⟨requests, it, .error thrown⟩
          | .ok (newContext, variantArray) =>
            let (it, result) := installPage fetch asserts it newContext variantArray
            ⟨requests, it, result⟩

/-- `ScanIterator(command, true)` -/
def endIterator (command : Nat) (matchPattern : String) : ScanIterator V :=
  { command, matchPattern }

/-- `ScanIterator(command, false)`: index 1 is an arbitrary value that makes
`is_end()` false. -/
def beginIterator (fuel command : Nat) (matchPattern : String) : Option (Outcome V) :=
  increment intConv server fetch asserts fuel [] { command, matchPattern, currIndex := 1 }

/-- The iterator after a number of increments; an exception ends the walk. -/
def walk (fuel command : Nat) (matchPattern : String) : Nat → Option (Outcome V)
  | 0 => beginIterator intConv server fetch asserts fuel command matchPattern
  | n + 1 => (walk fuel command matchPattern n).bind fun outcome =>
    match outcome.result with
    | .error _ => some outcome
    | .ok () => increment intConv server fetch asserts fuel outcome.requests outcome.iterator

end

end Incredis.Scan
