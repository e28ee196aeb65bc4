import Incredis.Scan.Position
import Incredis.Scan.Traversal

/-! A scan whose requests fail now and then, and which the caller takes up again. What else
is asked between two calls, through copies of the iterator too, is left open: every call
may find any history of requests. -/
namespace Incredis.Scan

section
variable {V : Type} (intConv : IntConv) (server : Server) (fetch : ValueFetch V) (asserts : Bool)
  (fuel command : Nat) (matchPattern : String)

/-- The element an iterator is on; none at the end. -/
def ScanIterator.element (it : ScanIterator V) : List V :=
  match it.dereference asserts with
  | .ok value => [value]
  | .error _ => []

/-- What a constructor that does not throw leaves. -/
def Begins (begun : ScanIterator V) : Prop :=
  ∃ requests outcome, increment intConv server fetch asserts fuel requests
      { command, matchPattern, currIndex := 1 } = some outcome ∧
    outcome.result = .ok () ∧ outcome.iterator = begun

/-- A number of increments that return, with the elements they arrive at, among any others
that throw. -/
inductive Advances (begun : ScanIterator V) : Nat → List V → ScanIterator V → Prop
  | none : Advances begun 0 [] begun
  | passed {made seen it requests outcome} : Advances begun made seen it → it.isEnd = false →
      increment intConv server fetch asserts fuel requests it = some outcome →
      outcome.result = .ok () →
      Advances begun (made + 1) (seen ++ outcome.iterator.element asserts) outcome.iterator
  | failed {made seen it requests outcome thrown} : Advances begun made seen it → it.isEnd = false →
      increment intConv server fetch asserts fuel requests it = some outcome →
      outcome.result = .error thrown → Advances begun made seen outcome.iterator

end

section
variable {V : Type} {intConv : IntConv} {server : Server} {fetch : ValueFetch V}
  {matchPattern : String} {pageOf : Int → Page V} {pages : List (Page V)} {asserts : Bool}
  {fuel command : Nat} {begun it : ScanIterator V} {made : Nat} {seen : List V}

namespace Position

theorem isEnd_iff (position : Position pages command matchPattern made it) :
    it.isEnd = true ↔ made = (pages.flatMap Page.values).length := by
  obtain ⟨_, _, place⟩ := position
  rcases place with ⟨before, page, after, split, reply, _, bound, rfl⟩ | ⟨ended, all⟩
  · have some : it.reply ≠ [] := by
      intro none
      rw [← reply, none] at bound
      exact absurd bound (Nat.not_lt_zero _)
    constructor
    · intro ended
      simp [ScanIterator.isEnd, some] at ended
    · intro all
      simp [split] at all
      omega
  · exact ⟨fun _ => all, fun _ => ended⟩

/-- Before the end the iterator is on the value of its number. -/
theorem dereference (position : Position pages command matchPattern made it)
    (going : it.isEnd = false) (asserts : Bool) :
    ∃ value, (pages.flatMap Page.values)[made]? = some value ∧
      it.dereference asserts = .ok value := by
  obtain ⟨_, _, place⟩ := position
  obtain ⟨before, page, after, rfl, reply, _, bound, rfl⟩ :=
    place.resolve_right fun ended => by simp [going] at ended
  have here := List.getElem?_eq_getElem bound
  rw [← reply] at bound
  have some : it.reply ≠ [] := List.ne_nil_of_length_pos (Nat.zero_lt_of_lt bound)
  refine ⟨page.values[it.currIndex], ?_, ?_⟩
  · rw [List.flatMap_append, List.flatMap_cons, List.getElem?_append_right (by omega),
      Nat.add_sub_cancel_left, List.getElem?_append_left (by rwa [reply] at bound), here]
  · rw [ScanIterator.dereference, cassert_of some, cassert_of bound, readAt, reply, here]
    rfl

theorem element (position : Position pages command matchPattern made it) (asserts : Bool) :
    it.element asserts = ((pages.flatMap Page.values).drop made).take 1 := by
  cases going : it.isEnd with
  | false =>
    obtain ⟨value, here, dereferenced⟩ := position.dereference going asserts
    obtain ⟨bound, rfl⟩ := List.getElem?_eq_some_iff.mp here
    rw [ScanIterator.element, dereferenced, List.drop_eq_getElem_cons bound]
    rfl
  | true =>
    have none : it.reply = [] := by
      simp only [ScanIterator.isEnd, Bool.and_eq_true, List.isEmpty_iff] at going
      exact going.1.2
    rw [position.isEnd_iff.mp going, List.drop_length, ScanIterator.element,
      ScanIterator.dereference, none]
    cases asserts <;> rfl

end Position

/-- The values after the position are passed one by one. -/
theorem Position.advance (setting : Interruptible intConv server fetch matchPattern pageOf pages)
    (enough : pages.length ≤ fuel) (position : Position pages command matchPattern made begun)
    {more : Nat} (advances : Advances intConv server fetch asserts fuel begun more seen it) :
    Position pages command matchPattern (made + more) it ∧
      seen = ((pages.flatMap Page.values).drop (made + 1)).take more := by
  induction advances with
  | none => exact ⟨position, rfl⟩
  | @passed more seen it requests outcome _ going incremented returned ih =>
    obtain ⟨before, rfl⟩ := ih
    obtain ⟨reached, step, moves⟩ := setting.increments asserts enough before going requests
    obtain rfl := Option.some.inj (step.symm.trans incremented)
    obtain ⟨_, after⟩ := moves.resolve_right fun ⟨_, thrown, _⟩ => by simp [returned] at thrown
    rw [before.command, before.pattern] at after
    refine ⟨after, ?_⟩
    rw [after.element, List.take_add, List.drop_drop]
    congr 3
    omega
  | @failed more seen it requests outcome thrown _ going incremented threw ih =>
    obtain ⟨before, rfl⟩ := ih
    obtain ⟨reached, step, moves⟩ := setting.increments asserts enough before going requests
    obtain rfl := Option.some.inj (step.symm.trans incremented)
    obtain ⟨_, _, unchanged⟩ := moves.resolve_left fun ⟨ok, _⟩ => by simp [threw] at ok
    rw [unchanged]
    exact ⟨before, rfl⟩

theorem Begins.position (setting : Interruptible intConv server fetch matchPattern pageOf pages)
    (enough : pages.length ≤ fuel)
    (begins : Begins intConv server fetch asserts fuel command matchPattern begun) :
    Position pages command matchPattern 0 begun := by
  obtain ⟨requests, outcome, incremented, returned, rfl⟩ := begins
  obtain ⟨reached, step, moves⟩ := setting.begins asserts enough command requests
  obtain rfl := Option.some.inj (step.symm.trans incremented)
  obtain ⟨_, position⟩ := moves.resolve_right fun ⟨_, thrown, _⟩ => by simp [returned] at thrown
  exact position

end

/-- Whatever requests fail, the elements seen since the constructor are those of the pages in
order, all of them at the end, and none is missed or seen twice: before the end the next call
returns, and if it throws then the iterator is as it was. -/
theorem interrupted_scan_resumes {V : Type} {intConv : IntConv} {server : Server}
    {fetch : ValueFetch V} {matchPattern : String} {pageOf : Int → Page V} {pages : List (Page V)}
    (setting : Interruptible intConv server fetch matchPattern pageOf pages) {asserts : Bool}
    {fuel command made : Nat} (enough : pages.length ≤ fuel) {begun it : ScanIterator V}
    {seen : List V}
    (begins : Begins intConv server fetch asserts fuel command matchPattern begun)
    (advances : Advances intConv server fetch asserts fuel begun made seen it) :
    begun.element asserts ++ seen = (pages.flatMap Page.values).take (made + 1) ∧
      (it.isEnd = true → begun.element asserts ++ seen = pages.flatMap Page.values) ∧
      (it.isEnd = false → ∃ value, (pages.flatMap Page.values)[made]? = some value ∧
        it.dereference asserts = .ok value ∧ ∀ requests, ∃ outcome,
          increment intConv server fetch asserts fuel requests it = some outcome ∧
          ∀ thrown, outcome.result = .error thrown → outcome.iterator = it) := by
  have first := begins.position setting enough
  obtain ⟨position, passed⟩ := first.advance setting enough advances
  rw [Nat.zero_add] at position passed
  have visited : begun.element asserts ++ seen = (pages.flatMap Page.values).take (made + 1) := by
    rw [first.element, passed, List.drop_zero, Nat.add_comm made, List.take_add]
  refine ⟨visited, fun ended => ?_, fun going => ?_⟩
  · rw [visited, List.take_of_length_le]
    exact Nat.le_succ_of_le (Nat.le_of_eq (position.isEnd_iff.mp ended).symm)
  · obtain ⟨value, here, dereferenced⟩ := position.dereference going asserts
    refine ⟨value, here, dereferenced, fun requests => ?_⟩
    obtain ⟨outcome, incremented, moves⟩ := setting.increments asserts enough position going requests
    refine ⟨outcome, incremented, fun thrown threw => ?_⟩
    obtain ⟨_, _, unchanged⟩ := moves.resolve_left fun ⟨ok, _⟩ => by simp [threw] at ok
    exact unchanged

/-! A server with a page for every cursor that refuses some of the requests. -/

def pageServer {V : Type} (fetch : ValueFetch V) (pageOf : Int → Page V)
    (refused : List Request → Bool) : Server := fun requests =>
  if refused requests then some (.error "LOADING Redis is loading the dataset in memory")
  else do
    let request ← requests.getLast?
    let cursor ← request[fetch.scanTarget.toList.length + 1]?
    let number ← (decimal.parse cursor).toOption
    return (pageOf number).raw

theorem request_cursor {V : Type} (fetch : ValueFetch V) (matchPattern : String) (cursor : Int) :
    (request decimal fetch matchPattern cursor)[fetch.scanTarget.toList.length + 1]? =
      some (toString cursor) := by
  have first : (fetch.command :: fetch.scanTarget.toList ++ [toString cursor])[
      fetch.scanTarget.toList.length + 1]? = some (toString cursor) := by simp
  have bound := (List.getElem?_eq_some_iff.mp first).1
  simp only [request, arguments, decimal]
  split
  · rw [List.getElem?_append_left bound, first]
  · rw [List.getElem?_append_left bound, first]

theorem pageServer_flaky {V : Type} (fetch : ValueFetch V) (matchPattern : String)
    (pageOf : Int → Page V) (refused : List Request → Bool) :
    Flaky decimal (pageServer fetch pageOf refused) fetch matchPattern pageOf := by
  intro requests cursor inRange
  by_cases refuse : refused (requests ++ [request decimal fetch matchPattern cursor]) = true
  · rw [pageServer, if_pos refuse]
    exact .inr (commandRun_error _)
  · left
    simp only [pageServer, if_neg refuse, List.getLast?_concat, request_cursor,
      decimal_correct.parse cursor inRange, bind, Option.bind, Except.toOption]
    rfl

def personPage (cursor : Int) : Page (String × String) :=
  if cursor = 0 then pairs 17 true []
  else if cursor = 17 then pairs 5 false [("name", "Ada")]
  else if cursor = 5 then pairs 0 true [("born", "1815"), ("died", "1852")]
  else pairs 0 false []

abbrev personFetch : ValueFetch (String × String) :=
  scanPairs .rightFirst .hscan (getString true) (getString true) "person"

/-- The third request fails. -/
def loading : Server := pageServer personFetch personPage (·.length = 3)

theorem person_interruptible (refused : List Request → Bool) :
    Interruptible decimal (pageServer personFetch personPage refused) personFetch "" personPage
      [personPage 0, personPage 17, personPage 5] where
  correct := decimal_correct
  step := .inr rfl
  walk := .onward (by decide) (.onward (by decide) (.last rfl))
  page page member := by
    simp only [List.mem_cons, List.not_mem_nil, or_false] at member
    rcases member with rfl | rfl | rfl <;> exact pairs_wellFormed (by decide) _ _ _ _ _ _
  flaky := pageServer_flaky personFetch "" personPage refused

def ada : ScanIterator (String × String) :=
  { command := 0, matchPattern := "", reply := [("name", "Ada")], scanContext := 5 }

def born : ScanIterator (String × String) :=
  { command := 0, matchPattern := "", reply := [("born", "1815"), ("died", "1852")] }

/-- A call as it is evaluated. -/
theorem evaluated {V : Type} {call : Option (Outcome V)} {it : ScanIterator V} {isOk : Bool}
    (value : call.map (fun outcome => (outcome.iterator, outcome.result.isOk)) = some (it, isOk)) :
    ∃ outcome, call = some outcome ∧ outcome.iterator = it ∧ outcome.result.isOk = isOk := by
  obtain ⟨outcome, called, same⟩ := Option.map_eq_some_iff.mp value
  exact ⟨outcome, called, congrArg Prod.fst same, congrArg Prod.snd same⟩

theorem isOk_iff {result : Except Exception Unit} :
    (result.isOk = true ↔ result = .ok ()) ∧ (result.isOk = false ↔ ∃ thrown, result = .error thrown) := by
  cases result <;> simp [Except.isOk, Except.toBool]

theorem begins_ada : Begins decimal loading personFetch true 3 0 "" ada := by
  have first : (increment decimal loading personFetch true 3 []
      { command := 0, matchPattern := "", currIndex := 1 }).map
        (fun outcome => (outcome.iterator, outcome.result.isOk)) = some (ada, true) := by
    decide +kernel
  obtain ⟨outcome, called, same, ok⟩ := evaluated first
  exact ⟨[], outcome, called, isOk_iff.1.mp ok, same⟩

/-- The first call after the constructor meets the refused request, the second returns. -/
theorem advances_born :
    Advances decimal loading personFetch true 3 ada 1 [("born", "1815")] born := by
  have refused : (increment decimal loading personFetch true 3 [[], []] ada).map
      (fun outcome => (outcome.iterator, outcome.result.isOk)) = some (ada, false) := by
    decide +kernel
  have passed : (increment decimal loading personFetch true 3 [[], [], []] ada).map
      (fun outcome => (outcome.iterator, outcome.result.isOk)) = some (born, true) := by
    decide +kernel
  obtain ⟨failure, called, same, ok⟩ := evaluated refused
  obtain ⟨thrown, threw⟩ := isOk_iff.2.mp ok
  have unchanged := Advances.none.failed rfl called threw
  rw [same] at unchanged
  obtain ⟨success, called, same, ok⟩ := evaluated passed
  have onward := unchanged.passed rfl called (isOk_iff.1.mp ok)
  rw [same] at onward
  exact onward

theorem interrupted_scan_resumes_person :
    ada.element true ++ [("born", "1815")] = [("name", "Ada"), ("born", "1815")] ∧
      born.dereference true = .ok ("born", "1815") := by
  obtain ⟨visited, _, going⟩ := interrupted_scan_resumes (person_interruptible (·.length = 3))
    (Nat.le_refl 3) begins_ada advances_born
  obtain ⟨value, here, dereferenced, _⟩ := going rfl
  obtain rfl := Option.some.inj here
  exact ⟨visited, dereferenced⟩

end Incredis.Scan
