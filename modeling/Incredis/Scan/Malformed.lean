import Incredis.Scan.Call
import Incredis.Scan.Traversal
import Mathlib.Data.List.Forall2

/-! Replies of any shape, with asserts compiled out. Nothing but the conversion of its
elements stands between a page and the iterator, and by then the old page is gone. -/
namespace Incredis.Scan

section
variable {V : Type} (intConv : IntConv) (server : Server) (fetch : ValueFetch V)
  (it : ScanIterator V)

/-- The values made of the elements at some offsets. -/
def Makes (elements : List Reply) (zs : List Nat) (values : List V) : Prop :=
  List.Forall₂ (fun z value => fetch.makeValue (elements.drop z) = .ok value) zs values

/-- All values can be made of a page. If not then the values made before the first failure
have to be those that the iterator holds anyway. -/
def Convertible (elements : List Reply) : Prop :=
  (∃ values, Makes fetch elements (offsets fetch.step elements.length) values) ∨
    ∃ before z after thrown, offsets fetch.step elements.length = before ++ z :: after ∧
      Makes fetch elements before it.reply ∧ thrown ≠ .outOfRange ∧
      fetch.makeValue (elements.drop z) = .error thrown

/-- A reply to which nothing is missing that is read from it: an array of a cursor that
cannot be converted, or of a cursor and something that is no array or is a page. -/
def Benign : Reply → Prop
  | .array [] => False
  | .array (first :: rest) => ∀ newContext,
      getIntegerAutoconvIfStr false intConv.parse first = .ok newContext → match rest with
        | [] => False
        | .array elements :: _ => Convertible fetch it elements
        | _ => True
  | _ => True

/-- Nothing that is missing is read, and the iterator has the whole of a new page or is as
it was before the call. -/
structure Safe (requests : List Request) (outcome : Outcome V) : Prop where
  reads : outcome.result ≠ .error .outOfRange
  unchanged : ∀ thrown, outcome.result = .error thrown → outcome.iterator = it
  installed : outcome.result = .ok () → Fetches it → ∃ newContext elements values,
    readAnswer intConv server fetch false outcome.requests = .ok (newContext, elements) ∧
      Makes fetch elements (offsets fetch.step elements.length) values ∧
      outcome.iterator = { it with reply := values, scanContext := newContext, currIndex := 0 }
  stayed : ¬ Fetches it → outcome.result = .ok () ∧ outcome.requests = requests ∧
    (outcome.iterator = { it with currIndex := it.currIndex + 1 } ∨
      outcome.iterator = { it with reply := [], currIndex := 0 })

end

section
variable {V : Type} {intConv : IntConv} {server : Server} {fetch : ValueFetch V}
  {it : ScanIterator V}

theorem pushValues_cases (fetch : ValueFetch V) (elements : List Reply) (zs : List Nat)
    (reply : List V) :
    (∃ values, Makes fetch elements zs values ∧
      pushValues fetch elements zs reply = (reply ++ values, .ok ())) ∨
    ∃ before z after values thrown, zs = before ++ z :: after ∧ Makes fetch elements before values ∧
      fetch.makeValue (elements.drop z) = .error thrown ∧
      pushValues fetch elements zs reply = (reply ++ values, .error thrown) := by
  induction zs generalizing reply with
  | nil => exact .inl ⟨[], .nil, by rw [pushValues, List.append_nil]⟩
  | cons z rest ih =>
    cases made : fetch.makeValue (elements.drop z) with
    | error thrown =>
      refine .inr ⟨[], z, rest, [], thrown, rfl, .nil, made, ?_⟩
      simp only [pushValues, made, List.append_nil]
    | ok value =>
      simp only [pushValues, made]
      rcases ih (reply ++ [value]) with ⟨values, makes, pushed⟩ |
        ⟨before, failing, after, values, thrown, rfl, makes, failed, pushed⟩
      · exact .inl ⟨value :: values, .cons made makes, by simp [pushed]⟩
      · exact .inr ⟨z :: before, failing, after, value :: values, thrown, rfl, .cons made makes,
          failed, by simp [pushed]⟩

theorem Makes.unique {elements : List Reply} {zs : List Nat} {values others : List V}
    (makes : Makes fetch elements zs values) (again : Makes fetch elements zs others) :
    values = others := by
  induction makes generalizing others with
  | nil =>
    cases again
    rfl
  | cons made _ ih =>
    cases again with
    | cons same rest =>
      obtain rfl := Except.ok.inj (made.symm.trans same)
      rw [ih rest]

/-- Two failures at the head of what is left come after the same values. -/
theorem Makes.stop_unique {elements : List Reply} {before before' after after' : List Nat}
    {z z' : Nat} {values values' : List V} {thrown thrown' : Exception}
    (makes : Makes fetch elements before values)
    (failed : fetch.makeValue (elements.drop z) = .error thrown)
    (makes' : Makes fetch elements before' values')
    (failed' : fetch.makeValue (elements.drop z') = .error thrown')
    (same : before ++ z :: after = before' ++ z' :: after') :
    values = values' ∧ thrown = thrown' := by
  induction makes generalizing before' values' with
  | nil =>
    cases makes' with
    | nil =>
      obtain ⟨rfl, _⟩ := List.cons.inj same
      exact ⟨rfl, Except.error.inj (failed.symm.trans failed')⟩
    | cons made _ =>
      obtain ⟨rfl, _⟩ := List.cons.inj same
      rw [failed] at made
      contradiction
  | cons made _ ih =>
    cases makes' with
    | nil =>
      obtain ⟨rfl, _⟩ := List.cons.inj same
      rw [failed'] at made
      contradiction
    | cons made' rest =>
      obtain ⟨rfl, later⟩ := List.cons.inj same
      obtain rfl := Except.ok.inj (made.symm.trans made')
      obtain ⟨rfl, sameThrown⟩ := ih rest later
      exact ⟨rfl, sameThrown⟩

/-- No failure is among the offsets that values are made of. -/
theorem Makes.not_failed {elements : List Reply} {before after : List Nat} {z : Nat}
    {values : List V} {thrown : Exception}
    (makes : Makes fetch elements (before ++ z :: after) values) :
    fetch.makeValue (elements.drop z) ≠ .error thrown := by
  intro failed
  induction before generalizing values with
  | nil =>
    cases makes with
    | cons made _ =>
      rw [failed] at made
      contradiction
  | cons head rest ih =>
    cases makes with
    | cons _ later => exact ih later

/-- The page is converted as a whole, or the call ends with what had been converted. -/
theorem installPage_cases (it : ScanIterator V) (newContext : Int) (elements : List Reply) :
    (∃ values, Makes fetch elements (offsets fetch.step elements.length) values ∧
      installPage fetch false it newContext elements =
        ({ it with reply := values, scanContext := newContext, currIndex := 0 }, .ok ())) ∨
    ∃ before z after values thrown,
      offsets fetch.step elements.length = before ++ z :: after ∧
      Makes fetch elements before values ∧ fetch.makeValue (elements.drop z) = .error thrown ∧
      installPage fetch false it newContext elements = ({ it with reply := values }, .error thrown) := by
  rcases pushValues_cases fetch elements (offsets fetch.step elements.length) [] with
    ⟨values, makes, pushed⟩ | ⟨before, z, after, values, thrown, split, makes, failed, pushed⟩
  · refine .inl ⟨values, makes, ?_⟩
    simp only [installPage, cassert_off, pushed, List.nil_append, bind, Except.bind]
  · refine .inr ⟨before, z, after, values, thrown, split, makes, failed, ?_⟩
    simp only [installPage, cassert_off, pushed, List.nil_append, bind, Except.bind]

/-- The end of a call that has fetched a page. -/
theorem safe_installPage {requests made : List Request} {newContext : Int} {elements : List Reply}
    (fetches : Fetches it)
    (read : readAnswer intConv server fetch false made = .ok (newContext, elements)) :
    Safe intConv server fetch it requests
        ⟨made, (installPage fetch false it newContext elements).1,
          (installPage fetch false it newContext elements).2⟩ ↔ Convertible fetch it elements := by
  rcases installPage_cases it newContext elements with
    ⟨values, makes, installed⟩ | ⟨before, z, after, values, thrown, split, makes, failed, installed⟩
  · rw [installed]
    refine ⟨fun _ => .inl ⟨values, makes⟩, fun _ => ⟨by simp, by simp, fun _ _ => ?_, ?_⟩⟩
    · exact ⟨newContext, elements, values, read, makes, rfl⟩
    · exact fun stays => absurd fetches stays
  · rw [installed]
    constructor
    · intro safe
      refine .inr ⟨before, z, after, thrown, split, ?_, fun missing => safe.reads (by rw [missing]), failed⟩
      have held : values = it.reply := congrArg ScanIterator.reply (safe.unchanged thrown rfl)
      rwa [← held]
    · rintro (⟨all, complete⟩ | ⟨before', z', after', thrown', split', makes', present, failed'⟩)
      · rw [split] at complete
        exact absurd failed complete.not_failed
      · obtain ⟨rfl, rfl⟩ := makes.stop_unique failed makes' failed' (split.symm.trans split')
        exact ⟨fun missing => present (Except.error.inj missing), fun _ _ => rfl, by simp,
          fun stays => absurd fetches stays⟩

/-- The end of a call that reads something else than a page. -/
theorem safe_error {requests made : List Request} {thrown : Exception} (fetches : Fetches it) :
    Safe intConv server fetch it requests ⟨made, it, .error thrown⟩ ↔ thrown ≠ .outOfRange := by
  constructor
  · intro safe missing
    exact safe.reads (by rw [missing])
  · intro present
    exact ⟨fun missing => present (Except.error.inj missing), fun _ _ => rfl, by simp,
      fun stays => absurd fetches stays⟩

/-- What is read of a reply, with asserts compiled out. -/
theorem readPage_array (first : Reply) (rest : List Reply) :
    readPage intConv fetch false (.array (first :: rest)) =
      match getIntegerAutoconvIfStr false intConv.parse first with
      | .error thrown => .error thrown
      | .ok newContext => match rest with
        | [] => .error .outOfRange
        | .array elements :: _ => .ok (newContext, elements)
        | _ => .error .badGet := by
  simp only [readPage, getArray, cassert_off, readAt, List.getElem?_cons_zero, bind, Except.bind]
  cases getIntegerAutoconvIfStr false intConv.parse first with
  | error thrown => rfl
  | ok newContext =>
    cases rest with
    | nil => rfl
    | cons second => cases second <;> rfl

/-- A reply is benign by what is read of it. -/
theorem benign_iff (parse : ∀ text, intConv.parse text ≠ .error .outOfRange) (reply : Reply) :
    Benign intConv fetch it reply ↔ match readPage intConv fetch false reply with
      | .error thrown => thrown ≠ .outOfRange
      | .ok page => Convertible fetch it page.2 := by
  have bad : Exception.badGet ≠ .outOfRange := by decide
  match reply with
  | .integer _ | .string _ | .error _ | .status _ | .nil => exact ⟨fun _ => bad, fun _ => trivial⟩
  | .array [] => exact ⟨False.elim, fun present => present rfl⟩
  | .array (first :: rest) =>
    rw [readPage_array]
    simp only [Benign]
    cases read : getIntegerAutoconvIfStr false intConv.parse first with
    | error thrown =>
      refine ⟨fun _ missing => ?_, fun _ newContext ok => by contradiction⟩
      subst missing
      cases first with
      | string text => exact parse text read
      | _ => contradiction
    | ok newContext =>
      match rest with
      | [] => exact ⟨fun benign => (benign newContext rfl).elim, fun present => absurd rfl present⟩
      | .array elements :: _ => exact ⟨fun benign => benign newContext rfl, fun page _ _ => page⟩
      | .integer _ :: _ | .string _ :: _ | .error _ :: _ | .status _ :: _ | .nil :: _ =>
        exact ⟨fun _ => bad, fun _ _ _ => trivial⟩

/-- There is nothing to convert on an empty page. -/
theorem convertible_nil : Convertible fetch it [] := by
  have none : offsets fetch.step 0 = [] := by
    have positive := fetch.step_pos
    rw [offsets, Nat.div_eq_of_lt (by omega)]
    rfl
  refine .inl ⟨[], ?_⟩
  rw [List.length_nil, none]
  exact .nil

theorem Safe.of_stays {requests : List Request} {outcome : Outcome V} {fuel : Nat} (stays : ¬ Fetches it)
    (called : increment intConv server fetch false fuel requests it = some outcome) :
    Safe intConv server fetch it requests outcome := by
  rcases increment_cases (cassert_off _) called with ⟨_, rfl⟩ | ⟨_, _, rfl⟩ | ⟨fetches, _⟩
  · exact ⟨by simp, by simp, fun _ fetches => absurd fetches stays, fun _ => ⟨rfl, rfl, .inl rfl⟩⟩
  · exact ⟨by simp, by simp, fun _ fetches => absurd fetches stays, fun _ => ⟨rfl, rfl, .inr rfl⟩⟩
  · exact absurd fetches stays

/-- The end of a call by the answer to the last of its requests. -/
theorem safe_ending (parse : ∀ text, intConv.parse text ≠ .error .outOfRange)
    {requests made : List Request} (fetches : Fetches it) :
    Safe intConv server fetch it requests
        (ending fetch false it made (readAnswer intConv server fetch false made)) ↔
      ∀ reply, commandRun (server made) = .ok reply → Benign intConv fetch it reply := by
  cases answer : commandRun (server made) with
  | error thrown =>
    obtain ⟨what, rfl⟩ := commandRun_thrown answer
    have threw : readAnswer intConv server fetch false made = .error (.runtimeError what) := by
      rw [readAnswer, answer]
      rfl
    rw [threw]
    exact ⟨fun _ _ impossible => by contradiction, fun _ => (safe_error fetches).mpr (by simp)⟩
  | ok reply =>
    have read : readAnswer intConv server fetch false made = readPage intConv fetch false reply := by
      rw [readAnswer, answer]
      rfl
    have single : (∀ other, (.ok reply : Except Exception Reply) = .ok other →
        Benign intConv fetch it other) ↔ Benign intConv fetch it reply :=
      ⟨fun all => all reply rfl, fun last other same => Except.ok.inj same ▸ last⟩
    rw [single, benign_iff parse]
    cases fetched : readPage intConv fetch false reply with
    | error thrown =>
      rw [read, fetched]
      exact safe_error fetches
    | ok page =>
      rw [read, fetched]
      exact safe_installPage fetches (read.trans fetched)

/-- The replies before the last are empty pages. -/
theorem benign_continues (parse : ∀ text, intConv.parse text ≠ .error .outOfRange)
    {asked : List Request} {reply : Reply} (continues : Continues intConv server fetch false asked)
    (answer : commandRun (server asked) = .ok reply) : Benign intConv fetch it reply := by
  obtain ⟨newContext, _, read⟩ := continues
  rw [readAnswer, answer] at read
  have page : readPage intConv fetch false reply = .ok (newContext, []) := read
  rw [benign_iff parse, page]
  exact convertible_nil

end

/-- A call returns or throws, reads nothing that is missing and installs a whole page or changes
nothing, if and only if it needs no page, or the server does not answer with empty pages and
other cursors for ever and none of its replies does harm. -/
theorem scan_safe_iff {V : Type} {intConv : IntConv} {server : Server} {fetch : ValueFetch V}
    (parse : ∀ text, intConv.parse text ≠ .error .outOfRange) {it : ScanIterator V}
    {requests : List Request} :
    (∃ outcome, Returns intConv server fetch false requests it outcome ∧
      Safe intConv server fetch it requests outcome) ↔
    (Fetches it →
      (∃ asked, Asked intConv server fetch false it.matchPattern it.scanContext requests asked ∧
        ¬ Continues intConv server fetch false asked) ∧
      ∀ asked reply, Asked intConv server fetch false it.matchPattern it.scanContext requests asked →
        commandRun (server asked) = .ok reply → Benign intConv fetch it reply) := by
  constructor
  · rintro ⟨outcome, ⟨enough, called⟩, safe⟩ fetches
    rcases increment_cases (cassert_off _) (called enough (Nat.le_refl enough)) with
      ⟨inside, _⟩ | ⟨last, zero, _⟩ | ⟨_, made, fetched, asked, final, rfl, only, rfl⟩
    · exact absurd inside fetches.1
    · exact absurd ⟨last, zero⟩ fetches.2
    refine ⟨⟨made, asked, final⟩, fun other reply asks answer => ?_⟩
    rcases only other asks with rfl | continues
    · exact (safe_ending parse fetches).mp safe reply answer
    · exact benign_continues parse continues answer
  · intro harmless
    obtain ⟨outcome, enough, called⟩ := increment_returns fun fetches => (harmless fetches).1
    refine ⟨outcome, ⟨enough, called⟩, ?_⟩
    have last := called enough (Nat.le_refl enough)
    by_cases fetches : Fetches it
    · rcases increment_cases (cassert_off _) last with
        ⟨inside, _⟩ | ⟨last, zero, _⟩ | ⟨_, made, fetched, asked, _, rfl, _, rfl⟩
      · exact absurd inside fetches.1
      · exact absurd ⟨last, zero⟩ fetches.2
      · exact (safe_ending parse fetches).mpr fun reply => (harmless fetches).2 made reply asked
    · exact .of_stays fetches last

/-! What the conversion of a page asks of its elements. -/

theorem makes_iff {V : Type} {fetch : ValueFetch V} {elements : List Reply} {zs : List Nat} :
    (∃ values, Makes fetch elements zs values) ↔
      ∀ z ∈ zs, ∃ value, fetch.makeValue (elements.drop z) = .ok value := by
  induction zs with
  | nil => exact ⟨fun _ z member => absurd member List.not_mem_nil, fun _ => ⟨[], .nil⟩⟩
  | cons z rest ih =>
    rw [List.forall_mem_cons, ← ih]
    constructor
    · rintro ⟨values, makes⟩
      cases makes with
      | cons made later => exact ⟨⟨_, made⟩, _, later⟩
    · rintro ⟨⟨value, made⟩, values, later⟩
      exact ⟨value :: values, .cons made later⟩

theorem singles_makes_iff (get : Reply → Except Exception T) (elements : List Reply) :
    (∃ values, Makes (scanSingleValues get) elements (offsets 1 elements.length) values) ↔
      ∀ element ∈ elements, ∃ value, get element = .ok value := by
  rw [makes_iff]
  have made {z : Nat} (bound : z < elements.length) :
      (scanSingleValues get).makeValue (elements.drop z) = get elements[z] := by
    rw [List.drop_eq_getElem_cons bound]
    rfl
  have all (z : Nat) : z ∈ offsets 1 elements.length ↔ z < elements.length := by
    simp [offsets, List.mem_range']
  constructor
  · intro each element member
    obtain ⟨z, bound, rfl⟩ := List.getElem_of_mem member
    rw [← made bound]
    exact each z ((all z).mpr bound)
  · intro each z member
    have bound := (all z).mp member
    rw [made bound]
    exact each _ (List.getElem_mem bound)

/-- From a page of an odd size no pairs are made: the last one lacks its second half. -/
theorem pairs_makes_even {A B : Type} {order : ArgumentOrder} {command : PairCommand}
    {getA : Reply → Except Exception A} {getB : Reply → Except Exception B} {scanTarget : String}
    {elements : List Reply} {values : List (A × B)}
    (makes : Makes (scanPairs order command getA getB scanTarget) elements
      (offsets 2 elements.length) values) : elements.length % 2 = 0 := by
  refine Classical.byContradiction fun odd => ?_
  obtain ⟨k, size⟩ : ∃ k, elements.length = 2 * k + 1 := ⟨elements.length / 2, by omega⟩
  have last : 2 * k ∈ offsets 2 elements.length := by
    rw [offsets, List.mem_range', size]
    exact ⟨k, by omega, by omega⟩
  obtain ⟨value, made⟩ := makes_iff.mp ⟨values, makes⟩ _ last
  have alone : elements.drop (2 * k) = [elements[2 * k]] := by
    rw [List.drop_eq_getElem_cons (by omega), List.drop_of_length_le (by omega)]
  rw [alone] at made
  cases order with
  | leftFirst =>
    cases first : getA elements[2 * k] <;>
      simp [scanPairs, readAt, bind, Except.bind, first] at made
  | rightFirst => simp [scanPairs, readAt, bind, Except.bind] at made

/-! Replies of one shape, whatever is asked. -/

def answering (reply : RedisReply) : Server := fun _ => some reply

def onLast {V : Type} (value : V) : ScanIterator V :=
  { command := 0, matchPattern := "", reply := [value], scanContext := 5 }

theorem decimal_parse (text : String) : decimal.parse text ≠ .error .outOfRange := by
  simp only [decimal]
  split <;> simp

/-- The accessor for strings, with its assertions compiled out. -/
abbrev single : ValueFetch String := scanSingleValues (getString false)

abbrev pairOf (order : ArgumentOrder) : ValueFetch (String × String) :=
  scanPairs order .hscan (getString false) (getString false) "person"

/-- The page is a string, and the call throws without a trace. -/
theorem scan_safe_iff_noArray : ∃ outcome,
    Returns decimal (answering (.array [.string "7", .string "oops"])) single false [] (onLast "x")
        outcome ∧
      Safe decimal (answering (.array [.string "7", .string "oops"])) single (onLast "x") [] outcome := by
  have stops : ¬ Continues decimal (answering (.array [.string "7", .string "oops"])) single false
      [request decimal single "" 5] := by
    have threw : readAnswer decimal (answering (.array [.string "7", .string "oops"])) single false
        [request decimal single "" 5] = .error .badGet := rfl
    exact not_continues threw
  refine (scan_safe_iff decimal_parse).mpr fun _ => ⟨⟨_, .first, stops⟩, fun _ reply _ answer => ?_⟩
  obtain rfl : Reply.array [.string "7", .string "oops"] = reply := Except.ok.inj answer
  exact fun _ _ => trivial

/-- An element of the wrong type loses the page before it, an odd page of pairs and arrays that
are too short are read past their ends, and empty pages without an end are asked for for ever. -/
theorem malformed_page_harms :
    (∃ outcome, increment decimal (answering (.array [.string "0", .array [.string "a", .integer 3]]))
        single false 1 [] (onLast "x") = some outcome ∧
      outcome.result = .error .badGet ∧ outcome.iterator.reply = ["a"]) ∧
    (∀ order, ∃ outcome, increment decimal (answering (.array [.string "0", .array [.string "name"]]))
        (pairOf order) false 1 [] (onLast ("x", "y")) = some outcome ∧
      outcome.result = .error .outOfRange) ∧
    (∃ outcome, increment decimal (answering (.array [.string "0"])) single false 1 []
        (onLast "x") = some outcome ∧ outcome.result = .error .outOfRange) ∧
    (∃ outcome, increment decimal (answering (.array [])) single false 1 [] (onLast "x") =
        some outcome ∧ outcome.result = .error .outOfRange) ∧
    ∀ outcome, ¬ Returns decimal (answering (.array [.string "5", .array []])) single false []
        (onLast "x") outcome := by
  refine ⟨⟨_, rfl, rfl, rfl⟩, ?_, ⟨_, rfl, rfl⟩, ⟨_, rfl, rfl⟩, ?_⟩
  · intro order
    cases order <;> exact ⟨_, rfl, rfl⟩
  · rintro outcome ⟨enough, called⟩
    rcases increment_cases (cassert_off _) (called enough (Nat.le_refl enough)) with
      ⟨inside, _⟩ | ⟨_, zero, _⟩ | ⟨_, made, _, _, stops, _⟩
    · exact absurd inside (by decide)
    · exact absurd zero (by decide)
    · exact stops ⟨5, by decide, rfl⟩

-- of a pair with a bad first half and no second half, one order reads the missing half
example (order : ArgumentOrder) : (pairOf order).makeValue [.integer 3] =
    .error (if order = .leftFirst then .badGet else .outOfRange) := by
  cases order <;> rfl

end Incredis.Scan
