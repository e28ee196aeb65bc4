import Incredis.Scan.Call
import Incredis.Scan.Traversal
import Mathlib.Algebra.Ring.Nat

/-! Cursors are unsigned for the server and `RedisInt` for the library. Along a run every
request is made with the cursor that the answer before it was read as. -/
namespace Incredis.Scan

/-- Any unsigned number is reduced modulo `2 ^ 64` into `RedisInt`. -/
structure IntConv.Wraps (intConv : IntConv) : Prop where
  correct : intConv.Correct
  wraps : ∀ n < 2 ^ 64, intConv.parse (toString n) = .ok (Int.bmod (n : Nat) (2 ^ 64))

section
variable {V : Type} (intConv : IntConv) (server : Server) (fetch : ValueFetch V) (asserts : Bool)
  (fuel command : Nat) (matchPattern : String)

/-- The last of the requests is answered with a page that carries the text of a number. -/
def Carries (n : Nat) (requests : List Request) : Prop :=
  ∃ page : Page V, page.WellFormed fetch ∧
    server requests = some (.array [.string (toString n), .array page.elements])

/-- It is answered with a page, and this is what the cursor is read as. -/
def Accepted (requests : List Request) (context : Int) : Prop :=
  ∃ page : Page V, page.WellFormed fetch ∧
    readAnswer intConv server fetch asserts requests = .ok (context, page.variantArray)

/-- After a page the request goes on with its cursor, which is not final. -/
def Chains (requests : List Request) : Prop :=
  ∀ before answered following after, requests = before ++ answered :: following :: after →
    ∀ context, Accepted intConv server fetch asserts (before ++ [answered]) context →
      following = request intConv fetch matchPattern context ∧ context ≠ 0

/-- The constructor and any number of calls before the end, whether they return or throw; the
first argument tells if there is an object. -/
inductive Scanned : Bool → Outcome V → Prop
  | begun {outcome} : increment intConv server fetch asserts fuel []
      { command, matchPattern, currIndex := 1 } = some outcome →
      Scanned outcome.result.isOk outcome
  | called {outcome following} : Scanned true outcome → outcome.iterator.isEnd = false →
      increment intConv server fetch asserts fuel outcome.requests outcome.iterator =
        some following → Scanned true following

/-- What holds of the requests and the object all along. -/
structure Follows (constructed : Bool) (outcome : Outcome V) : Prop where
  pattern : outcome.iterator.matchPattern = matchPattern
  started : outcome.requests ≠ []
  chains : Chains intConv server fetch asserts matchPattern outcome.requests
  last : constructed = true → ∀ context,
    Accepted intConv server fetch asserts outcome.requests context →
      outcome.iterator.scanContext = context
  place : constructed = true → outcome.iterator.scanContext = 0 →
    outcome.iterator.isEnd = true ∨ outcome.iterator.currIndex < outcome.iterator.reply.length

end

section
variable {V : Type} {intConv : IntConv} {server : Server} {fetch : ValueFetch V} {asserts : Bool}
  {fuel command : Nat} {matchPattern : String} {context : Int} {requests asked : List Request}

theorem Carries.accepted (wraps : intConv.Wraps) (step : fetch.step = 1 ∨ fetch.step = 2) {n : Nat}
    (unsigned : n < 2 ^ 64) (carries : Carries server fetch n requests) :
    Accepted intConv server fetch asserts requests (Int.bmod n (2 ^ 64)) := by
  obtain ⟨page, formed, answer⟩ := carries
  refine ⟨page, formed, ?_⟩
  have raw : server requests = some (Page.mk n true page.elements page.values).raw := answer
  rw [readAnswer, raw]
  exact Page.read _ asserts formed.clean (wraps.wraps n unsigned)
    (by rcases step with one | two <;> simp [*])

namespace Accepted

theorem unique {other : Int} (accepted : Accepted intConv server fetch asserts requests context)
    {elements : List Reply}
    (read : readAnswer intConv server fetch asserts requests = .ok (other, elements)) :
    context = other := by
  obtain ⟨_, _, page⟩ := accepted
  exact (Prod.mk.inj (Except.ok.inj (page.symm.trans read))).1

theorem not_error {thrown : Exception}
    (accepted : Accepted intConv server fetch asserts requests context) :
    readAnswer intConv server fetch asserts requests ≠ .error thrown := by
  obtain ⟨_, _, page⟩ := accepted
  rw [page]
  exact fun same => by contradiction

end Accepted

namespace Chains

theorem snoc {following : Request}
    (chains : Chains intConv server fetch asserts matchPattern requests)
    (next : requests ≠ [] → ∀ context, Accepted intConv server fetch asserts requests context →
      following = request intConv fetch matchPattern context ∧ context ≠ 0) :
    Chains intConv server fetch asserts matchPattern (requests ++ [following]) := by
  intro before answered other after split context accepted
  rcases List.eq_nil_or_concat after with rfl | ⟨front, last, rfl⟩
  · have regroup : before ++ [answered, other] = (before ++ [answered]) ++ [other] := by simp
    rw [regroup] at split
    obtain ⟨rfl, same⟩ := List.append_inj' split rfl
    obtain rfl := List.singleton_inj.mp same
    exact next (by simp) context accepted
  · have regroup : before ++ answered :: other :: front.concat last =
        (before ++ answered :: other :: front) ++ [last] := by simp
    rw [regroup] at split
    obtain ⟨rfl, _⟩ := List.append_inj' split rfl
    exact chains before answered other front rfl context accepted

/-- The requests of one loop, when its first has the cursor of the answer before. -/
theorem of_asked (asks : Asked intConv server fetch asserts matchPattern context requests asked)
    (chains : Chains intConv server fetch asserts matchPattern requests)
    (next : requests ≠ [] → ∀ other, Accepted intConv server fetch asserts requests other →
      other = context ∧ other ≠ 0) :
    Chains intConv server fetch asserts matchPattern asked := by
  induction asks with
  | first =>
    refine chains.snoc fun started other accepted => ?_
    obtain ⟨rfl, more⟩ := next started other accepted
    exact ⟨rfl, more⟩
  | @next context requests newContext asked other read _ ih =>
    refine ih (chains.snoc fun started cursor accepted => ?_) fun _ cursor accepted => ?_
    · obtain ⟨rfl, more⟩ := next started cursor accepted
      exact ⟨rfl, more⟩
    · obtain rfl := accepted.unique read
      exact ⟨rfl, other⟩

end Chains

theorem Asked.ne_nil (asks : Asked intConv server fetch asserts matchPattern context requests asked) :
    asked ≠ [] := by
  induction asks with
  | first => simp
  | next _ _ _ ih => exact ih

/-- A page takes its place with the new cursor, or the cursor is kept with what there is of it. -/
theorem installPage_cursor (fetch : ValueFetch V) (asserts : Bool) (it : ScanIterator V)
    (newContext : Int) (elements : List Reply) :
    (∃ reply, installPage fetch asserts it newContext elements =
        ({ it with reply, scanContext := newContext, currIndex := 0 }, .ok ())) ∨
      ∃ reply thrown, installPage fetch asserts it newContext elements =
        ({ it with reply }, .error thrown) := by
  cases whole : cassert asserts (elements.length % fetch.step = 0) with
  | error failed => exact .inr ⟨it.reply, failed, by simp only [installPage, whole]⟩
  | ok =>
    cases pushed : pushValues fetch elements (offsets fetch.step elements.length) [] with
    | mk reply result =>
      cases checked : result >>= fun _ =>
          cassert asserts (elements.length / fetch.step = reply.length) with
      | error thrown =>
        exact .inr ⟨reply, thrown, by simp only [installPage, whole, pushed, checked]⟩
      | ok => exact .inl ⟨reply, by simp only [installPage, whole, pushed, checked]⟩

namespace Follows
variable {it : ScanIterator V} {outcome following : Outcome V} {made : List Request}
  {fetched : Except Exception (Int × List Reply)} {constructed : Bool}

/-- A call that fetches, of an object that has a cursor unless it is under construction. -/
theorem of_fetch (chains : Chains intConv server fetch asserts it.matchPattern requests)
    (next : requests ≠ [] → ∀ other, Accepted intConv server fetch asserts requests other →
      other = it.scanContext ∧ other ≠ 0)
    (asks : Asked intConv server fetch asserts it.matchPattern it.scanContext requests made)
    (read : readAnswer intConv server fetch asserts made = fetched)
    (alive : constructed = true → outcome.result = .ok () ∨ it.scanContext ≠ 0)
    (ended : outcome = ending fetch asserts it made fetched) :
    Follows intConv server fetch asserts it.matchPattern constructed outcome := by
  have linked := Chains.of_asked asks chains next
  cases fetched with
  | error thrown =>
    subst ended
    refine ⟨rfl, asks.ne_nil, linked, fun _ context accepted => absurd read accepted.not_error,
      fun exists_ zero => ?_⟩
    rcases alive exists_ with returned | other
    · contradiction
    · exact absurd zero other
  | ok page =>
    obtain ⟨newContext, elements⟩ := page
    have installed := installPage_cursor fetch asserts it newContext elements
    rw [ending] at ended
    refine ⟨?_, ?_, ?_, fun _ context accepted => ?_, fun exists_ zero => ?_⟩
    · rcases installed with ⟨reply, whole⟩ | ⟨reply, thrown, threw⟩
      · rw [ended, whole]
      · rw [ended, threw]
    · rw [ended]
      exact asks.ne_nil
    · rw [ended]
      exact linked
    · rw [ended] at accepted ⊢
      obtain rfl := accepted.unique read
      obtain ⟨page, formed, again⟩ := accepted
      obtain ⟨_, rfl⟩ := Prod.mk.inj (Except.ok.inj (read.symm.trans again))
      rw [formed.install]
    · rcases installed with ⟨reply, whole⟩ | ⟨reply, thrown, threw⟩
      · rw [ended, whole] at zero ⊢
        simp only at zero ⊢
        cases reply with
        | nil => exact .inl (by simp [ScanIterator.isEnd, zero])
        | cons => exact .inr (by simp)
      · rw [ended, threw] at zero
        rcases alive exists_ with returned | other
        · rw [ended, threw] at returned
          contradiction
        · exact absurd zero other

theorem begun (called : increment intConv server fetch asserts fuel []
      { command, matchPattern, currIndex := 1 } = some outcome) :
    Follows intConv server fetch asserts matchPattern outcome.result.isOk outcome := by
  rcases increment_cases (cassert_of rfl) called with
    ⟨inside, _⟩ | ⟨last, _⟩ | ⟨_, made, fetched, asks, _, read, _, ended⟩
  · simp at inside
  · simp at last
  · have none : Chains intConv server fetch asserts matchPattern [] := by
      intro before answered following after split
      simp at split
    refine Follows.of_fetch none (fun started => absurd rfl started) asks read (fun returned => .inl ?_) ended
    cases result : outcome.result with
    | ok => rfl
    | error => simp [result, Except.isOk, Except.toBool] at returned

/-- One more call before the end. -/
theorem called (follows : Follows intConv server fetch asserts matchPattern true outcome)
    (going : outcome.iterator.isEnd = false)
    (call : increment intConv server fetch asserts fuel outcome.requests outcome.iterator =
      some following) :
    Follows intConv server fetch asserts matchPattern true following := by
  obtain ⟨rfl, started, chains, last, place⟩ := follows
  rcases increment_cases (cassert_of going) call with
    ⟨inside, rfl⟩ | ⟨_, zero, rfl⟩ | ⟨fetches, made, fetched, asks, _, read, _, ended⟩
  · exact ⟨rfl, started, chains, last, fun _ _ => .inr inside⟩
  · refine ⟨rfl, started, chains, last, fun _ _ => .inl ?_⟩
    simp [ScanIterator.isEnd, zero]
  · have other : outcome.iterator.scanContext ≠ 0 := by
      intro zero
      rcases place rfl zero with final | inside
      · simp [going] at final
      · exact fetches.2 ⟨by have := fetches.1; omega, zero⟩
    exact Follows.of_fetch chains
      (fun _ context accepted => by rw [← last rfl context accepted]; exact ⟨rfl, other⟩)
      asks read (fun _ => .inr other) ended

end Follows

theorem Scanned.follows {constructed : Bool} {outcome : Outcome V}
    (run : Scanned intConv server fetch asserts fuel command matchPattern constructed outcome) :
    Follows intConv server fetch asserts matchPattern constructed outcome := by
  induction run with
  | begun call => exact .begun call
  | called _ going call ih => exact ih.called going call

end

section
variable {n : Nat}

/-- The upper half of the unsigned numbers becomes negative. -/
theorem bmod_cases (unsigned : n < 2 ^ 64) :
    n < 2 ^ 63 ∧ Int.bmod n (2 ^ 64) = n ∨ ¬ n < 2 ^ 63 ∧ Int.bmod n (2 ^ 64) = n - 2 ^ 64 := by
  have whole : (n : Int) % (2 ^ 64 : Nat) = n := by omega
  by_cases half : n < 2 ^ 63
  · exact .inl ⟨half, by rw [Int.bmod_eq_emod_of_lt (by omega), whole]⟩
  · exact .inr ⟨half, by rw [Int.bmod_neg _ _ (by omega), whole]; rfl⟩

theorem bmod_eq_zero_iff (unsigned : n < 2 ^ 64) : Int.bmod n (2 ^ 64) = 0 ↔ n = 0 := by
  rcases bmod_cases unsigned with ⟨_, same⟩ | ⟨_, wrapped⟩ <;> omega

theorem bmod_eq_self_iff (unsigned : n < 2 ^ 64) : Int.bmod n (2 ^ 64) = n ↔ n < 2 ^ 63 := by
  rcases bmod_cases unsigned with ⟨_, same⟩ | ⟨_, wrapped⟩ <;> omega

theorem bmod_inRedisInt (unsigned : n < 2 ^ 64) : InRedisInt (Int.bmod n (2 ^ 64)) := by
  simp only [InRedisInt]
  rcases bmod_cases unsigned with ⟨_, same⟩ | ⟨_, wrapped⟩ <;> omega

end

theorem arguments_inj {V : Type} {fetch : ValueFetch V} {matchPattern countHint first second : String}
    (same : arguments fetch matchPattern countHint first =
      arguments fetch matchPattern countHint second) : first = second := by
  simp only [arguments] at same
  split at same
  · simpa using List.append_cancel_right same
  · simpa using List.append_cancel_right same

/-- The request with the cursor that a text was read as has the same text again, if the number is
in the lower half. -/
theorem request_bmod_iff {V : Type} {intConv : IntConv} (correct : intConv.Correct)
    (fetch : ValueFetch V) (matchPattern : String) {n : Nat} (unsigned : n < 2 ^ 64) :
    request intConv fetch matchPattern (Int.bmod n (2 ^ 64)) =
      arguments fetch matchPattern (intConv.print fetch.workCount) (toString n) ↔ n < 2 ^ 63 := by
  rw [request, correct.print _ (bmod_inRedisInt unsigned), ← bmod_eq_self_iff unsigned]
  constructor
  · intro same
    exact toString_inj (arguments_inj same)
  · intro same
    rw [same]
    rfl

/-- A number that a page carries as its cursor ends the scan if and only if it is 0. The next
request has the same text if and only if the number is below `2 ^ 63`. -/
theorem cursor_survives_iff {V : Type} {intConv : IntConv} {server : Server} {fetch : ValueFetch V}
    {asserts : Bool} {fuel command : Nat} {matchPattern : String} (wraps : intConv.Wraps)
    (step : fetch.step = 1 ∨ fetch.step = 2) {constructed : Bool} {outcome : Outcome V}
    (run : Scanned intConv server fetch asserts fuel command matchPattern constructed outcome)
    {n : Nat} (unsigned : n < 2 ^ 64) :
    (∀ before answered following after,
      outcome.requests = before ++ answered :: following :: after →
      Carries server fetch n (before ++ [answered]) → n ≠ 0 ∧
        (following = arguments fetch matchPattern (intConv.print fetch.workCount) (toString n) ↔
          n < 2 ^ 63)) ∧
      (constructed = true → Carries server fetch n outcome.requests →
        (outcome.iterator.scanContext = 0 ↔ n = 0) ∧
        (request intConv fetch matchPattern outcome.iterator.scanContext =
          arguments fetch matchPattern (intConv.print fetch.workCount) (toString n) ↔
            n < 2 ^ 63)) := by
  have follows := run.follows
  constructor
  · intro before answered following after split carries
    obtain ⟨rfl, other⟩ := follows.chains before answered following after split _
      (carries.accepted wraps step unsigned)
    exact ⟨fun zero => other ((bmod_eq_zero_iff unsigned).mpr zero),
      request_bmod_iff wraps.correct fetch matchPattern unsigned⟩
  · intro exists_ carries
    rw [follows.last exists_ _ (carries.accepted wraps step unsigned)]
    exact ⟨bmod_eq_zero_iff unsigned, request_bmod_iff wraps.correct fetch matchPattern unsigned⟩

/-! A conversion that wraps around, and a scan of an empty page and one with a value. -/

def wrapping : IntConv where
  print := toString
  parse text := (decimal.parse text).map fun number => Int.bmod number (2 ^ 64)

theorem wrapping_wraps : wrapping.Wraps := by
  refine ⟨⟨fun _ _ => rfl, fun n inRange => ?_⟩, fun n _ => ?_⟩
  · have same : Int.bmod n (2 ^ 64) = n := by
      obtain ⟨low, high⟩ := inRange
      exact Int.bmod_eq_of_le (by omega) (by omega)
    simp only [wrapping, decimal_parse_toString, Except.map, same]
  · have parsed : decimal.parse (toString n) = .ok (n : Int) := decimal_parse_toString n
    simp only [wrapping, parsed, Except.map]

/-- The first answer carries the cursor and no elements. -/
def twoPages (n : Nat) : Server := fun requests =>
  if requests.length = 1 then some (.array [.string (toString n), .array []])
  else some (singles 0 true ["last"]).raw

abbrev scanFetch : ValueFetch String := scanSingleValues (getString true)

theorem twoPages_carries (n : Nat) (asked : Request) : Carries (twoPages n) scanFetch n [asked] :=
  ⟨singles 0 true [], singles_wellFormed (by decide) true true [], rfl⟩

theorem twoPages_scanned {n : Nat} (unsigned : n < 2 ^ 64) (other : n ≠ 0) : ∃ outcome,
    Scanned wrapping (twoPages n) scanFetch true 2 0 "" true outcome ∧
      outcome.requests = [request wrapping scanFetch "" 0,
        request wrapping scanFetch "" (Int.bmod n (2 ^ 64))] := by
  have first : readAnswer wrapping (twoPages n) scanFetch true [request wrapping scanFetch "" 0] =
      .ok (Int.bmod n (2 ^ 64), []) :=
    Page.read ⟨n, true, [], []⟩ true rfl (wrapping_wraps.wraps n unsigned) rfl
  have second : readAnswer wrapping (twoPages n) scanFetch true
      [request wrapping scanFetch "" 0, request wrapping scanFetch "" (Int.bmod n (2 ^ 64))] =
        .ok (0, [.string "last"]) :=
    (singles_wellFormed (by decide) true true ["last"]).read true wrapping_wraps.correct rfl
  have stops : ¬ Continues wrapping (twoPages n) scanFetch true
      [request wrapping scanFetch "" 0, request wrapping scanFetch "" (Int.bmod n (2 ^ 64))] :=
    (continues_iff second).not.mpr fun more => more.1 rfl
  have next : fetchLoop wrapping (twoPages n) scanFetch true "" 2 0 [] =
      fetchLoop wrapping (twoPages n) scanFetch true "" 1 (Int.bmod n (2 ^ 64))
        [request wrapping scanFetch "" 0] :=
    fetchLoop_continues (fun zero => other ((bmod_eq_zero_iff unsigned).mp zero)) first 1
  have last : fetchLoop wrapping (twoPages n) scanFetch true "" 1 (Int.bmod n (2 ^ 64))
      [request wrapping scanFetch "" 0] = some
        ([request wrapping scanFetch "" 0, request wrapping scanFetch "" (Int.bmod n (2 ^ 64))],
          .ok (0, [.string "last"])) :=
    (fetchLoop_stops stops 0).trans (by rw [← second]; rfl)
  have called : increment wrapping (twoPages n) scanFetch true 2 []
      { command := 0, matchPattern := "", currIndex := 1 } = some
        ⟨[request wrapping scanFetch "" 0, request wrapping scanFetch "" (Int.bmod n (2 ^ 64))],
          { command := 0, matchPattern := "", reply := ["last"] }, .ok ()⟩ := by
    have going : cassert true (ScanIterator.isEnd (V := String)
      { command := 0, matchPattern := "", currIndex := 1 } = false) = .ok () := rfl
    simp only [increment, going]
    rw [if_neg (by simp), if_neg (by simp), next, last]
    rfl
  exact ⟨_, .begun called, rfl⟩

/-- The cursor 17 comes back as it was sent. -/
theorem cursor_survives_iff_small :
    request wrapping scanFetch "" (Int.bmod (17 : Nat) (2 ^ 64)) = ["SCAN", "17", "COUNT", "10"] := by
  obtain ⟨outcome, run, requests⟩ := twoPages_scanned (n := 17) (by decide) (by decide)
  exact (((cursor_survives_iff wrapping_wraps (.inl rfl) run (n := 17) (by decide)).1 [] _ _ []
    requests (twoPages_carries 17 _)).2.mpr (by decide)).trans rfl

/-- The cursor `2 ^ 63` comes back as a negative number. -/
theorem cursor_lost : ∃ outcome answered,
    Scanned wrapping (twoPages (2 ^ 63)) scanFetch true 2 0 "" true outcome ∧
      Carries (twoPages (2 ^ 63)) scanFetch (2 ^ 63) [answered] ∧
      outcome.requests = [answered, ["SCAN", "-9223372036854775808", "COUNT", "10"]] := by
  obtain ⟨outcome, run, requests⟩ := twoPages_scanned (n := 2 ^ 63) (by decide) (by decide)
  have negative : Int.bmod (2 ^ 63 : Nat) (2 ^ 64) = -9223372036854775808 := by decide
  have text : toString (-9223372036854775808 : Int) = "-9223372036854775808" := by decide +kernel
  have sent : request wrapping scanFetch "" (-9223372036854775808) =
      ["SCAN", "-9223372036854775808", "COUNT", "10"] := by
    simp only [request, arguments, wrapping, text]
    rfl
  refine ⟨outcome, request wrapping scanFetch "" 0, run, twoPages_carries _ _, ?_⟩
  rw [requests, negative, sent]

end Incredis.Scan
