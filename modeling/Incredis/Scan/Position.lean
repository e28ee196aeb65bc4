import Incredis.Chain
import Incredis.Scan.Call
import Incredis.Scan.Pages

/-! Where an iterator stands among the pages that follow one another from cursor 0, when
any request may fail. An increment that throws leaves the iterator in its place. -/
namespace Incredis.Scan

/-- The pages from a cursor on, up to the one with cursor 0. -/
abbrev Walk (pageOf : Int → Page V) : Int → List (Page V) → Prop :=
  Chain.From pageOf Page.cursor 0

section
variable {V : Type} (intConv : IntConv) (server : Server) (fetch : ValueFetch V)
  (matchPattern : String) (pageOf : Int → Page V)

/-- The server has a page for every cursor, but any of its answers can be an error instead,
whatever was asked before. -/
def Flaky : Prop :=
  ∀ requests cursor, InRedisInt cursor →
    server (requests ++ [request intConv fetch matchPattern cursor]) = some (pageOf cursor).raw ∨
      ∃ thrown, commandRun (server (requests ++ [request intConv fetch matchPattern cursor])) =
        .error thrown

structure Interruptible (pages : List (Page V)) : Prop where
  correct : intConv.Correct
  step : fetch.step = 1 ∨ fetch.step = 2
  walk : Walk pageOf 0 pages
  page : ∀ page ∈ pages, page.WellFormed fetch
  flaky : Flaky intConv server fetch matchPattern pageOf

end

variable {V : Type} {intConv : IntConv} {server : Server} {fetch : ValueFetch V}
  {matchPattern : String} {pageOf : Int → Page V} {pages : List (Page V)} {fuel : Nat}

/-- The loop throws, or it stops at a page that has values or is the last. -/
def Fetched (rest : List (Page V)) (fetched : Except Exception (Int × List Reply)) : Prop :=
  (∃ thrown, fetched = .error thrown) ∨
    ∃ skipped page tail, rest = skipped ++ page :: tail ∧ skipped.flatMap Page.values = [] ∧
      (page.values = [] → page.cursor = 0) ∧ fetched = .ok (page.cursor, page.variantArray)

/-- An empty page before those that are left makes no difference. -/
theorem Fetched.cons {page : Page V} {rest : List (Page V)}
    {fetched : Except Exception (Int × List Reply)} (later : Fetched rest fetched)
    (empty : page.values = []) : Fetched (page :: rest) fetched := by
  rcases later with thrown | ⟨skipped, found, tail, rfl, none, final, fetched⟩
  · exact .inl thrown
  · exact .inr ⟨page :: skipped, found, tail, rfl, by simp [none, empty], final, fetched⟩

/-- The answer to a request with a cursor is an error or the page of this cursor. -/
theorem Interruptible.answer (asserts : Bool)
    (setting : Interruptible intConv server fetch matchPattern pageOf pages) {cursor : Int}
    (inRange : InRedisInt cursor) (formed : (pageOf cursor).WellFormed fetch)
    (requests : List Request) :
    (∃ thrown, readAnswer intConv server fetch asserts
        (requests ++ [request intConv fetch matchPattern cursor]) = .error thrown) ∨
      readAnswer intConv server fetch asserts
        (requests ++ [request intConv fetch matchPattern cursor]) =
          .ok ((pageOf cursor).cursor, (pageOf cursor).variantArray) := by
  rcases setting.flaky requests cursor inRange with answer | ⟨thrown, fails⟩
  · right
    rw [readAnswer, answer]
    exact formed.read asserts setting.correct (by rcases setting.step with one | two <;> simp [*])
  · left
    exact ⟨thrown, by rw [readAnswer, fails]; rfl⟩

theorem Interruptible.fetchLoop (asserts : Bool)
    (setting : Interruptible intConv server fetch matchPattern pageOf pages) {cursor : Int}
    {rest : List (Page V)} (walk : Walk pageOf cursor rest) (inRange : InRedisInt cursor)
    (formed : ∀ page ∈ rest, page.WellFormed fetch) (enough : rest.length ≤ fuel)
    (requests : List Request) :
    ∃ made fetched, fetchLoop intConv server fetch asserts matchPattern fuel cursor requests =
      some (made, fetched) ∧ Fetched rest fetched := by
  induction walk generalizing fuel requests with
  | @last cursor stops =>
    obtain ⟨fuel, rfl⟩ : ∃ left, fuel = left + 1 := ⟨fuel - 1, by simp at enough; omega⟩
    rcases setting.answer asserts inRange (formed _ (by simp)) requests with ⟨thrown, threw⟩ | page
    · rw [fetchLoop_stops (not_continues threw)]
      exact ⟨_, _, rfl, .inl ⟨thrown, threw⟩⟩
    · rw [fetchLoop_stops ((continues_iff page).not.mpr fun more => more.1 stops)]
      exact ⟨_, _, rfl, .inr ⟨[], _, [], rfl, rfl, fun _ => stops, page⟩⟩
  | @onward cursor tail continues _ ih =>
    obtain ⟨fuel, rfl⟩ : ∃ left, fuel = left + 1 := ⟨fuel - 1, by simp at enough; omega⟩
    have pageFormed := formed (pageOf cursor) (by simp)
    rcases setting.answer asserts inRange pageFormed requests with ⟨thrown, threw⟩ | page
    · rw [fetchLoop_stops (not_continues threw)]
      exact ⟨_, _, rfl, .inl ⟨thrown, threw⟩⟩
    · by_cases empty : (pageOf cursor).variantArray = []
      · rw [fetchLoop_continues continues (empty ▸ page)]
        obtain ⟨made, fetched, loop, later⟩ := ih pageFormed.inRange
          (fun page member => formed page (List.mem_cons_of_mem _ member)) (by simpa using enough) _
        exact ⟨made, fetched, loop, later.cons (pageFormed.empty_iff.mp empty)⟩
      · rw [fetchLoop_stops ((continues_iff page).not.mpr fun more => empty more.2)]
        exact ⟨_, _, rfl, .inr ⟨[], _, tail, rfl, rfl,
          fun none => absurd (pageFormed.empty_iff.mpr none) empty, page⟩⟩

/-- The iterator has been made by a number of increments: it is on a value of one page, or
at the end. -/
structure Position (pages : List (Page V)) (command : Nat) (matchPattern : String) (made : Nat)
    (it : ScanIterator V) : Prop where
  command : it.command = command
  pattern : it.matchPattern = matchPattern
  place : (∃ before page after, pages = before ++ page :: after ∧ it.reply = page.values ∧
      it.scanContext = page.cursor ∧ it.currIndex < page.values.length ∧
      made = (before.flatMap Page.values).length + it.currIndex) ∨
    it.isEnd = true ∧ made = (pages.flatMap Page.values).length

/-- What one call does to a position. -/
def Moves (pages : List (Page V)) (made : Nat) (it : ScanIterator V) (outcome : Outcome V) : Prop :=
  outcome.result = .ok () ∧ Position pages it.command it.matchPattern made outcome.iterator ∨
    ∃ thrown, outcome.result = .error thrown ∧ outcome.iterator = it

namespace Interruptible
variable (asserts : Bool)

/-- The last branch of `increment()`. -/
theorem fetches (setting : Interruptible intConv server fetch matchPattern pageOf pages)
    {before rest : List (Page V)} (split : pages = before ++ rest) {it : ScanIterator V}
    (walk : Walk pageOf it.scanContext rest) (inRange : InRedisInt it.scanContext)
    (pattern : it.matchPattern = matchPattern) (going : it.isEnd = false)
    (exhausted : ¬ it.currIndex + 1 < it.reply.length)
    (different : ¬ (it.currIndex + 1 = it.reply.length ∧ it.scanContext = 0))
    (enough : pages.length ≤ fuel) (requests : List Request) :
    ∃ outcome, increment intConv server fetch asserts fuel requests it = some outcome ∧
      Moves pages (before.flatMap Page.values).length it outcome := by
  subst pattern
  have formed : ∀ page ∈ rest, page.WellFormed fetch := fun page member =>
    setting.page page (split ▸ List.mem_append_right _ member)
  have size : rest.length ≤ fuel := by
    rw [split, List.length_append] at enough
    omega
  obtain ⟨made, fetched, loop, found⟩ :=
    setting.fetchLoop asserts walk inRange formed size requests
  rw [increment_loops (cassert_of going) ⟨exhausted, different⟩, loop, Option.map_some]
  rcases found with ⟨thrown, rfl⟩ | ⟨skipped, page, tail, rfl, none, final, rfl⟩
  · exact ⟨_, rfl, .inr ⟨thrown, rfl, rfl⟩⟩
  · rw [ending, (formed page (by simp)).install]
    refine ⟨_, rfl, .inl ⟨rfl, rfl, rfl, ?_⟩⟩
    have again : pages = (before ++ skipped) ++ page :: tail := by simp [split]
    cases values : page.values with
    | nil =>
      have zero := final values
      have last := (setting.walk.stops_iff again).mp zero
      refine .inr ⟨by simp [ScanIterator.isEnd, zero], ?_⟩
      simp [again, last, none, values]
    | cons value others =>
      refine .inl ⟨before ++ skipped, page, tail, again, ?_, rfl, ?_, ?_⟩
      · exact values.symm
      · simp [values]
      · simp [none]

theorem begins (setting : Interruptible intConv server fetch matchPattern pageOf pages)
    (enough : pages.length ≤ fuel) (command : Nat) (requests : List Request) :
    ∃ outcome, increment intConv server fetch asserts fuel requests
        { command, matchPattern, currIndex := 1 } = some outcome ∧
      Moves pages 0 { command, matchPattern, currIndex := 1 } outcome :=
  setting.fetches asserts (List.nil_append pages).symm setting.walk (by simp [InRedisInt]) rfl rfl
    (by simp) (by simp) enough requests

/-- From a position an increment goes on to the next one, or throws and changes nothing. -/
theorem increments (setting : Interruptible intConv server fetch matchPattern pageOf pages)
    (enough : pages.length ≤ fuel) {command made : Nat} {it : ScanIterator V}
    (position : Position pages command matchPattern made it) (going : it.isEnd = false)
    (requests : List Request) :
    ∃ outcome, increment intConv server fetch asserts fuel requests it = some outcome ∧
      Moves pages (made + 1) it outcome := by
  obtain ⟨rfl, pattern, place⟩ := position
  obtain ⟨before, page, after, split, reply, context, bound, rfl⟩ :=
    place.resolve_right fun ended => by simp [going] at ended
  have pageFormed := setting.page page (by simp [split])
  by_cases inside : it.currIndex + 1 < it.reply.length
  · refine ⟨_, increment_inside (cassert_of going) inside, .inl ⟨rfl, rfl, rfl, ?_⟩⟩
    exact .inl ⟨before, page, after, split, reply, context, reply ▸ inside, by simp; omega⟩
  have last : it.currIndex + 1 = it.reply.length := by
    rw [reply] at inside ⊢
    omega
  have size : (before.flatMap Page.values).length + it.currIndex + 1 =
      ((before ++ [page]).flatMap Page.values).length := by
    simp [reply] at last ⊢
    omega
  rcases setting.walk.tail split with ⟨stops, none⟩ | ⟨continues, later⟩
  · have zero : it.scanContext = 0 := context.trans stops
    refine ⟨_, increment_ends (cassert_of going) last zero,
      .inl ⟨rfl, rfl, rfl, .inr ⟨by simp [ScanIterator.isEnd, zero], ?_⟩⟩⟩
    rw [size, split, none]
  · rw [← context] at later continues
    have again : pages = (before ++ [page]) ++ after := by simp [split]
    rw [size]
    exact setting.fetches asserts again later (context ▸ pageFormed.inRange) pattern going inside
      (fun ends => continues ends.2) enough requests

end Interruptible

end Incredis.Scan
