import Incredis.Scan.Call
import Incredis.Scan.Pages

/-! A whole scan over a finite sequence of pages. At every position the object is
described by the pages that have been fetched and those that are left. -/
namespace Incredis.Scan

section
variable {V : Type} {intConv : IntConv} {server : Server} {fetch : ValueFetch V}
  {matchPattern : String}

/-- What the parts of a traversal share. -/
structure Setting (intConv : IntConv) (server : Server) (fetch : ValueFetch V)
    (matchPattern : String) (pages : List (Page V)) : Prop where
  correct : intConv.Correct
  step : fetch.step = 1 ∨ fetch.step = 2
  wellFormed : WellFormed fetch pages
  answers : Answers intConv server fetch matchPattern pages

/-- The loop skips empty pages up to the next one that has values or is the last. -/
theorem Setting.fetchLoop {pages : List (Page V)} (asserts : Bool)
    (setting : Setting intConv server fetch matchPattern pages) {fetched rest : List (Page V)}
    (split : pages = fetched ++ rest) (more : rest ≠ []) {fuel : Nat} (enough : rest.length ≤ fuel) :
    ∃ skipped page tail, rest = skipped ++ page :: tail ∧
      skipped.flatMap Page.values = [] ∧ (page.values = [] → tail = []) ∧
      fetchLoop intConv server fetch asserts matchPattern fuel (cursorAfter fetched)
          (requestsFor intConv fetch matchPattern 0 fetched) =
        some (requestsFor intConv fetch matchPattern 0 (fetched ++ skipped ++ [page]),
          .ok (page.cursor, page.variantArray)) := by
  induction rest generalizing fetched fuel with
  | nil => contradiction
  | cons page tail ih =>
    obtain ⟨fuel, rfl⟩ : ∃ left, fuel = left + 1 := ⟨fuel - 1, by simp at enough; omega⟩
    have pageFormed := setting.wellFormed.page page (by simp [split])
    have asked : requestsFor intConv fetch matchPattern 0 fetched ++
        [request intConv fetch matchPattern (cursorAfter fetched)] =
        requestsFor intConv fetch matchPattern 0 (fetched ++ [page]) := by
      rw [requestsFor_append, request,
        setting.correct.print _ (setting.wellFormed.cursorAfter_inRange split)]
      rfl
    have read : readAnswer intConv server fetch asserts
        (requestsFor intConv fetch matchPattern 0 fetched ++
          [request intConv fetch matchPattern (cursorAfter fetched)]) =
        .ok (page.cursor, page.variantArray) := by
      rw [readAnswer, asked, setting.answers fetched page tail split]
      exact pageFormed.read asserts setting.correct
        (by rcases setting.step with one | two <;> simp [*])
    have onward : pages = (fetched ++ [page]) ++ tail := by simp [split]
    have last := setting.wellFormed.cursorAfter_eq_zero onward (by simp)
    have cursor : cursorAfter (fetched ++ [page]) = page.cursor := by simp [cursorAfter]
    rw [cursor] at last
    by_cases skip : page.cursor ≠ 0 ∧ page.variantArray = []
    · rw [fetchLoop_continues skip.1 (skip.2 ▸ read), asked]
      have more : tail ≠ [] := fun none => skip.1 (last.mpr none)
      obtain ⟨skipped, found, beyond, rfl, empty, final, loop⟩ :=
        ih onward more (by simpa using enough)
      refine ⟨page :: skipped, found, beyond, rfl, ?_, final, ?_⟩
      · simp [empty, pageFormed.empty_iff.mp skip.2]
      · rw [cursor] at loop
        simpa using loop
    · rw [fetchLoop_stops ((continues_iff read).not.mpr skip), read, asked]
      refine ⟨[], page, tail, rfl, rfl, fun empty => ?_, by simp⟩
      refine Classical.byContradiction fun more => ?_
      exact skip ⟨fun zero => more (last.mp zero), pageFormed.empty_iff.mpr empty⟩

/-- Where the iterator stands when `left` are the values not yet passed: on a value of
the last page fetched, or at the end. -/
structure At (intConv : IntConv) (fetch : ValueFetch V) (matchPattern : String)
    (pages : List (Page V)) (left : List V) (outcome : Outcome V) : Prop where
  returned : outcome.result = .ok ()
  pattern : outcome.iterator.matchPattern = matchPattern
  position : ∃ fetched rest, pages = fetched ++ rest ∧ fetched ≠ [] ∧
    outcome.requests = requestsFor intConv fetch matchPattern 0 fetched ∧
    left = outcome.iterator.reply.drop outcome.iterator.currIndex ++ rest.flatMap Page.values ∧
    (outcome.iterator.currIndex < outcome.iterator.reply.length ∧
        outcome.iterator.scanContext = cursorAfter fetched ∨
      outcome.iterator.isEnd = true ∧ rest = [])

namespace Setting
variable {pages : List (Page V)} (asserts : Bool) {fuel : Nat}

/-- The last branch of `increment()`. -/
theorem increment_fetches (setting : Setting intConv server fetch matchPattern pages)
    {fetched rest : List (Page V)} (split : pages = fetched ++ rest) (more : rest ≠ [])
    (enough : pages.length ≤ fuel) {it : ScanIterator V} (pattern : it.matchPattern = matchPattern)
    (context : it.scanContext = cursorAfter fetched) (going : it.isEnd = false)
    (exhausted : it.reply.length ≤ it.currIndex + 1)
    (different : ¬ (it.currIndex + 1 = it.reply.length ∧ it.scanContext = 0)) :
    ∃ outcome, increment intConv server fetch asserts fuel
        (requestsFor intConv fetch matchPattern 0 fetched) it = some outcome ∧
      At intConv fetch matchPattern pages (rest.flatMap Page.values) outcome := by
  obtain ⟨skipped, page, tail, rfl, empty, final, loop⟩ := setting.fetchLoop asserts
    split more (show rest.length ≤ fuel by simp [split] at enough; omega)
  have pageFormed := setting.wellFormed.page page (by simp [split])
  have again : pages = (fetched ++ skipped ++ [page]) ++ tail := by simp [split]
  have fresh : ¬ it.currIndex + 1 < it.reply.length := by omega
  have incremented : increment intConv server fetch asserts fuel
      (requestsFor intConv fetch matchPattern 0 fetched) it = some
        ⟨requestsFor intConv fetch matchPattern 0 (fetched ++ skipped ++ [page]),
          { it with reply := page.values, scanContext := page.cursor, currIndex := 0 }, .ok ()⟩ := by
    rw [← context, ← pattern] at loop
    rw [← pattern]
    rw [increment_loops (cassert_of going) ⟨fresh, different⟩, loop, Option.map_some, ending,
      pageFormed.install]
  refine ⟨_, incremented, rfl, pattern, fetched ++ skipped ++ [page], tail, again, by simp, rfl, ?_,
    ?_⟩
  · simp [List.flatMap_append, empty]
  · cases values : page.values with
    | nil =>
      have none := final values
      have last := (setting.wellFormed.cursorAfter_eq_zero again (by simp)).mpr none
      refine .inr ⟨?_, none⟩
      simpa [ScanIterator.isEnd, cursorAfter] using last
    | cons => exact .inl ⟨by simp, by simp [cursorAfter]⟩

/-- One more value has been passed after an increment. -/
theorem increment_passes (setting : Setting intConv server fetch matchPattern pages)
    (enough : pages.length ≤ fuel) {value : V} {left : List V} {outcome : Outcome V}
    (here : At intConv fetch matchPattern pages (value :: left) outcome) :
    ∃ following, increment intConv server fetch asserts fuel outcome.requests outcome.iterator =
        some following ∧ At intConv fetch matchPattern pages left following := by
  obtain ⟨requests, it, result⟩ := outcome
  obtain ⟨returned, pattern, fetched, rest, split, started, rfl, remaining, place⟩ := here
  simp only at pattern remaining place ⊢
  obtain ⟨bound, context⟩ := place.resolve_right fun ⟨ended, final⟩ => by
    simp only [ScanIterator.isEnd, Bool.and_eq_true, List.isEmpty_iff] at ended
    simp [final, ended.1.2] at remaining
  have going : it.isEnd = false := by
    cases reply : it.reply with
    | nil => simp [reply] at bound
    | cons => simp [ScanIterator.isEnd, reply]
  rw [List.drop_eq_getElem_cons bound, List.cons_append, List.cons.injEq] at remaining
  obtain ⟨_, rfl⟩ := remaining
  by_cases inside : it.currIndex + 1 < it.reply.length
  · refine ⟨_, increment_inside (cassert_of going) inside, rfl, pattern,
      fetched, rest, split, started, rfl, rfl, .inl ⟨inside, context⟩⟩
  have last : it.currIndex + 1 = it.reply.length := by omega
  rw [List.drop_of_length_le (by omega), List.nil_append]
  by_cases final : it.scanContext = 0
  · have none := (setting.wellFormed.cursorAfter_eq_zero split started).mp (context ▸ final)
    refine ⟨_, increment_ends (cassert_of going) last final, rfl, pattern, fetched, rest, split, started, rfl, ?_, .inr ⟨?_, none⟩⟩
    · simp
    · simp [ScanIterator.isEnd, final]
  · have more : rest ≠ [] := by
      intro none
      exact final (context.trans ((setting.wellFormed.cursorAfter_eq_zero split started).mpr none))
    exact setting.increment_fetches asserts split more enough pattern context going (by omega)
      (fun h => final h.2)

theorem begins (setting : Setting intConv server fetch matchPattern pages)
    (enough : pages.length ≤ fuel) (command : Nat) :
    ∃ outcome, beginIterator intConv server fetch asserts fuel command matchPattern =
      some outcome ∧ At intConv fetch matchPattern pages (pages.flatMap Page.values) outcome :=
  setting.increment_fetches asserts (List.nil_append pages).symm setting.wellFormed.nonempty enough
    rfl rfl rfl (by simp) (by simp)

/-- After `n` increments the first `n` values have been passed. -/
theorem walks (setting : Setting intConv server fetch matchPattern pages)
    (enough : pages.length ≤ fuel) (command n : Nat)
    (bound : n ≤ (pages.flatMap Page.values).length) :
    ∃ outcome, walk intConv server fetch asserts fuel command matchPattern n = some outcome ∧
      At intConv fetch matchPattern pages ((pages.flatMap Page.values).drop n) outcome := by
  induction n with
  | zero => exact setting.begins asserts enough command
  | succ n ih =>
    obtain ⟨outcome, walked, here⟩ := ih (by omega)
    rw [List.drop_eq_getElem_cons (by omega)] at here
    obtain ⟨following, stepped, there⟩ := setting.increment_passes asserts enough here
    refine ⟨following, ?_, there⟩
    simp only [walk, walked, Option.bind_some, here.returned, stepped]

end Setting

/-- Before the end the iterator stands on the next value and is not the end iterator. -/
theorem At.dereference {pages : List (Page V)} {value : V} {left : List V} {outcome : Outcome V}
    (here : At intConv fetch matchPattern pages (value :: left) outcome) (asserts : Bool) :
    outcome.iterator.isEnd = false ∧ outcome.iterator.dereference asserts = .ok value := by
  obtain ⟨_, _, fetched, rest, _, _, _, remaining, place⟩ := here
  obtain ⟨bound, _⟩ := place.resolve_right fun ⟨ended, final⟩ => by
    simp only [ScanIterator.isEnd, Bool.and_eq_true, List.isEmpty_iff] at ended
    simp [final, ended.1.2] at remaining
  rw [List.drop_eq_getElem_cons bound, List.cons_append, List.cons.injEq] at remaining
  have some : outcome.iterator.reply ≠ [] := by
    intro none
    simp [none] at bound
  constructor
  · simp [ScanIterator.isEnd, some]
  · simp only [ScanIterator.dereference, cassert_of some, cassert_of bound, readAt,
      List.getElem?_eq_getElem bound, remaining.1]
    rfl

/-- At the end every page has been asked for. -/
theorem At.finished {pages : List (Page V)} {outcome : Outcome V}
    (here : At intConv fetch matchPattern pages [] outcome) :
    outcome.iterator.isEnd = true ∧
      outcome.requests = requestsFor intConv fetch matchPattern 0 pages := by
  obtain ⟨_, _, fetched, rest, split, _, requests, remaining, place⟩ := here
  rcases place with ⟨bound, _⟩ | ⟨ended, final⟩
  · rw [List.drop_eq_getElem_cons bound] at remaining
    contradiction
  · rw [final, List.append_nil] at split
    exact ⟨ended, split ▸ requests⟩

theorem equal_end (it : ScanIterator V) (command : Nat) (matchPattern : String) :
    it.equal (endIterator command matchPattern) = it.isEnd := by
  simp [ScanIterator.equal, endIterator, ScanIterator.isEnd]

end

/-- A scan visits the values of all pages in order. Up to the end the iterator differs
from the end iterator, can be dereferenced and incremented without a failed assertion,
and after as many increments as there are values it is the end iterator; by then there
has been one request for each page. -/
theorem scan_visits_pages {V : Type} {intConv : IntConv} {server : Server} {fetch : ValueFetch V}
    {matchPattern : String} {pages : List (Page V)} (correct : intConv.Correct)
    (step : fetch.step = 1 ∨ fetch.step = 2) (wellFormed : WellFormed fetch pages)
    (answers : Answers intConv server fetch matchPattern pages) (asserts : Bool) {fuel : Nat}
    (enough : pages.length ≤ fuel) (command : Nat) :
    (∀ n value, (pages.flatMap Page.values)[n]? = some value → ∃ outcome,
      walk intConv server fetch asserts fuel command matchPattern n = some outcome ∧
        outcome.result = .ok () ∧ outcome.iterator.equal (endIterator command "") = false ∧
        outcome.iterator.dereference asserts = .ok value) ∧
      ∃ outcome, walk intConv server fetch asserts fuel command matchPattern
          (pages.flatMap Page.values).length = some outcome ∧
        outcome.result = .ok () ∧ outcome.iterator.equal (endIterator command "") = true ∧
        outcome.requests = requestsFor intConv fetch matchPattern 0 pages := by
  have setting : Setting intConv server fetch matchPattern pages :=
    ⟨correct, step, wellFormed, answers⟩
  constructor
  · intro n value found
    obtain ⟨bound, rfl⟩ := List.getElem?_eq_some_iff.mp found
    obtain ⟨outcome, walked, here⟩ :=
      setting.walks asserts enough command n (Nat.le_of_lt bound)
    rw [List.drop_eq_getElem_cons bound] at here
    obtain ⟨going, value⟩ := here.dereference asserts
    exact ⟨outcome, walked, here.returned, by rw [equal_end, going], value⟩
  · obtain ⟨outcome, walked, here⟩ :=
      setting.walks asserts enough command _ (Nat.le_refl _)
    rw [List.drop_length] at here
    obtain ⟨ended, requests⟩ := here.finished
    exact ⟨outcome, walked, here.returned, by rw [equal_end, ended], requests⟩

/-- A page of strings, for `SCAN` and `SSCAN`. -/
def singles (cursor : Int) (asText : Bool) (values : List String) : Page String :=
  ⟨cursor, asText, values.map .string, values⟩

/-- A page of fields or members with their values or scores, for `HSCAN` and `ZSCAN`. -/
def pairs (cursor : Int) (asText : Bool) (values : List (String × String)) :
    Page (String × String) :=
  ⟨cursor, asText, values.flatMap fun value => [.string value.1, .string value.2], values⟩

theorem singles_wellFormed {cursor : Int} (inRange : InRedisInt cursor) (asText asserts : Bool)
    (values : List String) :
    (singles cursor asText values).WellFormed (scanSingleValues (getString asserts)) := by
  refine ⟨inRange, ?_, by simp [singles, scanSingleValues], ?_⟩
  · induction values with
    | nil => rfl
    | cons head rest ih => simpa [singles, RedisReply.errorsIn, RedisReply.errors] using ih
  · intro i value found
    simp only [singles] at found
    simp [scanSingleValues, readAt, Page.variantArray, singles, found, makeRedisReplyType, bind,
      Except.bind]

theorem pairs_wellFormed {cursor : Int} (inRange : InRedisInt cursor) (asText asserts : Bool)
    (values : List (String × String)) (order : ArgumentOrder) (command : PairCommand)
    (scanTarget : String) :
    (pairs cursor asText values).WellFormed
      (scanPairs order command (getString asserts) (getString asserts) scanTarget) := by
  refine ⟨inRange, ?_, ?_, ?_⟩
  · induction values with
    | nil => rfl
    | cons head rest ih => simpa [pairs, RedisReply.errorsIn, RedisReply.errors] using ih
  · induction values with
    | nil => rfl
    | cons head rest ih =>
      simp only [pairs, scanPairs, List.flatMap_cons, List.length_append, List.length_cons,
        List.length_nil] at ih ⊢
      omega
  · induction values with
    | nil => rintro i value ⟨⟩
    | cons head rest ih =>
      rintro (_ | i) value found
      · cases found
        cases order <;> cases asserts <;> rfl
      · have shift : (i + 1) * 2 = i * 2 + 1 + 1 := by omega
        have tail := ih i value found
        cases order <;>
          simp only [pairs, scanPairs, Page.variantArray, shift] at tail ⊢ <;>
          exact tail

/-- A server that returns the pages one by one, whatever it is asked. -/
def inTurn {V : Type} (pages : List (Page V)) : Server := fun requests =>
  pages[requests.length - 1]?.map Page.raw

theorem requestsFor_length {V : Type} (intConv : IntConv) (fetch : ValueFetch V)
    (matchPattern : String) (cursor : Int) (pages : List (Page V)) :
    (requestsFor intConv fetch matchPattern cursor pages).length = pages.length := by
  induction pages generalizing cursor with
  | nil => rfl
  | cons page rest ih => simp [requestsFor, ih]

theorem inTurn_answers {V : Type} (intConv : IntConv) (fetch : ValueFetch V) (matchPattern : String)
    (pages : List (Page V)) : Answers intConv (inTurn pages) fetch matchPattern pages := by
  rintro fetched page rest rfl
  simp [inTurn, requestsFor_length]

/-- Decimal numerals, for runs. -/
def decimal : IntConv where
  print := toString
  parse text := match text.toList with
    | '-' :: digits => .ok (-(Nat.ofDigitChars 10 digits 0))
    | digits => .ok (Nat.ofDigitChars 10 digits 0)

theorem decimal_parse_toString (n : Int) : decimal.parse (toString n) = .ok n := by
  cases n with
  | ofNat m =>
    have unsigned : ∀ rest, m.repr.toList ≠ '-' :: rest := by
      intro rest same
      have digit : '-' ∈ Nat.toDigits 10 m := by
        rw [← Nat.toList_repr, same]
        exact List.mem_cons_self
      have := Nat.isDigit_of_mem_toDigits (by decide) (by decide) digit
      contradiction
    show decimal.parse m.repr = .ok (m : Int)
    simp only [decimal, ofDigitChars_repr]
  | negSucc m =>
    simp only [decimal, toList_negSucc, ofDigitChars_repr]
    rfl

theorem decimal_correct : decimal.Correct :=
  ⟨fun _ _ => rfl, fun n _ => decimal_parse_toString n⟩

theorem toString_inj {m n : Int} (same : toString m = toString n) : m = n := by
  have parsed := decimal_parse_toString m
  rw [same, decimal_parse_toString] at parsed
  exact (Except.ok.inj parsed).symm

def hscanPages : List (Page (String × String)) :=
  [pairs 17 true [], pairs 5 false [("name", "Ada")],
    pairs 0 true [("born", "1815"), ("died", "1852")]]

/-- The first of three pages is empty; the third value is found on the last page. -/
theorem scan_visits_pages_hscan : ∃ outcome,
    walk decimal (inTurn hscanPages)
        (scanPairs .rightFirst .hscan (getString true) (getString true) "person") true 3 0 "" 2 =
          some outcome ∧
      outcome.iterator.dereference true = .ok ("died", "1852") := by
  have wellFormed : WellFormed
      (scanPairs .rightFirst .hscan (getString true) (getString true) "person") hscanPages := by
    refine ⟨?_, by simp [hscanPages], ?_⟩
    · simp only [hscanPages, List.mem_cons, List.not_mem_nil, or_false]
      rintro page (rfl | rfl | rfl) <;>
        exact pairs_wellFormed (by decide) _ _ _ _ _ _
    · rintro (_ | _ | _ | k) page found <;> cases found <;> decide
  obtain ⟨outcome, walked, _, _, value⟩ := (scan_visits_pages decimal_correct (.inr rfl) wellFormed
    (inTurn_answers decimal _ "" hscanPages) true (Nat.le_refl 3) 0).1 2 _ rfl
  exact ⟨outcome, walked, value⟩

end Incredis.Scan
