import Incredis.Scan.Iterator

/-! The pages of a scan as the server sends them, and what `increment()` makes of one
page. -/
namespace Incredis.Scan

/-- A page of a scan, with the values it stands for. The next cursor comes as an
integer or as its decimal text. -/
structure Page (V : Type) where
  cursor : Int
  asText : Bool
  elements : List RedisReply
  values : List V

namespace Page
variable {V : Type} (page : Page V)

def raw : RedisReply :=
  .array [if page.asText then .string (toString page.cursor) else .integer page.cursor,
    .array page.elements]

def variantArray : List Reply := page.elements.map makeRedisReplyType

/-- The `i`-th value is made of the elements from `i * step` on, and there are as many
elements as that takes. -/
structure WellFormed (fetch : ValueFetch V) (page : Page V) : Prop where
  inRange : InRedisInt page.cursor
  clean : RedisReply.errorsIn page.elements = []
  length : page.elements.length = page.values.length * fetch.step
  values : ∀ (i : Nat) (value : V), page.values[i]? = some value →
    fetch.makeValue (page.variantArray.drop (i * fetch.step)) = .ok value

end Page

/-- Well-formed pages of which only the last carries cursor 0. -/
structure WellFormed {V : Type} (fetch : ValueFetch V) (pages : List (Page V)) : Prop where
  page : ∀ page ∈ pages, page.WellFormed fetch
  nonempty : pages ≠ []
  last : ∀ (k : Nat) (page : Page V), pages[k]? = some page →
    (page.cursor = 0 ↔ k + 1 = pages.length)

section
variable {V : Type} (intConv : IntConv) (server : Server) (fetch : ValueFetch V)
  (matchPattern : String)

/-- One request for each page: the first with the given cursor and every later one with
the cursor of the page before. -/
def requestsFor : Int → List (Page V) → List Request
  | _, [] => []
  | cursor, page :: rest =>
    arguments fetch matchPattern (intConv.print fetch.workCount) (toString cursor) ::
      requestsFor page.cursor rest

/-- As long as it gets these requests, the server returns one page after the other. -/
def Answers (pages : List (Page V)) : Prop :=
  ∀ fetched page rest, pages = fetched ++ page :: rest →
    server (requestsFor intConv fetch matchPattern 0 (fetched ++ [page])) = some page.raw

/-- The cursor to go on with. -/
def cursorAfter (pages : List (Page V)) : Int := (pages.getLast?.map Page.cursor).getD 0

variable {intConv server fetch matchPattern}

theorem requestsFor_append (cursor : Int) (fetched : List (Page V)) (page : Page V) :
    requestsFor intConv fetch matchPattern cursor (fetched ++ [page]) =
      requestsFor intConv fetch matchPattern cursor fetched ++
        [arguments fetch matchPattern (intConv.print fetch.workCount)
          (toString ((fetched.getLast?.map Page.cursor).getD cursor))] := by
  induction fetched generalizing cursor with
  | nil => rfl
  | cons head rest ih =>
    simp only [List.cons_append, requestsFor, ih, List.getLast?_cons]
    cases rest.getLast? <;> rfl

namespace Page
variable {page : Page V}

theorem decoded_raw : decoded (some page.raw) =
    .array [if page.asText then .string (toString page.cursor) else .integer page.cursor,
      .array page.variantArray] := by
  simp only [decoded, raw, makeRedisReplyType, makeRedisReplyTypes, makeRedisReplyTypes_eq,
    variantArray]
  cases page.asText <;> rfl

theorem commandRun_raw (clean : RedisReply.errorsIn page.elements = []) :
    commandRun (some page.raw) = .ok (decoded (some page.raw)) := by
  have errors : Reply.errorsIn [decoded (some page.raw)] = [] := by
    simp only [decoded, Reply.errorsIn, makeRedisReplyType_errors, raw, RedisReply.errors,
      RedisReply.errorsIn, clean]
    cases page.asText <;> rfl
  simp only [commandRun, (throwIfFailed_ok_iff _).mpr errors]
  rfl

/-- Reading a page back, with whatever its cursor is read as. -/
theorem read (page : Page V) {newContext : Int} (asserts : Bool) (clean : RedisReply.errorsIn page.elements = [])
    (cursor : getIntegerAutoconvIfStr asserts intConv.parse
      (if page.asText then .string (toString page.cursor) else .integer page.cursor) =
        .ok newContext) (step : 2 % fetch.step = 0) :
    (commandRun (some page.raw) >>= readPage intConv fetch asserts) =
      .ok (newContext, page.variantArray) := by
  rw [commandRun_raw clean, decoded_raw]
  generalize (if page.asText then Reply.string (toString page.cursor)
    else .integer page.cursor) = first at cursor
  simp [readPage, step, readAt, bind, Except.bind, pure, Except.pure, cursor]

theorem WellFormed.read (asserts : Bool) (wellFormed : page.WellFormed fetch)
    (correct : intConv.Correct) (step : 2 % fetch.step = 0) :
    (commandRun (some page.raw) >>= readPage intConv fetch asserts) =
      .ok (page.cursor, page.variantArray) := by
  refine page.read asserts wellFormed.clean ?_ step
  cases page.asText
  · rfl
  · exact correct.parse _ wellFormed.inRange

theorem WellFormed.empty_iff (wellFormed : page.WellFormed fetch) :
    page.variantArray = [] ↔ page.values = [] := by
  have positive : fetch.step ≠ 0 := Nat.ne_of_gt fetch.step_pos
  rw [variantArray, List.map_eq_nil_iff, ← List.length_eq_zero_iff, wellFormed.length,
    Nat.mul_eq_zero, List.length_eq_zero_iff, or_iff_left positive]

theorem WellFormed.size (wellFormed : page.WellFormed fetch) :
    page.variantArray.length = page.values.length * fetch.step := by
  rw [variantArray, List.length_map, wellFormed.length]

/-- The `for` loop from the `k`-th value on. -/
theorem WellFormed.push (wellFormed : page.WellFormed fetch) {k left : Nat}
    (total : k + left = page.values.length) (pushed : List V) :
    pushValues fetch page.variantArray (List.range' (k * fetch.step) left fetch.step) pushed =
      (pushed ++ page.values.drop k, .ok ()) := by
  induction left generalizing k pushed with
  | zero =>
    rw [List.drop_of_length_le (by omega), List.append_nil]
    rfl
  | succ left ih =>
    have bound : k < page.values.length := by omega
    have made := wellFormed.values k _ (List.getElem?_eq_getElem bound)
    have next : k * fetch.step + fetch.step = (k + 1) * fetch.step := by
      rw [Nat.add_mul, Nat.one_mul]
    simp only [List.range'_succ, pushValues, made, next]
    rw [ih (by omega), List.append_assoc, List.singleton_append, List.drop_eq_getElem_cons bound]

theorem WellFormed.install {asserts : Bool} (wellFormed : page.WellFormed fetch)
    (it : ScanIterator V) (newContext : Int) :
    installPage fetch asserts it newContext page.variantArray =
      ({ it with reply := page.values, scanContext := newContext, currIndex := 0 }, .ok ()) := by
  have positive := fetch.step_pos
  have whole : page.variantArray.length % fetch.step = 0 := by
    rw [wellFormed.size, Nat.mul_mod_left]
  have quotient : page.variantArray.length / fetch.step = page.values.length := by
    rw [wellFormed.size, Nat.mul_div_cancel _ positive]
  have passes : (page.variantArray.length + fetch.step - 1) / fetch.step = page.values.length := by
    have shift : page.variantArray.length + fetch.step - 1 =
        (fetch.step - 1) + page.values.length * fetch.step := by
      rw [wellFormed.size]
      omega
    rw [shift, Nat.add_mul_div_right _ _ positive, Nat.div_eq_of_lt (by omega), Nat.zero_add]
  have pushed := wellFormed.push (Nat.zero_add page.values.length) []
  rw [Nat.zero_mul, List.drop_zero, List.nil_append] at pushed
  simp only [installPage, offsets, passes, pushed, cassert_of whole, quotient]
  simp [bind, Except.bind]

end Page

/-- The context after some pages is 0 only at the start and at the end. -/
theorem WellFormed.cursorAfter_eq_zero {pages fetched rest : List (Page V)}
    (wellFormed : WellFormed fetch pages) (split : pages = fetched ++ rest)
    (started : fetched ≠ []) : cursorAfter fetched = 0 ↔ rest = [] := by
  obtain ⟨front, page, rfl⟩ := List.eq_nil_or_concat fetched |>.resolve_left started
  have last := wellFormed.last front.length page (by simp [split])
  simp only [cursorAfter, List.concat_eq_append, List.getLast?_concat, Option.map_some,
    Option.getD_some, last, split]
  simp

theorem WellFormed.cursorAfter_inRange {pages fetched rest : List (Page V)}
    (wellFormed : WellFormed fetch pages) (split : pages = fetched ++ rest) :
    InRedisInt (cursorAfter fetched) := by
  cases last : fetched.getLast? with
  | none => simp [cursorAfter, last, InRedisInt]
  | some page =>
    have member : page ∈ pages := by
      rw [split]
      exact List.mem_append_left _ (List.mem_of_getLast? last)
    simpa [cursorAfter, last] using (wellFormed.page page member).inRange

end

end Incredis.Scan
