import Incredis.Scan.Iterator

/-! What one call of `increment()` can do: the passes of its loop, the requests that it comes
to make, and its four ways to end. -/
namespace Incredis.Scan

section
variable {V : Type} (intConv : IntConv) (server : Server) (fetch : ValueFetch V) (asserts : Bool)

/-- What the loop reads from the answer to the last of the requests. -/
def readAnswer (requests : List Request) : Except Exception (Int × List Reply) :=
  commandRun (server requests) >>= readPage intConv fetch asserts

/-- After an empty page that is not the last the loop goes on. -/
def Continues (requests : List Request) : Prop :=
  ∃ newContext, newContext ≠ 0 ∧
    readAnswer intConv server fetch asserts requests = .ok (newContext, [])

/-- The requests up to one that the loop makes, from a context on. -/
inductive Asked (matchPattern : String) : Int → List Request → List Request → Prop
  | first {context requests} :
      Asked matchPattern context requests (requests ++ [request intConv fetch matchPattern context])
  | next {context requests newContext asked} : newContext ≠ 0 →
      readAnswer intConv server fetch asserts
        (requests ++ [request intConv fetch matchPattern context]) = .ok (newContext, []) →
      Asked matchPattern newContext (requests ++ [request intConv fetch matchPattern context])
        asked → Asked matchPattern context requests asked

/-- The page that the iterator is on has been passed, and another is to be fetched. -/
def Fetches (it : ScanIterator V) : Prop :=
  ¬ it.currIndex + 1 < it.reply.length ∧ ¬ (it.currIndex + 1 = it.reply.length ∧ it.scanContext = 0)

/-- From some number of passes on the call has one outcome, whatever the bound. -/
def Returns (requests : List Request) (it : ScanIterator V) (outcome : Outcome V) : Prop :=
  ∃ enough, ∀ fuel, enough ≤ fuel →
    increment intConv server fetch asserts fuel requests it = some outcome

/-- The end of a call that has left the loop. -/
def ending (it : ScanIterator V) (made : List Request) :
    Except Exception (Int × List Reply) → Outcome V
  | .error thrown => ⟨made, it, .error thrown⟩
  | .ok (newContext, elements) => ⟨made, (installPage fetch asserts it newContext elements).1,
      (installPage fetch asserts it newContext elements).2⟩

end

section
variable {V : Type} {intConv : IntConv} {server : Server} {fetch : ValueFetch V} {asserts : Bool}
  {matchPattern : String} {fuel : Nat} {context : Int} {requests made : List Request}

theorem continues_iff {newContext : Int} {elements : List Reply}
    (read : readAnswer intConv server fetch asserts requests = .ok (newContext, elements)) :
    Continues intConv server fetch asserts requests ↔ newContext ≠ 0 ∧ elements = [] := by
  constructor
  · rintro ⟨context, other, empty⟩
    obtain ⟨rfl, rfl⟩ := Prod.mk.inj (Except.ok.inj (read.symm.trans empty))
    exact ⟨other, rfl⟩
  · rintro ⟨other, rfl⟩
    exact ⟨newContext, other, read⟩

theorem not_continues {thrown : Exception}
    (threw : readAnswer intConv server fetch asserts requests = .error thrown) :
    ¬ Continues intConv server fetch asserts requests := by
  rintro ⟨context, other, read⟩
  rw [threw] at read
  contradiction

theorem fetchLoop_continues {newContext : Int} (other : newContext ≠ 0)
    (read : readAnswer intConv server fetch asserts
      (requests ++ [request intConv fetch matchPattern context]) = .ok (newContext, []))
    (fuel : Nat) :
    fetchLoop intConv server fetch asserts matchPattern (fuel + 1) context requests =
      fetchLoop intConv server fetch asserts matchPattern fuel newContext
        (requests ++ [request intConv fetch matchPattern context]) := by
  rw [readAnswer] at read
  simp only [fetchLoop, read]
  rw [if_pos ⟨other, trivial⟩]

theorem fetchLoop_stops
    (final : ¬ Continues intConv server fetch asserts
      (requests ++ [request intConv fetch matchPattern context])) (fuel : Nat) :
    fetchLoop intConv server fetch asserts matchPattern (fuel + 1) context requests =
      some (requests ++ [request intConv fetch matchPattern context],
        readAnswer intConv server fetch asserts
          (requests ++ [request intConv fetch matchPattern context])) := by
  cases read : readAnswer intConv server fetch asserts
      (requests ++ [request intConv fetch matchPattern context]) with
  | error thrown =>
    rw [readAnswer] at read
    simp only [fetchLoop, read]
  | ok page =>
    obtain ⟨newContext, elements⟩ := page
    have stop := (continues_iff read).not.mp final
    rw [readAnswer] at read
    simp only [fetchLoop, read, if_neg stop]

/-- The loop ends with the one answer after which it does not go on. -/
theorem fetchLoop_asked {fetched : Except Exception (Int × List Reply)}
    (done : fetchLoop intConv server fetch asserts matchPattern fuel context requests =
      some (made, fetched)) :
    Asked intConv server fetch asserts matchPattern context requests made ∧
      ¬ Continues intConv server fetch asserts made ∧
      readAnswer intConv server fetch asserts made = fetched ∧
      ∀ asked, Asked intConv server fetch asserts matchPattern context requests asked →
        asked = made ∨ Continues intConv server fetch asserts asked := by
  induction fuel generalizing context requests with
  | zero => contradiction
  | succ fuel ih =>
    by_cases more : Continues intConv server fetch asserts
        (requests ++ [request intConv fetch matchPattern context])
    · obtain ⟨newContext, other, read⟩ := more
      rw [fetchLoop_continues other read] at done
      obtain ⟨reached, final, value, only⟩ := ih done
      refine ⟨.next other read reached, final, value, fun asked asks => ?_⟩
      cases asks with
      | first => exact .inr ⟨newContext, other, read⟩
      | next _ same later =>
        obtain ⟨rfl, _⟩ := Prod.mk.inj (Except.ok.inj (same.symm.trans read))
        exact only asked later
    · rw [fetchLoop_stops more, Option.some.injEq, Prod.mk.injEq] at done
      obtain ⟨rfl, value⟩ := done
      refine ⟨.first, more, value, fun asked asks => ?_⟩
      cases asks with
      | first => exact .inl rfl
      | next other same => exact absurd ⟨_, other, same⟩ more

/-- With an answer after which it does not go on the loop returns. -/
theorem fetchLoop_returns {asked : List Request}
    (asks : Asked intConv server fetch asserts matchPattern context requests asked)
    (final : ¬ Continues intConv server fetch asserts asked) :
    ∃ fuel ended,
      fetchLoop intConv server fetch asserts matchPattern fuel context requests = some ended := by
  induction asks with
  | first => exact ⟨1, _, fetchLoop_stops final 0⟩
  | next other read _ ih =>
    obtain ⟨fuel, ended, returns⟩ := ih final
    exact ⟨fuel + 1, ended, by rw [fetchLoop_continues other read, returns]⟩

/-- More passes than it needs change nothing. -/
theorem fetchLoop_mono {ended : List Request × Except Exception (Int × List Reply)} {more : Nat}
    (le : fuel ≤ more)
    (done : fetchLoop intConv server fetch asserts matchPattern fuel context requests = some ended) :
    fetchLoop intConv server fetch asserts matchPattern more context requests = some ended := by
  induction fuel generalizing more context requests with
  | zero => contradiction
  | succ fuel ih =>
    obtain ⟨more, rfl⟩ : ∃ left, more = left + 1 := ⟨more - 1, by omega⟩
    by_cases onward : Continues intConv server fetch asserts
        (requests ++ [request intConv fetch matchPattern context])
    · obtain ⟨newContext, other, read⟩ := onward
      rw [fetchLoop_continues other read] at done ⊢
      exact ih (by omega) done
    · rw [fetchLoop_stops onward] at done ⊢
      exact done

variable {it : ScanIterator V} {outcome : Outcome V}

/-! The three branches of `increment()`. -/

theorem increment_inside (going : cassert asserts (it.isEnd = false) = .ok ())
    (inside : it.currIndex + 1 < it.reply.length) :
    increment intConv server fetch asserts fuel requests it =
      some ⟨requests, { it with currIndex := it.currIndex + 1 }, .ok ()⟩ := by
  simp only [increment, going, if_pos inside]

theorem increment_ends (going : cassert asserts (it.isEnd = false) = .ok ())
    (last : it.currIndex + 1 = it.reply.length) (final : it.scanContext = 0) :
    increment intConv server fetch asserts fuel requests it =
      some ⟨requests, { it with reply := [], currIndex := 0 }, .ok ()⟩ := by
  have outside : ¬ it.currIndex + 1 < it.reply.length := by omega
  simp only [increment, going, if_neg outside]
  rw [if_pos ⟨last, final⟩]

theorem increment_loops (going : cassert asserts (it.isEnd = false) = .ok ())
    (fetches : Fetches it) :
    increment intConv server fetch asserts fuel requests it =
      (fetchLoop intConv server fetch asserts it.matchPattern fuel it.scanContext requests).map
        fun loop => ending fetch asserts it loop.1 loop.2 := by
  simp only [increment, going, if_neg fetches.1, if_neg fetches.2]
  rfl

/-- A call whose assertion holds goes on within its page, ends the scan, or fetches: it reads a
page that it installs, or throws. -/
theorem increment_cases (going : cassert asserts (it.isEnd = false) = .ok ())
    (called : increment intConv server fetch asserts fuel requests it = some outcome) :
    it.currIndex + 1 < it.reply.length ∧
        outcome = ⟨requests, { it with currIndex := it.currIndex + 1 }, .ok ()⟩ ∨
    it.currIndex + 1 = it.reply.length ∧ it.scanContext = 0 ∧
        outcome = ⟨requests, { it with reply := [], currIndex := 0 }, .ok ()⟩ ∨
    Fetches it ∧ ∃ made fetched,
      Asked intConv server fetch asserts it.matchPattern it.scanContext requests made ∧
      ¬ Continues intConv server fetch asserts made ∧
      readAnswer intConv server fetch asserts made = fetched ∧
      (∀ asked, Asked intConv server fetch asserts it.matchPattern it.scanContext requests asked →
        asked = made ∨ Continues intConv server fetch asserts asked) ∧
      outcome = ending fetch asserts it made fetched := by
  by_cases inside : it.currIndex + 1 < it.reply.length
  · rw [increment_inside going inside, Option.some.injEq] at called
    exact .inl ⟨inside, called.symm⟩
  by_cases final : it.currIndex + 1 = it.reply.length ∧ it.scanContext = 0
  · rw [increment_ends going final.1 final.2, Option.some.injEq] at called
    exact .inr (.inl ⟨final.1, final.2, called.symm⟩)
  rw [increment_loops going ⟨inside, final⟩] at called
  obtain ⟨⟨made, fetched⟩, loop, rfl⟩ := Option.map_eq_some_iff.mp called
  exact .inr (.inr ⟨⟨inside, final⟩, made, fetched, by simpa [and_assoc] using fetchLoop_asked loop⟩)

/-- A call returns unless all its answers are empty pages with another cursor. -/
theorem increment_returns
    (final : Fetches it → ∃ asked,
      Asked intConv server fetch asserts it.matchPattern it.scanContext requests asked ∧
      ¬ Continues intConv server fetch asserts asked) :
    ∃ outcome, Returns intConv server fetch asserts requests it outcome := by
  cases going : cassert asserts (it.isEnd = false) with
  | error failed => exact ⟨_, 0, fun fuel _ => by simp only [increment, going]; rfl⟩
  | ok =>
    by_cases inside : it.currIndex + 1 < it.reply.length
    · exact ⟨_, 0, fun fuel _ => increment_inside going inside⟩
    by_cases last : it.currIndex + 1 = it.reply.length ∧ it.scanContext = 0
    · exact ⟨_, 0, fun fuel _ => increment_ends going last.1 last.2⟩
    obtain ⟨asked, asks, stops⟩ := final ⟨inside, last⟩
    obtain ⟨enough, ended, loop⟩ := fetchLoop_returns asks stops
    refine ⟨ending fetch asserts it ended.1 ended.2, enough, fun fuel le => ?_⟩
    rw [increment_loops going ⟨inside, last⟩, fetchLoop_mono le loop, Option.map_some]

end

end Incredis.Scan
