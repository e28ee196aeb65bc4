import Incredis.Errors

/-! `Command::run` as its callers see it: requests of one string an argument, and
a server that answers each on the ground of everything asked so far. -/
namespace Incredis

abbrev Request := List String

/-- What the server answers to the last of the requests, in the order they came. -/
abbrev Server := List Request → Option RedisReply

/-- A batch of one command, whose only slot is returned unless it holds an error. -/
def commandRun (parReply : Option RedisReply) : Except Exception Reply := do
  throwIfFailed [decoded parReply]
  return decoded parReply

/-- It throws what `throw_if_failed` does, or returns the reply. -/
theorem commandRun_thrown {parReply : Option RedisReply} {thrown : Exception}
    (failed : commandRun parReply = .error thrown) : ∃ what, thrown = .runtimeError what := by
  rw [commandRun] at failed
  cases checked : throwIfFailed [decoded parReply] with
  | error what =>
    rw [checked] at failed
    obtain rfl := Except.error.inj failed
    exact throwIfFailed_error checked
  | ok =>
    rw [checked] at failed
    contradiction

theorem commandRun_error (str : String) :
    ∃ thrown, commandRun (some (.error str)) = .error thrown := by
  cases ran : throwIfFailed [decoded (some (.error str))] with
  | error thrown => exact ⟨thrown, by rw [commandRun, ran]; rfl⟩
  | ok =>
    have clean := (throwIfFailed_ok_iff _).mp ran
    contradiction

end Incredis
