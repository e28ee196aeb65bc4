import Incredis.Batch.Order
import Incredis.Command

/-! What `throw_if_failed` makes of a batch in which commands may have been
answered with NULL, as happens to every outstanding command when a connection is
lost or freed. -/
namespace Incredis.Batch
variable {B : Type} [DecidableEq B] {limit : Int}

/-- Success is reported only for commands that were all answered without error,
and an unanswered command is reported by the runtime error. -/
def ReportsFailure (answers : List (Option RedisReply)) (outcome : Except Exception Unit) : Prop :=
  (outcome = .ok () → ∀ answer ∈ answers, ∃ raw, answer = some raw ∧ raw.errors = []) ∧
  (none ∈ answers → ∃ what, outcome = .error (.runtimeError what))

theorem decoded_errors (answer : Option RedisReply) :
    (decoded answer).errors = answer.elim [] RedisReply.errors := by
  cases answer with
  | none => rfl
  | some raw => exact makeRedisReplyType_errors raw

/-- Only real replies can make it throw. -/
theorem throwIfFailed_decoded (answers : List (Option RedisReply)) :
    throwIfFailed (answers.map decoded) = .ok () ↔
      ∀ raw, some raw ∈ answers → raw.errors = [] := by
  rw [throwIfFailed_ok_iff, errorsIn_eq_nil_iff]
  constructor
  · intro clean raw member
    simpa [decoded_errors] using clean _ (List.mem_map_of_mem member)
  · intro clean rep member
    obtain ⟨answer, answered, rfl⟩ := List.mem_map.mp member
    cases answer with
    | none => rfl
    | some raw => simpa [decoded_errors] using clean raw answered

theorem reportsFailure_iff (answers : List (Option RedisReply)) :
    ReportsFailure answers (throwIfFailed (answers.map decoded)) ↔
      none ∉ answers ∨ ∃ raw, some raw ∈ answers ∧ raw.errors ≠ [] := by
  by_cases clean : throwIfFailed (answers.map decoded) = .ok ()
  · have noErrors := (throwIfFailed_decoded answers).mp clean
    rw [clean]
    constructor
    · rintro ⟨_, thrown⟩
      refine .inl fun unanswered => ?_
      obtain ⟨what, same⟩ := thrown unanswered
      contradiction
    · rintro (answered | ⟨raw, member, errors⟩)
      · refine ⟨fun _ answer member => ?_, fun unanswered => absurd unanswered answered⟩
        cases answer with
        | none => exact absurd member answered
        | some raw => exact ⟨raw, rfl, noErrors raw member⟩
      · exact absurd (noErrors raw member) errors
  · obtain ⟨thrown, failed⟩ : ∃ thrown, throwIfFailed (answers.map decoded) = .error thrown := by
      cases outcome : throwIfFailed (answers.map decoded) with
      | ok => exact absurd outcome clean
      | error thrown => exact ⟨thrown, rfl⟩
    have some_error : ∃ raw, some raw ∈ answers ∧ raw.errors ≠ [] := by
      by_contra none_found
      refine clean ((throwIfFailed_decoded answers).mpr fun raw member => ?_)
      by_contra errors
      exact none_found ⟨raw, member, errors⟩
    obtain ⟨what, same⟩ := throwIfFailed_error failed
    exact iff_of_true ⟨fun ok => absurd ok clean, fun _ => ⟨what, by rw [failed, same]⟩⟩
      (.inr some_error)

/-- `Command::run` sees of its batch what `commandRun` is given. -/
theorem commandRun_of_batch {answer : B → Nat → Option RedisReply} {s : State B} {b : B}
    (run : Transition.Reaches (machine B limit) (Answered answer) s)
    (returning : (s.part b).client = .returning .replies)
    (single : (s.part b).commands.length = 1) :
    (s.part b).replies.range.elements = [decoded (answer b 0)] ∧
      (commandRun (answer b 0)).map (fun _ => ()) =
        throwIfFailed (s.part b).replies.range.elements := by
  have elements : (s.part b).replies.range.elements = [decoded (answer b 0)] := by
    rw [returned_range run returning, single]
    rfl
  refine ⟨elements, ?_⟩
  rw [elements, commandRun]
  cases throwIfFailed [decoded (answer b 0)] <;> rfl

/-- A batch that runs one command and waits for it. -/
theorem single_command (parReply : Option RedisReply) : ∃ s : State Unit,
    Transition.Reaches (machine Unit maxRedisUnansweredCommands) (Answered fun _ _ => parReply) s ∧
      (s.part ()).client = .returning .replies ∧ (s.part ()).commands.length = 1 := by
  have handed := (Transition.initially (machine Unit maxRedisUnansweredCommands)
      (Answered fun _ _ => parReply))
    |>.next (a := ((), .run ["GET", "key"])) (by trivial) rfl
    |>.next (a := ((), .count 0)) (by trivial) rfl
    |>.next (a := ((), .add 0)) (by trivial) rfl
    |>.next (a := ((), .submit 0 true)) (by trivial) rfl
    |>.next (a := ((), .callback 0 parReply)) (by rfl) rfl
  -- the write of the slot depends on whether there is a reply
  cases parReply with
  | none =>
    have run := handed
      |>.next (a := ((), .store 0)) (by trivial) rfl
      |>.next (a := ((), .release 0)) (by trivial) rfl
      |>.next (a := ((), .enter .replies)) (by exact ⟨rfl, by decide⟩) rfl
    exact ⟨_, run, rfl, rfl⟩
  | some raw =>
    have run := handed
      |>.next (a := ((), .store 0)) (by trivial) rfl
      |>.next (a := ((), .release 0)) (by trivial) rfl
      |>.next (a := ((), .enter .replies)) (by exact ⟨rfl, by decide⟩) rfl
    exact ⟨_, run, rfl, rfl⟩

/-- Failures are reported as they should be exactly if no command of the batch
was left unanswered, or if another reply of the batch contains an error. -/
theorem throw_if_failed_reports_iff (answer : B → Nat → Option RedisReply) {s : State B} {b : B}
    (run : Transition.Reaches (machine B limit) (Answered answer) s)
    (returning : (s.part b).client = .returning .replies) :
    ReportsFailure ((List.range (s.part b).commands.length).map (answer b))
        (throwIfFailed (s.part b).replies.range.elements) ↔
      (∀ k < (s.part b).commands.length, answer b k ≠ none) ∨
        ∃ k < (s.part b).commands.length, ∃ raw, answer b k = some raw ∧ raw.errors ≠ [] := by
  have elements : (s.part b).replies.range.elements =
      ((List.range (s.part b).commands.length).map (answer b)).map decoded := by
    rw [returned_range run returning, List.map_map]
    rfl
  rw [elements, reportsFailure_iff]
  simp only [List.mem_map, List.mem_range, not_exists, not_and, ne_eq]
  constructor
  · rintro (answered | ⟨raw, ⟨k, bound, given⟩, errors⟩)
    · exact .inl answered
    · exact .inr ⟨k, bound, raw, given, errors⟩
  · rintro (answered | ⟨k, bound, raw, given, errors⟩)
    · exact .inl answered
    · exact .inr ⟨raw, ⟨k, bound, given⟩, errors⟩

/-- An error for the first of two commands; then the connection is lost. -/
def errorThenLost (_ : Unit) (k : Nat) : Option RedisReply :=
  if k = 0 then some (.error "ERR") else none

/-- The command that nobody answered goes unnoticed beside the one that failed. -/
theorem throw_if_failed_reports_error : ∃ s : State Unit,
    (s.part ()).client = .returning .replies ∧ (s.part ()).commands.length = 2 ∧
      ReportsFailure [some (.error "ERR"), none] (throwIfFailed (s.part ()).replies.range.elements) := by
  have run := (Transition.initially (machine Unit maxRedisUnansweredCommands) (Answered errorThenLost))
    |>.next (a := ((), .run ["INCR", "name"])) (by trivial) rfl
    |>.next (a := ((), .count 0)) (by trivial) rfl
    |>.next (a := ((), .add 0)) (by trivial) rfl
    |>.next (a := ((), .submit 0 true)) (by trivial) rfl
    |>.next (a := ((), .run ["GET", "key"])) (by trivial) rfl
    |>.next (a := ((), .count 1)) (by trivial) rfl
    |>.next (a := ((), .add 1)) (by trivial) rfl
    |>.next (a := ((), .submit 1 true)) (by trivial) rfl
    |>.next (a := ((), .callback 0 (some (.error "ERR")))) (by rfl) rfl
    |>.next (a := ((), .store 0)) (by trivial) rfl
    |>.next (a := ((), .release 0)) (by trivial) rfl
    |>.next (a := ((), .callback 1 none)) (by rfl) rfl
    |>.next (a := ((), .store 1)) (by trivial) rfl
    |>.next (a := ((), .release 1)) (by trivial) rfl
    |>.next (a := ((), .enter .replies)) (by exact ⟨rfl, by decide⟩) rfl
  refine ⟨_, rfl, rfl, (throw_if_failed_reports_iff errorThenLost run rfl).mpr (.inr ?_)⟩
  exact ⟨0, by decide, .error "ERR", rfl, by simp [RedisReply.errors]⟩

/-- The connection is lost while the only command of a batch is outstanding. -/
theorem null_reply_unreported :
    ¬ ∀ (answer : Unit → Nat → Option RedisReply) (s : State Unit),
      Transition.Reaches (machine Unit maxRedisUnansweredCommands) (Answered answer) s →
      (s.part ()).client = .returning .replies →
      ReportsFailure ((List.range (s.part ()).commands.length).map (answer ()))
        (throwIfFailed (s.part ()).replies.range.elements) := by
  intro reported
  obtain ⟨s, run, returning, single⟩ := single_command none
  have elements := (commandRun_of_batch run returning single).1
  have reports := reported _ s run returning
  rw [single, elements] at reports
  obtain ⟨what, thrown⟩ := reports.2 (by simp)
  contradiction

end Incredis.Batch
