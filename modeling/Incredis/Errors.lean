import Incredis.Reply

/-! The search for error replies at any depth, and the exception made of what
it finds. -/
namespace Incredis

mutual
/-- The body of the loop over the replies: the number of errors found so far
in this array and the stream, after looking at one more reply. `errCount` is
the number of errors found before this array. -/
def arrayThrowIfFailedItem (errCount maxReportedErrors : Int) (found : Int × String) :
    Reply → Int × String
  | .error message =>
    (found.1 + 1,
      if found.1 + 1 + errCount ≤ maxReportedErrors then found.2 ++ ("\"" ++ message ++ "\" ")
      else found.2)
  | .array value =>
    let nested := arrayThrowIfFailedLoop (found.1 + errCount) maxReportedErrors (0, found.2) value
    (found.1 + nested.1, nested.2)
  | _ => found

def arrayThrowIfFailedLoop (errCount maxReportedErrors : Int) (found : Int × String) :
    List Reply → Int × String
  | [] => found
  | rep :: rest =>
    arrayThrowIfFailedLoop errCount maxReportedErrors
      (arrayThrowIfFailedItem errCount maxReportedErrors found rep) rest
end

def arrayThrowIfFailed (errCount maxReportedErrors : Int) (replies : List Reply)
    (stream : String) : Int × String :=
  arrayThrowIfFailedLoop errCount maxReportedErrors (0, stream) replies

/-- `Batch::throw_if_failed` once `replies()` has returned. -/
def throwIfFailed (replies : List Reply) : Except Exception Unit :=
  let maxReportedErrors : Int := 3
  let (errCount, stream) := arrayThrowIfFailed 0 maxReportedErrors replies "Error in reply: "
  if errCount ≠ 0 then
    .error (.runtimeError (stream ++ " (showing " ++ toString errCount ++ "/" ++
      toString maxReportedErrors ++ " errors on " ++ toString replies.length ++
      " total replies)"))
  else .ok ()

/-! The messages of all error nodes in left-to-right, depth-first order. -/
mutual
def Reply.errors : Reply → List String
  | .error message => [message]
  | .array value => Reply.errorsIn value
  | _ => []

def Reply.errorsIn : List Reply → List String
  | [] => []
  | rep :: rest => rep.errors ++ Reply.errorsIn rest
end

mutual
def RedisReply.errors : RedisReply → List String
  | .error str => [str]
  | .array element => RedisReply.errorsIn element
  | _ => []

def RedisReply.errorsIn : List RedisReply → List String
  | [] => []
  | rep :: rest => rep.errors ++ RedisReply.errorsIn rest
end

/-- Decoding neither hides nor invents an error. -/
theorem makeRedisReplyType_errors (raw : RedisReply) :
    (makeRedisReplyType raw).errors = raw.errors := by
  refine RedisReply.rec (motive_1 := fun raw => (makeRedisReplyType raw).errors = raw.errors)
    (motive_2 := fun element =>
      Reply.errorsIn (makeRedisReplyTypes element) = RedisReply.errorsIn element)
    ?_ ?_ ?_ ?_ ?_ ?_ ?_ ?_ ?_ raw
  · intro _; rfl
  · intro _; rfl
  · intro element ih
    simpa only [makeRedisReplyType, Reply.errors, RedisReply.errors] using ih
  · intro _; rfl
  · intro _; rfl
  · rfl
  · intro _; rfl
  · rfl
  · intro head rest headEq restEq
    simp only [makeRedisReplyTypes, Reply.errorsIn, RedisReply.errorsIn, headEq, restEq]

/-- The count does not depend on the limit or on what came before. -/
theorem arrayThrowIfFailedLoop_count (maxReportedErrors : Int) (replies : List Reply) :
    ∀ errCount found, (arrayThrowIfFailedLoop errCount maxReportedErrors found replies).1 =
      found.1 + (Reply.errorsIn replies).length := by
  refine Reply.rec_1
    (motive_1 := fun rep => ∀ errCount found,
      (arrayThrowIfFailedItem errCount maxReportedErrors found rep).1 =
        found.1 + rep.errors.length)
    (motive_2 := fun replies => ∀ errCount found,
      (arrayThrowIfFailedLoop errCount maxReportedErrors found replies).1 =
        found.1 + (Reply.errorsIn replies).length)
    ?_ ?_ ?_ ?_ ?_ ?_ ?_ ?_ replies
  · intro _ _ _; simp [arrayThrowIfFailedItem, Reply.errors]
  · intro _ _ _; simp [arrayThrowIfFailedItem, Reply.errors]
  · intro value ih errCount found
    simp [arrayThrowIfFailedItem, Reply.errors, ih]
  · intro _ _ _; simp [arrayThrowIfFailedItem, Reply.errors]
  · intro _ _ _; simp [arrayThrowIfFailedItem, Reply.errors]
  · intro _ _; simp [arrayThrowIfFailedItem, Reply.errors]
  · intro _ _; simp [arrayThrowIfFailedLoop, Reply.errorsIn]
  · intro head rest ih ir errCount found
    simp only [arrayThrowIfFailedLoop, Reply.errorsIn, ir, ih, List.length_append]
    omega

theorem arrayThrowIfFailed_count (errCount maxReportedErrors : Int) (replies : List Reply)
    (stream : String) :
    (arrayThrowIfFailed errCount maxReportedErrors replies stream).1 =
      (Reply.errorsIn replies).length := by
  simp [arrayThrowIfFailed, arrayThrowIfFailedLoop_count]

theorem throwIfFailed_ok_iff (replies : List Reply) :
    throwIfFailed replies = .ok () ↔ Reply.errorsIn replies = [] := by
  have count := arrayThrowIfFailed_count 0 3 replies "Error in reply: "
  cases found : arrayThrowIfFailed 0 3 replies "Error in reply: " with
  | mk errCount stream =>
    rw [found] at count
    simp only [throwIfFailed, found]
    by_cases none : Reply.errorsIn replies = []
    · simp_all
    · have some : errCount ≠ 0 := by
        have := List.length_pos_iff.mpr none
        simp only at count
        omega
      simp [some, none]

/-- The only exception is the `std::runtime_error`. -/
theorem throwIfFailed_error {replies : List Reply} {thrown : Exception}
    (failed : throwIfFailed replies = .error thrown) : ∃ what, thrown = .runtimeError what := by
  simp only [throwIfFailed] at failed
  split at failed
  · cases failed
    exact ⟨_, rfl⟩
  · contradiction

theorem errorsIn_eq_nil_iff (replies : List Reply) :
    Reply.errorsIn replies = [] ↔ ∀ rep ∈ replies, rep.errors = [] := by
  induction replies with
  | nil => simp [Reply.errorsIn]
  | cons head rest ih => simp [Reply.errorsIn, ih]

end Incredis
