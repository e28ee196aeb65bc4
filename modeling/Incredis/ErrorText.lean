import Incredis.Errors

/-! What the search for errors writes. The count that is passed down and the count that
is added up meet in one place: how many messages there is still room for. -/
namespace Incredis

/-- Some node of the reply is an error. -/
inductive RedisReply.HasError : RedisReply → Prop
  | error (str : String) : HasError (.error str)
  | array {element : List RedisReply} {rep : RedisReply} (member : rep ∈ element)
    (inside : HasError rep) : HasError (.array element)

/-- One message as it is written. -/
def quoted (message : String) : String := "\"" ++ message ++ "\" "

def report : List String → String
  | [] => ""
  | message :: rest => quoted message ++ report rest

/-- The messages that are reported when `seen` errors have been counted before. -/
def reported (maxReportedErrors seen : Int) (messages : List String) : List String :=
  messages.take (maxReportedErrors - seen).toNat

theorem report_append (first second : List String) :
    report (first ++ second) = report first ++ report second := by
  induction first with
  | nil => simp [report]
  | cons message rest ih => simp only [List.cons_append, report, ih, String.append_assoc]

theorem reported_append (maxReportedErrors seen : Int) (first second : List String) :
    reported maxReportedErrors seen (first ++ second) =
      reported maxReportedErrors seen first ++
        reported maxReportedErrors (seen + first.length) second := by
  have room : (maxReportedErrors - (seen + first.length)).toNat =
      (maxReportedErrors - seen).toNat - first.length := by omega
  simp only [reported, List.take_append, room]

theorem reported_singleton (maxReportedErrors seen : Int) (message : String) :
    reported maxReportedErrors seen [message] =
      if seen + 1 ≤ maxReportedErrors then [message] else [] := by
  unfold reported
  split
  · apply List.take_of_length_le
    simp only [List.length_singleton]
    omega
  · have full : (maxReportedErrors - seen).toNat = 0 := by omega
    rw [full, List.take_zero]

/-- What has been seen are the errors before this array and those found in it so far. -/
theorem arrayThrowIfFailedLoop_eq (maxReportedErrors : Int) (replies : List Reply) :
    ∀ errCount found, arrayThrowIfFailedLoop errCount maxReportedErrors found replies =
      (found.1 + (Reply.errorsIn replies).length, found.2 ++
        report (reported maxReportedErrors (found.1 + errCount) (Reply.errorsIn replies))) := by
  refine Reply.rec_1
    (motive_1 := fun rep => ∀ errCount found,
      arrayThrowIfFailedItem errCount maxReportedErrors found rep =
        (found.1 + rep.errors.length,
          found.2 ++ report (reported maxReportedErrors (found.1 + errCount) rep.errors)))
    (motive_2 := fun replies => ∀ errCount found,
      arrayThrowIfFailedLoop errCount maxReportedErrors found replies =
        (found.1 + (Reply.errorsIn replies).length, found.2 ++
          report (reported maxReportedErrors (found.1 + errCount) (Reply.errorsIn replies))))
    ?_ ?_ ?_ ?_ ?_ ?_ ?_ ?_ replies
  · intro _ errCount found
    simp [arrayThrowIfFailedItem, Reply.errors, reported, report]
  · intro _ errCount found
    simp [arrayThrowIfFailedItem, Reply.errors, reported, report]
  · intro value ih errCount found
    simp only [arrayThrowIfFailedItem, Reply.errors, ih, Int.zero_add]
  · intro message errCount found
    have order : found.1 + errCount + 1 = found.1 + 1 + errCount := by omega
    simp only [arrayThrowIfFailedItem, Reply.errors, reported_singleton, order]
    split <;> simp [report, quoted]
  · intro _ errCount found
    simp [arrayThrowIfFailedItem, Reply.errors, reported, report]
  · intro errCount found
    simp [arrayThrowIfFailedItem, Reply.errors, reported, report]
  · intro errCount found
    simp [arrayThrowIfFailedLoop, Reply.errorsIn, reported, report]
  · intro head rest headEq restEq errCount found
    have seen : found.1 + head.errors.length + errCount =
        found.1 + errCount + head.errors.length := by omega
    simp only [arrayThrowIfFailedLoop, headEq, restEq, Reply.errorsIn, reported_append,
      report_append, seen, List.length_append, String.append_assoc]
    rw [Int.natCast_add, Int.add_assoc]

theorem errorsIn_decoded (raws : List RedisReply) :
    Reply.errorsIn (raws.map makeRedisReplyType) = RedisReply.errorsIn raws := by
  induction raws with
  | nil => rfl
  | cons raw rest ih =>
    simp only [List.map_cons, Reply.errorsIn, RedisReply.errorsIn, ih, makeRedisReplyType_errors]

theorem errorsIn_ne_nil {raws : List RedisReply} :
    RedisReply.errorsIn raws ≠ [] ↔ ∃ raw ∈ raws, raw.errors ≠ [] := by
  induction raws with
  | nil => simp [RedisReply.errorsIn]
  | cons raw rest ih =>
    simp only [RedisReply.errorsIn, ne_eq, List.append_eq_nil_iff, List.mem_cons,
      exists_eq_or_imp, Classical.not_and_iff_not_or_not] at ih ⊢
    rw [ih]

theorem errors_ne_nil (raw : RedisReply) : raw.errors ≠ [] ↔ raw.HasError := by
  constructor
  · refine RedisReply.rec (motive_1 := fun raw => raw.errors ≠ [] → raw.HasError)
      (motive_2 := fun element => ∀ rep ∈ element, rep.errors ≠ [] → rep.HasError)
      ?_ ?_ ?_ ?_ ?_ ?_ ?_ ?_ ?_ raw
    · intro _ some; exact absurd rfl some
    · intro _ some; exact absurd rfl some
    · intro element ih some
      obtain ⟨rep, member, inside⟩ := errorsIn_ne_nil.mp some
      exact .array member (ih rep member inside)
    · intro str _; exact .error str
    · intro _ some; exact absurd rfl some
    · intro some; exact absurd rfl some
    · intro _ some; exact absurd rfl some
    · intro rep member; contradiction
    · intro head rest headEq restEq rep member
      rcases List.mem_cons.mp member with rfl | later
      · exact headEq
      · exact restEq rep later
  · intro has
    induction has with
    | error str => exact List.cons_ne_nil _ _
    | array member _ ih => exact errorsIn_ne_nil.mpr ⟨_, member, ih⟩

theorem arrayThrowIfFailed_decoded (raws : List RedisReply) (maxReportedErrors : Int)
    (stream : String) :
    arrayThrowIfFailed 0 maxReportedErrors (raws.map makeRedisReplyType) stream =
      (((RedisReply.errorsIn raws).length : Int),
        stream ++ report ((RedisReply.errorsIn raws).take maxReportedErrors.toNat)) := by
  simp only [arrayThrowIfFailed, arrayThrowIfFailedLoop_eq, errorsIn_decoded, reported,
    Int.zero_add, Int.add_zero, Int.sub_zero]

/-- How the text of the exception for a batch with some errors ends. -/
def showing (errCount replyCount : Nat) : String :=
  " (showing " ++ toString (errCount : Int) ++ "/" ++ toString (3 : Int) ++ " errors on " ++
    toString replyCount ++ " total replies)"

def errorText (messages : List String) (replyCount : Nat) : String :=
  "Error in reply: " ++ report (messages.take 3) ++ showing messages.length replyCount

theorem throwIfFailed_text {raws : List RedisReply} (failed : RedisReply.errorsIn raws ≠ []) :
    throwIfFailed (raws.map makeRedisReplyType) =
      .error (.runtimeError (errorText (RedisReply.errorsIn raws) raws.length)) := by
  have counted : ((RedisReply.errorsIn raws).length : Int) ≠ 0 := by
    have := List.length_pos_iff.mpr failed
    omega
  have three : (3 : Int).toNat = 3 := rfl
  simp only [throwIfFailed, arrayThrowIfFailed_decoded, three, List.length_map]
  rw [if_pos counted]
  delta errorText showing
  simp only [String.append_assoc]

/-- The message of the first error is the first to be reported. -/
theorem errorText_cons (first : String) (rest : List String) (replyCount : Nat) :
    ∃ tail, errorText (first :: rest) replyCount = "Error in reply: " ++ quoted first ++ tail := by
  refine ⟨report (rest.take 2) ++ showing (first :: rest).length replyCount, ?_⟩
  delta errorText
  rw [List.take_succ_cons, report]
  simp only [String.append_assoc]

/-- The count is exact, the text is that of the first errors, and a batch fails if there
is an error anywhere in what hiredis gave it. -/
theorem errors_found_exactly (raws : List RedisReply) (maxReportedErrors : Int) (stream : String) :
    arrayThrowIfFailed 0 maxReportedErrors (raws.map makeRedisReplyType) stream =
        (((RedisReply.errorsIn raws).length : Int),
          stream ++ report ((RedisReply.errorsIn raws).take maxReportedErrors.toNat)) ∧
      ((∃ thrown, throwIfFailed (raws.map makeRedisReplyType) = .error thrown) ↔
        ∃ raw ∈ raws, raw.HasError) := by
  constructor
  · exact arrayThrowIfFailed_decoded raws maxReportedErrors stream
  · have passes := throwIfFailed_ok_iff (raws.map makeRedisReplyType)
    rw [errorsIn_decoded] at passes
    simp only [← errors_ne_nil, ← errorsIn_ne_nil, ne_eq, ← passes]
    cases throwIfFailed (raws.map makeRedisReplyType) with
    | ok => simp
    | error thrown => simp

example : arrayThrowIfFailed 0 2 (List.map makeRedisReplyType
    [.array [.error "a", .array [.error "b"]], .nil, .error "c"]) "" = (3, "\"a\" \"b\" ") := by
  decide

end Incredis
