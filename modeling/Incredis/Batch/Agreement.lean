import Incredis.Batch.Pipeline

/-! The same requests as one batch and as calls of `Command::run`, one after the
other. The batch saves the round trips and gives the same replies, unless a request
fails: the calls end there, but the batch has sent everything that follows. -/
namespace Incredis.Batch
open Sequential
variable {B : Type} [DecidableEq B] {limit : Int}

/-- What a batch of requests gets from a server that has been `asked` before. -/
def batchReplies (server : Server) (asked requests : List Request) : List Reply :=
  (answers (fun more => server (asked ++ more)) requests).map decoded

/-- What `throw_if_failed` and `replies` make of it. -/
def batchRun (server : Server) (asked requests : List Request) : Except Exception (List Reply) :=
  (throwIfFailed (batchReplies server asked requests)).map fun _ =>
    batchReplies server asked requests

/-- Synchronous calls up to the first that throws, with all that the server has been
asked then. -/
def runEach (server : Server) (asked : List Request) :
    List Request → List Request × Except Exception (List Reply)
  | [] => (asked, .ok [])
  | request :: rest =>
    match commandRun (server (asked ++ [request])) with
    | .error thrown => (asked ++ [request], .error thrown)
    | .ok reply =>
      let next := runEach server (asked ++ [request]) rest
      (next.1, next.2.map fun replies => reply :: replies)

section Pure
variable {server : Server} {asked requests : List Request}

theorem commandRun_ok_iff {parReply : Option RedisReply} {reply : Reply} :
    commandRun parReply = .ok reply ↔ (decoded parReply).errors = [] ∧ decoded parReply = reply := by
  have clean := throwIfFailed_ok_iff [decoded parReply]
  simp only [Reply.errorsIn, List.append_nil] at clean
  rw [commandRun, ← clean]
  cases throwIfFailed [decoded parReply] with
  | ok => simp [bind, Except.bind, pure, Except.pure]
  | error => simp [bind, Except.bind]

theorem commandRun_failed {parReply : Option RedisReply} {thrown : Exception}
    (failed : commandRun parReply = .error thrown) : (decoded parReply).errors ≠ [] := by
  intro clean
  have := commandRun_ok_iff.mpr ⟨clean, rfl⟩
  rw [failed] at this
  contradiction

theorem batchRun_ok_iff {replies : List Reply} :
    batchRun server asked requests = .ok replies ↔
      Reply.errorsIn (batchReplies server asked requests) = [] ∧
        batchReplies server asked requests = replies := by
  rw [batchRun, ← throwIfFailed_ok_iff]
  cases throwIfFailed (batchReplies server asked requests) <;> simp [Except.map]

theorem batchReplies_cons (server : Server) (asked : List Request) (request : Request)
    (rest : List Request) :
    batchReplies server asked (request :: rest) =
      decoded (server (asked ++ [request])) ::
        batchReplies server (asked ++ [request]) rest := by
  simp [batchReplies, answers]

/-- A call that throws does so for the first failing reply of the batch. -/
theorem runEach_error {thrown : Exception} {sent : List Request}
    (failed : runEach server asked requests = (sent, .error thrown)) :
    (∃ more, sent = asked ++ more ∧ more <+: requests) ∧
      commandRun (server sent) = .error thrown ∧
      (decoded (server sent)).errors <+: Reply.errorsIn (batchReplies server asked requests) := by
  induction requests generalizing asked with
  | nil => simp [runEach] at failed
  | cons request rest ih =>
    rw [runEach] at failed
    rw [batchReplies_cons, Reply.errorsIn]
    cases ran : commandRun (server (asked ++ [request])) with
    | error first =>
      rw [ran] at failed
      cases failed
      exact ⟨⟨[request], rfl, by simp⟩, ran, List.prefix_append _ _⟩
    | ok reply =>
      rw [ran] at failed
      obtain ⟨clean, _⟩ := commandRun_ok_iff.mp ran
      cases next : runEach server (asked ++ [request]) rest with
      | mk sentNext outcome =>
        rw [next] at failed
        cases outcome with
        | ok => simp [Except.map] at failed
        | error later =>
          simp only [Except.map, Prod.mk.injEq, Except.error.injEq] at failed
          obtain ⟨rfl, rfl⟩ := failed
          obtain ⟨⟨more, rfl, within⟩, thrown, reported⟩ := ih next
          refine ⟨⟨request :: more, by simp, by simpa using within⟩, thrown, ?_⟩
          rwa [clean, List.nil_append]

theorem runEach_sent {replies : List Reply} {sent : List Request}
    (ran : runEach server asked requests = (sent, .ok replies)) : sent = asked ++ requests := by
  induction requests generalizing asked replies with
  | nil =>
    cases ran
    exact (List.append_nil _).symm
  | cons request rest ih =>
    rw [runEach] at ran
    cases first : commandRun (server (asked ++ [request])) with
    | error thrown =>
      rw [first] at ran
      cases ran
    | ok reply =>
      rw [first] at ran
      cases next : runEach server (asked ++ [request]) rest with
      | mk sentNext outcome =>
        rw [next] at ran
        cases outcome with
        | error thrown => simp [Except.map] at ran
        | ok tail =>
          obtain rfl : sentNext = sent := (Prod.mk.inj ran).1
          simpa using ih next

/-- Where nothing fails, everything has been asked and the replies are those of the
batch. -/
theorem runEach_ok_iff {replies : List Reply} :
    runEach server asked requests = (asked ++ requests, .ok replies) ↔
      batchRun server asked requests = .ok replies := by
  rw [batchRun_ok_iff]
  induction requests generalizing asked replies with
  | nil => simp [runEach, batchReplies, answers, Reply.errorsIn]
  | cons request rest ih =>
    have onwards := @ih (asked ++ [request])
    rw [List.append_assoc, List.singleton_append] at onwards
    rw [runEach, batchReplies_cons, Reply.errorsIn]
    cases ran : commandRun (server (asked ++ [request])) with
    | error thrown =>
      have failing := commandRun_failed ran
      simp [failing]
    | ok reply =>
      obtain ⟨clean, rfl⟩ := commandRun_ok_iff.mp ran
      rw [clean, List.nil_append]
      cases next : runEach server (asked ++ [request]) rest with
      | mk sent outcome =>
        cases outcome with
        | error thrown =>
          obtain ⟨_, failed, reported⟩ := runEach_error next
          have failing := commandRun_failed failed
          constructor
          · intro same
            simp [Except.map] at same
          · rintro ⟨none, _⟩
            rw [none] at reported
            exact absurd (List.prefix_nil.mp reported) failing
        | ok tail =>
          obtain rfl : sent = asked ++ request :: rest := by simpa using runEach_sent next
          obtain ⟨none, tailEq⟩ := onwards.mp next
          rw [tailEq] at none ⊢
          simp [none, Except.map]

end Pure

section Uninterrupted
variable {server : Server} {s : State B × List (B × Request)} {b : B}
  {before after : List (B × Request)} {requests : List Request}

theorem uninterrupted_requests
    (log : s.2 = before ++ requests.map (fun request => (b, request)) ++ after)
    (first : requestsOf before b = []) (last : requestsOf after b = []) :
    requestsOf s.2 b = requests := by
  rw [log, requestsOf_append, requestsOf_append, first, last, requestsOf_alone]
  simp

theorem uninterrupted_replies
    (run : Transition.Reaches (pipeline B limit) (Served server) s)
    (returning : (s.1.part b).client = .returning .replies)
    (log : s.2 = before ++ requests.map (fun request => (b, request)) ++ after)
    (first : requestsOf before b = []) (last : requestsOf after b = []) :
    (s.1.part b).replies.range.elements = batchReplies server (before.map Prod.snd) requests := by
  rw [returned_answers run returning, log, answersOf_append, answersOf_append,
    answersOf_eq_nil first, answersOf_eq_nil last, answersOf_alone]
  simp [batchReplies]

end Uninterrupted

/-- A batch that no other command interrupts, and the same requests as synchronous calls:
both succeed with the same replies, or both throw. The calls then end with the first
request that fails, whose errors the batch reports before all others. -/
theorem pipelined_as_synchronous (server : Server) {s : State B × List (B × Request)} {b : B}
    (run : Transition.Reaches (pipeline B limit) (Served server) s)
    (returning : (s.1.part b).client = .returning .replies)
    {before after : List (B × Request)} {requests : List Request}
    (log : s.2 = before ++ requests.map (fun request => (b, request)) ++ after)
    (first : requestsOf before b = []) (last : requestsOf after b = []) :
    (s.1.part b).commands.map Cmd.argv = requests ∧
    (∀ replies, runEach server (before.map Prod.snd) requests =
        (before.map Prod.snd ++ requests, .ok replies) ↔
      throwIfFailed (s.1.part b).replies.range.elements = .ok () ∧
        (s.1.part b).replies.range.elements = replies) ∧
    ∀ sent thrown, runEach server (before.map Prod.snd) requests = (sent, .error thrown) →
      (∃ more, sent = before.map Prod.snd ++ more ∧ more <+: requests) ∧
      commandRun (server sent) = .error thrown ∧
      (∃ what, throwIfFailed (s.1.part b).replies.range.elements = .error (.runtimeError what)) ∧
      (decoded (server sent)).errors <+: Reply.errorsIn (s.1.part b).replies.range.elements := by
  rw [uninterrupted_replies run returning log first last]
  refine ⟨?_, fun replies => ?_, fun sent thrown failed => ?_⟩
  · rw [← returned_sent run returning, uninterrupted_requests log first last]
  · rw [runEach_ok_iff, batchRun_ok_iff, throwIfFailed_ok_iff]
  · obtain ⟨within, single, reported⟩ := runEach_error failed
    refine ⟨within, single, ?_, reported⟩
    have failing := commandRun_failed single
    cases thrownBy : throwIfFailed (batchReplies server (before.map Prod.snd) requests) with
    | ok =>
      rw [(throwIfFailed_ok_iff _).mp thrownBy] at reported
      exact absurd (List.prefix_nil.mp reported) failing
    | error what =>
      obtain ⟨text, rfl⟩ := throwIfFailed_error thrownBy
      exact ⟨text, rfl⟩

/-! What a batch does when nothing is in its way: its commands get through to hiredis one by one, and
are called back in any order. -/

section Progress
variable {server : Server} {s : State B × List (B × Request)} {b : B} {a : Action} {p next : Int}
  {part : B → LocalData} {d after : LocalData} {log : List (B × Request)} {slots replies : ReplyList}
  {count : Int} {commands : List Cmd} {client : Client} {argv : Request} {replyPtr : ReplyPtr}

/-- A step of the batch that has made the last one. -/
theorem step_again
    (run : Transition.Reaches (pipeline B limit) (Served server) (⟨p, Function.update part b d⟩, log))
    (moved : step limit p d a = some (next, after)) (served : Obeys (answerTo server log b) d a) :
    Transition.Reaches (pipeline B limit) (Served server)
      (⟨next, Function.update part b after⟩, log ++ ((d.handedOver a).map (b, ·)).toList) := by
  refine run.next (a := (b, a)) ?_ (Transition.logging_step.mpr
    ⟨_, Family.step_eq_some.mpr ⟨next, after, ?_, rfl⟩, ?_⟩)
  · simpa only [Served, Function.update_self] using served
  · simpa only [Function.update_self] using moved
  · simp only [Function.update_idem, sent, Function.update_self]

/-- A call of `run()` that gets through to hiredis. -/
theorem hand_over
    (run : Transition.Reaches (pipeline B limit) (Served server) (⟨p, part⟩, log)) (b : B)
    (argv : Request) (here : part b = ⟨slots, count, commands, .idle⟩)
    (quiet : (commands.any fun cmd => cmd.phase.inRun) = false) (room : p < limit)
    (added : slots.add = some (replies, replyPtr)) :
    Transition.Reaches (pipeline B limit) (Served server) (⟨p + 1, Function.update part b
      ⟨replies, count + 1, commands ++ [⟨argv, .inFlight, some replyPtr, none⟩], .idle⟩⟩,
      log ++ [(b, argv)]) := by
  rw [← Function.update_eq_self b part, here] at run
  let last (slots : ReplyList) (phase : Phase) (replyPtr : Option ReplyPtr) : LocalData :=
    ⟨slots, count + 1, commands ++ [⟨argv, phase, replyPtr, none⟩], .idle⟩
  have counts : step limit p (last slots .entered none) (.count commands.length) =
      some (p + 1, last slots .admitted none) := by
    simp [last, step, LocalData.commandAt, Option.filter, LocalData.put, Int.not_le.mpr room]
  have adds : step limit (p + 1) (last slots .admitted none) (.add commands.length) =
      some (p + 1, last replies .slotted (some replyPtr)) := by
    simp [last, step, LocalData.commandAt, Option.filter, LocalData.put, added]
  have submits : step limit (p + 1) (last replies .slotted (some replyPtr))
      (.submit commands.length true) = some (p + 1, last replies .inFlight (some replyPtr)) := by
    simp [last, step, LocalData.commandAt, Option.filter, LocalData.put]
  have started := step_again run (a := .run argv) rfl ⟨rfl, quiet⟩
  have counted := step_again started counts trivial
  have taken := step_again (step_again counted adds trivial) submits rfl
  simpa [LocalData.handedOver, last] using taken

/-- hiredis calls back with the answer of the server. -/
theorem call_back
    (run : Transition.Reaches (pipeline B limit) (Served server) (⟨p, part⟩, log)) (b : B) (k : Nat)
    {raw : RedisReply} (here : part b = ⟨slots, count, commands, client⟩)
    (found : commands[k]? = some ⟨argv, .inFlight, some replyPtr, none⟩)
    (answered : answerTo server log b k = some raw) (below : p ≠ limit) :
    Transition.Reaches (pipeline B limit) (Served server) (⟨p - 1, Function.update part b
      ⟨slots.write replyPtr (makeRedisReplyType raw), count - 1, commands.set k
        ⟨argv, if count = 1 then .notifyDone else .finished, some replyPtr, some (some raw)⟩,
        client⟩⟩, log) := by
  rw [← Function.update_eq_self b part, here] at run
  obtain ⟨bound, _⟩ := List.getElem?_eq_some_iff.mp found
  have calls : step limit p ⟨slots, count, commands, client⟩ (.callback k (some raw)) =
      some (p - 1, ⟨slots, count, commands.set k ⟨argv, .storing, some replyPtr, some (some raw)⟩,
        client⟩) := by
    simp [step, LocalData.commandAt, Option.filter, LocalData.put, found, below]
  have stores : step limit (p - 1) ⟨slots, count, commands.set k
      ⟨argv, .storing, some replyPtr, some (some raw)⟩, client⟩ (.store k) =
        some (p - 1, ⟨slots.write replyPtr (makeRedisReplyType raw), count, commands.set k
          ⟨argv, .releasing, some replyPtr, some (some raw)⟩, client⟩) := by
    simp [step, LocalData.commandAt, Option.filter, LocalData.put, LocalData.storeReply, bound]
  have releases : step limit (p - 1) ⟨slots.write replyPtr (makeRedisReplyType raw), count,
      commands.set k ⟨argv, .releasing, some replyPtr, some (some raw)⟩, client⟩ (.release k) =
        some (p - 1, ⟨slots.write replyPtr (makeRedisReplyType raw), count - 1, commands.set k
          ⟨argv, if count = 1 then .notifyDone else .finished, some replyPtr, some (some raw)⟩,
          client⟩) := by
    simp [step, LocalData.commandAt, Option.filter, LocalData.put, bound]
  have called := step_again run calls answered.symm
  have released := step_again (step_again called stores trivial) releases trivial
  simpa [LocalData.handedOver] using released

end Progress

/-- Three commands of a batch between two commands of another one, answered in the opposite
order. -/
theorem batch_of_three {server : Server} {one two three : Request} {first second third : RedisReply}
    (answersOne : server [["INCR", "a"], one] = some first)
    (answersTwo : server [["INCR", "a"], one, two] = some second)
    (answersThree : server [["INCR", "a"], one, two, three] = some third) :
    ∃ s : State Bool × List (Bool × Request),
      Transition.Reaches (pipeline Bool maxRedisUnansweredCommands) (Served server) s ∧
      (s.1.part false).client = .returning .replies ∧
      s.2 = [(true, ["INCR", "a"]), (false, one), (false, two), (false, three),
        (true, ["INCR", "c"])] := by
  have before := hand_over
    (Transition.initially (pipeline Bool maxRedisUnansweredCommands) (Served server)) true ["INCR", "a"] rfl rfl (by decide) rfl
  have sentOne := hand_over before false one rfl rfl (by decide) rfl
  have sentTwo := hand_over sentOne false two rfl rfl (by decide) rfl
  have sentThree := hand_over sentTwo false three rfl rfl (by decide) rfl
  have sentAll := hand_over sentThree true ["INCR", "c"] rfl rfl (by decide) rfl
  have backThree := call_back sentAll false 2 rfl rfl answersThree (by decide)
  have backTwo := call_back backThree false 1 rfl rfl answersTwo (by decide)
  have backOne := call_back backTwo false 0 rfl rfl answersOne (by decide)
  have run := backOne.next (a := (false, .enter .replies)) (by exact ⟨rfl, by decide⟩) rfl
  exact ⟨_, run, rfl, rfl⟩

/-- A server with a string where a hash is asked for; it counts everything else. -/
abbrev countingStrings : Server := fun log =>
  if log.getLast? = some ["HGET", "n", "f"] then
    some (.error "WRONGTYPE Operation against a key holding the wrong kind of value")
  else some (.integer log.length)

/-- The second of three commands fails: the calls end there, and the batch throws as well. -/
theorem pipelined_as_synchronous_counting :
    ∃ (s : State Bool × List (Bool × Request)) (thrown : Exception) (what : String),
      (s.1.part false).commands.map Cmd.argv =
        [["INCR", "n"], ["HGET", "n", "f"], ["INCR", "n"]] ∧
      runEach countingStrings [["INCR", "a"]] [["INCR", "n"], ["HGET", "n", "f"], ["INCR", "n"]] =
        ([["INCR", "a"], ["INCR", "n"], ["HGET", "n", "f"]], .error thrown) ∧
      throwIfFailed (s.1.part false).replies.range.elements = .error (.runtimeError what) := by
  obtain ⟨s, run, returning, log⟩ := @batch_of_three countingStrings ["INCR", "n"]
    ["HGET", "n", "f"] ["INCR", "n"] _ _ _ rfl rfl rfl
  have between : s.2 = [(true, ["INCR", "a"])] ++
      [["INCR", "n"], ["HGET", "n", "f"], ["INCR", "n"]].map (fun request => (false, request)) ++
        [(true, ["INCR", "c"])] := log
  obtain ⟨argvs, _, fails⟩ :=
    pipelined_as_synchronous countingStrings run returning between rfl rfl
  have failed : ∃ thrown, runEach countingStrings [["INCR", "a"]]
      [["INCR", "n"], ["HGET", "n", "f"], ["INCR", "n"]] =
        ([["INCR", "a"], ["INCR", "n"], ["HGET", "n", "f"]], .error thrown) := ⟨_, rfl⟩
  obtain ⟨thrown, failed⟩ := failed
  obtain ⟨_, _, ⟨what, threw⟩, _⟩ := fails _ thrown failed
  exact ⟨s, thrown, what, argvs, failed, threw⟩

end Incredis.Batch
