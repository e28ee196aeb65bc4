import Incredis.Batch.Failure
import Incredis.Sequential

/-! The connection as one pipeline. Whatever the threads do, the batches get the
replies of one sequential execution of all commands, in the order in which
`redisAsyncCommandArgv` was handed them. -/
namespace Incredis.Batch
open Sequential
variable {B : Type} [DecidableEq B] {limit : Int}

/-- hiredis has taken the command. -/
def Phase.accepted : Phase → Bool
  | entered | waiting _ | admitted | slotted | rejected => false
  | _ => true

def LocalData.handedOver (d : LocalData) : Action → Option Request
  | .submit k true => d.commands[k]?.map Cmd.argv
  | _ => none

def sent (s : State B) (label : B × Action) : Option (B × Request) :=
  ((s.part label.1).handedOver label.2).map fun request => (label.1, request)

/-- The batches with the log of what went out on the connection. -/
abbrev pipeline (B : Type) [DecidableEq B] (limit : Int) :
    Transition.Machine (State B × List (B × Request)) (B × Action) :=
  Transition.logging (machine B limit) sent

/-- The answer to the `k`-th command of a batch. -/
def answerTo (server : Server) (log : List (B × Request)) (b : B) (k : Nat) : Option RedisReply :=
  (answersOf server log b)[k]?.join

/-- hiredis calls back with what the server answered, in any order of the callbacks. -/
def Served (server : Server) (s : State B × List (B × Request)) (label : B × Action) : Prop :=
  Obeys (answerTo server s.2 label.1) (s.1.part label.1) label.2

/-- The log has the commands of a batch that hiredis has taken, in order. -/
structure Sent (requests : List Request) (d : LocalData) : Prop where
  inOrder : requests <+: d.commands.map Cmd.argv
  accepted : ∀ (k : Nat) (cmd : Cmd), d.commands[k]? = some cmd →
    (cmd.phase.accepted = true ↔ k < requests.length)

section Step
variable {answer : Nat → Option RedisReply} {requests : List Request} {pending next : Int}
  {d after : LocalData} {a : Action} {k : Nat} {cmd new : Cmd}

theorem argvs_set {commands : List Cmd} (found : commands[k]? = some cmd)
    (argv : new.argv = cmd.argv) :
    (commands.set k new).map Cmd.argv = commands.map Cmd.argv := by
  obtain ⟨bound, rfl⟩ := List.getElem?_eq_some_iff.mp found
  have kept := congrArg (List.map Cmd.argv) (List.set_getElem_self bound)
  rwa [List.map_set, ← argv, ← List.map_set] at kept

theorem Sent.set (holds : Sent requests d) (found : d.commands[k]? = some cmd)
    (commands : after.commands = d.commands.set k new) (argv : new.argv = cmd.argv)
    (accepted : new.phase.accepted = cmd.phase.accepted) : Sent requests after where
  inOrder := by
    rw [commands, argvs_set found argv]
    exact holds.inOrder
  accepted := by
    intro i other lookup
    rw [commands] at lookup
    rcases LocalData.put_lookup (d := d) lookup with ⟨rfl, rfl⟩ | ⟨_, old⟩
    · rw [accepted]
      exact holds.accepted i cmd found
    · exact holds.accepted i other old

/-- The command that hiredis takes is the next of its batch. -/
theorem Sent.submit (holds : Sent requests d) {n : Nat} (ordered : Ordered answer n d)
    (found : d.commands[k]? = some cmd) (phase : cmd.phase = .slotted) :
    Sent (requests ++ [cmd.argv]) (d.put k { cmd with phase := .inFlight }) := by
  have unsent : ¬ k < requests.length := fun sent => by
    have := (holds.accepted k cmd found).mpr sent
    simp [phase, Phase.accepted] at this
  have last := ordered.last k cmd found (by simp [phase, Phase.inRun])
  obtain ⟨bound, same⟩ := List.getElem?_eq_some_iff.mp found
  have full : requests.length = k := by
    by_contra different
    -- the command after the last one in the log has left run_pvt
    have earlier := List.getElem?_eq_getElem (show requests.length < d.commands.length by omega)
    have follows := (ordered.follows _ _ earlier).accepted
    have outside : ¬ d.commands[requests.length].phase.inRun = true := fun running => by
      have := ordered.last _ _ earlier running
      omega
    have unaccepted := (holds.accepted _ _ earlier).not.mpr (Nat.lt_irrefl _)
    cases at_ : d.commands[requests.length].phase <;>
      simp [at_, Phase.accepted, Phase.inRun] at follows outside unaccepted
  obtain ⟨more, split⟩ := holds.inOrder
  have one : more = [cmd.argv] := by
    have argvs : (d.commands.map Cmd.argv).drop requests.length = more := by
      rw [← split, List.drop_left]
    rw [← argvs, full, List.drop_eq_getElem_cons (by simpa using bound),
      List.drop_eq_nil_of_le (by simp; omega)]
    simp [same]
  subst one
  refine ⟨?_, ?_⟩
  · rw [LocalData.put_commands, argvs_set found (by rfl), split]
  · intro i other lookup
    rw [List.length_append, full]
    rcases LocalData.put_lookup lookup with ⟨rfl, rfl⟩ | ⟨different, old⟩
    · simp [Phase.accepted]
    · rw [holds.accepted i other old, full]
      simp
      omega

theorem Sent.step (effect : Effect limit pending d a next after) (obeys : Obeys answer d a)
    (waited : Waited d) (ordered : d.client = .destroyed ∨ ∃ n, Ordered answer n d)
    (holds : Sent requests d) : Sent (requests ++ (d.handedOver a).toList) after := by
  cases effect with
  | run argv =>
    refine ⟨?_, ?_⟩
    · simpa [LocalData.handedOver] using holds.inOrder.trans (List.prefix_append _ _)
    · intro i cmd lookup
      simp only [LocalData.handedOver, Option.toList_none, List.append_nil]
      rcases LocalData.append_lookup lookup with ⟨rfl, rfl⟩ | old
      · have := holds.inOrder.length_le
        simp [Phase.accepted] at this ⊢
        omega
      · exact holds.accepted i cmd old
  | submit accepted found phase =>
    cases (show accepted = true from obeys)
    have idle := waited.idle found (by simp [phase, Phase.inRun])
    obtain ⟨n, ordered⟩ := ordered.resolve_left (by simp [idle])
    simpa [LocalData.handedOver, found] using holds.submit ordered found phase
  | count found phase | callback _ found phase | release found phase =>
    simp only [LocalData.handedOver, Option.toList_none, List.append_nil]
    refine holds.set found rfl rfl ?_
    simp only [phase]
    split <;> rfl
  | @wakes k cmd j sleeper found phase sleeping blocked distinct =>
    simp only [LocalData.handedOver, Option.toList_none, List.append_nil]
    have woken : Sent requests (d.put j { sleeper with phase := .waiting .notified }) :=
      holds.set sleeping rfl rfl (by rw [blocked]; rfl)
    have kept : (d.put j { sleeper with phase := .waiting .notified }).commands[k]? = some cmd := by
      simpa [distinct] using found
    refine woken.set kept rfl rfl ?_
    rw [phase]
    rfl
  | waits found phase | passes found phase | add found phase | wakesNone found phase
  | notifyDone found phase =>
    simp only [LocalData.handedOver, Option.toList_none, List.append_nil]
    refine holds.set found rfl rfl ?_
    rw [phase]
    rfl
  | @store k cmd found phase =>
    simp only [LocalData.handedOver, Option.toList_none, List.append_nil]
    have commands : ((d.storeReply cmd).put k { cmd with phase := .releasing }).commands =
        d.commands.set k { cmd with phase := .releasing } := by simp
    refine holds.set found commands rfl ?_
    rw [phase]
    rfl
  | enter | recheck | waitsDone | passesDone | returns | resets | destroys =>
    simp only [LocalData.handedOver, Option.toList_none, List.append_nil]
    exact ⟨holds.inOrder, holds.accepted⟩

theorem Obeys.congr {other : Nat → Option RedisReply} (obeys : Obeys answer d a)
    (same : ∀ k parReply, a = .callback k parReply → answer k = other k) : Obeys other d a := by
  cases a with
  | callback k parReply => exact obeys.trans (same k parReply rfl)
  | _ => exact obeys

end Step

theorem answerTo_grown (server : Server) {log later : List (B × Request)} (grown : log <+: later)
    {b : B} {k : Nat} (sent : k < (requestsOf log b).length) :
    answerTo server log b k = answerTo server later b k := by
  obtain ⟨more, same⟩ := answersOf_prefix server grown b
  rw [answerTo, answerTo, ← same, List.getElem?_append_left (by simpa using sent)]

section Runs
variable {server : Server} {s : State B × List (B × Request)}

/-- With the log of the whole run at hand, the answers are known beforehand. -/
theorem served_answered (run : Transition.Reaches (pipeline B limit) (Served server) s) :
    (∀ later, s.2 <+: later →
      Transition.Reaches (machine B limit) (Answered (answerTo server later)) s.1) ∧
    ∀ b, Sent (requestsOf s.2 b) (s.1.part b) := by
  induction run with
  | start =>
    refine ⟨fun _ _ => .start, fun b => ⟨List.nil_prefix, fun k cmd found => ?_⟩⟩
    have nothing : ([] : List Cmd)[k]? = some cmd := found
    contradiction
  | @next s t label _ served stepped ih =>
    obtain ⟨answered, holds⟩ := ih
    obtain ⟨b, a⟩ := label
    obtain ⟨state, moved, rfl⟩ := Transition.logging_step.mp stepped
    obtain ⟨next, after, changed, rfl⟩ := Family.step_eq_some.mp moved
    have effect := step_effect changed
    constructor
    · intro later grown
      have earlier : s.2 <+: later := (List.prefix_append _ _).trans grown
      refine (answered later earlier).next (a := (b, a)) (Obeys.congr served ?_) moved
      rintro k parReply rfl
      cases effect with
      | callback _ found phase =>
        exact answerTo_grown server earlier (((holds b).accepted _ _ found).mp (by rw [phase]; rfl))
    · intro c
      obtain ⟨waited, ordered⟩ := waited_ordered (answered s.2 (List.prefix_refl _)) b
        fun _ _ => Answered.obeys
      have stepped := (holds b).step effect served waited ordered
      have grown : requestsOf (s.2 ++ (sent s.1 (b, a)).toList) c =
          requestsOf s.2 c ++ if b = c then ((s.1.part b).handedOver a).toList else [] := by
        cases given : (s.1.part b).handedOver a with
        | none => simp [sent, given]
        | some request => simp [sent, given, requestsOf_concat]
      rw [grown]
      by_cases same : b = c
      · subst same
        simpa using stepped
      · simpa [same, Function.update_of_ne (Ne.symm same)] using holds c

/-- When the client is let through, all its commands are in the log. -/
theorem returned_sent (run : Transition.Reaches (pipeline B limit) (Served server) s) {b : B}
    (returning : (s.1.part b).client = .returning .replies) :
    requestsOf s.2 b = (s.1.part b).commands.map Cmd.argv := by
  obtain ⟨answered, holds⟩ := served_answered run
  have before := answered s.2 (List.prefix_refl _)
  have none : tally Phase.localCounted (s.1.part b).commands = 0 :=
    (local_exact before b).symm.trans
      ((waited_ordered before b fun _ _ => Answered.obeys).1.drained _ returning)
  refine (holds b).inOrder.eq_of_length_le ?_
  rw [List.length_map]
  refine Nat.le_of_not_lt fun short => ?_
  have found := List.getElem?_eq_getElem short
  have unaccepted := ((holds b).accepted _ _ found).not.mpr (Nat.lt_irrefl _)
  have uncounted := tally_eq_zero none found
  cases phase : (s.1.part b).commands[(requestsOf s.2 b).length].phase <;>
    simp [phase, Phase.accepted, Phase.localCounted] at unaccepted uncounted

/-- And it gets the answers to them. -/
theorem returned_answers (run : Transition.Reaches (pipeline B limit) (Served server) s) {b : B}
    (returning : (s.1.part b).client = .returning .replies) :
    (s.1.part b).replies.range.elements = (answersOf server s.2 b).map decoded := by
  have answered := (served_answered run).1 s.2 (List.prefix_refl _)
  have count : (answersOf server s.2 b).length = (s.1.part b).commands.length := by
    rw [answersOf_length, returned_sent run returning, List.length_map]
  rw [returned_range answered returning]
  apply List.ext_getElem
  · rw [List.length_map, List.length_map, List.length_range, count]
  · intro k bound other
    rw [List.length_map] at other
    rw [List.getElem_map, List.getElem_map, List.getElem_range, answerTo,
      List.getElem?_eq_getElem other, Option.join_some]

end Runs

/-- Pipelining does not show: when the client is let through, its commands stand in the
log in the order of its calls, and its replies are what the server answers to them when
all commands of all batches are executed one after the other in the order of the log. -/
theorem replies_sequential (server : Server) {s : State B × List (B × Request)} {b : B}
    (run : Transition.Reaches (pipeline B limit) (Served server) s)
    (returning : (s.1.part b).client = .returning .replies) :
    requestsOf s.2 b = (s.1.part b).commands.map Cmd.argv ∧
      (s.1.part b).replies.range.size = (requestsOf s.2 b).length ∧
      (s.1.part b).replies.range.elements = (answersOf server s.2 b).map decoded := by
  have sent := returned_sent run returning
  have answered := (served_answered run).1 s.2 (List.prefix_refl _)
  refine ⟨sent, ?_, returned_answers run returning⟩
  rw [returned_range answered returning, sent, List.length_map]

/-- A server that counts, as under `INCR`. -/
abbrev counting : Server := fun log => some (.integer log.length)

/-- Two batches whose callbacks come in the opposite order. -/
theorem shared_connection : ∃ s : State Bool × List (Bool × Request),
    Transition.Reaches (pipeline Bool maxRedisUnansweredCommands) (Served counting) s ∧
      (s.1.part true).client = .returning .replies ∧
      (s.1.part false).client = .returning .replies ∧
      s.2 = [(true, ["INCR", "a"]), (false, ["INCR", "b"]), (true, ["INCR", "c"])] ∧
      ∃ cmd, (s.1.part false).commands = [cmd] := by
  have sentAll := (Transition.initially (pipeline Bool maxRedisUnansweredCommands) (Served counting))
    |>.next (a := (true, .run ["INCR", "a"])) (by trivial) rfl
    |>.next (a := (true, .count 0)) (by trivial) rfl
    |>.next (a := (false, .run ["INCR", "b"])) (by trivial) rfl
    |>.next (a := (true, .add 0)) (by trivial) rfl
    |>.next (a := (true, .submit 0 true)) (by trivial) rfl
    |>.next (a := (false, .count 0)) (by trivial) rfl
    |>.next (a := (false, .add 0)) (by trivial) rfl
    |>.next (a := (false, .submit 0 true)) (by trivial) rfl
    |>.next (a := (true, .run ["INCR", "c"])) (by trivial) rfl
    |>.next (a := (true, .count 1)) (by trivial) rfl
    |>.next (a := (true, .add 1)) (by trivial) rfl
    |>.next (a := (true, .submit 1 true)) (by trivial) rfl
  have run := sentAll
    |>.next (a := (true, .callback 1 (some (.integer 3)))) (by rfl) rfl
    |>.next (a := (true, .store 1)) (by trivial) rfl
    |>.next (a := (true, .release 1)) (by trivial) rfl
    |>.next (a := (false, .callback 0 (some (.integer 2)))) (by rfl) rfl
    |>.next (a := (false, .store 0)) (by trivial) rfl
    |>.next (a := (false, .release 0)) (by trivial) rfl
    |>.next (a := (true, .callback 0 (some (.integer 1)))) (by rfl) rfl
    |>.next (a := (true, .store 0)) (by trivial) rfl
    |>.next (a := (true, .release 0)) (by trivial) rfl
    |>.next (a := (true, .enter .replies)) (by exact ⟨rfl, by decide⟩) rfl
    |>.next (a := (false, .enter .replies)) (by exact ⟨rfl, by decide⟩) rfl
  exact ⟨_, run, rfl, rfl, rfl, _, rfl⟩

theorem replies_sequential_counting : ∃ s : State Bool × List (Bool × Request),
    Transition.Reaches (pipeline Bool maxRedisUnansweredCommands) (Served counting) s ∧
      (s.1.part true).replies.range.elements = [.integer 1, .integer 3] := by
  obtain ⟨s, run, returning, _, log, _⟩ := shared_connection
  have elements := (replies_sequential counting run returning).2.2
  rw [log] at elements
  exact ⟨s, run, elements⟩

section Order
variable {server : Server} {s t : State B × List (B × Request)}

/-- The pipeline from a state that it has come to. -/
abbrev pipelineFrom (s : State B × List (B × Request)) (limit : Int) :
    Transition.Machine (State B × List (B × Request)) (B × Action) :=
  { pipeline B limit with start := s }

theorem log_grown (more : Transition.Reaches (pipelineFrom s limit) (Served server) t) :
    s.2 <+: t.2 :=
  more.invariant (P := fun t => s.2 <+: t.2) (List.prefix_refl _) fun grown _ stepped => by
    obtain ⟨_, _, rfl⟩ := Transition.logging_step.mp stepped
    exact grown.trans (List.prefix_append _ _)

/-- A command that hiredis has taken has its place in the log. -/
theorem accepted_takesEffect (run : Transition.Reaches (pipeline B limit) (Served server) s)
    {b : B} {k : Nat} {cmd : Cmd} (found : (s.1.part b).commands[k]? = some cmd)
    (accepted : cmd.phase.accepted = true) :
    k < (requestsOf s.2 b).length ∧ ∃ place, TakesEffect s.2 b k place cmd.argv := by
  have holds := (served_answered run).2 b
  have below := (holds.accepted k cmd found).mp accepted
  obtain ⟨place, request, effect⟩ := takesEffect_exists s.2 b below
  have asked := (effect.answered fun _ => ()).1
  have same := List.prefix_iff_getElem?.mp holds.inOrder k below
  rw [List.getElem?_eq_getElem below] at asked
  rw [Option.some.inj asked, List.getElem?_map, found] at same
  exact ⟨below, place, by rwa [← Option.some.inj same] at effect⟩

/-- A command that hiredis has taken before another one is run takes effect before it, and each of
the two at one place only. -/
theorem real_time_order (server : Server)
    (run : Transition.Reaches (pipeline B limit) (Served server) s)
    (more : Transition.Reaches (pipelineFrom s limit) (Served server) t) {b c : B} {k l : Nat}
    {early late : Cmd} (found : (s.1.part b).commands[k]? = some early)
    (accepted : early.phase.accepted = true) (unrun : (s.1.part c).commands.length ≤ l)
    (lookup : (t.1.part c).commands[l]? = some late) (after : late.phase.accepted = true) :
    ∃ place other, TakesEffect t.2 b k place early.argv ∧ TakesEffect t.2 c l other late.argv ∧
      place < other ∧ (∀ again request, TakesEffect t.2 b k again request → again = place) ∧
      ∀ again request, TakesEffect t.2 c l again request → again = other := by
  have grown := log_grown more
  obtain ⟨made, place, one⟩ := accepted_takesEffect run found accepted
  obtain ⟨_, other, two⟩ := accepted_takesEffect (run.join more) lookup after
  have unmade : (requestsOf s.2 c).length ≤ l := by
    have := ((served_answered run).2 c).inOrder.length_le
    rw [List.length_map] at this
    omega
  exact ⟨place, other, one.grown grown, two, (one.grown grown).before grown made unmade two,
    fun _ _ effect => effect.place_eq (one.grown grown), fun _ _ effect => effect.place_eq two⟩

end Order

/-- One batch has its reply before the other one runs its command. -/
theorem one_after_the_other : ∃ s t : State Bool × List (Bool × Request),
    Transition.Reaches (pipeline Bool maxRedisUnansweredCommands) (Served counting) s ∧
      Transition.Reaches (pipelineFrom s maxRedisUnansweredCommands) (Served counting) t ∧
      (s.1.part true).commands.map Cmd.phase = [.storing] ∧ (s.1.part false).commands = [] ∧
      (t.1.part false).commands.map Cmd.phase = [.inFlight] := by
  have run := (Transition.initially (pipeline Bool maxRedisUnansweredCommands) (Served counting))
    |>.next (a := (true, .run ["INCR", "a"])) (by trivial) rfl
    |>.next (a := (true, .count 0)) (by trivial) rfl
    |>.next (a := (true, .add 0)) (by trivial) rfl
    |>.next (a := (true, .submit 0 true)) (by trivial) rfl
    |>.next (a := (true, .callback 0 (some (.integer 1)))) (by rfl) rfl
  exact ⟨_, _, run, .next (a := (false, .submit 0 true)) (.next (a := (false, .add 0))
    (.next (a := (false, .count 0)) (.next (a := (false, .run ["INCR", "b"])) .start
      (by trivial) rfl) (by trivial) rfl) (by trivial) rfl) (by trivial) rfl, rfl, rfl, rfl⟩

theorem real_time_order_counting : ∃ (t : State Bool × List (Bool × Request)) (early late : Cmd)
    (place other : Nat), TakesEffect t.2 true 0 place early.argv ∧
      TakesEffect t.2 false 0 other late.argv ∧ place < other ∧
      ∀ again request, TakesEffect t.2 true 0 again request → again = place := by
  obtain ⟨s, t, run, more, first, none, second⟩ := one_after_the_other
  obtain ⟨early, earlyOne, earlyPhase⟩ := List.map_eq_singleton_iff.mp first
  obtain ⟨late, lateOne, latePhase⟩ := List.map_eq_singleton_iff.mp second
  have found : (s.1.part true).commands[0]? = some early := by rw [earlyOne]; rfl
  have lookup : (t.1.part false).commands[0]? = some late := by rw [lateOne]; rfl
  have unrun : (s.1.part false).commands.length ≤ 0 := by rw [none]; decide
  obtain ⟨place, other, one, two, order, alone, _⟩ := real_time_order counting run more found
    (by rw [earlyPhase]; rfl) unrun lookup (by rw [latePhase]; rfl)
  exact ⟨t, early, late, place, other, one, two, order, alone⟩

/-- What `Command::run` does with its batch, once the wait is over. -/
def frontUnlessFailed (replies : List Reply) : Except Exception Reply := do
  throwIfFailed replies
  readAt replies 0

/-- `Command::run` among other threads is a call to a server that has been asked, in some
order, what stands before it in the log. -/
theorem command_run_sequential (server : Server) {s : State B × List (B × Request)} {b : B}
    (run : Transition.Reaches (pipeline B limit) (Served server) s)
    (returning : (s.1.part b).client = .returning .replies) {cmd : Cmd}
    (single : (s.1.part b).commands = [cmd]) :
    ∃ place, TakesEffect s.2 b 0 place cmd.argv ∧
      frontUnlessFailed (s.1.part b).replies.range.elements =
        commandRun (server ((s.2.take place).map Prod.snd ++ [cmd.argv])) := by
  have requests := returned_sent run returning
  rw [single] at requests
  obtain ⟨place, request, effect⟩ := takesEffect_exists (k := 0) s.2 b (by simp [requests])
  obtain ⟨asked, answered⟩ := effect.answered server
  obtain rfl : cmd.argv = request := by simpa [requests] using asked
  refine ⟨place, effect, ?_⟩
  have one : answersOf server s.2 b = [server ((s.2.take place).map Prod.snd ++ [cmd.argv])] := by
    have length := answersOf_length server s.2 b
    rw [requests, List.map_singleton, List.length_singleton] at length
    obtain ⟨answer, same⟩ := List.length_eq_one_iff.mp length
    rw [same] at answered ⊢
    simpa using answered
  rw [returned_answers run returning, one]
  rfl

/-- The batch that was handed over second is told that it is the second. -/
theorem command_run_second : ∃ (s : State Bool × List (Bool × Request)) (place : Nat),
    TakesEffect s.2 false 0 place ["INCR", "b"] ∧
      frontUnlessFailed (s.1.part false).replies.range.elements =
        commandRun (counting ((s.2.take place).map Prod.snd ++ [["INCR", "b"]])) := by
  obtain ⟨s, run, _, returning, log, cmd, single⟩ := shared_connection
  obtain ⟨place, effect, outcome⟩ := command_run_sequential counting run returning single
  have request : cmd.argv = ["INCR", "b"] := by
    have asked := (effect.answered counting).1
    rw [log] at asked
    exact (Option.some.inj asked).symm
  rw [request] at effect outcome
  exact ⟨s, place, effect, outcome⟩

end Incredis.Batch
