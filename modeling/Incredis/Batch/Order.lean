import Incredis.Batch.Waited

/-! Reply order. In a run where hiredis accepts every command and answers the
`k`-th command of batch `b` with `answer b k`, the `k`-th slot of the batch belongs to its
`k`-th command at every intermediate step, and is filled once the client is let
through. -/
namespace Incredis.Batch
variable {B : Type} [DecidableEq B] {limit : Int}

def content (answer : Option RedisReply) (phase : Phase) : Reply :=
  if phase.stored then decoded answer else default

/-- The `k`-th command of a batch with `n` slots. -/
structure Cmd.Follows (answer : Option RedisReply) (replies : ReplyList) (n k : Nat)
    (cmd : Cmd) : Prop where
  accepted : cmd.phase ≠ .rejected
  slot : cmd.phase.hasSlot = true ↔ k < n
  pointer : k < n → cmd.replyPtr = some (.node k)
  called : cmd.phase = .notifySlot ∨ cmd.phase = .storing → cmd.parReply = some answer
  value : k < n → replies.values[k]? = some (content answer cmd.phase)

/-- The slots of a batch and its commands, in the same order. Only the last
command may still be on its way to hiredis. -/
structure Ordered (answer : Nat → Option RedisReply) (n : Nat) (d : LocalData) : Prop where
  filled : d.replies.Filled n
  bound : n ≤ d.commands.length
  follows : ∀ (k : Nat) (cmd : Cmd), d.commands[k]? = some cmd →
    cmd.Follows (answer k) d.replies n k
  last : ∀ (k : Nat) (cmd : Cmd), d.commands[k]? = some cmd → cmd.phase.inRun = true →
    k + 1 = d.commands.length

theorem hasSlot_of_not_inRun {phase : Phase} (outside : phase.inRun = false) :
    phase.hasSlot = true := by
  cases phase <;> simp_all [Phase.inRun, Phase.hasSlot]

namespace Cmd.Follows
variable {answer : Option RedisReply} {replies : ReplyList} {n k : Nat} {cmd : Cmd}

/-- A command may change its phase as long as its slot and its value stay. -/
theorem move (follows : cmd.Follows answer replies n k) {phase : Phase}
    (accepted : phase ≠ .rejected) (slot : phase.hasSlot = cmd.phase.hasSlot)
    (called : phase = .notifySlot ∨ phase = .storing → cmd.parReply = some answer)
    (stored : phase.stored = cmd.phase.stored) :
    Cmd.Follows answer replies n k { cmd with phase := phase } where
  accepted := accepted
  slot := by rw [slot]; exact follows.slot
  pointer := follows.pointer
  called := called
  value := fun inside => by
    simpa only [content, stored] using follows.value inside

end Cmd.Follows

namespace Ordered
variable {answer : Nat → Option RedisReply} {n k : Nat} {d : LocalData} {cmd new : Cmd}

/-- Replacing one command by one that follows, without touching the slots. -/
theorem put (ordered : Ordered answer n d) (found : d.commands[k]? = some cmd)
    (follows : new.Follows (answer k) d.replies n k)
    (inRun : new.phase.inRun = true → cmd.phase.inRun = true) : Ordered answer n (d.put k new) where
  filled := ordered.filled
  bound := by simpa using ordered.bound
  follows := by
    intro i other lookup
    rcases LocalData.put_lookup lookup with ⟨rfl, rfl⟩ | ⟨_, old⟩
    · exact follows
    · exact ordered.follows i other old
  last := by
    intro i other lookup running
    simp only [LocalData.put_commands, List.length_set]
    rcases LocalData.put_lookup lookup with ⟨rfl, rfl⟩ | ⟨_, old⟩
    · exact ordered.last i cmd found (inRun running)
    · exact ordered.last i other old running

theorem move (ordered : Ordered answer n d) (found : d.commands[k]? = some cmd) (phase : Phase)
    (accepted : phase ≠ .rejected) (slot : phase.hasSlot = cmd.phase.hasSlot)
    (called : phase = .notifySlot ∨ phase = .storing → cmd.phase = .notifySlot)
    (stored : phase.stored = cmd.phase.stored)
    (inRun : phase.inRun = true → cmd.phase.inRun = true) :
    Ordered answer n (d.put k { cmd with phase := phase }) := by
  have follows := ordered.follows k cmd found
  exact ordered.put found
    (follows.move accepted slot (fun now => follows.called (.inl (called now))) stored) inRun

/-- A command without a slot is the last one and gets the next slot. -/
theorem next_slot (ordered : Ordered answer n d) (found : d.commands[k]? = some cmd)
    (unslotted : cmd.phase.hasSlot = false) : n = k := by
  have outside : ¬ k < n := fun inside => by
    have := (ordered.follows k cmd found).slot.mpr inside
    simp [unslotted] at this
  have bound : k < d.commands.length := (List.getElem?_eq_some_iff.mp found).1
  by_contra different
  -- the command before `k` has returned from run_pvt, so its slot is there
  obtain ⟨i, rfl⟩ : ∃ i, k = i + 1 := ⟨k - 1, by omega⟩
  have previous := List.getElem?_eq_getElem (show i < d.commands.length by omega)
  have outsideRun : d.commands[i].phase.inRun = false := by
    by_contra running
    have := ordered.last i _ previous (by simpa using running)
    omega
  have := (ordered.follows i _ previous).slot.mp (hasSlot_of_not_inRun outsideRun)
  omega

end Ordered

section Step
variable {answer : Nat → Option RedisReply} {pending next : Int} {d after : LocalData} {a : Action}

/-- The callback writes the slot of its own command. -/
theorem Ordered.store {n k : Nat} {cmd : Cmd} (ordered : Ordered answer n d)
    (found : d.commands[k]? = some cmd) (phase : cmd.phase = .storing) :
    Ordered answer n ((d.storeReply cmd).put k { cmd with phase := .releasing }) := by
  have follows := ordered.follows k cmd found
  have inside := follows.slot.mp (by simp [phase, Phase.hasSlot])
  have called := follows.called (.inr phase)
  have values : (d.storeReply cmd).replies.Filled n ∧
      (d.storeReply cmd).replies.values = d.replies.values.set k (decoded (answer k)) := by
    have old := follows.value inside
    simp only [content, phase, Phase.stored, Bool.false_eq_true, if_false] at old
    cases given : answer k with
    | none =>
      simp only [LocalData.storeReply, follows.pointer inside, called, given, decoded]
      obtain ⟨bound, same⟩ := List.getElem?_eq_some_iff.mp old
      exact ⟨ordered.filled, by rw [← same, List.set_getElem_self]⟩
    | some raw =>
      simp only [LocalData.storeReply, follows.pointer inside, called, given, decoded]
      exact ⟨ordered.filled.write _ _, ordered.filled.write_values _ _⟩
  refine ⟨values.1, by simpa using ordered.bound, ?_, ?_⟩
  · intro i other lookup
    rcases LocalData.put_lookup lookup with ⟨rfl, rfl⟩ | ⟨different, old⟩
    · refine ⟨by simp, by simpa [Phase.hasSlot] using inside, follows.pointer, by simp, fun _ => ?_⟩
      have bound : i < d.replies.values.length := by rw [ordered.filled.length]; exact inside
      simp [values.2, content, Phase.stored, bound]
    · rw [LocalData.storeReply_commands] at old
      have before := ordered.follows i other old
      refine ⟨before.accepted, before.slot, before.pointer, before.called, fun below => ?_⟩
      simp only [LocalData.put_replies, values.2]
      rw [List.getElem?_set_ne (fun same => different same.symm)]
      exact before.value below
  · intro i other lookup running
    simp only [LocalData.put_commands, List.length_set, LocalData.storeReply_commands]
    rcases LocalData.put_lookup lookup with ⟨rfl, rfl⟩ | ⟨_, old⟩
    · simp [Phase.inRun] at running
    · rw [LocalData.storeReply_commands] at old
      exact ordered.last i other old running

/-- `replies.add()` is reached by one command at a time, the last one. -/
theorem Ordered.add {n k : Nat} {cmd : Cmd} {replies : ReplyList} {replyPtr : ReplyPtr}
    (ordered : Ordered answer n d) (found : d.commands[k]? = some cmd)
    (phase : cmd.phase = .admitted) (added : d.replies.add = some (replies, replyPtr)) :
    Ordered answer (n + 1)
      { d.put k { cmd with phase := .slotted, replyPtr := some replyPtr } with replies } := by
  have follows := ordered.follows k cmd found
  have same := ordered.next_slot found (by simp [phase, Phase.hasSlot])
  subst same
  obtain ⟨next, addedEq, filled, values⟩ := ordered.filled.add
  cases added.symm.trans addedEq
  have last := ordered.last n cmd found (by simp [phase, Phase.inRun])
  refine ⟨filled, by simp; omega, ?_, ?_⟩
  · intro i other lookup
    rcases LocalData.put_lookup lookup with ⟨rfl, rfl⟩ | ⟨different, old⟩
    · refine ⟨by simp, by simp [Phase.hasSlot], fun _ => rfl, by simp, fun _ => ?_⟩
      simp [values, content, Phase.stored, ← ordered.filled.length]
    · have before := ordered.follows i other old
      obtain ⟨bound, _⟩ := List.getElem?_eq_some_iff.mp old
      have below : i < n := by omega
      refine ⟨before.accepted, ?_, fun _ => before.pointer below, before.called, fun _ => ?_⟩
      · exact before.slot.trans ⟨fun _ => by omega, fun _ => below⟩
      · simp only [values]
        rw [List.getElem?_append_left (by rw [ordered.filled.length]; exact below)]
        exact before.value below
  · intro i other lookup running
    simp only [LocalData.put_commands, List.length_set]
    rcases LocalData.put_lookup lookup with ⟨rfl, rfl⟩ | ⟨_, old⟩
    · exact last
    · exact ordered.last i other old running

theorem Ordered.run {n : Nat} (ordered : Ordered answer n d) (quiet : d.runInProgress = false)
    (argv : List String) :
    Ordered answer n
      ⟨d.replies, d.localPendingFutures + 1, d.commands ++ [{ argv := argv }], d.client⟩ := by
  have outside := runInProgress_eq_false.mp quiet
  have full : n = d.commands.length := by
    by_contra different
    have bound := ordered.bound
    have found := List.getElem?_eq_getElem (show n < d.commands.length by omega)
    have := ordered.next_slot found
    have := (ordered.follows n _ found).slot.mp (hasSlot_of_not_inRun (outside n _ found))
    omega
  refine ⟨ordered.filled, by simp; omega, ?_, ?_⟩
  · intro i cmd lookup
    rcases LocalData.append_lookup lookup with ⟨rfl, rfl⟩ | old
    · exact ⟨by simp, by simp [Phase.hasSlot, full], fun below => by omega, by simp,
        fun below => by omega⟩
    · exact ordered.follows i cmd old
  · intro i cmd lookup running
    rcases LocalData.append_lookup lookup with ⟨rfl, rfl⟩ | old
    · simp
    · simp [outside i cmd old] at running

theorem Ordered.step {n : Nat} (effect : Effect limit pending d a next after)
    (obeys : Obeys answer d a) (waited : Waited d) (ordered : Ordered answer n d) :
    after.client = .destroyed ∨ ∃ n, Ordered answer n after := by
  cases effect with
  | run argv => exact .inr ⟨n, ordered.run obeys.2 argv⟩
  | count found phase =>
    refine .inr ⟨n, ordered.move found _ ?_ ?_ ?_ ?_ (by simp [phase, Phase.inRun])⟩
    all_goals split <;> simp [phase, Phase.hasSlot, Phase.stored]
  | waits found phase | passes found phase =>
    refine .inr ⟨n, ordered.move found _ ?_ ?_ ?_ ?_ (by simp [phase, Phase.inRun])⟩
    all_goals simp [phase, Phase.hasSlot, Phase.stored]
  | add found phase added => exact .inr ⟨n + 1, ordered.add found phase added⟩
  | submit accepted found phase =>
    cases (show accepted = true from obeys)
    refine .inr ⟨n, ordered.move found _ ?_ ?_ ?_ ?_ (by simp [phase, Phase.inRun])⟩
    all_goals simp [phase, Phase.hasSlot, Phase.stored]
  | @callback k cmd parReply found phase =>
    cases (show parReply = answer k from obeys)
    have follows := ordered.follows _ _ found
    have inside := follows.slot.mp (by simp [phase, Phase.hasSlot])
    have value := follows.value inside
    refine .inr ⟨n, ordered.put found ⟨?_, ?_, follows.pointer, fun _ => rfl, fun _ => ?_⟩ ?_⟩
    · simp only; split <;> simp
    · simp only; split <;> simpa [Phase.hasSlot] using inside
    · simp only; split <;> simpa [content, phase, Phase.stored] using value
    · simp only; split <;> simp [Phase.inRun]
  | wakes found phase sleeping blocked distinct =>
    have woken := ordered.move sleeping (.waiting .notified) (by simp)
      (by simp [blocked, Phase.hasSlot]) (by simp) (by simp [blocked, Phase.stored])
      (by simp [blocked, Phase.inRun])
    refine .inr ⟨n, woken.move (by simp [distinct, found]) _ ?_ ?_ ?_ ?_ (by simp [Phase.inRun])⟩
    all_goals simp [phase, Phase.hasSlot, Phase.stored]
  | wakesNone found phase =>
    refine .inr ⟨n, ordered.move found _ ?_ ?_ ?_ ?_ (by simp [Phase.inRun])⟩
    all_goals simp [phase, Phase.hasSlot, Phase.stored]
  | store found phase => exact .inr ⟨n, ordered.store found phase⟩
  | release found phase =>
    have moved := ordered.move found
      (if d.localPendingFutures = 1 then .notifyDone else .finished)
      (by split <;> simp) (by split <;> simp [phase, Phase.hasSlot]) (by split <;> simp)
      (by split <;> simp [phase, Phase.stored]) (by split <;> simp [Phase.inRun])
    exact .inr ⟨n, moved.filled, moved.bound, moved.follows, moved.last⟩
  | notifyDone found phase =>
    have moved := ordered.move found .finished (by simp)
      (by simp [phase, Phase.hasSlot]) (by simp) (by simp [phase, Phase.stored])
      (by simp [Phase.inRun])
    exact .inr ⟨n, moved.filled, moved.bound, moved.follows, moved.last⟩
  | enter | recheck | waitsDone | passesDone | returns =>
    exact .inr ⟨n, ordered.filled, ordered.bound, ordered.follows, ordered.last⟩
  | resets at_ => exact absurd (by simp [at_, Client.purpose]) waited.kept
  | destroys => exact .inl rfl

theorem destroyed_step (effect : Effect limit pending d a next after)
    (destroyed : d.client = .destroyed) : after.client = .destroyed := by
  cases effect with
  | run => exact destroyed
  | enter _ free => rw [free] at destroyed; contradiction
  | recheck at_ | waitsDone at_ | passesDone at_ | returns at_ | resets at_ =>
    rw [at_] at destroyed
    contradiction
  | destroys => rfl
  | notifyDone => exact Client.notify_destroyed.mpr destroyed
  | store => simpa using destroyed
  | _ => exact destroyed

end Step

section Runs
variable {answer : B → Nat → Option RedisReply} {s : State B}

/-- Nothing is asked of the other batches. -/
theorem waited_ordered {ok : State B → B × Action → Prop} {answer : Nat → Option RedisReply}
    (run : Transition.Reaches (machine B limit) ok s) (b : B)
    (obeys : ∀ s a, ok s (b, a) → Obeys answer (s.part b) a) :
    Waited (s.part b) ∧ ((s.part b).client = .destroyed ∨ ∃ n, Ordered answer n (s.part b)) := by
  have both := Family.part_invariant
    (P := fun d => d.localPendingFutures = tally Phase.localCounted d.commands ∧ Waited d ∧
      (d.client = .destroyed ∨ ∃ n, Ordered answer n d))
    ⟨rfl, ⟨by simp, by simp, by simp [Client.purpose]⟩,
      .inr ⟨0, .empty, by simp, by simp, by simp⟩⟩
    (fun {s a next after} holds allowed moved => by
      obtain ⟨exact_, waited, gone | ⟨n, ordered⟩⟩ := holds
      all_goals
        have effect := step_effect moved
        refine ⟨local_step effect exact_, waited.step effect (obeys s a allowed) exact_, ?_⟩
      · exact .inl (destroyed_step effect gone)
      · exact ordered.step effect (obeys s a allowed) waited) run
  exact both.2

/-- When the client is let through, every slot holds the decoded answer to the
command in the same place. -/
theorem returned_range (run : Transition.Reaches (machine B limit) (Answered answer) s) {b : B}
    (returning : (s.part b).client = .returning .replies) :
    (s.part b).replies.range = ⟨(List.range (s.part b).commands.length).map fun k =>
      decoded (answer b k), (s.part b).commands.length⟩ := by
  obtain ⟨waited, ordered⟩ := waited_ordered run b fun _ _ => Answered.obeys
  have none : tally Phase.localCounted (s.part b).commands = 0 :=
    (local_exact run b).symm.trans (waited.drained _ returning)
  obtain ⟨n, order⟩ := ordered.resolve_left (by simp [returning])
  have finished (k : Nat) (bound : k < (s.part b).commands.length) :
      k < n ∧ (s.part b).commands[k].phase.stored = true := by
    have found := List.getElem?_eq_getElem bound
    have uncounted := tally_eq_zero none found
    have slot := (order.follows k _ found).slot
    cases phase : (s.part b).commands[k].phase <;>
      simp_all [Phase.localCounted, Phase.hasSlot, Phase.stored]
  have full : n = (s.part b).commands.length := by
    by_contra different
    have := (finished n (by have := order.bound; omega)).1
    omega
  have values : (s.part b).replies.values =
      (List.range (s.part b).commands.length).map fun k => decoded (answer b k) := by
    apply List.ext_getElem?
    intro k
    by_cases bound : k < (s.part b).commands.length
    · have value := (order.follows k _ (List.getElem?_eq_getElem bound)).value (finished k bound).1
      simpa [content, (finished k bound).2, bound] using value
    · rw [List.getElem?_eq_none (by rw [order.filled.length]; omega)]
      simp [bound]
  simp only [ReplyList.range, values, order.filled.size, full]

end Runs

/-- `replies()` returns exactly one element for each command run on the batch, in
the order of the commands: the reply that the server gave to that command. -/
theorem replies_in_order (answer : B → Nat → RedisReply) {s : State B} {b : B}
    (run : Transition.Reaches (machine B limit) (Answered fun b k => some (answer b k)) s)
    (returning : (s.part b).client = .returning .replies) :
    (s.part b).replies.range.size = (s.part b).commands.length ∧
      (s.part b).replies.range.elements.length = (s.part b).commands.length ∧
      ∀ k < (s.part b).commands.length,
        (s.part b).replies.range.elements[k]? = some (makeRedisReplyType (answer b k)) := by
  rw [returned_range run returning]
  refine ⟨rfl, by simp, fun k bound => ?_⟩
  simp [bound, decoded]

/-- Two batches share the connection and the replies come back in an order of
their own. -/
theorem replies_in_order_interleaved :
    ∃ (answer : Bool → Nat → RedisReply) (s : State Bool),
      Transition.Reaches (machine Bool maxRedisUnansweredCommands)
        (Answered fun b k => some (answer b k)) s ∧
      (s.part true).replies.range.elements[1]? = some (.string "second") := by
  let answer : Bool → Nat → RedisReply
    | true, 0 => .string "first"
    | true, _ => .string "second"
    | false, _ => .status "OK"
  have run := (Transition.initially (machine Bool maxRedisUnansweredCommands)
      (Answered fun b k => some (answer b k)))
    |>.next (a := (true, .run ["GET", "a"])) (by trivial) rfl
    |>.next (a := (true, .count 0)) (by trivial) rfl
    |>.next (a := (false, .run ["SET", "c", "d"])) (by trivial) rfl
    |>.next (a := (true, .add 0)) (by trivial) rfl
    |>.next (a := (true, .submit 0 true)) (by trivial) rfl
    |>.next (a := (true, .run ["GET", "b"])) (by trivial) rfl
    |>.next (a := (true, .count 1)) (by trivial) rfl
    |>.next (a := (true, .add 1)) (by trivial) rfl
    |>.next (a := (true, .submit 1 true)) (by trivial) rfl
    |>.next (a := (true, .callback 1 (some (answer true 1)))) (by trivial) rfl
    |>.next (a := (true, .enter .replies)) (by exact ⟨rfl, by decide⟩) rfl
    |>.next (a := (true, .store 1)) (by trivial) rfl
    |>.next (a := (true, .release 1)) (by trivial) rfl
    |>.next (a := (true, .callback 0 (some (answer true 0)))) (by trivial) rfl
    |>.next (a := (true, .store 0)) (by trivial) rfl
    |>.next (a := (true, .release 0)) (by trivial) rfl
    |>.next (a := (true, .recheck)) (by trivial) rfl
  exact ⟨answer, _, run, (replies_in_order answer run rfl).2.2 1 (by decide)⟩

end Incredis.Batch
