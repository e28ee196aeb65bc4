import Incredis.Batch.Counters

/-! The life of a batch. Its destructor waits for `local_pending_futures` to reach
zero, which happens one step before the callback is done with the batch. -/
namespace Incredis.Batch
variable {B : Type} [DecidableEq B] {limit : Int}

/-- Steps of the callback that use the `LocalData` of its batch: the write of the
slot, the decrement and the two notifications. -/
def Action.usesLocalData : Action → Bool
  | .notifySlot _ _ | .store _ | .release _ | .notifyDone _ => true
  | _ => false

/-- What has to hold of a step: a destructor that returns finds no callback of its
batch between the last decrement and the notification. -/
def Joined (s : State B) : B × Action → Prop
  | (b, .leave) => (s.part b).client = .returning .destroy →
    ∀ cmd ∈ (s.part b).commands, cmd.phase ≠ .notifyDone
  | _ => True

/-- The destructor is past its wait. -/
def Ending (client : Client) : Prop := client = .returning .destroy ∨ client = .destroyed

/-- Past its wait the destructor leaves only last notifications behind, and a
destroyed batch has not even these. -/
structure Closed (d : LocalData) : Prop where
  drained : Ending d.client → tally Phase.localCounted d.commands = 0
  settled : d.client = .destroyed → ∀ cmd ∈ d.commands, cmd.phase = .finished

section Step
variable {pending next : Int} {d after : LocalData} {a : Action}

/-- With the counter at zero and the batch closed to new commands, the callbacks
can only issue their last notification. -/
theorem quiet_step (effect : Effect limit pending d a next after) (ending : Ending d.client)
    (zero : tally Phase.localCounted d.commands = 0) :
    after.commands = d.commands ∨ ∃ k cmd, d.commands[k]? = some cmd ∧ cmd.phase = .notifyDone ∧
      after.commands = d.commands.set k { cmd with phase := .finished } := by
  cases effect with
  | run argv opened =>
    rcases ending with at_ | at_ <;> simp [at_, Client.closing, Client.purpose] at opened
  | count found phase | waits found phase | passes found phase | add found phase
  | submit _ found phase | callback _ found phase | wakesNone found phase
  | store found phase | release found phase | wakes found phase =>
    have := tally_eq_zero zero found
    simp [phase, Phase.localCounted] at this
  | notifyDone found phase => exact .inr ⟨_, _, found, phase, rfl⟩
  | enter | recheck | waitsDone | passesDone | returns | resets | destroys => exact .inl rfl

/-- The wait of the destructor ends only with the counter at zero. -/
theorem ending_step (effect : Effect limit pending d a next after) (ending : Ending after.client) :
    Ending d.client ∨
      d.localPendingFutures ≤ 0 ∧ after.commands = d.commands ∧ after.client = .returning .destroy := by
  cases effect with
  | enter =>
    by_cases zero : d.localPendingFutures = 0
    · exact .inr ⟨by omega, rfl, by simpa [zero, Ending] using ending⟩
    · simp [zero, Ending] at ending
  | recheck =>
    by_cases positive : d.localPendingFutures > 0
    · simp [positive, Ending] at ending
    · exact .inr ⟨by omega, rfl, by simpa [positive, Ending] using ending⟩
  | waitsDone => simp [Ending] at ending
  | passesDone _ drained => exact .inr ⟨by omega, rfl, by simpa [Ending] using ending⟩
  | returns | resets => simp [Ending] at ending
  | destroys at_ => exact .inl (.inl at_)
  | notifyDone =>
    simp only [Ending, Client.notify_returning, Client.notify_destroyed] at ending
    exact .inl ending
  | store =>
    simp only [LocalData.put_client, LocalData.storeReply_client] at ending
    exact .inl ending
  | run | count | waits | passes | add | submit | callback | wakes | wakesNone | release =>
    exact .inl ending

theorem destroying_step (effect : Effect limit pending d a next after)
    (destroyed : after.client = .destroyed) :
    d.client = .destroyed ∨
      a = .leave ∧ d.client = .returning .destroy ∧ after.commands = d.commands := by
  cases effect with
  | enter | recheck =>
    simp only at destroyed
    split at destroyed <;> contradiction
  | destroys at_ => exact .inr ⟨rfl, at_, rfl⟩
  | waitsDone | passesDone | returns | resets => contradiction
  | notifyDone => exact .inl (Client.notify_destroyed.mp destroyed)
  | store => exact .inl (by simpa using destroyed)
  | run | count | waits | passes | add | submit | callback | wakes | wakesNone | release =>
    exact .inl destroyed

theorem closed_step (effect : Effect limit pending d a next after)
    (exact_ : d.localPendingFutures = tally Phase.localCounted d.commands) (closed : Closed d)
    (joined : a = .leave → d.client = .returning .destroy →
      ∀ cmd ∈ d.commands, cmd.phase ≠ .notifyDone) : Closed after := by
  constructor
  · intro ending
    rcases ending_step effect ending with before | ⟨empty, same, _⟩
    · have zero := closed.drained before
      rcases quiet_step effect before zero with same | ⟨k, cmd, found, phase, same⟩
      · rw [same, zero]
      · rw [same, tally_set found, zero, phase]
        rfl
    · have := tally_nonneg Phase.localCounted d.commands
      rw [same]
      omega
  · intro destroyed
    rcases destroying_step effect destroyed with before | ⟨leaves, before, same⟩
    · have settled := closed.settled before
      rcases quiet_step effect (.inr before) (closed.drained (.inr before)) with
        same | ⟨k, cmd, found, phase, _⟩
      · rwa [same]
      · rw [settled cmd (List.mem_of_getElem? found)] at phase
        contradiction
    · rw [same]
      intro cmd member
      obtain ⟨k, found⟩ := List.getElem?_of_mem member
      have uncounted := tally_eq_zero (closed.drained (.inl before)) found
      have notified := joined leaves before cmd member
      cases phase : cmd.phase <;> simp_all [Phase.localCounted]

end Step

theorem closed_run {s : State B} (run : Transition.Reaches (machine B limit) Joined s) (b : B) :
    Closed (s.part b) := by
  refine (Family.each_invariant
    (P := fun _ d => d.localPendingFutures = tally Phase.localCounted d.commands ∧ Closed d)
    (fun _ => ⟨rfl, by simp, by simp⟩) ?_ run b).2
  rintro s c a next after ⟨exact_, closed⟩ joined moved
  have effect := step_effect moved
  refine ⟨local_step effect exact_, closed_step effect exact_ closed ?_⟩
  rintro rfl
  exact joined

/-- A step that uses the data of a batch belongs to a command that is not done. -/
theorem uses_unfinished {pending next : Int} {d after : LocalData} {a : Action}
    (effect : Effect limit pending d a next after) (uses : a.usesLocalData = true) :
    ∃ cmd ∈ d.commands, cmd.phase ≠ .finished := by
  cases effect with
  | wakes found phase | wakesNone found phase | store found phase | release found phase
  | notifyDone found phase => exact ⟨_, List.mem_of_getElem? found, by simp [phase]⟩
  | _ => contradiction

/-- Where every destructor finds the callbacks done, no callback outlives its batch. -/
theorem callback_within_lifetime {s t : State B} {b : B} {a : Action}
    (run : Transition.Reaches (machine B limit) Joined s)
    (stepped : (machine B limit).step s (b, a) = some t) (uses : a.usesLocalData = true) :
    (s.part b).client ≠ .destroyed := by
  intro destroyed
  obtain ⟨next, after, moved, rfl⟩ := Family.step_eq_some.mp stepped
  obtain ⟨cmd, member, unfinished⟩ := uses_unfinished (step_effect moved) uses
  exact unfinished ((closed_run run b).settled destroyed cmd member)

/-- A destructor that leaves at any other moment takes the condition variable away
from a callback that is about to use it. -/
theorem early_leave_dangles {s t : State B} {b : B}
    (stepped : (machine B limit).step s (b, .leave) = some t)
    (early : ¬ Joined s (b, .leave)) :
    ∃ k next, (machine B limit).step t (b, .notifyDone k) = some next ∧
      (t.part b).client = .destroyed := by
  simp only [Joined, not_forall, not_not, exists_prop] at early
  obtain ⟨at_, cmd, member, phase⟩ := early
  obtain ⟨k, found⟩ := List.getElem?_of_mem member
  let gone : LocalData :=
    { s.part b with client := .destroyed, replies := (s.part b).replies.clear }
  have left : t = ⟨s.shared, Function.update s.part b gone⟩ := by
    simpa [Family.machine, Family.step, step, at_] using stepped.symm
  have notifies : step limit s.shared gone (.notifyDone k) = some (s.shared,
      { gone.put k { cmd with phase := .finished } with client := .destroyed }) := by
    simp only [step, LocalData.commandAt_eq_some (d := gone) |>.mpr ⟨found, phase⟩]
    rfl
  subst left
  exact ⟨k, _, Family.step_eq_some.mpr ⟨_, _, by simpa using notifies, rfl⟩, by simp [gone]⟩

/-- A batch with one command lives until its callback has notified. -/
theorem callback_within_lifetime_waiting : ∃ s : State Unit,
    (∃ t, (machine Unit maxRedisUnansweredCommands).step s ((), .notifyDone 0) = some t) ∧
      (s.part ()).client ≠ .destroyed := by
  have run := (Transition.initially (machine Unit maxRedisUnansweredCommands) Joined)
    |>.next (a := ((), .run ["GET", "key"])) (by trivial) rfl
    |>.next (a := ((), .count 0)) (by trivial) rfl
    |>.next (a := ((), .add 0)) (by trivial) rfl
    |>.next (a := ((), .submit 0 true)) (by trivial) rfl
    |>.next (a := ((), .enter .replies)) (by trivial) rfl
    |>.next (a := ((), .recheck)) (by trivial) rfl
    |>.next (a := ((), .callback 0 (some .nil))) (by trivial) rfl
    |>.next (a := ((), .store 0)) (by trivial) rfl
    |>.next (a := ((), .waitDone)) (by trivial) rfl
    |>.next (a := ((), .release 0)) (by trivial) rfl
    |>.next (a := ((), .waitDone)) (by trivial) rfl
    |>.next (a := ((), .leave)) (by rintro ⟨⟩) rfl
    |>.next (a := ((), .enter .destroy)) (by trivial) rfl
  exact ⟨_, ⟨_, rfl⟩, callback_within_lifetime run (a := .notifyDone 0) rfl rfl⟩

/-- The destructor of `Command::run` reads the counter between the decrement and
the notification. -/
theorem callback_outlives_batch :
    ¬ ∀ (s t : State Unit) (a : Action),
      Transition.Reaches (machine Unit maxRedisUnansweredCommands) Transition.always s →
      (machine Unit maxRedisUnansweredCommands).step s ((), a) = some t →
      a.usesLocalData = true → (s.part ()).client ≠ .destroyed := by
  intro alive
  have run := (Transition.initially (machine Unit maxRedisUnansweredCommands) Transition.always).exec
    [((), .run ["GET", "key"]), ((), .count 0), ((), .add 0), ((), .submit 0 true),
     ((), .callback 0 (some .nil)), ((), .store 0), ((), .release 0), ((), .enter .destroy),
     ((), .leave)] rfl
  exact alive _ _ (.notifyDone 0) run rfl rfl rfl

end Incredis.Batch
