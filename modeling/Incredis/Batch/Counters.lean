import Incredis.Batch.Effect

/-! The two counters are exact in every reachable state, whatever hiredis does:
each is the number of commands between its increment and its decrement. -/
namespace Incredis.Batch
variable {B : Type} [DecidableEq B] {limit : Int} {ok : State B → B × Action → Prop}

/-- `f` weighs the command that a callback notifies with the one it wakes. -/
theorem tally_wake {f : Phase → Bool} {commands : List Cmd} {j k : Nat} {sleeper cmd : Cmd}
    (sleeping : commands[j]? = some sleeper) (found : commands[k]? = some cmd) (distinct : j ≠ k)
    (awake new : Cmd) :
    tally f ((commands.set j awake).set k new) = tally f commands +
      ((f awake.phase).toInt - (f sleeper.phase).toInt) +
      ((f new.phase).toInt - (f cmd.phase).toInt) := by
  have kept : (commands.set j awake)[k]? = some cmd := by
    rw [List.getElem?_set_ne distinct, found]
  rw [tally_set kept, tally_set sleeping]

theorem local_step {pending next : Int} {d after : LocalData} {a : Action}
    (effect : Effect limit pending d a next after)
    (exact_ : d.localPendingFutures = tally Phase.localCounted d.commands) :
    after.localPendingFutures = tally Phase.localCounted after.commands := by
  cases effect with
  | run | enter | recheck | waitsDone | passesDone | returns | resets | destroys =>
    simpa [Phase.localCounted] using exact_
  | wakes found phase sleeping blocked distinct =>
    simpa [tally_wake sleeping found distinct, phase, blocked, Phase.localCounted] using exact_
  | count found phase | callback _ found phase | submit _ found phase =>
    simp only [LocalData.put_localPendingFutures, LocalData.put_commands, tally_set found, phase]
    split <;> simpa [Phase.localCounted] using exact_
  | release found phase =>
    simp only [LocalData.put_commands, tally_set found, phase]
    split <;> simp [Phase.localCounted, exact_] <;> omega
  | waits found phase | passes found phase | add found phase | wakesNone found phase
  | store found phase | notifyDone found phase =>
    simpa [tally_set found, phase, Phase.localCounted] using exact_

/-- `pending_futures` changes by what a step does to the commands of its batch. -/
theorem shared_step {pending next : Int} {d after : LocalData} {a : Action}
    (effect : Effect limit pending d a next after) :
    next - pending = tally Phase.counted after.commands - tally Phase.counted d.commands := by
  cases effect with
  | run | enter | recheck | waitsDone | passesDone | returns | resets | destroys =>
    simp [Phase.counted]
  | wakes found phase sleeping blocked distinct =>
    simp [tally_wake sleeping found distinct, phase, blocked, Phase.counted]
  | count found phase | callback _ found phase | submit _ found phase =>
    simp only [LocalData.put_commands, tally_set found, phase]
    split <;> simp [Phase.counted]
  | release found phase =>
    simp only [LocalData.put_commands, tally_set found, phase]
    split <;> simp [Phase.counted]
  | waits found phase | passes found phase | add found phase | wakesNone found phase
  | store found phase | notifyDone found phase =>
    simp [tally_set found, phase, Phase.counted]

theorem local_exact {s : State B} (run : Transition.Reaches (machine B limit) ok s) (b : B) :
    (s.part b).localPendingFutures = tally Phase.localCounted (s.part b).commands :=
  Family.each_invariant
    (P := fun _ d => d.localPendingFutures = tally Phase.localCounted d.commands)
    (fun _ => rfl) (fun holds _ moved => local_step (step_effect moved) holds) run b

theorem shared_exact [Fintype B] {s : State B} (run : Transition.Reaches (machine B limit) ok s) :
    s.pendingFutures = ∑ b, tally Phase.counted (s.part b).commands := by
  refine run.invariant (P := fun s => s.pendingFutures = ∑ b, tally Phase.counted (s.part b).commands)
    (by simp [Family.machine]) ?_
  rintro s t ⟨b, a⟩ holds _ stepped
  obtain ⟨next, after, moved, rfl⟩ := Family.step_eq_some.mp stepped
  have change := shared_step (step_effect moved)
  have total := Family.sum_update (fun d : LocalData => tally Phase.counted d.commands) s.part b after
  simp only [State.pendingFutures] at holds ⊢
  omega

end Incredis.Batch
