import Incredis.Batch.Counters
import Mathlib.Algebra.Order.BigOperators.Group.Finset

/-! What the code asserts of the two counters. They are unsigned, so a decrement at
zero would not make them negative but huge. -/
namespace Incredis.Batch
variable {B : Type} [DecidableEq B] {limit : Int}

/-- `reset()` and the destructor are past their wait only with nothing pending. -/
def Drained (d : LocalData) : Prop :=
  ∀ purpose, d.client = .returning purpose → purpose ≠ .replies → d.localPendingFutures = 0

theorem tally_le_length (f : Phase → Bool) (commands : List Cmd) :
    tally f commands ≤ commands.length := by
  simpa only [tally, Int.ofNat_le] using List.countP_le_length

section Step
variable {pending next : Int} {d after : LocalData} {a : Action}

theorem drained_step (effect : Effect limit pending d a next after)
    (exact_ : d.localPendingFutures = tally Phase.localCounted d.commands) (drained : Drained d) :
    Drained after := by
  intro purpose returning closing
  cases effect with
  | run argv opened =>
    have client : d.client = .returning purpose := returning
    cases purpose with
    | replies => exact absurd rfl closing
    | reset | destroy => simp [client, Client.closing, Client.purpose] at opened
  | release found phase =>
    -- the command being released is still counted
    have counted := tally_pos found (f := Phase.localCounted) (by simp [phase, Phase.localCounted])
    have := drained purpose returning closing
    omega
  | enter =>
    by_contra positive
    have positive : d.localPendingFutures ≠ 0 := positive
    simp [positive] at returning
  | recheck =>
    have nonneg := tally_nonneg Phase.localCounted d.commands
    by_cases positive : d.localPendingFutures > 0
    · simp [positive] at returning
    · simp only
      omega
  | passesDone _ zero => exact zero
  | waitsDone | returns | resets | destroys => contradiction
  | notifyDone => exact drained purpose (Client.notify_returning.mp returning) closing
  | store =>
    simp only [LocalData.put_client, LocalData.storeReply_client, LocalData.put_localPendingFutures,
      LocalData.storeReply_localPendingFutures] at returning ⊢
    exact drained purpose returning closing
  | count | waits | passes | add | submit | callback | wakes | wakesNone =>
    exact drained purpose returning closing

end Step

/-- The assertions of `hiredis_run_callback` and `reset()` on the counters. -/
structure CountersAsserted (limit : Int) (s : State B) : Prop where
  shared : ∀ b k parReply t, (machine B limit).step s (b, .callback k parReply) = some t →
    s.pendingFutures > 0
  local_ : ∀ b k t, (machine B limit).step s (b, .release k) = some t →
    (s.part b).localPendingFutures > 0
  reset : ∀ b purpose t, (machine B limit).step s (b, .leave) = some t →
    (s.part b).client = .returning purpose → purpose ≠ .replies →
    (s.part b).localPendingFutures = 0

section Runs
variable [Fintype B] {s : State B}

/-- In every run, whatever hiredis accepts and answers: no counter wraps below zero, none
exceeds the number of commands, and none of the assertions fails. -/
theorem counters_asserted (run : Transition.Reaches (machine B limit) Transition.always s) :
    CountersAsserted limit s ∧
      (0 ≤ s.pendingFutures ∧ s.pendingFutures ≤ ∑ b, ((s.part b).commands.length : Int)) ∧
      ∀ b, 0 ≤ (s.part b).localPendingFutures ∧
        (s.part b).localPendingFutures ≤ (s.part b).commands.length := by
  have shared := shared_exact run
  have nonneg (b : B) := tally_nonneg Phase.counted (s.part b).commands
  have effect {b : B} {a : Action} {t : State B}
      (stepped : (machine B limit).step s (b, a) = some t) :
      ∃ next after, Effect limit s.shared (s.part b) a next after := by
    obtain ⟨next, after, moved, _⟩ := Family.step_eq_some.mp stepped
    exact ⟨next, after, step_effect moved⟩
  refine ⟨⟨?_, ?_, ?_⟩, ⟨?_, ?_⟩, fun b => ?_⟩
  · intro b k parReply t stepped
    obtain ⟨next, after, effect⟩ := effect stepped
    cases effect with
    | callback _ found phase =>
      have counted := tally_pos found (f := Phase.counted) (by simp [phase, Phase.counted])
      have one := Finset.single_le_sum (f := fun b => tally Phase.counted (s.part b).commands)
        (fun b _ => nonneg b) (Finset.mem_univ b)
      rw [shared]
      exact lt_of_lt_of_le counted one
  · intro b k t stepped
    obtain ⟨next, after, effect⟩ := effect stepped
    cases effect with
    | release found phase =>
      rw [local_exact run b]
      exact tally_pos found (by simp [phase, Phase.localCounted])
  · intro b purpose t _ returning closing
    have both := Family.each_invariant
      (P := fun _ d => d.localPendingFutures = tally Phase.localCounted d.commands ∧ Drained d)
      (fun _ => ⟨rfl, by rintro _ ⟨⟩⟩)
      (fun holds _ moved => ⟨local_step (step_effect moved) holds.1,
        drained_step (step_effect moved) holds.1 holds.2⟩) run b
    exact both.2 purpose returning closing
  · rw [shared]
    exact Finset.sum_nonneg fun b _ => nonneg b
  · rw [shared]
    exact Finset.sum_le_sum fun b _ => tally_le_length _ _
  · rw [local_exact run b]
    exact ⟨tally_nonneg _ _, tally_le_length _ _⟩

end Runs

/-- One command is about to be released, another one was rejected. -/
theorem counters_asserted_rejected : ∃ s : State Bool,
    s.pendingFutures = 1 ∧ (s.part true).localPendingFutures = 1 ∧
      CountersAsserted maxRedisUnansweredCommands s := by
  have run := (Transition.initially (machine Bool maxRedisUnansweredCommands) Transition.always).exec
    [(true, .run ["GET", "a"]), (false, .run ["GET", "b"]), (true, .count 0), (false, .count 0),
      (true, .add 0), (false, .add 0), (true, .submit 0 true), (false, .submit 0 false),
      (true, .callback 0 none), (true, .store 0)] rfl
  exact ⟨_, rfl, rfl, (counters_asserted run).1⟩

end Incredis.Batch
