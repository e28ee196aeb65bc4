import Incredis.Batch.Window

/-! Commands that `redisAsyncCommandArgv` does not take. Its result is only looked at in
an assertion; in the build without, nothing undoes the two increments, and no callback
will ever come. -/
namespace Incredis.Batch
variable {B : Type} [DecidableEq B] {limit : Int}

namespace Phase

/-- Counted in `pending_futures` and not rejected. -/
def acceptedCounted (phase : Phase) : Bool := phase.counted && !phase.isRejected

/-- Counted in `local_pending_futures` and not rejected. -/
def acceptedLocalCounted (phase : Phase) : Bool := phase.localCounted && !phase.isRejected

end Phase

theorem tally_split {f g : Phase → Bool} (within : ∀ phase, g phase = true → f phase = true)
    (commands : List Cmd) :
    tally f commands = tally (fun phase => f phase && !g phase) commands + tally g commands := by
  induction commands with
  | nil => rfl
  | cons cmd rest ih =>
    have := within cmd.phase
    simp only [tally, List.countP_cons] at ih ⊢
    cases first : f cmd.phase <;> cases second : g cmd.phase <;> simp_all <;> omega

/-- hiredis has taken every command of the batch that it was given. -/
def NoneRejected (d : LocalData) : Prop := ∀ cmd ∈ d.commands, cmd.phase ≠ .rejected

/-- The client enters `replies()`, `reset()` or the destructor and does not wait. -/
def EntersFreely (limit : Int) (s : State B) (b : B) (purpose : Purpose) : Prop :=
  ∃ t, (machine B limit).step s (b, .enter purpose) = some t ∧
    (t.part b).client = .returning purpose

/-- A rejected command has left nothing behind: the counters are about accepted commands,
and when these have been answered no client waits and the window is empty. -/
structure Forgotten [Fintype B] (limit : Int) (s : State B) : Prop where
  pendingFutures : s.pendingFutures = ∑ b, tally Phase.acceptedCounted (s.part b).commands
  localPendingFutures : ∀ b, (s.part b).localPendingFutures =
    tally Phase.acceptedLocalCounted (s.part b).commands
  entersFreely : ∀ b, Settled (s.part b) → (s.part b).client = .idle →
    ∀ purpose, EntersFreely limit s b purpose
  window : (∀ b, Settled (s.part b)) → s.pendingFutures = 0

theorem rejected_zero {d : LocalData} : tally Phase.isRejected d.commands = 0 ↔ NoneRejected d := by
  constructor
  · intro none cmd member rejected
    obtain ⟨k, found⟩ := List.getElem?_of_mem member
    have kept := tally_eq_zero none found
    rw [rejected] at kept
    contradiction
  · intro none
    apply tally_zero
    intro cmd member
    have other := none cmd member
    cases phase : cmd.phase <;> simp_all [Phase.isRejected]

/-- Where no call is in progress, what is still counted has been rejected. -/
theorem Settled.tally_eq {d : LocalData} (settled : Settled d) {f : Phase → Bool}
    (rejected : f .rejected = true) (finished : f .finished = false) :
    tally f d.commands = tally Phase.isRejected d.commands := by
  have same : d.commands.countP (fun cmd => f cmd.phase) =
      d.commands.countP fun cmd => cmd.phase.isRejected := by
    apply List.countP_congr
    intro cmd member
    rcases settled.phase member with phase | phase
    · simp only [phase, rejected, Phase.isRejected]
    · simp only [phase, finished, Phase.isRejected]
  exact congrArg Int.ofNat same

theorem Settled.quiet {d : LocalData} (settled : Settled d) : d.runInProgress = false := by
  simp only [LocalData.runInProgress, List.any_eq_false, Bool.not_eq_true]
  exact fun cmd member => (settled cmd member).1

/-- An idle client is let through at once exactly when the counter of its batch is zero. -/
theorem entersFreely_iff {s : State B} {b : B} {purpose : Purpose} (settled : Settled (s.part b))
    (idle : (s.part b).client = .idle) :
    EntersFreely limit s b purpose ↔ (s.part b).localPendingFutures = 0 := by
  have entered : (machine B limit).step s (b, .enter purpose) = some ⟨s.shared,
      Function.update s.part b { s.part b with client :=
        if (s.part b).localPendingFutures = 0 then .returning purpose else .rechecking purpose }⟩ := by
    apply Family.step_eq_some.mpr
    exact ⟨_, _, by simp [step, idle, settled.quiet], rfl⟩
  simp only [EntersFreely, entered, Option.some.injEq, exists_eq_left', Function.update_self]
  constructor
  · intro returning
    by_contra positive
    simp [positive] at returning
  · intro drained
    simp [drained]

section Runs
variable [Fintype B] {s : State B}

theorem shared_split (run : Transition.Reaches (machine B limit) Transition.always s) :
    s.pendingFutures = ∑ b, tally Phase.acceptedCounted (s.part b).commands +
      ∑ b, tally Phase.isRejected (s.part b).commands := by
  rw [shared_exact run, ← Finset.sum_add_distrib]
  apply Finset.sum_congr rfl
  intro b _
  apply tally_split
  intro phase
  cases phase <;> simp [Phase.isRejected, Phase.counted]

omit [Fintype B] in
theorem local_split (run : Transition.Reaches (machine B limit) Transition.always s) (b : B) :
    (s.part b).localPendingFutures = tally Phase.acceptedLocalCounted (s.part b).commands +
      tally Phase.isRejected (s.part b).commands := by
  rw [local_exact run b]
  apply tally_split
  intro phase
  cases phase <;> simp [Phase.isRejected, Phase.localCounted]

/-- What a rejected command leaves behind stays, so there is nothing left behind exactly
as long as hiredis takes every command. -/
theorem forgotten_iff (run : Transition.Reaches (machine B limit) Transition.always s) :
    Forgotten limit s ↔ ∀ b, NoneRejected (s.part b) := by
  have shared := shared_split run
  have each := local_split run
  constructor
  · intro forgotten b
    apply rejected_zero.mp
    have exact_ := forgotten.localPendingFutures b
    have split := each b
    omega
  · intro none
    have zero (b : B) : tally Phase.isRejected (s.part b).commands = 0 := rejected_zero.mpr (none b)
    simp only [zero, Finset.sum_const_zero, Int.add_zero] at shared
    constructor
    · exact shared
    · intro b
      rw [each b, zero b, Int.add_zero]
    · intro b settled idle purpose
      apply (entersFreely_iff settled idle).mpr
      rw [local_exact run b, settled.tally_eq rfl rfl, zero b]
    · intro settled
      rw [shared_exact run]
      exact Finset.sum_eq_zero fun b _ => ((settled b).tally_eq rfl rfl).trans (zero b)

/-- Once everything that can be answered has been, it is the rejected commands alone that
keep the clients of their batch waiting and the window from being empty. -/
theorem rejected_block (run : Transition.Reaches (machine B limit) Transition.always s)
    (settled : ∀ b, Settled (s.part b)) :
    s.pendingFutures = ∑ b, tally Phase.isRejected (s.part b).commands ∧
      ∀ b, (s.part b).client = .idle → ∀ purpose,
        (EntersFreely limit s b purpose ↔ NoneRejected (s.part b)) := by
  constructor
  · rw [shared_exact run]
    exact Finset.sum_congr rfl fun b _ => (settled b).tally_eq rfl rfl
  · intro b idle purpose
    rw [entersFreely_iff (settled b) idle, local_exact run b, (settled b).tally_eq rfl rfl,
      rejected_zero]

end Runs

/-- A command is answered, and another is on its way. -/
theorem forgotten_iff_accepted : ∃ s : State Unit, s.pendingFutures = 1 ∧
    (Forgotten 1000 s ↔ ∀ b, NoneRejected (s.part b)) := by
  have run := (Transition.initially (machine Unit 1000) Transition.always).exec
    [((), .run ["GET", "a"]), ((), .count 0), ((), .add 0), ((), .submit 0 true),
     ((), .callback 0 (some .nil)), ((), .store 0), ((), .release 0), ((), .notifyDone 0),
     ((), .run ["GET", "b"]), ((), .count 1), ((), .add 1), ((), .submit 1 true)] rfl
  exact ⟨_, rfl, forgotten_iff run⟩

/-- `run` on a context that is disconnecting: the counter of the batch stays at one. -/
theorem rejected_remembered : ¬ ∀ s : State Unit,
    Transition.Reaches (machine Unit maxRedisUnansweredCommands) Transition.always s →
      Forgotten maxRedisUnansweredCommands s := by
  intro forgotten
  have run := (Transition.initially (machine Unit maxRedisUnansweredCommands)
    Transition.always).exec
    [((), .run ["GET", "key"]), ((), .count 0), ((), .add 0), ((), .submit 0 false)] rfl
  have counted := (forgotten _ run).localPendingFutures ()
  contradiction

end Incredis.Batch
