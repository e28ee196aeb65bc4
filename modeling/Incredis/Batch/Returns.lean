import Incredis.Batch.Completion
import Incredis.Batch.Order
import Incredis.Fairness
import Mathlib.Algebra.GroupWithZero.Nat

/-! `replies()` and the destructor return. While the client waits, every step of its
batch takes a command nearer to its end or the client nearer to the next test of its
counter; and as long as the last notification is heard there is always a step to
take. -/
namespace Incredis.Batch
open CondVar (Waiter)
variable {B : Type} [DecidableEq B] {limit : Int}

/-- The client is in the wait of `replies()`, or of the destructor. -/
def Client.Awaits (client : Client) (purpose : Purpose) : Prop :=
  client = .rechecking purpose ∨ ∃ waiter, client = .waiting purpose waiter

/-- Steps of the callback still to come. -/
def Phase.remaining : Phase → Nat
  | inFlight => 5
  | notifySlot => 4
  | storing => 3
  | releasing => 2
  | notifyDone => 1
  | entered | waiting _ | admitted | slotted | rejected | finished => 0

def Client.remaining : Client → Nat
  | rechecking _ => 4
  | waiting _ waiter => waiter.distance
  | idle | returning _ | destroyed => 0

/-- A notification may send the client back to its test, so a callback weighs more. -/
def LocalData.remaining (d : LocalData) : Nat :=
  4 * (d.commands.map fun cmd => cmd.phase.remaining).sum + d.client.remaining

/-- A call or a callback of the batch can go on. -/
def Ready (limit : Int) (s : State B) (b : B) : Prop :=
  ∃ a t, (∀ argv, a ≠ .run argv) ∧ (∀ purpose, a ≠ .enter purpose) ∧
    step limit s.shared (s.part b) a = some t

theorem remaining_set {commands : List Cmd} {k : Nat} {cmd : Cmd}
    (found : commands[k]? = some cmd) (new : Cmd) :
    ((commands.set k new).map fun cmd => cmd.phase.remaining).sum + cmd.phase.remaining =
      (commands.map fun cmd => cmd.phase.remaining).sum + new.phase.remaining := by
  induction commands generalizing k with
  | nil => simp at found
  | cons head rest ih =>
    cases k with
    | zero =>
      obtain rfl : head = cmd := by simpa using found
      simp
      omega
    | succ k =>
      have := ih (k := k) (by simpa using found)
      simp only [List.set_cons_succ, List.map_cons, List.sum_cons]
      omega

theorem Client.notify_remaining (client : Client) :
    client.notify.remaining ≤ client.remaining + 3 := by
  cases client with
  | waiting purpose waiter => exact waiter.notify_distance
  | _ => exact Nat.le_add_right _ _

theorem Client.Awaits.notify {client : Client} {purpose : Purpose} (awaits : client.Awaits purpose) :
    client.notify.Awaits purpose := by
  rcases awaits with rfl | ⟨waiter, rfl⟩
  · exact .inl rfl
  · exact .inr ⟨_, rfl⟩

section Step
variable {answer : Nat → Option RedisReply} {pending next : Int} {d after : LocalData} {a : Action}
  {purpose : Purpose}

/-- A step of a callback, whether it notifies the client or not. -/
theorem Client.Awaits.callback (awaits : d.client.Awaits purpose) {k : Nat} {cmd new : Cmd}
    (found : d.commands[k]? = some cmd) (commands : after.commands = d.commands.set k new)
    (lower : new.phase.remaining < cmd.phase.remaining)
    (client : after.client = d.client ∨ after.client = d.client.notify) :
    after.client.Awaits purpose ∧ after.remaining < d.remaining := by
  have sum := remaining_set found new
  have notified := d.client.notify_remaining
  rcases client with same | same
  · rw [LocalData.remaining, LocalData.remaining, commands, same]
    exact ⟨awaits, by omega⟩
  · rw [LocalData.remaining, LocalData.remaining, commands, same]
    exact ⟨awaits.notify, by omega⟩

theorem awaiting_step (effect : Effect limit pending d a next after) (obeys : Obeys answer d a)
    (quiet : d.runInProgress = false) (awaits : d.client.Awaits purpose) :
    after.client = .returning purpose ∨
      after.client.Awaits purpose ∧ after.remaining < d.remaining := by
  have outside {k : Nat} {cmd : Cmd} (found : d.commands[k]? = some cmd) :=
    runInProgress_eq_false.mp quiet k cmd found
  have busy : d.client ≠ .idle := by
    rcases awaits with at_ | ⟨waiter, at_⟩ <;> simp [at_]
  have same : d.client.purpose = some purpose := by
    rcases awaits with at_ | ⟨waiter, at_⟩ <;> rw [at_] <;> rfl
  have unreturned (other : Purpose) : d.client ≠ .returning other := by
    rcases awaits with at_ | ⟨waiter, at_⟩ <;> simp [at_]
  cases effect with
  | run => exact absurd obeys.1 busy
  | enter _ free => exact absurd free busy
  | returns at_ | resets at_ | destroys at_ => exact absurd at_ (unreturned _)
  | count found phase | waits found phase | passes found phase | add found phase
  | submit _ found phase =>
    have := outside found
    simp [phase, Phase.inRun] at this
  | wakes _ _ sleeping blocked =>
    have := outside sleeping
    simp [blocked, Phase.inRun] at this
  | callback _ found phase | release found phase =>
    refine .inr (awaits.callback found rfl ?_ (.inl rfl))
    simp only [phase]
    split <;> decide
  | wakesNone found phase =>
    exact .inr (awaits.callback found rfl (by simp [phase, Phase.remaining]) (.inl rfl))
  | @store k cmd found phase =>
    have commands : ((d.storeReply cmd).put k { cmd with phase := .releasing }).commands =
        d.commands.set k { cmd with phase := .releasing } := by simp
    exact .inr (awaits.callback found commands (by simp [phase, Phase.remaining]) (.inl (by simp)))
  | notifyDone found phase =>
    exact .inr (awaits.callback found rfl (by simp [phase, Phase.remaining]) (.inr rfl))
  | recheck at_ =>
    rw [at_] at same
    cases same
    simp only
    split
    · refine .inr ⟨.inr ⟨_, rfl⟩, ?_⟩
      simp [LocalData.remaining, at_, Client.remaining, Waiter.distance]
    · exact .inl rfl
  | waitsDone at_ moved =>
    rw [at_] at same
    cases same
    have lower := Waiter.advance_distance moved
    refine .inr ⟨.inr ⟨_, rfl⟩, ?_⟩
    simp only [LocalData.remaining, at_, Client.remaining]
    omega
  | passesDone at_ =>
    rw [at_] at same
    cases same
    exact .inl rfl

/-- The callback of a command goes on, and it comes to the others when nobody waits in
`run_pvt()`. -/
theorem unfinished_ready {n k : Nat} {cmd : Cmd} (ordered : Ordered answer n d)
    (quiet : d.runInProgress = false) (found : d.commands[k]? = some cmd)
    (unfinished : cmd.phase ≠ .finished) :
    ∃ a result, (∀ argv, a ≠ .run argv) ∧ (∀ purpose, a ≠ .enter purpose) ∧
      step limit pending d a = some result := by
  have outside := runInProgress_eq_false.mp quiet
  have at_ {phase : Phase} (same : cmd.phase = phase) : d.commandAt k phase = some cmd :=
    LocalData.commandAt_eq_some.mpr ⟨found, same⟩
  have running := outside k cmd found
  cases phase : cmd.phase with
  | finished => exact absurd phase unfinished
  | rejected => exact absurd phase (ordered.follows k cmd found).accepted
  | entered | waiting | admitted | slotted => simp [phase, Phase.inRun] at running
  | inFlight => exact ⟨.callback k none, _, by simp, by simp, by simp only [step, at_ phase]; rfl⟩
  | notifySlot =>
    have nobody : d.commands.any (fun cmd => cmd.phase = .waiting .blocked) = false := by
      simp only [List.any_eq_false, decide_eq_true_eq]
      intro other member blocked
      obtain ⟨j, lookup⟩ := List.getElem?_of_mem member
      have := outside j other lookup
      simp [blocked, Phase.inRun] at this
    exact ⟨.notifySlot k none, _, by simp, by simp, by
      simp only [step, at_ phase, LocalData.notifyFreeCmdSlot, nobody]; rfl⟩
  | storing => exact ⟨.store k, _, by simp, by simp, by simp only [step, at_ phase]; rfl⟩
  | releasing => exact ⟨.release k, _, by simp, by simp, by simp only [step, at_ phase]; rfl⟩
  | notifyDone => exact ⟨.notifyDone k, _, by simp, by simp, by simp only [step, at_ phase]; rfl⟩

/-- With every callback over, the client itself goes on. -/
theorem finished_ready (exact_ : d.localPendingFutures = tally Phase.localCounted d.commands)
    (covered : ClientCovered d) (awaits : d.client.Awaits purpose)
    (all : ∀ (k : Nat) (cmd : Cmd), d.commands[k]? = some cmd → cmd.phase = .finished) :
    ∃ a result, (∀ argv, a ≠ .run argv) ∧ (∀ purpose, a ≠ .enter purpose) ∧
      step limit pending d a = some result := by
  have zero : d.localPendingFutures = 0 := by
    rw [exact_, tally, Int.natCast_eq_zero, List.countP_eq_zero]
    intro cmd member
    obtain ⟨k, found⟩ := List.getElem?_of_mem member
    simp [all k cmd found, Phase.localCounted]
  rcases awaits with at_ | ⟨waiter, at_⟩
  · exact ⟨.recheck, _, by simp, by simp, by simp only [step, at_]; rfl⟩
  · have awake : waiter ≠ .blocked := by
      rintro rfl
      rcases covered _ _ at_ rfl with pending | ⟨k, cmd, found, phase⟩
      · exact pending zero
      · rw [all k cmd found] at phase
        contradiction
    cases moved : waiter.advance (d.localPendingFutures = 0) with
    | waits | passed => exact ⟨.waitDone, _, by simp, by simp, by simp only [step, at_, moved]; rfl⟩
    | stuck => exact absurd (Waiter.advance_stuck.mp moved) awake

/-- As long as the client waits somebody can go on. -/
theorem awaiting_ready {n : Nat} (ordered : Ordered answer n d) (quiet : d.runInProgress = false)
    (exact_ : d.localPendingFutures = tally Phase.localCounted d.commands)
    (covered : ClientCovered d) (awaits : d.client.Awaits purpose) :
    ∃ a result, (∀ argv, a ≠ .run argv) ∧ (∀ purpose, a ≠ .enter purpose) ∧
      step limit pending d a = some result := by
  by_cases all : ∀ (k : Nat) (cmd : Cmd), d.commands[k]? = some cmd → cmd.phase = .finished
  · exact finished_ready exact_ covered awaits all
  · simp only [not_forall] at all
    obtain ⟨k, cmd, found, unfinished⟩ := all
    exact unfinished_ready ordered quiet found unfinished

end Step

section Schedule
variable {answer : Nat → Option RedisReply} {states : Nat → State B}
  {labels : Nat → Option (B × Action)} {b : B} {purpose : Purpose} {n : Nat}

/-- A batch waits for its replies. If hiredis takes and answers its commands, the
scheduler does not pass it over, and its last notifications are heard, it gets them,
whatever happens to the other batches. -/
theorem replies_return (run : Fairness.Run (machine B limit) states labels)
    (obeys : ∀ n a, labels n = some (b, a) →
      Obeys answer ((states n).part b) a ∧ Heard (states n) (b, a))
    (fair : Fairness.Strong (fun n => Ready limit (states n) b) fun n => ∃ a, labels n = some (b, a))
    (awaits : ((states n).part b).client.Awaits purpose) :
    ∃ k ≥ n, ((states k).part b).client = .returning purpose := by
  have reaches (k : Nat) : Transition.Reaches (machine B limit) (fun s label => ∀ a, label = (b, a) →
      Obeys answer (s.part b) a ∧ Heard s (b, a)) (states k) :=
    run.reaches_under (fun n label happened a same => obeys n a (by rw [happened, same])) k
  have ordered (k : Nat) := waited_ordered (reaches k) b fun _ a allowed => (allowed a rfl).1
  have covered (k : Nat) := client_covered (reaches k) b fun _ a allowed => (allowed a rfl).2
  have quiet (k : Nat) (awaits : ((states k).part b).client.Awaits purpose) :
      ((states k).part b).runInProgress = false := by
    refine (ordered k).1.quiet fun idle => ?_
    rcases awaits with at_ | ⟨waiter, at_⟩ <;> simp [at_] at idle
  refine Fairness.leadsTo (P := fun k => ((states k).part b).client.Awaits purpose)
    (fun k => ((states k).part b).remaining) fair ?_ ?_ awaits
  · intro k awaits
    rcases run.cases k with ⟨idle, same⟩ | ⟨⟨c, a⟩, happened, stepped⟩
    · rw [same]
      exact .inr ⟨awaits, Nat.le_refl _, by simp [idle]⟩
    · obtain ⟨next, after, moved, same⟩ := Family.step_eq_some.mp stepped
      rw [same]
      by_cases other : c = b
      · subst other
        simp only [Function.update_self]
        rcases awaiting_step (step_effect moved) (obeys k a happened).1 (quiet k awaits) awaits with
          returned | ⟨still, lower⟩
        · exact .inl returned
        · exact .inr ⟨still, Nat.le_of_lt lower, fun _ => lower⟩
      · simp only [Function.update_of_ne (Ne.symm other)]
        exact .inr ⟨awaits, Nat.le_refl _, by simp [happened, other]⟩
  · intro k always_
    have awaits := always_ k (Nat.le_refl k)
    obtain ⟨waited, gone | ⟨m, order⟩⟩ := ordered k
    · rcases awaits with at_ | ⟨waiter, at_⟩ <;> simp [at_] at gone
    · exact ⟨k, Nat.le_refl k, awaiting_ready order (quiet k awaits) (local_exact (reaches k) b)
        (covered k) awaits⟩

end Schedule

omit [DecidableEq B] in
/-- A batch that has nothing left to do waits for its client to call again. -/
theorem not_ready {s : State B} {b : B} (idle : (s.part b).client = .idle)
    (done : ∀ cmd ∈ (s.part b).commands, cmd.phase = .finished) : ¬ Ready limit s b := by
  rintro ⟨a, ⟨next, after⟩, notRun, notEnter, stepped⟩
  have finished {k : Nat} {cmd : Cmd} (found : (s.part b).commands[k]? = some cmd) :=
    done cmd (List.mem_of_getElem? found)
  cases step_effect stepped with
  | run argv => exact notRun argv rfl
  | enter purpose => exact notEnter purpose rfl
  | count found phase | waits found phase | passes found phase | add found phase
  | submit _ found phase | callback _ found phase | wakes found phase | wakesNone found phase
  | store found phase | release found phase | notifyDone found phase =>
    rw [finished found] at phase
    contradiction
  | recheck at_ | waitsDone at_ | passesDone at_ | returns at_ | resets at_ | destroys at_ =>
    rw [idle] at at_
    contradiction

/-- The client blocks before its only command is answered. A command of the other batch is
rejected, so that its client would wait for ever. -/
theorem replies_return_blocked : ∃ states : Nat → State Bool, ∃ n,
    ((states n).part false).client = .waiting .replies .blocked ∧
      ((states n).part true).At 0 .rejected ∧
      ∃ k ≥ n, ((states k).part false).client = .returning .replies := by
  let ok (s : State Bool) (label : Bool × Action) : Prop := label.1 = false →
    Obeys (fun _ => some .nil) (s.part false) label.2 ∧ Heard s label
  have other {s : State Bool} {a : Action} : ok s (true, a) := by rintro ⟨⟩
  have blocked := (Transition.initially (machine Bool maxRedisUnansweredCommands) ok)
    |>.next (a := (true, .run ["GET", "lock"])) other rfl
    |>.next (a := (true, .count 0)) other rfl
    |>.next (a := (true, .add 0)) other rfl
    |>.next (a := (true, .submit 0 false)) other rfl
    |>.next (a := (false, .run ["GET", "key"])) (by exact fun _ => ⟨⟨rfl, rfl⟩, trivial⟩) rfl
    |>.next (a := (false, .count 0)) (by exact fun _ => ⟨trivial, trivial⟩) rfl
    |>.next (a := (false, .add 0)) (by exact fun _ => ⟨trivial, trivial⟩) rfl
    |>.next (a := (false, .submit 0 true)) (by exact fun _ => ⟨rfl, trivial⟩) rfl
    |>.next (a := (false, .enter .replies)) (by exact fun _ => ⟨⟨rfl, by decide⟩, trivial⟩) rfl
    |>.next (a := (false, .recheck)) (by exact fun _ => ⟨trivial, trivial⟩) rfl
    |>.next (a := (false, .waitDone)) (by exact fun _ => ⟨trivial, trivial⟩) rfl
    |>.next (a := (false, .waitDone)) (by exact fun _ => ⟨trivial, trivial⟩) rfl
    |>.next (a := (false, .waitDone)) (by exact fun _ => ⟨trivial, trivial⟩) rfl
  obtain ⟨states, labels, n, last, rests, here, _⟩ := Fairness.Run.rests_through blocked <|
    .next (a := (false, .leave)) (.next (a := (false, .waitDone)) (.next (a := (false, .waitDone))
      (.next (a := (false, .notifyDone 0)) (.next (a := (false, .release 0))
        (.next (a := (false, .store 0)) (.next (a := (false, .callback 0 (some .nil))) .start
          (by exact fun _ => ⟨rfl, trivial⟩) rfl) (by exact fun _ => ⟨trivial, trivial⟩) rfl)
          (by exact fun _ => ⟨trivial, trivial⟩) rfl)
        (by exact fun _ => ⟨trivial, by rintro _ _ ⟨⟩ ⟨⟨⟩, _⟩⟩) rfl)
        (by exact fun _ => ⟨trivial, trivial⟩) rfl)
      (by exact fun _ => ⟨trivial, trivial⟩) rfl) (by exact fun _ => ⟨trivial, trivial⟩) rfl
  have client : ((states n).part false).client = .waiting .replies .blocked := by rw [here]; rfl
  have rejected : ((states n).part true).At 0 .rejected := by rw [here]; exact ⟨_, rfl, rfl⟩
  refine ⟨states, n, client, rejected, replies_return (b := false) rests.run
    (fun k a happened => rests.allowed k _ happened rfl) ?_ (.inr ⟨_, client⟩)⟩
  refine Fairness.Strong.of_rest fun k (later : k ≥ last) => ?_
  rw [(rests.rests k later).1]
  exact not_ready rfl (by decide)

end Incredis.Batch
