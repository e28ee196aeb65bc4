import Incredis.Batch.Counters
import Incredis.Batch.Drain
import Mathlib.Algebra.Order.BigOperators.Group.Finset

/-! What the counters are for: they tell how many commands are under way, and so they
keep the number of commands that hiredis holds within the limit. -/
namespace Incredis.Batch
variable {B : Type} [DecidableEq B] {limit : Int}

namespace Phase

/-- `run_pvt` has performed its increment of `pending_futures`. The one of
`local_pending_futures` is the first thing a command does. -/
def added : Phase → Bool
  | entered => false
  | _ => true

/-- The callback has performed its decrement of `pending_futures`. -/
def taken : Phase → Bool
  | notifySlot | storing | releasing | notifyDone | finished => true
  | _ => false

/-- The callback has performed its decrement of `local_pending_futures`. -/
def localTaken : Phase → Bool
  | notifyDone | finished => true
  | _ => false

/-- Given to `redisAsyncCommandArgv`, and the callback has not started. -/
def handed : Phase → Bool
  | inFlight | rejected => true
  | _ => false

/-- Past the check of the window, and the callback has not started. -/
def passed : Phase → Bool
  | admitted | slotted | inFlight | rejected => true
  | _ => false

def isRejected : Phase → Bool
  | rejected => true
  | _ => false

theorem counted_eq (phase : Phase) : phase.counted = (phase.added && !phase.taken) := by
  cases phase <;> rfl

theorem localCounted_eq (phase : Phase) : phase.localCounted = !phase.localTaken := by
  cases phase <;> rfl

end Phase

section Tally
variable {f g : Phase → Bool} {commands : List Cmd}

theorem tally_congr (same : ∀ phase, f phase = g phase) : tally f commands = tally g commands := by
  rw [show f = g from funext same]

theorem tally_mono (within : ∀ phase, f phase = true → g phase = true) :
    tally f commands ≤ tally g commands := by
  apply Int.ofNat_le.mpr
  exact List.countP_mono_left fun cmd _ => within cmd.phase

theorem tally_zero (none : ∀ cmd ∈ commands, f cmd.phase = false) : tally f commands = 0 := by
  simp only [tally, Int.natCast_eq_zero, List.countP_eq_zero, Bool.not_eq_true]
  exact none

end Tally

/-- hiredis accepts every command. -/
def Accepting (_ : State B) : B × Action → Prop
  | (_, .submit _ accepted) => accepted = true
  | _ => True

/-- No call of `run_pvt` or of a callback is in progress, and every command that hiredis
accepted has been answered. -/
def Settled (d : LocalData) : Prop :=
  ∀ cmd ∈ d.commands, cmd.phase.inRun = false ∧ cmd.phase ≠ .inFlight ∧
    cmd.phase.inCallback = false

theorem Settled.phase {d : LocalData} (settled : Settled d) {cmd : Cmd} (member : cmd ∈ d.commands) :
    cmd.phase = .rejected ∨ cmd.phase = .finished := by
  obtain ⟨outside, answered, done⟩ := settled cmd member
  cases phase : cmd.phase <;> simp_all [Phase.inRun, Phase.inCallback]

/-- A command is rejected by its `submit` alone, and for good. -/
theorem rejected_step {pending next : Int} {d after : LocalData} {a : Action}
    (effect : Effect limit pending d a next after) :
    tally Phase.isRejected after.commands = tally Phase.isRejected d.commands ∨
      (∃ k, a = .submit k false) ∧
        tally Phase.isRejected after.commands = tally Phase.isRejected d.commands + 1 := by
  cases effect with
  | @submit k cmd accepted found phase =>
    cases accepted with
    | true => exact .inl (by simp [tally_set found, phase, Phase.isRejected])
    | false => exact .inr ⟨⟨k, rfl⟩, by simp [tally_set found, phase, Phase.isRejected]⟩
  | wakes found phase sleeping blocked distinct =>
    exact .inl (by simp [tally_wake sleeping found distinct, phase, blocked, Phase.isRejected])
  | count found phase | callback _ found phase | release found phase =>
    left
    simp only [LocalData.put_commands, tally_set found, phase]
    split <;> simp [Phase.isRejected]
  | waits found phase | passes found phase | add found phase | wakesNone found phase
  | store found phase | notifyDone found phase =>
    exact .inl (by simp [tally_set found, phase, Phase.isRejected])
  | run | enter | recheck | waitsDone | passesDone | returns | resets | destroys =>
    exact .inl (by simp [Phase.isRejected])

theorem accepting_none_rejected {s : State B}
    (run : Transition.Reaches (machine B limit) Accepting s) (b : B) :
    tally Phase.isRejected (s.part b).commands = 0 := by
  refine Family.each_invariant (P := fun _ d => tally Phase.isRejected d.commands = 0)
    (fun _ => rfl) ?_ run b
  intro s b a next after none accepting moved
  rcases rejected_step (step_effect moved) with same | ⟨⟨k, rfl⟩, _⟩
  · rw [same, none]
  · cases accepting

/-- What the two counters promise of a state. -/
structure Exact [Fintype B] (limit : Int) (s : State B) : Prop where
  pendingFutures : s.pendingFutures =
    ∑ b, tally (fun phase => phase.added && !phase.taken) (s.part b).commands
  localPendingFutures : ∀ b, (s.part b).localPendingFutures =
    tally (fun phase => !phase.localTaken) (s.part b).commands
  nonneg : 0 ≤ s.pendingFutures ∧ ∀ b, 0 ≤ (s.part b).localPendingFutures
  oldCount : ∀ b k parReply t, (machine B limit).step s (b, .callback k parReply) = some t →
    s.pendingFutures > 0
  oldValue : ∀ b k t, (machine B limit).step s (b, .release k) = some t →
    (s.part b).localPendingFutures > 0
  drained : (∀ b, Settled (s.part b)) →
    s.pendingFutures = 0 ∧ ∀ b, (s.part b).localPendingFutures = 0

section Runs
variable [Fintype B] {s : State B}

/-- The counters are exact however many batches there are and however their commands
interleave. -/
theorem counters_are_exact (run : Transition.Reaches (machine B limit) Accepting s) :
    Exact limit s := by
  have shared := shared_exact run
  have each := local_exact run
  have counted (b : B) := tally_nonneg Phase.counted (s.part b).commands
  constructor
  · rw [shared]
    exact Finset.sum_congr rfl fun b _ => tally_congr Phase.counted_eq
  · intro b
    rw [each b]
    exact tally_congr Phase.localCounted_eq
  · constructor
    · rw [shared]
      exact Finset.sum_nonneg fun b _ => counted b
    · intro b
      rw [each b]
      exact tally_nonneg _ _
  · intro b k parReply t stepped
    obtain ⟨next, after, moved, _⟩ := Family.step_eq_some.mp stepped
    cases step_effect moved with
    | callback _ found phase =>
      -- the command that is called back is itself among those counted
      have one : 0 < tally Phase.counted (s.part b).commands :=
        tally_pos found (by simp [phase, Phase.counted])
      have among := Finset.single_le_sum (fun b _ => counted b) (Finset.mem_univ b)
      rw [shared]
      omega
  · intro b k t stepped
    obtain ⟨next, after, moved, _⟩ := Family.step_eq_some.mp stepped
    cases step_effect moved with
    | release found phase =>
      rw [each b]
      exact tally_pos found (by simp [phase, Phase.localCounted])
  · intro settled
    have finished {b : B} {cmd : Cmd} (member : cmd ∈ (s.part b).commands) :
        cmd.phase = .finished := by
      obtain ⟨k, found⟩ := List.getElem?_of_mem member
      have kept := tally_eq_zero (accepting_none_rejected run b) found
      rcases (settled b).phase member with rejected | finished
      · rw [rejected] at kept
        contradiction
      · exact finished
    constructor
    · rw [shared]
      apply Finset.sum_eq_zero
      intro b _
      exact tally_zero fun cmd member => by rw [finished member]; rfl
    · intro b
      rw [each b]
      exact tally_zero fun cmd member => by rw [finished member]; rfl

/-- Passing the check of the window takes room in it. -/
theorem passed_step {pending next : Int} {d after : LocalData} {a : Action}
    (effect : Effect limit pending d a next after) :
    tally Phase.passed after.commands ≤ tally Phase.passed d.commands ∨
      pending < limit ∧
        tally Phase.passed after.commands = tally Phase.passed d.commands + 1 := by
  cases effect with
  | @count k cmd found phase =>
    by_cases full : pending ≥ limit
    · exact .inl (by simp [tally_set found, phase, full, Phase.passed])
    · exact .inr ⟨by omega, by simp [tally_set found, phase, full, Phase.passed]⟩
  | passes found phase room =>
    exact .inr ⟨room, by simp [tally_set found, phase, Phase.passed]⟩
  | wakes found phase sleeping blocked distinct =>
    exact .inl (by simp [tally_wake sleeping found distinct, phase, blocked, Phase.passed])
  | callback _ found phase | submit _ found phase | release found phase =>
    left
    simp only [LocalData.put_commands, tally_set found, phase]
    split <;> simp [Phase.passed]
  | waits found phase | add found phase | wakesNone found phase | store found phase
  | notifyDone found phase =>
    exact .inl (by simp [tally_set found, phase, Phase.passed])
  | run | enter | recheck | waitsDone | passesDone | returns | resets | destroys =>
    exact .inl (by simp [Phase.passed])

theorem passed_within {ok : State B → B × Action → Prop} (positive : 0 < limit)
    (run : Transition.Reaches (machine B limit) ok s) :
    ∑ b, tally Phase.passed (s.part b).commands ≤ limit := by
  induction run with
  | start =>
    have none : ∑ b : B, tally Phase.passed ((machine B limit).start.part b).commands = 0 :=
      Finset.sum_eq_zero fun b _ => rfl
    omega
  | @next s t label before _ stepped ih =>
    obtain ⟨b, a⟩ := label
    obtain ⟨next, after, moved, rfl⟩ := Family.step_eq_some.mp stepped
    have total :=
      Family.sum_update (fun d : LocalData => tally Phase.passed d.commands) s.part b after
    simp only at total ⊢
    rcases passed_step (step_effect moved) with fewer | ⟨room, one⟩
    · omega
    · -- whoever has passed is still counted, so the room seen is room for one more
      have counted : ∑ b, tally Phase.passed (s.part b).commands ≤ s.shared := by
        rw [show s.shared = _ from shared_exact before]
        apply Finset.sum_le_sum
        intro b _
        apply tally_mono
        intro phase
        cases phase <;> simp [Phase.passed, Phase.counted]
      omega

omit [Fintype B] in
/-- One more call of `run` when the window is full: the counter passes the limit. -/
theorem counter_exceeds (positive : 0 < limit) (b : B) :
    ∃ s, Transition.Reaches (machine B limit) Transition.always s ∧ limit < s.pendingFutures := by
  obtain ⟨n, rfl⟩ := Int.eq_ofNat_of_zero_le (Int.le_of_lt positive)
  obtain ⟨d, fills, idle, length, _⟩ := fill (le_refl (n : Int))
  let opened : LocalData := { d with
    localPendingFutures := d.localPendingFutures + 1
    commands := d.commands ++ [{ argv := ["PING"] }] }
  have run : step n n d (.run ["PING"]) = some ((n : Int), opened) := by
    simp [step, Client.closing, Client.purpose, idle, opened]
  have lookup : opened.commandAt n .entered = some { argv := ["PING"] } :=
    LocalData.commandAt_eq_some.mpr ⟨by simp [opened, ← length], rfl⟩
  have count : step n n opened (.count n) = some ((n : Int) + 1,
      opened.put n { argv := ["PING"], phase := .waiting .locking }) := by
    simp [step, lookup]
  have reached := Family.run_alone (i := b) (.start (m := machine B n))
    ((fills.tail ⟨_, run⟩).tail ⟨_, count⟩)
  exact ⟨_, reached, by simp [State.pendingFutures]⟩

/-- hiredis never holds more commands than the limit allows, although the counter can
exceed it. -/
theorem window_respected (positive : 0 < limit) :
    (∀ s, Transition.Reaches (machine B limit) Transition.always s →
      ∑ b, tally Phase.handed (s.part b).commands ≤ limit) ∧
    ∀ _ : B, ∃ s, Transition.Reaches (machine B limit) Transition.always s ∧
      limit < s.pendingFutures := by
  refine ⟨fun s run => ?_, counter_exceeds positive⟩
  apply le_trans (Finset.sum_le_sum fun b _ => ?_) (passed_within positive run)
  apply tally_mono
  intro phase
  cases phase <;> simp [Phase.handed, Phase.passed]

theorem window_respected_default :
    (∀ s : State Bool,
      Transition.Reaches (machine Bool maxRedisUnansweredCommands) Transition.always s →
        ∑ b, tally Phase.handed (s.part b).commands ≤ maxRedisUnansweredCommands) ∧
    ∀ _ : Bool, ∃ s : State Bool,
      Transition.Reaches (machine Bool maxRedisUnansweredCommands) Transition.always s ∧
        maxRedisUnansweredCommands < s.pendingFutures :=
  window_respected (by decide)

end Runs

/-- Two batches; one command has been answered and the other waits for its reply. -/
theorem counters_are_exact_interleaved : ∃ s : State Bool,
    s.pendingFutures = 1 ∧ (s.part true).localPendingFutures = 0 ∧ Exact 1000 s := by
  have run := (Transition.initially (machine Bool 1000) Accepting)
    |>.next (a := (true, .run ["GET", "a"])) (by trivial) rfl
    |>.next (a := (false, .run ["GET", "b"])) (by trivial) rfl
    |>.next (a := (false, .count 0)) (by trivial) rfl
    |>.next (a := (true, .count 0)) (by trivial) rfl
    |>.next (a := (true, .add 0)) (by trivial) rfl
    |>.next (a := (true, .submit 0 true)) (by rfl) rfl
    |>.next (a := (true, .callback 0 (some .nil))) (by trivial) rfl
    |>.next (a := (true, .store 0)) (by trivial) rfl
    |>.next (a := (true, .release 0)) (by trivial) rfl
  exact ⟨_, rfl, rfl, counters_are_exact run⟩

end Incredis.Batch
