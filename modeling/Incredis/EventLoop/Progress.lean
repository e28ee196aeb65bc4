import Incredis.EventLoop
import Incredis.Fairness
import Mathlib.Data.Fintype.Basic
import Mathlib.Tactic.FinCases

/-! What a fair scheduler makes of the poll thread and its senders. Every sender that has come
to the lock gets through, and every command that hiredis has accepted is registered with the
loop, though the loop leaves its poll for nothing but a wake-up. -/
namespace Incredis.EventLoop
open Filter
variable {ι : Type} {s t : State ι} {i : ι}

section Owner

theorem loop_inside (effect : LoopEffect s t)
    (inside : Mutex.Inside s.mutex (Holds s.loop s.senders)) :
    Mutex.Inside t.mutex (Holds t.loop t.senders) := by
  cases effect with
  | starts | locks => exact .lock rfl
  | unlocks => exact .free _
  | registers at_ | clears _ at_ | iterates at_ =>
    refine inside.keep ?_
    rintro (_ | j) held
    · rfl
    · exact held
  | wakes at_ | returns at_ =>
    refine inside.keep ?_
    rintro (_ | j) held
    · simp [Holds, at_, Loop.holdsMutex] at held
    · exact held

variable [DecidableEq ι]

/-- A sender that takes a step may take its hold of the mutex along. -/
theorem goto_inside {phase : Phase} {loop : Loop} {senders : Senders ι}
    (along : (senders i).phase.holdsMutex = true → phase.holdsMutex = true) (u : Thread ι)
    (held : Holds loop senders u) : Holds loop (senders.goto i phase) u := by
  rcases u with _ | j
  · exact held
  · rw [Holds, goto_apply]
    split
    case isTrue same =>
      subst same
      exact along held
    case isFalse => exact held

theorem goto_enters {phase : Phase} {loop : Loop} {senders : Senders ι}
    (entered : phase.holdsMutex = true) : Holds loop (senders.goto i phase) (.sender i) := by
  rw [Holds, goto_apply, if_pos rfl]
  exact entered

theorem finish_inside {loop : Loop} {senders : Senders ι}
    (outside : (senders i).phase.holdsMutex = false) (u : Thread ι) (held : Holds loop senders u) :
    Holds loop (senders.finish i) u := by
  rcases u with _ | j
  · exact held
  · rw [Holds, finish_apply]
    split
    case isTrue same =>
      subst same
      exact absurd held (by simp [Holds, outside])
    case isFalse => exact held

theorem sender_inside (effect : SenderEffect s i t)
    (inside : Mutex.Inside s.mutex (Holds s.loop s.senders)) :
    Mutex.Inside t.mutex (Holds t.loop t.senders) := by
  cases effect with
  | begins at_ | tests at_ =>
    exact inside.keep (goto_inside (by simp [at_, Phase.holdsMutex]))
  | locks _ enters =>
    refine .lock (goto_enters ?_)
    rcases enters with ⟨_, rfl⟩ | ⟨_, rfl⟩ <;> rfl
  | queues | rejected | sends => exact inside.keep (goto_inside fun _ => rfl)
  | unlocks | finishes => exact .free _
  | skips at_ => exact inside.keep (finish_inside (by simp [at_, Phase.holdsMutex]))

theorem owner_inside (run : Transition.Reaches (machine ι) Transition.always s) :
    Mutex.Inside s.mutex (Holds s.loop s.senders) := by
  refine run.invariant (P := fun s => Mutex.Inside s.mutex (Holds s.loop s.senders))
    (.free _) fun {_ _ a} inside _ step => ?_
  cases a with
  | loop => exact loop_inside (loop_effect step) inside
  | sender => exact sender_inside (sender_effect step) inside

end Owner

section Queue

/-- The call is past its `redisAsyncCommandArgv`. -/
def Phase.submitted : Phase → Bool
  | queued | testing | waking | sending | signalled => true
  | idle | locking | commanding => false

/-- The call that queued the command has returned, or is past the point where it did. -/
def Senders.Queued {ι : Type} (senders : Senders ι) (command : Command ι) : Prop :=
  senders.Returned command ∨
    command.2 = (senders command.1).completed ∧ (senders command.1).phase.submitted = true

variable [DecidableEq ι]

theorem queued_goto {senders : Senders ι} {phase : Phase} {command : Command ι}
    (further : (senders i).phase.submitted = true → phase.submitted = true)
    (queued : senders.Queued command) : (senders.goto i phase).Queued command := by
  rcases queued with returned | ⟨current, submitted⟩
  · exact .inl (returned_goto.mpr returned)
  · refine .inr ?_
    rw [goto_apply]
    split
    case isTrue same =>
      rw [same] at current submitted
      exact ⟨current, further submitted⟩
    case isFalse => exact ⟨current, submitted⟩

theorem queued_now {senders : Senders ι} {phase : Phase} (submitted : phase.submitted = true) :
    (senders.goto i phase).Queued (i, (senders i).completed) := by
  refine .inr ?_
  rw [goto_apply, if_pos rfl]
  exact ⟨rfl, submitted⟩

theorem queued_finish {senders : Senders ι} {command : Command ι}
    (queued : senders.Queued command) : (senders.finish i).Queued command := by
  rw [Senders.Queued, Senders.Returned, finish_apply]
  split
  case isTrue same =>
    left
    rcases queued with returned | ⟨current, _⟩
    · rw [Senders.Returned, same] at returned
      simp only
      omega
    · rw [same] at current
      simp only
      omega
  case isFalse => exact queued

theorem queue_submitted (run : Transition.Reaches (machine ι) Transition.always s) :
    ∀ command ∈ s.queue, s.senders.Queued command := by
  refine run.invariant (P := fun s => ∀ command ∈ s.queue, s.senders.Queued command)
    (by simp [machine]) fun {s t a} holds _ step => ?_
  cases a with
  | loop =>
    cases loop_effect step with
    | registers => simp
    | starts | unlocks | wakes | returns | locks | clears | iterates => exact holds
  | sender i =>
    cases sender_effect step with
    | begins at_ | tests at_ =>
      exact fun command member => queued_goto (by simp [at_, Phase.submitted]) (holds command member)
    | locks _ enters =>
      refine fun command member => queued_goto ?_ (holds command member)
      rcases enters with ⟨at_, rfl⟩ | ⟨at_, rfl⟩ <;> simp [at_, Phase.submitted]
    | rejected | unlocks | sends =>
      exact fun command member => queued_goto (fun _ => rfl) (holds command member)
    | queues at_ =>
      intro command member
      rcases List.mem_append.mp member with old | new
      · exact queued_goto (fun _ => rfl) (holds command old)
      · cases List.mem_singleton.mp new
        exact queued_now rfl
    | skips | finishes => exact fun command member => queued_finish (holds command member)

end Queue

/-- How far the loop is from its next registration. -/
def Loop.distance : Loop → Nat
  | registering => 1
  | starting | processing false => 2
  | processing true | returned false => 3
  | returned true => 4
  | polling => 5
  | registered => 6

/-- How far the loop is from its next unlock. -/
def Loop.unlockDistance : Loop → Nat
  | registered => 1
  | registering => 2
  | processing false => 3
  | processing true => 4
  | starting | polling | returned _ => 0

/-- How far a call is from its return. -/
def Phase.distance : Phase → Nat
  | idle => 0
  | signalled => 1
  | sending => 2
  | waking => 3
  | testing => 4
  | queued => 5
  | commanding => 6
  | locking => 7

section Step

theorem loop_senders (effect : LoopEffect s t) : t.senders = s.senders := by
  cases effect <;> rfl

theorem loop_distance (effect : LoopEffect s t) :
    t.queue = [] ∨ t.queue = s.queue ∧ t.loop.distance ≤ s.loop.distance ∧
      (t.loop ≠ s.loop → t.loop.distance < s.loop.distance) := by
  cases effect with
  | registers => exact .inl rfl
  | starts at_ | unlocks at_ | wakes at_ | returns at_ | iterates at_ =>
    simp [at_, Loop.distance]
  | @locks woken at_ | @clears woken _ at_ => cases woken <;> simp [at_, Loop.distance]

theorem loop_unlockDistance (effect : LoopEffect s t) (inside : s.loop.holdsMutex = true) :
    t.mutex = none ∨ t.loop.holdsMutex = true ∧ t.loop.unlockDistance ≤ s.loop.unlockDistance ∧
      (t.loop ≠ s.loop → t.loop.unlockDistance < s.loop.unlockDistance) := by
  cases effect with
  | unlocks => exact .inl rfl
  | registers at_ | iterates at_ => simp [at_, Loop.holdsMutex, Loop.unlockDistance]
  | @clears woken _ at_ => cases woken <;> simp [at_, Loop.holdsMutex, Loop.unlockDistance]
  | starts at_ | wakes at_ | returns at_ | locks at_ => simp [at_, Loop.holdsMutex] at inside

variable [DecidableEq ι]

theorem sender_loop (effect : SenderEffect s i t) : t.loop = s.loop := by
  cases effect <;> rfl

theorem sender_others (effect : SenderEffect s i t) {j : ι} (other : j ≠ i) :
    t.senders j = s.senders j := by
  cases effect <;> exact Function.update_of_ne other _ _

theorem sender_distance (effect : SenderEffect s i t) (busy : (s.senders i).phase ≠ .idle) :
    (t.senders i).completed = (s.senders i).completed + 1 ∨
      ((t.senders i).phase ≠ .idle ∧ (t.senders i).completed = (s.senders i).completed) ∧
        (t.senders i).phase.distance < (s.senders i).phase.distance := by
  cases effect with
  | begins at_ => exact absurd at_ busy
  | locks _ enters =>
    rcases enters with ⟨at_, rfl⟩ | ⟨at_, rfl⟩ <;> simp [goto_apply, at_, Phase.distance]
  | queues at_ | rejected at_ | unlocks at_ | tests at_ | sends at_ =>
    simp [goto_apply, at_, Phase.distance]
  | skips | finishes => simp [finish_apply]

theorem sender_unlocks (effect : SenderEffect s i t) (inside : (s.senders i).phase.holdsMutex = true) :
    t.mutex = none ∨ (t.senders i).phase.holdsMutex = true ∧
      (t.senders i).phase.distance < (s.senders i).phase.distance := by
  cases effect with
  | begins at_ | skips at_ | tests at_ => simp [at_, Phase.holdsMutex] at inside
  | locks _ enters =>
    rcases enters with ⟨at_, _⟩ | ⟨at_, _⟩ <;> simp [at_, Phase.holdsMutex] at inside
  | queues at_ | rejected at_ | sends at_ => simp [goto_apply, at_, Phase.holdsMutex, Phase.distance]
  | unlocks | finishes => exact .inl rfl

theorem sender_queue (effect : SenderEffect s i t) {command : Command ι}
    (member : command ∈ s.queue) (returned : s.senders.Returned command) :
    command ∈ t.queue ∧ t.senders.Returned command := by
  have finished : (s.senders.finish i).Returned command := by
    rw [Senders.Returned, finish_apply]
    split
    case isTrue same =>
      rw [Senders.Returned, same] at returned
      exact Nat.lt_succ_of_lt returned
    case isFalse => exact returned
  cases effect with
  | queues => exact ⟨List.mem_append_left _ member, returned_goto.mpr returned⟩
  | begins | locks | rejected | unlocks | tests | sends => exact ⟨member, returned_goto.mpr returned⟩
  | skips | finishes => exact ⟨member, finished⟩

end Step

/-- The loop can go on, and out of its poll by a wake-up. -/
def State.LoopReady (s : State ι) : Prop :=
  ∃ a t, a ≠ .poll false ∧ s.loopStep a = some t ∧ t.loop ≠ s.loop

section Ready

theorem loop_ready (free : s.loop.holdsMutex = false → s.mutex = none)
    (woken : s.loop = .polling → s.wakeup = true) : s.LoopReady := by
  cases at_ : s.loop with
  | starting =>
    refine ⟨.lock, { s with mutex := some .loop, loop := .registering }, by simp, ?_, by simp [at_]⟩
    simp [State.loopStep, at_, free (by rw [at_]; rfl)]
  | registering =>
    exact ⟨.register, { s with queue := [], loop := .registered }, by simp,
      by simp [State.loopStep, at_], by simp [at_]⟩
  | registered =>
    exact ⟨.unlock, { s with mutex := none, loop := .polling }, by simp,
      by simp [State.loopStep, at_], by simp [at_]⟩
  | polling =>
    exact ⟨.poll true, { s with wakeup := false, loop := .returned true }, by simp,
      by simp [State.loopStep, at_, woken at_], by simp [at_]⟩
  | returned flag =>
    refine ⟨.lock, { s with mutex := some .loop, loop := .processing flag }, by simp, ?_, by simp [at_]⟩
    simp [State.loopStep, at_, free (by rw [at_]; rfl)]
  | processing flag =>
    cases flag with
    | true =>
      exact ⟨.clear false, { s with asyncPending := false, loop := .processing false }, by simp,
        by simp [State.loopStep, at_], by simp [at_]⟩
    | false =>
      exact ⟨.iterate, { s with loop := .registering }, by simp, by simp [State.loopStep, at_],
        by simp [at_]⟩

variable [DecidableEq ι]

/-- The thread is in a call and can go on. -/
def State.SenderReady (s : State ι) (i : ι) : Prop :=
  (s.senders i).phase ≠ .idle ∧ ∃ a t, s.senderStep i a = some t

theorem sender_ready (busy : (s.senders i).phase ≠ .idle)
    (free : (s.senders i).phase = .locking ∨ (s.senders i).phase = .waking → s.mutex = none) :
    s.SenderReady i := by
  refine ⟨busy, ?_⟩
  cases at_ : (s.senders i).phase with
  | idle => exact absurd at_ busy
  | locking | waking =>
    have unlocked := free (by simp [at_])
    exact ⟨.lock, _, by simp only [State.senderStep, at_, unlocked, if_true]; rfl⟩
  | commanding => exact ⟨.command true, _, by simp only [State.senderStep, at_]; rfl⟩
  | queued | signalled => exact ⟨.unlock, _, by simp only [State.senderStep, at_]; rfl⟩
  | testing => exact ⟨.test, _, by simp only [State.senderStep, at_]; rfl⟩
  | sending => exact ⟨.send, _, by simp only [State.senderStep, at_]; rfl⟩

end Ready

/-- Neither the scheduler nor the mutex passes over a thread for ever that can go on
again and again. -/
structure FairSchedule [DecidableEq ι] (states : Nat → State ι)
    (labels : Nat → Option (Action ι)) : Prop where
  loop : Fairness.Strong (fun n => (states n).LoopReady)
    fun n => (states (n + 1)).loop ≠ (states n).loop
  sender : ∀ i, Fairness.Strong (fun n => (states n).SenderReady i)
    fun n => ∃ a, labels n = some (.sender i a)

section Schedule
variable [DecidableEq ι] {states : Nat → State ι} {labels : Nat → Option (Action ι)} {n : Nat}

/-- At one time a given sender moves, or rests while the loop or another sender does. -/
theorem sender_time (run : Fairness.Run (machine ι) states labels) (n : Nat) (i : ι) :
    SenderEffect (states n) i (states (n + 1)) ∨
      (states (n + 1)).senders i = (states n).senders i ∧ ¬ ∃ a, labels n = some (.sender i a) := by
  rcases run.cases n with ⟨idle, same⟩ | ⟨label, happened, step⟩
  · exact .inr ⟨by rw [same], by simp [idle]⟩
  · cases label with
    | loop a => exact .inr ⟨by rw [loop_senders (loop_effect step)], by simp [happened]⟩
    | sender j a =>
      by_cases same : i = j
      · subst same
        exact .inl (sender_effect step)
      · exact .inr ⟨sender_others (sender_effect step) same, by simp [happened, Ne.symm same]⟩

/-- And the loop. -/
theorem loop_time (run : Fairness.Run (machine ι) states labels) (n : Nat) :
    LoopEffect (states n) (states (n + 1)) ∨
      (states (n + 1)).loop = (states n).loop ∧
        ∀ command ∈ (states n).queue, (states n).senders.Returned command →
          command ∈ (states (n + 1)).queue ∧ (states (n + 1)).senders.Returned command := by
  rcases run.cases n with ⟨_, same⟩ | ⟨label, _, step⟩
  · rw [same]
    exact .inr ⟨rfl, fun _ member returned => ⟨member, returned⟩⟩
  · cases label with
    | loop a => exact .inl (loop_effect step)
    | sender j a =>
      exact .inr ⟨sender_loop (sender_effect step), fun _ => sender_queue (sender_effect step)⟩

variable (run : Fairness.Run (machine ι) states labels) (fair : FairSchedule states labels)
include run fair

theorem sender_leaves (inside : ((states n).senders i).phase.holdsMutex = true) :
    ∃ k ≥ n, (states k).mutex = none := by
  refine Fairness.leadsTo (P := fun n => ((states n).senders i).phase.holdsMutex = true)
    (fun n => ((states n).senders i).phase.distance) (fair.sender i) ?_ ?_ inside
  · intro n inside
    rcases sender_time run n i with effect | ⟨same, still⟩
    · rcases sender_unlocks effect inside with unlocked | ⟨holds, lower⟩
      · exact .inl unlocked
      · exact .inr ⟨holds, Nat.le_of_lt lower, fun _ => lower⟩
    · simp only [same]
      exact .inr ⟨inside, Nat.le_refl _, fun moved => absurd moved still⟩
  · intro n always_
    have inside := always_ n (Nat.le_refl n)
    refine ⟨n, Nat.le_refl n, sender_ready ?_ ?_⟩
    · intro idle
      simp [idle, Phase.holdsMutex] at inside
    · rintro (at_ | at_) <;> simp [at_, Phase.holdsMutex] at inside

theorem loop_leaves (inside : (states n).loop.holdsMutex = true) :
    ∃ k ≥ n, (states k).mutex = none := by
  refine Fairness.leadsTo (P := fun n => (states n).loop.holdsMutex = true)
    (fun n => (states n).loop.unlockDistance) fair.loop ?_ ?_ inside
  · intro n inside
    rcases loop_time run n with effect | ⟨same, _⟩
    · exact loop_unlockDistance effect inside
    · simp only [same]
      exact .inr ⟨inside, Nat.le_refl _, fun moved => absurd rfl moved⟩
  · intro n always_
    have inside := always_ n (Nat.le_refl n)
    refine ⟨n, Nat.le_refl n, loop_ready ?_ ?_⟩
    · intro outside
      simp [inside] at outside
    · intro polling
      simp [polling, Loop.holdsMutex] at inside

/-- The mutex is free again and again. -/
theorem mutex_freed (n : Nat) : ∃ k ≥ n, (states k).mutex = none := by
  cases owner : (states n).mutex with
  | none => exact ⟨n, Nat.le_refl n, owner⟩
  | some u =>
    have inside := owner_inside (run.reaches n) u owner
    cases u with
    | loop => exact loop_leaves run fair inside
    | sender i => exact sender_leaves run fair inside

theorem busy_returns (busy : ((states n).senders i).phase ≠ .idle) :
    ∃ k ≥ n, ((states k).senders i).completed = ((states n).senders i).completed + 1 := by
  refine Fairness.leadsTo (P := fun k => ((states k).senders i).phase ≠ .idle ∧
      ((states k).senders i).completed = ((states n).senders i).completed)
    (fun k => ((states k).senders i).phase.distance) (fair.sender i) ?_ ?_ ⟨busy, rfl⟩
  · rintro k ⟨busy, count⟩
    rcases sender_time run k i with effect | ⟨same, still⟩
    · rw [← count]
      rcases sender_distance effect busy with returned | ⟨holds, lower⟩
      · exact .inl returned
      · exact .inr ⟨holds, Nat.le_of_lt lower, fun _ => lower⟩
    · simp only [same]
      exact .inr ⟨⟨busy, count⟩, Nat.le_refl _, fun moved => absurd moved still⟩
  · intro k always_
    obtain ⟨j, later, free⟩ := mutex_freed run fair k
    exact ⟨j, later, sender_ready (always_ j later).1 fun _ => free⟩

/-- A command whose call has returned is registered. -/
theorem returned_registered {command : Command ι} (queued : command ∈ (states n).queue)
    (returned : (states n).senders.Returned command) : ∃ k ≥ n, command ∉ (states k).queue := by
  refine Fairness.leadsTo (P := fun k => command ∈ (states k).queue ∧ (states k).senders.Returned command)
    (fun k => (states k).loop.distance) fair.loop ?_ ?_ ⟨queued, returned⟩
  · rintro k ⟨queued, returned⟩
    rcases loop_time run k with effect | ⟨same, kept⟩
    · rcases loop_distance effect with registered | ⟨queue, lower, drops⟩
      · exact .inl (by simp [registered])
      · rw [loop_senders effect, queue]
        exact .inr ⟨⟨queued, returned⟩, lower, drops⟩
    · simp only [same]
      exact .inr ⟨kept command queued returned, Nat.le_refl _, fun moved => absurd rfl moved⟩
  · intro k always_
    obtain ⟨j, later, free⟩ := mutex_freed run fair k
    obtain ⟨queued, returned⟩ := always_ j later
    refine ⟨j, later, loop_ready (fun _ => free) fun polling => ?_⟩
    -- no wake-up in sight would be a stall
    by_contra quiet
    exact queued_never_stalls (run.reaches j)
      ⟨polling, by simpa using quiet, command, queued, returned⟩

end Schedule

/-- A thread that has come to the lock in `run_pvt()`, or to `wakeup_event_thread()`, gets to the
end of its call. -/
theorem handover_returns [DecidableEq ι] {states : Nat → State ι} {labels : Nat → Option (Action ι)}
    (run : Fairness.Run (machine ι) states labels) (fair : FairSchedule states labels)
    {n : Nat} (busy : ((states n).senders i).phase ≠ .idle) :
    ∃ k ≥ n, ((states k).senders i).completed = ((states n).senders i).completed + 1 :=
  busy_returns run fair busy

/-- Every command that hiredis has accepted is registered with the loop. -/
theorem command_registered [DecidableEq ι] {states : Nat → State ι}
    {labels : Nat → Option (Action ι)} (run : Fairness.Run (machine ι) states labels)
    (fair : FairSchedule states labels) {n : Nat} {command : Command ι}
    (queued : command ∈ (states n).queue) :
    ∃ k ≥ n, command ∉ (states k).queue := by
  by_contra waiting
  have stays : ∀ k ≥ n, command ∈ (states k).queue := fun k later => by
    by_contra gone
    exact waiting ⟨k, later, gone⟩
  obtain ⟨k, later, returned⟩ : ∃ k ≥ n, (states k).senders.Returned command := by
    rcases queue_submitted (run.reaches n) command queued with returned | ⟨current, submitted⟩
    · exact ⟨n, Nat.le_refl n, returned⟩
    · have busy : ((states n).senders command.1).phase ≠ .idle := by
        intro idle
        simp [idle, Phase.submitted] at submitted
      obtain ⟨k, later, count⟩ := busy_returns run fair busy
      exact ⟨k, later, by rw [Senders.Returned]; omega⟩
  obtain ⟨j, after, gone⟩ := returned_registered run fair (stays k later) returned
  exact gone (stays j (Nat.le_trans later after))

/-- Two senders and one wake-up: that of the first is pending when the second tests for one. The
loop registers both commands and goes on with idle turns. -/
def twoCalls : List (Action Bool) :=
  [.loop .lock, .loop .register, .loop .unlock, .sender true .runPvt, .sender true .lock,
    .sender true (.command true), .sender true .unlock, .sender true .test, .sender true .lock,
    .sender true .send, .sender true .unlock, .sender false .runPvt, .sender false .lock,
    .sender false (.command true), .sender false .unlock, .sender false .test,
    .loop (.poll true), .loop .lock, .loop (.clear true), .loop .iterate, .loop .register,
    .loop .unlock, .loop (.poll false), .loop .lock, .loop .iterate, .loop .register, .loop .unlock]

def twoCallsLabel (j : Fin 27) : Action Bool := twoCalls.get (j.cast rfl)

def twoCallsState (j : Fin 27) : State Bool :=
  (Transition.exec (machine Bool) {} (twoCalls.take j)).getD {}

/-- The idle turn is repeated for ever. -/
def twoCallsAfter (j : Fin 27) : Fin 27 := if j = 26 then 22 else j + 1

theorem twoCalls_run : Fairness.Run (machine Bool) (fun n => twoCallsState (twoCallsAfter^[n] 0))
    fun n => some (twoCallsLabel (twoCallsAfter^[n] 0)) :=
  .lasso rfl fun j => by fin_cases j <;> rfl

theorem twoCalls_fair : FairSchedule (fun n => twoCallsState (twoCallsAfter^[n] 0))
    fun n => some (twoCallsLabel (twoCallsAfter^[n] 0)) := by
  have settled : ∀ n ≥ 16, 16 ≤ twoCallsAfter^[n] 0 := by
    apply Nat.le_induction
    · decide
    · intro n _ ih
      rw [Function.iterate_succ_apply']
      revert ih
      generalize twoCallsAfter^[n] 0 = j
      revert j
      decide
  constructor
  · intro _
    refine frequently_atTop.mpr fun n => ⟨max n 16, le_max_left n 16, ?_⟩
    have late := settled _ (le_max_right n 16)
    rw [Function.iterate_succ_apply']
    revert late
    generalize twoCallsAfter^[max n 16] 0 = j
    revert j
    decide
  · intro i ready
    have rest : ∀ j : Fin 27, 16 ≤ j → ∀ i, ((twoCallsState j).senders i).phase = .idle := by decide
    obtain ⟨n, late, busy, _⟩ := frequently_atTop.mp ready 16
    exact absurd (rest _ (settled n late) i) busy

theorem handover_returns_twice :
    ∃ k ≥ 12, ((twoCallsState (twoCallsAfter^[k] 0)).senders false).completed = 1 :=
  handover_returns (n := 12) (i := false) twoCalls_run twoCalls_fair (by decide)

/-- The second command is registered, though its sender leaves the wake-up to the first. -/
theorem command_registered_skipped :
    (twoCallsState 15).asyncPending = true ∧ twoCallsLabel 15 = .sender false .test ∧
      ∃ k ≥ 15, (false, 0) ∉ (twoCallsState (twoCallsAfter^[k] 0)).queue :=
  ⟨by decide, by decide, command_registered (n := 15) twoCalls_run twoCalls_fair (by decide)⟩

end Incredis.EventLoop
