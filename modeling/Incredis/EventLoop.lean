import Incredis.Mutex
import Incredis.Transition
import Mathlib.Logic.Function.Basic

/-! `run_pvt()` and `wakeup_event_thread()` on any number of threads, against the loop
of the poll thread. Of libev: `lock_mutex_libev` and `unlock_mutex_libev` leave
`libev_mutex` to the others while the loop polls and at no other time; a watcher started
meanwhile is registered before the next poll; `ev_async_send` sets the flag that
`ev_async_pending` reads and makes the current or the next poll return; the loop clears
the flag of a wake-up after the poll it ended and before it registers.

The calls of `run_pvt()` begin where they lock `event_mutex()`; the wait for a free slot
comes before. The loop runs for ever: nobody disconnects. -/
namespace Incredis.EventLoop

/-- One turn of `ev_run`, named after what comes next: to register the watchers, to
release the mutex, to return from the poll, to lock the mutex, to call the callbacks.
`woken` marks a wake-up that has ended the poll and whose flag is yet to be cleared. -/
inductive Loop
  | starting
  | registering
  | registered
  | polling
  | returned (woken : Bool)
  | processing (woken : Bool)
deriving DecidableEq, Repr

/-- Where a sender stands. `locking`, `commanding` and `queued` lie around its
`redisAsyncCommandArgv`; from `testing` on it is in `wakeup_event_thread()`. -/
inductive Phase
  | idle
  | locking
  | commanding
  | queued
  | testing
  | waking
  | sending
  | signalled
deriving DecidableEq, Repr

def Loop.holdsMutex : Loop → Bool
  | starting | polling | returned _ => false
  | registering | registered | processing _ => true

def Phase.holdsMutex : Phase → Bool
  | commanding | queued | sending | signalled => true
  | idle | locking | testing | waking => false

/-- A sender and the number of its calls that have returned. -/
structure Sender where
  phase : Phase := .idle
  completed : Nat := 0
deriving DecidableEq, Repr

inductive Thread (ι : Type)
  | loop
  | sender (i : ι)
deriving DecidableEq, Repr

abbrev Senders (ι : Type) := ι → Sender

/-- A command by its sender and the number of its call. -/
abbrev Command (ι : Type) := ι × Nat

namespace Senders
variable {ι : Type} [DecidableEq ι]

def goto (senders : Senders ι) (i : ι) (phase : Phase) : Senders ι :=
  Function.update senders i { senders i with phase := phase }

/-- `wakeup_event_thread()` returns. -/
def finish (senders : Senders ι) (i : ι) : Senders ι :=
  Function.update senders i ⟨.idle, (senders i).completed + 1⟩

end Senders

/-- `queue` holds the commands that no registration has seen yet, `asyncPending` is the
flag of `watcher_wakeup`, and with `wakeup` the current or next poll returns. -/
structure State (ι : Type) where
  mutex : Option (Thread ι) := none
  loop : Loop := .starting
  asyncPending : Bool := false
  wakeup : Bool := false
  queue : List (Command ι) := []
  senders : Senders ι := fun _ => {}

inductive LoopAction
  | lock
  | register
  | unlock
  | poll (woken : Bool)
  | clear (drained : Bool)
  | iterate
deriving DecidableEq, Repr

/-- `runPvt` begins the part of `run_pvt()` from its lock on, `wakeup` the call that `connect()`
makes. -/
inductive SenderAction
  | runPvt
  | wakeup
  | lock
  | command (accepted : Bool)
  | unlock
  | test
  | send
deriving DecidableEq, Repr

inductive Action (ι : Type)
  | loop (a : LoopAction)
  | sender (i : ι) (a : SenderAction)
deriving DecidableEq, Repr

namespace State
variable {ι : Type} [DecidableEq ι]

def loopStep (s : State ι) (a : LoopAction) : Option (State ι) :=
  match s.loop, a with
  | .starting, .lock =>
    if s.mutex = none then some { s with mutex := some .loop, loop := .registering } else none
  | .registering, .register => some { s with queue := [], loop := .registered }
  | .registered, .unlock => some { s with mutex := none, loop := .polling }
  -- a poll may also return for a socket or a timer, with the wake-up still to come
  | .polling, .poll woken =>
    if woken && !s.wakeup then none
    else some { s with wakeup := s.wakeup && !woken, loop := .returned woken }
  | .returned woken, .lock =>
    if s.mutex = none then some { s with mutex := some .loop, loop := .processing woken } else none
  -- a second wake-up sent since the poll returned may be taken with the first
  | .processing _, .clear drained =>
    some { s with
      asyncPending := false
      wakeup := s.wakeup && !drained
      loop := .processing false }
  | .processing false, .iterate => some { s with loop := .registering }
  | _, _ => none

def senderStep (s : State ι) (i : ι) (a : SenderAction) : Option (State ι) :=
  match (s.senders i).phase, a with
  | .idle, .runPvt => some { s with senders := s.senders.goto i .locking }
  | .idle, .wakeup => some { s with senders := s.senders.goto i .testing }
  | .locking, .lock =>
    if s.mutex = none then
      some { s with mutex := some (.sender i), senders := s.senders.goto i .commanding }
    else none
  | .commanding, .command accepted =>
    some { s with
      queue := if accepted then s.queue ++ [(i, (s.senders i).completed)] else s.queue
      senders := s.senders.goto i .queued }
  | .queued, .unlock => some { s with mutex := none, senders := s.senders.goto i .testing }
  | .testing, .test =>
    some { s with
      senders := if s.asyncPending then s.senders.finish i else s.senders.goto i .waking }
  | .waking, .lock =>
    if s.mutex = none then
      some { s with mutex := some (.sender i), senders := s.senders.goto i .sending }
    else none
  | .sending, .send =>
    some { s with
      asyncPending := true
      wakeup := true
      senders := s.senders.goto i .signalled }
  | .signalled, .unlock => some { s with mutex := none, senders := s.senders.finish i }
  | _, _ => none

end State

def machine (ι : Type) [DecidableEq ι] : Transition.Machine (State ι) (Action ι) where
  start := {}
  step s
    | .loop a => s.loopStep a
    | .sender i a => s.senderStep i a

/-- The call that queued the command has returned from `wakeup_event_thread()`. -/
def Senders.Returned {ι : Type} (senders : Senders ι) (command : Command ι) : Prop :=
  command.2 < (senders command.1).completed

/-- Where the code of a thread holds `libev_mutex`. -/
def Holds {ι : Type} (loop : Loop) (senders : Senders ι) : Thread ι → Prop
  | .loop => loop.holdsMutex = true
  | .sender i => (senders i).phase.holdsMutex = true

namespace State
variable {ι : Type}

/-- The loop sleeps, nothing is going to wake it, and a command waits whose sender has
done its part. -/
def Stalled (s : State ι) : Prop :=
  s.loop = .polling ∧ s.wakeup = false ∧ ∃ command ∈ s.queue, s.senders.Returned command

/-- The loop will see a wake-up before it sleeps. -/
def Coming (s : State ι) : Prop :=
  s.wakeup = true ∨ s.loop = .returned true ∨ s.loop = .processing true

theorem Coming.wakeup {s : State ι} (coming : s.Coming) (returned : s.loop ≠ .returned true)
    (processing : s.loop ≠ .processing true) : s.wakeup = true := by
  rcases coming with wakeup | at_ | at_
  · exact wakeup
  · exact absurd at_ returned
  · exact absurd at_ processing

end State

section Step
variable {ι : Type} {s t : State ι} {i : ι}

/-- The effects of a step of the loop. -/
inductive LoopEffect (s : State ι) : State ι → Prop
  | starts (at_ : s.loop = .starting) (free : s.mutex = none) :
    LoopEffect s { s with mutex := some .loop, loop := .registering }
  | registers (at_ : s.loop = .registering) :
    LoopEffect s { s with queue := [], loop := .registered }
  | unlocks (at_ : s.loop = .registered) :
    LoopEffect s { s with mutex := none, loop := .polling }
  | wakes (at_ : s.loop = .polling) (wakeup : s.wakeup = true) :
    LoopEffect s { s with wakeup := false, loop := .returned true }
  | returns (at_ : s.loop = .polling) : LoopEffect s { s with loop := .returned false }
  | locks {woken} (at_ : s.loop = .returned woken) (free : s.mutex = none) :
    LoopEffect s { s with mutex := some .loop, loop := .processing woken }
  | clears {woken} (drained) (at_ : s.loop = .processing woken) :
    LoopEffect s { s with
      asyncPending := false
      wakeup := s.wakeup && !drained
      loop := .processing false }
  | iterates (at_ : s.loop = .processing false) : LoopEffect s { s with loop := .registering }

theorem loop_effect {a : LoopAction} (step : s.loopStep a = some t) : LoopEffect s t := by
  unfold State.loopStep at step
  split at step
  case h_1 at_ =>
    split at step <;> cases step
    exact .starts at_ ‹_›
  case h_2 at_ =>
    cases step
    exact .registers at_
  case h_3 at_ =>
    cases step
    exact .unlocks at_
  case h_4 woken at_ =>
    cases woken with
    | true =>
      cases wakeup : s.wakeup <;> rw [wakeup] at step <;> cases step
      exact .wakes at_ wakeup
    | false =>
      simp only [Bool.false_and, Bool.not_false, Bool.and_true, Bool.false_eq_true, if_false,
        Option.some.injEq] at step
      subst step
      exact .returns at_
  case h_5 woken at_ =>
    split at step <;> cases step
    exact .locks at_ ‹_›
  case h_6 drained at_ =>
    cases step
    exact .clears drained at_
  case h_7 at_ =>
    cases step
    exact .iterates at_
  case h_8 => cases step

variable [DecidableEq ι]

/-- The effects of a step of a sender. -/
inductive SenderEffect (s : State ι) (i : ι) : State ι → Prop
  | begins {next} (at_ : (s.senders i).phase = .idle) (outside : next.holdsMutex = false) :
    SenderEffect s i { s with senders := s.senders.goto i next }
  | locks {next} (free : s.mutex = none)
      (enters : (s.senders i).phase = .locking ∧ next = .commanding ∨
        (s.senders i).phase = .waking ∧ next = .sending) :
    SenderEffect s i { s with mutex := some (.sender i), senders := s.senders.goto i next }
  | queues (at_ : (s.senders i).phase = .commanding) :
    SenderEffect s i { s with
      queue := s.queue ++ [(i, (s.senders i).completed)]
      senders := s.senders.goto i .queued }
  | rejected (at_ : (s.senders i).phase = .commanding) :
    SenderEffect s i { s with senders := s.senders.goto i .queued }
  | unlocks (at_ : (s.senders i).phase = .queued) :
    SenderEffect s i { s with mutex := none, senders := s.senders.goto i .testing }
  | skips (at_ : (s.senders i).phase = .testing) (pending : s.asyncPending = true) :
    SenderEffect s i { s with senders := s.senders.finish i }
  | tests (at_ : (s.senders i).phase = .testing) (unset : s.asyncPending = false) :
    SenderEffect s i { s with senders := s.senders.goto i .waking }
  | sends (at_ : (s.senders i).phase = .sending) :
    SenderEffect s i { s with
      asyncPending := true
      wakeup := true
      senders := s.senders.goto i .signalled }
  | finishes (at_ : (s.senders i).phase = .signalled) :
    SenderEffect s i { s with mutex := none, senders := s.senders.finish i }

theorem sender_effect {a : SenderAction} (step : s.senderStep i a = some t) :
    SenderEffect s i t := by
  unfold State.senderStep at step
  split at step
  case h_1 at_ | h_2 at_ =>
    cases step
    exact .begins at_ rfl
  case h_3 at_ =>
    split at step <;> cases step
    exact .locks ‹_› (.inl ⟨at_, rfl⟩)
  case h_4 accepted at_ =>
    cases accepted <;> cases step
    · exact .rejected at_
    · exact .queues at_
  case h_5 at_ =>
    cases step
    exact .unlocks at_
  case h_6 at_ =>
    cases step
    split
    case isTrue pending => exact .skips at_ pending
    case isFalse unset => exact .tests at_ (by simpa using unset)
  case h_7 at_ =>
    split at step <;> cases step
    exact .locks ‹_› (.inr ⟨at_, rfl⟩)
  case h_8 at_ =>
    cases step
    exact .sends at_
  case h_9 at_ =>
    cases step
    exact .finishes at_
  case h_10 => cases step

section Senders
variable {senders : Senders ι} {phase : Phase} {loop : Loop} {j : ι}

theorem goto_apply : senders.goto i phase j =
    if j = i then { senders i with phase := phase } else senders j :=
  Function.update_apply ..

theorem finish_apply : senders.finish i j =
    if j = i then ⟨.idle, (senders i).completed + 1⟩ else senders j :=
  Function.update_apply ..

theorem holds_goto {u : Thread ι} (inside : Holds loop (senders.goto i phase) u) :
    u = .sender i ∧ phase.holdsMutex = true ∨ u ≠ .sender i ∧ Holds loop senders u := by
  rcases u with _ | j
  · exact .inr ⟨by simp, inside⟩
  · rw [Holds, goto_apply] at inside
    split at inside
    case isTrue same => exact .inl ⟨by rw [same], inside⟩
    case isFalse other => exact .inr ⟨by simpa using other, inside⟩

theorem holds_finish {u : Thread ι} (inside : Holds loop (senders.finish i) u) :
    u ≠ .sender i ∧ Holds loop senders u := by
  rcases u with _ | j
  · exact ⟨by simp, inside⟩
  · rw [Holds, finish_apply] at inside
    split at inside
    case isTrue => cases inside
    case isFalse other => exact ⟨by simpa using other, inside⟩

theorem returned_goto {command : Command ι} :
    (senders.goto i phase).Returned command ↔ senders.Returned command := by
  rw [Senders.Returned, Senders.Returned, goto_apply]
  split
  case isTrue same => rw [same]
  case isFalse => rfl

theorem signalled_goto (other : phase ≠ .signalled)
    (at_ : (senders.goto i phase j).phase = .signalled) : (senders j).phase = .signalled := by
  rw [goto_apply] at at_
  split at at_
  · exact absurd at_ other
  · exact at_

theorem signalled_finish (at_ : (senders.finish i j).phase = .signalled) :
    (senders j).phase = .signalled := by
  rw [finish_apply] at at_
  split at at_
  · cases at_
  · exact at_

end Senders
end Step

/-- What holds between any two steps. A set flag stands for a wake-up that is coming;
so a sender may rely on a flag that another one has set, and the wake-up of its own is
still there when it unlocks, because the loop needs the mutex to get past it. -/
structure Awake (s : State ι) : Prop where
  exclusive : Mutex.Exclusive s.mutex (Holds s.loop s.senders)
  pending : s.asyncPending = true → s.Coming
  signalled : ∀ i, (s.senders i).phase = .signalled → s.loop = .polling → s.wakeup = true
  registered : s.loop = .registered → s.queue = []
  polling : s.loop = .polling → s.wakeup = false → ∀ command ∈ s.queue, ¬ s.senders.Returned command

section Invariant
variable {ι : Type} {s t : State ι} {i : ι}

theorem loop_exclusive (effect : LoopEffect s t) (exclusive : Mutex.Exclusive s.mutex (Holds s.loop s.senders)) :
    Mutex.Exclusive t.mutex (Holds t.loop t.senders) := by
  cases effect with
  | starts _ free | locks _ free =>
    rw [free] at exclusive
    refine exclusive.lock ?_
    rintro (_ | j) other inside
    · contradiction
    · exact inside
  | unlocks at_ =>
    refine exclusive.unlock (t := .loop) (by simp [Holds, at_, Loop.holdsMutex]) ?_
    rintro (_ | j) inside
    · cases inside
    · exact ⟨by simp, inside⟩
  | registers at_ | clears _ at_ | iterates at_ =>
    refine exclusive.keep ?_
    rintro (_ | j) inside
    · simp [Holds, at_, Loop.holdsMutex]
    · exact inside
  | wakes | returns =>
    refine exclusive.keep ?_
    rintro (_ | j) inside
    · cases inside
    · exact inside

theorem loop_pending (effect : LoopEffect s t) (pending : s.asyncPending = true → s.Coming)
    (set : t.asyncPending = true) : t.Coming := by
  cases effect with
  | starts at_ | registers at_ | unlocks at_ | returns at_ | iterates at_ =>
    exact .inl ((pending set).wakeup (by simp [at_]) (by simp [at_]))
  | wakes => exact .inr (.inl rfl)
  | @locks woken at_ =>
    cases woken with
    | true => exact .inr (.inr rfl)
    | false => exact .inl ((pending set).wakeup (by simp [at_]) (by simp [at_]))
  | clears => cases set

theorem loop_awake (effect : LoopEffect s t) (awake : Awake s) : Awake t where
  exclusive := loop_exclusive effect awake.exclusive
  pending := loop_pending effect awake.pending
  signalled i phase polling := by
    cases effect with
    | unlocks at_ =>
      have loop : Holds s.loop s.senders .loop := by simp [Holds, at_, Loop.holdsMutex]
      have sender : Holds s.loop s.senders (.sender i) := by
        have phase : (s.senders i).phase = .signalled := phase
        simp [Holds, phase, Phase.holdsMutex]
      cases awake.exclusive.unique loop sender
    | starts | registers | wakes | returns | locks | clears | iterates => cases polling
  registered registered := by
    cases effect with
    | registers => rfl
    | starts | unlocks | wakes | returns | locks | clears | iterates => cases registered
  polling polling _ command member := by
    cases effect with
    | unlocks at_ =>
      have none_left : s.queue = [] := awake.registered at_
      have member : command ∈ s.queue := member
      rw [none_left] at member
      cases member
    | starts | registers | wakes | returns | locks | clears | iterates => cases polling

variable [DecidableEq ι]

theorem sender_exclusive (effect : SenderEffect s i t)
    (exclusive : Mutex.Exclusive s.mutex (Holds s.loop s.senders)) : Mutex.Exclusive t.mutex (Holds t.loop t.senders) := by
  cases effect with
  | begins _ outside =>
    refine exclusive.keep fun u inside => ?_
    rcases holds_goto inside with ⟨_, entered⟩ | ⟨_, held⟩
    · simp [outside] at entered
    · exact held
  | tests =>
    refine exclusive.keep fun u inside => ?_
    rcases holds_goto inside with ⟨_, entered⟩ | ⟨_, held⟩
    · cases entered
    · exact held
  | locks free =>
    rw [free] at exclusive
    refine exclusive.lock fun u other inside => ?_
    rcases holds_goto inside with ⟨same, _⟩ | ⟨_, held⟩
    · exact absurd same other
    · exact held
  | queues at_ | rejected at_ | sends at_ =>
    refine exclusive.keep fun u inside => ?_
    rcases holds_goto inside with ⟨rfl, _⟩ | ⟨_, held⟩
    · simp [Holds, at_, Phase.holdsMutex]
    · exact held
  | unlocks at_ =>
    refine exclusive.unlock (t := .sender i) (by simp [Holds, at_, Phase.holdsMutex]) ?_
    intro u inside
    rcases holds_goto inside with ⟨_, entered⟩ | outside
    · cases entered
    · exact outside
  | skips => exact exclusive.keep fun u inside => (holds_finish inside).2
  | finishes at_ =>
    exact exclusive.unlock (t := .sender i) (by simp [Holds, at_, Phase.holdsMutex])
      fun u inside => holds_finish inside

theorem sender_awake (effect : SenderEffect s i t) (awake : Awake s) : Awake t where
  exclusive := sender_exclusive effect awake.exclusive
  pending set := by
    cases effect with
    | sends => exact .inl rfl
    | begins | locks | queues | rejected | unlocks | skips | tests | finishes =>
      exact awake.pending set
  signalled j at_ polling := by
    cases effect with
    | sends => rfl
    | begins _ outside =>
      refine awake.signalled j (signalled_goto ?_ at_) polling
      rintro rfl
      cases outside
    | locks _ enters =>
      refine awake.signalled j (signalled_goto ?_ at_) polling
      rintro rfl
      simp at enters
    | queues | rejected | unlocks | tests =>
      exact awake.signalled j (signalled_goto (by decide) at_) polling
    | skips | finishes => exact awake.signalled j (signalled_finish at_) polling
  registered registered := by
    cases effect with
    | queues at_ =>
      have registered : s.loop = .registered := registered
      have loop : Holds s.loop s.senders .loop := by simp [Holds, registered, Loop.holdsMutex]
      have sender : Holds s.loop s.senders (.sender i) := by simp [Holds, at_, Phase.holdsMutex]
      cases awake.exclusive.unique loop sender
    | begins | locks | rejected | unlocks | skips | tests | sends | finishes =>
      exact awake.registered registered
  polling polling quiet command member returned := by
    cases effect with
    | begins | locks | rejected | unlocks | tests =>
      exact awake.polling polling quiet command member (returned_goto.mp returned)
    | queues at_ =>
      have returned : s.senders.Returned command := returned_goto.mp returned
      rcases List.mem_append.mp member with old | new
      · exact awake.polling polling quiet command old returned
      · cases List.mem_singleton.mp new
        exact Nat.lt_irrefl _ returned
    -- the flag that the sender has relied on would be a wake-up still to come
    | skips _ pending =>
      have polling : s.loop = .polling := polling
      have wakeup := (awake.pending pending).wakeup (by simp [polling]) (by simp [polling])
      cases wakeup.symm.trans quiet
    | sends => cases quiet
    | finishes at_ => cases (awake.signalled i at_ polling).symm.trans quiet

theorem awake_start : Awake (machine ι).start where
  exclusive := by rintro (_ | i) inside <;> cases inside
  pending set := by cases set
  signalled i at_ := by cases at_
  registered := by intro at_; cases at_
  polling := by intro at_; cases at_

theorem awake (run : Transition.Reaches (machine ι) Transition.always s) : Awake s := by
  refine run.invariant awake_start fun {_ _ a} awake _ step => ?_
  cases a with
  | loop => exact loop_awake (loop_effect step) awake
  | sender => exact sender_awake (sender_effect step) awake

/-- A queued command never stalls in a sleeping loop. -/
theorem queued_never_stalls (run : Transition.Reaches (machine ι) Transition.always s) :
    ¬ s.Stalled := by
  rintro ⟨polling, quiet, command, member, returned⟩
  exact (awake run).polling polling quiet command member returned

/-- The second of two senders leaves the wake-up to the first. -/
theorem queued_never_stalls_skipped : ∃ s : State Bool,
    s.loop = .polling ∧ s.queue = [(false, 0), (true, 0)] ∧
      (s.senders false).completed = 1 ∧ (s.senders true).completed = 1 ∧ ¬ s.Stalled := by
  have run := (Transition.initially (machine Bool) Transition.always).exec
    [.loop .lock, .loop .register, .loop .unlock,
      .sender false .runPvt, .sender false .lock, .sender false (.command true),
      .sender true .runPvt, .sender false .unlock, .sender true .lock,
      .sender true (.command true), .sender false .test, .sender true .unlock,
      .sender false .lock, .sender false .send, .sender true .test,
      .sender false .unlock] rfl
  exact ⟨_, rfl, rfl, rfl, rfl, queued_never_stalls run⟩

end Invariant
end Incredis.EventLoop
