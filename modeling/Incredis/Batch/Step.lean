import Incredis.CondVar
import Incredis.Family
import Incredis.ReplyList

/-! The batches of one connection: `Batch::run_pvt` on the client side,
`hiredis_run_callback` on the poll thread, `Batch::replies`, `Batch::reset` and
the destructor. Every atomic update, notification, predicate test and act of
blocking is a step of its own. The batches share one counter, the
`pending_futures` of their thread context, and nothing else. -/
namespace Incredis.Batch
open CondVar (Waiter)

/-- `g_max_redis_unanswered_commands` -/
def maxRedisUnansweredCommands : Int := 1000

/-- How far a command has come: through `run_pvt`, where a phase is named after what has
been done, then from `redisAsyncCommandArgv` on through the callback, where it is named
after what comes next. -/
inductive Phase
  | entered
  | waiting (waiter : Waiter)
  | admitted
  | slotted
  | inFlight
  | rejected
  | notifySlot
  | storing
  | releasing
  | notifyDone
  | finished
deriving DecidableEq, Repr

namespace Phase

/-- The call of `run_pvt` has not handed the command to hiredis yet. -/
def inRun : Phase → Bool
  | entered | waiting _ | admitted | slotted => true
  | _ => false

/-- Counted in `pending_futures`. -/
def counted : Phase → Bool
  | waiting _ | admitted | slotted | inFlight | rejected => true
  | _ => false

/-- Counted in `local_pending_futures`. -/
def localCounted : Phase → Bool
  | notifyDone | finished => false
  | _ => true

/-- Counted in `pending_futures`, but nothing that hiredis could answer. -/
def held : Phase → Bool
  | waiting _ | admitted | slotted | rejected => true
  | _ => false

/-- The callback still has a step to take on the data of the batch. -/
def inCallback : Phase → Bool
  | notifySlot | storing | releasing | notifyDone => true
  | _ => false

/-- The callback is about to issue a `notify_one`. -/
def notifying : Phase → Bool
  | notifySlot | notifyDone => true
  | _ => false

/-- The slot of the command exists. -/
def hasSlot : Phase → Bool
  | entered | waiting _ | admitted => false
  | _ => true

/-- The callback has written the reply it was given, if it was given one. -/
def stored : Phase → Bool
  | releasing | notifyDone | finished => true
  | _ => false

def asleep : Phase → Bool
  | waiting waiter => waiter.asleep
  | _ => false

end Phase

/-- One command of a batch with its `HiredisCallbackData`. `parReply` is what
the callback was given, once it has been called. -/
structure Cmd where
  argv : List String
  phase : Phase := .entered
  replyPtr : Option ReplyPtr := none
  parReply : Option (Option RedisReply) := none

inductive Purpose
  | replies
  | reset
  | destroy
deriving DecidableEq, Repr

/-- The client thread of a batch outside `run_pvt`. `rechecking` lies between
the two loads of the counter in `replies()`; `returning` is the point where the
wait is over. -/
inductive Client
  | idle
  | rechecking (purpose : Purpose)
  | waiting (purpose : Purpose) (waiter : Waiter)
  | returning (purpose : Purpose)
  | destroyed
deriving DecidableEq, Repr

namespace Client

def purpose : Client → Option Purpose
  | rechecking purpose | waiting purpose _ | returning purpose => some purpose
  | idle | destroyed => none

/-- The batch is being reset or destroyed, or is gone. -/
def closing (client : Client) : Bool :=
  client.purpose = some .reset ∨ client.purpose = some .destroy ∨ client = .destroyed

def notify : Client → Client
  | waiting purpose waiter => waiting purpose waiter.notify
  | client => client

end Client

/-- `Batch::LocalData` with the threads that work on it. The counters stay far from the
ends of `std::size_t`. -/
structure LocalData where
  replies : ReplyList := {}
  localPendingFutures : Int := 0
  commands : List Cmd := []
  client : Client := .idle

/-- `limit` is the bound on unanswered commands; `argv` and the reply are what
passes through hiredis, `accepted` is whether it took the command, and `woken`
is the sender that `notify_one` picks. -/
inductive Action
  | run (argv : List String)
  | count (k : Nat)
  | wait (k : Nat)
  | add (k : Nat)
  | submit (k : Nat) (accepted : Bool)
  | callback (k : Nat) (parReply : Option RedisReply)
  | notifySlot (k : Nat) (woken : Option Nat)
  | store (k : Nat)
  | release (k : Nat)
  | notifyDone (k : Nat)
  | enter (purpose : Purpose)
  | recheck
  | waitDone
  | leave

namespace LocalData

def put (d : LocalData) (k : Nat) (cmd : Cmd) : LocalData :=
  { d with commands := d.commands.set k cmd }

def commandAt (d : LocalData) (k : Nat) (phase : Phase) : Option Cmd :=
  d.commands[k]?.filter fun cmd => cmd.phase = phase

/-- The command `k` has come as far as `phase`. -/
def At (d : LocalData) (k : Nat) (phase : Phase) : Prop :=
  ∃ cmd : Cmd, d.commands[k]? = some cmd ∧ cmd.phase = phase

/-- Some call of `run_pvt` has not returned. -/
def runInProgress (d : LocalData) : Bool :=
  d.commands.any fun cmd => cmd.phase.inRun

/-- `futures_mutex` belongs to the sender that tests the predicate. -/
def futuresMutexHeld (d : LocalData) : Bool :=
  d.commands.any fun cmd => match cmd.phase with
    | .waiting waiter => waiter.holdsMutex
    | _ => false

/-- `free_cmd_slot.notify_one()`: one blocked sender of this batch, if any. -/
def notifyFreeCmdSlot (d : LocalData) : Option Nat → Option LocalData
  | some j => (d.commandAt j (.waiting .blocked)).map fun cmd =>
      d.put j { cmd with phase := .waiting .notified }
  | none => if d.commands.any fun cmd => cmd.phase = .waiting .blocked then none else some d

/-- `*reply_ptr = reply`, or nothing for a NULL reply: the assert of that branch
is compiled out. -/
def storeReply (d : LocalData) (cmd : Cmd) : LocalData :=
  match cmd.replyPtr, cmd.parReply with
  | some replyPtr, some (some raw) =>
    { d with replies := d.replies.write replyPtr (makeRedisReplyType raw) }
  | _, _ => d

end LocalData

def step (limit pending : Int) (d : LocalData) : Action → Option (Int × LocalData)
  | .run argv =>
    if d.client.closing then none
    else some (pending, { d with
      localPendingFutures := d.localPendingFutures + 1
      commands := d.commands ++ [{ argv := argv }] })
  | .count k => do
    let cmd ← d.commandAt k .entered
    some (pending + 1,
      d.put k { cmd with phase := if pending ≥ limit then .waiting .locking else .admitted })
  | .wait k => do
    let cmd ← d.commands[k]?
    match cmd.phase with
    | .waiting waiter =>
      if (waiter = .locking ∨ waiter = .notified) ∧ d.futuresMutexHeld then none
      else match waiter.advance (pending < limit) with
        | .waits next => some (pending, d.put k { cmd with phase := .waiting next })
        | .passed => some (pending, d.put k { cmd with phase := .admitted })
        | .stuck => none
    | _ => none
  | .add k => do
    let cmd ← d.commandAt k .admitted
    let (replies, replyPtr) ← d.replies.add
    some (pending,
      { d.put k { cmd with phase := .slotted, replyPtr := some replyPtr } with replies })
  -- wakeup_event_thread() follows; it touches none of this state
  | .submit k accepted => do
    let cmd ← d.commandAt k .slotted
    some (pending, d.put k { cmd with phase := if accepted then .inFlight else .rejected })
  | .callback k parReply => do
    let cmd ← d.commandAt k .inFlight
    some (pending - 1, d.put k { cmd with
      phase := if pending = limit then .notifySlot else .storing
      parReply := some parReply })
  | .notifySlot k woken => do
    let cmd ← d.commandAt k .notifySlot
    let next ← d.notifyFreeCmdSlot woken
    some (pending, next.put k { cmd with phase := .storing })
  | .store k => do
    let cmd ← d.commandAt k .storing
    some (pending, (d.storeReply cmd).put k { cmd with phase := .releasing })
  | .release k => do
    let cmd ← d.commandAt k .releasing
    some (pending,
      { d.put k { cmd with phase := if d.localPendingFutures = 1 then .notifyDone else .finished }
        with localPendingFutures := d.localPendingFutures - 1 })
  | .notifyDone k => do
    let cmd ← d.commandAt k .notifyDone
    some (pending, { d.put k { cmd with phase := .finished } with client := d.client.notify })
  -- reset() and the destructor are not called while another thread is in run()
  | .enter purpose =>
    if d.client = .idle ∧ (purpose = .replies ∨ d.runInProgress = false) then
      some (pending, { d with client :=
        if d.localPendingFutures = 0 then .returning purpose else .rechecking purpose })
    else none
  | .recheck =>
    match d.client with
    | .rechecking purpose =>
      some (pending, { d with client :=
        if d.localPendingFutures > 0 then .waiting purpose .locking else .returning purpose })
    | _ => none
  | .waitDone =>
    match d.client with
    | .waiting purpose waiter =>
      match waiter.advance (d.localPendingFutures = 0) with
      | .waits next => some (pending, { d with client := .waiting purpose next })
      | .passed => some (pending, { d with client := .returning purpose })
      | .stuck => none
    | _ => none
  | .leave =>
    match d.client with
    | .returning .replies => some (pending, { d with client := .idle })
    | .returning .reset => some (pending, { d with client := .idle, replies := d.replies.clear })
    | .returning .destroy =>
      some (pending, { d with client := .destroyed, replies := d.replies.clear })
    | _ => none

/-- All batches of one connection. -/
abbrev State (B : Type) := Family.State B Int LocalData

/-- `ThreadContext::pending_futures` -/
abbrev State.pendingFutures (s : State B) : Int := s.shared

abbrev machine (B : Type) [DecidableEq B] (limit : Int) :
    Transition.Machine (State B) (B × Action) :=
  Family.machine B (step limit) 0 {}

end Incredis.Batch
