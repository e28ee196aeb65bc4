import Incredis.Batch.Completion
import Incredis.Connection.Wait

/-! The three waits of the library for something the poll thread does: the answers
of a batch, the connection and its end. -/
namespace Incredis
variable {B : Type} [DecidableEq B] {limit : Int}

/-- A wake-up is lost only by a notification that falls between the failed test of a
client and the moment it blocks. -/
theorem no_lost_wakeup {s : Batch.State B} {c : Connection.State}
    (batches : Transition.Reaches (Batch.machine B limit) Batch.Heard s)
    (connection : Transition.Reaches Connection.machine Connection.Heard c) :
    (∀ b, ¬ Batch.ClientStranded (s.part b)) ∧
      ¬ Connection.ClientStranded .onConnect c ∧ ¬ Connection.ClientStranded .onDisconnect c :=
  ⟨Batch.client_not_stranded batches,
    Connection.client_not_stranded connection .onConnect,
    Connection.client_not_stranded connection .onDisconnect⟩

/-- Both clients block and are woken. -/
theorem no_lost_wakeup_notified : ∃ (s : Batch.State Unit) (c : Connection.State),
    (∀ b, ¬ Batch.ClientStranded (s.part b)) ∧
      ¬ Connection.ClientStranded .onConnect c ∧ ¬ Connection.ClientStranded .onDisconnect c := by
  have batches := (Transition.initially
      (Batch.machine Unit Batch.maxRedisUnansweredCommands) Batch.Heard)
    |>.next (a := ((), .run ["GET", "key"])) (by trivial) rfl
    |>.next (a := ((), .count 0)) (by trivial) rfl
    |>.next (a := ((), .add 0)) (by trivial) rfl
    |>.next (a := ((), .submit 0 true)) (by trivial) rfl
    |>.next (a := ((), .enter .replies)) (by trivial) rfl
    |>.next (a := ((), .recheck)) (by trivial) rfl
    |>.next (a := ((), .waitDone)) (by trivial) rfl
    |>.next (a := ((), .waitDone)) (by trivial) rfl
    |>.next (a := ((), .waitDone)) (by trivial) rfl
    |>.next (a := ((), .callback 0 (some .nil))) (by trivial) rfl
    |>.next (a := ((), .store 0)) (by trivial) rfl
    |>.next (a := ((), .release 0)) (by trivial) rfl
    |>.next (a := ((), .notifyDone 0)) (by rintro _ _ ⟨⟩ ⟨⟨⟩, _⟩) rfl
    |>.next (a := ((), .waitDone)) (by trivial) rfl
  have connection := (Transition.initially Connection.machine Connection.Heard)
    |>.next (a := .connect .ok) (by trivial) rfl
    |>.next (a := .waitForConnect) (by trivial) rfl
    |>.next (a := .connectWait) (by trivial) rfl
    |>.next (a := .connectWait) (by trivial) rfl
    |>.next (a := .connectWait) (by trivial) rfl
    |>.next (a := .connectEvent 0 .ok) (by trivial) rfl
    |>.next (a := .callbackStep) (by rintro _ ⟨⟩ ⟨⟩) rfl
    |>.next (a := .callbackStep) (by rintro _ ⟨⟩ ⟨⟩) rfl
    |>.next (a := .callbackStep) (by rintro _ ⟨⟩ ⟨⟩) rfl
    |>.next (a := .callbackStep) (by rintro _ ⟨⟩ ⟨⟩) rfl
    |>.next (a := .callbackStep) (by rintro _ ⟨⟩ _ _ ⟨⟩ ⟨⟨⟩, _⟩) rfl
    |>.next (a := .connectWait) (by trivial) rfl
  exact ⟨_, _, no_lost_wakeup batches connection⟩

/-- Each of the three waits can lose its wake-up. -/
theorem wakeups_lost :
    (∃ s : Batch.State Unit,
      Transition.Reaches (Batch.machine Unit Batch.maxRedisUnansweredCommands) Transition.always s ∧
        Batch.ClientStranded (s.part ())) ∧
      (∃ c, Transition.Reaches Connection.machine Transition.always c ∧
        Connection.ClientStranded .onConnect c) ∧
      ∃ c, Transition.Reaches Connection.machine Transition.always c ∧
        Connection.ClientStranded .onDisconnect c :=
  ⟨Batch.client_stranded, Connection.connect_stranded, Connection.disconnect_stranded⟩

end Incredis
