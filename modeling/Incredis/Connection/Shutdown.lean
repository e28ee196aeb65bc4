import Incredis.Connection.Effect

/-! The end of a connection. The destructor calls `disconnect()` and then waits for
`on_disconnect`; `disconnect()` itself waits only for the poll thread to end. -/
namespace Incredis.Connection

/-- `redis_poll_thread` is in `ev_run`. -/
def State.loopRunning (s : State) : Bool := s.poll = .polling || s.inCallback

/-- `wait_for_disconnect()` returns at once, or some context has a disconnect to
report and the loop runs that will report it. -/
def Released (s : State) : Prop :=
  s.disconnectProcessed = true ∨
    s.loopRunning = true ∧ ∃ ctx ∈ s.contexts, ctx.link.live = true ∧ ctx.disconnecting = true

/-- What has to hold of a step: `disconnect()` does not return early while an attempt
to connect is undecided or after one has thrown, and it does not reset `m_conn` while
replies are outstanding or after the connection was refused. -/
def Settled (s : State) : Action → Prop
  | .disconnect => s.connectProcessed = false → s.disconnectProcessed = true
  | .reset => s.disconnectProcessed = true ∨
    ∃ ctx, s.held = some ctx ∧ ctx.link = .connected ∧ ctx.outstanding = 0
  | _ => True

/-- The client is past `m_conn.reset()` and has made no other call since. -/
def Client.past : Client → Bool
  | joining | disconnected => true
  | _ => false

theorem Client.notify_past (callback : Callback) (client : Client) :
    (client.notify callback).past = client.past := by
  cases client <;> rfl

/-- Only a new `connect()` clears `disconnect_processed`. -/
theorem callbackStep_disconnectProcessed {s : State} {call : Call}
    (processed : s.disconnectProcessed = true) :
    (s.callbackStep call).disconnectProcessed = true := by
  unfold State.callbackStep
  cases call.line <;> simp [processed]

theorem callbackStep_past {s : State} {call : Call} :
    (s.callbackStep call).client.past = s.client.past := by
  unfold State.callbackStep
  cases call.line with
  | notify => exact Client.notify_past _ _
  | _ => rfl

theorem processed_step {s t : State} {a : Action} (effect : Effect s a t) (settled : Settled s a)
    (processed : s.client.past = true → s.disconnectProcessed = true) :
    t.client.past = true → t.disconnectProcessed = true := by
  intro past
  cases effect with
  | callbackStep =>
    rw [callbackStep_past] at past
    exact callbackStep_disconnectProcessed (processed past)
  | returns free undecided => exact settled undecided
  | closes => rfl
  | joins at_ => exact processed (by rw [at_]; rfl)
  | resetsDead at_ quiet dead =>
    rcases settled with done | ⟨ctx, held, link, _⟩
    · exact done
    · have := dead ctx held
      simp [link, Link.live] at this
  | postpones at_ quiet conn found live outstanding =>
    rcases settled with done | ⟨ctx, held, _, idle⟩
    · exact done
    · simp only [State.held, conn, Option.bind_some, State.context, found] at held
      cases held
      omega
  | abandons at_ quiet conn found link =>
    rcases settled with done | ⟨ctx, held, connected, _⟩
    · exact done
    · simp only [State.held, conn, Option.bind_some, State.context, found] at held
      cases held
      simp [connected] at link
  | waitForConnect | waitForDisconnect =>
    simp only at past
    split at past <;> contradiction
  | keeps | throws | connects | connectWaits | connectPasses | disconnects | disconnectWaits
  | disconnectPasses => contradiction
  | isConnected | makeBatch | runs | runsNowhere | connectEvent | replyEvent | lastReply
  | lostEvent | halt => exact processed past

/-- Where it settles, `disconnect()` leaves a `wait_for_disconnect()` that returns. -/
theorem shutdown_released {s : State} (run : Transition.Reaches machine Settled s)
    (disconnected : s.client = .disconnected) : Released s := by
  have processed : s.client.past = true → s.disconnectProcessed = true :=
    run.invariant (by simp [Client.past])
      fun processed settled stepped => processed_step (step_effect stepped) settled processed
  exact .inl (processed (by rw [disconnected]; rfl))

/-- A connection that is idle when it is closed, and whose destructor then returns. -/
theorem shutdown_released_idle : ∃ s : State,
    s.contexts = [{ link := .closed }] ∧ Released s := by
  have run := (Transition.initially machine Settled)
    |>.next (a := .connect .ok) (by trivial) rfl
    |>.next (a := .connectEvent 0 .ok) (by trivial) rfl
    |>.next (a := .callbackStep) (by trivial) rfl
    |>.next (a := .callbackStep) (by trivial) rfl
    |>.next (a := .callbackStep) (by trivial) rfl
    |>.next (a := .callbackStep) (by trivial) rfl
    |>.next (a := .callbackStep) (by trivial) rfl
    |>.next (a := .callbackStep) (by trivial) rfl
    |>.next (a := .run) (by trivial) rfl
    |>.next (a := .replyEvent 0) (by trivial) rfl
    |>.next (a := .disconnect) (by rintro ⟨⟩) rfl
    |>.next (a := .reset) (by exact .inr ⟨_, rfl, rfl, rfl⟩) rfl
    |>.next (a := .halt) (by trivial) rfl
    |>.next (a := .join) (by trivial) rfl
  exact ⟨_, rfl, shutdown_released run rfl⟩

/-- Every other call of `m_conn.reset()` can leave the destructor waiting: the loop is
halted and joined before hiredis has anything to report. -/
theorem unsettled_reset_hangs {s : State} (run : Transition.Reaches machine Transition.always s)
    (at_ : s.client = .resetting) (polling : s.poll = .polling) (unsettled : ¬ Settled s .reset) :
    ∃ t, Transition.Reaches machine Transition.always t ∧ t.client = .disconnected ∧
      ¬ Released t := by
  simp only [Settled, not_or, Bool.not_eq_true, not_exists, not_and] at unsettled
  obtain ⟨unprocessed, busy⟩ := unsettled
  have after {u : State} (effect : Effect s .reset u) : u.disconnectProcessed = false ∧
      u.poll = .polling ∧ u.client = .joining ∧ u.haltPending = true := by
    cases effect with
    | closes at_ quiet conn found link idle =>
      refine absurd idle (busy _ ?_ link)
      simpa only [State.held, conn, Option.bind_some, State.context] using found
    | resetsDead | postpones | abandons => exact ⟨unprocessed, polling, rfl, rfl⟩
  have quiet : s.inCallback = false := by simp [State.inCallback, polling]
  obtain ⟨u, reset⟩ := reset_enabled at_ quiet
  obtain ⟨unprocessed, polling, joining, pending⟩ := after (step_effect reset)
  let halted : State := { u with poll := .ended, haltPending := false }
  have halt : step u .halt = some halted := by simp [step, polling, pending, halted]
  let joined : State := { halted with poll := .notStarted, client := .disconnected }
  have join : step halted .join = some joined := by simp [step, joining, joined, halted]
  have later := (run.next (a := .reset) trivial reset).next (a := .halt) trivial halt
  refine ⟨joined, later.next (a := .join) trivial join, rfl, ?_⟩
  rintro (processed | ⟨running, _⟩)
  · rw [show joined.disconnectProcessed = false from unprocessed] at processed
    contradiction
  · contradiction

/-- While an attempt is undecided `disconnect()` returns at once. -/
theorem shutdown_hangs :
    ¬ ∀ s, Transition.Reaches machine Transition.always s → s.client = .disconnected → Released s := by
  intro released
  have run := (Transition.initially machine Transition.always).exec
    [.connect .ok, .disconnect] rfl
  rcases released _ run rfl with processed | ⟨_, ctx, member, _, disconnecting⟩
  · contradiction
  · rw [List.mem_singleton.mp member] at disconnecting
    contradiction

end Incredis.Connection
