import Incredis.Connection.Effect

/-! The waits for `on_connect` and `on_disconnect`. Both callbacks store their flag
and notify in steps of their own, without `hiredis_mutex`. -/
namespace Incredis.Connection
open CondVar (Waiter Covered Missed Stranded)

/-- A call of the callback has not come past its notification. -/
def Announces (callback : Callback) (s : State) : Prop :=
  ∃ call, s.poll = .calling call ∧ call.callback = callback ∧ call.line ≠ .finish

/-- `connect_processed` or `disconnect_processed` -/
def State.processed (s : State) : Callback → Bool
  | .onConnect => s.connectProcessed
  | .onDisconnect => s.disconnectProcessed

/-- Where the client stands in the wait that the callback ends. -/
def Client.waiter : Client → Callback → Option Waiter
  | .waitForConnect waiter, .onConnect => some waiter
  | .waitForDisconnect waiter, .onDisconnect => some waiter
  | _, _ => none

/-- The client is blocked although the event it waits for has been processed, and
nothing will wake it. -/
def ClientStranded (callback : Callback) (s : State) : Prop :=
  ∃ waiter, s.client.waiter callback = some waiter ∧
    Stranded waiter (s.processed callback = true) (Announces callback s)

/-- What has to hold of a step: the notification does not fall between the failed
test of the client and the moment it blocks. -/
def Heard (s : State) : Action → Prop
  | .callbackStep => ∀ call, s.poll = .calling call → call.line = .notify →
    ∀ waiter, s.client.waiter call.callback = some waiter →
      ¬ Missed waiter (s.processed call.callback = true)
  | _ => True

def ClientCovered (callback : Callback) (s : State) : Prop :=
  ∀ waiter, s.client.waiter callback = some waiter →
    Covered waiter (s.processed callback = true) (Announces callback s)

theorem Client.waiter_free {client : Client} (free : client.free = true) (callback : Callback) :
    client.waiter callback = none := by
  cases client <;> cases callback <;> simp_all [Client.free, Client.waiter]

theorem Client.waiter_notify {client : Client} {callback : Callback} :
    (client.notify callback).waiter callback = (client.waiter callback).map Waiter.notify := by
  cases client <;> cases callback <;> rfl

theorem Client.waiter_notify_other {client : Client} {callback other : Callback}
    (different : other ≠ callback) :
    (client.notify other).waiter callback = client.waiter callback := by
  cases client <;> cases callback <;> cases other <;> simp_all [Client.notify, Client.waiter]

/-- A callback leaves the other wait alone. -/
theorem other_callback {s : State} {call : Call} {callback : Callback}
    (different : call.callback ≠ callback) :
    (s.callbackStep call).client.waiter callback = s.client.waiter callback ∧
      (s.callbackStep call).processed callback = s.processed callback := by
  unfold State.callbackStep
  cases call.line with
  | notify => exact ⟨Client.waiter_notify_other different, by cases callback <;> rfl⟩
  | processed =>
    refine ⟨rfl, ?_⟩
    cases callback <;> simp [State.processed, different]
  | connectionLost | connected | connectErrMsg | finish =>
    exact ⟨rfl, by cases callback <;> rfl⟩

/-- Before the line that notifies, the notification is still to come. -/
theorem announces_advance {s : State} {call : Call} (early : call.line ≠ .notify)
    (running : call.line ≠ .finish) : Announces call.callback (s.callbackStep call) := by
  unfold State.callbackStep
  cases line : call.line with
  | notify | finish => contradiction
  | _ => exact ⟨_, rfl, rfl, by simp⟩

section Step
variable {s t : State} {a : Action} {callback : Callback}

/-- A step that neither moves the client nor stores the flag keeps the invariant
unless it silences the callback. -/
theorem ClientCovered.keep (covered : ClientCovered callback s)
    (client : t.client.waiter callback = s.client.waiter callback)
    (processed : t.processed callback = s.processed callback)
    (quiet : ¬ Announces callback s) : ClientCovered callback t := by
  intro waiter at_
  rw [client] at at_
  rw [processed]
  exact (covered waiter at_).mono id fun announces => absurd announces quiet

theorem covered_callback {call : Call} (calling : s.poll = .calling call)
    (heard : Heard s .callbackStep) (covered : ClientCovered callback s) :
    ClientCovered callback (s.callbackStep call) := by
  by_cases same : call.callback = callback
  · subst same
    cases line : call.line with
    | notify =>
      intro waiter at_
      simp only [State.callbackStep, line, Client.waiter_notify, Option.map_eq_some_iff] at at_
      obtain ⟨before, found, rfl⟩ := at_
      have processed : (s.callbackStep call).processed call.callback =
          s.processed call.callback := by
        simp only [State.callbackStep, line]
        cases call.callback <;> rfl
      rw [processed]
      exact .notify (heard call calling line before found)
    | finish =>
      have finished : s.callbackStep call = { s with
          contexts := s.contexts.modify call.context fun ctx =>
            { ctx with link := State.linkAfter call }
          poll := .polling } := by
        simp only [State.callbackStep, line]
      rw [finished]
      refine covered.keep rfl (by cases call.callback <;> rfl) ?_
      rintro ⟨other, poll, _, running⟩
      cases calling.symm.trans poll
      exact running line
    | _ => exact fun waiter _ => .announced (announces_advance (by simp [line]) (by simp [line]))
  · obtain ⟨client, processed⟩ := other_callback (s := s) same
    apply covered.keep client processed
    rintro ⟨other, poll, is, _⟩
    cases calling.symm.trans poll
    exact same is

theorem covered_step (effect : Effect s a t) (heard : Heard s a)
    (covered : ClientCovered callback s) : ClientCovered callback t := by
  have gone {client : Client} (free : client.free = true) {waiter : Waiter} {goal : Prop}
      (at_ : client.waiter callback = some waiter) : goal := by
    rw [Client.waiter_free free] at at_
    contradiction
  have silent {u : State} (polling : s.poll = .polling)
      (client : u.client = s.client) (connect : u.connectProcessed = s.connectProcessed)
      (disconnect : u.disconnectProcessed = s.disconnectProcessed) : ClientCovered callback u := by
    apply covered.keep (by rw [client]) (by cases callback <;> assumption)
    rintro ⟨call, calling, _⟩
    rw [polling] at calling
    contradiction
  cases effect with
  | callbackStep calling => exact covered_callback calling heard covered
  | connectEvent _ polling | replyEvent polling | lastReply polling | lostEvent _ polling
  | halt polling => exact silent polling rfl rfl rfl
  | runs free | runsNowhere free | isConnected free | makeBatch free =>
    exact fun waiter at_ => gone free at_
  | keeps | throws | connects | connectPasses | returns | disconnectPasses | joins =>
    exact fun waiter at_ => gone rfl at_
  | disconnects | resetsDead | postpones | closes | abandons =>
    intro waiter at_
    cases callback <;> contradiction
  | waitForConnect | waitForDisconnect =>
    intro waiter at_
    simp only at at_
    split at at_
    · cases callback <;> contradiction
    · cases callback
      all_goals first | contradiction | skip
      cases at_
      exact .awake rfl
  | connectWaits client moved =>
    intro waiter at_
    cases callback with
    | onDisconnect => contradiction
    | onConnect =>
      cases at_
      have before := covered _ (by rw [client]; rfl)
      exact before.advance moved (by simp [State.processed])
  | disconnectWaits client moved =>
    intro waiter at_
    cases callback with
    | onConnect => contradiction
    | onDisconnect =>
      cases at_
      have before := covered _ (by rw [client]; rfl)
      exact before.advance moved (by simp [State.processed])

end Step

theorem client_not_stranded {s : State} (run : Transition.Reaches machine Heard s)
    (callback : Callback) : ¬ ClientStranded callback s := by
  have covered : ClientCovered callback s := run.invariant (by cases callback <;> rintro _ ⟨⟩)
    fun covered heard stepped => covered_step (step_effect stepped) heard covered
  rintro ⟨waiter, at_, stranded⟩
  exact (covered waiter at_).not_stranded stranded

theorem wait_blocks {s : State} {callback : Callback} {waiter : Waiter}
    (at_ : s.client.waiter callback = some waiter)
    (advanced : waiter.advance (s.processed callback) = .waits .blocked) :
    ∃ a t, step s a = some t ∧ t.client.waiter callback = some .blocked ∧ t.poll = s.poll ∧
      t.processed callback = s.processed callback := by
  cases client : s.client with
  | waitForConnect before =>
    cases callback with
    | onDisconnect => simp [client, Client.waiter] at at_
    | onConnect =>
      rw [client] at at_
      cases at_
      refine ⟨.connectWait, { s with client := .waitForConnect .blocked }, ?_, rfl, rfl, rfl⟩
      rw [State.processed] at advanced
      simp only [step, client, advanced]
  | waitForDisconnect before =>
    cases callback with
    | onConnect => simp [client, Client.waiter] at at_
    | onDisconnect =>
      rw [client] at at_
      cases at_
      refine ⟨.disconnectWait, { s with client := .waitForDisconnect .blocked }, ?_, rfl, rfl, rfl⟩
      rw [State.processed] at advanced
      simp only [step, client, advanced]
  | _ => simp [client, Client.waiter] at at_

/-- A notification that the client does not hear is the last of its callback. -/
theorem unheard_strands {s : State} {call : Call} (calling : s.poll = .calling call)
    (line : call.line = .notify) (unheard : ¬ Heard s .callbackStep) :
    ∃ a t, step (s.callbackStep call) a = some t ∧ ClientStranded call.callback t := by
  simp only [Heard, calling, Poll.calling.injEq, forall_eq', line, forall_const,
    Classical.not_forall, Classical.not_not, exists_prop] at unheard
  obtain ⟨waiter, at_, missed⟩ := unheard
  let woken : State := { s with
    client := s.client.notify call.callback
    poll := .calling { call with line := .finish } }
  have notified : s.callbackStep call = woken := by
    simp only [State.callbackStep, line, woken]
  have processed : woken.processed call.callback = s.processed call.callback := by
    cases call.callback <;> rfl
  obtain ⟨advanced, stranded⟩ := missed.strands id (woken.processed call.callback)
  have notify : woken.client.waiter call.callback = some waiter.notify := by
    simp only [woken, Client.waiter_notify, at_, Option.map_some]
  obtain ⟨a, t, stepped, client, poll, same⟩ := wait_blocks notify advanced
  refine ⟨a, t, notified ▸ stepped, .blocked, client, rfl, ?_, ?_⟩
  · rw [same, processed]
    exact stranded.2.1
  · rintro ⟨other, running, _, early⟩
    rw [poll] at running
    cases running
    exact early rfl

/-- `on_connect` notifies after the client has found `connect_processed` false and
before it blocks. -/
theorem connect_stranded : ∃ s : State,
    Transition.Reaches machine Transition.always s ∧ ClientStranded .onConnect s := by
  have run := (Transition.initially machine Transition.always).exec
    [.connect .ok, .waitForConnect, .connectWait, .connectWait, .connectEvent 0 .ok,
     .callbackStep, .callbackStep, .callbackStep, .callbackStep, .callbackStep, .connectWait] rfl
  refine ⟨_, run, .blocked, rfl, rfl, rfl, ?_⟩
  rintro ⟨call, calling, _, running⟩
  cases calling
  exact running rfl

/-- The same between `on_disconnect` and a client that waits for the server to close
the connection. -/
theorem disconnect_stranded : ∃ s : State,
    Transition.Reaches machine Transition.always s ∧ ClientStranded .onDisconnect s := by
  have run := (Transition.initially machine Transition.always).exec
    [.connect .ok, .connectEvent 0 .ok, .callbackStep, .callbackStep, .callbackStep,
     .callbackStep, .callbackStep, .callbackStep, .waitForDisconnect, .disconnectWait,
     .disconnectWait, .lostEvent 0 "Server closed the connection", .callbackStep, .callbackStep,
     .callbackStep, .callbackStep, .callbackStep, .disconnectWait] rfl
  refine ⟨_, run, .blocked, rfl, rfl, rfl, ?_⟩
  rintro ⟨call, calling, _, running⟩
  cases calling
  exact running rfl

end Incredis.Connection
