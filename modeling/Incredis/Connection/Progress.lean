import Incredis.Connection.Threads
import Incredis.Connection.Wait
import Incredis.Fairness

/-! The calls that wait for the poll thread return. `disconnect()` does, whatever is still
outstanding; `wait_for_connect()` does exactly if there is an attempt to wait for. -/
namespace Incredis.Connection
open CondVar (Waiter)
variable {s t : State} {a : Action} {states : Nat → State} {labels : Nat → Option Action} {n : Nat}

def Line.remaining : Line → Nat
  | connectionLost => 6
  | connected => 5
  | processed => 4
  | connectErrMsg => 3
  | notify => 2
  | finish => 1

/-- Lines of the running callback still to come. -/
def Poll.remaining : Poll → Nat
  | calling call => call.line.remaining
  | _ => 0

/-- The poll thread goes on with its callbacks, its loop hears a halt, and the client is
scheduled. -/
structure FairSchedule (states : Nat → State) (labels : Nat → Option Action) : Prop where
  callback : Fairness.FairTo machine (· = .callbackStep) states labels
  halt : Fairness.FairTo machine (· = .halt) states labels
  reset : Fairness.FairTo machine (· = .reset) states labels
  join : Fairness.FairTo machine (· = .join) states labels
  wait : Fairness.FairTo machine (· = .connectWait) states labels

section Steps

theorem callback_line {call : Call} :
    (s.callbackStep call).inCallback = false ∨
      ∃ line : Line, (s.callbackStep call).poll = .calling { call with line } ∧
        line.remaining < call.line.remaining := by
  unfold State.callbackStep
  cases line : call.line with
  | finish => exact .inl rfl
  | _ => exact .inr ⟨_, rfl, by decide⟩

/-- Nothing interferes with a callback but the end of the loop. -/
theorem calling_step (effect : Effect s a t) {call : Call} (calling : s.poll = .calling call) :
    t.inCallback = false ∨ t.poll = s.poll ∧ a ≠ .callbackStep ∨
      a = .callbackStep ∧ t.poll.remaining < s.poll.remaining := by
  cases effect with
  | callbackStep at_ =>
    cases calling.symm.trans at_
    have after : (s.callbackStep call).inCallback = false ∨ _ := callback_line
    rcases after with done | ⟨line, poll, lower⟩
    · exact .inl done
    · exact .inr (.inr ⟨rfl, by rw [poll, calling]; exact lower⟩)
  | connects | joins => exact .inl rfl
  | connectEvent _ polling | replyEvent polling | lastReply polling | lostEvent _ polling
  | halt polling =>
    rw [polling] at calling
    contradiction
  | _ => exact .inr (.inl ⟨rfl, by simp⟩)

end Steps

section Schedule
variable (run : Fairness.Run machine states labels) (fair : FairSchedule states labels)
include run fair

/-- Again and again no callback is running. -/
theorem callback_returns (n : Nat) : ∃ k ≥ n, (states k).inCallback = false := by
  cases now : (states n).inCallback with
  | false => exact ⟨n, Nat.le_refl n, now⟩
  | true =>
  refine fair.callback.leadsTo run (P := fun s => s.inCallback = true)
    (Q := fun s => s.inCallback = false) (fun s => s.poll.remaining) ?_ ?_ now
  · intro k a _ moved here
    cases poll : (states k).poll with
    | calling call =>
      rcases calling_step (step_effect moved) poll with done | ⟨same, other⟩ | ⟨rfl, lower⟩
      · exact .inl done
      · refine .inr ⟨?_, Nat.le_of_eq (by rw [same, poll]), fun is => absurd is other⟩
        rw [State.inCallback, same, poll]
      · rw [poll] at lower
        cases next : (states (k + 1)).inCallback with
        | false => exact .inl rfl
        | true => exact .inr ⟨rfl, Nat.le_of_lt lower, fun _ => lower⟩
    | notStarted | polling | ended =>
      rw [State.inCallback, poll] at here
      contradiction
  · intro k here
    refine ⟨k, Nat.le_refl k, .callbackStep, rfl, ?_⟩
    cases poll : (states k).poll with
    | calling call => exact ⟨_, by simp only [step, poll]; rfl⟩
    | notStarted | polling | ended =>
      have := here k (Nat.le_refl k)
      rw [State.inCallback, poll] at this
      contradiction

end Schedule

/-! `disconnect()` -/

section Disconnect

theorem resetting_step (effect : Effect s a t) (at_ : s.client = .resetting) :
    t.client = .joining ∨ t.client = .resetting ∧ a ≠ .reset := by
  cases effect with
  | resetsDead | postpones | closes | abandons => exact .inl rfl
  | callbackStep calling =>
    refine .inr ⟨?_, by simp⟩
    unfold State.callbackStep
    split
    case h_5 => exact Client.notify_resetting.mpr at_
    all_goals exact at_
  | connectEvent | replyEvent | lastReply | lostEvent | halt => exact .inr ⟨at_, by simp⟩
  | keeps _ free | throws free | connects free | waitForConnect free | isConnected free
  | makeBatch free | runs free | runsNowhere free | returns free | disconnects free
  | waitForDisconnect free =>
    rw [at_] at free
    contradiction
  | connectWaits other | connectPasses other | joins other | disconnectWaits other
  | disconnectPasses other =>
    rw [at_] at other
    contradiction

/-- Once `watcher_halt` has been sent the loop ends, and nothing else happens to the client. -/
theorem joining_step (effect : Effect s a t) (at_ : s.client = .joining) :
    s.poll = .ended ∧ t.client = .disconnected ∨
      t.client = .joining ∧ a ≠ .join ∧
        (a = .halt ∧ t.poll = .ended ∨
          a ≠ .halt ∧ t.haltPending = s.haltPending ∧ (s.poll = .ended → t.poll = .ended)) := by
  cases effect with
  | joins _ ended => exact .inl ⟨ended, rfl⟩
  | halt => exact .inr ⟨at_, by simp, .inl ⟨rfl, rfl⟩⟩
  | @callbackStep call calling =>
    refine .inr ⟨?_, by simp, .inr ⟨by simp, ?_, fun ended => ?_⟩⟩
    · unfold State.callbackStep
      split
      case h_5 => exact Client.notify_joining.mpr at_
      all_goals exact at_
    · unfold State.callbackStep
      split <;> rfl
    · rw [calling] at ended
      contradiction
  | connectEvent _ polling | replyEvent polling | lastReply polling | lostEvent _ polling =>
    refine .inr ⟨at_, by simp, .inr ⟨by simp, rfl, fun ended => ?_⟩⟩
    rw [polling] at ended
    contradiction
  | keeps _ free | throws free | connects free | waitForConnect free | isConnected free
  | makeBatch free | runs free | runsNowhere free | returns free | disconnects free
  | waitForDisconnect free =>
    rw [at_] at free
    contradiction
  | connectWaits other | connectPasses other | resetsDead other | postpones other | closes other
  | abandons other | disconnectWaits other | disconnectPasses other =>
    rw [at_] at other
    contradiction

/-- The halt that `disconnect()` sends is not lost. -/
theorem joining_halts (run : Transition.Reaches machine Transition.always s) :
    s.client = .joining → s.haltPending = true ∨ s.poll = .ended := by
  refine run.invariant (P := fun s => s.client = .joining → s.haltPending = true ∨ s.poll = .ended)
    (by simp) fun {s t a} holds _ stepped joining => ?_
  have effect := step_effect stepped
  by_cases before : s.client = .joining
  · rcases joining_step effect before with ⟨_, gone⟩ | ⟨_, _, ⟨_, ended⟩ | ⟨_, pending, ended⟩⟩
    · rw [joining] at gone
      contradiction
    · exact .inr ended
    · rw [pending]
      exact (holds before).imp id ended
  · cases effect with
    | resetsDead | postpones | closes | abandons => exact .inl rfl
    | callbackStep calling =>
      refine absurd ?_ before
      unfold State.callbackStep at joining
      split at joining
      case h_5 => exact Client.notify_joining.mp joining
      all_goals exact joining
    | waitForConnect | waitForDisconnect =>
      simp only at joining
      split at joining <;> contradiction
    | isConnected | makeBatch | runs | runsNowhere | connectEvent | replyEvent | lastReply
    | lostEvent | halt => exact absurd joining before
    | keeps | throws | connects | connectWaits | connectPasses | returns | disconnects | joins
    | disconnectWaits | disconnectPasses => contradiction

variable (run : Fairness.Run machine states labels) (fair : FairSchedule states labels)
include run fair

theorem reset_reached (at_ : (states n).client = .resetting) :
    ∃ k ≥ n, (states k).client = .joining := by
  refine fair.reset.leadsTo run (P := fun s => s.client = .resetting)
    (Q := fun s => s.client = .joining) (fun _ => 0) ?_ ?_ at_
  · intro k a _ moved here
    exact (resetting_step (step_effect moved) here).imp id
      fun ⟨still, other⟩ => ⟨still, Nat.le_refl 0, fun is => absurd is other⟩
  · intro k here
    obtain ⟨j, later, quiet⟩ := callback_returns run fair k
    exact ⟨j, later, .reset, rfl, reset_enabled (here j later) quiet⟩

theorem loop_ends (at_ : (states n).client = .joining) :
    ∃ k ≥ n, (states k).client = .joining ∧ (states k).poll = .ended := by
  rcases joining_halts (run.reaches n) at_ with pending | ended
  · refine fair.halt.leadsTo run (P := fun s => s.client = .joining ∧ s.haltPending = true)
      (Q := fun s => s.client = .joining ∧ s.poll = .ended) (fun _ => 0) ?_ ?_ ⟨at_, pending⟩
    · rintro k a _ moved ⟨here, pending⟩
      rcases joining_step (step_effect moved) here with
        ⟨ended, _⟩ | ⟨still, _, ⟨_, ended⟩ | ⟨other, same, _⟩⟩
      · have idle := ((disciplined (run.reaches k)).ended ended).2
        rw [pending] at idle
        contradiction
      · exact .inl ⟨still, ended⟩
      · exact .inr ⟨⟨still, same.trans pending⟩, Nat.le_refl 0, fun is => absurd is other⟩
    · intro k here
      obtain ⟨j, later, quiet⟩ := callback_returns run fair k
      obtain ⟨joining, pending⟩ := here j later
      have holds := disciplined (run.reaches j)
      have polling : (states j).poll = .polling := by
        cases poll : (states j).poll with
        | polling => rfl
        | notStarted => exact absurd poll (holds.joining joining).2
        | calling call =>
          rw [State.inCallback, poll] at quiet
          contradiction
        | ended =>
          have idle := (holds.ended poll).2
          rw [pending] at idle
          contradiction
      exact ⟨j, later, .halt, rfl, _, by simp only [step, polling, pending]; rfl⟩
  · exact ⟨n, Nat.le_refl n, at_, ended⟩

theorem join_returns (at_ : (states n).client = .joining) (ended : (states n).poll = .ended) :
    ∃ k ≥ n, (states k).client = .disconnected := by
  refine fair.join.leadsTo run (P := fun s => s.client = .joining ∧ s.poll = .ended)
    (Q := fun s => s.client = .disconnected) (fun _ => 0) ?_ ?_ ⟨at_, ended⟩
  · rintro k a _ moved ⟨here, ended⟩
    rcases joining_step (step_effect moved) here with
      ⟨_, gone⟩ | ⟨still, other, ⟨_, ended⟩ | ⟨_, _, stays⟩⟩
    · exact .inl gone
    · exact .inr ⟨⟨still, ended⟩, Nat.le_refl 0, fun is => absurd is other⟩
    · exact .inr ⟨⟨still, stays ended⟩, Nat.le_refl 0, fun is => absurd is other⟩
  · intro k here
    obtain ⟨joining, ended⟩ := here k (Nat.le_refl k)
    exact ⟨k, Nat.le_refl k, .join, rfl, _, by simp only [step, joining, ended]; rfl⟩

end Disconnect

/-- `disconnect()` returns, with replies outstanding or not, and although the loop has to
come back from its callbacks to be halted. -/
theorem disconnect_returns {states : Nat → State} {labels : Nat → Option Action} {n : Nat}
    (run : Fairness.Run machine states labels) (fair : FairSchedule states labels)
    (called : (states n).client = .resetting ∨ (states n).client = .joining) :
    ∃ k ≥ n, (states k).client = .disconnected := by
  obtain ⟨i, first, joining⟩ : ∃ k ≥ n, (states k).client = .joining :=
    called.elim (reset_reached run fair) fun at_ => ⟨n, Nat.le_refl n, at_⟩
  obtain ⟨j, second, joining, ended⟩ := loop_ends run fair joining
  obtain ⟨k, third, gone⟩ := join_returns run fair joining ended
  exact ⟨k, by omega, gone⟩

theorem FairSchedule.of_rests {ok : State → Action → Prop} {last : Nat}
    (rests : Fairness.Run.Rests machine ok states labels last s)
    (disabled : ∀ a t, step s a = some t → a ≠ .callbackStep ∧ a ≠ .halt ∧ a ≠ .reset ∧ a ≠ .join ∧
      a ≠ .connectWait) : FairSchedule states labels where
  callback := .of_rests rests fun ⟨a, is, t, stepped⟩ => (disabled a t stepped).1 is
  halt := .of_rests rests fun ⟨a, is, t, stepped⟩ => (disabled a t stepped).2.1 is
  reset := .of_rests rests fun ⟨a, is, t, stepped⟩ => (disabled a t stepped).2.2.1 is
  join := .of_rests rests fun ⟨a, is, t, stepped⟩ => (disabled a t stepped).2.2.2.1 is
  wait := .of_rests rests fun ⟨a, is, t, stepped⟩ => (disabled a t stepped).2.2.2.2 is

/-- A connection that is still owed a reply. -/
theorem disconnect_returns_owed : ∃ (states : Nat → State) (n : Nat),
    (states n).client = .resetting ∧ (states n).contexts = [{ link := .connected, outstanding := 1 }] ∧
      ∃ k ≥ n, (states k).client = .disconnected := by
  have owed := (Transition.initially machine Transition.always).exec
    ([.connect .ok, .connectEvent 0 .ok] ++ List.replicate 6 .callbackStep ++ [.run, .disconnect]) rfl
  obtain ⟨states, labels, n, last, rests, here, _⟩ := Fairness.Run.rests_through owed <|
    (Transition.initially _ Transition.always).exec [.reset, .halt, .join] rfl
  have fair : FairSchedule states labels := .of_rests rests fun a t stepped => by
    refine ⟨?_, ?_, ?_, ?_, ?_⟩ <;> rintro rfl <;> cases stepped
  have called : (states n).client = .resetting := (congrArg State.client here).trans rfl
  exact ⟨states, n, called, (congrArg State.contexts here).trans rfl,
    disconnect_returns rests.run fair (.inl called)⟩

/-! `wait_for_connect()` -/

/-- hiredis calls `on_connect`. -/
def Action.decides : Action → Prop
  | connectEvent .. => True
  | _ => False

/-- The outcome of an attempt is there, or hiredis is still going to tell it. -/
def Underway (s : State) : Prop :=
  s.connectProcessed = true ∨ ∃ i : Nat, s.links[i]? = some .connecting

section WaitForConnect

/-- A callback reports on a context that is what it was when it began. -/
theorem calling_during (run : Transition.Reaches machine Transition.always s) :
    ∀ call, s.poll = .calling call → s.links[call.context]? = some call.callback.during := by
  refine run.invariant
    (P := fun s => ∀ call, s.poll = .calling call → s.links[call.context]? = some call.callback.during)
    (by simp) fun {s t a} holds _ stepped => ?_
  have effect : Effect s a t := step_effect stepped
  have silent {goal : Prop} (quiet : s.inCallback = false) {call : Call}
      (calling : s.poll = .calling call) : goal := by
    rw [State.inCallback, calling] at quiet
    contradiction
  cases effect with
  | @callbackStep call calling =>
    have during := holds call calling
    unfold State.callbackStep
    cases call.line with
    | finish => simp
    | _ =>
      rintro _ ⟨⟩
      exact during
  | @connectEvent i _ _ _ found link | @lastReply i _ _ found link
  | @lostEvent i _ _ _ found link =>
    rintro _ ⟨⟩
    refine (congrArg (·[i]?) (links_set found rfl (by rfl))).trans ?_
    rw [links_found found, link]
    rfl
  | runs _ _ _ found =>
    exact fun call calling =>
      (congrArg (·[call.context]?) (links_set found rfl (by rfl))).trans (holds call calling)
  | resetsDead _ quiet | postpones _ quiet | closes _ quiet | abandons _ quiet =>
    exact fun call calling => silent quiet calling
  | connects | joins | replyEvent | halt => simp
  | keeps | throws | waitForConnect | connectWaits | connectPasses | isConnected | makeBatch
  | runsNowhere | returns | disconnects | waitForDisconnect | disconnectWaits | disconnectPasses =>
    exact holds

/-- What can happen while the client waits for `on_connect`. -/
inductive WaitEffect (s : State) (waiter : Waiter) : Action → State → Prop
  | passes (processed : s.connectProcessed = true) :
    WaitEffect s waiter .connectWait { s with client := .idle }
  | waits {next} (moved : waiter.advance s.connectProcessed = .waits next) :
    WaitEffect s waiter .connectWait { s with client := .waitForConnect next }
  | callback {call} (calling : s.poll = .calling call) :
    WaitEffect s waiter .callbackStep (s.callbackStep call)
  | decision {b : Action} {u : State} {call : Call} {i : Nat} (decides : b.decides)
      (polling : s.poll = .polling) (found : s.links[i]? = some Link.connecting)
      (client : u.client = s.client) (processed : u.connectProcessed = s.connectProcessed)
      (links : u.links = s.links) (poll : u.poll = .calling call)
      (callback : call.callback = .onConnect) (line : call.line = .connectionLost) :
    WaitEffect s waiter b u
  | other {b : Action} {u : State} (decides : ¬ b.decides) (away : b ≠ .connectWait)
      (quiet : s.inCallback = false) (client : u.client = s.client)
      (processed : u.connectProcessed = s.connectProcessed) (links : u.links = s.links)
      (poll : ∀ call, u.poll = .calling call → call.callback = .onDisconnect) :
    WaitEffect s waiter b u

theorem wait_effect {waiter : Waiter} (effect : Effect s a t)
    (waits : s.client = .waitForConnect waiter) : WaitEffect s waiter a t := by
  have silent (polling : s.poll = .polling) : s.inCallback = false := by
    rw [State.inCallback, polling]
  cases effect with
  | connectPasses _ processed => exact .passes processed
  | connectWaits at_ moved =>
    cases waits.symm.trans at_
    exact .waits moved
  | callbackStep calling => exact .callback calling
  | connectEvent _ polling found link =>
    exact .decision trivial polling (by rw [links_found found, link]) rfl rfl
      (links_set found rfl (by rfl)) rfl rfl rfl
  | replyEvent polling found =>
    exact .other id (by simp) (silent polling) rfl rfl (links_set found rfl (by rfl)) (by simp)
  | lastReply polling found | lostEvent _ polling found =>
    exact .other id (by simp) (silent polling) rfl rfl (links_set found rfl (by rfl))
      (by rintro _ ⟨⟩; rfl)
  | halt polling => exact .other id (by simp) (silent polling) rfl rfl rfl (by simp)
  | keeps _ free | throws free | connects free | waitForConnect free | isConnected free
  | makeBatch free | runs free | runsNowhere free | returns free | disconnects free
  | waitForDisconnect free =>
    rw [waits] at free
    contradiction
  | resetsDead other | postpones other | closes other | abandons other | joins other
  | disconnectWaits other | disconnectPasses other =>
    rw [waits] at other
    contradiction

/-- What `on_disconnect` does to a client that waits for `on_connect`. -/
theorem callback_other {call : Call} {waiter : Waiter} (during : s.links[call.context]? = some .connected)
    (callback : call.callback = .onDisconnect) (waits : s.client = .waitForConnect waiter) :
    (s.callbackStep call).client = s.client ∧
      (s.callbackStep call).connectProcessed = s.connectProcessed ∧
      ((s.callbackStep call).inCallback = false ∨
        ∃ line, (s.callbackStep call).poll = .calling { call with line }) ∧
      ∀ i : Nat, (s.callbackStep call).links[i]? = some .connecting ↔
        s.links[i]? = some .connecting := by
  unfold State.callbackStep
  cases line : call.line with
  | finish =>
    refine ⟨rfl, rfl, .inl rfl, fun i => ?_⟩
    rw [links_modify, List.getElem?_set]
    split
    case isTrue same =>
      subst same
      rw [during]
      split <;> cases status : call.status <;> simp [State.linkAfter, callback, status]
    case isFalse => rfl
  | notify => exact ⟨by rw [waits, callback]; rfl, rfl, .inr ⟨_, rfl⟩, fun i => Iff.rfl⟩
  | processed =>
    exact ⟨rfl, by simp [callback], .inr ⟨_, rfl⟩, fun i => Iff.rfl⟩
  | connectionLost | connected | connectErrMsg =>
    exact ⟨rfl, rfl, .inr ⟨_, rfl⟩, fun i => Iff.rfl⟩

/-- What `on_connect` has stored stays until `disconnect()` has been called. -/
theorem told_processed (run : Transition.Reaches machine Transition.always s) :
    ∀ call, s.poll = .calling call → call.callback = .onConnect →
      call.line.past .processed = true → s.connectProcessed = true ∨ s.client = .resetting := by
  refine run.invariant (P := fun s => ∀ call, s.poll = .calling call → call.callback = .onConnect →
    call.line.past .processed = true → s.connectProcessed = true ∨ s.client = .resetting)
    (by simp) fun {s t a} holds _ stepped => ?_
  have effect : Effect s a t := step_effect stepped
  have silent {goal : Prop} (quiet : s.inCallback = false) {call : Call}
      (calling : s.poll = .calling call) : goal := by
    rw [State.inCallback, calling] at quiet
    contradiction
  have moves {client : Client} (away : s.client ≠ .resetting) (call : Call)
      (calling : s.poll = .calling call) (callback : call.callback = .onConnect)
      (past : call.line.past .processed = true) :
      s.connectProcessed = true ∨ client = .resetting :=
    (holds call calling callback past).imp id fun at_ => absurd at_ away
  cases effect with
  | @callbackStep call calling =>
    unfold State.callbackStep
    cases line : call.line with
    | finish => simp
    | connectionLost | connected =>
      rintro _ ⟨⟩ _ past
      simp [Line.past] at past
    | processed =>
      rintro _ ⟨⟩ callback _
      exact .inl (by simp_all)
    | connectErrMsg =>
      rintro _ ⟨⟩ callback _
      exact holds call calling callback (by simp [line, Line.past])
    | notify =>
      rintro _ ⟨⟩ callback _
      exact (holds call calling callback (by simp [line, Line.past])).imp id
        Client.notify_resetting.mpr
  | connectEvent | lastReply | lostEvent =>
    rintro _ ⟨⟩ _ past
    simp [Line.past] at past
  | resetsDead _ quiet | postpones _ quiet | closes _ quiet | abandons _ quiet =>
    exact fun call calling => silent quiet calling
  | connects | joins | replyEvent | halt => simp
  | disconnects => exact fun _ _ _ _ => .inr rfl
  | runs | isConnected | makeBatch | runsNowhere => exact holds
  | keeps _ free | throws free | waitForConnect free | returns free | waitForDisconnect free =>
    exact moves (free_away free).1
  | connectWaits at_ | connectPasses at_ | disconnectWaits at_ | disconnectPasses at_ =>
    exact moves (by simp [at_])

/-- The line of `on_connect` that is to come is not yet past the store. -/
def Deciding (s : State) : Prop :=
  ∃ call, s.poll = .calling call ∧ call.callback = .onConnect ∧ call.line.past .processed = false

def Client.awaitsConnect : Client → Prop
  | waitForConnect _ => True
  | _ => False

theorem Client.awaitsConnect_notify {client : Client} {callback : Callback} :
    (client.notify callback).awaitsConnect ↔ client.awaitsConnect := by
  cases client <;> simp [Client.notify, Client.awaitsConnect]

theorem awaits_callback {call : Call} :
    (s.callbackStep call).client.awaitsConnect ↔ s.client.awaitsConnect := by
  unfold State.callbackStep
  split
  case h_5 => exact Client.awaitsConnect_notify
  all_goals exact Iff.rfl

theorem awaits_exists {client : Client} (awaits : client.awaitsConnect) :
    ∃ waiter, client = .waitForConnect waiter := by
  cases client with
  | waitForConnect waiter => exact ⟨waiter, rfl⟩
  | _ => exact awaits.elim

theorem connectEvent_enabled {i : Nat} {ctx : Context} (polling : s.poll = .polling)
    (found : s.contexts[i]? = some ctx) (link : ctx.link = .connecting) (status : Status) :
    ∃ t, step s (.connectEvent i status) = some t := by
  simp only [step, polling, State.context, found, link]
  exact ⟨_, rfl⟩

/-- Until the store the callback comes nearer to it, and after it the client can go. -/
theorem deciding_step (effect : Effect s a t) (awaits : s.client.awaitsConnect)
    (undecided : s.connectProcessed = false) (deciding : Deciding s) :
    t.client.awaitsConnect ∧ (t.connectProcessed = true ∨
      t.connectProcessed = false ∧ Deciding t ∧ t.poll.remaining ≤ s.poll.remaining ∧
        (a = .callbackStep → t.poll.remaining < s.poll.remaining)) := by
  obtain ⟨waiter, waits⟩ := awaits_exists awaits
  obtain ⟨call, calling, callback, early⟩ := deciding
  cases wait_effect effect waits with
  | passes processed =>
    rw [undecided] at processed
    contradiction
  | waits =>
    exact ⟨trivial, .inr ⟨undecided, ⟨call, calling, callback, early⟩, Nat.le_refl _, nofun⟩⟩
  | callback at_ =>
    cases calling.symm.trans at_
    refine ⟨awaits_callback.mpr awaits, ?_⟩
    unfold State.callbackStep
    cases line : call.line with
    | connectionLost | connected =>
      exact .inr ⟨undecided, ⟨_, rfl, callback, rfl⟩, by simp [calling, Poll.remaining, line,
        Line.remaining], by simp [calling, Poll.remaining, line, Line.remaining]⟩
    | processed => exact .inl (by simp [callback])
    | connectErrMsg | notify | finish => simp [line, Line.past] at early
  | decision _ polling =>
    rw [polling] at calling
    contradiction
  | other _ _ quiet =>
    rw [State.inCallback, calling] at quiet
    contradiction

/-- The client may leave before it is notified. -/
theorem announcing_step (effect : Effect s a t) (awaits : s.client.awaitsConnect)
    (processed : s.connectProcessed = true) (announces : Announces .onConnect s) :
    t.client = .idle ∨ (t.client.awaitsConnect ∧ t.connectProcessed = true) ∧
      (¬ Announces .onConnect t ∨ Announces .onConnect t ∧
        t.poll.remaining ≤ s.poll.remaining ∧
        (a = .callbackStep → t.poll.remaining < s.poll.remaining)) := by
  obtain ⟨waiter, waits⟩ := awaits_exists awaits
  obtain ⟨call, calling, callback, running⟩ := announces
  cases wait_effect effect waits with
  | passes => exact .inl rfl
  | waits =>
    exact .inr ⟨⟨trivial, processed⟩,
      .inr ⟨⟨call, calling, callback, running⟩, Nat.le_refl _, nofun⟩⟩
  | callback at_ =>
    cases calling.symm.trans at_
    have stays : (s.callbackStep call).connectProcessed = true := by
      unfold State.callbackStep
      cases call.line <;> simp [processed, callback]
    refine .inr ⟨⟨awaits_callback.mpr awaits, stays⟩, ?_⟩
    cases line : call.line with
    | finish => exact absurd line running
    | notify =>
      left
      rintro ⟨next, poll, _, early⟩
      simp only [State.callbackStep, line] at poll
      cases poll
      exact early rfl
    | connectionLost | connected | processed | connectErrMsg =>
      right
      simp only [State.callbackStep, line, calling]
      exact ⟨⟨_, rfl, callback, by simp⟩, by simp [Poll.remaining, line, Line.remaining],
        by simp [Poll.remaining, line, Line.remaining]⟩
  | decision _ polling =>
    rw [polling] at calling
    contradiction
  | other _ _ quiet =>
    rw [State.inCallback, calling] at quiet
    contradiction

def Client.distance : Client → Nat
  | waitForConnect waiter => waiter.distance
  | _ => 0

/-- After the notification nothing keeps the client from its test. -/
theorem silent_step (run : Transition.Reaches machine Transition.always s) (effect : Effect s a t)
    (awaits : s.client.awaitsConnect) (processed : s.connectProcessed = true)
    (silent : ¬ Announces .onConnect s) :
    t.client = .idle ∨ (t.client.awaitsConnect ∧ t.connectProcessed = true ∧
      ¬ Announces .onConnect t) ∧ t.client.distance ≤ s.client.distance ∧
        (a = .connectWait → t.client.distance < s.client.distance) := by
  obtain ⟨waiter, waits⟩ := awaits_exists awaits
  cases wait_effect effect waits with
  | passes => exact .inl rfl
  | waits moved =>
    have lower := Waiter.advance_distance moved
    rw [waits]
    exact .inr ⟨⟨trivial, processed, silent⟩, Nat.le_of_lt lower, fun _ => lower⟩
  | @callback call calling =>
    right
    cases callback : call.callback with
    | onDisconnect =>
      have during := calling_during run call calling
      rw [callback] at during
      obtain ⟨client, same, poll, _⟩ := callback_other during callback waits
      rw [client, same]
      refine ⟨⟨awaits, processed, ?_⟩, Nat.le_refl _, nofun⟩
      rintro ⟨next, after, connects, _⟩
      rcases poll with quiet | ⟨line, poll⟩
      · rw [State.inCallback, after] at quiet
        contradiction
      · cases poll.symm.trans after
        rw [callback] at connects
        contradiction
    | onConnect =>
      have line : call.line = .finish := by
        by_contra running
        exact silent ⟨call, calling, callback, running⟩
      simp only [State.callbackStep, line]
      refine ⟨⟨awaits, processed, ?_⟩, Nat.le_refl _, nofun⟩
      rintro ⟨next, after, _⟩
      contradiction
  | decision _ polling found =>
    have undecided := ((disciplined run).undecided polling found).2.1
    rw [processed] at undecided
    contradiction
  | other _ away _ client same _ poll =>
    rw [client, same]
    refine .inr ⟨⟨awaits, processed, ?_⟩, Nat.le_refl _, fun is => absurd is away⟩
    rintro ⟨call, calling, connects, _⟩
    rw [poll call calling] at connects
    contradiction

/-- The client waits for an attempt on which hiredis has not decided. -/
structure AwaitsDecision (s : State) : Prop where
  awaits : s.client.awaitsConnect
  undecided : s.connectProcessed = false
  connecting : ∃ i : Nat, s.links[i]? = some .connecting
  others : ∀ call, s.poll = .calling call → call.callback = .onDisconnect

namespace AwaitsDecision

theorem step (awaiting : AwaitsDecision s)
    (run : Transition.Reaches machine Transition.always s) (effect : Effect s a t) :
    (t.client.awaitsConnect ∧ t.connectProcessed = false ∧ Deciding t) ∨
      AwaitsDecision t ∧ ¬ a.decides := by
  obtain ⟨awaits, undecided, ⟨i, connecting⟩, others⟩ := awaiting
  obtain ⟨waiter, waits⟩ := awaits_exists awaits
  cases wait_effect effect waits with
  | passes processed =>
    rw [undecided] at processed
    contradiction
  | waits => exact .inr ⟨⟨trivial, undecided, ⟨i, connecting⟩, others⟩, nofun⟩
  | @callback call calling =>
    have during := calling_during run call calling
    rw [others call calling] at during
    obtain ⟨client, processed, poll, links⟩ := callback_other during (others call calling) waits
    refine .inr ⟨⟨by rwa [client], processed.trans undecided, ⟨i, (links i).mpr connecting⟩, ?_⟩,
      nofun⟩
    intro next after
    rcases poll with quiet | ⟨line, poll⟩
    · rw [State.inCallback, after] at quiet
      contradiction
    · cases poll.symm.trans after
      exact others call calling
  | decision _ _ _ client processed _ poll callback line =>
    exact .inl ⟨by rwa [client], processed.trans undecided, _, poll, callback, by rw [line]; rfl⟩
  | other decides _ _ client processed links poll =>
    exact .inr ⟨⟨by rwa [client], processed.trans undecided, ⟨i, by rwa [links]⟩, poll⟩, decides⟩

theorem polling (awaiting : AwaitsDecision s)
    (run : Transition.Reaches machine Transition.always s) (quiet : s.inCallback = false) :
    s.poll = .polling := by
  obtain ⟨waiter, waits⟩ := awaits_exists awaiting.awaits
  obtain ⟨i, connecting⟩ := awaiting.connecting
  have holds := disciplined run
  cases poll : s.poll with
  | polling => rfl
  | notStarted =>
    have held : s.mConn.isSome := by
      rw [(holds.connecting i connecting).1]
      rfl
    exact absurd poll (holds.started held)
  | calling call =>
    rw [State.inCallback, poll] at quiet
    contradiction
  | ended =>
    have joining := (holds.ended poll).1
    rw [waits] at joining
    contradiction

end AwaitsDecision

theorem client_covered (run : Transition.Reaches machine Heard s) (callback : Callback) :
    ClientCovered callback s :=
  run.invariant (P := ClientCovered callback) (by cases callback <;> rintro _ ⟨⟩)
    fun covered heard stepped => covered_step (step_effect stepped) heard covered

/-- Where there is nothing to wait for, the client waits for ever. -/
theorem idle_step (run : Transition.Reaches machine Transition.always s) (effect : Effect s a t)
    (awaits : s.client.awaitsConnect) (nothing : ¬ Underway s) :
    t.client.awaitsConnect ∧ ¬ Underway t := by
  obtain ⟨waiter, waits⟩ := awaits_exists awaits
  have same {u : State} (processed : u.connectProcessed = s.connectProcessed)
      (links : ∀ i : Nat, u.links[i]? = some .connecting ↔ s.links[i]? = some .connecting) :
      ¬ Underway u := by
    simp only [Underway, processed, links]
    exact nothing
  cases wait_effect effect waits with
  | passes processed => exact absurd (.inl processed) nothing
  | waits => exact ⟨trivial, same rfl fun _ => Iff.rfl⟩
  | @callback call calling =>
    have during := calling_during run call calling
    cases callback : call.callback with
    | onConnect =>
      rw [callback] at during
      exact absurd (.inr ⟨_, during⟩) nothing
    | onDisconnect =>
      rw [callback] at during
      obtain ⟨_, processed, _, links⟩ := callback_other during callback waits
      exact ⟨awaits_callback.mpr awaits, same processed links⟩
  | decision _ _ found => exact absurd (.inr ⟨_, found⟩) nothing
  | other _ _ _ client processed links =>
    rw [client]
    exact ⟨awaits, same processed fun _ => by rw [links]⟩

variable (run : Fairness.Run machine states labels) (fair : FairSchedule states labels)
include run fair

theorem decision_reached (decision : Fairness.FairTo machine Action.decides states labels)
    (awaiting : AwaitsDecision (states n)) :
    ∃ k ≥ n, (states k).client.awaitsConnect ∧ (states k).connectProcessed = false ∧
      Deciding (states k) := by
  refine decision.leadsTo run (P := AwaitsDecision)
    (Q := fun s => s.client.awaitsConnect ∧ s.connectProcessed = false ∧ Deciding s)
    (fun _ => 0) ?_ ?_ awaiting
  · rintro k a _ moved awaiting
    rcases awaiting.step (run.reaches k) (step_effect moved) with reached | ⟨still, undecided⟩
    · exact .inl reached
    · exact .inr ⟨still, Nat.le_refl 0, fun member => absurd member undecided⟩
  · intro k here
    obtain ⟨j, later, quiet⟩ := callback_returns run fair k
    have polling := (here j later).polling (run.reaches j) quiet
    obtain ⟨i, connecting⟩ := (here j later).connecting
    rw [State.links, List.getElem?_map] at connecting
    obtain ⟨ctx, found, link⟩ := Option.map_eq_some_iff.mp connecting
    exact ⟨j, later, .connectEvent i .ok, trivial, connectEvent_enabled polling found link .ok⟩

theorem decision_stored (awaits : (states n).client.awaitsConnect)
    (undecided : (states n).connectProcessed = false) (deciding : Deciding (states n)) :
    ∃ k ≥ n, (states k).client.awaitsConnect ∧ (states k).connectProcessed = true := by
  refine fair.callback.leadsTo run
    (P := fun s => s.client.awaitsConnect ∧ s.connectProcessed = false ∧ Deciding s)
    (Q := fun s => s.client.awaitsConnect ∧ s.connectProcessed = true)
    (fun s => s.poll.remaining) ?_ ?_ ⟨awaits, undecided, deciding⟩
  · rintro k a _ moved ⟨awaits, undecided, deciding⟩
    obtain ⟨still, stored | ⟨undecided, deciding, lower, drops⟩⟩ :=
      deciding_step (step_effect moved) awaits undecided deciding
    · exact .inl ⟨still, stored⟩
    · exact .inr ⟨⟨still, undecided, deciding⟩, lower, drops⟩
  · intro k here
    obtain ⟨_, _, call, calling, _⟩ := here k (Nat.le_refl k)
    exact ⟨k, Nat.le_refl k, .callbackStep, rfl, _, by simp only [step, calling]; rfl⟩

theorem notification_passes (awaits : (states n).client.awaitsConnect)
    (processed : (states n).connectProcessed = true) (announces : Announces .onConnect (states n)) :
    ∃ k ≥ n, (states k).client = .idle ∨ (states k).client.awaitsConnect ∧
      (states k).connectProcessed = true ∧ ¬ Announces .onConnect (states k) := by
  refine fair.callback.leadsTo run
    (P := fun s => s.client.awaitsConnect ∧ s.connectProcessed = true ∧ Announces .onConnect s)
    (Q := fun s => s.client = .idle ∨ s.client.awaitsConnect ∧ s.connectProcessed = true ∧
      ¬ Announces .onConnect s) (fun s => s.poll.remaining) ?_ ?_ ⟨awaits, processed, announces⟩
  · rintro k a _ moved ⟨awaits, processed, announces⟩
    rcases announcing_step (step_effect moved) awaits processed announces with
      gone | ⟨⟨awaits, processed⟩, silent | ⟨announces, lower, drops⟩⟩
    · exact .inl (.inl gone)
    · exact .inl (.inr ⟨awaits, processed, silent⟩)
    · exact .inr ⟨⟨awaits, processed, announces⟩, lower, drops⟩
  · intro k here
    obtain ⟨_, _, call, calling, _⟩ := here k (Nat.le_refl k)
    exact ⟨k, Nat.le_refl k, .callbackStep, rfl, _, by simp only [step, calling]; rfl⟩

theorem silence_returns (heard : ∀ n a, labels n = some a → Heard (states n) a)
    (awaits : (states n).client.awaitsConnect) (processed : (states n).connectProcessed = true)
    (silent : ¬ Announces .onConnect (states n)) : ∃ k ≥ n, (states k).client = .idle := by
  refine fair.wait.leadsTo run
    (P := fun s => s.client.awaitsConnect ∧ s.connectProcessed = true ∧ ¬ Announces .onConnect s)
    (Q := fun s => s.client = .idle) (fun s => s.client.distance) ?_ ?_ ⟨awaits, processed, silent⟩
  · rintro k a _ moved ⟨awaits, processed, silent⟩
    exact silent_step (run.reaches k) (step_effect moved) awaits processed silent
  · intro k here
    obtain ⟨awaits, processed, silent⟩ := here k (Nat.le_refl k)
    obtain ⟨waiter, waits⟩ := awaits_exists awaits
    have covered := client_covered (run.reaches_under heard k) .onConnect waiter (by rw [waits]; rfl)
    have awake : waiter ≠ .blocked := by
      rintro rfl
      rcases covered rfl with undecided | announces
      · exact undecided processed
      · exact silent announces
    refine ⟨k, Nat.le_refl k, .connectWait, rfl, ?_⟩
    cases moved : waiter.advance (states k).connectProcessed with
    | waits | passed => exact ⟨_, by simp only [step, waits, moved]; rfl⟩
    | stuck => exact absurd (Waiter.advance_stuck.mp moved) awake

theorem processed_returns (heard : ∀ n a, labels n = some a → Heard (states n) a)
    (awaits : (states n).client.awaitsConnect) (processed : (states n).connectProcessed = true) :
    ∃ k ≥ n, (states k).client = .idle := by
  by_cases announces : Announces .onConnect (states n)
  · obtain ⟨k, later, gone | ⟨awaits, processed, silent⟩⟩ :=
      notification_passes run fair awaits processed announces
    · exact ⟨k, later, gone⟩
    · obtain ⟨j, after, gone⟩ := silence_returns run fair heard awaits processed silent
      exact ⟨j, by omega, gone⟩
  · exact silence_returns run fair heard awaits processed announces

omit fair in
theorem nothing_returns (awaits : (states n).client.awaitsConnect) (nothing : ¬ Underway (states n))
    {k : Nat} (later : n ≤ k) : (states k).client.awaitsConnect := by
  refine (Nat.le_induction (P := fun k _ => (states k).client.awaitsConnect ∧ ¬ Underway (states k))
    ⟨awaits, nothing⟩ ?_ k later).1
  rintro k _ ⟨awaits, nothing⟩
  rcases run.cases k with ⟨_, same⟩ | ⟨a, _, moved⟩
  · rw [same]
    exact ⟨awaits, nothing⟩
  · exact idle_step (run.reaches k) (step_effect moved) awaits nothing

end WaitForConnect

/-- If its notification is heard and hiredis decides on every attempt, `wait_for_connect()`
returns exactly if there is an attempt, or the outcome of one, when it is called. -/
theorem wait_for_connect_returns_iff {states : Nat → State} {labels : Nat → Option Action} {n : Nat}
    (run : Fairness.Run machine states labels) (fair : FairSchedule states labels)
    (decision : Fairness.FairTo machine Action.decides states labels)
    (heard : ∀ k a, labels k = some a → Heard (states k) a) {waiter : Waiter}
    (waits : (states n).client = .waitForConnect waiter) :
    (∃ k ≥ n, (states k).client = .idle) ↔ Underway (states n) := by
  have awaits : (states n).client.awaitsConnect := by
    rw [waits]
    exact trivial
  constructor
  · rintro ⟨k, later, idle⟩
    by_contra nothing
    have still := nothing_returns run awaits nothing later
    rw [idle] at still
    exact still
  · intro underway
    cases processed : (states n).connectProcessed with
    | true => exact processed_returns run fair heard awaits processed
    | false =>
      have connecting := underway.resolve_left (by simp [processed])
      obtain ⟨i, first, awaits, undecided, deciding⟩ : ∃ k ≥ n, (states k).client.awaitsConnect ∧
          (states k).connectProcessed = false ∧ Deciding (states k) := by
        by_cases others : ∀ call, (states n).poll = .calling call → call.callback = .onDisconnect
        · exact decision_reached run fair decision ⟨awaits, processed, connecting, others⟩
        · simp only [not_forall] at others
          obtain ⟨call, calling, connects⟩ := others
          have callback : call.callback = .onConnect := by
            cases kind : call.callback with
            | onConnect => rfl
            | onDisconnect => exact absurd kind connects
          refine ⟨n, Nat.le_refl n, awaits, processed, call, calling, callback, ?_⟩
          cases past : call.line.past .processed with
          | false => rfl
          | true =>
            rcases told_processed (run.reaches n) call calling callback past with told | resetting
            · rw [processed] at told
              contradiction
            · rw [waits] at resetting
              contradiction
      obtain ⟨j, second, awaits, processed⟩ := decision_stored run fair awaits undecided deciding
      obtain ⟨k, third, idle⟩ := processed_returns run fair heard awaits processed
      exact ⟨k, by omega, idle⟩

/-- The client has blocked before the server accepts the connection. -/
theorem wait_for_connect_returns_blocked : ∃ (states : Nat → State) (n : Nat),
    (states n).client = .waitForConnect .blocked ∧ ∃ k ≥ n, (states k).client = .idle := by
  have blocked := (Transition.initially machine Heard)
    |>.next (a := .connect .ok) (by trivial) rfl
    |>.next (a := .waitForConnect) (by trivial) rfl
    |>.next (a := .connectWait) (by trivial) rfl
    |>.next (a := .connectWait) (by trivial) rfl
    |>.next (a := .connectWait) (by trivial) rfl
  obtain ⟨states, labels, n, last, rests, here, _⟩ := Fairness.Run.rests_through blocked <|
    (Transition.initially _ Heard)
    |>.next (a := .connectEvent 0 .ok) (by trivial) rfl
    |>.next (a := .callbackStep) (by rintro _ ⟨⟩ ⟨⟩) rfl
    |>.next (a := .callbackStep) (by rintro _ ⟨⟩ ⟨⟩) rfl
    |>.next (a := .callbackStep) (by rintro _ ⟨⟩ ⟨⟩) rfl
    |>.next (a := .callbackStep) (by rintro _ ⟨⟩ ⟨⟩) rfl
    |>.next (a := .callbackStep) (by rintro _ ⟨⟩ _ _ ⟨⟩ ⟨⟨⟩, _⟩) rfl
    |>.next (a := .callbackStep) (by rintro _ ⟨⟩ ⟨⟩) rfl
    |>.next (a := .connectWait) (by trivial) rfl
    |>.next (a := .connectWait) (by trivial) rfl
  have fair : FairSchedule states labels := .of_rests rests fun a t stepped => by
    refine ⟨?_, ?_, ?_, ?_, ?_⟩ <;> rintro rfl <;> cases stepped
  have decision : Fairness.FairTo machine Action.decides states labels :=
    .of_rests rests <| by
      rintro ⟨a, decides, t, stepped⟩
      cases a with
      | connectEvent i status => cases i <;> cases stepped
      | _ => exact decides
  have waits : (states n).client = .waitForConnect .blocked := (congrArg State.client here).trans rfl
  refine ⟨states, n, waits,
    (wait_for_connect_returns_iff rests.run fair decision rests.allowed waits).mpr (.inr ⟨0, ?_⟩)⟩
  exact (congrArg (fun s : State => s.links[0]?) here).trans rfl

end Incredis.Connection
