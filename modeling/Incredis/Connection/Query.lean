import Incredis.Connection.Flags

/-! `is_connected()` against the events that hiredis has reported. Its assertion expects
a lost connection to be a connected one. -/
namespace Incredis.Connection

/-- What hiredis reports: the callback it calls and the status it gives it. -/
abbrev Event := Callback × Status

/-- The status of the callback that a step starts, if it starts one. -/
def Action.status : Action → Status
  | .connectEvent _ status => status
  | .lostEvent _ errstr => .err errstr
  | _ => .ok

def event (s : State) (a : Action) : Option Event :=
  (starts s a).map fun (callback, _) => (callback, a.status)

/-- The connection with the events reported so far. -/
abbrev logged : Transition.Machine (State × List Event) Action :=
  Transition.logging machine event

/-- The last event is an `on_connect` with `REDIS_OK`. -/
def ConnectedLast (log : List Event) : Prop := log.getLast? = some (.onConnect, .ok)

/-- The last event is an `on_disconnect` with `REDIS_ERR`: the server went away. -/
def LostLast (log : List Event) : Prop := ∃ errstr, log.getLast? = some (.onDisconnect, .err errstr)

/-- `assert(not m_connection_lost or connected)` -/
def State.IsConnectedAsserted (s : State) : Prop :=
  ¬ s.connectionLost = true ∨ s.isConnected = true

/-- The assertion holds, and the result tells the last event and the state of the context. -/
structure QueryIsSafe (s : State) (log : List Event) : Prop where
  asserted : s.IsConnectedAsserted
  result : s.isConnected = true ↔
    (∃ ctx, s.held = some ctx ∧ ctx.err = false) ∧ ConnectedLast log

/-- No callback stands before its store to `m_connection_lost` or to `m_connected`. -/
def State.Told (s : State) : Prop := ∀ call, s.call = some call → call.line.past .connected = true

/-- What the two stores leave of the last event, each once it has been made. -/
structure Recorded (s : State) (log : List Event) : Prop where
  calling : ∀ call, s.call = some call → log.getLast? = some (call.callback, call.status)
  connectionLost : (∀ call, s.call = some call → call.line.past .connectionLost = true) →
    (s.connectionLost = true ↔ LostLast log)
  connected : s.Told → (s.connected = true ↔ ConnectedLast log)

section Step
variable {s t : State} {log : List Event} {a : Action}

theorem call_calling {call : Call} (calling : s.poll = .calling call) : s.call = some call := by
  simp only [State.call, calling]

/-- A step that neither begins nor advances a callback and touches neither flag. -/
theorem Recorded.keep (recorded : Recorded s log) (call : t.call = s.call)
    (connectionLost : t.connectionLost = s.connectionLost) (connected : t.connected = s.connected) :
    Recorded t log := by
  constructor
  · rw [call]
    exact recorded.calling
  · rw [call, connectionLost]
    exact recorded.connectionLost
  · rw [State.Told, call, connected]
    exact recorded.connected

/-- hiredis calls back on the poll thread; no store has been made. -/
theorem Recorded.begin {callback : Callback} {i : Nat} {status : Status}
    (poll : t.poll = .calling ⟨callback, i, status, .connectionLost⟩) :
    Recorded t (log ++ [(callback, status)]) := by
  have call := call_calling poll
  constructor
  · intro other same
    cases call.symm.trans same
    rw [List.getLast?_concat]
  · intro past
    cases past _ call
  · intro past
    cases past _ call

theorem Recorded.callback {call : Call} (calling : s.poll = .calling call)
    (recorded : Recorded s log) : Recorded (s.callbackStep call) log := by
  have last := recorded.calling call (call_calling calling)
  have lost : LostLast log ↔ call.callback = .onDisconnect ∧ call.status.isOk = false := by
    simp only [LostLast, last, Option.some.injEq, Prod.mk.injEq, exists_and_left]
    cases call.status <;> simp [Status.isOk]
  have connected : ConnectedLast log ↔ call.callback = .onConnect ∧ call.status.isOk = true := by
    simp only [ConnectedLast, last, Option.some.injEq, Prod.mk.injEq]
    cases call.status <;> simp [Status.isOk]
  have before := recorded.connectionLost
  have after := recorded.connected
  simp only [State.Told, call_calling calling, Option.some.injEq, forall_eq'] at before after
  unfold State.callbackStep
  cases line : call.line with
  | finish =>
    refine ⟨by rintro _ ⟨⟩, fun _ => ?_, fun _ => ?_⟩
    · exact before (by simp [line, Line.past])
    · exact after (by simp [line, Line.past])
  | connectionLost =>
    refine ⟨by rintro _ ⟨⟩; exact last, fun _ => ?_, fun told => ?_⟩
    · simp [lost]
    · cases told _ rfl
  | connected =>
    refine ⟨by rintro _ ⟨⟩; exact last, fun _ => ?_, fun _ => ?_⟩
    · exact before (by simp [line, Line.past])
    · simp [connected]
  | processed | connectErrMsg | notify =>
    refine ⟨by rintro _ ⟨⟩; exact last, fun _ => ?_, fun _ => ?_⟩
    · exact before (by simp [line, Line.past])
    · exact after (by simp [line, Line.past])

end Step

section Run
variable {s t : State} {log : List Event} {a : Action}

/-- The clean `on_disconnect` that `redisAsyncDisconnect` calls has made its stores when
`m_conn.reset()` returns. -/
theorem Recorded.close (quiet : s.inCallback = false) (poll : t.poll = s.poll)
    (connectionLost : t.connectionLost = false) (connected : t.connected = false) :
    Recorded t (log ++ [(.onDisconnect, .ok)]) := by
  have call : t.call = none := by
    rw [← call_none quiet]
    simp only [State.call, poll]
  constructor
  · rw [call]
    rintro _ ⟨⟩
  · simp [connectionLost, LostLast]
  · simp [connected, ConnectedLast]

theorem event_reset_none (idle : ∀ ctx, s.held = some ctx →
    ctx.link ≠ .connected ∨ ctx.outstanding ≠ 0) : event s .reset = none := by
  have nothing : (s.held.any fun ctx => ctx.link = .connected && ctx.outstanding = 0) = false := by
    rw [Option.any_eq_false_iff_get]
    intro some
    rcases idle (s.held.get some) (Option.some_get some).symm with other | other <;> simp [other]
  simp [event, starts, nothing]

/-- Without a context in `m_conn` there is no poll thread, unless it is being joined. -/
def State.Stopped (s : State) : Prop :=
  s.mConn = none → s.client ≠ .joining → s.poll = .notStarted

theorem stopped_step (effect : Effect s a t) (stopped : s.Stopped) : t.Stopped := by
  have apart {poll : Poll} (running : s.poll = poll) (some : poll ≠ .notStarted)
      (none : s.mConn = none) : s.client = .joining := by
    apply Decidable.byContradiction
    intro other
    exact some (running.symm.trans (stopped none other))
  intro none other
  cases effect with
  | @callbackStep call calling =>
    have conn : (s.callbackStep call).mConn = s.mConn := by
      unfold State.callbackStep
      split <;> rfl
    have joining : (s.callbackStep call).client = .joining ↔ s.client = .joining := by
      unfold State.callbackStep
      split <;> simp [Client.notify_joining]
    exact absurd (joining.mpr (apart calling (by simp) (conn ▸ none))) other
  | connects => contradiction
  | resetsDead | postpones | closes | abandons => exact absurd rfl other
  | joins => rfl
  | connectEvent _ polling | replyEvent polling | lastReply polling | lostEvent _ polling
  | halt polling => exact absurd (apart polling (by simp) none) other
  | keeps _ free | throws free | waitForConnect free | returns free | disconnects free
  | waitForDisconnect free | isConnected free | makeBatch free | runs free | runsNowhere free =>
    exact stopped none (by rintro at_; simp [at_, Client.free] at free)
  | connectWaits at_ | connectPasses at_ | disconnectWaits at_ | disconnectPasses at_ =>
    exact stopped none (by simp [at_])

theorem recorded_step (effect : Effect s a t) (stopped : s.Stopped) (recorded : Recorded s log) :
    Recorded t (log ++ (event s a).toList) := by
  have quietly (none : event s a = none) (call : t.call = s.call)
      (connectionLost : t.connectionLost = s.connectionLost)
      (connected : t.connected = s.connected) : Recorded t (log ++ (event s a).toList) := by
    rw [none, Option.toList_none, List.append_nil]
    exact recorded.keep call connectionLost connected
  cases effect with
  | callbackStep calling =>
    rw [show event s .callbackStep = none from rfl, Option.toList_none, List.append_nil]
    exact recorded.callback calling
  | connectEvent status polling found link => exact .begin rfl
  | lostEvent errstr polling found link => exact .begin rfl
  | @lastReply i ctx polling found link disconnecting last =>
    have reported : event s (.replyEvent i) = some (.onDisconnect, .ok) := by
      simp [event, starts, State.context, found, disconnecting, last, Action.status]
    rw [reported]
    exact .begin rfl
  | @replyEvent i ctx polling found link outstanding more =>
    refine quietly ?_ (by simp only [State.call, polling]) rfl rfl
    have only : (ctx.disconnecting && decide (ctx.outstanding = 1)) = false := by
      simpa using more
    simp [event, starts, State.context, found, only]
  | @closes i ctx at_ quiet conn found link idle =>
    have reported : event s .reset = some (.onDisconnect, .ok) := by
      simp [event, starts, State.held, State.context, conn, found, link, idle, Action.status]
    rw [reported]
    exact .close quiet rfl rfl rfl
  | resetsDead at_ quiet dead =>
    refine quietly (event_reset_none fun ctx held => .inl ?_) rfl rfl rfl
    intro connected
    have := dead ctx held
    simp [connected, Link.live] at this
  | postpones at_ quiet conn found live outstanding =>
    refine quietly (event_reset_none fun ctx held => .inr ?_) rfl rfl rfl
    simp only [State.held, conn, Option.bind_some, State.context, found, Option.some.injEq] at held
    rw [← held]
    omega
  | abandons at_ quiet conn found link idle =>
    refine quietly (event_reset_none fun ctx held => .inl ?_) rfl rfl rfl
    simp only [State.held, conn, Option.bind_some, State.context, found, Option.some.injEq] at held
    simp [← held, link]
  | connects free none =>
    have halted := stopped none (by rintro at_; simp [at_, Client.free] at free)
    exact quietly rfl (by simp only [State.call, halted]) rfl rfl
  | joins at_ ended => exact quietly rfl (by simp only [State.call, ended]) rfl rfl
  | halt polling pending => exact quietly rfl (by simp only [State.call, polling]) rfl rfl
  | _ => exact quietly rfl rfl rfl rfl

theorem recorded_run (run : Transition.Reaches logged Transition.always (s, log)) :
    Recorded s log := by
  refine (run.invariant (P := fun s => s.1.Stopped ∧ Recorded s.1 s.2) ⟨fun _ _ => rfl, ?_⟩ ?_).2
  · refine ⟨by rintro _ ⟨⟩, fun _ => ?_, fun _ => ?_⟩
    · simp [LostLast, Transition.logging]
    · simp [ConnectedLast, Transition.logging]
  · rintro ⟨s, log⟩ ⟨t, later⟩ a ⟨stopped, recorded⟩ _ stepped
    obtain ⟨next, moved, same⟩ := Transition.logging_step.mp stepped
    cases same
    exact ⟨stopped_step (step_effect moved) stopped, recorded_step (step_effect moved) stopped recorded⟩

/-- The connection can be asked about itself in every state but the one that matters
most: after the server has gone away. -/
theorem query_safe_iff (run : Transition.Reaches logged Transition.always (s, log)) (told : s.Told) :
    QueryIsSafe s log ↔ ¬ LostLast log := by
  have recorded := recorded_run run
  have connected := recorded.connected told
  have lost := recorded.connectionLost fun call calling => by
    have past := told call calling
    cases line : call.line <;> simp_all [Line.past]
  have result : s.isConnected = true ↔
      (∃ ctx, s.held = some ctx ∧ ctx.err = false) ∧ ConnectedLast log := by
    rw [← connected, State.isConnected]
    cases s.held <;> simp
  constructor
  · intro safe last
    rcases safe.asserted with kept | claimed
    · exact kept (lost.mpr last)
    · obtain ⟨errstr, gone⟩ := last
      have up : ConnectedLast log := (result.mp claimed).2
      rw [ConnectedLast, gone] at up
      cases up
  · intro kept
    exact ⟨.inl fun gone => kept (lost.mp gone), result⟩

end Run

/-- A connection that is up. -/
theorem query_safe_up : ∃ s : State, s.isConnected = true ∧
    (QueryIsSafe s [(.onConnect, .ok)] ↔ ¬ LostLast [(.onConnect, .ok)]) := by
  have run := (Transition.initially logged Transition.always).exec
    [.connect .ok, .connectEvent 0 .ok, .callbackStep, .callbackStep, .callbackStep,
     .callbackStep, .callbackStep, .callbackStep] rfl
  exact ⟨_, rfl, query_safe_iff run (by rintro _ ⟨⟩)⟩

/-- The server closes the connection: the assertion fails at the next query. -/
theorem query_asserts : ¬ ∀ s log, Transition.Reaches logged Transition.always (s, log) → s.Told →
    QueryIsSafe s log := by
  intro safe
  have run := (Transition.initially logged Transition.always).exec
    [.connect .ok, .connectEvent 0 .ok, .callbackStep, .callbackStep, .callbackStep,
     .callbackStep, .callbackStep, .callbackStep, .lostEvent 0 "Server closed the connection",
     .callbackStep, .callbackStep, .callbackStep, .callbackStep, .callbackStep,
     .callbackStep] rfl
  rcases (safe _ _ run (by rintro _ ⟨⟩)).asserted with kept | claimed
  · exact kept rfl
  · contradiction

end Incredis.Connection
