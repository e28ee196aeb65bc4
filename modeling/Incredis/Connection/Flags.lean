import Incredis.Connection.Effect

/-! What the flags of `AsyncConnection` say of the context that was created last, and
what has to hold of them between two steps. -/
namespace Incredis.Connection

/-- `m_connected`, `m_connection_lost`, `connect_processed` and
`disconnect_processed` -/
structure Flags where
  connected : Bool
  connectionLost : Bool
  connectProcessed : Bool
  disconnectProcessed : Bool
deriving DecidableEq, Repr

def State.flags (s : State) : Flags :=
  ⟨s.connected, s.connectionLost, s.connectProcessed, s.disconnectProcessed⟩

/-- The flags tell the life of the context. `disconnect()` clears `connect_processed`
before it lets go of the context. -/
def Describes (s : State) (ctx : Context) : Prop :=
  (s.connected = true ↔ ctx.link = .connected) ∧
    (s.connectionLost = true ↔ ctx.link = .lost) ∧
    (s.client ≠ .resetting → (s.connectProcessed = true ↔ ctx.link ≠ .connecting)) ∧
    (s.disconnectProcessed = true ↔ ctx.link = .lost ∨ ctx.link = .closed)

/-- The callback that a step starts, and its context. -/
def starts (s : State) : Action → Option (Callback × Nat)
  | .connectEvent i _ => some (.onConnect, i)
  | .lostEvent i _ => some (.onDisconnect, i)
  | .replyEvent i =>
    if (s.context i).any fun ctx => ctx.disconnecting && ctx.outstanding = 1 then
      some (.onDisconnect, i)
    else none
  -- on_disconnect is called from within redisAsyncDisconnect
  | .reset =>
    if s.held.any fun ctx => ctx.link = .connected && ctx.outstanding = 0 then
      s.mConn.map (.onDisconnect, ·)
    else none
  | _ => none

/-- The assertions at the head of `on_connect` and `on_disconnect`. -/
def Asserted (s : State) (i : Nat) : Callback → Prop
  | .onConnect => s.mConn = some i ∧ s.connectProcessed = false
  | .onDisconnect => s.connected = true ∧ s.disconnectProcessed = false

structure Consistent (s : State) : Prop where
  describes : s.inCallback = false → ∀ ctx, s.held = some ctx → Describes s ctx
  unmoved : ∀ call j, s.poll = .calling call → call.callback = .onDisconnect →
    s.mConn = some j → call.context ≠ j → (s.callbackStep call).flags = s.flags
  asserted : ∀ a t callback i, step s a = some t → starts s a = some (callback, i) →
    Asserted s i callback

/-- What has to hold of a step: a connection is opened only when every earlier context
is gone and `m_connection_lost` is not left over from the last one. -/
def Fresh (s : State) : Action → Prop
  | .connect .ok => s.mConn = none →
    (∀ ctx ∈ s.contexts, ctx.link.live = false) ∧ s.connectionLost = false
  | _ => True

def State.links (s : State) : List Link := s.contexts.map Context.link

/-- The life of the context created last; before the first there is nothing to tell. -/
def State.link (s : State) : Link := s.links.getLast?.getD .closed

def State.call (s : State) : Option Call :=
  match s.poll with
  | .calling call => some call
  | _ => none

def Line.past (line : Line) : Line → Bool
  | .connectionLost => line ≠ .connectionLost
  | .connected => line ≠ .connectionLost && line ≠ .connected
  | .processed => line = .connectErrMsg || line = .notify || line = .finish
  | _ => false

/-- What the flags should say of a context, outside and inside of its callbacks. -/
def view (link : Link) : Option Call → Flags
  | none => ⟨link = .connected, link = .lost, link ≠ .connecting, link = .lost || link = .closed⟩
  | some call => match call.callback with
    | .onConnect =>
      ⟨call.line.past .connected && call.status.isOk, false, call.line.past .processed, false⟩
    | .onDisconnect =>
      ⟨!call.line.past .connected, call.line.past .connectionLost && !call.status.isOk, true,
        call.line.past .processed⟩

/-- What the context is while the callback reports on it. -/
def Callback.during : Callback → Link
  | .onConnect => .connecting
  | .onDisconnect => .connected

/-- When a callback returns, the flags say of the context what has become of it. -/
theorem view_finish {call : Call} (finish : call.line = .finish) (link : Link) :
    view (State.linkAfter call) none = view link (some call) := by
  cases callback : call.callback <;> cases status : call.status <;>
    simp [view, State.linkAfter, callback, status, finish, Line.past, Status.isOk]

theorem view_begin {call : Call} (begins : call.line = .connectionLost) (link : Link) :
    view call.callback.during none = view link (some call) := by
  cases callback : call.callback <;>
    simp [view, Callback.during, callback, begins, Line.past]

/-- At most the last context is alive, callbacks and `m_conn` refer to it, and the flags
describe it. -/
structure Cycle (s : State) : Prop where
  alone : ∀ (i : Nat) (link : Link), s.links[i]? = some link → link.live = true →
    i + 1 = s.links.length
  held : ∀ i, s.mConn = some i → i + 1 = s.links.length
  calling : ∀ call, s.call = some call →
    call.context + 1 = s.links.length ∧ s.link = call.callback.during
  undecided : s.link = .connecting → s.mConn.isSome = true
  resetting : s.client = .resetting → (view s.link s.call).connectProcessed = true
  stopped : s.mConn = none → s.client ≠ .joining → s.poll = .notStarted
  joined : s.client = .joining → s.mConn = none
  connected : s.connected = (view s.link s.call).connected
  connectionLost : s.connectionLost = (view s.link s.call).connectionLost
  connectProcessed : s.connectProcessed =
    ((view s.link s.call).connectProcessed && s.mConn.isSome && s.client ≠ .resetting)
  disconnectProcessed : s.mConn.isSome = true ∨ s.link.live = true →
    s.disconnectProcessed = (view s.link s.call).disconnectProcessed

section Links
variable {s t : State} {i : Nat} {old new : Context}

theorem links_found (found : s.contexts[i]? = some old) : s.links[i]? = some old.link := by
  rw [State.links, List.getElem?_map, found, Option.map_some]

theorem link_last (found : s.contexts[i]? = some old) (last : i + 1 = s.links.length) :
    s.link = old.link := by
  have index : s.links.length - 1 = i := by omega
  rw [State.link, List.getLast?_eq_getElem?, index, links_found found, Option.getD_some]

/-- Writing to a context without changing its life. -/
theorem links_set (found : s.contexts[i]? = some old)
    (contexts : t.contexts = s.contexts.set i new) (same : new.link = old.link) :
    t.links = s.links := by
  obtain ⟨bound, rfl⟩ := List.getElem?_eq_some_iff.mp found
  rw [State.links, contexts, List.map_set, same, State.links]
  have inside : i < (s.contexts.map Context.link).length := by simpa using bound
  simpa only [List.getElem_map] using List.set_getElem_self inside

theorem links_modify {n : Nat} {new : Link} {poll : Poll} :
    State.links { s with
        contexts := s.contexts.modify n fun ctx => { ctx with link := new }, poll := poll } =
      s.links.set n new := by
  apply List.ext_getElem?
  intro i
  by_cases same : n = i
  · subst same
    by_cases bound : n < s.contexts.length <;> simp [State.links, bound]
  · simp [State.links, same]

theorem call_none (quiet : s.inCallback = false) : s.call = none := by
  cases polling : s.poll with
  | calling call =>
    rw [State.inCallback, polling] at quiet
    contradiction
  | notStarted | polling | ended => simp only [State.call, polling]

/-- Where every context is dead, the last one is. -/
theorem link_dead (dead : ∀ ctx ∈ s.contexts, ctx.link.live = false) : s.link.live = false := by
  cases last : s.contexts.getLast? with
  | none => simp [State.link, State.links, last, Link.live]
  | some ctx =>
    simp [State.link, State.links, last, dead ctx (List.mem_of_getLast? last)]

end Links

theorem Client.notify_resetting {client : Client} {callback : Callback} :
    client.notify callback = .resetting ↔ client = .resetting := by
  cases client <;> simp [Client.notify]

theorem Client.notify_joining {client : Client} {callback : Callback} :
    client.notify callback = .joining ↔ client = .joining := by
  cases client <;> simp [Client.notify]

end Incredis.Connection
