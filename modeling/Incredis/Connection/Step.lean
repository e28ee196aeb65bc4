import Incredis.CondVar
import Incredis.Transition

/-! `AsyncConnection` between its client thread and its poll thread, with the
contexts that hiredis keeps for it. Every store of `on_connect` and
`on_disconnect`, every notification, predicate test and act of blocking is a
step of its own. `libev_mutex` belongs to the poll thread while it is in a
callback, so the client's calls into hiredis wait for the callback to end. -/
namespace Incredis.Connection
open CondVar (Waiter)

/-- `REDIS_OK`, or `REDIS_ERR` with what the context then holds in `errstr`. -/
inductive Status
  | ok
  | err (errstr : String)
deriving DecidableEq, Repr

namespace Status

def isOk : Status → Bool
  | ok => true
  | err _ => false

def errstr : Status → String
  | ok => ""
  | err text => text

end Status

/-- The life of a `redisAsyncContext`. hiredis frees it as soon as the callback
has returned that reports it as refused, lost or closed. -/
inductive Link
  | connecting
  | connected
  | refused
  | lost
  | closed
deriving DecidableEq, Repr

def Link.live : Link → Bool
  | connecting | connected => true
  | refused | lost | closed => false

/-- A `redisAsyncContext`: `disconnecting` is `REDIS_DISCONNECTING`, `outstanding`
the number of replies it still expects. -/
structure Context where
  link : Link := .connecting
  disconnecting : Bool := false
  outstanding : Nat := 0
  err : Bool := false
  errstr : String := ""
deriving DecidableEq, Repr

inductive Callback
  | onConnect
  | onDisconnect
deriving DecidableEq, Repr

/-- The lines of either callback, named after what comes next: the stores to
`m_connection_lost`, `m_connected`, the `processed` flag and `connect_err_msg`,
then the notification and the return to hiredis. -/
inductive Line
  | connectionLost
  | connected
  | processed
  | connectErrMsg
  | notify
  | finish
deriving DecidableEq, Repr

structure Call where
  callback : Callback
  context : Nat
  status : Status
  line : Line := .connectionLost
deriving DecidableEq, Repr

/-- `redis_poll_thread`. It is joinable from `polling` on. -/
inductive Poll
  | notStarted
  | polling
  | calling (call : Call)
  | ended
deriving DecidableEq, Repr

/-- The client thread. `disconnected` is where `disconnect()` has just returned;
`resetting` and `joining` are the halves of `disconnect()` after its store. -/
inductive Client
  | idle
  | waitForConnect (waiter : Waiter)
  | resetting
  | joining
  | disconnected
  | waitForDisconnect (waiter : Waiter)
deriving DecidableEq, Repr

namespace Client

/-- No call is in progress. -/
def free : Client → Bool
  | idle | disconnected => true
  | _ => false

/-- `condition_connected.notify_one()` and `condition_disconnected.notify_one()` -/
def notify (callback : Callback) : Client → Client
  | waitForConnect waiter =>
    waitForConnect (if callback = .onConnect then waiter.notify else waiter)
  | waitForDisconnect waiter =>
    waitForDisconnect (if callback = .onDisconnect then waiter.notify else waiter)
  | client => client

end Client

structure State where
  mConn : Option Nat := none
  connected : Bool := false
  connectionLost : Bool := false
  connectProcessed : Bool := false
  disconnectProcessed : Bool := true
  connectErrMsg : String := ""
  poll : Poll := .notStarted
  haltPending : Bool := false
  contexts : List Context := []
  client : Client := .idle

/-- How the calls inside `connect()` turn out: the context is there, or one of
`redisAsyncConnect`, `redisLibevAttach` and the two registrations fails. -/
inductive ConnectOutcome
  | ok
  | noContext
  | noEventLoop
  | noConnectCallback
  | noDisconnectCallback
deriving DecidableEq, Repr

/-- Calls and steps of the client, then events and steps on the poll thread. -/
inductive Action
  | connect (outcome : ConnectOutcome)
  | waitForConnect
  | connectWait
  | isConnected
  | makeBatch
  | run
  | disconnect
  | reset
  | join
  | waitForDisconnect
  | disconnectWait
  | connectEvent (i : Nat) (status : Status)
  | replyEvent (i : Nat)
  | lostEvent (i : Nat) (errstr : String)
  | callbackStep
  | halt
deriving DecidableEq, Repr

namespace State

def context (s : State) (i : Nat) : Option Context := s.contexts[i]?

def put (s : State) (i : Nat) (ctx : Context) : State :=
  { s with contexts := s.contexts.set i ctx }

/-- The context in `m_conn`, freed or not. -/
def held (s : State) : Option Context := s.mConn.bind s.context

/-- `m_conn and not m_conn->err and m_connected` -/
def isConnected (s : State) : Bool :=
  match s.held with
  | some ctx => !ctx.err && s.connected
  | none => false

/-- What a context turns into when its callback returns. -/
def linkAfter (call : Call) : Link :=
  match call.callback, call.status with
  | .onConnect, .ok => .connected
  | .onConnect, .err _ => .refused
  | .onDisconnect, .ok => .closed
  | .onDisconnect, .err _ => .lost

/-- One line of `on_connect` or `on_disconnect`. -/
def callbackStep (s : State) (call : Call) : State :=
  match call.line with
  | .connectionLost =>
    { s with
      connectionLost := call.callback = .onDisconnect && !call.status.isOk
      poll := .calling { call with line := .connected } }
  | .connected =>
    { s with
      connected := call.callback = .onConnect && call.status.isOk
      poll := .calling { call with line := .processed } }
  | .processed =>
    { s with
      connectProcessed := call.callback = .onConnect || s.connectProcessed
      disconnectProcessed := call.callback = .onDisconnect || s.disconnectProcessed
      poll := .calling { call with line := .connectErrMsg } }
  | .connectErrMsg =>
    { s with
      connectErrMsg := if call.callback = .onConnect then call.status.errstr else ""
      poll := .calling { call with line := .notify } }
  | .notify =>
    { s with
      client := s.client.notify call.callback
      poll := .calling { call with line := .finish } }
  | .finish =>
    { s with
      contexts := s.contexts.modify call.context fun ctx => { ctx with link := linkAfter call }
      poll := .polling }

/-- `redisAsyncDisconnect` as the deleter of `m_conn`. A context with nothing
outstanding is freed at once, and if it was connected `on_disconnect` is called
first; otherwise the disconnect is postponed. On a freed context the behaviour is
undefined; nothing happens here. -/
def asyncDisconnect (s : State) (i : Nat) (ctx : Context) : State :=
  if !ctx.link.live then s
  else if ctx.outstanding > 0 then s.put i { ctx with disconnecting := true }
  else
    let freed := s.put i { ctx with link := .closed }
    if ctx.link = .connected then
      { freed with
        connectionLost := false
        connected := false
        disconnectProcessed := true
        connectErrMsg := "" }
    else freed

/-- `m_conn.reset()` -/
def resetConn (s : State) : State :=
  match s.mConn, s.held with
  | some i, some ctx => { s.asyncDisconnect i ctx with mConn := none }
  | _, _ => { s with mConn := none }

def inCallback (s : State) : Bool :=
  match s.poll with
  | .calling _ => true
  | _ => false

end State

def step (s : State) : Action → Option State
  | .connect outcome =>
    if !s.client.free then none
    else if s.mConn.isSome then some { s with client := .idle }
    -- disconnect_processed is cleared before anything can throw
    else if outcome ≠ .ok then some { s with disconnectProcessed := false, client := .idle }
    else some { s with
      disconnectProcessed := false
      contexts := s.contexts ++ [{}]
      mConn := some s.contexts.length
      poll := .polling
      client := .idle }
  | .waitForConnect =>
    if s.client.free then
      some { s with client := if s.connectProcessed then .idle else .waitForConnect .locking }
    else none
  | .connectWait =>
    match s.client with
    | .waitForConnect waiter =>
      match waiter.advance s.connectProcessed with
      | .waits next => some { s with client := .waitForConnect next }
      | .passed => some { s with client := .idle }
      | .stuck => none
    | _ => none
  | .isConnected | .makeBatch => if s.client.free then some s else none
  -- redisAsyncCommandArgv(connection(), ..) under libev_mutex
  | .run =>
    if !s.client.free || s.inCallback then none
    else match s.mConn, s.held with
      | some i, some ctx =>
        if ctx.link.live && !ctx.disconnecting then
          some (s.put i { ctx with outstanding := ctx.outstanding + 1 })
        else some s
      | _, _ => some s
  | .disconnect =>
    if !s.client.free then none
    else if !s.connectProcessed then some { s with client := .disconnected }
    else some { s with connectProcessed := false, client := .resetting }
  | .reset =>
    if s.client = .resetting && !s.inCallback then
      some { s.resetConn with haltPending := true, client := .joining }
    else none
  | .join =>
    if s.client = .joining && s.poll = .ended then
      some { s with poll := .notStarted, client := .disconnected }
    else none
  | .waitForDisconnect =>
    if s.client.free then
      some { s with client := if s.disconnectProcessed then .idle else .waitForDisconnect .locking }
    else none
  | .disconnectWait =>
    match s.client with
    | .waitForDisconnect waiter =>
      match waiter.advance s.disconnectProcessed with
      | .waits next => some { s with client := .waitForDisconnect next }
      | .passed => some { s with client := .idle }
      | .stuck => none
    | _ => none
  | .connectEvent i status =>
    match s.poll, s.context i with
    | .polling, some ctx =>
      if ctx.link = .connecting then
        some { s.put i { ctx with err := !status.isOk, errstr := status.errstr } with
          poll := .calling ⟨.onConnect, i, status, .connectionLost⟩ }
      else none
    | _, _ => none
  -- the last reply of a disconnecting context is followed by its on_disconnect
  | .replyEvent i =>
    match s.poll, s.context i with
    | .polling, some ctx =>
      if ctx.link = .connected && ctx.outstanding > 0 then
        some { s.put i { ctx with outstanding := ctx.outstanding - 1 } with
          poll := if ctx.disconnecting && ctx.outstanding = 1 then
            .calling ⟨.onDisconnect, i, .ok, .connectionLost⟩ else .polling }
      else none
    | _, _ => none
  -- the outstanding commands get NULL before on_disconnect is called
  | .lostEvent i errstr =>
    match s.poll, s.context i with
    | .polling, some ctx =>
      if ctx.link = .connected then
        some { s.put i { ctx with outstanding := 0, err := true, errstr := errstr } with
          poll := .calling ⟨.onDisconnect, i, .err errstr, .connectionLost⟩ }
      else none
    | _, _ => none
  | .callbackStep =>
    match s.poll with
    | .calling call => some (s.callbackStep call)
    | _ => none
  | .halt =>
    if s.poll = .polling && s.haltPending then
      some { s with poll := .ended, haltPending := false }
    else none

abbrev machine : Transition.Machine State Action := ⟨{}, step⟩

end Incredis.Connection
