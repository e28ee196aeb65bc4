import Incredis.Connection.Step

/-! What a step of the connection can do, each effect with the guard under which it
happens. The invariants of the connection are derived from this list. -/
namespace Incredis.Connection
open CondVar (Waiter)

namespace State

@[simp] theorem put_mConn (s : State) (i ctx) : (s.put i ctx).mConn = s.mConn := rfl
@[simp] theorem put_connected (s : State) (i ctx) : (s.put i ctx).connected = s.connected := rfl
@[simp] theorem put_connectionLost (s : State) (i ctx) :
    (s.put i ctx).connectionLost = s.connectionLost := rfl
@[simp] theorem put_connectProcessed (s : State) (i ctx) :
    (s.put i ctx).connectProcessed = s.connectProcessed := rfl
@[simp] theorem put_disconnectProcessed (s : State) (i ctx) :
    (s.put i ctx).disconnectProcessed = s.disconnectProcessed := rfl
@[simp] theorem put_poll (s : State) (i ctx) : (s.put i ctx).poll = s.poll := rfl
@[simp] theorem put_client (s : State) (i ctx) : (s.put i ctx).client = s.client := rfl
@[simp] theorem put_contexts (s : State) (i ctx) :
    (s.put i ctx).contexts = s.contexts.set i ctx := rfl

end State

/-- The effects of a step. -/
inductive Effect (s : State) : Action → State → Prop
  | keeps (outcome) (free : s.client.free = true) (some : s.mConn.isSome = true) :
    Effect s (.connect outcome) { s with client := .idle }
  | throws {outcome} (free : s.client.free = true) (none : s.mConn = none)
      (failed : outcome ≠ .ok) :
    Effect s (.connect outcome) { s with disconnectProcessed := false, client := .idle }
  | connects (free : s.client.free = true) (none : s.mConn = none) :
    Effect s (.connect .ok) { s with
      disconnectProcessed := false
      contexts := s.contexts ++ [{}]
      mConn := some s.contexts.length
      poll := .polling
      client := .idle }
  | waitForConnect (free : s.client.free = true) :
    Effect s .waitForConnect
      { s with client := if s.connectProcessed then .idle else .waitForConnect .locking }
  | connectWaits {waiter next} (at_ : s.client = .waitForConnect waiter)
      (moved : waiter.advance s.connectProcessed = .waits next) :
    Effect s .connectWait { s with client := .waitForConnect next }
  | connectPasses (at_ : s.client = .waitForConnect .testing)
      (processed : s.connectProcessed = true) :
    Effect s .connectWait { s with client := .idle }
  | isConnected (free : s.client.free = true) : Effect s .isConnected s
  | makeBatch (free : s.client.free = true) : Effect s .makeBatch s
  | runs {i ctx} (free : s.client.free = true) (quiet : s.inCallback = false)
      (conn : s.mConn = some i) (found : s.contexts[i]? = some ctx)
      (live : ctx.link.live = true) (opened : ctx.disconnecting = false) :
    Effect s .run (s.put i { ctx with outstanding := ctx.outstanding + 1 })
  | runsNowhere (free : s.client.free = true) : Effect s .run s
  | returns (free : s.client.free = true) (undecided : s.connectProcessed = false) :
    Effect s .disconnect { s with client := .disconnected }
  | disconnects (free : s.client.free = true) (processed : s.connectProcessed = true) :
    Effect s .disconnect { s with connectProcessed := false, client := .resetting }
  | resetsDead (at_ : s.client = .resetting) (quiet : s.inCallback = false)
      (dead : ∀ ctx, s.held = some ctx → ctx.link.live = false) :
    Effect s .reset { s with mConn := none, haltPending := true, client := .joining }
  | postpones {i ctx} (at_ : s.client = .resetting) (quiet : s.inCallback = false)
      (conn : s.mConn = some i) (found : s.contexts[i]? = some ctx)
      (live : ctx.link.live = true) (outstanding : ctx.outstanding > 0) :
    Effect s .reset { s.put i { ctx with disconnecting := true } with
      mConn := none, haltPending := true, client := .joining }
  | closes {i ctx} (at_ : s.client = .resetting) (quiet : s.inCallback = false)
      (conn : s.mConn = some i) (found : s.contexts[i]? = some ctx)
      (link : ctx.link = .connected) (idle : ctx.outstanding = 0) :
    Effect s .reset { s.put i { ctx with link := .closed } with
      mConn := none
      connectionLost := false
      connected := false
      disconnectProcessed := true
      connectErrMsg := ""
      haltPending := true
      client := .joining }
  | abandons {i ctx} (at_ : s.client = .resetting) (quiet : s.inCallback = false)
      (conn : s.mConn = some i) (found : s.contexts[i]? = some ctx)
      (link : ctx.link = .connecting) (idle : ctx.outstanding = 0) :
    Effect s .reset { s.put i { ctx with link := .closed } with
      mConn := none, haltPending := true, client := .joining }
  | joins (at_ : s.client = .joining) (ended : s.poll = .ended) :
    Effect s .join { s with poll := .notStarted, client := .disconnected }
  | waitForDisconnect (free : s.client.free = true) :
    Effect s .waitForDisconnect
      { s with client := if s.disconnectProcessed then .idle else .waitForDisconnect .locking }
  | disconnectWaits {waiter next} (at_ : s.client = .waitForDisconnect waiter)
      (moved : waiter.advance s.disconnectProcessed = .waits next) :
    Effect s .disconnectWait { s with client := .waitForDisconnect next }
  | disconnectPasses (at_ : s.client = .waitForDisconnect .testing)
      (processed : s.disconnectProcessed = true) :
    Effect s .disconnectWait { s with client := .idle }
  | connectEvent {i ctx} (status) (polling : s.poll = .polling) (found : s.contexts[i]? = some ctx)
      (link : ctx.link = .connecting) :
    Effect s (.connectEvent i status)
      { s.put i { ctx with err := !status.isOk, errstr := status.errstr } with
        poll := .calling ⟨.onConnect, i, status, .connectionLost⟩ }
  | replyEvent {i ctx} (polling : s.poll = .polling) (found : s.contexts[i]? = some ctx)
      (link : ctx.link = .connected) (outstanding : ctx.outstanding > 0)
      (more : ¬ (ctx.disconnecting = true ∧ ctx.outstanding = 1)) :
    Effect s (.replyEvent i)
      { s.put i { ctx with outstanding := ctx.outstanding - 1 } with poll := .polling }
  | lastReply {i ctx} (polling : s.poll = .polling) (found : s.contexts[i]? = some ctx)
      (link : ctx.link = .connected) (disconnecting : ctx.disconnecting = true)
      (last : ctx.outstanding = 1) :
    Effect s (.replyEvent i) { s.put i { ctx with outstanding := ctx.outstanding - 1 } with
      poll := .calling ⟨.onDisconnect, i, .ok, .connectionLost⟩ }
  | lostEvent {i ctx} (errstr) (polling : s.poll = .polling) (found : s.contexts[i]? = some ctx)
      (link : ctx.link = .connected) :
    Effect s (.lostEvent i errstr)
      { s.put i { ctx with outstanding := 0, err := true, errstr := errstr } with
        poll := .calling ⟨.onDisconnect, i, .err errstr, .connectionLost⟩ }
  | callbackStep {call} (calling : s.poll = .calling call) :
    Effect s .callbackStep (s.callbackStep call)
  | halt (polling : s.poll = .polling) (pending : s.haltPending = true) :
    Effect s .halt { s with poll := .ended, haltPending := false }

theorem reset_effect {s : State} (at_ : s.client = .resetting) (quiet : s.inCallback = false) :
    Effect s .reset { s.resetConn with haltPending := true, client := .joining } := by
  unfold State.resetConn
  split
  · rename_i i ctx conn held
    have found : s.contexts[i]? = some ctx := by
      simpa only [State.held, conn, Option.bind_some, State.context] using held
    cases live : ctx.link.live with
    | false =>
      simp only [State.asyncDisconnect, live, Bool.not_false, if_true]
      refine .resetsDead at_ quiet fun other same => ?_
      rw [held] at same
      cases same
      exact live
    | true =>
      by_cases outstanding : ctx.outstanding > 0
      · simp only [State.asyncDisconnect, live, Bool.not_true, Bool.false_eq_true, if_false,
          outstanding, if_true]
        exact .postpones at_ quiet conn found live outstanding
      · have idle : ctx.outstanding = 0 := by omega
        by_cases link : ctx.link = .connected
        · simp only [State.asyncDisconnect, live, Bool.not_true, Bool.false_eq_true, if_false,
            outstanding, if_pos link]
          exact .closes at_ quiet conn found link idle
        · simp only [State.asyncDisconnect, live, Bool.not_true, Bool.false_eq_true, if_false,
            outstanding, if_neg link]
          refine .abandons at_ quiet conn found ?_ idle
          cases phase : ctx.link <;> simp_all [Link.live]
  · rename_i nothing
    refine .resetsDead at_ quiet fun ctx held => ?_
    obtain ⟨i, conn, _⟩ := Option.bind_eq_some_iff.mp held
    exact absurd held (nothing i ctx conn)

theorem reset_enabled {s : State} (at_ : s.client = .resetting) (quiet : s.inCallback = false) :
    ∃ t, step s .reset = some t := by
  simp only [step, at_, quiet]
  exact ⟨_, rfl⟩

theorem step_effect {s t : State} {a : Action} (stepped : step s a = some t) : Effect s a t := by
  cases a with
  | connect outcome =>
    simp only [step] at stepped
    split at stepped
    · contradiction
    rename_i free
    replace free : s.client.free = true := by simpa using free
    split at stepped
    · cases stepped
      exact .keeps _ free (by assumption)
    rename_i nothing
    replace nothing : s.mConn = none := by simpa using nothing
    split at stepped
    · cases stepped
      exact .throws free nothing (by assumption)
    · rename_i ok
      obtain rfl := Decidable.not_not.mp ok
      cases stepped
      exact .connects free nothing
  | waitForConnect =>
    simp only [step] at stepped
    split at stepped
    · cases stepped
      exact .waitForConnect (by assumption)
    · contradiction
  | connectWait =>
    simp only [step] at stepped
    split at stepped
    · rename_i waiter at_
      split at stepped
      · cases stepped
        exact .connectWaits at_ (by assumption)
      · rename_i passed
        cases stepped
        obtain ⟨rfl, processed⟩ := Waiter.advance_passed.mp passed
        exact .connectPasses at_ processed
      · contradiction
    · contradiction
  | isConnected =>
    simp only [step] at stepped
    split at stepped
    · cases stepped
      exact .isConnected (by assumption)
    · contradiction
  | makeBatch =>
    simp only [step] at stepped
    split at stepped
    · cases stepped
      exact .makeBatch (by assumption)
    · contradiction
  | run =>
    simp only [step] at stepped
    split at stepped
    · contradiction
    rename_i guard
    simp only [Bool.or_eq_true, Bool.not_eq_true', not_or, Bool.not_eq_false,
      Bool.not_eq_true] at guard
    split at stepped
    · rename_i i ctx conn held
      split at stepped
      · rename_i usable
        simp only [Bool.and_eq_true, Bool.not_eq_true'] at usable
        cases stepped
        exact .runs guard.1 guard.2 conn
          (by simpa only [State.held, conn, Option.bind_some, State.context] using held)
          usable.1 usable.2
      · cases stepped
        exact .runsNowhere guard.1
    · cases stepped
      exact .runsNowhere guard.1
  | disconnect =>
    simp only [step] at stepped
    split at stepped
    · contradiction
    rename_i free
    replace free : s.client.free = true := by simpa using free
    split at stepped
    · cases stepped
      exact .returns free (by simp_all)
    · cases stepped
      exact .disconnects free (by simp_all)
  | reset =>
    simp only [step] at stepped
    split at stepped
    · rename_i guard
      simp only [Bool.and_eq_true, decide_eq_true_eq, Bool.not_eq_true'] at guard
      cases stepped
      exact reset_effect guard.1 guard.2
    · contradiction
  | join =>
    simp only [step] at stepped
    split at stepped
    · rename_i guard
      simp only [Bool.and_eq_true, decide_eq_true_eq] at guard
      cases stepped
      exact .joins guard.1 guard.2
    · contradiction
  | waitForDisconnect =>
    simp only [step] at stepped
    split at stepped
    · cases stepped
      exact .waitForDisconnect (by assumption)
    · contradiction
  | disconnectWait =>
    simp only [step] at stepped
    split at stepped
    · rename_i waiter at_
      split at stepped
      · cases stepped
        exact .disconnectWaits at_ (by assumption)
      · rename_i passed
        cases stepped
        obtain ⟨rfl, processed⟩ := Waiter.advance_passed.mp passed
        exact .disconnectPasses at_ processed
      · contradiction
    · contradiction
  | connectEvent i status =>
    simp only [step] at stepped
    split at stepped
    · rename_i ctx polling found
      split at stepped
      · cases stepped
        exact .connectEvent status polling found (by assumption)
      · contradiction
    · contradiction
  | replyEvent i =>
    simp only [step] at stepped
    split at stepped
    · rename_i ctx polling found
      split at stepped
      · rename_i guard
        simp only [Bool.and_eq_true, decide_eq_true_eq] at guard
        by_cases last : ctx.disconnecting = true ∧ ctx.outstanding = 1
        · rw [if_pos (by simpa using last)] at stepped
          cases stepped
          exact .lastReply polling found guard.1 last.1 last.2
        · rw [if_neg (by simpa using last)] at stepped
          cases stepped
          exact .replyEvent polling found guard.1 guard.2 last
      · contradiction
    · contradiction
  | lostEvent i errstr =>
    simp only [step] at stepped
    split at stepped
    · rename_i ctx polling found
      split at stepped
      · cases stepped
        exact .lostEvent errstr polling found (by assumption)
      · contradiction
    · contradiction
  | callbackStep =>
    simp only [step] at stepped
    split at stepped
    · cases stepped
      exact .callbackStep (by assumption)
    · contradiction
  | halt =>
    simp only [step] at stepped
    split at stepped
    · rename_i guard
      simp only [Bool.and_eq_true, decide_eq_true_eq] at guard
      cases stepped
      exact .halt guard.1 guard.2
    · contradiction

end Incredis.Connection
