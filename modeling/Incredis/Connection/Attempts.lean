import Incredis.Connection.Cycles

/-! Attempts to connect. One that throws has already cleared a flag that the destructor
waits on; one that is decided is announced before its error text is in place. -/
namespace Incredis.Connection

/-- `wait_for_disconnect()` returns at once. -/
def WaitReturns (s : State) : Prop :=
  ∃ t, step s .waitForDisconnect = some t ∧ t.client = .idle

/-- The destructor returns at once: `disconnect()`, then `wait_for_disconnect()`. -/
def DestroysAtOnce (s : State) : Prop :=
  ∃ t, step s .disconnect = some t ∧ t.client = .disconnected ∧ WaitReturns t

/-- A call that is over and has changed nothing. -/
structure Unchanged (s t : State) : Prop where
  fields : t = { s with client := t.client }
  waits : WaitReturns s → WaitReturns t
  destroys : DestroysAtOnce s → DestroysAtOnce t

theorem waitReturns_iff {s : State} (free : s.client.free = true) :
    WaitReturns s ↔ s.disconnectProcessed = true := by
  cases processed : s.disconnectProcessed <;> simp [WaitReturns, step, free, processed]

/-- Whichever call throws, `disconnect_processed` is false afterwards, and nothing else has
changed. -/
theorem failed_connect_iff {s t : State} {outcome : ConnectOutcome} (none : s.mConn = none)
    (failed : outcome ≠ .ok) (stepped : step s (.connect outcome) = some t) :
    Unchanged s t ↔ s.disconnectProcessed = false := by
  cases step_effect stepped with
  | keeps _ free some => simp [none] at some
  | connects => exact absurd rfl failed
  | throws free =>
    constructor
    · intro unchanged
      exact (congrArg State.disconnectProcessed unchanged.fields).symm
    · intro cleared
      have waits : ¬ WaitReturns s := by simp [waitReturns_iff free, cleared]
      refine ⟨by simp only [cleared], fun returns => absurd returns waits, ?_⟩
      rintro ⟨u, disconnected, at_, returns⟩
      -- disconnect() leaves the flag as it is when it returns early
      cases step_effect disconnected with
      | disconnects => contradiction
      | returns =>
        have processed := (waitReturns_iff rfl).mp returns
        rw [cleared] at processed
        contradiction

/-- `connect()` throws again. -/
theorem failed_connect_twice : ∃ s t : State, step s (.connect .noEventLoop) = some t ∧
    (Unchanged s t ↔ s.disconnectProcessed = false) := by
  have first : step {} (.connect .noContext) = some { disconnectProcessed := false } := rfl
  have second : step { disconnectProcessed := false } (.connect .noEventLoop) =
    some { disconnectProcessed := false } := rfl
  exact ⟨_, _, second, failed_connect_iff rfl (by simp) second⟩

/-- The first `connect()` throws: the destructor, which would have returned, waits. -/
theorem failed_connect_changes : ¬ ∀ (s t : State) outcome,
    Transition.Reaches machine Transition.always s → s.mConn = none → outcome ≠ .ok →
      step s (.connect outcome) = some t → Unchanged s t := by
  intro unchanged
  have same := unchanged {} { disconnectProcessed := false } .noContext .start rfl (by simp) rfl
  cases congrArg State.disconnectProcessed same.fields

/-- The steps of a client that does nothing but connect, wait, ask and disconnect, while
the server stays. -/
def Attempts (_ : State) : Action → Prop
  | .run | .lostEvent _ _ => False
  | _ => True

/-- What the client reads is the outcome of the attempt: its status in `m_connected`, and
the error text of its context. -/
def OutcomeTold (s : State) : Prop :=
  ∃ ctx, s.held = some ctx ∧ s.connected = !ctx.err ∧ s.connectErrMsg = ctx.errstr

/-- What such a client finds: nothing is outstanding or lost, and the callbacks write what
the context says. -/
structure Attempting (s : State) : Prop where
  outstanding : ∀ ctx ∈ s.contexts, ctx.outstanding = 0
  connectionLost : s.connectionLost = false
  gone : s.mConn = none → ∀ ctx ∈ s.contexts, ctx.link.live = false
  calling : ∀ call, s.call = some call → call.callback = .onConnect ∧
    ∃ ctx, s.contexts[call.context]? = some ctx ∧ ctx.err = !call.status.isOk ∧
      ctx.errstr = call.status.errstr ∧
      (call.line = .notify ∨ call.line = .finish → s.connectErrMsg = call.status.errstr)
  told : s.call = none → ∀ ctx, s.held = some ctx → ctx.link ≠ .connecting →
    ctx.err = decide (ctx.link ≠ .connected) ∧ s.connectErrMsg = ctx.errstr

theorem Attempting.fresh {s : State} {a : Action} (attempting : Attempting s) : Fresh s a := by
  cases a with
  | connect outcome =>
    cases outcome with
    | ok => exact fun none => ⟨attempting.gone none, attempting.connectionLost⟩
    | _ => trivial
  | _ => trivial

section Step
variable {s t : State} {a : Action}

/-- A step that is about neither a context nor a callback. -/
theorem Attempting.keep (attempting : Attempting s) (contexts : t.contexts = s.contexts)
    (connectionLost : t.connectionLost = s.connectionLost) (mConn : t.mConn = s.mConn)
    (call : t.call = s.call) (connectErrMsg : t.connectErrMsg = s.connectErrMsg) :
    Attempting t := by
  have context : t.context = s.context := by
    funext i
    rw [State.context, State.context, contexts]
  have held : t.held = s.held := by rw [State.held, State.held, mConn, context]
  constructor
  · rw [contexts]
    exact attempting.outstanding
  · rw [connectionLost]
    exact attempting.connectionLost
  · rw [mConn, contexts]
    exact attempting.gone
  · rw [call, contexts, connectErrMsg]
    exact attempting.calling
  · rw [call, held, connectErrMsg]
    exact attempting.told

/-- The client lets go of the last context, and that is freed. -/
theorem attempting_release (cycle : Cycle s)
    (quiet : s.inCallback = false) (mConn : t.mConn = none) (poll : t.poll = s.poll)
    (connectionLost : t.connectionLost = false)
    (contexts : ∀ (i : Nat) (ctx : Context), t.contexts[i]? = some ctx → ctx.outstanding = 0 ∧
      (i + 1 = s.links.length → ctx.link.live = false) ∧
      (i + 1 ≠ s.links.length → s.contexts[i]? = some ctx)) : Attempting t := by
  have call : t.call = none := by
    rw [← call_none quiet]
    simp only [State.call, poll]
  constructor
  · intro ctx member
    obtain ⟨i, found⟩ := List.getElem?_of_mem member
    exact (contexts i ctx found).1
  · exact connectionLost
  · intro _ ctx member
    obtain ⟨i, found⟩ := List.getElem?_of_mem member
    obtain ⟨_, last, other⟩ := contexts i ctx found
    by_cases same : i + 1 = s.links.length
    · exact last same
    · cases live : ctx.link.live with
      | false => rfl
      | true => exact absurd (cycle.alone i _ (links_found (other same)) live) same
  · rw [call]
    rintro _ ⟨⟩
  · intro _ ctx held
    simp [State.held, mConn] at held

theorem Attempting.close (attempting : Attempting s) (cycle : Cycle s)
    (quiet : s.inCallback = false) {i : Nat} {ctx : Context} (conn : s.mConn = some i)
    (found : s.contexts[i]? = some ctx) (mConn : t.mConn = none) (poll : t.poll = s.poll)
    (connectionLost : t.connectionLost = false)
    (contexts : t.contexts = s.contexts.set i { ctx with link := .closed }) : Attempting t := by
  refine attempting_release cycle quiet mConn poll connectionLost ?_
  intro j other lookup
  rw [contexts] at lookup
  have last := cycle.held i conn
  obtain ⟨bound, _⟩ := List.getElem?_eq_some_iff.mp found
  by_cases same : i = j
  · subst same
    rw [List.getElem?_set_self bound] at lookup
    cases lookup
    exact ⟨attempting.outstanding ctx (List.mem_of_getElem? found), fun _ => rfl, fun h => absurd last h⟩
  · rw [List.getElem?_set_ne same] at lookup
    exact ⟨attempting.outstanding other (List.mem_of_getElem? lookup), fun _ => by omega,
      fun _ => lookup⟩

/-- What a line of `on_connect` writes. -/
theorem Attempting.callback (attempting : Attempting s) (cycle : Cycle s) {call : Call}
    (calling : s.poll = .calling call) : Attempting (s.callbackStep call) := by
  have before : s.call = some call := by simp only [State.call, calling]
  obtain ⟨onConnect, ctx, found, err, errstr, written⟩ := attempting.calling call before
  obtain ⟨last, during⟩ := cycle.calling call before
  -- the context of the callback is undecided, so it is the one in m_conn
  have undecided : s.link = .connecting := by rw [during, onConnect]; rfl
  obtain ⟨i, conn⟩ := Option.isSome_iff_exists.mp (cycle.undecided undecided)
  have same : call.context = i := by
    have := cycle.held i conn
    omega
  subst same
  have some {goal : Prop} (none : s.mConn = Option.none) : goal := by
    rw [conn] at none
    contradiction
  unfold State.callbackStep
  cases line : call.line with
  | connectionLost | connected | processed | connectErrMsg | notify =>
    refine ⟨attempting.outstanding, ?_, fun none => some none, ?_, by rintro ⟨⟩⟩
    · first
      | exact attempting.connectionLost
      | simp [onConnect]
    · rintro next ⟨⟩
      exact ⟨onConnect, ctx, found, err, errstr, by simp_all⟩
  | finish =>
    refine ⟨?_, attempting.connectionLost, fun none => some none, by rintro _ ⟨⟩, ?_⟩
    · intro other member
      obtain ⟨j, bound, rfl⟩ := List.mem_iff_getElem.mp member
      rw [List.length_modify] at bound
      have outstanding := attempting.outstanding _ (List.getElem_mem bound)
      simp only [List.getElem_modify]
      split <;> exact outstanding
    · intro _ other held _
      have after : other = { ctx with link := State.linkAfter call } := by
        simpa [State.held, State.context, conn, found] using held.symm
      subst after
      refine ⟨?_, (written (.inr line)).trans errstr.symm⟩
      simp only [State.linkAfter, onConnect, err]
      cases call.status <;> simp [Status.isOk]

theorem attempting_step (effect : Effect s a t) (attempts : Attempts s a) (cycle : Cycle s)
    (attempting : Attempting s) : Attempting t := by
  have idle {i : Nat} {ctx : Context} (found : s.contexts[i]? = some ctx) : ctx.outstanding = 0 :=
    attempting.outstanding ctx (List.mem_of_getElem? found)
  cases effect with
  | runs | runsNowhere | lostEvent => cases attempts
  | callbackStep calling => exact attempting.callback cycle calling
  | replyEvent polling found link outstanding =>
    have := idle found
    omega
  | lastReply polling found link disconnecting last =>
    have := idle found
    omega
  | connects free none =>
    refine ⟨?_, attempting.connectionLost, by rintro ⟨⟩, by rintro _ ⟨⟩, ?_⟩
    · intro ctx member
      rcases List.mem_append.mp member with old | new
      · exact attempting.outstanding ctx old
      · rw [List.mem_singleton.mp new]
    · intro _ ctx held decided
      have fresh : ctx = {} := by simpa [State.held, State.context] using held.symm
      rw [fresh] at decided
      contradiction
  | @connectEvent i ctx status polling found link =>
    obtain ⟨bound, _⟩ := List.getElem?_eq_some_iff.mp found
    -- an undecided context is the last, and the one in m_conn
    have last := cycle.alone i _ (links_found found) (by rw [link]; rfl)
    have conn := cycle.undecided ((link_last found last).trans link)
    refine ⟨?_, attempting.connectionLost, ?_, ?_, by rintro ⟨⟩⟩
    · intro other member
      rcases List.mem_or_eq_of_mem_set member with old | rfl
      · exact attempting.outstanding other old
      · exact (idle found : ctx.outstanding = 0)
    · intro none
      rw [show s.mConn = Option.none from none] at conn
      contradiction
    · rintro call ⟨⟩
      exact ⟨rfl, _, List.getElem?_set_self bound, rfl, rfl, by simp⟩
  | resetsDead at_ quiet dead =>
    refine attempting_release cycle quiet rfl rfl attempting.connectionLost ?_
    intro i ctx found
    refine ⟨idle found, fun last => ?_, fun _ => found⟩
    cases conn : s.mConn with
    | none => exact attempting.gone conn ctx (List.mem_of_getElem? found)
    | some j =>
      have same : j = i := by
        have := cycle.held j conn
        omega
      exact dead ctx (by rw [State.held, conn, Option.bind_some, State.context, same, found])
  | postpones at_ quiet conn found live outstanding =>
    have := idle found
    omega
  | closes at_ quiet conn found => exact attempting.close cycle quiet conn found rfl rfl rfl rfl
  | abandons at_ quiet conn found =>
    exact attempting.close cycle quiet conn found rfl rfl attempting.connectionLost rfl
  | joins at_ ended =>
    exact attempting.keep rfl rfl rfl (by simp only [State.call, ended]) rfl
  | halt polling pending =>
    exact attempting.keep rfl rfl rfl (by simp only [State.call, polling]) rfl
  | _ => exact attempting.keep rfl rfl rfl rfl rfl

end Step

theorem attempting_run {s : State} (run : Transition.Reaches machine Attempts s) :
    Cycle s ∧ Attempting s := by
  have start : Attempting {} :=
    ⟨by rintro _ ⟨⟩, rfl, fun _ => by rintro _ ⟨⟩, by rintro _ ⟨⟩, fun _ => by rintro _ ⟨⟩⟩
  have both : Transition.Reaches machine Fresh s ∧ Attempting s :=
    run.strengthen start
      (fun reached holds attempts stepped =>
        attempting_step (step_effect stepped) attempts (cycle_run reached) holds)
      fun holds _ => holds.fresh
  exact ⟨cycle_run both.1, both.2⟩

/-- `wait_for_connect()` has returned, or would at once. -/
def WaitOver (s : State) : Prop := s.client.free = true ∧ s.connectProcessed = true

/-- It returns to such a state, and the client stays in such states until it disconnects. -/
theorem waitOver_of_wait {s t : State} {a : Action} (wait : a = .waitForConnect ∨ a = .connectWait)
    (stepped : step s a = some t) (returned : t.client = .idle) : WaitOver t := by
  refine ⟨by rw [returned]; rfl, ?_⟩
  cases step_effect stepped with
  | waitForConnect free =>
    cases processed : s.connectProcessed <;> simp_all
  | connectPasses at_ processed => exact processed
  | connectWaits => contradiction
  | _ => simp at wait

theorem connectProcessed_kept {s t : State} {a : Action} (stepped : step s a = some t)
    (other : a ≠ .disconnect) (processed : s.connectProcessed = true) :
    t.connectProcessed = true := by
  cases step_effect stepped with
  | disconnects => exact absurd rfl other
  | callbackStep =>
    unfold State.callbackStep
    split <;> simp [processed]
  | _ => exact processed

/-- The status is always that of the attempt. The error text is, unless `on_connect` has
not come to write it and the text left from before is another one. -/
theorem outcome_told_iff {s : State} (run : Transition.Reaches machine Attempts s)
    (ended : WaitOver s) : OutcomeTold s ↔
      ∀ call, s.poll = .calling call → call.line = .connectErrMsg →
        s.connectErrMsg = call.status.errstr := by
  obtain ⟨cycle, attempting⟩ := attempting_run run
  obtain ⟨free, processed⟩ := ended
  have decided := cycle.connectProcessed
  rw [processed, eq_comm, Bool.and_eq_true, Bool.and_eq_true] at decided
  obtain ⟨⟨announced, present⟩, _⟩ := decided
  obtain ⟨i, conn⟩ := Option.isSome_iff_exists.mp present
  have last := cycle.held i conn
  have bound : i < s.contexts.length := by
    simp only [State.links, List.length_map] at last
    omega
  have found := List.getElem?_eq_getElem bound
  have link := link_last found last
  have held : s.held = some s.contexts[i] := by
    rw [State.held, conn, Option.bind_some, State.context, found]
  have connected := cycle.connected
  simp only [OutcomeTold, held, Option.some.injEq, exists_eq_left']
  cases calling : s.poll with
  | calling call =>
    have before : s.call = some call := by simp only [State.call, calling]
    obtain ⟨onConnect, ctx, lookup, err, errstr, written⟩ := attempting.calling call before
    have same : call.context = i := by
      have := (cycle.calling call before).1
      omega
    rw [same, found] at lookup
    cases lookup
    simp only [before, view, onConnect] at announced connected
    simp only [Poll.calling.injEq, forall_eq', err, errstr, Bool.not_not]
    cases line : call.line <;> simp_all [Line.past]
  | notStarted | polling | ended =>
    have none : s.call = Option.none := by simp only [State.call, calling]
    simp only [none, view, link, decide_eq_true_eq] at announced connected
    obtain ⟨err, text⟩ := attempting.told none _ held announced
    simp [connected, err, text]

/-- An attempt that was refused, read while the callback has one line to go. -/
theorem outcome_told_refused : ∃ s : State, s.connectErrMsg = "Connection refused" ∧
    (OutcomeTold s ↔ ∀ call, s.poll = .calling call → call.line = .connectErrMsg →
      s.connectErrMsg = call.status.errstr) := by
  have run := (Transition.initially machine Attempts)
    |>.next (a := .connect .ok) (by trivial) rfl
    |>.next (a := .waitForConnect) (by trivial) rfl
    |>.next (a := .connectEvent 0 (.err "Connection refused")) (by trivial) rfl
    |>.next (a := .callbackStep) (by trivial) rfl
    |>.next (a := .callbackStep) (by trivial) rfl
    |>.next (a := .callbackStep) (by trivial) rfl
    |>.next (a := .callbackStep) (by trivial) rfl
    |>.next (a := .connectWait) (by trivial) rfl
    |>.next (a := .connectWait) (by trivial) rfl
  exact ⟨_, rfl, outcome_told_iff run ⟨rfl, rfl⟩⟩

/-- The client tests `connect_processed` right after it was set and reads the empty text. -/
theorem outcome_untold : ¬ ∀ s : State, Transition.Reaches machine Attempts s → WaitOver s →
    OutcomeTold s := by
  intro told
  have run := (Transition.initially machine Attempts)
    |>.next (a := .connect .ok) (by trivial) rfl
    |>.next (a := .connectEvent 0 (.err "Connection refused")) (by trivial) rfl
    |>.next (a := .callbackStep) (by trivial) rfl
    |>.next (a := .callbackStep) (by trivial) rfl
    |>.next (a := .callbackStep) (by trivial) rfl
    |>.next (a := .waitForConnect) (by trivial) rfl
  obtain ⟨ctx, held, _, text⟩ := told _ run ⟨rfl, rfl⟩
  cases held
  contradiction

end Incredis.Connection
