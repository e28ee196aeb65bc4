import Incredis.Connection.Effect

/-! Ownership of the context. `m_conn` holds a context that hiredis frees by itself
when a connection is refused or lost, and nothing clears the pointer then. -/
namespace Incredis.Connection

/-- The context pointers that a step dereferences or hands to hiredis. `is_connected()`
looks into `m_conn` and `unique_ptr` calls its deleter only when there is a pointer. -/
def uses (s : State) : Action → List (Option Nat)
  | .isConnected | .makeBatch => s.mConn.toList.map some
  | .run => [s.mConn]
  | .reset => s.mConn.toList.map some
  | _ => []

/-- A pointer to a context that hiredis has not freed. -/
def Live (s : State) (pointer : Option Nat) : Prop :=
  ∃ ctx, pointer.bind s.context = some ctx ∧ ctx.link.live = true

/-- What has to hold of a step: the connection is neither refused nor lost while
`m_conn` holds its context, and no batch runs a command while `m_conn` is empty. -/
def Kept (s : State) : Action → Prop
  | .connectEvent _ status => status = .ok
  | .lostEvent i _ => s.mConn ≠ some i
  | .run => s.mConn ≠ none
  | _ => True

/-- The context in `m_conn` has not been freed, has not been asked to disconnect and is
not about to be freed. -/
structure Owned (s : State) (i : Nat) (ctx : Context) : Prop where
  found : s.contexts[i]? = some ctx
  live : ctx.link.live = true
  kept : ctx.disconnecting = false
  spared : ∀ call, s.poll = .calling call → call.context = i →
    call.callback = .onConnect ∧ call.status = .ok

def HoldsLive (s : State) : Prop := ∀ i, s.mConn = some i → ∃ ctx, Owned s i ctx

section Step
variable {s t : State} {a : Action} {i : Nat} {ctx : Context}

/-- A step that leaves the contexts alone. -/
theorem Owned.rest (owned : Owned s i ctx) (contexts : t.contexts = s.contexts)
    (poll : ∀ call, t.poll = .calling call → call.context = i →
      call.callback = .onConnect ∧ call.status = .ok) : ∃ ctx, Owned t i ctx :=
  ⟨ctx, contexts ▸ owned.found, owned.live, owned.kept, poll⟩

/-- A step that changes a context without freeing it. -/
theorem Owned.put (owned : Owned s i ctx) {j : Nat} {old new : Context}
    (found : s.contexts[j]? = some old) (contexts : t.contexts = s.contexts.set j new)
    (link : new.link = old.link) (kept : new.disconnecting = old.disconnecting)
    (poll : ∀ call, t.poll = .calling call → call.context = i →
      call.callback = .onConnect ∧ call.status = .ok) : ∃ ctx, Owned t i ctx := by
  by_cases same : j = i
  · subst same
    obtain ⟨bound, _⟩ := List.getElem?_eq_some_iff.mp found
    cases Option.some.inj (found.symm.trans owned.found)
    exact ⟨new, by rw [contexts, List.getElem?_set_self bound], by rw [link, owned.live],
      by rw [kept, owned.kept], poll⟩
  · exact ⟨ctx, by rw [contexts, List.getElem?_set_ne same, owned.found], owned.live, owned.kept,
      poll⟩

theorem Owned.callback {call : Call} (owned : Owned s i ctx) (calling : s.poll = .calling call) :
    ∃ ctx, Owned (s.callbackStep call) i ctx := by
  have spared := owned.spared call calling
  unfold State.callbackStep
  cases line : call.line with
  | finish =>
    by_cases same : call.context = i
    · obtain ⟨callback, status⟩ := spared same
      refine ⟨{ ctx with link := .connected }, ?_, rfl, owned.kept, by simp⟩
      simp [State.linkAfter, callback, status, same, owned.found]
    · refine ⟨ctx, ?_, owned.live, owned.kept, by simp⟩
      simp [same, owned.found]
  | connectionLost | connected | processed | connectErrMsg | notify =>
    refine owned.rest rfl ?_
    rintro next same context
    cases same
    exact spared context

theorem holdsLive_step (effect : Effect s a t) (kept : Kept s a) (holds : HoldsLive s) :
    HoldsLive t := by
  intro i conn
  cases effect with
  | @callbackStep call calling =>
    have same : (s.callbackStep call).mConn = s.mConn := by
      unfold State.callbackStep
      split <;> rfl
    obtain ⟨ctx, owned⟩ := holds i (same ▸ conn)
    exact owned.callback calling
  | throws free none => rw [none] at conn; contradiction
  | connects =>
    cases conn
    exact ⟨{}, by simp, rfl, rfl, by simp⟩
  | resetsDead | postpones | closes | abandons => contradiction
  | runs free quiet _ found =>
    obtain ⟨ctx, owned⟩ := holds i conn
    exact owned.put found rfl rfl rfl owned.spared
  | connectEvent status polling found =>
    obtain ⟨ctx, owned⟩ := holds i conn
    refine owned.put found rfl rfl rfl ?_
    rintro call same _
    cases same
    exact ⟨rfl, kept⟩
  | replyEvent polling found =>
    obtain ⟨ctx, owned⟩ := holds i conn
    exact owned.put found rfl rfl rfl (by simp)
  | @lastReply j old polling found link disconnecting =>
    obtain ⟨ctx, owned⟩ := holds i conn
    refine owned.put found rfl rfl rfl ?_
    rintro call same rfl
    cases same
    cases Option.some.inj (found.symm.trans owned.found)
    exact absurd disconnecting (by simp [owned.kept])
  | lostEvent errstr polling found =>
    obtain ⟨ctx, owned⟩ := holds i conn
    refine owned.put found rfl rfl rfl ?_
    rintro call same rfl
    cases same
    exact absurd conn kept
  | joins | halt =>
    obtain ⟨ctx, owned⟩ := holds i conn
    exact owned.rest rfl (by simp)
  | keeps | waitForConnect | connectWaits | connectPasses | isConnected | makeBatch | runsNowhere
  | returns | disconnects | waitForDisconnect | disconnectWaits | disconnectPasses =>
    obtain ⟨ctx, owned⟩ := holds i conn
    exact owned.rest rfl owned.spared

end Step

/-- Only live contexts are used, and `connect()` is not stopped by a dead one. -/
def UsesLive (s : State) (a : Action) (t : State) : Prop :=
  (∀ pointer ∈ uses s a, Live s pointer) ∧
    (a = .connect .ok → t.contexts.length = s.contexts.length + 1 ∨ Live s s.mConn)

/-- As long as no connection fails while it is held, every pointer is good. -/
theorem live_contexts {s t : State} {a : Action} (run : Transition.Reaches machine Kept s)
    (kept : Kept s a) (stepped : step s a = some t) : UsesLive s a t := by
  have holds : HoldsLive s := run.invariant (by rintro _ ⟨⟩)
    fun holds kept stepped => holdsLive_step (step_effect stepped) kept holds
  have live {i : Nat} (conn : s.mConn = some i) : Live s s.mConn := by
    obtain ⟨ctx, owned⟩ := holds i conn
    exact ⟨ctx, by simpa [conn, State.context] using owned.found, owned.live⟩
  have listed {pointer : Option Nat} (member : pointer ∈ s.mConn.toList.map some) :
      Live s pointer := by
    simp only [List.mem_map, Option.mem_toList] at member
    obtain ⟨i, conn, rfl⟩ := member
    exact conn ▸ live conn
  constructor
  · intro pointer member
    cases a with
    | isConnected | makeBatch | reset => exact listed member
    | run =>
      obtain ⟨i, conn⟩ := Option.ne_none_iff_exists'.mp kept
      rw [List.mem_singleton.mp member]
      exact live conn
    | _ => contradiction
  · rintro rfl
    cases step_effect stepped with
    | keeps outcome free some =>
      obtain ⟨i, conn⟩ := Option.isSome_iff_exists.mp some
      exact .inr (live conn)
    | throws free none failed => exact absurd rfl failed
    | connects => exact .inl (by simp)

/-- A batch runs a command on a connection that was opened after an earlier one. -/
theorem live_contexts_reconnected : ∃ s t : State, s.contexts.length = 2 ∧ UsesLive s .run t := by
  have run := (Transition.initially machine Kept)
    |>.next (a := .connect .ok) (by trivial) rfl
    |>.next (a := .connectEvent 0 .ok) (by rfl) rfl
    |>.next (a := .callbackStep) (by trivial) rfl
    |>.next (a := .callbackStep) (by trivial) rfl
    |>.next (a := .callbackStep) (by trivial) rfl
    |>.next (a := .callbackStep) (by trivial) rfl
    |>.next (a := .callbackStep) (by trivial) rfl
    |>.next (a := .callbackStep) (by trivial) rfl
    |>.next (a := .disconnect) (by trivial) rfl
    |>.next (a := .reset) (by trivial) rfl
    |>.next (a := .halt) (by trivial) rfl
    |>.next (a := .join) (by trivial) rfl
    |>.next (a := .connect .ok) (by trivial) rfl
  exact ⟨_, _, rfl, live_contexts run (a := .run) (by rintro ⟨⟩) rfl⟩

/-- A context that has died in `m_conn` is handed to hiredis by the next
`disconnect()`, and the destructor always calls it. -/
theorem dead_context_reset {s : State} {i : Nat} (free : s.client.free = true)
    (processed : s.connectProcessed = true) (quiet : s.inCallback = false)
    (conn : s.mConn = some i) (dead : ¬ Live s s.mConn) :
    ∃ t u, step s .disconnect = some t ∧ step t .reset = some u ∧ ¬ UsesLive t .reset u := by
  let resetting : State := { s with connectProcessed := false, client := .resetting }
  have disconnect : step s .disconnect = some resetting := by
    simp [step, free, processed, resetting]
  obtain ⟨u, reset⟩ := reset_enabled (s := resetting) rfl quiet
  refine ⟨resetting, u, disconnect, reset, fun live => ?_⟩
  obtain ⟨ctx, found, alive⟩ := live.1 s.mConn (by simp [uses, conn, resetting])
  exact dead ⟨ctx, found, alive⟩

/-- After a refused connection `is_connected()` reads the context that hiredis has
freed. -/
theorem freed_context_used :
    ¬ ∀ s t a, Transition.Reaches machine Transition.always s → step s a = some t →
      UsesLive s a t := by
  intro live
  have run := (Transition.initially machine Transition.always).exec
    [.connect .ok, .connectEvent 0 (.err "Connection refused"), .callbackStep, .callbackStep,
     .callbackStep, .callbackStep, .callbackStep, .callbackStep, .waitForConnect] rfl
  obtain ⟨ctx, found, alive⟩ := (live _ _ .isConnected run rfl).1 (some 0) (List.Mem.head _)
  cases found
  contradiction

end Incredis.Connection
