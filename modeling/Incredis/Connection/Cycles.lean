import Incredis.Connection.Flags

/-! One object, many connections. The flags belong to whatever context was created
last; the callbacks do not ask whether that is theirs. -/
namespace Incredis.Connection

section Step
variable {s t : State} {a : Action}

/-- A step that touches neither a flag nor the life of a context and neither begins nor
advances a callback. -/
theorem Cycle.keep (cycle : Cycle s) (links : t.links = s.links) (mConn : t.mConn = s.mConn)
    (call : t.call = s.call) (flags : t.flags = s.flags)
    (resetting : t.client = .resetting ↔ s.client = .resetting)
    (stopped : t.mConn = none → t.client ≠ .joining → t.poll = .notStarted)
    (joined : t.client = .joining → t.mConn = none) : Cycle t := by
  have link : t.link = s.link := by simp only [State.link, links]
  simp only [State.flags, Flags.mk.injEq] at flags
  obtain ⟨connected, connectionLost, connectProcessed, disconnectProcessed⟩ := flags
  constructor
  · rw [links]; exact cycle.alone
  · rw [links, mConn]; exact cycle.held
  · rw [links, call, link]; exact cycle.calling
  · rw [link, mConn]; exact cycle.undecided
  · rw [link, call, resetting]; exact cycle.resetting
  · exact stopped
  · exact joined
  · rw [connected, link, call]; exact cycle.connected
  · rw [connectionLost, link, call]; exact cycle.connectionLost
  · simp only [connectProcessed, link, call, mConn, ne_eq, resetting]; exact cycle.connectProcessed
  · rw [disconnectProcessed, link, call, mConn]; exact cycle.disconnectProcessed

/-- The same while the poll thread stays where it is and the client is not about to let
go of the context. -/
theorem Cycle.rest (cycle : Cycle s) (links : t.links = s.links) (mConn : t.mConn = s.mConn)
    (poll : t.poll = s.poll) (flags : t.flags = s.flags)
    (resetting : t.client = .resetting ↔ s.client = .resetting)
    (joining : t.client = .joining ↔ s.client = .joining) : Cycle t := by
  apply cycle.keep links mConn (by simp only [State.call, poll]) flags resetting
  · rw [mConn, poll, ne_eq, joining]; exact cycle.stopped
  · rw [mConn, joining]; exact cycle.joined

/-- A new life for the last context. -/
theorem Cycle.relink (cycle : Cycle s) {n : Nat} {new : Link} (last : n + 1 = s.links.length)
    (links : t.links = s.links.set n new) :
    (∀ (i : Nat) (link : Link), t.links[i]? = some link → link.live = true →
      i + 1 = t.links.length) ∧ t.links.length = s.links.length ∧ t.link = new := by
  have length : t.links.length = s.links.length := by rw [links, List.length_set]
  refine ⟨fun i link found live => ?_, length, ?_⟩
  · by_cases same : n = i
    · omega
    · rw [links, List.getElem?_set_ne same] at found
      rw [length]
      exact cycle.alone i link found live
  · have index : t.links.length - 1 = n := by omega
    rw [State.link, List.getLast?_eq_getElem?, index, links,
      List.getElem?_set_self (by omega), Option.getD_some]

/-- A line of a callback that does not return yet. -/
theorem Cycle.line (cycle : Cycle s) {call next : Call} (calling : s.poll = .calling call)
    (poll : t.poll = .calling next) (callback : next.callback = call.callback)
    (context : next.context = call.context) (links : t.links = s.links)
    (mConn : t.mConn = s.mConn)
    (client : t.client = s.client ∨ t.client = s.client.notify call.callback)
    (later : (view s.link (some call)).connectProcessed = true →
      (view s.link (some next)).connectProcessed = true)
    (flags : t.flags = ⟨(view s.link (some next)).connected, (view s.link (some next)).connectionLost,
      (view s.link (some next)).connectProcessed && s.mConn.isSome && s.client ≠ .resetting,
      (view s.link (some next)).disconnectProcessed⟩) : Cycle t := by
  have link : t.link = s.link := by simp only [State.link, links]
  have before : s.call = some call := by simp only [State.call, calling]
  have after : t.call = some next := by simp only [State.call, poll]
  have resetting : t.client = .resetting ↔ s.client = .resetting := by
    rcases client with same | same <;> simp [same, Client.notify_resetting]
  have joining : t.client = .joining ↔ s.client = .joining := by
    rcases client with same | same <;> simp [same, Client.notify_joining]
  simp only [State.flags, Flags.mk.injEq] at flags
  obtain ⟨connected, connectionLost, connectProcessed, disconnectProcessed⟩ := flags
  constructor
  · rw [links]; exact cycle.alone
  · rw [links, mConn]; exact cycle.held
  · rw [links, link, after]
    rintro other ⟨⟩
    rw [callback, context]
    exact cycle.calling call before
  · rw [link, mConn]; exact cycle.undecided
  · rw [link, after, resetting]
    intro at_
    have := cycle.resetting at_
    rw [before] at this
    exact later this
  · rw [mConn, ne_eq, joining]
    intro none other
    rw [cycle.stopped none other] at calling
    contradiction
  · rw [mConn, joining]; exact cycle.joined
  · rw [connected, link, after]
  · rw [connectionLost, link, after]
  · simp only [connectProcessed, link, after, mConn, ne_eq, resetting]
  · rw [disconnectProcessed, link, after]; exact fun _ => rfl

theorem Cycle.callback (cycle : Cycle s) {call : Call} (calling : s.poll = .calling call) :
    Cycle (s.callbackStep call) := by
  have before : s.call = some call := by simp only [State.call, calling]
  obtain ⟨last, during⟩ := cycle.calling call before
  have live : s.link.live = true := by rw [during]; cases call.callback <;> rfl
  have connected := cycle.connected
  have connectionLost := cycle.connectionLost
  have connectProcessed := cycle.connectProcessed
  have disconnectProcessed := cycle.disconnectProcessed (.inr live)
  rw [before] at connected connectionLost connectProcessed disconnectProcessed
  unfold State.callbackStep
  cases line : call.line with
  | connectionLost | connected | connectErrMsg =>
    refine cycle.line calling rfl rfl rfl rfl rfl (.inl rfl) ?_ ?_
    · cases callback : call.callback <;> simp [view, callback, line, Line.past]
    · cases callback : call.callback <;>
        simp_all [view, Line.past, State.flags]
  | processed =>
    refine cycle.line calling rfl rfl rfl rfl rfl (.inl rfl) ?_ ?_
    · cases callback : call.callback <;> simp [view, callback, line, Line.past]
    · cases callback : call.callback <;>
        simp_all [view, Line.past, State.flags]
      -- connect_processed is still false, so disconnect() has not begun
      refine ⟨cycle.undecided during, fun at_ => ?_⟩
      have := cycle.resetting at_
      simp [before, view, callback, line, Line.past] at this
  | notify =>
    refine cycle.line calling rfl rfl rfl rfl rfl (.inr rfl) ?_ ?_
    · cases callback : call.callback <;> simp [view, callback, line, Line.past]
    · cases callback : call.callback <;>
        simp_all [view, Line.past, State.flags]
  | finish =>
    have told := view_finish line s.link
    let t : State := { s with
      contexts := s.contexts.modify call.context fun ctx =>
        { ctx with link := State.linkAfter call }
      poll := .polling }
    obtain ⟨alone, length, link⟩ := cycle.relink (t := t) last links_modify
    have after : t.call = none := rfl
    have decided : State.linkAfter call ≠ .connecting := by
      simp only [State.linkAfter]
      split <;> simp
    show Cycle t
    constructor
    · exact alone
    · rw [length]; exact cycle.held
    · rintro other ⟨⟩
    · exact fun connecting => absurd (link ▸ connecting) decided
    · intro _
      simp [link, after, view, decided]
    · intro none other
      rw [cycle.stopped none other] at calling
      contradiction
    · exact cycle.joined
    · rw [link, after, told]; exact connected
    · rw [link, after, told]; exact connectionLost
    · rw [link, after, told]; exact connectProcessed
    · rw [link, after, told]; exact fun _ => disconnectProcessed

/-- The poll thread calls back about a context of which the flags are right. -/
theorem Cycle.begin (cycle : Cycle s) {call : Call} (polling : s.poll = .polling)
    (poll : t.poll = .calling call) (begins : call.line = .connectionLost)
    (last : call.context + 1 = s.links.length) (during : s.link = call.callback.during)
    (links : t.links = s.links) (mConn : t.mConn = s.mConn) (client : t.client = s.client)
    (flags : t.flags = s.flags) : Cycle t := by
  have link : t.link = s.link := by simp only [State.link, links]
  have before : s.call = none := by simp only [State.call, polling]
  have after : t.call = some call := by simp only [State.call, poll]
  have told : view t.link t.call = view s.link s.call := by
    rw [after, before, ← view_begin begins t.link, during]
  simp only [State.flags, Flags.mk.injEq] at flags
  obtain ⟨connected, connectionLost, connectProcessed, disconnectProcessed⟩ := flags
  constructor
  · rw [links]; exact cycle.alone
  · rw [links, mConn]; exact cycle.held
  · rw [links, link, after]
    rintro other ⟨⟩
    exact ⟨last, during⟩
  · rw [link, mConn]; exact cycle.undecided
  · rw [told, client]; exact cycle.resetting
  · rw [mConn, client]
    intro none other
    rw [cycle.stopped none other] at polling
    contradiction
  · rw [mConn, client]; exact cycle.joined
  · rw [connected, told]; exact cycle.connected
  · rw [connectionLost, told]; exact cycle.connectionLost
  · rw [connectProcessed, told, mConn, client]; exact cycle.connectProcessed
  · rw [disconnectProcessed, told, link, mConn]; exact cycle.disconnectProcessed

/-- The client lets go of a context that lives on or is dead already. -/
theorem Cycle.release (cycle : Cycle s) (at_ : s.client = .resetting)
    (quiet : s.inCallback = false) (links : t.links = s.links) (mConn : t.mConn = none)
    (poll : t.poll = s.poll) (client : t.client = .joining) (flags : t.flags = s.flags) :
    Cycle t := by
  have link : t.link = s.link := by simp only [State.link, links]
  have call : t.call = s.call := by simp only [State.call, poll]
  have none := call_none quiet
  simp only [State.flags, Flags.mk.injEq] at flags
  obtain ⟨connected, connectionLost, connectProcessed, disconnectProcessed⟩ := flags
  constructor
  · rw [links]; exact cycle.alone
  · simp [mConn]
  · rw [links, call, link]; exact cycle.calling
  · intro connecting
    have decided := cycle.resetting at_
    simp [none, ← link, connecting, view] at decided
  · simp [client]
  · simp [client]
  · exact fun _ => mConn
  · rw [connected, link, call]; exact cycle.connected
  · rw [connectionLost, link, call]; exact cycle.connectionLost
  · rw [connectProcessed, cycle.connectProcessed, at_, mConn]
    simp
  · rw [disconnectProcessed, link, call, mConn]
    rintro (_ | live)
    · contradiction
    · exact cycle.disconnectProcessed (.inr live)

/-- `on_disconnect` has been called from within `m_conn.reset()`. -/
theorem Cycle.close (cycle : Cycle s) (at_ : s.client = .resetting) (quiet : s.inCallback = false)
    {i : Nat} (conn : s.mConn = some i) (links : t.links = s.links.set i .closed)
    (mConn : t.mConn = none) (poll : t.poll = s.poll) (client : t.client = .joining)
    (flags : t.flags = ⟨false, false, s.connectProcessed, true⟩) : Cycle t := by
  obtain ⟨alone, length, link⟩ := cycle.relink (cycle.held i conn) links
  have call : t.call = none := by
    rw [← call_none quiet]
    simp only [State.call, poll]
  simp only [State.flags, Flags.mk.injEq] at flags
  obtain ⟨connected, connectionLost, connectProcessed, _⟩ := flags
  constructor
  · exact alone
  · simp [mConn]
  · simp [call]
  · simp [link]
  · simp [client]
  · simp [client]
  · exact fun _ => mConn
  · rw [connected, link, call]; rfl
  · rw [connectionLost, link, call]; rfl
  · rw [connectProcessed, cycle.connectProcessed, at_, mConn]; simp
  · simp [mConn, link, Link.live]

/-- A new context, when nothing is left of the earlier ones. -/
theorem Cycle.open (cycle : Cycle s) (free : s.client.free = true) (none : s.mConn = none)
    (dead : ∀ ctx ∈ s.contexts, ctx.link.live = false) (lost : s.connectionLost = false)
    (links : t.links = s.links ++ [.connecting]) (mConn : t.mConn = some s.links.length)
    (poll : t.poll = .polling) (client : t.client = .idle)
    (flags : t.flags = ⟨s.connected, s.connectionLost, s.connectProcessed, false⟩) : Cycle t := by
  have length : t.links.length = s.links.length + 1 := by rw [links, List.length_append]; rfl
  have link : t.link = .connecting := by simp [State.link, links]
  have call : t.call = Option.none := by simp only [State.call, poll]
  have stopped := cycle.stopped none (by rintro at_; simp [at_, Client.free] at free)
  have before : s.call = Option.none := by simp only [State.call, stopped]
  have connected : s.connected = false := by
    have := link_dead dead
    rw [cycle.connected, before]
    cases last : s.link <;> simp_all [view, Link.live]
  have processed : s.connectProcessed = false := by
    rw [cycle.connectProcessed, none]
    simp
  simp only [State.flags, Flags.mk.injEq, connected, lost, processed] at flags
  obtain ⟨connected, connectionLost, connectProcessed, disconnectProcessed⟩ := flags
  constructor
  · intro i other found live
    rw [links] at found
    obtain ⟨bound, _⟩ := List.getElem?_eq_some_iff.mp found
    rw [← links, length] at bound
    by_cases old : i < s.links.length
    · rw [List.getElem?_append_left old, State.links, List.getElem?_map,
        Option.map_eq_some_iff] at found
      obtain ⟨ctx, lookup, rfl⟩ := found
      rw [dead ctx (List.mem_of_getElem? lookup)] at live
      contradiction
    · omega
  · rw [mConn, length]
    rintro i ⟨⟩
    rfl
  · simp [call]
  · simp [mConn]
  · simp [client]
  · simp [mConn]
  · simp [client]
  · rw [connected, link, call]; rfl
  · rw [connectionLost, link, call]; rfl
  · rw [connectProcessed, link, call]; rfl
  · rw [disconnectProcessed, link, call]; exact fun _ => rfl

theorem cycle_step (effect : Effect s a t) (fresh : Fresh s a) (cycle : Cycle s) : Cycle t := by
  have apart (free : s.client.free = true) : s.client ≠ .resetting ∧ s.client ≠ .joining := by
    constructor <;> intro same <;> simp [same, Client.free] at free
  cases effect with
  | isConnected | makeBatch | runsNowhere => exact cycle
  | keeps outcome free | returns free =>
    exact cycle.rest rfl rfl rfl rfl (by simp [apart free]) (by simp [apart free])
  | waitForConnect free | waitForDisconnect free =>
    refine cycle.rest rfl rfl rfl rfl ?_ ?_ <;> simp only [apart free] <;> split <;> simp
  | connectWaits at_ | connectPasses at_ | disconnectWaits at_ | disconnectPasses at_ =>
    exact cycle.rest rfl rfl rfl rfl (by simp [at_]) (by simp [at_])
  | runs free quiet conn found =>
    exact cycle.rest (links_set found rfl rfl) rfl rfl rfl .rfl .rfl
  | replyEvent polling found =>
    exact cycle.rest (links_set found rfl rfl) rfl polling.symm rfl .rfl .rfl
  | callbackStep calling => exact cycle.callback calling
  | resetsDead at_ quiet => exact cycle.release at_ quiet rfl rfl rfl rfl rfl
  | postpones at_ quiet conn found =>
    exact cycle.release at_ quiet (links_set found rfl rfl) rfl rfl rfl rfl
  | @connectEvent i ctx status polling found link =>
    have last := cycle.alone i _ (links_found found) (by rw [link]; rfl)
    exact cycle.begin polling rfl rfl last ((link_last found last).trans link)
      (links_set found rfl rfl) rfl rfl rfl
  | @lastReply i ctx polling found link =>
    have last := cycle.alone i _ (links_found found) (by rw [link]; rfl)
    exact cycle.begin polling rfl rfl last ((link_last found last).trans link)
      (links_set found rfl rfl) rfl rfl rfl
  | @lostEvent i ctx errstr polling found link =>
    have last := cycle.alone i _ (links_found found) (by rw [link]; rfl)
    exact cycle.begin polling rfl rfl last ((link_last found last).trans link)
      (links_set found rfl rfl) rfl rfl rfl
  | @abandons i ctx at_ quiet conn found link =>
    -- disconnect() is not entered before on_connect
    have decided := cycle.resetting at_
    simp [call_none quiet, link_last found (cycle.held i conn), link, view] at decided
  | closes at_ quiet conn found link =>
    exact cycle.close at_ quiet conn List.map_set rfl rfl rfl rfl
  | throws free none failed =>
    have stopped := cycle.stopped none (apart free).2
    have call : s.call = Option.none := by simp only [State.call, stopped]
    refine ⟨cycle.alone, cycle.held, cycle.calling, cycle.undecided, by simp, ?_, by simp,
      cycle.connected, cycle.connectionLost, ?_, ?_⟩
    · exact fun _ _ => stopped
    · simpa [none] using cycle.connectProcessed
    · rintro (some | live)
      · simp [none] at some
      · have undecided := cycle.undecided
        replace live : s.link.live = true := live
        show false = (view s.link s.call).disconnectProcessed
        cases link : s.link <;> simp_all [view, Link.live]
  | connects free none =>
    obtain ⟨dead, lost⟩ := fresh none
    exact cycle.open free none dead lost (by simp [State.links]) (by simp [State.links]) rfl rfl rfl
  | disconnects free processed =>
    have told := cycle.connectProcessed
    rw [processed, eq_comm, Bool.and_eq_true, Bool.and_eq_true] at told
    refine ⟨cycle.alone, cycle.held, cycle.calling, cycle.undecided, fun _ => told.1.1, ?_, by simp,
      cycle.connected, cycle.connectionLost, by simp, cycle.disconnectProcessed⟩
    intro none _
    rw [none] at told
    simp at told
  | joins at_ ended =>
    exact cycle.keep rfl rfl (by simp only [State.call, ended]) rfl (by simp [at_])
      (fun _ _ => rfl) (by simp)
  | halt polling pending =>
    refine cycle.keep rfl rfl (by simp only [State.call, polling]) rfl .rfl ?_ cycle.joined
    intro none other
    rw [cycle.stopped none other] at polling
    contradiction

end Step

theorem cycle_run {s : State} (run : Transition.Reaches machine Fresh s) : Cycle s := by
  refine run.invariant ?_ fun cycle fresh stepped => cycle_step (step_effect stepped) fresh cycle
  exact ⟨by rintro _ _ ⟨⟩, by rintro _ ⟨⟩, by rintro _ ⟨⟩, by rintro ⟨⟩, by rintro ⟨⟩, fun _ _ => rfl,
    by rintro ⟨⟩, rfl, rfl, rfl, by rintro (⟨⟨⟩⟩ | ⟨⟨⟩⟩)⟩

/-- The assertions hold of a callback about a context that is alive: it is the last one,
and the flags describe it. -/
theorem Cycle.asserted {s : State} (cycle : Cycle s) (quiet : s.call = none) {i : Nat}
    {ctx : Context} {callback : Callback} (found : s.contexts[i]? = some ctx)
    (during : ctx.link = callback.during) : Asserted s i callback := by
  have live : ctx.link.live = true := by rw [during]; cases callback <;> rfl
  have last := cycle.alone i _ (links_found found) live
  have link : s.link = callback.during := (link_last found last).trans during
  cases callback with
  | onConnect =>
    obtain ⟨j, conn⟩ := Option.isSome_iff_exists.mp (cycle.undecided link)
    have same : j = i := by
      have := cycle.held j conn
      omega
    refine ⟨same ▸ conn, ?_⟩
    rw [cycle.connectProcessed, link, quiet]
    simp [view, Callback.during]
  | onDisconnect =>
    constructor
    · rw [cycle.connected, link, quiet]
      rfl
    · rw [cycle.disconnectProcessed (.inr (by rw [link]; rfl)), link, quiet]
      rfl

/-- The flags always belong to the context in `m_conn`, as long as no connection is
opened over the remains of an earlier one. -/
theorem flags_describe {s : State} (run : Transition.Reaches machine Fresh s) : Consistent s := by
  have cycle := cycle_run run
  constructor
  · intro quiet ctx held
    obtain ⟨i, conn, found⟩ := Option.bind_eq_some_iff.mp held
    have link : s.link = ctx.link := link_last found (cycle.held i conn)
    have told : view s.link s.call = view ctx.link none := by rw [link, call_none quiet]
    have connected := told ▸ cycle.connected
    have connectionLost := told ▸ cycle.connectionLost
    have connectProcessed := told ▸ cycle.connectProcessed
    have disconnectProcessed := told ▸ cycle.disconnectProcessed (.inl (by rw [conn]; rfl))
    simp only [view, conn] at connected connectionLost connectProcessed disconnectProcessed
    refine ⟨by simp [connected], by simp [connectionLost], fun other => ?_,
      by simp [disconnectProcessed]⟩
    simp [connectProcessed, other]
  · intro call j calling _ conn other
    have before : s.call = some call := by simp only [State.call, calling]
    have := (cycle.calling call before).1
    have := cycle.held j conn
    omega
  · intro a t callback i stepped started
    cases step_effect stepped with
    | connectEvent status polling found link =>
      cases started
      exact cycle.asserted (by simp only [State.call, polling]) found link
    | lostEvent errstr polling found link =>
      cases started
      exact cycle.asserted (by simp only [State.call, polling]) found link
    | replyEvent polling found link | lastReply polling found link =>
      simp only [starts] at started
      split at started
      · cases started
        exact cycle.asserted (by simp only [State.call, polling]) found link
      · contradiction
    | resetsDead at_ quiet | postpones at_ quiet | closes at_ quiet | abandons at_ quiet =>
      simp only [starts] at started
      split at started
      · rename_i idle
        obtain ⟨ctx, held, connected⟩ := Option.any_eq_true _ _ |>.mp idle
        obtain ⟨j, conn, found⟩ := Option.bind_eq_some_iff.mp held
        rw [conn] at started
        cases started
        simp only [Bool.and_eq_true, decide_eq_true_eq] at connected
        exact cycle.asserted (call_none quiet) found connected.1
      · contradiction
    | _ => contradiction

/-- Two connections one after the other; the first is idle when it is closed. -/
theorem flags_describe_second : ∃ s : State, s.contexts.length = 2 ∧ Consistent s := by
  have first := (Transition.initially machine Fresh)
    |>.next (a := .connect .ok) (by exact fun _ => ⟨by rintro _ ⟨⟩, rfl⟩) rfl
    |>.next (a := .connectEvent 0 .ok) (by trivial) rfl
    |>.next (a := .callbackStep) (by trivial) rfl
    |>.next (a := .callbackStep) (by trivial) rfl
    |>.next (a := .callbackStep) (by trivial) rfl
    |>.next (a := .callbackStep) (by trivial) rfl
    |>.next (a := .callbackStep) (by trivial) rfl
    |>.next (a := .callbackStep) (by trivial) rfl
    |>.next (a := .disconnect) (by trivial) rfl
    |>.next (a := .reset) (by trivial) rfl
    |>.next (a := .halt) (by trivial) rfl
    |>.next (a := .join) (by trivial) rfl
  have second := first
    |>.next (a := .connect .ok) (by exact fun _ => ⟨by
        intro ctx member
        rw [List.mem_singleton.mp member]
        rfl, rfl⟩) rfl
    |>.next (a := .connectEvent 1 .ok) (by trivial) rfl
  exact ⟨_, rfl, flags_describe second⟩

/-- A command is outstanding when the first connection is closed. Its reply is read by
the loop of the second connection, whose flags the postponed `on_disconnect` clears. -/
theorem late_disconnect : ¬ ∀ s, Transition.Reaches machine Transition.always s → Consistent s := by
  intro consistent
  have first := (Transition.initially machine Transition.always).exec
    [.connect .ok, .connectEvent 0 .ok, .callbackStep, .callbackStep, .callbackStep,
     .callbackStep, .callbackStep, .callbackStep, .run, .disconnect, .reset, .halt, .join] rfl
  have second := first.exec
    [.connect .ok, .connectEvent 1 .ok, .callbackStep, .callbackStep, .callbackStep,
     .callbackStep, .callbackStep, .callbackStep, .replyEvent 0, .callbackStep] rfl
  have unmoved := (consistent _ second).unmoved _ 1 rfl rfl rfl (by decide)
  cases congrArg Flags.connected unmoved

end Incredis.Connection
