import Incredis.Connection.Flags

/-! The poll thread over the life of an `AsyncConnection`, whatever the client and the
servers do: when it may be started, halted and joined, and what `on_connect` may rely
on. -/
namespace Incredis.Connection

/-- `on_connect` has stored `connect_processed` and is still running for this context. -/
def State.Deciding (s : State) (i : Nat) : Prop :=
  ∃ call, s.poll = .calling call ∧ call.callback = .onConnect ∧ call.context = i ∧
    call.line.past .processed = true

/-- What holds between any two steps. A context that is still connecting is the one in
`m_conn`, and `disconnect()` does not get as far as letting go of it. -/
structure Disciplined (s : State) : Prop where
  connecting : ∀ i, s.links[i]? = some .connecting → s.mConn = some i ∧
    (s.connectProcessed = false ∧ s.client ≠ .resetting ∨ s.Deciding i)
  calling : ∀ call, s.poll = .calling call → call.callback = .onConnect →
    s.links[call.context]? = some .connecting
  processed : s.connectProcessed = true → s.mConn.isSome = true
  resetting : s.client = .resetting → s.mConn.isSome = true ∧ s.connectProcessed = false
  halting : s.haltPending = true → s.client = .joining
  ended : s.poll = .ended → s.client = .joining ∧ s.haltPending = false
  joining : s.client = .joining → s.mConn = none ∧ s.poll ≠ .notStarted
  stopped : s.mConn = none → s.client ≠ .joining → s.poll = .notStarted
  started : s.mConn.isSome = true → s.poll ≠ .notStarted

section Step
variable {s t : State} {a : Action}

/-- A step that moves the client between its waits, or a context that stays what it is. -/
theorem Disciplined.rest (holds : Disciplined s) (links : t.links = s.links)
    (mConn : t.mConn = s.mConn) (poll : t.poll = s.poll)
    (processed : t.connectProcessed = s.connectProcessed) (halt : t.haltPending = s.haltPending)
    (resetting : t.client = .resetting ↔ s.client = .resetting)
    (joining : t.client = .joining ↔ s.client = .joining) : Disciplined t where
  connecting i found := by
    rw [links] at found
    rw [mConn, processed, ne_eq, resetting, State.Deciding, poll]
    exact holds.connecting i found
  calling := by rw [poll, links]; exact holds.calling
  processed := by rw [processed, mConn]; exact holds.processed
  resetting := by rw [resetting, mConn, processed]; exact holds.resetting
  halting := by rw [halt, joining]; exact holds.halting
  ended := by rw [poll, joining, halt]; exact holds.ended
  joining := by rw [joining, mConn, poll]; exact holds.joining
  stopped := by rw [mConn, ne_eq, joining, poll]; exact holds.stopped
  started := by rw [mConn, poll]; exact holds.started

/-- A callback begins, or comes to its next line. -/
theorem Disciplined.call (holds : Disciplined s) {next : Call} (links : t.links = s.links)
    (mConn : t.mConn = s.mConn) (halt : t.haltPending = s.haltPending)
    (resetting : t.client = .resetting ↔ s.client = .resetting)
    (joining : t.client = .joining ↔ s.client = .joining)
    (poll : t.poll = .calling next) (running : s.poll ≠ .notStarted)
    (own : next.callback = .onConnect → s.links[next.context]? = some .connecting)
    (decides : ∀ i, s.links[i]? = some .connecting →
      t.connectProcessed = false ∧ s.client ≠ .resetting ∨ t.Deciding i)
    (processed : t.connectProcessed = true → s.mConn.isSome = true)
    (kept : s.client = .resetting → t.connectProcessed = false) : Disciplined t where
  connecting i found := by
    rw [links] at found
    rw [mConn, ne_eq, resetting]
    exact ⟨(holds.connecting i found).1, decides i found⟩
  calling call same := by
    rw [poll] at same
    cases same
    rw [links]
    exact own
  processed := by rw [mConn]; exact processed
  resetting at_ := by
    rw [mConn]
    exact ⟨(holds.resetting (resetting.mp at_)).1, kept (resetting.mp at_)⟩
  halting := by rw [halt, joining]; exact holds.halting
  ended same := by
    rw [poll] at same
    contradiction
  joining at_ := ⟨by rw [mConn]; exact (holds.joining (joining.mp at_)).1, by simp [poll]⟩
  stopped none away := by
    rw [mConn] at none
    exact absurd (holds.stopped none (fun at_ => away (joining.mpr at_))) running
  started _ := by simp [poll]

/-- `on_connect` is not running for another context. -/
theorem Disciplined.undecided (holds : Disciplined s) (polling : s.poll = .polling) {i : Nat}
    (found : s.links[i]? = some .connecting) :
    s.mConn = some i ∧ s.connectProcessed = false ∧ s.client ≠ .resetting := by
  obtain ⟨conn, ⟨processed, away⟩ | ⟨call, calling, _⟩⟩ := holds.connecting i found
  · exact ⟨conn, processed, away⟩
  · rw [polling] at calling
    contradiction

/-- No context is connecting any more when `disconnect()` lets go of it. -/
theorem Disciplined.decided (holds : Disciplined s) (at_ : s.client = .resetting)
    (quiet : s.inCallback = false) (i : Nat) : s.links[i]? ≠ some .connecting := by
  intro found
  obtain ⟨_, ⟨_, away⟩ | ⟨call, calling, _⟩⟩ := holds.connecting i found
  · exact away at_
  · rw [State.inCallback, calling] at quiet
    contradiction

/-- A line that does not store `connect_processed`. -/
theorem Disciplined.line (holds : Disciplined s) {call : Call} {line : Line}
    (calling : s.poll = .calling call) (poll : t.poll = .calling { call with line := line })
    (links : t.links = s.links) (mConn : t.mConn = s.mConn)
    (processed : t.connectProcessed = s.connectProcessed) (halt : t.haltPending = s.haltPending)
    (client : t.client = s.client ∨ t.client = s.client.notify call.callback)
    (past : call.line.past .processed = true → line.past .processed = true) : Disciplined t := by
  have resetting : t.client = .resetting ↔ s.client = .resetting := by
    rcases client with same | same <;> simp [same, Client.notify_resetting]
  have joining : t.client = .joining ↔ s.client = .joining := by
    rcases client with same | same <;> simp [same, Client.notify_joining]
  refine holds.call links mConn halt resetting joining poll (by simp [calling])
    (holds.calling call calling) ?_ (by rw [processed]; exact holds.processed)
    (by rw [processed]; exact fun at_ => (holds.resetting at_).2)
  intro i found
  rw [processed]
  rcases (holds.connecting i found).2 with undecided | ⟨other, same, callback, context, stored⟩
  · exact .inl undecided
  · cases calling.symm.trans same
    exact .inr ⟨_, poll, callback, context, past stored⟩

theorem disciplined_callback (holds : Disciplined s) {call : Call} (calling : s.poll = .calling call) :
    Disciplined (s.callbackStep call) := by
  have own := holds.calling call calling
  cases at_ : call.line with
  | connectionLost | connected | connectErrMsg =>
    simp only [State.callbackStep, at_]
    exact holds.line calling rfl rfl rfl rfl rfl (.inl rfl) (by simp [at_, Line.past])
  | notify =>
    simp only [State.callbackStep, at_]
    exact holds.line calling rfl rfl rfl rfl rfl (.inr rfl) (by simp [Line.past])
  | processed =>
    simp only [State.callbackStep, at_]
    refine holds.call rfl rfl rfl Iff.rfl Iff.rfl rfl (by simp [calling]) own ?_ ?_ ?_
    · intro i found
      obtain ⟨conn, before⟩ := holds.connecting i found
      cases callback : call.callback with
      | onConnect =>
        obtain ⟨same, _⟩ := holds.connecting _ (own callback)
        rw [conn, Option.some.injEq] at same
        exact .inr ⟨_, rfl, rfl, same.symm, rfl⟩
      | onDisconnect =>
        rcases before with undecided | ⟨other, same, connects, _⟩
        · exact .inl (by simpa [callback] using undecided)
        · cases calling.symm.trans same
          rw [callback] at connects
          contradiction
    · cases callback : call.callback with
      | onConnect =>
        intro _
        rw [(holds.connecting _ (own callback)).1, Option.isSome_some]
      | onDisconnect => simpa [callback] using holds.processed
    · intro resetting
      cases callback : call.callback with
      | onConnect =>
        -- disconnect() has seen the store that comes only now
        rcases (holds.connecting _ (own callback)).2 with ⟨_, away⟩ | ⟨other, same, _, _, stored⟩
        · exact absurd resetting away
        · cases calling.symm.trans same
          simp [at_, Line.past] at stored
      | onDisconnect => simpa [callback] using (holds.resetting resetting).2
  | finish =>
    simp only [State.callbackStep, at_]
    have links : State.links { s with
        contexts := s.contexts.modify call.context fun ctx => { ctx with link := State.linkAfter call }
        poll := .polling } = s.links.set call.context (State.linkAfter call) := links_modify
    refine ⟨?_, by simp, holds.processed, holds.resetting, holds.halting, by simp,
      fun joining => ⟨(holds.joining joining).1, by simp⟩, ?_, by simp⟩
    · intro i found
      rw [links] at found
      by_cases same : call.context = i
      · subst same
        rw [List.getElem?_set] at found
        cases callback : call.callback <;> cases status : call.status <;>
          simp [State.linkAfter, callback, status] at found
      · rw [List.getElem?_set_ne same] at found
        obtain ⟨conn, undecided | ⟨other, calls, callback, context, _⟩⟩ := holds.connecting i found
        · exact ⟨conn, .inl undecided⟩
        · cases calling.symm.trans calls
          exact absurd context same
    · intro none away
      have stopped := holds.stopped none away
      rw [calling] at stopped
      contradiction

/-- `m_conn.reset()`. No context is connecting, whichever way it goes. -/
theorem Disciplined.release (holds : Disciplined s) (at_ : s.client = .resetting)
    (quiet : s.inCallback = false) (links : ∀ i : Nat, t.links[i]? = some Link.connecting →
      s.links[i]? = some Link.connecting) (mConn : t.mConn = none) (poll : t.poll = s.poll)
    (processed : t.connectProcessed = s.connectProcessed) (client : t.client = .joining) :
    Disciplined t where
  connecting i found := absurd (links i found) (holds.decided at_ quiet i)
  calling call calling := by
    rw [poll] at calling
    rw [State.inCallback, calling] at quiet
    contradiction
  processed done := by
    rw [processed, (holds.resetting at_).2] at done
    contradiction
  resetting other := by
    rw [client] at other
    contradiction
  halting _ := client
  ended gone := by
    rw [poll] at gone
    have joining := (holds.ended gone).1
    rw [at_] at joining
    contradiction
  joining _ := ⟨mConn, by rw [poll]; exact holds.started (holds.resetting at_).1⟩
  stopped _ away := absurd client away
  started some := by
    rw [mConn] at some
    contradiction

theorem links_put {i : Nat} {old new : Context} (found : s.contexts[i]? = some old)
    (contexts : t.contexts = s.contexts.set i new)
    (link : new.link = .connecting → old.link = .connecting) (j : Nat)
    (connecting : t.links[j]? = some .connecting) : s.links[j]? = some .connecting := by
  rw [State.links, contexts, List.map_set, List.getElem?_set] at connecting
  split at connecting
  case isTrue same =>
    subst same
    split at connecting
    · rw [links_found found, link (Option.some.inj connecting)]
    · contradiction
  case isFalse => exact connecting

theorem free_away {client : Client} (free : client.free = true) :
    client ≠ .resetting ∧ client ≠ .joining := by
  cases client <;> simp [Client.free] at free ⊢

theorem disciplined_step (effect : Effect s a t) (holds : Disciplined s) : Disciplined t := by
  cases effect with
  | keeps _ free | throws free =>
    have away := free_away free
    exact holds.rest rfl rfl rfl rfl rfl (by simp [away.1]) (by simp [away.2])
  | waitForConnect free | waitForDisconnect free =>
    have away := free_away free
    refine holds.rest rfl rfl rfl rfl rfl ?_ ?_
    · simp only [away.1, iff_false]
      split <;> simp
    · simp only [away.2, iff_false]
      split <;> simp
  | connectWaits at_ | connectPasses at_ | disconnectWaits at_ | disconnectPasses at_ =>
    exact holds.rest rfl rfl rfl rfl rfl (by simp [at_]) (by simp [at_])
  | isConnected | makeBatch | runsNowhere => exact holds
  | runs free _ _ found => exact holds.rest (links_set found rfl rfl) rfl rfl rfl rfl Iff.rfl Iff.rfl
  | returns free =>
    have away := free_away free
    exact holds.rest rfl rfl rfl rfl rfl (by simp [away.1]) (by simp [away.2])
  | connects free none =>
    obtain ⟨_, away⟩ := free_away free
    have stopped := holds.stopped none away
    have undecided : s.connectProcessed = false := by
      cases done : s.connectProcessed with
      | false => rfl
      | true => simpa [none] using holds.processed done
    have idle : s.haltPending = false := by
      cases pending : s.haltPending with
      | false => rfl
      | true => exact absurd (holds.halting pending) away
    refine ⟨?_, by simp, by simp, by simp, by simp [idle], by simp, by simp, by simp, by simp⟩
    intro i found
    refine ⟨?_, .inl ⟨undecided, by simp⟩⟩
    simp only [State.links, List.map_append, List.map_cons, List.map_nil,
      List.getElem?_append, List.length_map] at found
    split at found
    · have earlier : s.links[i]? = some .connecting := found
      simpa [none] using (holds.connecting i earlier).1
    · obtain ⟨bound, _⟩ := List.getElem?_eq_some_iff.mp found
      simp only [List.length_singleton] at bound
      simp only [Option.some.injEq]
      omega
  | disconnects free processed =>
    obtain ⟨_, away⟩ := free_away free
    refine ⟨?_, holds.calling, by simp, fun _ => ⟨holds.processed processed, rfl⟩, ?_, ?_, by simp, ?_,
      holds.started⟩
    · intro i found
      obtain ⟨conn, ⟨undecided, _⟩ | deciding⟩ := holds.connecting i found
      · rw [processed] at undecided
        contradiction
      · exact ⟨conn, .inr deciding⟩
    · exact fun pending => absurd (holds.halting pending) away
    · exact fun ended => absurd (holds.ended ended).1 away
    · exact fun none _ => holds.stopped none away
  | resetsDead at_ quiet => exact holds.release at_ quiet (fun _ found => found) rfl rfl rfl rfl
  | postpones at_ quiet _ found =>
    exact holds.release at_ quiet (links_put found rfl id) rfl rfl rfl rfl
  | closes at_ quiet _ found | abandons at_ quiet _ found =>
    exact holds.release at_ quiet (links_put found rfl (by simp)) rfl rfl rfl rfl
  | joins at_ ended =>
    obtain ⟨none, _⟩ := holds.joining at_
    have idle := (holds.ended ended).2
    refine ⟨?_, by simp, holds.processed, by simp, by simp [idle], by simp, by simp, by simp,
      by simp [none]⟩
    intro i found
    have conn := (holds.connecting i found).1
    rw [none] at conn
    contradiction
  | connectEvent status polling found link =>
    have own := links_found found
    rw [link] at own
    refine holds.call (links_set found rfl rfl) rfl rfl Iff.rfl Iff.rfl rfl (by simp [polling])
      (fun _ => own) ?_ holds.processed fun at_ => (holds.resetting at_).2
    exact fun i connecting => .inl (holds.undecided polling connecting).2
  | replyEvent polling found =>
    exact holds.rest (links_set found rfl rfl) rfl polling.symm rfl rfl Iff.rfl Iff.rfl
  | lastReply polling found | lostEvent _ polling found =>
    refine holds.call (links_set found rfl rfl) rfl rfl Iff.rfl Iff.rfl rfl (by simp [polling])
      (by simp) ?_ holds.processed fun at_ => (holds.resetting at_).2
    exact fun i connecting => .inl (holds.undecided polling connecting).2
  | callbackStep calling => exact disciplined_callback holds calling
  | halt polling pending =>
    have at_ := holds.halting pending
    refine ⟨?_, by simp, holds.processed, holds.resetting, by simp, fun _ => ⟨at_, rfl⟩,
      fun _ => ⟨(holds.joining at_).1, by simp⟩, fun _ away => absurd at_ away, by simp⟩
    exact fun i found => ⟨(holds.undecided polling found).1, .inl (holds.undecided polling found).2⟩

end Step

theorem disciplined {s : State} (run : Transition.Reaches machine Transition.always s) :
    Disciplined s := by
  refine run.invariant (P := Disciplined) ?_ fun holds _ stepped =>
    disciplined_step (step_effect stepped) holds
  exact ⟨by simp [State.links], by simp, by simp, by simp, by simp, by simp, by simp, by simp, by simp⟩

/-- What the code asserts of its poll thread, or relies on without saying so. -/
structure Supervised (s : State) : Prop where
  /-- A `std::thread` that is joinable must not be assigned to. -/
  started : ∀ t, step s (.connect .ok) = some t → s.mConn = none → s.poll = .notStarted
  /-- `assert(m_local_data->redis_poll_thread.joinable())` -/
  joinable : ∀ t, step s .disconnect = some t → s.connectProcessed = true → s.poll ≠ .notStarted
  /-- `assert(not ev_async_pending(&m_local_data->watcher_halt))` -/
  unhalted : ∀ t, step s .reset = some t → s.haltPending = false
  /-- hiredis has decided on the attempt of the context that `m_conn.reset()` lets go of. The context
  may be connected, with `on_disconnect` still to come. -/
  decided : ∀ t ctx, step s .reset = some t → s.held = some ctx → ctx.link ≠ .connecting
  /-- The loop ends for `join()` alone, and `join()` has a thread to wait for. -/
  halted : ∀ t, step s .halt = some t → s.client = .joining ∧ s.mConn = none
  waited : s.client = .joining → s.poll ≠ .notStarted
  /-- `assert(parContext == self.m_conn.get())`, `assert(not connect_processed)` -/
  asserted : ∀ i status t, step s (.connectEvent i status) = some t → Asserted s i .onConnect

/-- In every run, with any number of connections, lost or refused or not. -/
theorem poll_thread_supervised {s : State}
    (run : Transition.Reaches machine Transition.always s) : Supervised s where
  started t stepped none := by
    cases step_effect stepped with
    | keeps _ _ some => simp [none] at some
    | throws _ _ failed => exact absurd rfl failed
    | connects free => exact (disciplined run).stopped none (free_away free).2
  joinable t stepped processed := (disciplined run).started ((disciplined run).processed processed)
  unhalted t stepped := by
    have at_ : s.client = .resetting := by
      cases step_effect stepped with
      | resetsDead at_ | postpones at_ | closes at_ | abandons at_ => exact at_
    cases pending : s.haltPending with
    | false => rfl
    | true =>
      have joining := (disciplined run).halting pending
      rw [at_] at joining
      contradiction
  decided t ctx stepped held link := by
    obtain ⟨i, conn, found⟩ := Option.bind_eq_some_iff.mp held
    have connecting := links_found found
    rw [link] at connecting
    cases step_effect stepped with
    | resetsDead at_ quiet | postpones at_ quiet | closes at_ quiet | abandons at_ quiet =>
      exact (disciplined run).decided at_ quiet i connecting
  halted t stepped := by
    cases step_effect stepped with
    | halt _ pending =>
      have joining := (disciplined run).halting pending
      exact ⟨joining, ((disciplined run).joining joining).1⟩
  waited joining := ((disciplined run).joining joining).2
  asserted i status t stepped := by
    cases step_effect stepped with
    | connectEvent _ polling found link =>
      have connecting := links_found found
      rw [link] at connecting
      obtain ⟨conn, undecided, _⟩ := (disciplined run).undecided polling connecting
      exact ⟨conn, undecided⟩

/-- The second connection of an object, whose first is still owed a reply. -/
theorem poll_thread_supervised_second : ∃ s : State,
    s.contexts.length = 2 ∧ s.client = .resetting ∧ s.connected = true ∧ Supervised s := by
  have run := (Transition.initially machine Transition.always).exec
    ([.connect .ok, .connectEvent 0 .ok] ++ List.replicate 6 .callbackStep ++
      [.run, .disconnect, .reset, .halt, .join, .connect .ok, .connectEvent 1 .ok] ++
      List.replicate 6 .callbackStep ++ [.disconnect]) rfl
  exact ⟨_, rfl, rfl, rfl, poll_thread_supervised run⟩

end Incredis.Connection
