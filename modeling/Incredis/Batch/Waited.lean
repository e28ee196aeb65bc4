import Incredis.Batch.Counters

/-! One thread for each batch. While it is inside `replies()` or the destructor no
command of the batch is on its way to hiredis, and when it is let through none is
outstanding. -/
namespace Incredis.Batch
variable {B : Type} [DecidableEq B] {limit : Int}

/-- What hiredis and the callers do with one batch: every command is accepted and
its callback gets the given reply; the batch is used by one thread, which starts a
call after the one before has returned, and is not reset. -/
def Obeys (answer : Nat → Option RedisReply) (d : LocalData) : Action → Prop
  | .run _ => d.client = .idle ∧ d.runInProgress = false
  | .enter purpose => d.runInProgress = false ∧ purpose ≠ .reset
  | .submit _ accepted => accepted = true
  | .callback k parReply => parReply = answer k
  | _ => True

def Answered (answer : B → Nat → Option RedisReply) (s : State B) (label : B × Action) : Prop :=
  Obeys (answer label.1) (s.part label.1) label.2

omit [DecidableEq B] in
theorem Answered.obeys {answer : B → Nat → Option RedisReply} {s : State B} {b : B} {a : Action}
    (answered : Answered answer s (b, a)) : Obeys (answer b) (s.part b) a := answered

/-- The client thread is elsewhere while it runs a command, and has seen the local
counter at zero when it returns. -/
structure Waited (d : LocalData) : Prop where
  quiet : d.client ≠ .idle → d.runInProgress = false
  drained : ∀ purpose, d.client = .returning purpose → d.localPendingFutures = 0
  kept : d.client.purpose ≠ some .reset

theorem runInProgress_eq_false {d : LocalData} :
    d.runInProgress = false ↔
      ∀ (k : Nat) (cmd : Cmd), d.commands[k]? = some cmd → cmd.phase.inRun = false := by
  simp only [LocalData.runInProgress, List.any_eq_false, Bool.not_eq_true]
  constructor
  · intro quiet k cmd found
    exact quiet cmd (List.mem_of_getElem? found)
  · intro quiet cmd member
    obtain ⟨k, bound, rfl⟩ := List.mem_iff_getElem.mp member
    exact quiet k _ (List.getElem?_eq_getElem bound)

section Step
variable {answer : Nat → Option RedisReply} {pending next : Int} {d after : LocalData} {a : Action}

theorem Waited.idle (waited : Waited d) {k : Nat} {cmd : Cmd} (found : d.commands[k]? = some cmd)
    (running : cmd.phase.inRun = true) : d.client = .idle := by
  by_contra busy
  have := runInProgress_eq_false.mp (waited.quiet busy) k cmd found
  simp [running] at this

/-- A step of a callback changes nothing that the client relies on. -/
theorem Waited.frame (waited : Waited d) {k : Nat} {new : Cmd} (outside : new.phase.inRun = false)
    (commands : after.commands = d.commands.set k new)
    (client : after.client = d.client ∨ after.client = d.client.notify)
    (counter : ∀ purpose, d.client = .returning purpose → after.localPendingFutures = 0) :
    Waited after where
  quiet := by
    intro busy
    have before : d.client ≠ .idle := by
      rcases client with same | same
      · rwa [same] at busy
      · rwa [same, ne_eq, Client.notify_idle] at busy
    have quiet := runInProgress_eq_false.mp (waited.quiet before)
    apply runInProgress_eq_false.mpr
    intro i cmd lookup
    rw [commands] at lookup
    rcases LocalData.put_lookup lookup with ⟨_, rfl⟩ | ⟨_, old⟩
    · exact outside
    · exact quiet i cmd old
  drained := by
    intro purpose returning
    rcases client with same | same
    · exact counter purpose (same.symm.trans returning)
    · exact counter purpose (Client.notify_returning.mp (same.symm.trans returning))
  kept := by
    rcases client with same | same
    · rw [same]; exact waited.kept
    · rw [same, Client.notify_purpose]; exact waited.kept

theorem Waited.step (effect : Effect limit pending d a next after) (obeys : Obeys answer d a)
    (exact_ : d.localPendingFutures = tally Phase.localCounted d.commands) (waited : Waited d) :
    Waited after := by
  cases effect with
  | run argv opened =>
    obtain ⟨idle, _⟩ := obeys
    exact ⟨fun busy => absurd idle busy, by simp [idle], by simp [idle, Client.purpose]⟩
  | count found phase | waits found phase | passes found phase | add found phase
  | submit _ found phase =>
    have idle := waited.idle found (by simp [phase, Phase.inRun])
    exact ⟨fun busy => absurd idle busy, by simp [idle], by simp [idle, Client.purpose]⟩
  | wakes found phase sleeping blocked =>
    have idle := waited.idle sleeping (by simp [blocked, Phase.inRun])
    exact ⟨fun busy => absurd idle busy, by simp [idle], by simp [idle, Client.purpose]⟩
  | callback parReply found phase =>
    exact waited.frame (by simp only; split <;> rfl) rfl (.inl rfl) waited.drained
  | wakesNone found phase => exact waited.frame rfl rfl (.inl rfl) waited.drained
  | @store k cmd found phase =>
    have commands : ((d.storeReply cmd).put k { cmd with phase := .releasing }).commands =
        d.commands.set k { cmd with phase := .releasing } := by simp
    exact waited.frame (by rfl) commands (.inl (by simp)) (by simpa using waited.drained)
  | release found phase =>
    refine waited.frame (by simp only; split <;> rfl) rfl (.inl rfl) ?_
    -- the command being released still counts, so nobody has been let through
    intro purpose returning
    have counted := tally_pos found (f := Phase.localCounted) (by simp [phase, Phase.localCounted])
    have := waited.drained purpose returning
    omega
  | notifyDone found phase => exact waited.frame rfl rfl (.inr rfl) waited.drained
  | enter purpose free quiet =>
    obtain ⟨still, noReset⟩ := obeys
    refine ⟨fun _ => still, ?_, ?_⟩
    · intro purpose returning
      by_contra positive
      simp [positive] at returning
    · simp only
      split <;> simp [Client.purpose, noReset]
  | recheck at_ =>
    have kept := waited.kept
    rw [at_] at kept
    refine ⟨fun _ => waited.quiet (by simp [at_]), ?_, ?_⟩
    · intro purpose returning
      have nonneg := tally_nonneg Phase.localCounted d.commands
      have notPositive : ¬ d.localPendingFutures > 0 := fun positive => by
        simp [positive] at returning
      simp only
      omega
    · simp only
      split <;> exact kept
  | waitsDone at_ moved =>
    have kept := waited.kept
    rw [at_] at kept
    exact ⟨fun _ => waited.quiet (by simp [at_]), by simp, kept⟩
  | passesDone at_ drained =>
    have kept := waited.kept
    rw [at_] at kept
    exact ⟨fun _ => waited.quiet (by simp [at_]), fun _ _ => drained, kept⟩
  | returns | resets => exact ⟨fun busy => absurd rfl busy, by simp, by simp [Client.purpose]⟩
  | destroys at_ =>
    exact ⟨fun _ => waited.quiet (by simp [at_]), by simp, by simp [Client.purpose]⟩

end Step

end Incredis.Batch
