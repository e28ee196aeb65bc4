import Incredis.Batch.Effect

/-! Runs of a batch on its own: a client that fills the window, a sender that then
blocks, and the poll thread answering whatever is outstanding. -/
namespace Incredis.Batch
open Family (Moves)
variable {limit pending : Int} {d : LocalData} {k : Nat} {cmd : Cmd}

theorem LocalData.put_self (bound : k < d.commands.length) (new : Cmd) :
    (d.put k new).commands[k]? = some new := List.getElem?_set_self bound

@[simp] theorem LocalData.put_put (new newer : Cmd) : (d.put k new).put k newer = d.put k newer := by
  simp [put]

/-- The first half of the callback, as long as it has no sender of its own batch
to wake. -/
theorem callback_moves (found : d.commands[k]? = some cmd) (phase : cmd.phase = .inFlight)
    (nobody : ∀ cmd ∈ d.commands, cmd.phase ≠ .waiting .blocked) (parReply : Option RedisReply) :
    Moves (step limit) (pending, d)
      (pending - 1, d.put k { cmd with phase := .storing, parReply := some parReply }) := by
  obtain ⟨bound, _⟩ := List.getElem?_eq_some_iff.mp found
  have called : step limit pending d (.callback k parReply) = some (pending - 1, d.put k { cmd with
      phase := if pending = limit then .notifySlot else .storing, parReply := some parReply }) := by
    simp [step, LocalData.commandAt_eq_some.mpr ⟨found, phase⟩]
  by_cases full : pending = limit
  · rw [if_pos full] at called
    refine .tail (.single ⟨_, called⟩) ⟨.notifySlot k none, ?_⟩
    have at_ := LocalData.commandAt_eq_some.mpr ⟨LocalData.put_self bound
      { cmd with phase := .notifySlot, parReply := some parReply }, rfl⟩
    have quiet (new : Cmd) (awake : new.phase ≠ .waiting .blocked) :
        (d.put k new).notifyFreeCmdSlot none = some (d.put k new) := by
      simp only [LocalData.notifyFreeCmdSlot, LocalData.put_commands, ite_eq_right_iff,
        reduceCtorEq, imp_false, List.any_eq_true, decide_eq_true_eq, not_exists, not_and]
      intro cmd member
      rcases List.mem_or_eq_of_mem_set member with old | rfl
      · exact nobody cmd old
      · exact awake
    simp [step, at_, quiet]
  · rw [if_neg full] at called
    exact .single ⟨_, called⟩

/-- The callback of command `k` runs to its end. -/
def Completes (limit pending : Int) (d : LocalData) (k : Nat) (cmd : Cmd) : Prop :=
  ∃ after, Moves (step limit) (pending, d) (pending, after) ∧
    after.commands = d.commands.set k { cmd with phase := .finished }

theorem notifyDone_completes (found : d.commands[k]? = some cmd) (phase : cmd.phase = .notifyDone) :
    Completes limit pending d k cmd :=
  ⟨_, .single ⟨.notifyDone k, by
    simp only [step, LocalData.commandAt_eq_some.mpr ⟨found, phase⟩]
    rfl⟩, rfl⟩

theorem release_completes (found : d.commands[k]? = some cmd) (phase : cmd.phase = .releasing) :
    Completes limit pending d k cmd := by
  obtain ⟨bound, _⟩ := List.getElem?_eq_some_iff.mp found
  let released : Cmd := { cmd with
    phase := if d.localPendingFutures = 1 then .notifyDone else .finished }
  let next : LocalData :=
    { d.put k released with localPendingFutures := d.localPendingFutures - 1 }
  have release : step limit pending d (.release k) = some (pending, next) := by
    simp [step, LocalData.commandAt_eq_some.mpr ⟨found, phase⟩, next, released]
  have commands : next.commands = d.commands.set k released := rfl
  by_cases last : d.localPendingFutures = 1
  · have lookup : next.commands[k]? = some released := LocalData.put_self bound _
    obtain ⟨after, moves, same⟩ : Completes limit pending next k released :=
      notifyDone_completes lookup (by simp [released, last])
    exact ⟨after, .head ⟨_, release⟩ moves, by simp [same, commands, released]⟩
  · exact ⟨next, .single ⟨_, release⟩, by simp [commands, released, last]⟩

theorem store_completes (found : d.commands[k]? = some cmd) (phase : cmd.phase = .storing) :
    Completes limit pending d k cmd := by
  obtain ⟨bound, _⟩ := List.getElem?_eq_some_iff.mp found
  let next := (d.storeReply cmd).put k { cmd with phase := .releasing }
  have store : step limit pending d (.store k) = some (pending, next) := by
    simp [step, LocalData.commandAt_eq_some.mpr ⟨found, phase⟩, next]
  have commands : next.commands = d.commands.set k { cmd with phase := .releasing } := by simp [next]
  have lookup : next.commands[k]? = some { cmd with phase := .releasing } := by
    rw [commands, List.getElem?_set_self bound]
  obtain ⟨after, moves, same⟩ : Completes limit pending next k _ := release_completes lookup rfl
  exact ⟨after, .head ⟨_, store⟩ moves, by simp [same, commands]⟩

/-- Commands that are all outstanding or done can be answered one after the other. -/
theorem drain (limit pending : Int)
    (landed : ∀ cmd ∈ d.commands, cmd.phase = .inFlight ∨ cmd.phase = .finished) :
    ∃ next after, Moves (step limit) (pending, d) (next, after) ∧
      ∀ cmd ∈ after.commands, cmd.phase = .finished := by
  induction outstanding : d.commands.countP fun cmd => cmd.phase = .inFlight
    generalizing d pending with
  | zero =>
    refine ⟨pending, d, .refl, fun cmd member => (landed cmd member).resolve_left ?_⟩
    simpa using (List.countP_eq_zero.mp outstanding) cmd member
  | succ n ih =>
    obtain ⟨cmd, member, inFlight⟩ := List.countP_pos_iff.mp (by rw [outstanding]; exact n.succ_pos)
    obtain ⟨k, found⟩ := List.getElem?_of_mem member
    obtain ⟨bound, same⟩ := List.getElem?_eq_some_iff.mp found
    simp only [decide_eq_true_eq] at inFlight
    have nobody : ∀ cmd ∈ d.commands, cmd.phase ≠ .waiting .blocked := by
      intro cmd member
      rcases landed cmd member with phase | phase <;> simp [phase]
    let storing : Cmd := { cmd with phase := .storing, parReply := some (some .nil) }
    have called : Moves (step limit) (pending, d) (pending - 1, d.put k storing) :=
      callback_moves found inFlight nobody (some .nil)
    obtain ⟨after, completes, commands⟩ : Completes limit (pending - 1) (d.put k storing) k storing :=
      store_completes (LocalData.put_self bound storing) rfl
    simp only [LocalData.put_commands, List.set_set] at commands
    obtain ⟨next, last, moves, finished⟩ := ih (d := after) (pending - 1)
      (by
        intro cmd member
        rw [commands] at member
        rcases List.mem_or_eq_of_mem_set member with old | rfl
        · exact landed cmd old
        · exact .inr rfl)
      (by
        rw [commands, List.countP_set bound, same, outstanding]
        simp [inFlight])
    exact ⟨next, last, (called.trans completes).trans moves, finished⟩

/-- A batch can have as many commands outstanding as the window allows. -/
theorem fill {n : Nat} (room : n ≤ limit) : ∃ d, Moves (step limit) (0, {}) ((n : Int), d) ∧
    d.client = .idle ∧ d.commands.length = n ∧ (∀ cmd ∈ d.commands, cmd.phase = .inFlight) ∧
    d.replies.Filled n := by
  induction n with
  | zero => exact ⟨{}, .refl, rfl, rfl, by simp, .empty⟩
  | succ n ih =>
    obtain ⟨d, moves, idle, length, inFlight, filled⟩ := ih (by push_cast at room; omega)
    obtain ⟨replies, added, filled, _⟩ := filled.add
    have free : ¬ limit ≤ (n : Int) := by push_cast at room; omega
    let opened : LocalData := { d with
      localPendingFutures := d.localPendingFutures + 1
      commands := d.commands ++ [{ argv := ["PING"] }] }
    have bound : n < opened.commands.length := by simp [opened, length]
    let slotted : LocalData :=
      { opened.put n { argv := ["PING"], phase := .slotted, replyPtr := some (.node n) }
        with replies }
    have run : step limit n d (.run ["PING"]) = some ((n : Int), opened) := by
      simp [step, Client.closing, Client.purpose, idle, opened]
    have count : step limit n opened (.count n) =
        some ((n : Int) + 1, opened.put n { argv := ["PING"], phase := .admitted }) := by
      have lookup : opened.commandAt n .entered = some { argv := ["PING"] } :=
        LocalData.commandAt_eq_some.mpr ⟨by simp [opened, ← length], rfl⟩
      simp [step, lookup, free]
    have add : step limit (n + 1) (opened.put n { argv := ["PING"], phase := .admitted }) (.add n) =
        some ((n : Int) + 1, slotted) := by
      have lookup := LocalData.commandAt_eq_some.mpr
        ⟨LocalData.put_self bound { argv := ["PING"], phase := .admitted }, rfl⟩
      simp only [step, lookup]
      simp [slotted, opened, added, LocalData.put]
    have submit : step limit (n + 1) slotted (.submit n true) = some ((n : Int) + 1,
        slotted.put n { argv := ["PING"], phase := .inFlight, replyPtr := some (.node n) }) := by
      have lookup : slotted.commandAt n .slotted = some
          { argv := ["PING"], phase := .slotted, replyPtr := some (.node n) } :=
        LocalData.commandAt_eq_some.mpr ⟨List.getElem?_set_self bound, rfl⟩
      simp [step, lookup]
    refine ⟨_, (((moves.tail ⟨_, run⟩).tail ⟨_, count⟩).tail ⟨_, add⟩).tail ⟨_, submit⟩, idle, ?_, ?_,
      filled⟩
    · simp [slotted, opened, length]
    · intro cmd member
      have commands : cmd ∈ d.commands ++
          [{ argv := ["PING"], phase := .inFlight, replyPtr := some (.node n) }] := by
        simpa [slotted, opened, ← length, List.set_append_right] using member
      rcases List.mem_append.mp commands with old | new
      · exact inFlight cmd old
      · rw [List.mem_singleton.mp new]

/-- A batch with one command, whose sender is in the middle of `wait`. -/
def oneSender (waiter : CondVar.Waiter) : LocalData where
  localPendingFutures := 1
  commands := [{ argv := ["GET", "key"], phase := .waiting waiter }]

/-- A sender that finds the window full blocks. -/
theorem block (full : limit ≤ pending) :
    Moves (step limit) (pending, {}) (pending + 1, oneSender .blocked) := by
  have run : step limit pending {} (.run ["GET", "key"]) = some (pending,
      { localPendingFutures := 1, commands := [{ argv := ["GET", "key"] }] }) := rfl
  have count : step limit pending
      { localPendingFutures := 1, commands := [{ argv := ["GET", "key"] }] } (.count 0) =
      some (pending + 1, oneSender .locking) := by
    simp [step, LocalData.commandAt, Option.filter, full, oneSender, LocalData.put]
  have lock : step limit (pending + 1) (oneSender .locking) (.wait 0) =
      some (pending + 1, oneSender .testing) := rfl
  have test : step limit (pending + 1) (oneSender .testing) (.wait 0) =
      some (pending + 1, oneSender .unsatisfied) := by
    have fails : ¬ pending + 1 < limit := by omega
    simp [step, oneSender, fails, CondVar.Waiter.advance, LocalData.put]
  have release : step limit (pending + 1) (oneSender .unsatisfied) (.wait 0) =
      some (pending + 1, oneSender .blocked) := rfl
  exact ((((Relation.ReflTransGen.single ⟨_, run⟩).tail ⟨_, count⟩).tail ⟨_, lock⟩).tail
    ⟨_, test⟩).tail ⟨_, release⟩

end Incredis.Batch
