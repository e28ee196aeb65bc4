import Incredis.Batch.Step

/-! What a step of one batch can do, said once. Every invariant below is derived
from this list of effects and from the two facts about replacing a command. -/
namespace Incredis.Batch
open CondVar (Waiter)

@[simp] theorem Client.notify_purpose (client : Client) : client.notify.purpose = client.purpose := by
  cases client <;> rfl

theorem Client.notify_idle {client : Client} : client.notify = .idle ↔ client = .idle := by
  cases client <;> simp [notify]

theorem Client.notify_returning {client : Client} {purpose : Purpose} :
    client.notify = .returning purpose ↔ client = .returning purpose := by
  cases client <;> simp [notify]

theorem Client.notify_destroyed {client : Client} :
    client.notify = .destroyed ↔ client = .destroyed := by
  cases client <;> simp [notify]

namespace LocalData

@[simp] theorem put_replies (d : LocalData) (k cmd) : (d.put k cmd).replies = d.replies := rfl
@[simp] theorem put_client (d : LocalData) (k cmd) : (d.put k cmd).client = d.client := rfl
@[simp] theorem put_localPendingFutures (d : LocalData) (k cmd) :
    (d.put k cmd).localPendingFutures = d.localPendingFutures := rfl
@[simp] theorem put_commands (d : LocalData) (k cmd) :
    (d.put k cmd).commands = d.commands.set k cmd := rfl

@[simp] theorem storeReply_client (d : LocalData) (cmd) : (d.storeReply cmd).client = d.client := by
  unfold storeReply; split <;> rfl
@[simp] theorem storeReply_localPendingFutures (d : LocalData) (cmd) :
    (d.storeReply cmd).localPendingFutures = d.localPendingFutures := by
  unfold storeReply; split <;> rfl
@[simp] theorem storeReply_commands (d : LocalData) (cmd) :
    (d.storeReply cmd).commands = d.commands := by
  unfold storeReply; split <;> rfl

theorem commandAt_eq_some {d : LocalData} {k : Nat} {phase : Phase} {cmd : Cmd} :
    d.commandAt k phase = some cmd ↔ d.commands[k]? = some cmd ∧ cmd.phase = phase := by
  simp [commandAt]

/-- After a command is replaced, a command is the new one or an old other one. -/
theorem put_lookup {d : LocalData} {k i : Nat} {new cmd : Cmd}
    (found : (d.put k new).commands[i]? = some cmd) :
    i = k ∧ cmd = new ∨ i ≠ k ∧ d.commands[i]? = some cmd := by
  simp only [put_commands, List.getElem?_set] at found
  by_cases same : k = i
  · subst same
    simp only [if_true] at found
    split at found
    · exact .inl ⟨rfl, (Option.some.inj found).symm⟩
    · contradiction
  · exact .inr ⟨fun h => same h.symm, by simpa only [same, if_false] using found⟩

/-- After a call of `run`, a command is the new one or an old one. -/
theorem append_lookup {commands : List Cmd} {i : Nat} {new cmd : Cmd}
    (found : (commands ++ [new])[i]? = some cmd) :
    i = commands.length ∧ cmd = new ∨ commands[i]? = some cmd := by
  by_cases old : i < commands.length
  · exact .inr (by rwa [List.getElem?_append_left old] at found)
  · rw [List.getElem?_append_right (Nat.le_of_not_lt old), List.getElem?_singleton] at found
    split at found
    · exact .inl ⟨by omega, (Option.some.inj found).symm⟩
    · contradiction

end LocalData

/-- The number of commands whose phase is of a given kind. -/
def tally (f : Phase → Bool) (commands : List Cmd) : Int :=
  commands.countP fun cmd => f cmd.phase

section
variable {f : Phase → Bool} {commands : List Cmd} {k : Nat} {cmd : Cmd}

theorem tally_nonneg (f : Phase → Bool) (commands : List Cmd) : 0 ≤ tally f commands :=
  Int.natCast_nonneg _

theorem tally_eq_zero (none : tally f commands = 0) (found : commands[k]? = some cmd) :
    f cmd.phase = false := by
  simp only [tally, Int.natCast_eq_zero, List.countP_eq_zero, Bool.not_eq_true] at none
  exact none cmd (List.mem_of_getElem? found)

theorem tally_pos (found : commands[k]? = some cmd) (kind : f cmd.phase = true) :
    0 < tally f commands := by
  have some : 0 < commands.countP fun cmd => f cmd.phase :=
    List.countP_pos_iff.mpr ⟨cmd, List.mem_of_getElem? found, kind⟩
  simpa only [tally, Int.natCast_pos] using some

@[simp] theorem tally_nil : tally f [] = 0 := rfl

@[simp] theorem tally_append (cmd : Cmd) :
    tally f (commands ++ [cmd]) = tally f commands + (f cmd.phase).toInt := by
  cases kind : f cmd.phase <;> simp [tally, kind]

theorem tally_set (found : commands[k]? = some cmd) (new : Cmd) :
    tally f (commands.set k new) =
      tally f commands + ((f new.phase).toInt - (f cmd.phase).toInt) := by
  obtain ⟨bound, rfl⟩ := List.getElem?_eq_some_iff.mp found
  have positive (kind : f commands[k].phase = true) :
      0 < commands.countP fun cmd => f cmd.phase :=
    List.countP_pos_iff.mpr ⟨_, List.getElem_mem bound, kind⟩
  simp only [tally, List.countP_set bound]
  cases before : f commands[k].phase
  · cases f new.phase <;> simp
  · have := positive before
    cases f new.phase <;> simp <;> omega

end

open LocalData in
/-- The effects of a step, each with the guard under which it happens. -/
inductive Effect (limit pending : Int) (d : LocalData) : Action → Int → LocalData → Prop
  | run (argv) (opened : d.client.closing = false) :
    Effect limit pending d (.run argv) pending
      ⟨d.replies, d.localPendingFutures + 1, d.commands ++ [{ argv := argv }], d.client⟩
  | count {k cmd} (found : d.commands[k]? = some cmd) (phase : cmd.phase = .entered) :
    Effect limit pending d (.count k) (pending + 1)
      (d.put k { cmd with phase := if pending ≥ limit then .waiting .locking else .admitted })
  | waits {k cmd waiter next} (found : d.commands[k]? = some cmd)
      (phase : cmd.phase = .waiting waiter)
      (moved : waiter.advance (pending < limit) = .waits next) :
    Effect limit pending d (.wait k) pending (d.put k { cmd with phase := .waiting next })
  | passes {k cmd} (found : d.commands[k]? = some cmd) (phase : cmd.phase = .waiting .testing)
      (room : pending < limit) :
    Effect limit pending d (.wait k) pending (d.put k { cmd with phase := .admitted })
  | add {k cmd replies replyPtr} (found : d.commands[k]? = some cmd)
      (phase : cmd.phase = .admitted) (added : d.replies.add = some (replies, replyPtr)) :
    Effect limit pending d (.add k) pending
      { d.put k { cmd with phase := .slotted, replyPtr := some replyPtr } with replies }
  | submit {k cmd} (accepted) (found : d.commands[k]? = some cmd) (phase : cmd.phase = .slotted) :
    Effect limit pending d (.submit k accepted) pending
      (d.put k { cmd with phase := if accepted then .inFlight else .rejected })
  | callback {k cmd} (parReply) (found : d.commands[k]? = some cmd)
      (phase : cmd.phase = .inFlight) :
    Effect limit pending d (.callback k parReply) (pending - 1)
      (d.put k { cmd with
        phase := if pending = limit then .notifySlot else .storing, parReply := some parReply })
  | wakes {k cmd j sleeper} (found : d.commands[k]? = some cmd) (phase : cmd.phase = .notifySlot)
      (sleeping : d.commands[j]? = some sleeper) (blocked : sleeper.phase = .waiting .blocked)
      (distinct : j ≠ k) :
    Effect limit pending d (.notifySlot k (some j)) pending
      ((d.put j { sleeper with phase := .waiting .notified }).put k { cmd with phase := .storing })
  | wakesNone {k cmd} (found : d.commands[k]? = some cmd) (phase : cmd.phase = .notifySlot)
      (nobody : ∀ cmd ∈ d.commands, cmd.phase ≠ .waiting .blocked) :
    Effect limit pending d (.notifySlot k none) pending (d.put k { cmd with phase := .storing })
  | store {k cmd} (found : d.commands[k]? = some cmd) (phase : cmd.phase = .storing) :
    Effect limit pending d (.store k) pending
      ((d.storeReply cmd).put k { cmd with phase := .releasing })
  | release {k cmd} (found : d.commands[k]? = some cmd) (phase : cmd.phase = .releasing) :
    Effect limit pending d (.release k) pending
      { d.put k { cmd with
          phase := if d.localPendingFutures = 1 then .notifyDone else .finished }
        with localPendingFutures := d.localPendingFutures - 1 }
  | notifyDone {k cmd} (found : d.commands[k]? = some cmd) (phase : cmd.phase = .notifyDone) :
    Effect limit pending d (.notifyDone k) pending
      { d.put k { cmd with phase := .finished } with client := d.client.notify }
  | enter (purpose) (free : d.client = .idle)
      (quiet : purpose = .replies ∨ d.runInProgress = false) :
    Effect limit pending d (.enter purpose) pending
      { d with client :=
          if d.localPendingFutures = 0 then .returning purpose else .rechecking purpose }
  | recheck {purpose} (at_ : d.client = .rechecking purpose) :
    Effect limit pending d .recheck pending
      { d with client :=
          if d.localPendingFutures > 0 then .waiting purpose .locking else .returning purpose }
  | waitsDone {purpose waiter next} (at_ : d.client = .waiting purpose waiter)
      (moved : waiter.advance (d.localPendingFutures = 0) = .waits next) :
    Effect limit pending d .waitDone pending { d with client := .waiting purpose next }
  | passesDone {purpose} (at_ : d.client = .waiting purpose .testing)
      (drained : d.localPendingFutures = 0) :
    Effect limit pending d .waitDone pending { d with client := .returning purpose }
  | returns (at_ : d.client = .returning .replies) :
    Effect limit pending d .leave pending { d with client := .idle }
  | resets (at_ : d.client = .returning .reset) :
    Effect limit pending d .leave pending
      { d with client := .idle, replies := d.replies.clear }
  | destroys (at_ : d.client = .returning .destroy) :
    Effect limit pending d .leave pending
      { d with client := .destroyed, replies := d.replies.clear }

theorem step_effect {limit pending next : Int} {d after : LocalData} {a : Action}
    (stepped : step limit pending d a = some (next, after)) :
    Effect limit pending d a next after := by
  cases a with
  | run argv =>
    simp only [step] at stepped
    split at stepped
    · contradiction
    · rename_i opened
      cases stepped
      exact .run argv (by simpa using opened)
  | count k =>
    simp only [step, Option.bind_eq_bind, Option.bind_eq_some_iff,
      LocalData.commandAt_eq_some] at stepped
    obtain ⟨cmd, ⟨found, phase⟩, same⟩ := stepped
    cases same
    exact .count found phase
  | wait k =>
    simp only [step, Option.bind_eq_bind, Option.bind_eq_some_iff] at stepped
    obtain ⟨cmd, found, same⟩ := stepped
    split at same
    · rename_i waiter phase
      split at same
      · contradiction
      · split at same
        · rename_i next moved
          cases same
          exact .waits found phase moved
        · rename_i passed
          cases same
          obtain ⟨rfl, room⟩ := Waiter.advance_passed.mp passed
          exact .passes found phase (of_decide_eq_true room)
        · contradiction
    · contradiction
  | add k =>
    simp only [step, Option.bind_eq_bind, Option.bind_eq_some_iff,
      LocalData.commandAt_eq_some] at stepped
    obtain ⟨cmd, ⟨found, phase⟩, ⟨replies, replyPtr⟩, added, same⟩ := stepped
    cases same
    exact .add found phase added
  | submit k accepted =>
    simp only [step, Option.bind_eq_bind, Option.bind_eq_some_iff,
      LocalData.commandAt_eq_some] at stepped
    obtain ⟨cmd, ⟨found, phase⟩, same⟩ := stepped
    cases same
    exact .submit accepted found phase
  | callback k parReply =>
    simp only [step, Option.bind_eq_bind, Option.bind_eq_some_iff,
      LocalData.commandAt_eq_some] at stepped
    obtain ⟨cmd, ⟨found, phase⟩, same⟩ := stepped
    cases same
    exact .callback parReply found phase
  | notifySlot k woken =>
    simp only [step, Option.bind_eq_bind, Option.bind_eq_some_iff,
      LocalData.commandAt_eq_some] at stepped
    obtain ⟨cmd, ⟨found, phase⟩, notified, picked, same⟩ := stepped
    cases same
    cases woken with
    | none =>
      simp only [LocalData.notifyFreeCmdSlot] at picked
      split at picked
      · contradiction
      · rename_i nobody
        cases picked
        exact .wakesNone found phase (by simpa using nobody)
    | some j =>
      simp only [LocalData.notifyFreeCmdSlot, Option.map_eq_some_iff,
        LocalData.commandAt_eq_some] at picked
      obtain ⟨sleeper, ⟨sleeping, blocked⟩, rfl⟩ := picked
      refine .wakes found phase sleeping blocked ?_
      rintro rfl
      cases Option.some.inj (sleeping.symm.trans found)
      rw [phase] at blocked
      contradiction
  | store k =>
    simp only [step, Option.bind_eq_bind, Option.bind_eq_some_iff,
      LocalData.commandAt_eq_some] at stepped
    obtain ⟨cmd, ⟨found, phase⟩, same⟩ := stepped
    cases same
    exact .store found phase
  | release k =>
    simp only [step, Option.bind_eq_bind, Option.bind_eq_some_iff,
      LocalData.commandAt_eq_some] at stepped
    obtain ⟨cmd, ⟨found, phase⟩, same⟩ := stepped
    cases same
    exact .release found phase
  | notifyDone k =>
    simp only [step, Option.bind_eq_bind, Option.bind_eq_some_iff,
      LocalData.commandAt_eq_some] at stepped
    obtain ⟨cmd, ⟨found, phase⟩, same⟩ := stepped
    cases same
    exact .notifyDone found phase
  | enter purpose =>
    simp only [step] at stepped
    split at stepped
    · rename_i guard
      cases stepped
      exact .enter purpose guard.1 guard.2
    · contradiction
  | recheck =>
    simp only [step] at stepped
    split at stepped
    · cases stepped
      exact .recheck (by assumption)
    · contradiction
  | waitDone =>
    simp only [step] at stepped
    split at stepped
    · rename_i purpose waiter at_
      split at stepped
      · rename_i moved
        cases stepped
        exact .waitsDone at_ moved
      · rename_i passed
        cases stepped
        obtain ⟨rfl, drained⟩ := Waiter.advance_passed.mp passed
        exact .passesDone at_ (of_decide_eq_true drained)
      · contradiction
    · contradiction
  | leave =>
    simp only [step] at stepped
    split at stepped
    · cases stepped
      exact .returns (by assumption)
    · cases stepped
      exact .resets (by assumption)
    · cases stepped
      exact .destroys (by assumption)
    · contradiction

section At
variable {limit pending next : Int} {d after : LocalData} {a : Action} {k i : Nat} {phase : Phase}
  {old new : Cmd}

theorem LocalData.At.put (at_ : d.At k phase) (different : i ≠ k) : (d.put i new).At k phase := by
  obtain ⟨cmd, found, same⟩ := at_
  exact ⟨cmd, by rw [put_commands, List.getElem?_set_ne different, found], same⟩

theorem LocalData.At.ne (at_ : d.At k phase) (found : d.commands[i]? = some old)
    (different : old.phase ≠ phase) : i ≠ k := by
  rintro rfl
  obtain ⟨cmd, lookup, same⟩ := at_
  cases Option.some.inj (found.symm.trans lookup)
  exact different same

/-- A callback that has come to a notification stays there until it issues it. -/
theorem notifying_step (effect : Effect limit pending d a next after) (at_ : d.At k phase)
    (notifies : phase.notifying = true) (slot : ∀ woken, a ≠ .notifySlot k woken)
    (done : a ≠ .notifyDone k) : after.At k phase := by
  have quiet {other : Phase} (silent : other.notifying = false) : other ≠ phase := by
    rintro rfl
    rw [silent] at notifies
    contradiction
  cases effect with
  | run argv =>
    obtain ⟨cmd, found, same⟩ := at_
    obtain ⟨bound, _⟩ := List.getElem?_eq_some_iff.mp found
    exact ⟨cmd, by simpa only [List.getElem?_append_left bound] using found, same⟩
  | @wakes _ _ j sleeper _ _ sleeping blocked =>
    have first : (d.put j { sleeper with phase := .waiting .notified }).At k phase :=
      at_.put (at_.ne sleeping (quiet (by rw [blocked]; rfl)))
    exact first.put fun same => slot _ (by rw [same])
  | wakesNone => exact at_.put fun same => slot _ (by rw [same])
  | notifyDone => exact at_.put fun same => done (by rw [same])
  | count found before | waits found before | passes found before | add found before
  | submit _ found before | callback _ found before | release found before =>
    exact at_.put (at_.ne found (quiet (by rw [before]; rfl)))
  | store found before =>
    obtain ⟨cmd, found, same⟩ := at_.put (at_.ne found (quiet (by rw [before]; rfl)))
    exact ⟨cmd, by simpa using found, same⟩
  | enter | recheck | waitsDone | passesDone | returns | resets | destroys => exact at_

end At
end Incredis.Batch
