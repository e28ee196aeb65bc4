import Incredis.Batch.Counters
import Incredis.Batch.Drain
import Mathlib.Data.Fintype.Basic

/-! The window of unanswered commands. A sender that finds it full sleeps on the
`free_cmd_slot` of its own batch, and the callback that takes `pending_futures`
from the limit to below it wakes one sender of the batch of *its* command. -/
namespace Incredis.Batch
open CondVar (Waiter)
variable {B : Type} [DecidableEq B] {limit : Int}

/-- A sender blocked at the limit although hiredis has nothing left to answer:
every callback has completed, so no notification is to come. -/
def SenderStranded (s : State B) : Prop :=
  (∃ b k, (s.part b).At k (.waiting .blocked)) ∧
  ∀ (b : B) (k : Nat) (cmd : Cmd), (s.part b).commands[k]? = some cmd →
    cmd.phase ≠ .inFlight ∧ cmd.phase.inCallback = false

/-- The sender of command `k` has found the window full and has not been notified. -/
def Asleep (d : LocalData) (k : Nat) : Prop :=
  ∃ cmd : Cmd, d.commands[k]? = some cmd ∧ cmd.phase.asleep = true

section Step
variable {pending next : Int} {d after : LocalData} {a : Action} {j k : Nat}

theorem Asleep.put {new : Cmd} (asleep : Asleep (d.put k new) j) (awake : new.phase.asleep = false) :
    Asleep d j ∧ j ≠ k := by
  obtain ⟨cmd, found, sleeps⟩ := asleep
  rcases LocalData.put_lookup found with ⟨_, rfl⟩ | ⟨different, old⟩
  · simp [awake] at sleeps
  · exact ⟨⟨cmd, old, sleeps⟩, different⟩

/-- A sender falls asleep only by a failed test, and the one that a notification
picks is asleep no more. -/
theorem asleep_step (effect : Effect limit pending d a next after) (asleep : Asleep after j) :
    (Asleep d j ∧ ∀ k, a ≠ .notifySlot k (some j)) ∨
      a = .wait j ∧ pending ≥ limit ∧ d.At j (.waiting .testing) := by
  cases effect with
  | run argv =>
    obtain ⟨cmd, found, sleeps⟩ := asleep
    rcases LocalData.append_lookup found with ⟨_, rfl⟩ | old
    · simp [Phase.asleep] at sleeps
    · exact .inl ⟨⟨cmd, old, sleeps⟩, by simp⟩
  | @waits k cmd waiter next found phase moved =>
    obtain ⟨other, lookup, sleeps⟩ := asleep
    rcases LocalData.put_lookup lookup with ⟨rfl, rfl⟩ | ⟨_, old⟩
    · rcases Waiter.advance_asleep moved (by simpa [Phase.asleep] using sleeps) with
        slept | ⟨rfl, full⟩
      · exact .inl ⟨⟨cmd, found, by simpa [phase, Phase.asleep] using slept⟩, by simp⟩
      · exact .inr ⟨rfl, by simpa using full, cmd, found, phase⟩
    · exact .inl ⟨⟨other, old, sleeps⟩, by simp⟩
  | count found phase | callback parReply found phase | submit accepted found phase
  | release found phase =>
    exact .inl ⟨(Asleep.put asleep (by simp only; split <;> rfl)).1, by simp⟩
  | wakes found phase sleeping blocked distinct =>
    obtain ⟨before, _⟩ := Asleep.put asleep rfl
    obtain ⟨old, different⟩ := Asleep.put before rfl
    exact .inl ⟨old, fun k same => by cases same; exact different rfl⟩
  | store =>
    obtain ⟨cmd, old, sleeps⟩ := (Asleep.put asleep rfl).1
    exact .inl ⟨⟨cmd, by simpa using old, sleeps⟩, by simp⟩
  | passes | add | wakesNone | notifyDone =>
    exact .inl ⟨(Asleep.put asleep rfl).1, by simp⟩
  | enter | recheck | waitsDone | passesDone | returns | resets | destroys =>
    exact .inl ⟨asleep, by simp⟩

/-- Only a callback lowers `pending_futures`, and the one that takes it below the
limit is about to notify. -/
theorem room_step (effect : Effect limit pending d a next after) (room : next < limit) :
    pending < limit ∨ ∃ k, after.At k .notifySlot := by
  cases effect with
  | @callback k cmd parReply found phase =>
    by_cases full : pending = limit
    · obtain ⟨bound, _⟩ := List.getElem?_eq_some_iff.mp found
      exact .inr ⟨k, _, List.getElem?_set_self bound, by simp [full]⟩
    · exact .inl (by omega)
  | count => exact .inl (by omega)
  | _ => exact .inl room

end Step

/-- The commands counted in `pending_futures` that hiredis has nothing to answer
for: their senders have not handed them over, or they were rejected. -/
def held [Fintype B] (s : State B) : Int := ∑ b, tally Phase.held (s.part b).commands

/-- What has to hold of a step: a notification issued while there is room is heard
by the only sender that needs it, and nobody starts to wait, or is counted while
somebody waits, when the held commands alone would fill the window. -/
def Orderly [Fintype B] (limit : Int) (s : State B) : B × Action → Prop
  | (b, .notifySlot _ woken) => s.pendingFutures < limit →
    ∀ c j, Asleep (s.part c) j → c = b ∧ woken = some j
  | (_, .count _) => (∃ c j, Asleep (s.part c) j) → held s + 1 < limit
  | (b, .wait k) => s.pendingFutures ≥ limit →
    (s.part b).At k (.waiting .testing) → held s < limit
  | _ => True

/-- As long as a sender sleeps, either the window is full or a callback is about to
notify. -/
def Watched (limit : Int) (s : State B) : Prop :=
  (∃ c j, Asleep (s.part c) j) → s.pendingFutures ≥ limit ∨ ∃ c k, (s.part c).At k .notifySlot

section Runs
variable [Fintype B] {s t : State B}

omit [Fintype B] in
/-- `asleep_step` for the sender of any batch. -/
theorem asleep_machine {b c : B} {a : Action} {j : Nat}
    (stepped : (machine B limit).step s (b, a) = some t) (asleep : Asleep (t.part c) j) :
    (Asleep (s.part c) j ∧ ∀ k, c = b → a ≠ .notifySlot k (some j)) ∨
      a = .wait j ∧ s.pendingFutures ≥ limit ∧ (s.part b).At j (.waiting .testing) := by
  obtain ⟨next, after, moved, rfl⟩ := Family.step_eq_some.mp stepped
  by_cases same : c = b
  · subst same
    simp only [Function.update_self] at asleep
    rcases asleep_step (step_effect moved) asleep with ⟨slept, other⟩ | ⟨waits, full, testing⟩
    · exact .inl ⟨slept, fun k _ => other k⟩
    · exact .inr ⟨waits, full, testing⟩
  · simp only [ne_eq, same, not_false_eq_true, Function.update_of_ne] at asleep
    exact .inl ⟨asleep, fun _ h => absurd h same⟩

theorem watched_step {label : B × Action} (stepped : (machine B limit).step s label = some t)
    (orderly : Orderly limit s label) (watched : Watched limit s) : Watched limit t := by
  obtain ⟨b, a⟩ := label
  rintro ⟨c, j, asleep⟩
  have before := asleep_machine stepped asleep
  obtain ⟨next, after, moved, rfl⟩ := Family.step_eq_some.mp stepped
  have effect := step_effect moved
  by_cases full : next ≥ limit
  · exact .inl full
  have notifying {k : Nat} (announced : after.At k .notifySlot) :
      ∃ c k, (Function.update s.part b after c).At k .notifySlot :=
    ⟨b, k, by simpa only [Function.update_self] using announced⟩
  rcases room_step effect (Int.not_le.mp full) with room | ⟨k, announced⟩
  swap
  · exact .inr (notifying announced)
  -- the sender slept before, with room in the window, so a notification was coming
  obtain ⟨slept, other⟩ := before.resolve_right fun h => Int.not_lt.mpr h.2.1 room
  rcases watched ⟨c, j, slept⟩ with wasFull | ⟨e, k, announced⟩
  · exact absurd room (Int.not_lt.mpr wasFull)
  by_cases same : e = b
  · subst same
    refine .inr (notifying (notifying_step effect announced rfl ?_ ?_))
    · rintro woken rfl
      obtain ⟨rfl, rfl⟩ := orderly room c j slept
      exact other k rfl rfl
    · rintro rfl
      cases effect with
      | notifyDone found phase => exact announced.ne found (by simp [phase]) rfl
  · exact .inr ⟨e, k, by simpa only [ne_eq, same, not_false_eq_true, Function.update_of_ne]
      using announced⟩

/-- While a sender sleeps, the held commands alone do not fill the window. -/
def Spare (limit : Int) (s : State B) : Prop :=
  (∃ c j, Asleep (s.part c) j) → held s < limit

/-- Counting a command is the only step that adds to the held ones. -/
theorem held_step {pending next : Int} {d after : LocalData} {a : Action}
    (effect : Effect limit pending d a next after) :
    tally Phase.held after.commands ≤ tally Phase.held d.commands ∨
      (∃ k, a = .count k) ∧
        tally Phase.held after.commands = tally Phase.held d.commands + 1 := by
  cases effect with
  | @count k cmd found phase =>
    refine .inr ⟨⟨k, rfl⟩, ?_⟩
    simp only [LocalData.put_commands, tally_set found, phase]
    split <;> simp [Phase.held]
  | wakes found phase sleeping blocked distinct =>
    simp [tally_wake sleeping found distinct, phase, blocked, Phase.held]
  | submit _ found phase | callback _ found phase | release found phase =>
    simp only [LocalData.put_commands, tally_set found, phase]
    split <;> simp [Phase.held]
  | waits found phase | passes found phase | add found phase | wakesNone found phase
  | store found phase | notifyDone found phase =>
    simp [tally_set found, phase, Phase.held]
  | run | enter | recheck | waitsDone | passesDone | returns | resets | destroys =>
    simp [Phase.held]

theorem spare_step {label : B × Action} (stepped : (machine B limit).step s label = some t)
    (orderly : Orderly limit s label) (spare : Spare limit s) : Spare limit t := by
  obtain ⟨b, a⟩ := label
  rintro ⟨c, j, asleep⟩
  have before := asleep_machine stepped asleep
  obtain ⟨next, after, moved, rfl⟩ := Family.step_eq_some.mp stepped
  have total := Family.sum_update (fun d : LocalData => tally Phase.held d.commands) s.part b after
  have heldEq : held s = ∑ b, tally Phase.held (s.part b).commands := rfl
  simp only [held]
  rcases held_step (step_effect moved) with fewer | ⟨⟨k, rfl⟩, oneMore⟩
  · rcases before with ⟨slept, _⟩ | ⟨rfl, full, testing⟩
    · have := spare ⟨c, j, slept⟩
      omega
    · have : held s < limit := orderly full testing
      omega
  · obtain ⟨slept, _⟩ := before.resolve_right (by simp)
    have : held s + 1 < limit := orderly ⟨c, j, slept⟩
    omega

theorem counted_eq_held {commands : List Cmd}
    (landed : ∀ (k : Nat) (cmd : Cmd), commands[k]? = some cmd → cmd.phase ≠ .inFlight) :
    tally Phase.counted commands = tally Phase.held commands := by
  simp only [tally, Int.natCast_inj]
  apply List.countP_congr
  intro cmd member
  obtain ⟨k, bound, rfl⟩ := List.mem_iff_getElem.mp member
  have := landed k _ (List.getElem?_eq_getElem bound)
  cases phase : commands[k].phase <;> simp_all [Phase.counted, Phase.held]

/-- In an orderly run no sender is ever left behind at the limit. -/
theorem sender_not_stranded (run : Transition.Reaches (machine B limit) (Orderly limit) s) :
    ¬ SenderStranded s := by
  have watched : Watched limit s := run.invariant (by rintro ⟨c, j, cmd, found, _⟩; cases found)
    (fun holds orderly stepped => watched_step stepped orderly holds)
  have spare : Spare limit s := run.invariant (by rintro ⟨c, j, cmd, found, _⟩; cases found)
    (fun holds orderly stepped => spare_step stepped orderly holds)
  rintro ⟨⟨b, k, cmd, found, blocked⟩, landed⟩
  have asleep : ∃ c j, Asleep (s.part c) j := ⟨b, k, cmd, found, by rw [blocked]; rfl⟩
  rcases watched asleep with full | ⟨c, j, callback, lookup, notifying⟩
  · have counted : s.pendingFutures = held s := by
      rw [shared_exact run, held]
      exact Finset.sum_congr rfl fun c _ => counted_eq_held fun j cmd lookup =>
        (landed c j cmd lookup).1
    have := spare asleep
    omega
  · have := (landed c j callback lookup).2
    simp [notifying, Phase.inCallback] at this

end Runs

/-- A window of two: the third sender blocks and is woken by the second callback. -/
theorem sender_not_stranded_woken : ∃ s : State Unit,
    (s.part ()).commands.length = 3 ∧ ¬ SenderStranded s := by
  have awake {s : State Unit}
      (phases : ((s.part ()).commands.any fun cmd => cmd.phase.asleep) = false) :
      ¬ ∃ c j, Asleep (s.part c) j := by
    rintro ⟨_, j, cmd, found, sleeps⟩
    exact List.any_eq_false.mp phases cmd (List.mem_of_getElem? found) sleeps
  have filled := (Transition.initially (machine Unit 2) (Orderly 2))
    |>.next (a := ((), .run ["GET", "a"])) (by trivial) rfl
    |>.next (a := ((), .count 0)) (by exact fun some => absurd some (awake rfl)) rfl
    |>.next (a := ((), .add 0)) (by trivial) rfl
    |>.next (a := ((), .submit 0 true)) (by trivial) rfl
    |>.next (a := ((), .run ["GET", "b"])) (by trivial) rfl
    |>.next (a := ((), .count 1)) (by exact fun some => absurd some (awake rfl)) rfl
    |>.next (a := ((), .add 1)) (by trivial) rfl
    |>.next (a := ((), .submit 1 true)) (by trivial) rfl
  have blocked := filled
    |>.next (a := ((), .run ["GET", "c"])) (by trivial) rfl
    |>.next (a := ((), .count 2)) (by exact fun some => absurd some (awake rfl)) rfl
    |>.next (a := ((), .wait 2)) (by exact fun _ _ => by decide) rfl
    |>.next (a := ((), .wait 2)) (by exact fun _ _ => by decide) rfl
    |>.next (a := ((), .wait 2)) (by exact fun _ _ => by decide) rfl
  have woken := blocked
    |>.next (a := ((), .callback 0 (some .nil))) (by trivial) rfl
    |>.next (a := ((), .store 0)) (by trivial) rfl
    |>.next (a := ((), .release 0)) (by trivial) rfl
    |>.next (a := ((), .callback 1 (some .nil))) (by trivial) rfl
    |>.next (a := ((), .notifySlot 1 (some 2)))
      (by
        rintro _ _ (_ | _ | _ | j) ⟨cmd, found, sleeps⟩ <;> cases found
        · contradiction
        · contradiction
        · exact ⟨rfl, rfl⟩) rfl
    |>.next (a := ((), .wait 2)) (by exact fun _ _ => by decide) rfl
  exact ⟨_, rfl, sender_not_stranded woken⟩

/-- While one batch has filled the window, a sender of another batch blocks. The
callback that makes room looks for a sender of the first batch. -/
theorem other_batch_strands (limit : Nat) : ∃ s : State Bool,
    Transition.Reaches (machine Bool limit) Transition.always s ∧ SenderStranded s := by
  obtain ⟨outstanding, fills, _, length, inFlight, _⟩ := fill (le_refl (limit : Int))
  have full := Family.run_alone (i := false) (.start (m := machine Bool limit)) fills
  have waiting := Family.run_alone (i := true) full (block (le_refl _))
  obtain ⟨pending, answered, drains, finished⟩ := drain limit ((limit : Int) + 1)
    fun cmd member => .inl (inFlight cmd member)
  have drained := Family.run_alone (i := false) waiting drains
  refine ⟨_, drained, ⟨true, 0, _, rfl, rfl⟩, ?_⟩
  rintro (_ | _) k cmd found
  · have := finished cmd (List.mem_of_getElem? found)
    simp [this, Phase.inCallback]
  · have member : cmd ∈ (oneSender .blocked).commands := List.mem_of_getElem? found
    rw [List.mem_singleton.mp member]
    exact ⟨by simp, rfl⟩

theorem sender_stranded : ¬ ∀ s : State Bool,
    Transition.Reaches (machine Bool maxRedisUnansweredCommands) Transition.always s →
      ¬ SenderStranded s := by
  intro never
  obtain ⟨s, run, stranded⟩ := other_batch_strands 1000
  exact never s run stranded

end Incredis.Batch
