import Incredis.Batch.Counters

/-! The wait of `replies()`: it ends when `local_pending_futures` is zero, and the
callback that takes the counter there notifies in a step of its own, without the
mutex of the waiter. -/
namespace Incredis.Batch
open CondVar (Covered Missed Stranded)
variable {B : Type} [DecidableEq B] {limit : Int}

/-- A callback has taken the counter to zero and is about to say so. -/
def LocalData.AnnouncesDone (d : LocalData) : Prop := ∃ k, d.At k .notifyDone

/-- The client is blocked in `replies()`, `reset()` or the destructor although no
command of its batch is pending, and nothing will wake it. -/
def ClientStranded (d : LocalData) : Prop :=
  ∃ purpose waiter, d.client = .waiting purpose waiter ∧
    Stranded waiter (d.localPendingFutures = 0) d.AnnouncesDone

/-- What has to hold of a step: the notification does not fall between the failed
test of the client and the moment it blocks. -/
def Heard (s : State B) : B × Action → Prop
  | (b, .notifyDone _) => ∀ purpose waiter, (s.part b).client = .waiting purpose waiter →
    ¬ Missed waiter ((s.part b).localPendingFutures = 0)
  | _ => True

/-- A client asleep in `replies()` still has something to wait for. -/
def ClientCovered (d : LocalData) : Prop :=
  ∀ purpose waiter, d.client = .waiting purpose waiter →
    Covered waiter (d.localPendingFutures = 0) d.AnnouncesDone

section Step
variable {pending next : Int} {d after : LocalData} {a : Action}

theorem announces_step (effect : Effect limit pending d a next after) (done : ∀ k, a ≠ .notifyDone k)
    (announces : d.AnnouncesDone) : after.AnnouncesDone := by
  obtain ⟨k, at_⟩ := announces
  by_cases slot : ∃ woken, a = .notifySlot k woken
  · obtain ⟨woken, rfl⟩ := slot
    cases effect with
    | wakes found phase | wakesNone found phase => exact absurd rfl (at_.ne found (by simp [phase]))
  · exact ⟨k, notifying_step effect at_ rfl (fun woken same => slot ⟨woken, same⟩) (done k)⟩

theorem covered_step (effect : Effect limit pending d a next after)
    (exact_ : d.localPendingFutures = tally Phase.localCounted d.commands)
    (heard : ∀ k, a = .notifyDone k → ∀ purpose waiter, d.client = .waiting purpose waiter →
      ¬ Missed waiter (d.localPendingFutures = 0))
    (covered : ClientCovered d) : ClientCovered after := by
  have announces := announces_step effect
  intro purpose waiter at_
  cases effect with
  | run argv =>
    have := tally_nonneg Phase.localCounted d.commands
    exact fun _ => .inl (by simp only; omega)
  | @release k cmd found phase =>
    by_cases last : d.localPendingFutures = 1
    · obtain ⟨bound, _⟩ := List.getElem?_eq_some_iff.mp found
      exact .announced ⟨k, _, List.getElem?_set_self bound, by simp [last]⟩
    · exact fun _ => .inl (by simp only; omega)
  | @notifyDone k cmd found phase =>
    cases client : d.client with
    | waiting purpose' before =>
      simp only [client, Client.notify, Client.waiting.injEq] at at_
      obtain ⟨rfl, rfl⟩ := at_
      exact .notify (heard k rfl _ _ client)
    | _ => simp [client, Client.notify] at at_
  | @waitsDone purpose' before next client moved =>
    cases at_
    exact (covered _ _ client).advance moved of_decide_eq_false
  | enter =>
    simp only at at_
    split at at_ <;> contradiction
  | recheck =>
    simp only at at_
    split at at_
    · cases at_
      exact .awake rfl
    · contradiction
  | passesDone | returns | resets | destroys => contradiction
  | store =>
    have kept := announces (by simp)
    exact (covered purpose waiter (by simpa using at_)).mono (by simp) kept
  | count | waits | passes | add | submit | callback | wakes | wakesNone =>
    exact (covered purpose waiter at_).mono id (announces (by simp))

end Step

/-- The other batches may leave their notifications unheard. -/
theorem client_covered {s : State B} {ok : State B → B × Action → Prop}
    (run : Transition.Reaches (machine B limit) ok s) (b : B)
    (heard : ∀ s a, ok s (b, a) → Heard s (b, a)) : ClientCovered (s.part b) := by
  refine (Family.part_invariant
    (P := fun d => d.localPendingFutures = tally Phase.localCounted d.commands ∧ ClientCovered d)
    ⟨rfl, by rintro _ _ ⟨⟩⟩ ?_ run).2
  rintro s a next after ⟨exact_, covered⟩ allowed moved
  have effect := step_effect moved
  refine ⟨local_step effect exact_, covered_step effect exact_ ?_ covered⟩
  rintro k rfl
  exact heard s _ allowed

theorem client_not_stranded {s : State B} (run : Transition.Reaches (machine B limit) Heard s)
    (b : B) : ¬ ClientStranded (s.part b) := by
  rintro ⟨purpose, waiter, at_, stranded⟩
  exact (client_covered run b (fun _ _ => id) purpose waiter at_).not_stranded stranded

/-- A last notification that the client does not hear is the last it would get. -/
theorem unheard_strands {s t : State B} {b : B} {k : Nat}
    (stepped : (machine B limit).step s (b, .notifyDone k) = some t)
    (alone : ∀ j, (s.part b).At j .notifyDone → j = k)
    (unheard : ¬ Heard s (b, .notifyDone k)) :
    ∃ u, (machine B limit).step t (b, .waitDone) = some u ∧ ClientStranded (u.part b) := by
  simp only [Heard, not_forall, not_not, exists_prop] at unheard
  obtain ⟨purpose, waiter, at_, missed⟩ := unheard
  obtain ⟨next, after, moved, rfl⟩ := Family.step_eq_some.mp stepped
  have effect := step_effect moved
  cases effect with
  | @notifyDone _ cmd found phase =>
    let woken : LocalData := { (s.part b).put k { cmd with phase := .finished } with
      client := (s.part b).client.notify }
    have quiet : ¬ woken.AnnouncesDone := by
      rintro ⟨j, other, lookup, phase⟩
      rcases LocalData.put_lookup lookup with ⟨_, rfl⟩ | ⟨different, old⟩
      · contradiction
      · exact different (alone j ⟨other, old, phase⟩)
    obtain ⟨advanced, stranded⟩ := missed.strands quiet (woken.localPendingFutures = 0)
    have client : woken.client = .waiting purpose waiter.notify := by
      simp only [woken, at_, Client.notify]
    let asleep : LocalData := { woken with client := .waiting purpose .blocked }
    have waits : step limit s.shared woken .waitDone = some (s.shared, asleep) := by
      simp only [step, client, advanced, asleep]
    refine ⟨_, Family.step_eq_some.mpr ⟨s.shared, asleep, ?_, rfl⟩, purpose, .blocked, ?_, ?_⟩
    · simp only [Function.update_self]
      exact waits
    · simp only [Function.update_self, asleep]
    · simp only [Function.update_self]
      exact stranded

/-- The only callback of a batch notifies after the client has found the counter at
one and before it blocks. -/
theorem client_stranded : ∃ s : State Unit,
    Transition.Reaches (machine Unit maxRedisUnansweredCommands) Transition.always s ∧
      ClientStranded (s.part ()) := by
  have run := (Transition.initially (machine Unit maxRedisUnansweredCommands) Transition.always).exec
    [((), .run ["GET", "key"]), ((), .count 0), ((), .add 0), ((), .submit 0 true),
     ((), .callback 0 (some .nil)), ((), .store 0), ((), .enter .replies), ((), .recheck),
     ((), .waitDone), ((), .waitDone), ((), .release 0), ((), .notifyDone 0), ((), .waitDone)] rfl
  refine ⟨_, run, .replies, .blocked, rfl, rfl, rfl, ?_⟩
  rintro ⟨_ | k, cmd, found, phase⟩
  · cases found
    contradiction
  · contradiction

end Incredis.Batch
