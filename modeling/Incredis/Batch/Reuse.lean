import Incredis.Batch.Effect
import Incredis.ReplyHistory

/-! The reply list of a batch over the life of the batch. `reset` clears it, and the next
`run` is the last thing that has a meaning. -/
namespace Incredis.Batch
variable {B : Type} [DecidableEq B] {limit : Int}

/-- Whatever happens to a batch is a history of its reply list. -/
theorem replies_history {ok : State B → B × Action → Prop} {s : State B}
    (run : Transition.Reaches (machine B limit) ok s) (b : B) :
    ∃ ops slots, ReplyList.after ops = some ((s.part b).replies, slots) := by
  refine Family.each_invariant
    (P := fun _ d => ∃ ops slots, ReplyList.after ops = some (d.replies, slots))
    (fun _ => ⟨[], [], rfl⟩) ?_ run b
  rintro s b a next after ⟨ops, slots, reached⟩ _ moved
  have perform (op : ReplyList.Op) {replies : ReplyList} {later : ReplyList.Slots}
      (performed : ReplyList.perform ((s.part b).replies, slots) op = some (replies, later)) :
      ∃ ops slots, ReplyList.after ops = some (replies, slots) :=
    ⟨ops ++ [op], later, by rw [ReplyList.after_append, reached, Option.bind_some, performed]⟩
  cases step_effect moved with
  | add found phase added =>
    apply perform .add
    rw [ReplyList.perform, added, Option.map_some]
  | @store k cmd found phase =>
    simp only [LocalData.put_replies, LocalData.storeReply]
    split
    · exact perform (.write _ _) rfl
    · exact ⟨ops, slots, reached⟩
  | resets | destroys => exact perform .clear rfl
  | _ => exact ⟨ops, slots, reached⟩

theorem reset_cleared {s t : State B} {b : B} (at_ : (s.part b).client = .returning .reset)
    (stepped : (machine B limit).step s (b, .leave) = some t) :
    (t.part b).replies.Cleared := by
  obtain ⟨next, after, moved, rfl⟩ := Family.step_eq_some.mp stepped
  simp only [Function.update_self]
  cases step_effect moved with
  | returns other | destroys other => simp [at_] at other
  | resets => exact ReplyList.clear_cleared _

/-- A batch that has been reset never gets another slot. -/
theorem cleared_step {s t : State B} {b c : B} {a : Action} (cleared : (s.part b).replies.Cleared)
    (stepped : (machine B limit).step s (c, a) = some t) :
    (t.part b).replies.Cleared ∧ ∀ k, (c, a) ≠ (b, .add k) := by
  obtain ⟨next, after, moved, rfl⟩ := Family.step_eq_some.mp stepped
  by_cases same : b = c
  · subst same
    simp only [Function.update_self]
    cases step_effect moved with
    | add found phase added =>
      rw [cleared.add] at added
      contradiction
    | @store k cmd found phase =>
      refine ⟨?_, by simp⟩
      simp only [LocalData.put_replies, LocalData.storeReply]
      split
      · exact cleared.perform [] (.write _ _) rfl
      · exact cleared
    | resets | destroys => exact ⟨ReplyList.clear_cleared _, by simp⟩
    | _ => exact ⟨cleared, by simp⟩
  · simp only [ne_eq, same, not_false_eq_true, Function.update_of_ne]
    exact ⟨cleared, fun k equal => same (congrArg Prod.fst equal).symm⟩

end Incredis.Batch
