import Incredis.ReplyList
import Incredis.Transition
import Mathlib.Data.List.Induction

/-! A `ReplyList` over its whole history. `clear` does not put the insertion point back to
where the constructor puts it. -/
namespace Incredis.ReplyList

/-- `write` is the callback's store through an iterator. -/
inductive Op
  | add
  | write (replyPtr : ReplyPtr) (reply : Reply)
  | clear

/-- The iterators that `add` has returned since the last `clear`, in that order, each with
what was last written through it. -/
abbrev Slots := List (ReplyPtr × Reply)

def perform (state : ReplyList × Slots) : Op → Option (ReplyList × Slots)
  | .add => state.1.add.map fun (l, replyPtr) => (l, state.2 ++ [(replyPtr, default)])
  | .write replyPtr reply => some (state.1.write replyPtr reply,
      state.2.map fun slot => if slot.1 = replyPtr then (replyPtr, reply) else slot)
  | .clear => some (state.1.clear, [])

/-- `none` as soon as the behaviour is undefined. -/
def after (ops : List Op) : Option (ReplyList × Slots) := ops.foldlM perform ({}, [])

/-- The list holds exactly these slots and the next one goes behind the last of them. -/
structure Represents (l : ReplyList) (slots : Slots) : Prop where
  nextIterator : l.nextIterator = (slots.getLast?.map Prod.fst).getD .beforeBegin
  replies : l.replies.items = slots
  distinct : (slots.map Prod.fst).Nodup
  size : l.size = slots.length

/-- The history has a defined outcome, and the list is in order after it. -/
def Reusable (ops : List Op) : Prop :=
  ∃ l slots, after ops = some (l, slots) ∧ Represents l slots

/-- What `clear` leaves: the insertion point behind the end of an empty list. -/
structure Cleared (l : ReplyList) : Prop where
  nextIterator : l.nextIterator = .finish
  replies : l.replies.nodes = []

theorem after_append (ops : List Op) (op : Op) :
    after (ops ++ [op]) = (after ops).bind fun state => perform state op := by
  simp only [after, List.foldlM_append, List.foldlM_cons, List.foldlM_nil, Option.bind_eq_bind]
  congr 1
  funext state
  cases perform state op <;> rfl

section
variable {l next : ReplyList} {slots later : Slots}

theorem Represents.last (represents : Represents l slots) : l.nextIterator = l.replies.last := by
  rw [ForwardList.last, represents.replies, represents.nextIterator]

theorem Represents.perform (represents : Represents l slots) (distinct : l.replies.Distinct)
    (op : Op) (kept : op ≠ .clear) : ∃ next later, ReplyList.perform (l, slots) op = some (next, later) ∧
      Represents next later ∧ next.replies.Distinct := by
  cases op with
  | clear => contradiction
  | add =>
    have added : l.add = some (⟨⟨l.replies.nodes ++ [(l.replies.fresh, default)],
        l.replies.fresh + 1⟩, .node l.replies.fresh, l.size + 1⟩, .node l.replies.fresh) := by
      rw [ReplyList.add, represents.last, distinct.emplaceAfter_last, Option.map_some]
    have grown := distinct.append (default : Reply)
    have replies : ForwardList.items ⟨l.replies.nodes ++ [(l.replies.fresh, (default : Reply))],
        l.replies.fresh + 1⟩ = slots ++ [(.node l.replies.fresh, default)] := by
      rw [← represents.replies]
      simp only [ForwardList.items, List.map_append, List.map_cons, List.map_nil]
    refine ⟨_, _, by rw [ReplyList.perform, added, Option.map_some], ⟨?_, replies, ?_, ?_⟩, grown⟩
    · simp
    · rw [← replies]
      exact grown.nodup_items
    · simp [represents.size]
  | write replyPtr reply =>
    have positions : (slots.map fun slot =>
        if slot.1 = replyPtr then (replyPtr, reply) else slot).map Prod.fst =
          slots.map Prod.fst := by
      rw [List.map_map]
      apply List.map_congr_left
      intro slot _
      by_cases same : slot.1 = replyPtr <;> simp [same]
    refine ⟨_, _, rfl, ⟨?_, ?_, ?_, ?_⟩, distinct.write replyPtr reply⟩
    · have lastOf := congrArg List.getLast? positions
      simp only [List.getLast?_map] at lastOf ⊢
      rw [lastOf]
      exact represents.nextIterator
    · rw [ReplyList.write, ForwardList.write_items, represents.replies]
    · rw [positions]
      exact represents.distinct
    · rw [List.length_map]
      exact represents.size

theorem clear_cleared (l : ReplyList) : Cleared l.clear := ⟨rfl, rfl⟩

/-- After a `clear` nothing but another `clear` is of any use. -/
theorem Cleared.perform (cleared : Cleared l) (slots : Slots) (op : Op)
    (performed : ReplyList.perform (l, slots) op = some (next, later)) : Cleared next := by
  cases op with
  | add => simp [ReplyList.perform, ReplyList.add, cleared.nextIterator, ForwardList.emplaceAfter]
      at performed
  | write replyPtr reply =>
    cases performed
    refine ⟨cleared.nextIterator, ?_⟩
    cases replyPtr <;> simp [ReplyList.write, ForwardList.write, cleared.replies]
  | clear =>
    cases performed
    exact clear_cleared l

theorem Cleared.not_represents (cleared : Cleared l) : ¬ Represents l slots := by
  intro represents
  have last := represents.last
  rw [cleared.nextIterator, ForwardList.last] at last
  simp [ForwardList.items, cleared.replies] at last

theorem Cleared.add (cleared : Cleared l) : l.add = none := by
  rw [ReplyList.add, cleared.nextIterator, ForwardList.emplaceAfter, Option.map_none]

end

theorem represents_of_no_clear {ops : List Op} (kept : .clear ∉ ops) :
    ∃ l slots, after ops = some (l, slots) ∧ Represents l slots ∧ l.replies.Distinct := by
  induction ops using List.reverseRecOn with
  | nil => exact ⟨_, _, rfl, ⟨rfl, rfl, List.nodup_nil, rfl⟩, .empty⟩
  | append_singleton ops op ih =>
    simp only [List.mem_append, List.mem_singleton, not_or] at kept
    obtain ⟨l, slots, reached, represents, distinct⟩ := ih kept.1
    obtain ⟨next, later, performed, grown⟩ := represents.perform distinct op (Ne.symm kept.2)
    exact ⟨next, later, by rw [after_append, reached, Option.bind_some, performed], grown⟩

theorem cleared_of_clear {ops : List Op} {l : ReplyList} {slots : Slots} (cleared : .clear ∈ ops)
    (reached : after ops = some (l, slots)) : Cleared l := by
  induction ops using List.reverseRecOn generalizing l slots with
  | nil => contradiction
  | append_singleton ops op ih =>
    rw [after_append, Option.bind_eq_some_iff] at reached
    obtain ⟨⟨before, known⟩, reached, performed⟩ := reached
    rcases List.mem_append.mp cleared with earlier | last
    · exact (ih earlier reached).perform known op performed
    · rw [← List.mem_singleton.mp last] at performed
      cases performed
      exact clear_cleared before

/-- A reply list is in order after a history exactly if that contains no `clear`. -/
theorem reusable_iff (ops : List Op) : Reusable ops ↔ .clear ∉ ops := by
  constructor
  · rintro ⟨l, slots, reached, represents⟩ cleared
    exact (cleared_of_clear cleared reached).not_represents represents
  · intro kept
    obtain ⟨l, slots, reached, represents, _⟩ := represents_of_no_clear kept
    exact ⟨l, slots, reached, represents⟩

/-- The behaviour is undefined from the first `add` on that follows a `clear`. -/
theorem after_eq_none_iff (ops : List Op) : after ops = none ↔ [Op.clear, .add].Sublist ops := by
  induction ops using List.reverseRecOn with
  | nil => simp [after]
  | append_singleton ops op ih =>
    rw [after_append, Transition.pair_sublist_concat, ← ih]
    cases reached : after ops with
    | none => simp
    | some state =>
      obtain ⟨l, slots⟩ := state
      simp only [Option.bind_some, reduceCtorEq, false_or]
      by_cases cleared : .clear ∈ ops
      · have undefined_ := (cleared_of_clear cleared reached).add
        cases op <;> simp [perform, undefined_, cleared]
      · obtain ⟨_, _, same, represents, distinct⟩ := represents_of_no_clear cleared
        cases reached.symm.trans same
        cases op with
        | add =>
          obtain ⟨next, later, performed, _⟩ := represents.perform distinct .add (by simp)
          simp [performed, cleared]
        | write | clear => simp [perform, cleared]

/-- `reset()`, then another `run`. -/
theorem not_reusable : ¬ ∀ ops, Reusable ops := by
  intro reusable
  obtain ⟨l, slots, reached, _⟩ := reusable [.add, .clear, .add]
  have undefined_ : after [.add, .clear, .add] = none := rfl
  rw [undefined_] at reached
  contradiction

end Incredis.ReplyList
