import Incredis.ForwardList
import Incredis.Reply

/-! The slots of a batch: a forward list, the place where the next slot goes, and
a count kept by hand. -/
namespace Incredis

abbrev ReplyPtr := ForwardList.Iterator

/-- `SizedRange`: the elements between two iterators and a size told apart. -/
structure SizedRange where
  elements : List Reply
  size : Nat

structure ReplyList where
  replies : ForwardList Reply := {}
  nextIterator : ReplyPtr := .beforeBegin
  size : Nat := 0
deriving Repr

namespace ReplyList

/-- `none` is undefined behaviour of `emplace_after`. -/
def add (l : ReplyList) : Option (ReplyList × ReplyPtr) :=
  (l.replies.emplaceAfter l.nextIterator default).map fun (replies, position) =>
    (⟨replies, position, l.size + 1⟩, position)

def clear (l : ReplyList) : ReplyList :=
  let replies := l.replies.clear
  ⟨replies, replies.begin, 0⟩

/-- The callback's `*reply_ptr = reply`. -/
def write (l : ReplyList) (replyPtr : ReplyPtr) (reply : Reply) : ReplyList :=
  { l with replies := l.replies.write replyPtr reply }

def values (l : ReplyList) : List Reply := l.replies.values

def range (l : ReplyList) : SizedRange := ⟨l.values, l.size⟩

/-- A list that has only been added to, `n` times. -/
structure Filled (l : ReplyList) (n : Nat) : Prop where
  appended : l.replies.Appended n
  next : l.nextIterator = ForwardList.lastOf n
  size : l.size = n

namespace Filled
variable {l : ReplyList} {n : Nat}

theorem empty : Filled {} 0 := ⟨.empty, rfl, rfl⟩

theorem length (filled : Filled l n) : l.values.length = n := filled.appended.length

theorem add (filled : Filled l n) :
    ∃ next, l.add = some (next, .node n) ∧ Filled next (n + 1) ∧
      next.values = l.values ++ [default] := by
  obtain ⟨replies, emplaced, appended, values⟩ := filled.appended.emplace (default : Reply)
  refine ⟨⟨replies, .node n, n + 1⟩, ?_, ⟨appended, rfl, rfl⟩, values⟩
  simp only [ReplyList.add, filled.next, emplaced, Option.map_some, filled.size]

theorem write (filled : Filled l n) (replyPtr : ReplyPtr) (reply : Reply) :
    Filled (l.write replyPtr reply) n :=
  ⟨filled.appended.write replyPtr reply, filled.next, filled.size⟩

theorem write_values (filled : Filled l n) (k : Nat) (reply : Reply) :
    (l.write (.node k) reply).values = l.values.set k reply :=
  filled.appended.write_values k reply

end Filled
end ReplyList
end Incredis
