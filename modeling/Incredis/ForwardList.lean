/-! A singly linked list with iterators. A node keeps its address for as long as
it is in the list, so an iterator goes on denoting the same node whatever is
inserted around it. -/

inductive ForwardList.Iterator
  | beforeBegin
  | node (address : Nat)
  | finish
deriving DecidableEq, Repr

/-- The nodes in list order, and the address the next node will get. -/
structure ForwardList (α : Type) where
  nodes : List (Nat × α) := []
  fresh : Nat := 0
deriving Repr

namespace ForwardList
variable {α : Type}

def values (l : ForwardList α) : List α := l.nodes.map Prod.snd

def addresses (l : ForwardList α) : List Nat := l.nodes.map Prod.fst

def begin (l : ForwardList α) : Iterator :=
  match l.nodes with
  | [] => .finish
  | (address, _) :: _ => .node address

/-- Inserting after the end, or after a node that is gone, is undefined. -/
def emplaceAfter (l : ForwardList α) (position : Iterator) (value : α) :
    Option (ForwardList α × Iterator) :=
  match position with
  | .beforeBegin => some (⟨(l.fresh, value) :: l.nodes, l.fresh + 1⟩, .node l.fresh)
  | .node address =>
    (insert address l.nodes).map fun nodes => (⟨nodes, l.fresh + 1⟩, .node l.fresh)
  | .finish => none
where
  insert (address : Nat) : List (Nat × α) → Option (List (Nat × α))
    | [] => none
    | head :: rest =>
      if head.1 = address then some (head :: (l.fresh, value) :: rest)
      else (insert address rest).map (head :: ·)

/-- Assignment through an iterator. -/
def write (l : ForwardList α) (position : Iterator) (value : α) : ForwardList α :=
  match position with
  | .node address =>
    { l with nodes := l.nodes.map fun item => if item.1 = address then (address, value) else item }
  | _ => l

def clear (l : ForwardList α) : ForwardList α := { l with nodes := [] }

@[simp] theorem write_fresh (l : ForwardList α) (position : Iterator) (value : α) :
    (l.write position value).fresh = l.fresh := by
  cases position <;> rfl

@[simp] theorem write_addresses (l : ForwardList α) (position : Iterator) (value : α) :
    (l.write position value).addresses = l.addresses := by
  cases position with
  | beforeBegin | finish => rfl
  | node address =>
    simp only [write, addresses, List.map_map]
    apply List.map_congr_left
    intro item _
    by_cases same : item.1 = address <;> simp [same]

theorem insert_last {l : ForwardList α} {value : α} {address : Nat} {front : List (Nat × α)}
    {last : α} (absent : address ∉ front.map Prod.fst) :
    emplaceAfter.insert l value address (front ++ [(address, last)]) =
      some (front ++ [(address, last), (l.fresh, value)]) := by
  induction front with
  | nil => simp [emplaceAfter.insert]
  | cons head rest ih =>
    simp only [List.map_cons, List.mem_cons, not_or] at absent
    have different : head.1 ≠ address := fun same => absent.1 same.symm
    simp only [List.cons_append, emplaceAfter.insert, if_neg different, ih absent.2, Option.map_some]

/-- The iterators into the list with what they denote. -/
def items (l : ForwardList α) : List (Iterator × α) := l.nodes.map fun item => (.node item.1, item.2)

theorem map_fst_items (l : ForwardList α) :
    l.items.map Prod.fst = l.addresses.map Iterator.node := by
  simp only [items, addresses, List.map_map]
  rfl

/-- The last node, or the place before the first. -/
def last (l : ForwardList α) : Iterator := ((l.items.getLast?).map Prod.fst).getD .beforeBegin

/-- No two nodes share an address, and the next one gets one of its own. -/
structure Distinct (l : ForwardList α) : Prop where
  nodup : l.addresses.Nodup
  fresh : ∀ address ∈ l.addresses, address < l.fresh

namespace Distinct
variable {l : ForwardList α}

theorem empty : Distinct ({} : ForwardList α) := ⟨List.nodup_nil, by rintro _ ⟨⟩⟩

theorem write (distinct : Distinct l) (position : Iterator) (value : α) :
    Distinct (l.write position value) := by
  constructor
  · rw [write_addresses]
    exact distinct.nodup
  · rw [write_addresses, write_fresh]
    exact distinct.fresh

theorem append (distinct : Distinct l) (value : α) :
    Distinct ⟨l.nodes ++ [(l.fresh, value)], l.fresh + 1⟩ := by
  have addresses : (⟨l.nodes ++ [(l.fresh, value)], l.fresh + 1⟩ : ForwardList α).addresses =
      l.addresses ++ [l.fresh] := by
    simp only [ForwardList.addresses, List.map_append, List.map_cons, List.map_nil]
  constructor
  · rw [addresses, List.nodup_append]
    refine ⟨distinct.nodup, by simp, ?_⟩
    intro address member other single
    rw [List.mem_singleton.mp single]
    exact Nat.ne_of_lt (distinct.fresh address member)
  · rw [addresses]
    intro address member
    rcases List.mem_append.mp member with old | new
    · exact Nat.lt_succ_of_lt (distinct.fresh address old)
    · rw [List.mem_singleton.mp new]
      exact Nat.lt_succ_self _

theorem nodup_items (distinct : Distinct l) : (l.items.map Prod.fst).Nodup := by
  rw [map_fst_items, List.Nodup, List.pairwise_map]
  exact distinct.nodup.imp fun different same => different (Iterator.node.inj same)

/-- Inserting after the last node appends, whatever was removed before. -/
theorem emplaceAfter_last (distinct : Distinct l) (value : α) :
    l.emplaceAfter l.last value =
      some (⟨l.nodes ++ [(l.fresh, value)], l.fresh + 1⟩, .node l.fresh) := by
  rcases List.eq_nil_or_concat l.nodes with none | ⟨front, ⟨address, final⟩, split⟩
  · simp [last, items, emplaceAfter, none]
  · rw [List.concat_eq_append] at split
    have absent : address ∉ front.map Prod.fst := by
      have nodup := distinct.nodup
      rw [ForwardList.addresses, split, List.map_append, List.nodup_append] at nodup
      exact fun member => nodup.2.2 address member address (by simp) rfl
    simp [last, items, emplaceAfter, split, insert_last absent]

end Distinct

theorem write_items (l : ForwardList α) (position : Iterator) (value : α) :
    (l.write position value).items =
      l.items.map fun item => if item.1 = position then (position, value) else item := by
  cases position with
  | beforeBegin | finish =>
    simp only [items, ForwardList.write, List.map_map]
    apply List.map_congr_left
    intro item _
    simp
  | node address =>
    simp only [items, ForwardList.write, List.map_map]
    apply List.map_congr_left
    intro item _
    by_cases same : item.1 = address <;> simp [same]

/-- A list to which nodes were only ever appended: the `n` nodes carry the
addresses `0` to `n - 1` in order, so an address is also a position. -/
structure Appended (l : ForwardList α) (n : Nat) : Prop where
  addresses : l.addresses = List.range n
  fresh : l.fresh = n

/-- The last node of such a list, or the place before the first. -/
def lastOf : Nat → Iterator
  | 0 => .beforeBegin
  | n + 1 => .node n

namespace Appended
variable {l : ForwardList α} {n : Nat}

theorem empty : Appended ({} : ForwardList α) 0 := ⟨rfl, rfl⟩

theorem length (appended : Appended l n) : l.values.length = n := by
  have count := congrArg List.length appended.addresses
  simpa only [ForwardList.addresses, values, List.length_map, List.length_range] using count

theorem distinct (appended : Appended l n) : Distinct l := by
  constructor
  · rw [appended.addresses]
    exact List.nodup_range
  · rw [appended.addresses, appended.fresh]
    exact fun address member => List.mem_range.mp member

theorem last (appended : Appended l n) : l.last = lastOf n := by
  rw [ForwardList.last, ← List.getLast?_map, map_fst_items, appended.addresses]
  cases n with
  | zero => rfl
  | succ n => simp [lastOf, List.range_succ]

/-- Inserting after the last node appends. -/
theorem emplace (appended : Appended l n) (value : α) :
    ∃ next, l.emplaceAfter (lastOf n) value = some (next, .node n) ∧
      Appended next (n + 1) ∧ next.values = l.values ++ [value] := by
  refine ⟨⟨l.nodes ++ [(l.fresh, value)], l.fresh + 1⟩, ?_, ⟨?_, ?_⟩, ?_⟩
  · rw [← appended.last, appended.distinct.emplaceAfter_last, appended.fresh]
  · rw [List.range_succ, ← appended.addresses]
    simp only [ForwardList.addresses, List.map_append, List.map_cons, List.map_nil, appended.fresh]
  · rw [appended.fresh]
  · simp only [values, List.map_append, List.map_cons, List.map_nil]

theorem write (appended : Appended l n) (position : Iterator) (value : α) :
    Appended (l.write position value) n :=
  ⟨by rw [write_addresses, appended.addresses], by rw [write_fresh, appended.fresh]⟩

/-- Writing through the iterator of the `k`-th node replaces the `k`-th value. -/
theorem write_values (appended : Appended l n) (k : Nat) (value : α) :
    (l.write (.node k) value).values = l.values.set k value := by
  apply List.ext_getElem?
  intro i
  simp only [ForwardList.write, values, List.map_map, List.getElem?_map, List.getElem?_set,
    List.length_map]
  cases item : l.nodes[i]? with
  | none =>
    have bound := List.getElem?_eq_none_iff.mp item
    by_cases same : k = i
    · subst same
      simp [Nat.not_lt.mpr bound]
    · simp [same]
  | some node =>
    have address : node.1 = i := by
      have range := congrArg (·[i]?) appended.addresses
      obtain ⟨bound, _⟩ := List.getElem?_eq_some_iff.mp item
      have inside : i < n := by
        have count := appended.length
        simp only [values, List.length_map] at count
        omega
      simpa [ForwardList.addresses, item, List.getElem?_range inside] using range
    obtain ⟨bound, _⟩ := List.getElem?_eq_some_iff.mp item
    by_cases same : k = i
    · subst same
      simp [address, bound]
    · have other : ¬ i = k := fun h => same h.symm
      simp [address, same, other]

end Appended
end ForwardList
