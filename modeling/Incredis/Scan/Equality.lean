import Incredis.Scan.Resume

/-! `equal()` compares the cursor, the index and the size of the page. As no cursor comes
twice in a walk, the cursor names the page, and with the index the position. -/
namespace Incredis.Scan

section
variable {α β κ : Type} {before after before' after' : List α} {x x' : α}

/-- An item with a key of its own is found in one place. -/
theorem split_of_key {key : α → κ} (distinct : ((before ++ x :: after).map key).Nodup)
    (split : before ++ x :: after = before' ++ x' :: after') (same : key x = key x') :
    before = before' ∧ x = x' := by
  induction before generalizing before' with
  | nil =>
    cases before' with
    | nil => exact ⟨rfl, (List.cons.inj split).1⟩
    | cons head front =>
      obtain ⟨rfl, rfl⟩ := List.cons.inj split
      rw [List.nil_append, List.map_cons, List.nodup_cons] at distinct
      exact absurd (same ▸ List.mem_map_of_mem (by simp)) distinct.1
  | cons head front ih =>
    rw [List.cons_append, List.map_cons, List.nodup_cons] at distinct
    cases before' with
    | nil =>
      obtain ⟨rfl, rfl⟩ := List.cons.inj split
      exact absurd (same ▸ List.mem_map_of_mem (by simp)) distinct.1
    | cons head' front' =>
      obtain ⟨rfl, rest⟩ := List.cons.inj split
      obtain ⟨rfl, found⟩ := ih distinct.2 rest
      exact ⟨rfl, found⟩

/-- So is the part that a position in the whole falls into. -/
theorem split_of_index {part : α → List β} {i i' : Nat} (bound : i < (part x).length)
    (bound' : i' < (part x').length) (split : before ++ x :: after = before' ++ x' :: after')
    (same : (before.flatMap part).length + i = (before'.flatMap part).length + i') :
    before = before' ∧ x = x' ∧ i = i' := by
  induction before generalizing before' with
  | nil =>
    cases before' with
    | nil => exact ⟨rfl, (List.cons.inj split).1, by simpa using same⟩
    | cons head front =>
      obtain ⟨rfl, _⟩ := List.cons.inj split
      simp only [List.flatMap_nil, List.length_nil, List.flatMap_cons, List.length_append] at same
      omega
  | cons head front ih =>
    cases before' with
    | nil =>
      obtain ⟨rfl, _⟩ := List.cons.inj split
      simp only [List.flatMap_nil, List.length_nil, List.flatMap_cons, List.length_append] at same
      omega
    | cons head' front' =>
      obtain ⟨rfl, rest⟩ := List.cons.inj split
      simp only [List.flatMap_cons, List.length_append] at same
      obtain ⟨rfl, found, index⟩ := ih rest (by omega)
      exact ⟨rfl, found, index⟩

end

section
variable {V : Type} {intConv : IntConv} {server : Server} {fetch : ValueFetch V}
  {matchPattern : String} {pageOf : Int → Page V} {pages : List (Page V)} {asserts : Bool}
  {fuel command : Nat} {it other : ScanIterator V} {made made' : Nat}

theorem Position.equal_iff (distinct : (pages.map Page.cursor).Nodup)
    (here : Position pages command matchPattern made it)
    (there : Position pages command matchPattern made' other) :
    it.equal other = true ↔ made = made' := by
  have ended := here.isEnd_iff
  have ended' := there.isEnd_iff
  cases going : it.isEnd with
  | true =>
    rw [ended.mp going, eq_comm (a := (pages.flatMap Page.values).length), ← ended']
    simp [ScanIterator.equal, going]
  | false =>
    cases going' : other.isEnd with
    | true =>
      rw [ended'.mp going', ← ended, going]
      simp [ScanIterator.equal, going, going']
    | false =>
      obtain ⟨sameCommand, _, place⟩ := here
      obtain ⟨before, page, after, split, reply, context, bound, rfl⟩ :=
        place.resolve_right fun ended => by simp [going] at ended
      obtain ⟨sameCommand', _, place'⟩ := there
      obtain ⟨before', page', after', split', reply', context', bound', rfl⟩ :=
        place'.resolve_right fun ended => by simp [going'] at ended
      subst split
      simp only [ScanIterator.equal, going, going', sameCommand, sameCommand', context, context', reply,
        reply', Bool.and_false, Bool.false_or, Bool.or_self, Bool.not_false, Bool.true_and,
        Bool.and_eq_true, decide_eq_true_eq, true_and]
      constructor
      · rintro ⟨⟨cursor, index⟩, _⟩
        obtain ⟨rfl, _⟩ := split_of_key distinct split' cursor
        rw [index]
      · intro same
        obtain ⟨_, rfl, index⟩ := split_of_index bound bound' split' same
        exact ⟨⟨rfl, index⟩, rfl⟩

/-- From equal positions as many calls, or all calls up to the end, pass the same elements. -/
theorem Position.remaining (setting : Interruptible intConv server fetch matchPattern pageOf pages)
    (enough : pages.length ≤ fuel) (here : Position pages command matchPattern made it)
    (there : Position pages command matchPattern made other) {more more' : Nat} {rest rest' : List V}
    {last last' : ScanIterator V}
    (advances : Advances intConv server fetch asserts fuel it more rest last)
    (advances' : Advances intConv server fetch asserts fuel other more' rest' last')
    (asMany : more = more' ∨ last.isEnd = true ∧ last'.isEnd = true) : rest = rest' := by
  obtain ⟨final, rfl⟩ := here.advance setting enough advances
  obtain ⟨final', rfl⟩ := there.advance setting enough advances'
  rcases asMany with rfl | ⟨ended, ended'⟩
  · rfl
  · have same := (final.isEnd_iff.mp ended).trans (final'.isEnd_iff.mp ended').symm
    rw [Nat.add_left_cancel same]

end

theorem end_equal {V : Type} (it : ScanIterator V) (command : Nat) (matchPattern : String) :
    (endIterator command matchPattern).equal it = it.isEnd := by
  simp [ScanIterator.equal, endIterator, ScanIterator.isEnd]

/-- Iterators of one range are equal exactly when they have made the same number of
increments. Before the end they differ from the end iterator, and equal ones have the same
elements before them. -/
theorem equal_iff_same_position {V : Type} {intConv : IntConv} {server : Server}
    {fetch : ValueFetch V} {matchPattern : String} {pageOf : Int → Page V} {pages : List (Page V)}
    (setting : Interruptible intConv server fetch matchPattern pageOf pages) {asserts : Bool}
    {fuel command j k : Nat} (enough : pages.length ≤ fuel)
    {begun begun' it other : ScanIterator V} {seen seen' : List V}
    (begins : Begins intConv server fetch asserts fuel command matchPattern begun)
    (advances : Advances intConv server fetch asserts fuel begun j seen it)
    (begins' : Begins intConv server fetch asserts fuel command matchPattern begun')
    (advances' : Advances intConv server fetch asserts fuel begun' k seen' other) :
    (it.equal other = true ↔ j = k) ∧
      (it.isEnd = false → it.equal (endIterator command matchPattern) = false ∧
        (endIterator command matchPattern).equal it = false) ∧
      (it.equal other = true → it.element asserts = other.element asserts ∧
        ∀ n n' rest rest' last last', Advances intConv server fetch asserts fuel it n rest last →
          Advances intConv server fetch asserts fuel other n' rest' last' →
          n = n' ∨ last.isEnd = true ∧ last'.isEnd = true → rest = rest') := by
  have here := ((begins.position setting enough).advance setting enough advances).1
  have there := ((begins'.position setting enough).advance setting enough advances').1
  rw [Nat.zero_add] at here there
  have same := here.equal_iff setting.walk.nodup there
  refine ⟨same, fun going => ⟨?_, ?_⟩, fun equal => ?_⟩
  · rw [equal_end, going]
  · rw [end_equal, going]
  · obtain rfl := same.mp equal
    refine ⟨?_, fun n n' rest rest' last last' onward onward' asMany => ?_⟩
    · rw [here.element, there.element]
    · exact here.remaining setting enough there onward onward' asMany

/-- A copy taken before the increment is not equal to the incremented iterator, and neither
to the end. -/
theorem equal_iff_same_position_copies : ada.equal ada = true ∧ ada.equal born = false ∧
    born.equal (endIterator 0 "") = false := by
  have setting := person_interruptible (·.length = 3)
  have same := (equal_iff_same_position setting (Nat.le_refl 3) begins_ada .none begins_ada .none).1
  have moved := equal_iff_same_position setting (Nat.le_refl 3) begins_ada .none begins_ada
    advances_born
  have later := equal_iff_same_position setting (Nat.le_refl 3) begins_ada advances_born begins_ada
    advances_born
  refine ⟨same.mpr rfl, ?_, (later.2.1 rfl).1⟩
  rw [Bool.eq_false_iff, ne_eq, moved.1]
  decide

end Incredis.Scan
