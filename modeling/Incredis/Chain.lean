/-! Items of which each has the key of the one that comes next, up to the first whose key
says that there is none. -/
namespace Chain

inductive From (item : K → I) (next : I → K) (stop : K) : K → List I → Prop
  | last {key} : next (item key) = stop → From item next stop key [item key]
  | onward {key rest} : next (item key) ≠ stop → From item next stop (next (item key)) rest →
      From item next stop key (item key :: rest)

variable {item : K → I} {next : I → K} {stop key : K} {items before after : List I} {found : I}

namespace From

theorem ne_nil (chain : From item next stop key items) : items ≠ [] := by
  cases chain <;> exact List.cons_ne_nil _ _

/-- What comes after an item is a chain from its key. -/
theorem tail (chain : From item next stop key items) (split : items = before ++ found :: after) :
    next found = stop ∧ after = [] ∨ next found ≠ stop ∧ From item next stop (next found) after := by
  induction chain generalizing before with
  | last stops =>
    cases before with
    | nil =>
      obtain ⟨rfl, rfl⟩ := List.cons.inj split
      exact .inl ⟨stops, rfl⟩
    | cons head rest => simp at split
  | onward continues rest ih =>
    cases before with
    | nil =>
      obtain ⟨rfl, rfl⟩ := List.cons.inj split
      exact .inr ⟨continues, rest⟩
    | cons head front => exact ih (List.cons.inj split).2

theorem stops_iff (chain : From item next stop key items)
    (split : items = before ++ found :: after) : next found = stop ↔ after = [] := by
  rcases chain.tail split with ⟨stops, none⟩ | ⟨continues, rest⟩
  · exact ⟨fun _ => none, fun _ => stops⟩
  · exact ⟨fun stops => absurd stops continues, fun none => absurd none rest.ne_nil⟩

theorem unique (chain : From item next stop key items) {other : List I}
    (second : From item next stop key other) : items = other := by
  induction chain generalizing other with
  | last stops =>
    cases second with
    | last => rfl
    | onward continues _ => exact absurd stops continues
  | onward continues _ ih =>
    cases second with
    | last stops => exact absurd stops continues
    | onward _ rest => rw [ih rest]

/-- No key comes twice, as the chain would be the same from there and never end. -/
theorem nodup (chain : From item next stop key items) : (items.map next).Nodup := by
  induction chain with
  | last => simp
  | @onward key rest continues chain ih =>
    rw [List.map_cons, List.nodup_cons]
    refine ⟨fun again => ?_, ih⟩
    obtain ⟨found, member, same⟩ := List.mem_map.mp again
    obtain ⟨front, back, split⟩ := List.append_of_mem member
    rcases chain.tail split with ⟨stops, _⟩ | ⟨_, later⟩
    · exact continues (same ▸ stops)
    · rw [same] at later
      have length := congrArg List.length (chain.unique later)
      rw [split, List.length_append, List.length_cons] at length
      omega

end From

end Chain
