/-! A mutex by its owner. `holds` says where the code of a thread stands between its
lock and its unlock; the owner field is what the lock itself knows. -/
namespace Mutex
variable {τ : Type} {owner : Option τ} {holds later : τ → Prop} {t u : τ}

/-- Only the owner is between its lock and its unlock. -/
def Exclusive (owner : Option τ) (holds : τ → Prop) : Prop := ∀ t, holds t → owner = some t

namespace Exclusive

theorem unique (exclusive : Exclusive owner holds) (first : holds t) (second : holds u) : t = u :=
  Option.some.inj ((exclusive t first).symm.trans (exclusive u second))

theorem free (exclusive : Exclusive none holds) (t : τ) : ¬ holds t := by
  intro inside
  cases exclusive t inside

theorem keep (exclusive : Exclusive owner holds) (fewer : ∀ u, later u → holds u) :
    Exclusive owner later :=
  fun u inside => exclusive u (fewer u inside)

theorem lock (exclusive : Exclusive none holds) (others : ∀ u, u ≠ t → later u → holds u) :
    Exclusive (some t) later := by
  intro u inside
  by_cases same : u = t
  · rw [same]
  · exact absurd (others u same inside) (exclusive.free u)

theorem unlock (exclusive : Exclusive owner holds) (inside : holds t)
    (others : ∀ u, later u → u ≠ t ∧ holds u) : Exclusive none later := by
  intro u entered
  obtain ⟨other, still⟩ := others u entered
  exact absurd (exclusive.unique still inside) other

end Exclusive

/-- The owner is between its lock and its unlock. -/
def Inside (owner : Option τ) (holds : τ → Prop) : Prop := ∀ t, owner = some t → holds t

namespace Inside

theorem free (holds : τ → Prop) : Inside none holds := by
  intro t owned
  cases owned

theorem lock (entered : holds t) : Inside (some t) holds := by
  intro u owned
  cases owned
  exact entered

theorem keep (inside : Inside owner holds) (still : ∀ u, holds u → later u) : Inside owner later :=
  fun u owned => still u (inside u owned)

end Inside
end Mutex
