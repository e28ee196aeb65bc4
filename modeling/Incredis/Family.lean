import Incredis.Transition
import Mathlib.Algebra.BigOperators.Group.Finset.Basic
import Mathlib.Logic.Relation

/-! A family of components over one shared value. Every step belongs to one
component, reads and writes the shared value, and leaves the other components
alone. Facts about a single component's step are lifted here to all runs. -/
namespace Family

structure State (ι σ γ : Type) where
  shared : σ
  part : ι → γ

variable {ι σ γ α : Type} [DecidableEq ι]

def step (move : σ → γ → α → Option (σ × γ)) (s : State ι σ γ) (label : ι × α) :
    Option (State ι σ γ) :=
  (move s.shared (s.part label.1) label.2).map fun next =>
    ⟨next.1, Function.update s.part label.1 next.2⟩

def machine (ι : Type) [DecidableEq ι] (move : σ → γ → α → Option (σ × γ)) (shared : σ)
    (part : γ) : Transition.Machine (State ι σ γ) (ι × α) where
  start := ⟨shared, fun _ => part⟩
  step := step move

variable {move : σ → γ → α → Option (σ × γ)}

theorem step_eq_some {s t : State ι σ γ} {i : ι} {a : α} :
    step move s (i, a) = some t ↔
      ∃ shared part, move s.shared (s.part i) a = some (shared, part) ∧
        t = ⟨shared, Function.update s.part i part⟩ := by
  simp only [step, Option.map_eq_some_iff, Prod.exists]
  constructor <;> rintro ⟨shared, part, moved, same⟩ <;> exact ⟨shared, part, moved, same.symm⟩

/-- What one component can do to the shared value and itself while the others rest. -/
abbrev Moves (move : σ → γ → α → Option (σ × γ)) : σ × γ → σ × γ → Prop :=
  Relation.ReflTransGen fun x y => ∃ a, move x.1 x.2 a = some y

variable {shared : σ} {part : γ} {ok : State ι σ γ → ι × α → Prop}

theorem run_alone {s : State ι σ γ} {i : ι} {next : σ × γ}
    (run : Transition.Reaches (machine ι move shared part) Transition.always s)
    (moves : Moves move (s.shared, s.part i) next) :
    Transition.Reaches (machine ι move shared part) Transition.always
      ⟨next.1, Function.update s.part i next.2⟩ := by
  induction moves with
  | refl => simpa using run
  | @tail x y _ moved ih =>
    obtain ⟨a, moved⟩ := moved
    refine ih.next (a := (i, a)) trivial (step_eq_some.mpr ⟨y.1, y.2, ?_, ?_⟩)
    · simpa using moved
    · simp

/-- A property of single components that every move keeps holds of all
components in every reachable state. -/
theorem each_invariant {P : ι → γ → Prop} (initial : ∀ i, P i part)
    (preserves : ∀ {s : State ι σ γ} {i a next after}, P i (s.part i) → ok s (i, a) →
      move s.shared (s.part i) a = some (next, after) → P i after)
    (run : Transition.Reaches (machine ι move shared part) ok s) (i : ι) : P i (s.part i) := by
  refine run.invariant (P := fun s => ∀ i, P i (s.part i)) initial ?_ i
  rintro s t ⟨j, a⟩ holds allowed stepped i
  obtain ⟨next, after, moved, rfl⟩ := step_eq_some.mp stepped
  by_cases same : i = j
  · subst same
    simpa only [Function.update_self] using preserves (holds i) allowed moved
  · simpa only [Function.update_of_ne same] using holds i

/-- A condition on the steps of one component is enough for a property of that one. -/
theorem part_invariant {P : γ → Prop} {i : ι} (initial : P part)
    (preserves : ∀ {s : State ι σ γ} {a next after}, P (s.part i) → ok s (i, a) →
      move s.shared (s.part i) a = some (next, after) → P after)
    (run : Transition.Reaches (machine ι move shared part) ok s) : P (s.part i) := by
  refine each_invariant (P := fun j d => j = i → P d) (fun _ _ => initial) ?_ run i rfl
  rintro s j a next after holds allowed moved rfl
  exact preserves (holds rfl) allowed moved

/-- Replacing one component changes a sum over all of them by the difference
of the two values. -/
theorem sum_update [Fintype ι] (weight : γ → Int) (parts : ι → γ) (i : ι) (after : γ) :
    ∑ j, weight (Function.update parts i after j) =
      ∑ j, weight (parts j) + (weight after - weight (parts i)) := by
  classical
  have split (values : ι → γ) :
      ∑ j, weight (values j) = weight (values i) + ∑ j ∈ Finset.univ.erase i, weight (values j) :=
    (Finset.add_sum_erase _ _ (Finset.mem_univ i)).symm
  have others : ∑ j ∈ Finset.univ.erase i, weight (Function.update parts i after j) =
      ∑ j ∈ Finset.univ.erase i, weight (parts j) := by
    apply Finset.sum_congr rfl
    intro j member
    rw [Function.update_of_ne (Finset.ne_of_mem_erase member)]
  rw [split, others, split parts, Function.update_self]
  omega

end Family
