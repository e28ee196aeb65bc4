import Incredis.Transition
import Mathlib.Order.Filter.AtTopBot.Basic

/-! Endless runs of a machine, and the rule by which a fair schedule brings about
what a rank measures the distance to. A schedule is fair to a move if the move is
made again and again wherever it is ready again and again. -/
namespace Fairness
open Filter
variable {σ α : Type} {m : Transition.Machine σ α} {states : Nat → σ} {labels : Nat → Option α}

/-- An endless run. Where there is no label nothing happens. -/
structure Run (m : Transition.Machine σ α) (states : Nat → σ) (labels : Nat → Option α) : Prop where
  start : states 0 = m.start
  next : ∀ n, (labels n).elim (some (states n)) (m.step (states n)) = some (states (n + 1))

namespace Run

/-- What happens at one time. -/
theorem cases (run : Run m states labels) (n : Nat) :
    labels n = none ∧ states (n + 1) = states n ∨
      ∃ a, labels n = some a ∧ m.step (states n) a = some (states (n + 1)) := by
  have next := run.next n
  cases label : labels n with
  | none =>
    rw [label] at next
    exact .inl ⟨rfl, (Option.some.inj next).symm⟩
  | some a =>
    rw [label] at next
    exact .inr ⟨a, rfl, next⟩

/-- A run all of whose steps meet a condition. -/
theorem reaches_under {ok : σ → α → Prop} (run : Run m states labels)
    (allowed : ∀ n a, labels n = some a → ok (states n) a) (n : Nat) :
    Transition.Reaches m ok (states n) := by
  induction n with
  | zero =>
    rw [run.start]
    exact .start
  | succ n ih =>
    rcases run.cases n with ⟨_, same⟩ | ⟨a, label, step⟩
    · rwa [same]
    · exact ih.next (allowed n a label) step

theorem reaches (run : Run m states labels) (n : Nat) :
    Transition.Reaches m Transition.always (states n) :=
  run.reaches_under (fun _ _ _ => trivial) n

section Finite
variable {ok : σ → α → Prop} {s t : σ}

/-- An endless run in which nothing happens from some time on. -/
structure Rests (m : Transition.Machine σ α) (ok : σ → α → Prop) (states : Nat → σ)
    (labels : Nat → Option α) (last : Nat) (s : σ) : Prop where
  run : Run m states labels
  allowed : ∀ k a, labels k = some a → ok (states k) a
  rests : ∀ k ≥ last, states k = s ∧ labels k = none

theorem Rests.next {last : Nat} {a : α} (before : Rests m ok states labels last s) (allowed : ok s a)
    (step : m.step s a = some t) :
    Rests m ok (fun k => if k ≤ last then states k else t)
      (fun k => if k = last then some a else labels k) (last + 1) t := by
  have here := (before.rests last (Nat.le_refl last)).1
  refine ⟨⟨by simpa using before.run.start, fun k => ?_⟩, fun k b label => ?_, fun k later => ?_⟩
  · rcases Nat.lt_trichotomy k last with early | rfl | late
    · have next := before.run.next k
      rwa [if_neg (by omega), if_pos (by omega), if_pos (by omega)]
    · simpa [here, show ¬ k + 1 ≤ k by omega] using step
    · simp [show ¬ k ≤ last by omega, show k ≠ last by omega, show ¬ k + 1 ≤ last by omega,
        (before.rests k (by omega)).2]
  · by_cases same : k = last
    · subst same
      rw [if_pos rfl] at label
      cases label
      simpa [here] using allowed
    · rw [if_neg same] at label
      have early : k ≤ last := by
        by_contra late
        simp [(before.rests k (by omega)).2] at label
      simpa [early] using before.allowed k b label
  · exact ⟨if_neg (by omega), by rw [if_neg (by omega)]; exact (before.rests k (by omega)).2⟩

/-- Every finite run is the beginning of an endless one. -/
theorem rests_of_reaches (run : Transition.Reaches m ok s) :
    ∃ states labels last, Rests m ok states labels last s := by
  induction run with
  | start => exact ⟨fun _ => m.start, fun _ => none, 0, ⟨rfl, fun _ => rfl⟩, by simp, by simp⟩
  | next _ allowed step ih =>
    obtain ⟨states, labels, last, before⟩ := ih
    exact ⟨_, _, last + 1, before.next allowed step⟩

/-- And comes through the states that the finite one has come through. -/
theorem rests_through (run : Transition.Reaches m ok s)
    (more : Transition.Reaches { m with start := s } ok t) :
    ∃ (states : Nat → σ) (labels : Nat → Option α) (n last : Nat),
      Rests m ok states labels last t ∧ states n = s ∧ n ≤ last := by
  induction more with
  | start =>
    obtain ⟨states, labels, last, before⟩ := rests_of_reaches run
    exact ⟨states, labels, last, last, before, (before.rests last (Nat.le_refl last)).1,
      Nat.le_refl last⟩
  | next _ allowed step ih =>
    obtain ⟨states, labels, n, last, before, here, early⟩ := ih
    exact ⟨_, _, n, last + 1, before.next allowed step, by simpa [early] using here, by omega⟩

end Finite

/-- A run through finitely many places that ends in a cycle. -/
theorem lasso {κ : Type} {first : κ} {after : κ → κ} {state : κ → σ} {label : κ → α}
    (start : state first = m.start)
    (step : ∀ j, m.step (state j) (label j) = some (state (after j))) :
    Run m (fun n => state (after^[n] first)) fun n => some (label (after^[n] first)) where
  start := start
  next n := by
    rw [Function.iterate_succ_apply']
    exact step _

end Run

/-- What is ready infinitely often is done infinitely often. -/
def Strong (ready moves : Nat → Prop) : Prop :=
  (∃ᶠ n in atTop, ready n) → ∃ᶠ n in atTop, moves n

theorem Strong.of_rest {ready moves : Nat → Prop} {last : Nat} (rests : ∀ n ≥ last, ¬ ready n) :
    Strong ready moves := by
  intro again
  obtain ⟨n, later, ready⟩ := frequently_atTop.mp again last
  exact absurd ready (rests n later)

/-- The rank rule. As long as `P` holds, the rank does not grow, a move lowers it, and
some move is going to be ready; then `Q` comes about. -/
theorem leadsTo {P Q ready moves : Nat → Prop} (rank : Nat → Nat) (fair : Strong ready moves)
    (keeps : ∀ n, P n →
      Q (n + 1) ∨ P (n + 1) ∧ rank (n + 1) ≤ rank n ∧ (moves n → rank (n + 1) < rank n))
    (recurs : ∀ n, (∀ k ≥ n, P k) → ∃ k ≥ n, ready k) {n : Nat} (holds : P n) :
    ∃ k ≥ n, Q k := by
  by_contra never
  have staying : ∀ k ≥ n, P k ∧ rank k ≤ rank n := by
    apply Nat.le_induction
    · exact ⟨holds, Nat.le_refl _⟩
    · intro k later ih
      rcases keeps k ih.1 with found | ⟨still, lower, _⟩
      · exact absurd ⟨k + 1, by omega, found⟩ never
      · exact ⟨still, by omega⟩
  have again : ∃ᶠ k in atTop, ready k := frequently_atTop.mpr fun start => by
    obtain ⟨k, later, ready⟩ := recurs (max n start) fun k later =>
      (staying k (le_trans (le_max_left n start) later)).1
    exact ⟨k, le_trans (le_max_right n start) later, ready⟩
  obtain ⟨k, later, moved⟩ := frequently_atTop.mp (fair again) n
  rcases keeps k (staying k later).1 with found | ⟨still, _, drops⟩
  · exact never ⟨k + 1, by omega, found⟩
  · have lower : rank (k + 1) < rank n := Nat.lt_of_lt_of_le (drops moved) (staying k later).2
    obtain ⟨j, after, found⟩ := leadsTo rank fair keeps recurs still
    exact never ⟨j, by omega, found⟩
termination_by rank n

/-- Some action of the group can be taken. -/
def Enabled (m : Transition.Machine σ α) (group : α → Prop) (s : σ) : Prop :=
  ∃ a, group a ∧ ∃ t, m.step s a = some t

/-- A group of actions is not passed over for ever. -/
def FairTo (m : Transition.Machine σ α) (group : α → Prop) (states : Nat → σ)
    (labels : Nat → Option α) : Prop :=
  Strong (fun n => Enabled m group (states n)) fun n => ∃ a, group a ∧ labels n = some a

theorem FairTo.of_rests {group : α → Prop} {ok : σ → α → Prop} {last : Nat} {s : σ}
    (rests : Run.Rests m ok states labels last s) (disabled : ¬ Enabled m group s) :
    FairTo m group states labels :=
  Strong.of_rest fun k (later : k ≥ last) => by
    rwa [(rests.rests k later).1]

/-- The same rule for the steps of a machine. -/
theorem FairTo.leadsTo {group : α → Prop} {P Q : σ → Prop} (run : Run m states labels)
    (fair : FairTo m group states labels) (rank : σ → Nat)
    (step : ∀ n a, labels n = some a → m.step (states n) a = some (states (n + 1)) →
      P (states n) → Q (states (n + 1)) ∨ P (states (n + 1)) ∧
        rank (states (n + 1)) ≤ rank (states n) ∧
        (group a → rank (states (n + 1)) < rank (states n)))
    (recurs : ∀ n, (∀ k ≥ n, P (states k)) → ∃ k ≥ n, Enabled m group (states k)) {n : Nat}
    (holds : P (states n)) : ∃ k ≥ n, Q (states k) := by
  refine Fairness.leadsTo (P := fun n => P (states n)) (fun n => rank (states n)) fair ?_ recurs holds
  intro k here
  rcases run.cases k with ⟨idle, same⟩ | ⟨a, label, moved⟩
  · rw [same]
    exact .inr ⟨here, Nat.le_refl _, by simp [idle]⟩
  · rcases step k a label moved here with found | ⟨still, lower, drops⟩
    · exact .inl found
    · refine .inr ⟨still, lower, ?_⟩
      rintro ⟨b, member, same⟩
      rw [label] at same
      cases same
      exact drops member

end Fairness
