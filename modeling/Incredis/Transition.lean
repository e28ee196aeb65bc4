/-! Runs of a machine whose steps are a partial function of state and label.
The label resolves every choice, so one state and one label have at most one
successor. A run is restricted by a condition on the states and labels of its
steps; the condition that always holds gives every run. -/
namespace Transition

structure Machine (σ α : Type) where
  start : σ
  step : σ → α → Option σ

/-- States at the end of a run all of whose steps meet `ok`. -/
inductive Reaches (m : Machine σ α) (ok : σ → α → Prop) : σ → Prop where
  | start : Reaches m ok m.start
  | next {s t a} : Reaches m ok s → ok s a → m.step s a = some t → Reaches m ok t

/-- No restriction on the run. -/
def always (_ : σ) (_ : α) : Prop := True

variable {σ α : Type} {m : Machine σ α} {ok : σ → α → Prop}

namespace Reaches

/-- The induction rule for safety: a run never leaves a set of states that
holds at the start and that no permitted step leaves. -/
theorem invariant {P : σ → Prop} (initial : P m.start)
    (preserves : ∀ {s t a}, P s → ok s a → m.step s a = some t → P t)
    (run : Reaches m ok s) : P s := by
  induction run with
  | start => exact initial
  | next _ allowed step ih => exact preserves ih allowed step

end Reaches

theorem initially (m : Machine σ α) (ok : σ → α → Prop) : Reaches m ok m.start := .start

/-- Executes labels one after the other, as a test would. -/
def exec (m : Machine σ α) (s : σ) : List α → Option σ
  | [] => some s
  | a :: rest => (m.step s a).bind fun t => exec m t rest

theorem Reaches.exec (run : Reaches m always s) (labels : List α)
    (done : Transition.exec m s labels = some t) : Reaches m always t := by
  induction labels generalizing s with
  | nil =>
    cases done
    exact run
  | cons a rest ih =>
    simp only [Transition.exec, Option.bind_eq_some_iff] at done
    obtain ⟨next, step, tail⟩ := done
    exact ih (run.next trivial step) tail

/-- A run can be cut at any state it comes through. -/
theorem Reaches.join (run : Reaches m ok s) (more : Reaches { m with start := s } ok t) :
    Reaches m ok t := by
  induction more with
  | start => exact run
  | next _ allowed step ih => exact ih.next allowed step

/-- A restriction that an invariant adds to the run is no restriction. -/
theorem Reaches.strengthen {stronger : σ → α → Prop} {P : σ → Prop} (initial : P m.start)
    (preserves : ∀ {s t a}, Reaches m stronger s → P s → ok s a → m.step s a = some t → P t)
    (implies : ∀ {s a}, P s → ok s a → stronger s a) (run : Reaches m ok s) :
    Reaches m stronger s ∧ P s := by
  induction run with
  | start => exact ⟨.start, initial⟩
  | next _ allowed step ih =>
    obtain ⟨reached, holds⟩ := ih
    exact ⟨reached.next (implies holds allowed) step, preserves reached holds allowed step⟩

/-- The machine together with what has been observed of its steps. -/
def logging (m : Machine σ α) (observe : σ → α → Option ε) : Machine (σ × List ε) α where
  start := (m.start, [])
  step s a := (m.step s.1 a).map fun t => (t, s.2 ++ (observe s.1 a).toList)

theorem logging_step {observe : σ → α → Option ε} {s t : σ × List ε} {a : α} :
    (logging m observe).step s a = some t ↔
      ∃ next, m.step s.1 a = some next ∧ t = (next, s.2 ++ (observe s.1 a).toList) := by
  simp only [logging, Option.map_eq_some_iff]
  constructor <;> rintro ⟨next, step, same⟩ <;> exact ⟨next, step, same.symm⟩

/-- Two calls in order in a history, looked at from its last call. -/
theorem pair_sublist_concat {first second last : α} {calls : List α} :
    [first, second].Sublist (calls ++ [last]) ↔
      [first, second].Sublist calls ∨ first ∈ calls ∧ second = last := by
  constructor
  · intro within
    obtain ⟨front, back, split, inFront, inBack⟩ := List.sublist_append_iff.mp within
    rcases front with _ | ⟨x, _ | ⟨y, rest⟩⟩
    · rw [List.nil_append] at split
      have := split ▸ inBack.length_le
      simp at this
    · obtain ⟨rfl, rfl⟩ : first = x ∧ [second] = back := by simpa using split
      exact .inr ⟨List.singleton_sublist.mp inFront, by simpa using inBack⟩
    · obtain ⟨rfl, rfl, rfl, _⟩ : first = x ∧ second = y ∧ rest = [] ∧ back = [] := by
        simpa using split
      exact .inl inFront
  · rintro (within | ⟨member, rfl⟩)
    · exact within.trans (List.sublist_append_left _ _)
    · exact (List.singleton_sublist.mpr member).append (List.Sublist.refl [second])

end Transition
