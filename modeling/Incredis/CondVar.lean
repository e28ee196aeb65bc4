/-! Waiting on a condition variable, `cond.wait(lock, predicate)`, against a
notifier that changes the predicate and calls `notify_one` without holding the
waiter's mutex. Wake-ups are never spurious. -/
namespace CondVar

/-- Where a waiting thread stands. Between `unsatisfied` and `blocked` lies the
one step that releases the mutex and blocks. -/
inductive Waiter
  | locking
  | testing
  | unsatisfied
  | blocked
  | notified
deriving DecidableEq, Repr

/-- What one step of the waiting thread leads to. -/
inductive Progress
  | waits (next : Waiter)
  | passed
  | stuck
deriving DecidableEq

namespace Waiter

/-- Only the test reads the predicate; a blocked thread cannot move by itself. -/
def advance (predicate : Bool) : Waiter → Progress
  | locking => .waits testing
  | testing => if predicate then .passed else .waits unsatisfied
  | unsatisfied => .waits blocked
  | blocked => .stuck
  | notified => .waits testing

/-- `notify_one` reaches the thread only once it has blocked. -/
def notify : Waiter → Waiter
  | blocked => notified
  | waiter => waiter

/-- The thread has seen the predicate false and will not look again unless it
is notified. -/
def asleep : Waiter → Bool
  | unsatisfied | blocked => true
  | _ => false

/-- The mutex is held from the moment it is locked until the thread blocks. -/
def holdsMutex : Waiter → Bool
  | testing | unsatisfied => true
  | _ => false

@[simp] theorem notify_asleep (waiter : Waiter) :
    waiter.notify.asleep = true ↔ waiter = unsatisfied := by
  cases waiter <;> decide

theorem advance_passed {predicate : Bool} {waiter : Waiter} :
    waiter.advance predicate = .passed ↔ waiter = testing ∧ predicate = true := by
  cases waiter <;> cases predicate <;> decide

/-- A thread falls asleep only by a failed test. -/
theorem advance_asleep {predicate : Bool} {waiter next : Waiter}
    (moved : waiter.advance predicate = .waits next) (sleeps : next.asleep = true) :
    waiter.asleep = true ∨ waiter = testing ∧ predicate = false := by
  cases waiter <;> cases predicate <;> simp_all [advance, asleep]
  all_goals subst next; contradiction

/-- The steps that a thread can take before it needs a notification. -/
def distance : Waiter → Nat
  | locking | notified => 3
  | testing => 2
  | unsatisfied => 1
  | blocked => 0

theorem advance_distance {predicate : Bool} {waiter next : Waiter}
    (moved : waiter.advance predicate = .waits next) : next.distance < waiter.distance := by
  cases waiter <;> cases predicate <;> cases moved <;> decide

theorem notify_distance (waiter : Waiter) : waiter.notify.distance ≤ waiter.distance + 3 := by
  cases waiter <;> decide

theorem advance_stuck {predicate : Bool} {waiter : Waiter} :
    waiter.advance predicate = .stuck ↔ waiter = blocked := by
  cases waiter <;> cases predicate <;> decide

end Waiter

/-- The invariant that rules out a lost wake-up: a sleeping thread still has a
reason to sleep, or a notification to it is on its way. -/
def Covered (waiter : Waiter) (predicate coming : Prop) : Prop :=
  waiter.asleep = true → ¬ predicate ∨ coming

/-- The state nobody can leave: blocked, although there is nothing to wait for
and nobody left to say so. -/
def Stranded (waiter : Waiter) (predicate coming : Prop) : Prop :=
  waiter = .blocked ∧ predicate ∧ ¬ coming

/-- A notification issued now would go unheard, because the thread has failed
its test on an older value and has not blocked yet. -/
def Missed (waiter : Waiter) (predicate : Prop) : Prop :=
  waiter = .unsatisfied ∧ predicate

instance [Decidable predicate] : Decidable (Missed waiter predicate) :=
  inferInstanceAs (Decidable (_ ∧ _))

namespace Covered
variable {waiter next : Waiter} {predicate coming later laterComing : Prop}

theorem not_stranded (covered : Covered waiter predicate coming) :
    ¬ Stranded waiter predicate coming := by
  rintro ⟨rfl, holds, quiet⟩
  exact (covered rfl).elim (fun fails => fails holds) quiet

theorem awake (awake : waiter.asleep = false) : Covered waiter predicate coming := by
  intro sleeps
  rw [awake] at sleeps
  contradiction

/-- The predicate may become false and the notification may stay on its way. -/
theorem mono (covered : Covered waiter predicate coming) (falser : later → predicate)
    (kept : coming → laterComing) : Covered waiter later laterComing :=
  fun sleeps => (covered sleeps).imp (fun fails holds => fails (falser holds)) kept

theorem announced (on_its_way : coming) : Covered waiter predicate coming :=
  fun _ => .inr on_its_way

theorem advance {value : Bool} (covered : Covered waiter predicate coming)
    (moved : waiter.advance value = .waits next) (read : value = false → ¬ predicate) :
    Covered next predicate coming := by
  intro sleeps
  rcases Waiter.advance_asleep moved sleeps with slept | ⟨_, fails⟩
  · exact covered slept
  · exact .inl (read fails)

/-- A heard notification needs nothing after it. -/
theorem notify (heard : ¬ Missed waiter predicate) : Covered waiter.notify predicate coming := by
  intro sleeps
  have early := (Waiter.notify_asleep waiter).mp sleeps
  exact .inl fun holds => heard ⟨early, holds⟩

end Covered

/-- An unheard notification, with no other on its way, strands the thread at its
next step. -/
theorem Missed.strands {waiter : Waiter} {predicate coming : Prop}
    (missed : Missed waiter predicate) (quiet : ¬ coming) (value : Bool) :
    waiter.notify.advance value = .waits .blocked ∧ Stranded .blocked predicate coming := by
  obtain ⟨rfl, holds⟩ := missed
  exact ⟨rfl, rfl, holds, quiet⟩

end CondVar
