import Incredis.Transition
import Mathlib.Logic.Function.Basic

/-! Where a `Command` has been moved to, and what its batches, scripts and scan iterators
lead to then. An `IncRedis` is moved as the `Command` in it is. -/
namespace Incredis.Ownership
open Transition

/-- Of a `Command`. It may be in use again once the object is gone. -/
abbrev Address := Nat

/-- One number for each `LocalData` ever made. -/
abbrev LocalPtr := Nat

structure Command where
  localData : Option LocalPtr
deriving DecidableEq, Repr

/-- `luaScripts` is the `m_command` of the script manager. -/
structure LocalData where
  luaScripts : Address
deriving DecidableEq, Repr

/-- The objects that are alive. -/
structure State where
  commands : Address → Option Command := fun _ => none
  locals : LocalPtr → Option LocalData := fun _ => none
  made : Nat := 0

inductive Action
  | construct (this : Address)
  | move (this parOther : Address)
  | destroy (this : Address)
deriving DecidableEq, Repr

namespace State

def construct (s : State) (this : Address) : Option State :=
  if s.commands this = none then
    some { commands := Function.update s.commands this (some ⟨some s.made⟩),
           locals := Function.update s.locals s.made (some ⟨this⟩),
           made := s.made + 1 }
  else none

/-- `Command::Command(Command&&)`, which dereferences what it is given. -/
def move (s : State) (this parOther : Address) : Option State := do
  let data ← (← s.commands parOther).localData
  let _ ← s.locals data
  if s.commands this = none then
    some { s with
      commands := Function.update (Function.update s.commands parOther (some ⟨none⟩)) this
        (some ⟨some data⟩),
      locals := Function.update s.locals data (some ⟨this⟩) }
  else none

def destroy (s : State) (this : Address) : Option State := do
  let command ← s.commands this
  some { s with
    commands := Function.update s.commands this none,
    locals := match command.localData with
      | none => s.locals
      | some data => Function.update s.locals data none }

/-- Whose `async_connection` and `thread_context` the batch is given. -/
def makeBatch (s : State) (this : Address) : Option LocalPtr := do
  let data ← (← s.commands this).localData
  let _ ← s.locals data
  some data

/-- The manager of the script, and the connection that `add_lua_script_ifn` loads it over. -/
def makeScript (s : State) (this : Address) : Option (LocalPtr × LocalPtr) := do
  let data ← (← s.commands this).localData
  let manager ← s.locals data
  let loaded ← s.makeBatch manager.luaScripts
  some (data, loaded)

end State

/-- A step that is `none` is not one of a program with defined behaviour: there is an object
already, or there is none, or it has been moved from. -/
def step (s : State) : Action → Option State
  | .construct this => s.construct this
  | .move this parOther => s.move this parOther
  | .destroy this => s.destroy this

def machine : Machine State Action where
  start := {}
  step := step

/-- Where the command at an address is after one action. -/
def Action.follow : Action → Address → Option Address
  | .construct _, address => some address
  | .move this parOther, address => some (if address = parOther then this else address)
  | .destroy this, address => if address = this then none else some address

def follow : List Action → Address → Option Address
  | [], address => some address
  | action :: rest, address => (action.follow address).bind (follow rest)

/-- Every `LocalData` has one owner, which its script manager knows. -/
structure Owned (s : State) : Prop where
  back : ∀ address data, s.commands address = some ⟨some data⟩ ↔ s.locals data = some ⟨address⟩
  unmade : ∀ data, s.made ≤ data → s.locals data = none

section Steps
variable {s t : State} {this parOther : Address}

theorem construct_eq (made : s.construct this = some t) :
    s.commands this = none ∧
      t = { commands := Function.update s.commands this (some ⟨some s.made⟩),
            locals := Function.update s.locals s.made (some ⟨this⟩),
            made := s.made + 1 } := by
  unfold State.construct at made
  split at made
  · next free => exact ⟨free, (Option.some.inj made).symm⟩
  · contradiction

theorem move_eq (moved : s.move this parOther = some t) :
    ∃ data, s.commands parOther = some ⟨some data⟩ ∧ s.commands this = none ∧
      t = { s with
        commands := Function.update (Function.update s.commands parOther (some ⟨none⟩)) this
          (some ⟨some data⟩),
        locals := Function.update s.locals data (some ⟨this⟩) } := by
  simp only [State.move, Option.bind_eq_bind, Option.bind_eq_some_iff] at moved
  obtain ⟨command, there, data, holds, _, _, moved⟩ := moved
  split at moved
  · next free =>
    exact ⟨data, there.trans (congrArg (some ∘ Command.mk) holds), free,
      (Option.some.inj moved).symm⟩
  · contradiction

theorem destroy_eq (destroyed : s.destroy this = some t) :
    ∃ command, s.commands this = some command ∧
      t = { s with
        commands := Function.update s.commands this none,
        locals := match command.localData with
          | none => s.locals
          | some data => Function.update s.locals data none } := by
  simp only [State.destroy, Option.bind_eq_bind, Option.bind_eq_some_iff] at destroyed
  obtain ⟨command, there, destroyed⟩ := destroyed
  exact ⟨command, there, (Option.some.inj destroyed).symm⟩

end Steps

namespace Owned
variable {s t : State}

theorem empty : Owned {} where
  back _ _ := ⟨fun _ => by contradiction, fun _ => by contradiction⟩
  unmade _ _ := rfl

theorem made (owned : Owned s) {address : Address} {data : LocalPtr}
    (there : s.commands address = some ⟨some data⟩) : data < s.made := by
  by_contra later
  have unmade := owned.unmade data (Nat.le_of_not_lt later)
  rw [(owned.back address data).mp there] at unmade
  contradiction

theorem step {a : Action} (owned : Owned s) (stepped : step s a = some t) : Owned t := by
  have back := owned.back
  have unmade := owned.unmade
  cases a with
  | construct this =>
    obtain ⟨free, rfl⟩ := construct_eq stepped
    have new := unmade s.made (Nat.le_refl _)
    constructor
    · intro address data
      have same := back address data
      simp only [Function.update_apply]
      grind
    · intro data later
      simp only [Function.update_apply]
      grind
  | move this parOther =>
    obtain ⟨moved, there, free, rfl⟩ := move_eq stepped
    have lower := owned.made there
    constructor
    · intro address data
      have same := back address data
      have other := back parOther data
      have was := (back parOther moved).mp there
      simp only [Function.update_apply]
      grind
    · intro data later
      simp only [Function.update_apply]
      grind
  | destroy this =>
    obtain ⟨⟨localData⟩, there, rfl⟩ := destroy_eq stepped
    cases localData with
    | none =>
      constructor
      · intro address data
        have same := back address data
        simp only [Function.update_apply]
        grind
      · exact unmade
    | some gone =>
      have was := (back this gone).mp there
      constructor
      · intro address data
        have same := back address data
        have here := back this data
        simp only [Function.update_apply]
        grind
      · intro data later
        simp only [Function.update_apply]
        grind

/-- The script manager points to where the command has gone. -/
theorem follow_step {a : Action} {address : Address} {data : LocalPtr} (owned : Owned s)
    (there : s.commands address = some ⟨some data⟩) (stepped : Ownership.step s a = some t) :
    t.locals data = (a.follow address).map LocalData.mk ∧ data < t.made := by
  have lower := owned.made there
  have was := (owned.back address data).mp there
  cases a with
  | construct this =>
    obtain ⟨free, rfl⟩ := construct_eq stepped
    exact ⟨(Function.update_of_ne (Nat.ne_of_lt lower) _ _).trans was, Nat.lt_succ_of_lt lower⟩
  | move this parOther =>
    obtain ⟨moved, other, free, rfl⟩ := move_eq stepped
    have same := (owned.back parOther data).symm
    refine ⟨?_, lower⟩
    simp only [Action.follow, Function.update_apply, Option.map_some]
    grind
  | destroy this =>
    obtain ⟨⟨localData⟩, gone, rfl⟩ := destroy_eq stepped
    have same := owned.back this
    refine ⟨?_, lower⟩
    cases localData with
    | none =>
      simp only [Action.follow]
      grind
    | some freed =>
      simp only [Action.follow, Function.update_apply]
      grind

/-- Nothing brings a `LocalData` back. -/
theorem gone_step {a : Action} {data : LocalPtr} (owned : Owned s)
    (gone : s.locals data = none ∧ data < s.made) (stepped : Ownership.step s a = some t) :
    t.locals data = none ∧ data < t.made := by
  obtain ⟨freed, lower⟩ := gone
  cases a with
  | construct this =>
    obtain ⟨free, rfl⟩ := construct_eq stepped
    exact ⟨(Function.update_of_ne (Nat.ne_of_lt lower) _ _).trans freed, Nat.lt_succ_of_lt lower⟩
  | move this parOther =>
    obtain ⟨moved, other, free, rfl⟩ := move_eq stepped
    have was := (owned.back parOther moved).mp other
    have apart : data ≠ moved := by
      rintro rfl
      rw [freed] at was
      contradiction
    exact ⟨(Function.update_of_ne apart _ _).trans freed, lower⟩
  | destroy this =>
    obtain ⟨⟨localData⟩, _, rfl⟩ := destroy_eq stepped
    refine ⟨?_, lower⟩
    cases localData with
    | none => exact freed
    | some other =>
      simp only [Function.update_apply, freed, ite_self]

theorem gone_run {labels : List Action} {data : LocalPtr} (owned : Owned s)
    (gone : s.locals data = none ∧ data < s.made) (run : exec machine s labels = some t) :
    t.locals data = none := by
  induction labels generalizing s with
  | nil =>
    cases run
    exact gone.1
  | cons a rest ih =>
    obtain ⟨next, stepped, run⟩ := Option.bind_eq_some_iff.mp run
    exact ih (owned.step stepped) (owned.gone_step gone stepped) run

theorem follow_run {labels : List Action} {address : Address} {data : LocalPtr} (owned : Owned s)
    (there : s.commands address = some ⟨some data⟩) (run : exec machine s labels = some t) :
    t.locals data = (follow labels address).map LocalData.mk := by
  induction labels generalizing s address with
  | nil =>
    cases run
    exact (owned.back address data).mp there
  | cons a rest ih =>
    obtain ⟨next, stepped, run⟩ := Option.bind_eq_some_iff.mp run
    have after := owned.follow_step there stepped
    have kept := owned.step stepped
    rw [follow]
    cases went : a.follow address with
    | none =>
      rw [went] at after
      exact kept.gone_run after run
    | some now =>
      rw [went] at after
      exact ih kept ((kept.back now data).mpr after.1) run

theorem run {labels : List Action} (owned : Owned s) (run : exec machine s labels = some t) :
    Owned t := by
  induction labels generalizing s with
  | nil =>
    cases run
    exact owned
  | cons a rest ih =>
    obtain ⟨next, stepped, run⟩ := Option.bind_eq_some_iff.mp run
    exact ih (owned.step stepped) run

theorem makeBatch_iff (owned : Owned s) {address : Address} {data : LocalPtr} :
    s.makeBatch address = some data ↔ s.locals data = some ⟨address⟩ := by
  simp only [State.makeBatch, Option.bind_eq_bind, Option.bind_eq_some_iff]
  constructor
  · rintro ⟨⟨localData⟩, there, found, holds, _, _, same⟩
    cases same
    cases holds
    exact (owned.back address data).mp there
  · intro here
    exact ⟨_, (owned.back address data).mpr here, data, rfl, _, here, rfl⟩

theorem makeScript_of_makeBatch (owned : Owned s) {address : Address} {data : LocalPtr}
    (made : s.makeBatch address = some data) : s.makeScript address = some (data, data) := by
  have here := owned.makeBatch_iff.mp made
  have there := (owned.back address data).mpr here
  simp only [State.makeScript, Option.bind_eq_bind, there, Option.bind_some, here, made]

end Owned

/-- Whatever is done after a command has been at an address, the batches and scripts it has made
lead to a connection that is there exactly as long as the command is, and a pointer to it, as the
scan iterators have one, leads to its connection exactly if it is at the pointer. -/
theorem handles_follow {s t : State} (labels : List Action) (address : Address) (data : LocalPtr)
    (reached : Reaches machine always s) (there : s.commands address = some ⟨some data⟩)
    (run : exec machine s labels = some t) :
    t.locals data = (follow labels address).map LocalData.mk ∧
      (∀ pointer, t.makeBatch pointer = some data ↔ follow labels address = some pointer) ∧
      ∀ pointer, follow labels address = some pointer →
        t.makeScript pointer = some (data, data) := by
  have owned := reached.invariant Owned.empty fun owned _ stepped => owned.step stepped
  have after := owned.run run
  have went := owned.follow_run there run
  have makes (pointer : Address) :
      t.makeBatch pointer = some data ↔ follow labels address = some pointer := by
    rw [after.makeBatch_iff, went]
    simp
  exact ⟨went, makes, fun pointer here => after.makeScript_of_makeBatch ((makes pointer).mpr here)⟩

/-- Another command where the first one was, which has been moved away -/
theorem handles_follow_moved :
    ∃ s t, exec machine {} [.construct 0] = some s ∧
      exec machine s [.move 1 0, .destroy 0, .construct 0] = some t ∧
      t.locals 0 = some ⟨1⟩ ∧ t.makeBatch 0 ≠ some 0 ∧ t.makeScript 1 = some (0, 0) := by
  have follows := handles_follow [.move 1 0, .destroy 0, .construct 0] 0 0
    ((initially machine always).next (a := .construct 0) trivial rfl) rfl rfl
  refine ⟨_, _, rfl, rfl, follows.1, fun back => ?_, follows.2.2 1 rfl⟩
  have moved := (follows.2.1 0).mp back
  exact absurd moved (by decide)

end Incredis.Ownership
