import Incredis.Script.Flush
import Mathlib.Data.List.Forall2
import Std.Data.String.ToNat

/-! `Script::run` over the life of its manager. The `string_view` of a `Script` is into a
container that later calls of `make_script` grow, and the server takes the request apart by the
number of its keys. -/
namespace Incredis

/-- The view, and whether there is a manager at all. -/
structure Script where
  mSha1 : Script.HashView
  mManager : Bool

namespace Script

/-- `Script::Script(parSha1, parManager)` -/
def ofManager (parSha1 : HashView) : Script := ⟨parSha1, true⟩

/-- `Script::run_with_indices`: what it gives to `Batch::run`. The argument of `int_conv`
is the number of keys, a `std::size_t`. -/
def run (intConv : Nat → String) (asserts : Bool) (manager : ScriptManager) (script : Script)
    (parKeys parValues : List String) : Except Exception Request := do
  cassert asserts (manager.viewed script.mSha1 ≠ "")
  cassert asserts script.mManager
  return "EVALSHA" :: manager.viewed script.mSha1 :: intConv parKeys.length ::
    parKeys ++ parValues

/-- A script run by the server, with its `KEYS` and its `ARGV`. -/
structure Execution where
  parScript : String
  keys : List String
  values : List String
deriving DecidableEq, Repr

/-- What is relied on of a server, which gets the scripts it holds and a request: `EVALSHA` runs
the script with the hash, the number before the keys says where the values start, and there is an
error, `none`, if no script has the hash. -/
structure RunsByHash (hashing : Hashing)
    (evalsha : List String → Request → Option Execution) : Prop where
  runs : ∀ cache parScript keys values, parScript ∈ cache →
    (∀ other ∈ cache, sha1Of hashing other = sha1Of hashing parScript → other = parScript) →
    evalsha cache ("EVALSHA" :: sha1Of hashing parScript :: keys.length.repr :: keys ++ values) =
      some ⟨parScript, keys, values⟩
  misses : ∀ cache parScript arguments,
    (∀ other ∈ cache, sha1Of hashing other ≠ sha1Of hashing parScript) →
    evalsha cache ("EVALSHA" :: sha1Of hashing parScript :: arguments) = none
  blank : ∀ cache arguments, evalsha cache ("EVALSHA" :: "" :: arguments) = none

/-- Calls on one connection. A script is named by the number of its `make_script`. -/
inductive Call
  | op (op : Op)
  | run (script : Nat) (parKeys parValues : List String)
deriving DecidableEq, Repr

def Call.op? : Call → Option Op
  | .op inner => Option.some inner
  | .run .. => Option.none

def Op.text? : Op → Option String
  | makeScript parScript => Option.some parScript
  | _ => Option.none

def opsOf (calls : List Call) : List Op := calls.filterMap Call.op?

/-- The texts of the scripts that were made. -/
def madeBy (calls : List Call) : List String := (opsOf calls).filterMap Op.text?

/-- A session with the `Script` objects that came out of it. -/
structure Holder where
  session : Session
  scripts : List Script

namespace Holder
variable (hashing : Hashing) (server : Server) (intConv : Nat → String) (asserts : Bool)
  (uninitialised : Sha1Array)

def start (build : Build) : Holder := ⟨.start build, []⟩

/-- `Command::make_script` -/
def makeScript (h : Holder) (parScript : String) : Holder :=
  match h.session.makeScript hashing server asserts uninitialised parScript with
  | (session, .ok sha1) => ⟨session, h.scripts ++ [.ofManager sha1]⟩
  | (session, .error _) => ⟨session, h.scripts⟩

/-- The request of a run of one of the scripts. -/
def request (h : Holder) (script : Nat) (parKeys parValues : List String) :
    Option (Except Exception Request) :=
  h.scripts[script]?.map fun script =>
    script.run intConv asserts h.session.manager parKeys parValues

def call (h : Holder) : Call → Holder
  | .op (.makeScript parScript) => h.makeScript hashing server asserts uninitialised parScript
  | .op op => { h with session := h.session.perform hashing server asserts uninitialised op }
  | .run script parKeys parValues =>
    match h.request intConv asserts script parKeys parValues with
    | some (.ok request) =>
      { h with session := { h.session with requests := h.session.requests ++ [request] } }
    | _ => h

def after (build : Build) (calls : List Call) : Holder :=
  calls.foldl (call hashing server intConv asserts uninitialised) (start build)

theorem after_append (build : Build) (calls : List Call) (last : Call) :
    after hashing server intConv asserts uninitialised build (calls ++ [last]) =
      call hashing server intConv asserts uninitialised
        (after hashing server intConv asserts uninitialised build calls) last := by
  simp only [after, List.foldl_append, List.foldl_cons, List.foldl_nil]

/-- What comes of a run: the server executes the request with the scripts it holds. -/
def executes (evalsha : List String → Request → Option Execution) (h : Holder) (script : Nat) (parKeys parValues : List String) :
    Option (Except Exception (Option Execution)) :=
  (h.request intConv asserts script parKeys parValues).map
    (Except.map (evalsha (scriptCache h.session.requests)))

end Holder

section Views

/-- Nodes stay where they are, and new ones come behind them. -/
theorem submitLuaScript_grows (hashing : Hashing) (server : Server) (asserts : Bool)
    (uninitialised : Sha1Array) (manager : ScriptManager) (requests : List Request)
    (parScript : String) : manager.arrays <+:
      (manager.submitLuaScript hashing server asserts uninitialised requests parScript).manager.arrays := by
  cases manager with
  | cryptopp knownHashes =>
    simp only [ScriptManager.submitLuaScript, addLuaScriptIfnCryptopp]
    split
    · exact List.prefix_refl _
    · split
      · exact List.prefix_refl _
      · split
        · exact List.prefix_refl _
        · split
          · exact List.prefix_refl _
          · exact List.prefix_append _ _
  | plain knownScripts =>
    simp only [ScriptManager.submitLuaScript, addLuaScriptIfn]
    split
    · exact List.prefix_refl _
    · split
      · exact List.prefix_refl _
      · simp only [ScriptManager.arrays, List.map_append]
        exact List.prefix_append _ _

/-- So a view that shows something goes on showing it. -/
theorem viewed_grown {manager later : ScriptManager} (grown : manager.arrays <+: later.arrays)
    {sha1 : HashView} (shows : manager.viewed sha1 ≠ "") :
    later.viewed sha1 = manager.viewed sha1 := by
  rcases sha1 with _ | node
  · rfl
  · cases at_ : manager.arrays[node]? with
    | none => simp [ScriptManager.viewed, at_] at shows
    | some array =>
      have kept : later.arrays[node]? = some array := by
        obtain ⟨bound, rfl⟩ := List.getElem?_eq_some_iff.mp at_
        exact List.prefix_iff_getElem?.mp grown node bound
      rw [viewed_of_array array at_, viewed_of_array array kept]

/-- The object has what `make_script` was to give it. -/
structure Names (hashing : Hashing) (build : Build) (manager : ScriptManager) (parScript : String)
    (script : Script) : Prop where
  managed : script.mManager = true
  skipped : Skips build parScript → script.mSha1 = none
  text : ¬ Skips build parScript → manager.viewed script.mSha1 = sha1Of hashing parScript

theorem Names.grown {hashing : Hashing} {build : Build} {manager later : ScriptManager}
    {parScript : String} {script : Script} (names : Names hashing build manager parScript script)
    (grown : manager.arrays <+: later.arrays) : Names hashing build later parScript script where
  managed := names.managed
  skipped := names.skipped
  text named := by
    have text := names.text named
    rw [viewed_grown grown (by rw [text]; exact sha1Of_ne_empty hashing parScript), text]

end Views

section Requests
variable {hashing : Hashing} {build : Build} {manager : ScriptManager} {parScript : String}
  {script : Script} {intConv : Nat → String} {asserts : Bool} {parKeys parValues : List String}

def evalshaRequest (hashing : Hashing) (intConv : Nat → String) (parScript : String)
    (parKeys parValues : List String) : Request :=
  "EVALSHA" :: sha1Of hashing parScript :: intConv parKeys.length :: parKeys ++ parValues

theorem run_named (names : Names hashing build manager parScript script)
    (named : ¬ Skips build parScript) :
    script.run intConv asserts manager parKeys parValues =
      .ok (evalshaRequest hashing intConv parScript parKeys parValues) := by
  have text := names.text named
  have shows : manager.viewed script.mSha1 ≠ "" := by
    rw [text]
    exact sha1Of_ne_empty hashing parScript
  rw [Script.run, cassert_of shows, cassert_of names.managed, text]
  rfl

/-- Without a hash the assertion stops the run, or the server does. -/
theorem run_blank (blank : manager.viewed script.mSha1 = "") :
    script.run intConv asserts manager parKeys parValues =
      if asserts then .error .assertion
      else .ok ("EVALSHA" :: "" :: intConv parKeys.length :: parKeys ++ parValues) := by
  rw [Script.run, blank]
  cases asserts
  · rw [cassert_off, cassert_off]
    rfl
  · rfl

theorem run_cases (manager : ScriptManager) (script : Script) :
    script.run intConv asserts manager parKeys parValues = .error .assertion ∨
      ∃ arguments, script.run intConv asserts manager parKeys parValues =
        .ok ("EVALSHA" :: arguments) := by
  rw [Script.run, cassert, cassert]
  split
  · exact .inl rfl
  · split
    · exact .inl rfl
    · exact .inr ⟨_, rfl⟩

theorem Names.blank (names : Names hashing build manager parScript script)
    (skipped : Skips build parScript) : manager.viewed script.mSha1 = "" := by
  rw [names.skipped skipped]
  rfl

theorem scriptCache_evalsha (requests : List Request) (arguments : List String) :
    scriptCache (requests ++ ["EVALSHA" :: arguments]) = scriptCache requests := by
  simp [scriptCache, scriptFlushRequest]

end Requests

section Calls
variable {hashing : Hashing} {server : Server} {used : String → Prop} {intConv : Nat → String}
  {build : Build} {calls : List Call} {h : Holder} {loaded : List String} {parScript : String}

instance (ops : List Op) (parScript : String) : Decidable (FlushedSince ops parScript) :=
  decidable_of_iff ([.makeScript parScript, .scriptFlush].Sublist ops ∨
      [.makeScript parScript, .batchScriptFlush].Sublist ops) <| by
    constructor
    · rintro (within | within)
      · exact ⟨.scriptFlush, trivial, within⟩
      · exact ⟨.batchScriptFlush, trivial, within⟩
    · rintro ⟨flush, flushes, within⟩
      cases flush with
      | makeScript other => exact flushes.elim
      | scriptFlush => exact .inl within
      | batchScriptFlush => exact .inr within

/-- Between two calls: the manager and the server are as the calls on them left them, and
every script that was made can still be named. -/
structure Holds (hashing : Hashing) (build : Build) (calls : List Call) (h : Holder)
    (loaded : List String) : Prop where
  made : Made hashing build (opsOf calls) h.session loaded
  names : List.Forall₂ (Names hashing build h.session.manager) (madeBy calls) h.scripts

theorem opsOf_op (calls : List Call) (op : Op) : opsOf (calls ++ [.op op]) = opsOf calls ++ [op] := by
  simp [opsOf, Call.op?]

theorem opsOf_run (calls : List Call) (script : Nat) (parKeys parValues : List String) :
    opsOf (calls ++ [.run script parKeys parValues]) = opsOf calls := by
  simp [opsOf, Call.op?]

theorem mem_opsOf {op : Op} : op ∈ opsOf calls ↔ .op op ∈ calls := by
  simp only [opsOf, List.mem_filterMap]
  constructor
  · rintro ⟨call, member, same⟩
    cases call with
    | op inner => rwa [← Option.some.inj same]
    | run => contradiction
  · exact fun member => ⟨_, member, rfl⟩

theorem mem_madeBy : parScript ∈ madeBy calls ↔ .op (.makeScript parScript) ∈ calls := by
  rw [madeBy, List.mem_filterMap]
  constructor
  · rintro ⟨op, member, same⟩
    cases op with
    | makeScript other => exact mem_opsOf.mp (by rwa [← Option.some.inj same])
    | scriptFlush | batchScriptFlush => contradiction
  · exact fun member => ⟨_, mem_opsOf.mpr member, rfl⟩

namespace Holds

theorem makeScript (asserts : Bool) (uninitialised : Sha1Array)
    (setting : Setting hashing server used) (usedScript : used parScript)
    (usedBefore : ∀ other, .makeScript other ∈ opsOf calls → used other)
    (holds : Holds hashing build calls h loaded) :
    ∃ loaded', Holds hashing build (calls ++ [.op (.makeScript parScript)])
      (h.makeScript hashing server asserts uninitialised parScript) loaded' := by
  obtain ⟨next, view, loaded', returned, made, text⟩ :=
    holds.made.makeScript asserts uninitialised setting usedScript usedBefore
  have grown : h.session.manager.arrays <+: next.manager.arrays := by
    rw [show next = _ from (congrArg Prod.fst returned).symm]
    exact submitLuaScript_grows ..
  have names : Names hashing build next.manager parScript (.ofManager view) := by
    refine ⟨rfl, fun skipped => ?_, fun named => by rwa [if_neg named] at text⟩
    simp only [Session.makeScript, holds.made.manager,
      submit_skipped asserts uninitialised _ skipped, Prod.mk.injEq, Except.ok.injEq] at returned
    exact returned.2.symm
  refine ⟨loaded', ?_, ?_⟩
  · rw [opsOf_op]
    simpa only [Holder.makeScript, returned] using made
  · have texts : madeBy (calls ++ [.op (.makeScript parScript)]) = madeBy calls ++ [parScript] := by
      simp [madeBy, opsOf_op, Op.text?]
    rw [texts]
    simp only [Holder.makeScript, returned]
    exact List.rel_append (holds.names.imp fun _ _ earlier => earlier.grown grown)
      (.cons names .nil)

theorem flush (holds : Holds hashing build calls h loaded) {op : Op} (flushes : op.Flushes) :
    Holds hashing build (calls ++ [.op op])
      { h with session := { h.session with requests := h.session.requests ++ [scriptFlushRequest] } }
      loaded := by
  refine ⟨?_, ?_⟩
  · rw [opsOf_op]
    exact holds.made.flush flushes
  · have texts : madeBy (calls ++ [.op op]) = madeBy calls := by
      cases op with
      | makeScript other => exact flushes.elim
      | scriptFlush | batchScriptFlush => simp [madeBy, opsOf_op, Op.text?]
    rw [texts]
    exact holds.names

/-- A run asks for `EVALSHA` or fails, and leaves the scripts as they are. -/
theorem run (holds : Holds hashing build calls h loaded) (asserts : Bool)
    (uninitialised : Sha1Array) (script : Nat) (parKeys parValues : List String) :
    Holds hashing build (calls ++ [.run script parKeys parValues])
      (h.call hashing server intConv asserts uninitialised (.run script parKeys parValues))
      loaded := by
  have texts : madeBy (calls ++ [.run script parKeys parValues]) = madeBy calls := by
    rw [madeBy, opsOf_run, madeBy]
  simp only [Holder.call]
  split
  · rename_i request asked
    obtain ⟨arguments, rfl⟩ : ∃ arguments, request = "EVALSHA" :: arguments := by
      obtain ⟨object, _, ran⟩ := Option.map_eq_some_iff.mp asked
      rcases run_cases h.session.manager object with failed | ⟨arguments, sent⟩
      · rw [failed] at ran
        contradiction
      · rw [sent] at ran
        exact ⟨arguments, (Except.ok.inj ran).symm⟩
    refine ⟨?_, by rw [texts]; exact holds.names⟩
    rw [opsOf_run]
    refine ⟨holds.made.manager, holds.made.loaded_iff, fun other => ?_⟩
    rw [scriptCache_evalsha]
    exact holds.made.cached_iff other
  · exact ⟨by rw [opsOf_run]; exact holds.made, by rw [texts]; exact holds.names⟩

end Holds

theorem holds_after (build : Build) (asserts : Bool) (uninitialised : Sha1Array)
    (setting : Setting hashing server used) (intConv : Nat → String) (calls : List Call)
    (usedCalls : ∀ parScript, .op (.makeScript parScript) ∈ calls → used parScript) :
    ∃ loaded, Holds hashing build calls
      (Holder.after hashing server intConv asserts uninitialised build calls) loaded := by
  induction calls using List.reverseRecOn with
  | nil => exact ⟨[], .start hashing build, .nil⟩
  | append_singleton calls call ih =>
    obtain ⟨loaded, holds⟩ := ih fun other made => usedCalls other (List.mem_append_left _ made)
    rw [Holder.after_append]
    cases call with
    | run script parKeys parValues => exact ⟨loaded, holds.run asserts uninitialised _ _ _⟩
    | op op =>
      cases op with
      | makeScript parScript =>
        exact holds.makeScript asserts uninitialised setting (usedCalls parScript (by simp))
          fun other made => usedCalls other (List.mem_append_left _ (mem_opsOf.mp made))
      | scriptFlush | batchScriptFlush => exact ⟨loaded, holds.flush trivial⟩

/-- Whatever was called before, the run of a script has the server execute the text it was
made of, with the keys and the values of the call, unless a flush came after the text had been
made a script, this one or another. -/
theorem script_runs (build : Build) (asserts : Bool) (uninitialised : Sha1Array)
    (setting : Setting hashing server used) {evalsha : List String → Request → Option Execution}
    (redis : RunsByHash hashing evalsha) (counts : ∀ n < 2 ^ 64, intConv n = n.repr)
    (calls : List Call)
    (usedCalls : ∀ parScript, .op (.makeScript parScript) ∈ calls → used parScript)
    {script : Nat} (made : (madeBy calls)[script]? = some parScript) (parKeys parValues : List String)
    (size : parKeys.length < 2 ^ 64) :
    (Holder.after hashing server intConv asserts uninitialised build calls).executes intConv asserts
        evalsha script parKeys parValues = some (
      if Skips build parScript then if asserts then .error .assertion else .ok none
      else .ok (if FlushedSince (opsOf calls) parScript then none
        else some ⟨parScript, parKeys, parValues⟩)) := by
  obtain ⟨loaded, holds⟩ := holds_after build asserts uninitialised setting intConv calls usedCalls
  generalize Holder.after hashing server intConv asserts uninitialised build calls = h at holds
  obtain ⟨bound, rfl⟩ := List.getElem?_eq_some_iff.mp made
  have within : script < h.scripts.length := holds.names.length_eq ▸ bound
  have names : Names hashing build h.session.manager (madeBy calls)[script] h.scripts[script] :=
    holds.names.get bound within
  rw [Holder.executes, Holder.request, List.getElem?_eq_getElem within, Option.map_some,
    Option.map_some, Option.some.injEq]
  by_cases skipped : Skips build (madeBy calls)[script]
  · rw [if_pos skipped, run_blank (names.blank skipped)]
    cases asserts
    · exact congrArg Except.ok (redis.blank _ _)
    · rfl
  · rw [if_neg skipped, run_named names skipped, evalshaRequest, counts _ size]
    refine congrArg Except.ok ?_
    have called := mem_madeBy.mp (List.getElem_mem bound)
    have alone : ∀ other ∈ scriptCache h.session.requests,
        sha1Of hashing other = sha1Of hashing (madeBy calls)[script] →
          other = (madeBy calls)[script] := by
      intro other member same
      have known := ((holds.made.cached_iff other).mp member).1
      have usedOther := usedCalls other (mem_opsOf.mp ((holds.made.loaded_iff other).mp known).1)
      exact setting.collisionFree other _ usedOther (usedCalls _ called) same
    have present : (madeBy calls)[script] ∈ scriptCache h.session.requests ↔
        ¬ FlushedSince (opsOf calls) (madeBy calls)[script] := by
      rw [holds.made.cached_iff, holds.made.loaded_iff]
      exact ⟨And.right, fun kept => ⟨⟨mem_opsOf.mpr called, skipped⟩, kept⟩⟩
    by_cases flushed : FlushedSince (opsOf calls) (madeBy calls)[script]
    · rw [if_pos flushed]
      refine redis.misses _ _ _ fun other member same => ?_
      rw [alone other member same] at member
      exact present.mp member flushed
    · rw [if_neg flushed]
      exact redis.runs _ _ _ _ (present.mpr flushed) alone

end Calls

/-- A server that looks the hash up among its scripts. -/
def lookUp (hashing : Hashing) (cache : List String) : Request → Option Execution
  | "EVALSHA" :: sha1 :: numkeys :: arguments => do
    let keyCount ← numkeys.toNat?
    let parScript ← cache.find? (sha1Of hashing · = sha1)
    if keyCount ≤ arguments.length then
      some ⟨parScript, arguments.take keyCount, arguments.drop keyCount⟩
    else none
  | _ => none

theorem lookUp_runsByHash (hashing : Hashing) : RunsByHash hashing (lookUp hashing) := by
  have missing {cache : List String} {sha1 : String} (arguments : List String)
      (none_ : ∀ other ∈ cache, sha1Of hashing other ≠ sha1) :
      lookUp hashing cache ("EVALSHA" :: sha1 :: arguments) = none := by
    have absent : cache.find? (sha1Of hashing · = sha1) = none :=
      List.find?_eq_none.mpr fun other member => by simpa using none_ other member
    cases arguments with
    | nil => rfl
    | cons numkeys arguments => simp [lookUp, absent]
  refine ⟨fun cache parScript keys values member alone => ?_,
    fun cache parScript arguments => missing arguments,
    fun cache arguments => missing arguments fun other _ => sha1Of_ne_empty hashing other⟩
  obtain ⟨other, found⟩ : ∃ other,
      cache.find? (sha1Of hashing · = sha1Of hashing parScript) = some other := by
    rw [← Option.isSome_iff_exists, List.find?_isSome]
    exact ⟨parScript, member, by simp⟩
  have same : sha1Of hashing other = sha1Of hashing parScript := by
    simpa using List.find?_some found
  obtain rfl := alone other (List.mem_of_find?_eq_some found) same
  simp [lookUp, found]

/-- The first of two scripts runs. After a flush a second script of the first text is missing, and
one of another text runs. -/
theorem script_runs_first :
    (Holder.after twoScripts (scriptServer twoScripts) Nat.repr true blank .cryptopp
      [.op (.makeScript "return 1"), .run 0 [] [], .op (.makeScript "return 2")]).executes
        Nat.repr true (lookUp twoScripts) 0 ["a", "b"] ["2"] =
          some (.ok (some ⟨"return 1", ["a", "b"], ["2"]⟩)) ∧
    (Holder.after twoScripts (scriptServer twoScripts) Nat.repr true blank .cryptopp
      [.op (.makeScript "return 1"), .op .scriptFlush, .op (.makeScript "return 1")]).executes
        Nat.repr true (lookUp twoScripts) 1 ["a", "b"] ["2"] = some (.ok none) ∧
    (Holder.after twoScripts (scriptServer twoScripts) Nat.repr true blank .cryptopp
      [.op (.makeScript "return 1"), .op .scriptFlush, .op (.makeScript "return 2")]).executes
        Nat.repr true (lookUp twoScripts) 1 ["a", "b"] ["2"] =
          some (.ok (some ⟨"return 2", ["a", "b"], ["2"]⟩)) := by
  have counts : ∀ n < 2 ^ 64, n.repr = n.repr := fun _ _ => rfl
  have redis := lookUp_runsByHash twoScripts
  refine ⟨?_, ?_, ?_⟩
  · refine (script_runs .cryptopp true blank twoScripts_setting redis counts _ (by simp) rfl _ _
      (by decide)).trans ?_
    rw [if_neg (by decide), if_neg (by decide)]
  · refine (script_runs .cryptopp true blank twoScripts_setting redis counts _ (by simp) rfl _ _
      (by decide)).trans ?_
    rw [if_neg (by decide), if_pos (by decide)]
  · refine (script_runs .cryptopp true blank twoScripts_setting redis counts _ (by simp) rfl _ _
      (by decide)).trans ?_
    rw [if_neg (by decide), if_neg (by decide)]

end Script
end Incredis
