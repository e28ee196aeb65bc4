import Incredis.Script.Manager
import Incredis.Transition
import Mathlib.Data.List.Induction

/-! Scripts made and flushed over one connection. The flush commands say nothing to
the `ScriptManager`. -/
namespace Incredis.Script

def scriptFlushRequest : Request := ["SCRIPT", "FLUSH"]

/-- The scripts that the server holds: `SCRIPT LOAD` adds one, `SCRIPT FLUSH` takes
all of them away. -/
def scriptCache : List Request → List String := List.foldl (fun cache request =>
  if request = scriptFlushRequest then []
  else match request with
    | ["SCRIPT", "LOAD", parScript] => parScript :: cache
    | _ => cache) []

@[simp] theorem scriptCache_load (requests : List Request) (parScript : String) :
    scriptCache (requests ++ [scriptLoad parScript]) = parScript :: scriptCache requests := by
  simp [scriptCache, scriptLoad, scriptFlushRequest]

@[simp] theorem scriptCache_flush (requests : List Request) :
    scriptCache (requests ++ [scriptFlushRequest]) = [] := by
  simp [scriptCache]

/-- Calls on one connection; `batchScriptFlush` includes the wait for the reply. -/
inductive Op
  | makeScript (parScript : String)
  | scriptFlush
  | batchScriptFlush
deriving DecidableEq, Repr

def Op.Flushes : Op → Prop
  | .makeScript _ => False
  | _ => True

structure Session where
  requests : List Request
  manager : ScriptManager

namespace Session
variable (hashing : Hashing) (server : Server) (asserts : Bool) (uninitialised : Sha1Array)

def start (build : Build) : Session := ⟨[], .start build⟩

/-- `Command::make_script`, with the view that the `Script` is made of. -/
def makeScript (s : Session) (parScript : String) : Session × Except Exception HashView :=
  let submitted := s.manager.submitLuaScript hashing server asserts uninitialised s.requests
    parScript
  (⟨submitted.requests, submitted.manager⟩, submitted.result)

def scriptFlush (s : Session) : Session × Except Exception Bool :=
  let requests := s.requests ++ [scriptFlushRequest]
  ({ s with requests }, do
    let ret ← getStatus asserts (← commandRun (server requests))
    return ret = "OK")

def batchScriptFlush (s : Session) : Session :=
  { s with requests := s.requests ++ [scriptFlushRequest] }

def perform (s : Session) : Op → Session
  | .makeScript parScript => (s.makeScript hashing server asserts uninitialised parScript).1
  | .scriptFlush => (s.scriptFlush server asserts).1
  | .batchScriptFlush => s.batchScriptFlush

def after (build : Build) (ops : List Op) : Session :=
  ops.foldl (perform hashing server asserts uninitialised) (start build)

theorem after_append (build : Build) (ops : List Op) (op : Op) :
    after hashing server asserts uninitialised build (ops ++ [op]) =
      perform hashing server asserts uninitialised
        (after hashing server asserts uninitialised build ops) op := by
  simp only [after, List.foldl_append, List.foldl_cons, List.foldl_nil]

end Session

/-- `EVALSHA` finds a script for the hash, if there is a hash. -/
def Runnable (hashing : Hashing) (s : Session) (sha1 : HashView) : Prop :=
  s.manager.viewed sha1 ≠ "" →
    ∃ cached ∈ scriptCache s.requests, sha1Of hashing cached = s.manager.viewed sha1

/-- A flush came after a call for the script. -/
def FlushedSince (ops : List Op) (parScript : String) : Prop :=
  ∃ flush, flush.Flushes ∧ [.makeScript parScript, flush].Sublist ops

theorem flushedSince_append (ops : List Op) (op : Op) (parScript : String) :
    FlushedSince (ops ++ [op]) parScript ↔
      FlushedSince ops parScript ∨ op.Flushes ∧ .makeScript parScript ∈ ops := by
  simp only [FlushedSince, Transition.pair_sublist_concat]
  constructor
  · rintro ⟨flush, flushes, within | ⟨made, rfl⟩⟩
    · exact .inl ⟨flush, flushes, within⟩
    · exact .inr ⟨flushes, made⟩
  · rintro (⟨flush, flushes, within⟩ | ⟨flushes, made⟩)
    · exact ⟨flush, flushes, .inl within⟩
    · exact ⟨op, flushes, .inr ⟨made, rfl⟩⟩

theorem flushedSince_makeScript (ops : List Op) (made parScript : String) :
    FlushedSince (ops ++ [.makeScript made]) parScript ↔ FlushedSince ops parScript := by
  simp [flushedSince_append, Op.Flushes]

theorem FlushedSince.made {ops : List Op} {parScript : String}
    (flushed : FlushedSince ops parScript) : .makeScript parScript ∈ ops := by
  obtain ⟨flush, _, within⟩ := flushed
  exact within.subset (List.mem_cons_self ..)

/-- What the calls so far have left behind. -/
structure Made (hashing : Hashing) (build : Build) (ops : List Op) (s : Session)
    (loaded : List String) : Prop where
  manager : s.manager = knowing hashing loaded build
  loaded_iff : ∀ parScript,
    parScript ∈ loaded ↔ .makeScript parScript ∈ ops ∧ ¬ Skips build parScript
  cached_iff : ∀ parScript,
    parScript ∈ scriptCache s.requests ↔ parScript ∈ loaded ∧ ¬ FlushedSince ops parScript

section
variable {hashing : Hashing} {server : Server} {used : String → Prop} {build : Build}
  {ops : List Op} {s : Session} {loaded : List String}

namespace Made

theorem start (hashing : Hashing) (build : Build) : Made hashing build [] (.start build) [] := by
  constructor
  · exact (knowing_nil hashing build).symm
  · simp
  · simp [Session.start, scriptCache]

/-- Both flush commands empty the server and leave the manager as it was. -/
theorem flush (made : Made hashing build ops s loaded) {op : Op} (flushes : op.Flushes) :
    Made hashing build (ops ++ [op])
      { s with requests := s.requests ++ [scriptFlushRequest] } loaded := by
  constructor
  · exact made.manager
  · intro parScript
    rw [made.loaded_iff]
    cases op with
    | makeScript other => exact flushes.elim
    | scriptFlush => simp
    | batchScriptFlush => simp
  · intro parScript
    rw [scriptCache_flush, flushedSince_append, made.loaded_iff]
    constructor
    · intro none
      contradiction
    · rintro ⟨⟨called, _⟩, kept⟩
      exact absurd (.inr ⟨flushes, called⟩) kept

/-- Nothing changed, and nothing had to. -/
theorem same (made : Made hashing build ops s loaded) {parScript : String}
    (there : Skips build parScript ∨ parScript ∈ loaded) :
    Made hashing build (ops ++ [.makeScript parScript]) s loaded := by
  constructor
  · exact made.manager
  · intro other
    rw [made.loaded_iff, List.mem_append, List.mem_singleton, Op.makeScript.injEq]
    constructor
    · rintro ⟨called, named⟩
      exact ⟨.inl called, named⟩
    · rintro ⟨called | rfl, named⟩
      · exact ⟨called, named⟩
      · rcases there with skipped | known
        · contradiction
        · exact (made.loaded_iff _).mp known
  · intro other
    rw [flushedSince_makeScript]
    exact made.cached_iff other

theorem load (made : Made hashing build ops s loaded) {parScript : String}
    (named : ¬ Skips build parScript) (new : parScript ∉ loaded) :
    Made hashing build (ops ++ [.makeScript parScript])
      ⟨s.requests ++ [scriptLoad parScript], knowing hashing (loaded ++ [parScript]) build⟩
      (loaded ++ [parScript]) := by
  have unflushed : ¬ FlushedSince ops parScript := by
    intro flushed
    exact new ((made.loaded_iff _).mpr ⟨flushed.made, named⟩)
  constructor
  · rfl
  · intro other
    rw [List.mem_append, List.mem_append, List.mem_singleton, List.mem_singleton,
      Op.makeScript.injEq, made.loaded_iff]
    constructor
    · rintro (⟨called, namedOther⟩ | rfl)
      · exact ⟨.inl called, namedOther⟩
      · exact ⟨.inr rfl, named⟩
    · rintro ⟨called | rfl, namedOther⟩
      · exact .inl ⟨called, namedOther⟩
      · exact .inr rfl
  · intro other
    rw [scriptCache_load, List.mem_cons, flushedSince_makeScript, List.mem_append,
      List.mem_singleton, made.cached_iff]
    constructor
    · rintro (rfl | ⟨known, kept⟩)
      · exact ⟨.inr rfl, unflushed⟩
      · exact ⟨.inl known, kept⟩
    · rintro ⟨known | rfl, kept⟩
      · exact .inr ⟨known, kept⟩
      · exact .inl rfl

section
variable (asserts : Bool) (uninitialised : Sha1Array)

/-- `make_script` returns, with the hash of the script. -/
theorem makeScript (setting : Setting hashing server used)
    (made : Made hashing build ops s loaded) {parScript : String} (usedScript : used parScript)
    (usedBefore : ∀ other, .makeScript other ∈ ops → used other) :
    ∃ next view loaded',
      s.makeScript hashing server asserts uninitialised parScript = (next, .ok view) ∧
      Made hashing build (ops ++ [.makeScript parScript]) next loaded' ∧
      next.manager.viewed view =
        if Skips build parScript then "" else sha1Of hashing parScript := by
  by_cases named : Skips build parScript
  · refine ⟨s, none, loaded, ?_, made.same (.inl named), by rw [if_pos named]; rfl⟩
    simp only [Session.makeScript, made.manager,
      submit_skipped asserts uninitialised s.requests named]
    rw [← made.manager]
  · rw [if_neg named]
    by_cases known : parScript ∈ loaded
    · obtain ⟨node, submitted, text⟩ :=
        submit_known asserts uninitialised s.requests server setting.hashed named known
      refine ⟨s, some node, loaded, ?_, made.same (.inr known), made.manager ▸ text⟩
      simp only [Session.makeScript, made.manager, submitted]
      rw [← made.manager]
    · have usedLoaded : ∀ other ∈ loaded, used other := fun other member =>
        usedBefore other ((made.loaded_iff other).mp member).1
      refine ⟨_, some loaded.length, loaded ++ [parScript], ?_, made.load named known,
        viewed_append hashing loaded parScript build⟩
      simp only [Session.makeScript, made.manager,
        submit_new asserts uninitialised s.requests setting.hashed named usedScript usedLoaded known
          (setting.answered usedScript s.requests)]

end

/-- Every sequence of calls. -/
theorem after (build : Build) (asserts : Bool) (uninitialised : Sha1Array)
    (setting : Setting hashing server used) (ops : List Op)
    (usedOps : ∀ parScript, .makeScript parScript ∈ ops → used parScript) :
    ∃ loaded, Made hashing build ops
      (Session.after hashing server asserts uninitialised build ops) loaded := by
  induction ops using List.reverseRecOn with
  | nil => exact ⟨[], start hashing build⟩
  | append_singleton ops op ih =>
    have usedBefore : ∀ parScript, .makeScript parScript ∈ ops → used parScript :=
      fun parScript called => usedOps parScript (List.mem_append_left _ called)
    obtain ⟨loaded, made⟩ := ih usedBefore
    rw [Session.after_append]
    cases op with
    | makeScript parScript =>
      have usedScript := usedOps parScript (List.mem_append_right _ (List.mem_singleton_self _))
      obtain ⟨next, view, loaded', returned, made', _⟩ :=
        made.makeScript asserts uninitialised setting usedScript usedBefore
      exact ⟨loaded', by simpa only [Session.perform, returned] using made'⟩
    | scriptFlush => exact ⟨loaded, made.flush trivial⟩
    | batchScriptFlush => exact ⟨loaded, made.flush trivial⟩

end Made

theorem sha1Of_ne_empty (hashing : Hashing) (parScript : String) :
    sha1Of hashing parScript ≠ "" := by
  intro empty
  have length := length_hexText (hashing.calculateDigest parScript)
  rw [show hexText _ = "" from empty] at length
  contradiction

/-- A script with the hash that was returned is the script itself. -/
theorem Made.runnable_iff (setting : Setting hashing server used) {parScript : String}
    (usedOps : ∀ other, .makeScript other ∈ ops ++ [.makeScript parScript] → used other)
    (made : Made hashing build (ops ++ [.makeScript parScript]) s loaded) {view : HashView}
    (text : s.manager.viewed view =
      if Skips build parScript then "" else sha1Of hashing parScript) :
    Runnable hashing s view ↔ Skips build parScript ∨ ¬ FlushedSince ops parScript := by
  have called : .makeScript parScript ∈ ops ++ [.makeScript parScript] :=
    List.mem_append_right _ (List.mem_singleton_self _)
  by_cases named : Skips build parScript
  · rw [if_pos named] at text
    exact ⟨fun _ => .inl named, fun _ someText => absurd text someText⟩
  · rw [if_neg named] at text
    have present : Runnable hashing s view ↔ parScript ∈ scriptCache s.requests := by
      rw [Runnable, text]
      constructor
      · intro runs
        obtain ⟨cached, member, same⟩ := runs (sha1Of_ne_empty hashing parScript)
        have known := ((made.cached_iff cached).mp member).1
        have usedCached := usedOps cached ((made.loaded_iff cached).mp known).1
        rwa [setting.collisionFree cached parScript usedCached (usedOps parScript called) same]
          at member
      · intro member _
        exact ⟨parScript, member, rfl⟩
    have known : parScript ∈ loaded := (made.loaded_iff parScript).mpr ⟨called, named⟩
    rw [present, made.cached_iff, flushedSince_makeScript]
    exact ⟨fun cached => .inr cached.2, fun free => ⟨known, free.resolve_left named⟩⟩

/-- Right after `make_script` the server has the script, unless it was flushed away and
the manager does not know. -/
theorem returned_hash_runs_iff (setting : Setting hashing server used) (build : Build)
    (asserts : Bool) (uninitialised : Sha1Array) (ops : List Op) (parScript : String)
    (usedOps : ∀ other, .makeScript other ∈ ops ++ [.makeScript parScript] → used other) :
    ∃ next view, (Session.after hashing server asserts uninitialised build ops).makeScript
        hashing server asserts uninitialised parScript = (next, .ok view) ∧
      (Runnable hashing next view ↔ Skips build parScript ∨ ¬ FlushedSince ops parScript) := by
  have usedScript : used parScript :=
    usedOps parScript (List.mem_append_right _ (List.mem_singleton_self _))
  have usedBefore : ∀ other, .makeScript other ∈ ops → used other :=
    fun other called => usedOps other (List.mem_append_left _ called)
  obtain ⟨loaded, before⟩ := Made.after build asserts uninitialised setting ops usedBefore
  obtain ⟨next, view, loaded', returned, made, text⟩ :=
    before.makeScript asserts uninitialised setting usedScript usedBefore
  exact ⟨next, view, returned, made.runnable_iff setting usedOps text⟩

end

/-! Two scripts with their hashes, and a server that answers as Redis does. -/

def returnOne : Digest :=
  ⟨[0xe0, 0xe1, 0xf9, 0xfa, 0xbf, 0xc9, 0xd4, 0x80, 0x0c, 0x87,
    0x7a, 0x70, 0x3b, 0x82, 0x3a, 0xc0, 0x57, 0x8f, 0xf8, 0xdb], rfl⟩

def returnTwo : Digest :=
  ⟨[0x7f, 0x92, 0x3f, 0x79, 0xfe, 0x76, 0x19, 0x4c, 0x86, 0x8d,
    0x7e, 0x1d, 0x08, 0x20, 0xde, 0x36, 0x70, 0x0e, 0xb6, 0x49], rfl⟩

def twoScripts : Hashing where
  calculateDigest parScript := if parScript = "return 1" then returnOne else returnTwo
  intToAryHex n := Nat.toDigits 16 n ++ [nul]

def scriptServer (hashing : Hashing) : Server := fun requests =>
  match requests.getLast? with
  | some ["SCRIPT", "LOAD", parScript] => some (.string (sha1Of hashing parScript))
  | _ => some (.status "OK")

theorem twoScripts_setting : Setting twoScripts (scriptServer twoScripts)
    (fun parScript => parScript ∈ ["return 1", "return 2"]) := by
  refine ⟨⟨fun _ _ => rfl⟩, ?_, ?_⟩
  · intro first second usedFirst usedSecond same
    simp only [List.mem_cons, List.not_mem_nil, or_false] at usedFirst usedSecond
    rcases usedFirst with rfl | rfl <;> rcases usedSecond with rfl | rfl
    · rfl
    · exact absurd same (by decide)
    · exact absurd same (by decide)
    · rfl
  · intro requests parScript _
    simp [scriptServer, scriptLoad]

def blank : Sha1Array := ⟨List.replicate 40 nul, rfl⟩

/-- The script made after the flush runs. -/
theorem returned_hash_runs_second : ∃ next view,
    (Session.after twoScripts (scriptServer twoScripts) true blank .cryptopp
      [.makeScript "return 1", .scriptFlush, .makeScript "return 2"]).makeScript
        twoScripts (scriptServer twoScripts) true blank "return 2" = (next, .ok view) ∧
      Runnable twoScripts next view := by
  obtain ⟨next, view, returned, runs⟩ := returned_hash_runs_iff twoScripts_setting .cryptopp
    true blank [.makeScript "return 1", .scriptFlush, .makeScript "return 2"] "return 2" (by simp)
  refine ⟨next, view, returned, runs.mpr (.inr ?_)⟩
  rintro ⟨flush, flushes, within⟩
  cases flush with
  | makeScript parScript => exact flushes
  | scriptFlush => exact absurd within (by decide)
  | batchScriptFlush => exact absurd within (by decide)

/-- One script, made before and after a flush. -/
def Stale (build : Build) (flush : Op) : Prop := ∃ next view,
  (Session.after twoScripts (scriptServer twoScripts) false blank build
    [.makeScript "return 1", flush]).makeScript
      twoScripts (scriptServer twoScripts) false blank "return 1" = (next, .ok view) ∧
    ¬ Runnable twoScripts next view

theorem stale (build : Build) {flush : Op} (flushes : flush.Flushes) : Stale build flush := by
  have usedOps : ∀ other, .makeScript other ∈ [.makeScript "return 1", flush] ++
      [.makeScript "return 1"] → other ∈ ["return 1", "return 2"] := by
    cases flush with
    | makeScript parScript => exact flushes.elim
    | scriptFlush => simp
    | batchScriptFlush => simp
  obtain ⟨loaded, before⟩ := Made.after build false blank twoScripts_setting
    [.makeScript "return 1", flush]
    (fun other called => usedOps other (List.mem_append_left _ called))
  obtain ⟨next, view, loaded', returned, made, text⟩ :=
    before.makeScript false blank twoScripts_setting (usedOps "return 1" (by simp))
      (fun other called => usedOps other (List.mem_append_left _ called))
  refine ⟨next, view, returned, ?_⟩
  rw [made.runnable_iff twoScripts_setting usedOps text]
  rintro (⟨_, empty⟩ | kept)
  · exact absurd empty (by decide)
  · exact kept ⟨flush, flushes, List.Sublist.refl _⟩

theorem flushed_script_missing : Stale .cryptopp .scriptFlush ∧ Stale .cryptopp .batchScriptFlush ∧
    Stale .plain .scriptFlush ∧ Stale .plain .batchScriptFlush :=
  ⟨stale _ trivial, stale _ trivial, stale _ trivial, stale _ trivial⟩

end Incredis.Script
