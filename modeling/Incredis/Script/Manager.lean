import Incredis.Command
import Incredis.Script.Hash

/-! `ScriptManager` in both builds, and the list of loaded scripts that both stand
for. The assertion that the connection is up is left out. -/
namespace Incredis.Script

inductive Build
  | cryptopp
  | plain
deriving DecidableEq, Repr

/-- `m_known_hashes` or `m_known_scripts`; their elements in the order they were
inserted. -/
inductive ScriptManager
  | cryptopp (knownHashes : List Sha1Array)
  | plain (knownScripts : List (String × Sha1Array))

/-- The `boost::string_view` into a container: nodes stay where they are, so the
number of the node tells what is seen. `none` is the empty view. -/
abbrev HashView := Option Nat

namespace ScriptManager

def start : Build → ScriptManager
  | .cryptopp => .cryptopp []
  | .plain => .plain []

def arrays : ScriptManager → List Sha1Array
  | .cryptopp knownHashes => knownHashes
  | .plain knownScripts => knownScripts.map Prod.snd

def viewed (manager : ScriptManager) : HashView → String
  | none => ""
  | some node => ((manager.arrays[node]?).map fun array => String.ofList array.val).getD ""

end ScriptManager

/-- The requests made so far, the object and how the call ended. -/
structure Submission where
  requests : List Request
  manager : ScriptManager
  result : Except Exception HashView

def scriptLoad (parScript : String) : Request := ["SCRIPT", "LOAD", parScript]

section
variable (hashing : Hashing) (server : Server) (asserts : Bool) (uninitialised : Sha1Array)

/-- `assert(get_string(reply) == sha1_str)`: the call too is gone with the assertion. -/
def assertAnswered (sha1 : String) (reply : Reply) : Except Exception Unit :=
  if asserts then do cassert asserts ((← getString asserts reply) = sha1) else .ok ()

/-- `add_lua_script_ifn` with `MAKE_SHA1_WITH_CRYPTOPP` -/
def addLuaScriptIfnCryptopp (knownHashes : List Sha1Array) (requests : List Request)
    (parScript : String) : Submission :=
  let unchanged := ScriptManager.cryptopp knownHashes
  if parScript.isEmpty then ⟨requests, unchanged, .ok none⟩
  else
    let sha1 := sha1Str hashing (hashing.calculateDigest parScript)
    match cassert asserts (sha1.toList.length = 40) >>= fun _ => copyTo uninitialised sha1 with
    | .error thrown => ⟨requests, unchanged, .error thrown⟩
    | .ok sha1Array =>
      match knownHashes.findIdx? (· = sha1Array) with
      | some itFound => ⟨requests, unchanged, .ok (some itFound)⟩
      | none =>
        let requests := requests ++ [scriptLoad parScript]
        match commandRun (server requests) >>= assertAnswered asserts sha1 with
        | .error thrown => ⟨requests, unchanged, .error thrown⟩
        | .ok () => ⟨requests, .cryptopp (knownHashes ++ [sha1Array]), .ok (some knownHashes.length)⟩

/-- `add_lua_script_ifn` without -/
def addLuaScriptIfn (knownScripts : List (String × Sha1Array)) (requests : List Request)
    (parScript : String) : Submission :=
  let unchanged := ScriptManager.plain knownScripts
  match knownScripts.findIdx? (·.1 = parScript) with
  | some itFound => ⟨requests, unchanged, .ok (some itFound)⟩
  | none =>
    let requests := requests ++ [scriptLoad parScript]
    match commandRun (server requests) >>= getString asserts >>= copyTo uninitialised with
    | .error thrown => ⟨requests, unchanged, .error thrown⟩
    | .ok sha1Array =>
      ⟨requests, .plain (knownScripts ++ [(parScript, sha1Array)]), .ok (some knownScripts.length)⟩

def ScriptManager.submitLuaScript (manager : ScriptManager) (requests : List Request)
    (parScript : String) : Submission :=
  match manager with
  | .cryptopp knownHashes =>
    addLuaScriptIfnCryptopp hashing server asserts uninitialised knownHashes requests parScript
  | .plain knownScripts =>
    addLuaScriptIfn server asserts uninitialised knownScripts requests parScript

end

/-- The CryptoPP build has no hash for the empty script. -/
def Skips (build : Build) (parScript : String) : Prop := build = .cryptopp ∧ parScript = ""

instance : Decidable (Skips build parScript) := inferInstanceAs (Decidable (_ ∧ _))

def sha1Of (hashing : Hashing) (parScript : String) : String :=
  hexText (hashing.calculateDigest parScript)

def arrayOf (hashing : Hashing) (parScript : String) : Sha1Array :=
  hexArray (hashing.calculateDigest parScript)

def entryOf (hashing : Hashing) (parScript : String) : String × Sha1Array :=
  (parScript, arrayOf hashing parScript)

/-- The manager of a build once it has loaded some scripts, in this order. -/
def knowing (hashing : Hashing) (loaded : List String) : Build → ScriptManager
  | .cryptopp => .cryptopp (loaded.map (arrayOf hashing))
  | .plain => .plain (loaded.map (entryOf hashing))

theorem knowing_nil (hashing : Hashing) (build : Build) :
    knowing hashing [] build = .start build := by
  cases build <;> rfl

/-- The hashes of the scripts in `used` are the right ones and differ. -/
structure Hashed (hashing : Hashing) (used : String → Prop) : Prop where
  correct : hashing.Correct
  collisionFree : ∀ first second, used first → used second →
    sha1Of hashing first = sha1Of hashing second → first = second

/-- The surroundings of a manager that is given scripts in `used`. -/
structure Setting (hashing : Hashing) (server : Server) (used : String → Prop) : Prop where
  correct : hashing.Correct
  collisionFree : ∀ first second, used first → used second →
    sha1Of hashing first = sha1Of hashing second → first = second
  loads : ∀ requests parScript, used parScript →
    server (requests ++ [scriptLoad parScript]) = some (.string (sha1Of hashing parScript))

variable {hashing : Hashing} {server : Server} {used : String → Prop} {build : Build}
  {manager : ScriptManager} {loaded : List String} {parScript : String}

namespace Hashed

theorem arrayOf_inj (hashed : Hashed hashing used) (usedScript : used parScript)
    {other : String} (usedOther : used other)
    (same : arrayOf hashing other = arrayOf hashing parScript) : other = parScript := by
  apply hashed.collisionFree _ _ usedOther usedScript
  exact congrArg (fun array => String.ofList array.val) same

theorem sha1 (hashed : Hashed hashing used) (parScript : String) :
    sha1Str hashing (hashing.calculateDigest parScript) = sha1Of hashing parScript :=
  sha1Str_eq hashed.correct _

end Hashed

namespace Setting

theorem hashed (setting : Setting hashing server used) : Hashed hashing used :=
  ⟨setting.correct, setting.collisionFree⟩

theorem answered (setting : Setting hashing server used) (usedScript : used parScript)
    (requests : List Request) :
    commandRun (server (requests ++ [scriptLoad parScript])) =
      .ok (.string (sha1Of hashing parScript)) := by
  rw [setting.loads requests parScript usedScript]
  rfl

end Setting

/-- Before the cache is asked, the CryptoPP build has the right array. -/
theorem prepared (hashing : Hashing) (asserts : Bool) (uninitialised : Sha1Array)
    (parScript : String) :
    (cassert asserts ((sha1Of hashing parScript).toList.length = 40) >>=
      fun _ => copyTo uninitialised (sha1Of hashing parScript)) =
        .ok (arrayOf hashing parScript) := by
  have size : (sha1Of hashing parScript).toList.length = 40 := length_hexText _
  rw [cassert_of size]
  exact copyTo_hexText uninitialised _

theorem assertAnswered_sha1 (hashing : Hashing) (asserts : Bool) (parScript : String) :
    (Except.ok (Reply.string (sha1Of hashing parScript)) >>=
      assertAnswered asserts (sha1Of hashing parScript)) = .ok () := by
  cases asserts
  · rfl
  · exact cassert_of rfl

theorem viewed_of_array (array : Sha1Array) {node : Nat}
    (at_ : manager.arrays[node]? = some array) :
    manager.viewed (some node) = String.ofList array.val := by
  simp only [ScriptManager.viewed, at_, Option.map_some, Option.getD_some]

section
variable (asserts : Bool) (uninitialised : Sha1Array) (requests : List Request)

theorem addLuaScriptIfnCryptopp_known (hashed : Hashed hashing used)
    (someText : parScript.isEmpty = false) (known : parScript ∈ loaded) :
    ∃ node, addLuaScriptIfnCryptopp hashing server asserts uninitialised
        (loaded.map (arrayOf hashing)) requests parScript =
          ⟨requests, .cryptopp (loaded.map (arrayOf hashing)), .ok (some node)⟩ ∧
      (ScriptManager.cryptopp (loaded.map (arrayOf hashing))).viewed (some node) =
        sha1Of hashing parScript := by
  cases found : (loaded.map (arrayOf hashing)).findIdx? (· = arrayOf hashing parScript) with
  | none =>
    have absent := List.findIdx?_eq_none_iff.mp found _ (List.mem_map_of_mem known)
    simp at absent
  | some node =>
    obtain ⟨inside, here, _⟩ := List.findIdx?_eq_some_iff_getElem.mp found
    refine ⟨node, ?_, viewed_of_array (arrayOf hashing parScript) ?_⟩
    · simp only [addLuaScriptIfnCryptopp, someText, Bool.false_eq_true, ↓reduceIte, hashed.sha1,
        prepared, found]
    · rw [ScriptManager.arrays, List.getElem?_eq_getElem inside]
      exact congrArg some (of_decide_eq_true here)

/-- A script that is not known is sent, and what the server says decides. -/
theorem addLuaScriptIfnCryptopp_new (server : Server) (hashed : Hashed hashing used)
    (someText : parScript.isEmpty = false) (usedScript : used parScript)
    (usedLoaded : ∀ other ∈ loaded, used other) (new : parScript ∉ loaded) :
    addLuaScriptIfnCryptopp hashing server asserts uninitialised
        (loaded.map (arrayOf hashing)) requests parScript =
      match commandRun (server (requests ++ [scriptLoad parScript])) >>=
        assertAnswered asserts (sha1Of hashing parScript) with
      | .error thrown => ⟨requests ++ [scriptLoad parScript],
          .cryptopp (loaded.map (arrayOf hashing)), .error thrown⟩
      | .ok () => ⟨requests ++ [scriptLoad parScript],
          .cryptopp (loaded.map (arrayOf hashing) ++ [arrayOf hashing parScript]),
          .ok (some loaded.length)⟩ := by
  have absent : (loaded.map (arrayOf hashing)).findIdx? (· = arrayOf hashing parScript) =
      none := by
    rw [List.findIdx?_eq_none_iff]
    intro array member
    obtain ⟨other, there, rfl⟩ := List.mem_map.mp member
    rw [decide_eq_false_iff_not]
    intro same
    rw [hashed.arrayOf_inj usedScript (usedLoaded other there) same] at there
    exact new there
  simp only [addLuaScriptIfnCryptopp, someText, Bool.false_eq_true, ↓reduceIte, hashed.sha1,
    prepared, absent, List.length_map]

theorem addLuaScriptIfn_known (known : parScript ∈ loaded) :
    ∃ node, addLuaScriptIfn server asserts uninitialised (loaded.map (entryOf hashing)) requests
        parScript = ⟨requests, .plain (loaded.map (entryOf hashing)), .ok (some node)⟩ ∧
      (ScriptManager.plain (loaded.map (entryOf hashing))).viewed (some node) =
        sha1Of hashing parScript := by
  cases found : (loaded.map (entryOf hashing)).findIdx? (·.1 = parScript) with
  | none =>
    have absent := List.findIdx?_eq_none_iff.mp found _ (List.mem_map_of_mem known)
    simp [entryOf] at absent
  | some node =>
    obtain ⟨inside, here, _⟩ := List.findIdx?_eq_some_iff_getElem.mp found
    refine ⟨node, ?_, viewed_of_array (arrayOf hashing parScript) ?_⟩
    · simp only [addLuaScriptIfn, found]
    · rw [List.length_map] at inside
      simp only [List.getElem_map, entryOf, decide_eq_true_eq] at here
      simp [ScriptManager.arrays, List.getElem?_eq_getElem inside, entryOf, here]

theorem addLuaScriptIfn_new (hashing : Hashing) (server : Server) (new : parScript ∉ loaded) :
    addLuaScriptIfn server asserts uninitialised (loaded.map (entryOf hashing)) requests parScript =
      match commandRun (server (requests ++ [scriptLoad parScript])) >>= getString asserts >>=
        copyTo uninitialised with
      | .error thrown => ⟨requests ++ [scriptLoad parScript],
          .plain (loaded.map (entryOf hashing)), .error thrown⟩
      | .ok sha1Array => ⟨requests ++ [scriptLoad parScript],
          .plain (loaded.map (entryOf hashing) ++ [(parScript, sha1Array)]),
          .ok (some loaded.length)⟩ := by
  have absent : (loaded.map (entryOf hashing)).findIdx? (·.1 = parScript) = none := by
    rw [List.findIdx?_eq_none_iff]
    intro entry member
    obtain ⟨other, there, rfl⟩ := List.mem_map.mp member
    rw [decide_eq_false_iff_not]
    intro same
    rw [show other = parScript from same] at there
    exact new there
  simp only [addLuaScriptIfn, absent, List.length_map]

theorem submit_skipped (skipped : Skips build parScript) :
    (knowing hashing loaded build).submitLuaScript hashing server asserts uninitialised requests
      parScript = ⟨requests, knowing hashing loaded build, .ok none⟩ := by
  obtain ⟨rfl, rfl⟩ := skipped
  rfl

/-- A script that was loaded is not sent again. -/
theorem submit_known (server : Server) (hashed : Hashed hashing used) (named : ¬ Skips build parScript)
    (known : parScript ∈ loaded) :
    ∃ node, (knowing hashing loaded build).submitLuaScript hashing server asserts uninitialised
        requests parScript = ⟨requests, knowing hashing loaded build, .ok (some node)⟩ ∧
      (knowing hashing loaded build).viewed (some node) = sha1Of hashing parScript := by
  cases build with
  | cryptopp =>
    have someText : parScript.isEmpty = false := by simpa [Skips] using named
    exact addLuaScriptIfnCryptopp_known asserts uninitialised requests hashed someText known
  | plain => exact addLuaScriptIfn_known asserts uninitialised requests known

theorem viewed_append (hashing : Hashing) (loaded : List String) (parScript : String)
    (build : Build) : (knowing hashing (loaded ++ [parScript]) build).viewed (some loaded.length) =
      sha1Of hashing parScript := by
  apply viewed_of_array (arrayOf hashing parScript)
  cases build <;> simp [knowing, ScriptManager.arrays, entryOf]

/-- A script that was not is sent, and known from then on. -/
theorem submit_new (hashed : Hashed hashing used) (named : ¬ Skips build parScript)
    (usedScript : used parScript) (usedLoaded : ∀ other ∈ loaded, used other)
    (new : parScript ∉ loaded)
    (answered : commandRun (server (requests ++ [scriptLoad parScript])) =
      .ok (.string (sha1Of hashing parScript))) :
    (knowing hashing loaded build).submitLuaScript hashing server asserts uninitialised requests
      parScript = ⟨requests ++ [scriptLoad parScript], knowing hashing (loaded ++ [parScript]) build,
        .ok (some loaded.length)⟩ := by
  cases build with
  | cryptopp =>
    have someText : parScript.isEmpty = false := by simpa [Skips] using named
    have sent := addLuaScriptIfnCryptopp_new asserts uninitialised requests server hashed someText
      usedScript usedLoaded new
    rw [answered, assertAnswered_sha1] at sent
    simp only [knowing, List.map_append]
    exact sent
  | plain =>
    have copied : (Except.ok (Reply.string (sha1Of hashing parScript)) >>= getString asserts >>=
        copyTo uninitialised) = .ok (arrayOf hashing parScript) := by
      rw [show (Except.ok (Reply.string (sha1Of hashing parScript)) >>= getString asserts) =
        .ok (sha1Of hashing parScript) from getString_string asserts _]
      exact copyTo_hexText uninitialised _
    have sent := addLuaScriptIfn_new asserts uninitialised requests hashing server new
    rw [answered, copied] at sent
    simp only [knowing, List.map_append]
    exact sent

/-- When the server's answer makes the call throw, the script stays unknown. -/
theorem submit_failed (hashed : Hashed hashing used) (named : ¬ Skips build parScript)
    (usedScript : used parScript) (usedLoaded : ∀ other ∈ loaded, used other)
    (new : parScript ∉ loaded) {thrown : Exception}
    (failed : commandRun (server (requests ++ [scriptLoad parScript])) = .error thrown) :
    (knowing hashing loaded build).submitLuaScript hashing server asserts uninitialised requests
      parScript = ⟨requests ++ [scriptLoad parScript], knowing hashing loaded build,
        .error thrown⟩ := by
  cases build with
  | cryptopp =>
    have someText : parScript.isEmpty = false := by simpa [Skips] using named
    have sent := addLuaScriptIfnCryptopp_new asserts uninitialised requests server hashed someText
      usedScript usedLoaded new
    rwa [failed] at sent
  | plain =>
    have sent := addLuaScriptIfn_new asserts uninitialised requests hashing server new
    rwa [failed] at sent

end

end Incredis.Script
