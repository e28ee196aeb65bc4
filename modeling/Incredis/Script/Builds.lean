import Incredis.Script.Retry

/-! The two builds of `add_lua_script_ifn` side by side. Each stands for the list of scripts
it has sent, and the two lists are the same until the empty script is given to them. -/
namespace Incredis.Script

/-- A script that is sent is a new one. -/
def loadNext (build : Build) (loaded : List String) (parScript : String) : List String :=
  if Skips build parScript ∨ parScript ∈ loaded then loaded else loaded ++ [parScript]

def loadedBy (build : Build) (scripts : List String) : List String :=
  scripts.foldl (loadNext build) []

/-- The text that a build has for a script. -/
def textOf (hashing : Hashing) (build : Build) (parScript : String) : String :=
  if Skips build parScript then "" else sha1Of hashing parScript

/-- What the last of the calls returns. -/
def Deployment.returnedText (d : Deployment) (scripts : List String) : Except Exception String :=
  (d.submitted scripts).result.map (d.submitted scripts).manager.viewed

/-- After each of the calls both have made the same requests, and both return, the same text. -/
structure Agree (first second : Deployment) (scripts : List String) : Prop where
  requests : ∀ calls, calls <+: scripts →
    (first.submitted calls).requests = (second.submitted calls).requests
  texts : ∀ calls, calls <+: scripts → ∃ returned,
    first.returnedText calls = .ok returned ∧ second.returnedText calls = .ok returned

section
variable {hashing : Hashing} {server : Server} {used : String → Prop} {loaded scripts : List String}
  {parScript : String}

theorem loadedBy_append (build : Build) (scripts : List String) (parScript : String) :
    loadedBy build (scripts ++ [parScript]) = loadNext build (loadedBy build scripts) parScript := by
  simp only [loadedBy, List.foldl_append, List.foldl_cons, List.foldl_nil]

theorem mem_loadNext {build : Build} {other : String}
    (member : other ∈ loadNext build loaded parScript) : other ∈ loaded ∨ other = parScript := by
  unfold loadNext at member
  split at member
  · exact .inl member
  · simpa using member

theorem mem_loadedBy {build : Build} {other : String} (member : other ∈ loadedBy build scripts) :
    other ∈ scripts := by
  induction scripts using List.reverseRecOn with
  | nil => exact absurd member List.not_mem_nil
  | append_singleton before last ih =>
    rw [loadedBy_append] at member
    rcases mem_loadNext member with earlier | rfl
    · exact List.mem_append_left _ (ih earlier)
    · exact List.mem_append_right _ (List.mem_singleton.mpr rfl)

/-- One call, when every request made so far has loaded a script. -/
theorem submit_next (asserts : Bool) (uninitialised : Sha1Array) (build : Build)
    (setting : Setting hashing server used) (usedScript : used parScript)
    (usedLoaded : ∀ other ∈ loaded, used other) :
    ∃ view, (knowing hashing loaded build).submitLuaScript hashing server asserts uninitialised
        (loaded.map scriptLoad) parScript =
          ⟨(loadNext build loaded parScript).map scriptLoad,
            knowing hashing (loadNext build loaded parScript) build, .ok view⟩ ∧
      (knowing hashing (loadNext build loaded parScript) build).viewed view =
        textOf hashing build parScript := by
  by_cases skipped : Skips build parScript
  · refine ⟨none, ?_, ?_⟩
    · rw [loadNext, if_pos (.inl skipped), submit_skipped asserts uninitialised _ skipped]
    · rw [textOf, if_pos skipped]
      rfl
  · rw [textOf, if_neg skipped]
    by_cases known : parScript ∈ loaded
    · rw [loadNext, if_pos (.inr known)]
      obtain ⟨node, done, text⟩ := submit_known asserts uninitialised (loaded.map scriptLoad) server
        setting.hashed skipped known
      exact ⟨some node, done, text⟩
    · rw [loadNext, if_neg (fun either => either.elim skipped known), List.map_append]
      exact ⟨some loaded.length, submit_new asserts uninitialised _ setting.hashed skipped usedScript
        usedLoaded known (setting.answered usedScript _), viewed_append hashing loaded parScript build⟩

variable {d : Deployment}

theorem submitted_loadedBy (setting : Setting d.hashing d.server used)
    (given : ∀ other ∈ scripts, used other) :
    (d.submitted scripts).requests = (loadedBy d.build scripts).map scriptLoad ∧
      (d.submitted scripts).manager = knowing d.hashing (loadedBy d.build scripts) d.build := by
  induction scripts using List.reverseRecOn with
  | nil => exact ⟨rfl, (knowing_nil d.hashing d.build).symm⟩
  | append_singleton before last ih =>
    obtain ⟨requests, manager⟩ := ih fun other member => given other (List.mem_append_left _ member)
    obtain ⟨view, done, _⟩ := submit_next d.asserts d.uninitialised d.build setting
      (given last (by simp)) fun other member =>
        given other (List.mem_append_left _ (mem_loadedBy member))
    rw [d.submitted_append, requests, manager, done, loadedBy_append]
    exact ⟨rfl, rfl⟩

theorem returnedText_append (setting : Setting d.hashing d.server used)
    (given : ∀ other ∈ scripts ++ [parScript], used other) :
    d.returnedText (scripts ++ [parScript]) = .ok (textOf d.hashing d.build parScript) := by
  have before : ∀ other ∈ scripts, used other :=
    fun other member => given other (List.mem_append_left _ member)
  obtain ⟨requests, manager⟩ := submitted_loadedBy setting before
  obtain ⟨view, done, text⟩ := submit_next d.asserts d.uninitialised d.build setting
    (given parScript (by simp)) fun other member => before other (mem_loadedBy member)
  rw [Deployment.returnedText, d.submitted_append, requests, manager, done]
  exact congrArg Except.ok text

end

theorem not_skips {build : Build} {parScript : String} (someText : parScript ≠ "") :
    ¬ Skips build parScript := fun skips => someText skips.2

/-- Only the empty script tells the builds apart. -/
theorem loadedBy_build {scripts : List String} (someTexts : "" ∉ scripts) :
    loadedBy .cryptopp scripts = loadedBy .plain scripts := by
  induction scripts using List.reverseRecOn with
  | nil => rfl
  | append_singleton before last ih =>
    have someText : last ≠ "" := by
      rintro rfl
      simp at someTexts
    rw [loadedBy_append, loadedBy_append,
      ih fun member => someTexts (List.mem_append_left _ member)]
    simp only [loadNext, not_skips someText]

/-- The builds agree on exactly the sequences of calls without the empty script. -/
theorem builds_agree_iff {hashing : Hashing} {server : Server} {scripts : List String}
    (setting : Setting hashing server fun parScript => parScript ∈ scripts) (asserts : Bool)
    (uninitialised : Sha1Array) :
    Agree ⟨hashing, server, asserts, uninitialised, .cryptopp⟩
      ⟨hashing, server, asserts, uninitialised, .plain⟩ scripts ↔ "" ∉ scripts := by
  have text (build : Build) {before : List String} {last : String}
      (within : before ++ [last] <+: scripts) :
      Deployment.returnedText ⟨hashing, server, asserts, uninitialised, build⟩ (before ++ [last]) =
        .ok (textOf hashing build last) :=
    returnedText_append setting fun _ member => within.subset member
  have sent (build : Build) {calls : List String} (within : calls <+: scripts) :
      (Deployment.submitted ⟨hashing, server, asserts, uninitialised, build⟩ calls).requests =
        (loadedBy build calls).map scriptLoad :=
    (submitted_loadedBy setting fun _ member => within.subset member).1
  constructor
  · intro agree member
    obtain ⟨before, rest, rfl⟩ := List.append_of_mem member
    have within : before ++ [""] <+: before ++ "" :: rest := ⟨rest, by simp⟩
    obtain ⟨returned, skipped, hash⟩ := agree.texts _ within
    rw [text .cryptopp within, Except.ok.injEq] at skipped
    rw [text .plain within, ← skipped, Except.ok.injEq] at hash
    exact sha1Of_ne_empty hashing "" hash
  · intro someTexts
    constructor
    · intro calls within
      rw [sent .cryptopp within, sent .plain within,
        loadedBy_build fun member => someTexts (within.subset member)]
    · intro calls within
      rcases List.eq_nil_or_concat calls with rfl | ⟨before, last, rfl⟩
      · exact ⟨"", rfl, rfl⟩
      · rw [List.concat_eq_append] at within ⊢
        have someText : last ≠ "" := by
          rintro rfl
          exact someTexts (within.subset (by simp))
        have hash (build : Build) : textOf hashing build last = sha1Of hashing last :=
          if_neg (not_skips someText)
        exact ⟨sha1Of hashing last, by rw [text .cryptopp within, hash],
          by rw [text .plain within, hash]⟩

theorem builds_agree_iff_repeated :
    Agree ⟨twoScripts, scriptServer twoScripts, true, blank, .cryptopp⟩
      ⟨twoScripts, scriptServer twoScripts, true, blank, .plain⟩
      ["return 1", "return 2", "return 1"] := by
  have among : ∀ parScript ∈ ["return 1", "return 2", "return 1"],
      parScript ∈ ["return 1", "return 2"] := by decide
  refine (builds_agree_iff ⟨twoScripts_setting.correct, fun first second usedFirst usedSecond =>
    twoScripts_setting.collisionFree _ _ (among _ usedFirst) (among _ usedSecond),
    fun requests parScript usedScript =>
      twoScripts_setting.loads requests _ (among _ usedScript)⟩ true blank).mpr ?_
  decide

def emptyScript : Digest :=
  ⟨[0xda, 0x39, 0xa3, 0xee, 0x5e, 0x6b, 0x4b, 0x0d, 0x32, 0x55,
    0xbf, 0xef, 0x95, 0x60, 0x18, 0x90, 0xaf, 0xd8, 0x07, 0x09], rfl⟩

def emptyHashed : Hashing where
  calculateDigest _ := emptyScript
  intToAryHex n := Nat.toDigits 16 n ++ [nul]

/-- One build sends the empty script and returns its hash, the other does neither. -/
theorem builds_differ :
    Setting emptyHashed (scriptServer emptyHashed) (fun parScript => parScript ∈ [""]) ∧
      (Deployment.submitted ⟨emptyHashed, scriptServer emptyHashed, false, blank, .cryptopp⟩
        [""]).requests = [] ∧
      (Deployment.submitted ⟨emptyHashed, scriptServer emptyHashed, false, blank, .plain⟩
        [""]).requests = [["SCRIPT", "LOAD", ""]] ∧
      ¬ Agree ⟨emptyHashed, scriptServer emptyHashed, false, blank, .cryptopp⟩
        ⟨emptyHashed, scriptServer emptyHashed, false, blank, .plain⟩ [""] := by
  have setting : Setting emptyHashed (scriptServer emptyHashed)
      (fun parScript => parScript ∈ [""]) := by
    refine ⟨⟨fun _ _ => rfl⟩, fun first second usedFirst usedSecond _ => ?_, fun _ _ _ => ?_⟩
    · rw [List.mem_singleton.mp usedFirst, List.mem_singleton.mp usedSecond]
    · simp [scriptServer, scriptLoad]
  have skipped : (Deployment.submitted
      ⟨emptyHashed, scriptServer emptyHashed, false, blank, .cryptopp⟩ [""]).requests = [] := rfl
  have sent : (Deployment.submitted
      ⟨emptyHashed, scriptServer emptyHashed, false, blank, .plain⟩ [""]).requests =
        [["SCRIPT", "LOAD", ""]] :=
    (submitted_loadedBy setting fun _ member => member).1
  refine ⟨setting, skipped, sent, fun agree => ?_⟩
  have same := agree.requests [""] (List.prefix_refl _)
  rw [skipped, sent] at same
  contradiction

end Incredis.Script
