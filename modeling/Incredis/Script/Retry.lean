import Incredis.Script.Flush

/-! Scripts given to a `ScriptManager` one after the other, when some of its requests
fail. A script is only remembered once the server has it. -/
namespace Incredis.Script

/-- A build of the library and what it runs against. -/
structure Deployment where
  hashing : Hashing
  server : Server
  asserts : Bool
  uninitialised : Sha1Array
  build : Build

/-- Every `SCRIPT LOAD` returns the hash of the script, or throws. -/
structure Trying (d : Deployment) (used : String → Prop) : Prop where
  hashed : Hashed d.hashing used
  answers : ∀ requests parScript, used parScript →
    commandRun (d.server (requests ++ [scriptLoad parScript])) =
      .ok (.string (sha1Of d.hashing parScript)) ∨
    ∃ thrown, commandRun (d.server (requests ++ [scriptLoad parScript])) = .error thrown

namespace Deployment
variable (d : Deployment)

/-- The state after a sequence of calls, with the result of the last of them. -/
def submitted (scripts : List String) : Submission :=
  scripts.foldl (fun s parScript =>
    s.manager.submitLuaScript d.hashing d.server d.asserts d.uninitialised s.requests parScript)
    ⟨[], .start d.build, .ok none⟩

/-- After the calls for `before`, the one for `parScript` issues `SCRIPT LOAD`. -/
def Issues (before : List String) (parScript : String) : Prop :=
  (d.submitted (before ++ [parScript])).requests =
    (d.submitted before).requests ++ [scriptLoad parScript]

/-- The server answers this `SCRIPT LOAD` with the hash of the script. -/
def Answered (before : List String) (parScript : String) : Prop :=
  commandRun (d.server ((d.submitted before).requests ++ [scriptLoad parScript])) =
    .ok (.string (sha1Of d.hashing parScript))

/-- The call returns. -/
def Returns (before : List String) (parScript : String) : Prop :=
  ∃ view, (d.submitted (before ++ [parScript])).result = .ok view

/-- One of the calls has had the server load the script. -/
def LoadSucceeded (scripts : List String) (parScript : String) : Prop :=
  ∃ before, before ++ [parScript] <+: scripts ∧
    d.Issues before parScript ∧ d.Answered before parScript

theorem submitted_append (scripts : List String) (parScript : String) :
    d.submitted (scripts ++ [parScript]) =
      (d.submitted scripts).manager.submitLuaScript d.hashing d.server d.asserts d.uninitialised
        (d.submitted scripts).requests parScript := by
  simp only [submitted, List.foldl_append, List.foldl_cons, List.foldl_nil]

theorem loadSucceeded_append (scripts : List String) (last parScript : String) :
    d.LoadSucceeded (scripts ++ [last]) parScript ↔ d.LoadSucceeded scripts parScript ∨
      parScript = last ∧ d.Issues scripts last ∧ d.Answered scripts last := by
  constructor
  · rintro ⟨before, within, issues, answered⟩
    rcases List.prefix_concat_iff.mp within with whole | earlier
    · obtain ⟨rfl, rfl⟩ := List.append_inj' whole rfl |>.imp id List.singleton_inj.mp
      exact .inr ⟨rfl, issues, answered⟩
    · exact .inl ⟨before, earlier, issues, answered⟩
  · rintro (⟨before, within, issues, answered⟩ | ⟨rfl, issues, answered⟩)
    · exact ⟨before, within.trans (List.prefix_append _ _), issues, answered⟩
    · exact ⟨scripts, List.prefix_refl _, issues, answered⟩

end Deployment

/-- The manager stands for the scripts whose `SCRIPT LOAD` succeeded. -/
structure Remembers (d : Deployment) (scripts loaded : List String) : Prop where
  manager : (d.submitted scripts).manager = knowing d.hashing loaded d.build
  loaded_iff : ∀ parScript, parScript ∈ loaded ↔ d.LoadSucceeded scripts parScript
  given : ∀ parScript ∈ loaded, parScript ∈ scripts

section
variable {d : Deployment} {used : String → Prop} {scripts loaded : List String} {parScript : String}

/-- What has been seen through a view stays to be seen when scripts are added. -/
theorem viewed_grows {hashing : Hashing} {build : Build} (more : List String) {view : HashView}
    {text : String} (seen : (knowing hashing loaded build).viewed view = text) (something : text ≠ "") :
    (knowing hashing (loaded ++ more) build).viewed view = text := by
  cases view with
  | none => exact absurd seen.symm something
  | some node =>
    cases at_ : (knowing hashing loaded build).arrays[node]? with
    | none =>
      simp only [ScriptManager.viewed, at_, Option.map_none, Option.getD_none] at seen
      exact absurd seen.symm something
    | some array =>
      rw [viewed_of_array array at_] at seen
      rw [← seen]
      apply viewed_of_array
      obtain ⟨inside, _⟩ := List.getElem?_eq_some_iff.mp at_
      cases build with
      | cryptopp =>
        simp only [knowing, ScriptManager.arrays, List.map_append] at at_ inside ⊢
        rw [List.getElem?_append_left inside, at_]
      | plain =>
        simp only [knowing, ScriptManager.arrays, List.map_append] at at_ inside ⊢
        rw [List.getElem?_append_left inside, at_]

namespace Remembers

theorem start : Remembers d [] [] := by
  refine ⟨(knowing_nil d.hashing d.build).symm, fun parScript => ?_, by simp⟩
  constructor
  · rintro ⟨⟩
  · rintro ⟨before, within, _⟩
    have := within.length_le
    simp at this

/-- A call that adds nothing to the manager, because the script is there or the request
failed. -/
theorem same (remembers : Remembers d scripts loaded)
    (manager : (d.submitted (scripts ++ [parScript])).manager = knowing d.hashing loaded d.build)
    (unloaded : d.Issues scripts parScript → ¬ d.Answered scripts parScript) :
    Remembers d (scripts ++ [parScript]) loaded := by
  refine ⟨manager, fun other => ?_, fun other member => ?_⟩
  · rw [d.loadSucceeded_append, remembers.loaded_iff]
    constructor
    · exact .inl
    · rintro (earlier | ⟨_, issues, answered⟩)
      · exact earlier
      · exact absurd answered (unloaded issues)
  · exact List.mem_append_left _ (remembers.given other member)

theorem load (remembers : Remembers d scripts loaded)
    (manager : (d.submitted (scripts ++ [parScript])).manager =
      knowing d.hashing (loaded ++ [parScript]) d.build)
    (issues : d.Issues scripts parScript) (answered : d.Answered scripts parScript) :
    Remembers d (scripts ++ [parScript]) (loaded ++ [parScript]) := by
  refine ⟨manager, fun other => ?_, fun other member => ?_⟩
  · rw [d.loadSucceeded_append, List.mem_append, List.mem_singleton, remembers.loaded_iff]
    constructor
    · rintro (earlier | rfl)
      · exact .inl earlier
      · exact .inr ⟨rfl, issues, answered⟩
    · rintro (earlier | ⟨rfl, _⟩)
      · exact .inl earlier
      · exact .inr rfl
  · rcases List.mem_append.mp member with old | new
    · exact List.mem_append_left _ (remembers.given other old)
    · exact List.mem_append_right _ new

/-- The three ways a call can go: the script is known, it is loaded, or the request
fails. -/
theorem call (remembers : Remembers d scripts loaded) (trying : Trying d used)
    (someText : parScript ≠ "") (usedScript : used parScript)
    (usedBefore : ∀ other ∈ scripts, used other) :
    (parScript ∈ loaded ∧ ∃ node, d.submitted (scripts ++ [parScript]) =
        ⟨(d.submitted scripts).requests, knowing d.hashing loaded d.build, .ok (some node)⟩ ∧
      (knowing d.hashing loaded d.build).viewed (some node) = sha1Of d.hashing parScript ∧
      Remembers d (scripts ++ [parScript]) loaded) ∨
    (parScript ∉ loaded ∧ d.submitted (scripts ++ [parScript]) =
        ⟨(d.submitted scripts).requests ++ [scriptLoad parScript],
          knowing d.hashing (loaded ++ [parScript]) d.build, .ok (some loaded.length)⟩ ∧
      Remembers d (scripts ++ [parScript]) (loaded ++ [parScript])) ∨
    (parScript ∉ loaded ∧ ∃ thrown, d.submitted (scripts ++ [parScript]) =
        ⟨(d.submitted scripts).requests ++ [scriptLoad parScript],
          knowing d.hashing loaded d.build, .error thrown⟩ ∧
      Remembers d (scripts ++ [parScript]) loaded) := by
  have named : ¬ Skips d.build parScript := fun skips => someText skips.2
  have usedLoaded : ∀ other ∈ loaded, used other :=
    fun other member => usedBefore other (remembers.given other member)
  have next := d.submitted_append scripts parScript
  rw [remembers.manager] at next
  by_cases known : parScript ∈ loaded
  · obtain ⟨node, done, text⟩ := submit_known d.asserts d.uninitialised
      (d.submitted scripts).requests d.server trying.hashed named known
    rw [done] at next
    refine .inl ⟨known, node, next, text, remembers.same (by rw [next]) ?_⟩
    intro issues
    rw [Deployment.Issues, next] at issues
    simp at issues
  · rcases trying.answers (d.submitted scripts).requests parScript usedScript with
      answered | ⟨thrown, failed⟩
    · rw [submit_new d.asserts d.uninitialised _ trying.hashed named usedScript usedLoaded known answered]
        at next
      refine .inr (.inl ⟨known, next, remembers.load (by rw [next]) ?_ answered⟩)
      rw [Deployment.Issues, next]
    · rw [submit_failed d.asserts d.uninitialised _ trying.hashed named usedScript usedLoaded known failed]
        at next
      refine .inr (.inr ⟨known, thrown, next, remembers.same (by rw [next]) ?_⟩)
      intro _ answered
      rw [Deployment.Answered, failed] at answered
      contradiction

/-- Every sequence of calls; what was loaded before stays where it is. -/
theorem extend (remembers : Remembers d scripts loaded) (trying : Trying d used)
    (later : List String)
    (given : ∀ parScript ∈ scripts ++ later, parScript ≠ "" ∧ used parScript) :
    ∃ more, Remembers d (scripts ++ later) (loaded ++ more) := by
  induction later using List.reverseRecOn with
  | nil => exact ⟨[], by simpa using remembers⟩
  | append_singleton later last ih =>
    rw [← List.append_assoc] at given ⊢
    obtain ⟨more, before⟩ := ih fun parScript member => given parScript (List.mem_append_left _ member)
    obtain ⟨someText, usedScript⟩ := given last (by simp)
    rcases before.call trying someText usedScript
        (fun other member => (given other (List.mem_append_left _ member)).2) with
      ⟨_, _, _, _, after⟩ | ⟨_, _, after⟩ | ⟨_, _, _, after⟩
    · exact ⟨more, after⟩
    · exact ⟨more ++ [last], by rwa [← List.append_assoc]⟩
    · exact ⟨more, after⟩

end Remembers

/-- What holds of the call for `parScript` that comes after the calls for `scripts`. -/
structure LoadedOnce (d : Deployment) (scripts : List String) (parScript : String) : Prop where
  issues : d.Issues scripts parScript ↔ ¬ d.LoadSucceeded scripts parScript
  silent : d.LoadSucceeded scripts parScript →
    (d.submitted (scripts ++ [parScript])).requests = (d.submitted scripts).requests
  cache : ∃ loaded, (d.submitted scripts).manager = knowing d.hashing loaded d.build ∧
    ∀ other, other ∈ loaded ↔ d.LoadSucceeded scripts other
  unchanged : ∀ thrown, (d.submitted (scripts ++ [parScript])).result = .error thrown →
    (d.submitted (scripts ++ [parScript])).manager = (d.submitted scripts).manager
  returns : d.Returns scripts parScript ↔ d.LoadSucceeded (scripts ++ [parScript]) parScript
  returned : ∀ view, (d.submitted (scripts ++ [parScript])).result = .ok view →
    (d.submitted (scripts ++ [parScript])).manager.viewed view = sha1Of d.hashing parScript

/-- Both builds load every script once, try again what failed, and hand out hashes that
stay. -/
theorem scripts_loaded_once (trying : Trying d used) (parScript : String) (later : List String)
    (given : ∀ other ∈ scripts ++ [parScript] ++ later, other ≠ "" ∧ used other) :
    LoadedOnce d scripts parScript ∧
      ∀ view, (d.submitted (scripts ++ [parScript])).result = .ok view →
        (d.submitted (scripts ++ [parScript] ++ later)).manager.viewed view =
          sha1Of d.hashing parScript := by
  have before : ∀ other ∈ scripts, other ≠ "" ∧ used other := fun other member =>
    given other (List.mem_append_left _ (List.mem_append_left _ member))
  obtain ⟨someText, usedScript⟩ := given parScript (by simp)
  obtain ⟨loaded, remembers⟩ := Remembers.start.extend trying scripts (by simpa using before)
  rw [List.nil_append, List.nil_append] at remembers
  have stays {known : List String} (after : Remembers d (scripts ++ [parScript]) known)
      {view : HashView} (text : (knowing d.hashing known d.build).viewed view =
        sha1Of d.hashing parScript) :
      (d.submitted (scripts ++ [parScript] ++ later)).manager.viewed view =
        sha1Of d.hashing parScript := by
    obtain ⟨more, last⟩ := after.extend trying later given
    rw [last.manager]
    exact viewed_grows more text (sha1Of_ne_empty d.hashing parScript)
  have cache := remembers.loaded_iff
  -- a script that is not known was never loaded, so there is no call to be silent about
  have unloaded (new : parScript ∉ loaded) {goal : Prop}
      (succeeded : d.LoadSucceeded scripts parScript) : goal :=
    absurd ((cache parScript).mpr succeeded) new
  rcases remembers.call trying someText usedScript (fun other member => (before other member).2) with
    ⟨known, node, done, text, after⟩ | ⟨new, done, after⟩ | ⟨new, thrown, done, after⟩
  · refine ⟨⟨?_, fun _ => by rw [done], ⟨loaded, remembers.manager, cache⟩, ?_, ?_, ?_⟩, ?_⟩
    · rw [← cache, Deployment.Issues, done]
      simp [known]
    · simp [done]
    · rw [← after.loaded_iff, Deployment.Returns, done]
      simp [known]
    · rw [done]
      rintro view ⟨⟩
      exact text
    · rw [done]
      rintro view ⟨⟩
      exact stays after text
  · have text := viewed_append d.hashing loaded parScript d.build
    refine ⟨⟨?_, unloaded new, ⟨loaded, remembers.manager, cache⟩, ?_, ?_, ?_⟩, ?_⟩
    · rw [← cache, Deployment.Issues, done]
      simp [new]
    · simp [done]
    · rw [← after.loaded_iff, Deployment.Returns, done]
      simp
    · rw [done]
      rintro view ⟨⟩
      exact text
    · rw [done]
      rintro view ⟨⟩
      exact stays after text
  · refine ⟨⟨?_, unloaded new, ⟨loaded, remembers.manager, cache⟩, ?_, ?_, ?_⟩, ?_⟩
    · rw [← cache, Deployment.Issues, done]
      simp [new]
    · intro _ _
      rw [done, remembers.manager]
    · rw [← after.loaded_iff, Deployment.Returns, done]
      simp [new]
    · simp [done]
    · simp [done]

end

/-- The first request fails, like one that meets a full server. -/
def refusingOnce : Deployment where
  hashing := twoScripts
  server requests :=
    if requests.length ≤ 1 then some (.error "OOM command not allowed")
    else scriptServer twoScripts requests
  asserts := true
  uninitialised := blank
  build := .cryptopp

theorem refusingOnce_trying :
    Trying refusingOnce (fun parScript => parScript ∈ ["return 1", "return 2"]) where
  hashed := twoScripts_setting.hashed
  answers requests parScript usedScript := by
    by_cases first : requests.length = 0
    · simp only [refusingOnce, List.length_append, first, List.length_cons, List.length_nil,
        Nat.zero_add, Nat.le_refl, ↓reduceIte]
      exact .inr (commandRun_error _)
    · have later : ¬ (requests ++ [scriptLoad parScript]).length ≤ 1 := by
        rw [List.length_append, List.length_singleton]
        omega
      simp only [refusingOnce, later, ↓reduceIte]
      exact .inl (twoScripts_setting.answered usedScript requests)

/-- The script whose first load failed is loaded by the second call. -/
theorem scripts_loaded_once_retried :
    LoadedOnce refusingOnce ["return 1"] "return 1" ∧
      ∀ view, (refusingOnce.submitted ["return 1", "return 1"]).result = .ok view →
        (refusingOnce.submitted ["return 1", "return 1", "return 2"]).manager.viewed view =
          sha1Of twoScripts "return 1" :=
  scripts_loaded_once refusingOnce_trying "return 1" ["return 2"] (by simp)

end Incredis.Script
