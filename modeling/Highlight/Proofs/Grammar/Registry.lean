/-
**Where grammars come from.**

Whatever files are added to a registry, and whatever names are bound, a grammar that is got from it has
been compiled:

* `Registry.Compiled`: every grammar of a registry has been compiled;
* `Registry.Compiled.addFile`, `Registry.Compiled.addPlain`: adding grammars keeps it so;
* `Registry.Compiled.getOrPlain`: **the grammar of any name has been compiled**, also where the name is
  not known.
-/

import Highlight.Proofs.Fault
import Highlight.Registry

namespace Highlight.Registry

variable {engine : Regex.Engine} {libraries : Libraries} {registry after : Registry}

/-- Every grammar of a registry has been compiled. -/
def Compiled (engine : Regex.Engine) (registry : Registry) : Prop :=
  ∀ grammar ∈ registry.grammars, ∃ source : Grammar.Source, source.compile engine = .ok grammar

theorem compiled_empty : empty.Compiled engine :=
  fun grammar member => absurd member (Array.not_mem_empty grammar)

/-! ### Names -/

theorem grammars_bindFree (registry : Registry) (index : Nat) (name : String) :
    (registry.bindFree index name).grammars = registry.grammars := by
  unfold bindFree
  split <;> rfl

theorem grammars_addAlias (registry : Registry) (name other : String) :
    (registry.addAlias name other).grammars = registry.grammars := by
  unfold addAlias
  split <;> rfl

/-- Names, however many are bound, change no grammar. -/
theorem grammars_foldl {α : Type} {step : Registry → α → Registry}
    (keeps : ∀ registry name, (step registry name).grammars = registry.grammars) (names : List α)
    (registry : Registry) : (names.foldl step registry).grammars = registry.grammars := by
  induction names generalizing registry with
  | nil => rfl
  | cons name rest ih => exact (ih (step registry name)).trans (keeps registry name)

theorem grammars_addGrammar (registry : Registry) (grammar : Grammar) :
    (registry.addGrammar grammar).grammars = registry.grammars.push grammar :=
  grammars_foldl (fun registry name => grammars_bindFree registry _ name) grammar.fileTypes _

/-! ### Grammars -/

/-- What the bytes of a file hold has been compiled, if it can be loaded. -/
theorem exists_compile_of_loadGrammar {bytes : ByteArray} {grammar : Grammar}
    (loaded : libraries.loadGrammar bytes = .ok grammar) :
    ∃ source : Grammar.Source, source.compile libraries.engine = .ok grammar := by
  obtain ⟨source, -, compiles⟩ := Fault.bind_eq_ok.mp loaded
  exact ⟨source, compiles⟩

theorem compile_plain (engine : Regex.Engine) (name : String) :
    (Grammar.Source.named name).compile engine = .ok (.plain name) := rfl

namespace Compiled

section Adding

variable (compiled : registry.Compiled engine)
include compiled

theorem addGrammar {grammar : Grammar}
    (compiles : ∃ source : Grammar.Source, source.compile engine = .ok grammar) :
    (registry.addGrammar grammar).Compiled engine := by
  intro other member
  rw [grammars_addGrammar] at member
  rcases Array.mem_push.mp member with old | rfl
  · exact compiled other old
  · exact compiles

theorem addPlain {aliases : List String} (went : registry.addPlain engine aliases = .ok after) :
    after.Compiled engine := by
  obtain ⟨middle, added, done⟩ := Fault.bind_eq_ok.mp went
  cases done
  have same := grammars_foldl (fun registry other => grammars_addAlias registry plainName other)
    aliases middle
  intro grammar member
  rw [same] at member
  obtain ⟨plain, compiles, added⟩ := Fault.bind_eq_ok.mp added
  cases added
  exact compiled.addGrammar ⟨_, compiles⟩ grammar member

end Adding

/-- The grammar of a file is added. -/
theorem addFile (compiled : registry.Compiled libraries.engine) {content : Option ByteArray}
    (went : registry.addFile libraries content = .ok after) : after.Compiled libraries.engine := by
  cases content with
  | none => cases went
  | some bytes =>
    obtain ⟨grammar, loaded, done⟩ := Fault.bind_eq_ok.mp went
    cases done
    exact compiled.addGrammar (exists_compile_of_loadGrammar loaded)

/-- The grammars of several files are added. -/
theorem foldlM_addFile (compiled : registry.Compiled libraries.engine)
    {read : String → Option ByteArray} {paths : List String}
    (went : paths.foldlM (fun registry path => registry.addFile libraries (read path)) registry =
      .ok after) : after.Compiled libraries.engine := by
  induction paths generalizing registry with
  | nil =>
    cases went
    exact compiled
  | cons path rest ih =>
    rw [List.foldlM_cons] at went
    obtain ⟨middle, added, went⟩ := Fault.bind_eq_ok.mp went
    exact ih (compiled.addFile added) went

variable (compiled : registry.Compiled engine)
include compiled

theorem get? {name : String} {grammar : Grammar} (found : registry.get? name = some grammar) :
    ∃ source : Grammar.Source, source.compile engine = .ok grammar := by
  obtain ⟨index, -, here⟩ := Option.bind_eq_some_iff.mp found
  exact compiled grammar (Array.mem_of_getElem? here)

/-- **The grammar of any name has been compiled.** -/
theorem getOrPlain (name : String) :
    ∃ source : Grammar.Source, source.compile engine = .ok (registry.getOrPlain name) := by
  unfold Registry.getOrPlain
  cases own : registry.get? name with
  | some grammar => exact compiled.get? own
  | none =>
    cases fallback : registry.get? plainName with
    | some grammar => exact compiled.get? fallback
    | none => exact ⟨_, compile_plain engine plainName⟩

end Compiled

end Highlight.Registry
