/-
**A stored registry is read back.**

Of a regex only its source is stored, and it is compiled again. For grammars that have been compiled this
makes no difference:

* `Archive.faithful_compact`: the compact archive gives back what was written;
* `Regex.Engine.restore_of_compile`, `Grammar.restore_stored`: a compiled regex is what its source is
  compiled to again, and so is a compiled grammar;
* `Registry.Alike`: two registries give the same grammars for all names;
* `Registry.Compiled.load_store`: **a registry of compiled grammars is read back like it was**.
-/

import Highlight.Archive.Basic
import Highlight.Proofs.Grammar.Compilable
import Highlight.Proofs.Grammar.Registry

namespace Highlight

namespace Codec

theorem pattern_lawful (value : Pattern) : pattern.LawfulAt value := by
  have maybe (number? : Option Nat) : (optional number).LawfulAt number? :=
    optional_lawful fun part _ => number_lawful part
  have maybes (numbers : List (Option Nat)) : (list (optional number)).LawfulAt numbers :=
    list_lawful fun part _ => maybe part
  have numbers (entries : List Nat) : (list number).LawfulAt entries :=
    list_lawful fun part _ => number_lawful part
  refine mapped_lawful (pair_lawful ?_ (pair_lawful ?_ ?_)) rfl
  · exact pair_lawful (number_lawful _) (pair_lawful (maybe _) (pair_lawful (maybe _) (maybe _)))
  · exact pair_lawful (maybes _) (maybes _)
  · exact pair_lawful (pair_lawful (maybe _) (maybe _))
      (pair_lawful (bool_lawful _) (pair_lawful (number_lawful _) (numbers _)))

theorem grammar_lawful (value : StoredGrammar) : grammar.LawfulAt value := by
  have strings (entries : List String) : (list string).LawfulAt entries :=
    list_lawful fun part _ => string_lawful part
  have patterns : (list pattern).LawfulAt value.patterns :=
    list_lawful fun entry _ => pattern_lawful entry
  refine mapped_lawful (pair_lawful ?_ (pair_lawful ?_ ?_)) rfl
  · exact pair_lawful (string_lawful _)
      (pair_lawful (optional_lawful fun part _ => string_lawful part) (strings _))
  · exact pair_lawful (strings _) (pair_lawful (strings _) patterns)
  · exact pair_lawful (number_lawful _) (bool_lawful _)

theorem registry_lawful (value : StoredRegistry) : registry.LawfulAt value := by
  refine mapped_lawful (pair_lawful ?_ ?_) rfl
  · exact list_lawful fun entry _ => grammar_lawful entry
  · exact list_lawful fun entry _ => pair_lawful (string_lawful entry.1) (number_lawful entry.2)

end Codec

/-- **The compact archive gives back what was written.** -/
theorem Archive.faithful_compact : compact.Faithful := by
  intro stored
  refine ⟨stored.names, ?_, fun _ => rfl⟩
  have reads := Codec.registry_lawful stored []
  rw [List.append_nil] at reads
  unfold compact
  simp only [List.take_left, List.drop_left, if_true, reads]

theorem map_map_eq_self {α β : Type} {change : α → β} {back : β → α} {entries : List α}
    (inverse : ∀ entry ∈ entries, back (change entry) = entry) :
    (entries.map change).map back = entries := by
  rw [List.map_map]
  exact (List.map_congr_left inverse).trans (List.map_id _)

/-- A regex that has been compiled is what its source is compiled to again. -/
theorem Regex.Engine.restore_of_compile {engine : Regex.Engine} {source : String} {regex : Regex}
    (compiles : engine.compile source = .ok regex) : engine.restore regex.source = regex := by
  obtain ⟨matcher, alone, done⟩ := Fault.bind_eq_ok.mp compiles
  cases done
  unfold restore
  simp only [alone]
  rfl

/-- So is a grammar that has been compiled. -/
theorem Grammar.restore_stored {engine : Regex.Engine} {source : Grammar.Source} {grammar : Grammar}
    (compiled : source.compile engine = .ok grammar) : grammar.stored.restore engine = grammar := by
  have same : (grammar.regexes.toList.map Regex.source).map engine.restore =
      grammar.regexes.toList := by
    refine map_map_eq_self fun regex member => ?_
    obtain ⟨index, here⟩ := Array.mem_iff_getElem?.mp (Array.mem_toList_iff.mp member)
    exact Regex.Engine.restore_of_compile ((makes_of_compile compiled).1.compiles here)
  unfold stored StoredGrammar.restore
  simp only [same, Array.toArray_toList]

namespace Registry

variable {registry other : Registry} {libraries : Libraries}

/-- Two registries give the same grammars for all names. -/
structure Alike (registry other : Registry) : Prop where
  grammars : registry.grammars = other.grammars
  index? : ∀ name, registry.index? name = other.index? name

namespace Alike

theorem refl (registry : Registry) : registry.Alike registry := ⟨rfl, fun _ => rfl⟩

variable (alike : registry.Alike other) (name : String)
include alike

theorem contains_eq : registry.contains name = other.contains name :=
  congrArg Option.isSome (alike.index? name)

theorem get?_eq : registry.get? name = other.get? name := by
  unfold get?
  rw [alike.index? name, alike.grammars]

theorem get_eq : registry.get name = other.get name := by
  unfold get
  rw [alike.get?_eq]

theorem getOrPlain_eq : registry.getOrPlain name = other.getOrPlain name := by
  unfold getOrPlain
  rw [alike.get?_eq, alike.get?_eq]

theorem same_eq (second : String) : registry.same name second = other.same name second := by
  unfold same
  rw [alike.get_eq, alike.get_eq, alike.index?, alike.index?]

end Alike

/-- **A registry of compiled grammars is read back like it was**, by an archive that gives back what was
written. -/
theorem Compiled.load_store (compiled : registry.Compiled libraries.engine)
    (faithful : libraries.archive.Faithful) :
    ∃ other, load libraries (registry.store libraries.archive) = .ok other ∧ other.Alike registry := by
  obtain ⟨names, reads, same⟩ := faithful registry.stored
  refine ⟨restore { registry.stored with names := names } libraries.engine, ?_, ?_, same⟩
  · unfold load store
    rw [reads]
    rfl
  · have restored : (registry.grammars.toList.map Grammar.stored).map (·.restore libraries.engine) =
        registry.grammars.toList := by
      refine map_map_eq_self fun grammar member => ?_
      obtain ⟨source, compiles⟩ := compiled grammar (Array.mem_toList_iff.mp member)
      exact Grammar.restore_stored compiles
    show (List.map _ (List.map _ _)).toArray = _
    rw [restored, Array.toArray_toList]

end Registry

end Highlight
