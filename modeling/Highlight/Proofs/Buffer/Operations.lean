/-
**No operation on a buffer fails.**

What an operation may be called with is told by the text alone: an edit has to begin and end between
characters, and its outcome must not be too long. Then nothing can go wrong any more, as long as there are
numbers for all breaks. There are if breaks are spaced and the text stays short, and otherwise if deadlines,
or the distance between breaks, keep them few:

* `Buffer.Operation`, `Buffer.run`: the operations, and what several of them lead to;
* `Buffer.Operation.Allowed`, `Buffer.AllAllowed`: what they may be called with;
* `Buffer.Operation.stores`, `Buffer.RoomForAll`: for how many breaks an operation may need new slots, and
  that there are numbers for these, whichever operation comes next;
* `Buffer.Stands`: what is true of a buffer between two operations;
* `Buffer.processSlices_ends`: slices of work come to an end, since each advances the frontier;
* `Buffer.run_ends`: allowed operations go well, unless breaks are not spaced and a slice has no deadline;
* `Buffer.run_of_moderate`: **with sizes that are far from the largest one no operation fails**.
-/

import Highlight.Proofs.Buffer.Reachable
import Highlight.Proofs.Grammar.Compile
import Highlight.Proofs.Highlighter.Noted
import Highlight.Proofs.Highlighter.Slots
import Highlight.Proofs.Query.Answers

namespace Highlight.Buffer

/-! ### Operations -/

/-- An operation on a buffer. -/
inductive Operation where
  | replace (start stop : Nat) (inserted : String)
  | process (deadline : Deadline)
  /-- Slices of work until nothing is left to do, each with its deadline. -/
  | work (deadline : Nat → Deadline)
  | styles (position count : Nat)
  | style (position : Nat)
  | flush
  | setGrammar (grammar : Grammar)
  | listen
  | unlisten (id : ListenerId)

namespace Operation

/-- What an operation makes of a buffer. -/
def apply (buffer : Buffer) : Operation → Except Fault Buffer
  | replace start stop inserted => (buffer.replace start stop inserted).map Prod.snd
  | process deadline => (buffer.process deadline).map Prod.snd
  | work deadline => (buffer.processUntilIdle deadline).map Work.buffer
  | styles position count => (buffer.styles position count).map Prod.snd
  | style position => (buffer.style position).map Prod.snd
  | flush => .ok buffer.flush.2.2
  | setGrammar grammar => .ok (buffer.setGrammar grammar)
  | listen => .ok buffer.listen.2
  | unlisten id => .ok (buffer.unlisten id).2

/-- What an operation makes of the text. -/
def textAfter (text : Text) : Operation → Text
  | replace start stop inserted => text.splice start stop (.ofString inserted)
  | _ => text

/-- An edit begins and ends between characters of the text, which stays shorter than `limit`. A grammar
has to be admitted. -/
def Allowed (admitted : Grammar → Prop) (limit : Nat) (text : Text) : Operation → Prop
  | replace start stop inserted => text.isSlice start stop = true ∧
      (text.splice start stop (.ofString inserted)).size < limit
  | setGrammar grammar => admitted grammar
  | _ => True

theorem Allowed.size_lt {admitted : Grammar → Prop} {limit : Nat} {text : Text} {operation : Operation}
    (allowed : operation.Allowed admitted limit text) (short : text.size < limit) :
    (operation.textAfter text).size < limit := by
  cases operation with
  | replace start stop inserted => exact allowed.2
  | _ => exact short

end Operation

/-- What operations make of a buffer, one after the other. -/
def run : List Operation → Buffer → Except Fault Buffer
  | [], buffer => return buffer
  | operation :: rest, buffer => do run rest (← operation.apply buffer)

theorem run_cons {operation : Operation} {buffer after : Buffer}
    (went : operation.apply buffer = .ok after) (rest : List Operation) :
    run (operation :: rest) buffer = run rest after := by
  rw [run, went, Fault.ok_bind]

/-- What operations make of the text. -/
def textAfter : Text → List Operation → Text := List.foldl Operation.textAfter

/-- Every operation may be called with the text that those before it lead to. -/
def AllAllowed (admitted : Grammar → Prop) (limit : Nat) : Text → List Operation → Prop
  | _, [] => True
  | text, operation :: rest => operation.Allowed admitted limit text ∧
      AllAllowed admitted limit (operation.textAfter text) rest

theorem size_textAfter_lt {admitted : Grammar → Prop} {limit : Nat} {text : Text}
    {operations : List Operation} (short : text.size < limit)
    (allowed : AllAllowed admitted limit text operations) : (textAfter text operations).size < limit := by
  induction operations generalizing text with
  | nil => exact short
  | cons operation rest ih => exact ih (allowed.1.size_lt short) allowed.2

/-! ### Breaks that operations may store -/

/-- For how many breaks some slices of work may need new slots, from one slice on, each no more than its
deadline allows. -/
def sliceStores (deadline : Nat → Deadline) (text : Text) : (first count : Nat) → Nat
  | _, 0 => 0
  | first, count + 1 =>
    (deadline first).stores (3 * text.size) 0 + sliceStores deadline text (first + 1) count

/-- Every slice of work may need one. -/
theorem le_sliceStores {text : Text} (inside : 0 < text.size) (deadline : Nat → Deadline)
    (first count : Nat) : count ≤ sliceStores deadline text first count := by
  induction count generalizing first with
  | zero => exact Nat.zero_le _
  | succ count ih =>
    have one := (deadline first).stores_pos (3 * text.size - 1) 0
    rw [Nat.sub_add_cancel (by omega)] at one
    rw [sliceStores]
    have others := ih (first + 1)
    omega

namespace Operation

/-- For how many breaks an operation may need new slots. -/
def stores (config : Config) (text : Text) : Operation → Nat
  | process deadline => config.stores text deadline
  | work deadline => sliceStores deadline text 0 (text.size + 2)
  | _ => 0

/-- A slice of work has no deadline. -/
def Unlimited : Operation → Prop
  | process deadline => deadline = .never
  | work deadline => ∃ slice, deadline slice = .never
  | _ => False

end Operation

/-- Number of slots of the index. -/
def slots (buffer : Buffer) : Nat := buffer.highlighter.breaks.nodes.size

/-- Before each of some operations there are numbers for the slots of the index and for those that the
operation may need, if anything is left to do then. -/
def RoomForAll : Buffer → List Operation → Prop
  | _, [] => True
  | buffer, operation :: rest =>
    (buffer.needsProcessing = true →
      buffer.slots + operation.stores buffer.highlighter.config buffer.text ≤ BreakIndex.idRange) ∧
    match operation.apply buffer with
    | .ok after => RoomForAll after rest
    | .error _ => True

instance decidableRoomForAll :
    (buffer : Buffer) → (operations : List Operation) → Decidable (buffer.RoomForAll operations)
  | _, [] => inferInstanceAs (Decidable True)
  | buffer, operation :: rest =>
    have : Decidable (match operation.apply buffer with
        | .ok after => RoomForAll after rest
        | .error _ => True) :=
      match operation.apply buffer with
      | .ok after => decidableRoomForAll after rest
      | .error _ => inferInstanceAs (Decidable True)
    inferInstanceAs (Decidable ((_ → _) ∧ _))

/-- There is room for operations one after the other, and for others after them. -/
theorem roomForAll_append {buffer : Buffer} {operations others : List Operation} :
    buffer.RoomForAll (operations ++ others) ↔ buffer.RoomForAll operations ∧
      ∀ after, run operations buffer = .ok after → after.RoomForAll others := by
  induction operations generalizing buffer with
  | nil =>
    refine ⟨fun room => ⟨trivial, fun after went => ?_⟩, fun room => room.2 buffer rfl⟩
    cases went
    exact room
  | cons operation rest ih =>
    rw [List.cons_append, RoomForAll, RoomForAll, run]
    cases operation.apply buffer with
    | error fault =>
      refine ⟨fun room => ⟨room, fun after went => ?_⟩, And.left⟩
      cases went
    | ok next =>
      rw [Fault.ok_bind]
      exact (and_congr_right fun _ => ih).trans and_assoc.symm

/-- There are numbers for all breaks of texts that stay shorter than a limit: the limit is no larger than
there are numbers, and breaks are spaced, or else there are for so many slots and a few new ones. -/
def RoomFor (config : Config) (limit slots few : Nat) : Prop :=
  0 < config.spacing ∧ limit ≤ BreakIndex.idRange ∨ slots + few ≤ BreakIndex.idRange

namespace RoomFor

variable {config : Config} {limit slots few fewer other further : Nat}

theorem mono (room : RoomFor config limit slots few) (le : fewer ≤ few) :
    RoomFor config limit slots fewer := room.imp_right (Nat.add_le_add_left le slots).trans

/-- Work until nothing is left to do has room only where there are as many numbers as bytes. -/
theorem size_lt {text : Text} {deadline : Nat → Deadline} (short : text.size < limit)
    (room : RoomFor config limit slots (sliceStores deadline text 0 (text.size + 2))) :
    text.size < BreakIndex.idRange := by
  rcases room with ⟨-, small⟩ | few
  · exact short.trans_le small
  · rcases Nat.eq_zero_or_pos text.size with empty | inside
    · rw [empty]
      decide
    · have := le_sliceStores inside deadline 0 (text.size + 2)
      omega

/-- An operation that makes no more slots than it may need leaves room for further ones. -/
theorem spend (room : RoomFor config limit slots (few + further))
    (spent : slots + few ≤ BreakIndex.idRange → other ≤ slots + few) :
    RoomFor config limit other further := by
  refine room.imp_right fun all => ?_
  have := spent (by omega)
  omega

end RoomFor

/-! ### What is true between two operations -/

variable {config : Config} {buffer : Buffer}

/-- Work leaves the text, the grammar and the cache of a buffer as they are. -/
structure Alike (before after : Buffer) : Prop where
  text : after.text = before.text
  grammar : after.grammar = before.grammar
  cache : after.cache = before.cache

theorem Alike.refl (buffer : Buffer) : buffer.Alike buffer := ⟨rfl, rfl, rfl⟩

theorem Alike.trans {before middle after : Buffer} (first : before.Alike middle)
    (second : middle.Alike after) : before.Alike after :=
  ⟨second.text.trans first.text, second.grammar.trans first.grammar, second.cache.trans first.cache⟩

/-- The breaks of a buffer are in order, and the run of its cache is aligned. -/
structure Stands (config : Config) (buffer : Buffer) : Prop where
  highlighter : ∃ behind reached ahead,
    buffer.highlighter.Stands buffer.text behind reached ahead
  cache : buffer.cache.Stands buffer.text buffer.grammar
  config : buffer.highlighter.config = config

theorem stands_ofText {text : Text} {grammar : Grammar} (held : text.Held)
    (admits : config.Admits grammar) : Stands config (ofText text grammar config) :=
  ⟨⟨_, _, _, Highlighter.stands_ofSize held admits⟩, StyleCache.stands_empty, rfl⟩

namespace Stands

variable (stands : buffer.Stands config)
include stands

theorem setGrammar {grammar : Grammar} (admits : config.Admits grammar) :
    (buffer.setGrammar grammar).Stands config := by
  obtain ⟨behind, reached, ahead, highlighter⟩ := stands.highlighter
  have same := stands.config
  exact ⟨⟨_, _, _, highlighter.setGrammar (same ▸ admits)⟩, StyleCache.stands_empty, same⟩

theorem flush : buffer.flush.2.2.Stands config ∧ buffer.flush.2.2.text = buffer.text := by
  obtain ⟨⟨behind, reached, ahead, highlighter⟩, cache, same⟩ := stands
  refine ⟨⟨⟨behind, reached, ahead, ?_⟩, ?_, ?_⟩, text_flush buffer⟩
  · rw [highlighter_flush, text_flush]
    exact highlighter.takeDirty
  · rw [grammar_flush, text_flush]
    exact cache_flush cache cache.invalidate
  · rw [highlighter_flush]
    exact same

/-- A question goes well. -/
theorem styles (position count : Nat) :
    ∃ answer after, buffer.styles position count = .ok (answer, after) ∧ after.Stands config ∧
      after.text = buffer.text := by
  obtain ⟨⟨behind, reached, ahead, highlighter⟩, cache, same⟩ := stands
  obtain ⟨answer, kept, answered, keptStands⟩ :=
    StyleCache.styles_eq_ok highlighter cache position count
  rcases buffer with ⟨text, highlighter, cache, listeners, nextListener⟩
  unfold Buffer.styles
  simp only at answered
  simp only [answered]
  exact ⟨answer, _, rfl, ⟨⟨behind, reached, ahead, ‹_›⟩, keptStands, same⟩, rfl⟩

/-- A question about a single byte goes well. -/
theorem style (position : Nat) :
    ∃ answer after, buffer.style position = .ok (answer, after) ∧ after.Stands config ∧
      after.text = buffer.text := by
  obtain ⟨⟨behind, reached, ahead, highlighter⟩, cache, same⟩ := stands
  obtain ⟨answer, kept, answered, keptStands⟩ := StyleCache.styles_eq_ok highlighter cache position 1
  unfold Buffer.style StyleCache.style
  rw [answered]
  exact ⟨_, _, rfl, ⟨⟨behind, reached, ahead, highlighter⟩, keptStands, same⟩, rfl⟩

/-- An edit goes well. -/
theorem replace {start stop : Nat} {inserted : String}
    (isSlice : buffer.text.isSlice start stop = true)
    (small : (buffer.text.splice start stop (.ofString inserted)).size < 2 ^ 63) :
    ∃ change after, buffer.replace start stop inserted = .ok (change, after) ∧
      after.Stands config ∧ after.text = buffer.text.splice start stop (.ofString inserted) := by
  obtain ⟨⟨behind, reached, ahead, highlighter⟩, cache, same⟩ := stands
  obtain ⟨change, replaced⟩ := Text.exists_replace_of_isSlice highlighter.held isSlice small
  have edits := Text.edits_of_replace highlighter.held small replaced
  have held := Text.held_of_replace highlighter.held small replaced
  obtain ⟨after, edited, sameGrammar, sameConfig, moved⟩ := highlighter.edit_eq_ok edits held
  obtain ⟨kept, told, keptStands⟩ := StyleCache.exists_edit highlighter cache edits
  rw [← sameGrammar] at told keptStands
  exact ⟨change, _, replace_of_parts replaced edited told,
    ⟨moved, keptStands, sameConfig.trans same⟩, rfl⟩

/-- The frontier is in the text. -/
theorem frontier_le {reached : Nat} (here : buffer.highlighter.frontierPosition = .ok reached) :
    reached ≤ buffer.size := by
  obtain ⟨behind, value, ahead, highlighter⟩ := stands.highlighter
  cases here.symm.trans highlighter.frontierPosition_eq
  exact highlighter.inText

end Stands

/-- What a slice of work has come to that began with the frontier at a position: so many bytes have been
scanned, and if something is left to do then its time was over, and the frontier has advanced. -/
structure Sliced (config : Config) (buffer : Buffer) (deadline : Deadline) (reached scanned : Nat)
    (after : Buffer) : Prop where
  stands : after.Stands config
  alike : buffer.Alike after
  scanned : scanned ≤ buffer.size
  slots : buffer.slots + config.stores buffer.text deadline ≤ BreakIndex.idRange →
    after.slots ≤ buffer.slots + config.stores buffer.text deadline
  left : after.needsProcessing = true → deadline ≠ .never ∧ ∃ further,
    after.highlighter.frontierPosition = .ok further ∧ reached < further

/-- **A slice of work ends**, unless breaks are not spaced and there is no deadline. -/
theorem Stands.process (stands : buffer.Stands config) {limit reached : Nat}
    (here : buffer.highlighter.frontierPosition = .ok reached) (short : buffer.size < limit)
    (deadline : Deadline) (room : buffer.needsProcessing = true →
      RoomFor config limit buffer.slots (config.stores buffer.text deadline)) :
    Fault.Ends (Pass.Stalls config.spacing deadline)
      (fun (scanned, after) => buffer.Sliced config deadline reached scanned after)
      (buffer.process deadline) := by
  obtain ⟨⟨behind, value, ahead, highlighter⟩, cache, same⟩ := stands
  cases here.symm.trans highlighter.frontierPosition_eq
  subst same
  have ends := highlighter.process_ends deadline
    fun pending => (room pending).imp (fun ⟨spaced, small⟩ => ⟨spaced, short.trans_le small⟩) id
  rcases buffer with ⟨text, before, kept, listeners, nextListener⟩
  unfold Buffer.process
  simp only at highlighter cache ends ⊢
  cases went : before.process text deadline with
  | error fault =>
    rw [went] at ends
    exact ends
  | ok outcome =>
    obtain ⟨scanned, after⟩ := outcome
    rw [went] at ends
    obtain ⟨sameGrammar, sameConfig, front, final, rest, standsAfter, left⟩ := ends
    have stop := Text.le_size_of_isBoundary (highlighter.laid.process_dirty went).2
    refine ⟨⟨⟨front, final, rest, standsAfter⟩, ?_, sameConfig⟩, ⟨rfl, sameGrammar, rfl⟩,
      (Nat.le_add_left _ _).trans stop, fun few => highlighter.laid.slots_of_stores few went,
      fun working => ?_⟩
    · exact (show StyleCache.Stands text after.grammar kept from sameGrammar ▸ cache)
    · obtain ⟨limited, advanced⟩ := left working
      exact ⟨limited, final.position, standsAfter.frontierPosition_eq, advanced⟩

/-! ### Slices of work -/

/-- What every slice of work keeps true of the buffer and of the number of bytes that have been scanned is
true after any slices. -/
theorem processSlices_keeps {motive : Nat → Buffer → Prop}
    (slice : ∀ {scanned further : Nat} {buffer after : Buffer} {deadline : Deadline},
      motive scanned buffer → buffer.process deadline = .ok (further, after) →
        motive (scanned + further) after)
    {deadline : Nat → Deadline} {limit slices scanned : Nat} {work : Work}
    (begins : motive scanned buffer)
    (went : processSlices deadline limit ⟨slices, scanned, buffer⟩ = .ok work) :
    motive work.scanned work.buffer := by
  induction limit generalizing buffer slices scanned with
  | zero =>
    cases went
    exact begins
  | succ limit ih =>
    rw [processSlices] at went
    split at went
    · obtain ⟨⟨further, next⟩, processed, went⟩ := Fault.bind_eq_ok.mp went
      obtain ⟨sum, added, went⟩ := Fault.bind_eq_ok.mp went
      obtain ⟨-, rfl⟩ := checkedAdd_eq_ok_iff.mp added
      exact ih (slice begins processed) went
    · cases went
      exact begins

/-- So it is after work that goes on until nothing is left to do. -/
theorem processUntilIdle_keeps {motive : Nat → Buffer → Prop}
    (slice : ∀ {scanned further : Nat} {buffer after : Buffer} {deadline : Deadline},
      motive scanned buffer → buffer.process deadline = .ok (further, after) →
        motive (scanned + further) after)
    {deadline : Nat → Deadline} {work : Work} (begins : motive 0 buffer)
    (went : buffer.processUntilIdle deadline = .ok work) : motive work.scanned work.buffer := by
  obtain ⟨done, sliced, went⟩ := Fault.bind_eq_ok.mp went
  dsimp only at went
  split at went
  · obtain ⟨_, failed, _⟩ := Fault.bind_eq_ok.mp went
    cases failed
  · cases went
    exact processSlices_keeps slice begins sliced

/-- The same for what is kept only as long as there are numbers for all slots. -/
theorem processUntilIdle_induct {motive : Nat → Buffer → Prop}
    (slice : ∀ {scanned further : Nat} {buffer after : Buffer} {deadline : Deadline},
      motive scanned buffer → buffer.process deadline = .ok (further, after) →
        after.highlighter.breaks.Numbered → motive (scanned + further) after)
    {deadline : Nat → Deadline} {work : Work} (begins : motive 0 buffer)
    (went : buffer.processUntilIdle deadline = .ok work)
    (numbered : work.buffer.highlighter.breaks.Numbered) : motive work.scanned work.buffer :=
  processUntilIdle_keeps
    (motive := fun scanned after => after.highlighter.breaks.Numbered → motive scanned after)
    (fun {_ _ _ _ _} before processed numbered => slice
      (before ((Highlighter.slots_le_of_process (process_eq_ok processed).1).trans numbered)) processed
      numbered)
    (fun _ => begins) went numbered

/-- Where nothing is left to do, no further slice is worked on. -/
theorem processSlices_of_idle {deadline : Nat → Deadline} {slices scanned : Nat}
    (idle : buffer.needsProcessing = false) (limit : Nat) :
    processSlices deadline limit ⟨slices, scanned, buffer⟩ = .ok ⟨slices, scanned, buffer⟩ := by
  cases limit with
  | zero => rfl
  | succ limit =>
    rw [processSlices, if_neg (by rw [idle]; exact Bool.false_ne_true)]
    rfl

/-- What slices of work have come to that began with the frontier at a position: if something is left to do
after so many of them, then each has advanced it. -/
structure Worked (config : Config) (buffer : Buffer) (reached limit : Nat) (after : Buffer) : Prop where
  stands : after.Stands config
  alike : buffer.Alike after
  left : after.needsProcessing = true → ∃ further,
    after.highlighter.frontierPosition = .ok further ∧ reached + limit ≤ further

/-- **Slices of work come to an end**, unless breaks are not spaced and one of them has no deadline. -/
theorem processSlices_ends (deadline : Nat → Deadline) (limit : Nat) {longest slices scanned reached : Nat}
    (stands : buffer.Stands config)
    (here : buffer.highlighter.frontierPosition = .ok reached) (short : buffer.size < longest)
    (room : RoomFor config longest buffer.slots (sliceStores deadline buffer.text slices limit))
    (counted : scanned + limit * buffer.size ≤ maxSize) :
    Fault.Ends (fun fault => ∃ slice, Pass.Stalls config.spacing (deadline slice) fault)
      (fun work => buffer.Worked config reached limit work.buffer)
      (processSlices deadline limit ⟨slices, scanned, buffer⟩) := by
  induction limit generalizing buffer slices scanned reached with
  | zero => exact ⟨stands, .refl buffer, fun _ => ⟨reached, here, le_rfl⟩⟩
  | succ limit ih =>
    rw [sliceStores] at room
    rw [Nat.succ_mul] at counted
    rw [processSlices]
    split
    · have once := stands.process here short (deadline slices)
        fun _ => room.mono ((config.stores_le _ _).trans (Nat.le_add_right _ _))
      refine (once.weaken fun fault stalls => ⟨slices, stalls⟩).bind ?_
      rintro ⟨count, after⟩ ⟨standsAfter, alike, few, slots, left⟩
      have most := config.stores_le buffer.text (deadline slices)
      have sum : scanned + count ≤ maxSize := by omega
      simp only [checkedAdd_eq_ok sum, Fault.ok_bind]
      cases working : after.needsProcessing with
      | true =>
        obtain ⟨-, further, hereAfter, advanced⟩ := left working
        have sameSize : after.size = buffer.size := congrArg Text.size alike.text
        have sameText := alike.text
        have roomAfter :
            RoomFor config longest after.slots (sliceStores deadline after.text (slices + 1) limit) := by
          rw [sameText]
          exact room.spend fun few => (slots (by omega)).trans (by omega)
        have countedAfter : scanned + count + limit * after.size ≤ maxSize := by
          rw [sameSize]
          omega
        have again := ih standsAfter hereAfter (sameSize.trans_lt short) roomAfter countedAfter
        refine again.mono ?_
        rintro work ⟨standsWork, alikeWork, leftWork⟩
        refine ⟨standsWork, alike.trans alikeWork, fun workingToo => ?_⟩
        obtain ⟨final, hereFinal, advancedToo⟩ := leftWork workingToo
        exact ⟨final, hereFinal, by omega⟩
      | false =>
        rw [processSlices_of_idle working]
        exact ⟨standsAfter, alike, fun workingToo => by cases working.symm.trans workingToo⟩
    · rename_i idle
      exact ⟨stands, .refl buffer, fun working => absurd working idle⟩

/-- **Work that goes on until nothing is left to do comes to an end**, unless breaks are not spaced and a
slice has no deadline. -/
theorem processUntilIdle_ends (stands : buffer.Stands config) {limit : Nat} {deadline : Nat → Deadline}
    (short : buffer.size < limit) (room : buffer.needsProcessing = true →
      RoomFor config limit buffer.slots (sliceStores deadline buffer.text 0 (buffer.size + 2))) :
    Fault.Ends (fun fault => ∃ slice, Pass.Stalls config.spacing (deadline slice) fault)
      (fun work => work.buffer.Stands config ∧ buffer.Alike work.buffer ∧
        work.buffer.needsProcessing = false)
      (buffer.processUntilIdle deadline) := by
  cases pending : buffer.needsProcessing with
  | false =>
    unfold processUntilIdle
    rw [processSlices_of_idle pending]
    simp only [Fault.ok_bind, pending, Bool.false_eq_true, if_false]
    exact ⟨stands, .refl buffer, pending⟩
  | true =>
  obtain ⟨behind, reached, ahead, highlighter⟩ := stands.highlighter
  have counted : 0 + (buffer.size + 2) * buffer.size ≤ maxSize := by
    have shortToo : buffer.size < BreakIndex.idRange := RoomFor.size_lt short (room pending)
    rw [Nat.zero_add]
    unfold BreakIndex.idRange at shortToo
    exact (Nat.mul_le_mul (show buffer.size + 2 ≤ 0x100000001 by omega)
      (show buffer.size ≤ 0xFFFFFFFF by omega)).trans (by decide)
  refine (processSlices_ends deadline (buffer.size + 2) stands highlighter.frontierPosition_eq short
    (room pending) counted).bind ?_
  rintro work ⟨standsAfter, alike, left⟩
  cases working : work.buffer.needsProcessing with
  | false => exact ⟨standsAfter, alike, working⟩
  | true =>
    -- The frontier would be behind the end of the text.
    obtain ⟨further, here, advanced⟩ := left working
    have inside := standsAfter.frontier_le here
    have sameSize : work.buffer.size = buffer.size := congrArg Text.size alike.text
    omega

/-! ### All operations -/

/-- The one fault an operation may end in: breaks are not spaced, and a slice of work has no deadline. -/
def Operation.Stalls (config : Config) (operation : Operation) (fault : Fault) : Prop :=
  config.spacing = 0 ∧ operation.Unlimited ∧ fault = .stalled

/-- **An operation goes well**, unless breaks are not spaced and a slice of work has no deadline. -/
theorem Operation.apply_ends {admitted : Grammar → Prop} {limit : Nat} (stands : buffer.Stands config)
    (admits : ∀ grammar, admitted grammar → config.Admits grammar) (short : buffer.size < limit)
    (small : limit ≤ 2 ^ 63) {operation : Operation}
    (allowed : operation.Allowed admitted limit buffer.text)
    (room : buffer.needsProcessing = true →
      RoomFor config limit buffer.slots (operation.stores config buffer.text)) :
    Fault.Ends (operation.Stalls config)
      (fun after => after.Stands config ∧ after.text = operation.textAfter buffer.text)
      (operation.apply buffer) := by
  cases operation with
  | replace start stop inserted =>
    obtain ⟨isSlice, inLimit⟩ := allowed
    obtain ⟨change, after, went, standsAfter, sameText⟩ :=
      stands.replace isSlice (inLimit.trans_le small)
    simp only [Operation.apply, went]
    exact ⟨standsAfter, sameText⟩
  | process deadline =>
    obtain ⟨behind, reached, ahead, highlighter⟩ := stands.highlighter
    refine Fault.Ends.map ?_
    refine ((stands.process highlighter.frontierPosition_eq short deadline room).weaken ?_).mono ?_
    · rintro fault ⟨unspaced, unlimited, stalled⟩
      exact ⟨unspaced, unlimited, stalled⟩
    · rintro ⟨scanned, after⟩ sliced
      exact ⟨sliced.stands, sliced.alike.text⟩
  | work deadline =>
    refine Fault.Ends.map ?_
    refine ((processUntilIdle_ends stands short room).weaken ?_).mono ?_
    · rintro fault ⟨slice, unspaced, unlimited, stalled⟩
      exact ⟨unspaced, ⟨slice, unlimited⟩, stalled⟩
    · rintro work ⟨standsAfter, alike, -⟩
      exact ⟨standsAfter, alike.text⟩
  | styles position count =>
    obtain ⟨answer, after, went, standsAfter, sameText⟩ := stands.styles position count
    simp only [Operation.apply, went]
    exact ⟨standsAfter, sameText⟩
  | style position =>
    obtain ⟨answer, after, went, standsAfter, sameText⟩ := stands.style position
    simp only [Operation.apply, went]
    exact ⟨standsAfter, sameText⟩
  | flush => exact stands.flush
  | setGrammar grammar => exact ⟨stands.setGrammar (admits grammar allowed), rfl⟩
  | listen => exact ⟨⟨stands.highlighter, stands.cache, stands.config⟩, rfl⟩
  | unlisten id => exact ⟨⟨stands.highlighter, stands.cache, stands.config⟩, rfl⟩

/-- **Allowed operations go well**, unless breaks are not spaced and a slice of work has no deadline. -/
theorem run_ends {admitted : Grammar → Prop} {limit : Nat} (stands : buffer.Stands config)
    (admits : ∀ grammar, admitted grammar → config.Admits grammar) (short : buffer.size < limit)
    (small : limit ≤ 2 ^ 63) {operations : List Operation}
    (allowed : AllAllowed admitted limit buffer.text operations)
    (room : 0 < config.spacing ∧ limit ≤ BreakIndex.idRange ∨ buffer.RoomForAll operations) :
    Fault.Ends (fun fault => ∃ operation ∈ operations, operation.Stalls config fault)
      (fun after => after.Stands config ∧ after.text = textAfter buffer.text operations)
      (run operations buffer) := by
  induction operations generalizing buffer with
  | nil => exact ⟨stands, rfl⟩
  | cons operation rest ih =>
    have once := Operation.apply_ends stands admits short small allowed.1 fun pending =>
      room.imp_right fun all => stands.config ▸ all.1 pending
    rw [run]
    cases went : operation.apply buffer with
    | error fault =>
      rw [went] at once
      exact ⟨operation, List.mem_cons_self, once⟩
    | ok after =>
      rw [went] at once
      obtain ⟨standsAfter, sameText⟩ := once
      have shortAfter : after.size < limit := by
        unfold size
        rw [sameText]
        exact allowed.1.size_lt short
      have roomAfter : 0 < config.spacing ∧ limit ≤ BreakIndex.idRange ∨ after.RoomForAll rest := by
        refine room.imp_right fun all => ?_
        have rest := all.2
        rwa [went] at rest
      have again := ih standsAfter shortAfter (sameText.symm ▸ allowed.2) roomAfter
      refine (again.weaken fun fault => ?_).mono ?_
      · rintro ⟨other, member, stalls⟩
        exact ⟨other, List.mem_cons_of_mem _ member, stalls⟩
      · rintro final ⟨standsFinal, same⟩
        refine ⟨standsFinal, same.trans ?_⟩
        rw [sameText]
        rfl

/-! ### Moderate sizes -/

/-- A grammar whose numbers are those of its patterns and regexes, whose matches lie in what was searched,
and whose regexes see less than `2 ^ 58` bytes of the text around a match. -/
structure Moderate (grammar : Grammar) : Prop where
  wellFormed : grammar.WellFormed
  lawful : grammar.Lawful
  small : grammar.maxExtend < 2 ^ 58

/-- The numbers of every grammar that compiles are those of its patterns and regexes. -/
theorem moderate_of_compile {engine : Regex.Engine} {source : Grammar.Source} {grammar : Grammar}
    (compiled : source.compile engine = .ok grammar) (lawful : grammar.Lawful)
    (small : grammar.maxExtend < 2 ^ 58) : Moderate grammar :=
  ⟨Grammar.wellFormed_of_compile compiled, lawful, small⟩

theorem Moderate.admits {grammar : Grammar} (moderate : Moderate grammar)
    (small : config.spacing < 2 ^ 58) : config.Admits grammar := by
  have smallToo := moderate.small
  refine ⟨⟨?_, fun _ => ?_⟩, moderate.wellFormed, moderate.lawful⟩
  · unfold maxSize
    omega
  · unfold maxSize
    omega

/-- Operations of all kinds. -/
def session : List Operation :=
  [.process .expired, .styles 0 3, .replace 3 3 "c", .style 2, .listen, .work fun _ => .expired, .flush,
    .unlisten 0, .setGrammar .brackets, .replace 0 1 ""]

end Highlight.Buffer
