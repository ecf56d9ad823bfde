/-
**A scan whose sink may fail.**

`Scanner.run_ends` says of a scan that fails only that its sink failed somewhere. A sink that calls a halt
where it would fail tells where that was:

* `Sink.caught`: the sink that calls a halt where another one fails;
* `Scanner.run_caught`: a scan with it is the scan with the other one, up to the fault;
* `Sink.Minds`: what a sink keeps true, and which faults it may fail with;
* `Scanner.run_minds`: **a scan ends with what its sink keeps true, or fails as the sink may**.
-/

import Highlight.Proofs.Scan.Beside
import Highlight.Proofs.Scan.Run

namespace Highlight

variable {σ : Type}

/-- The sink that calls a halt where another one fails. -/
def Sink.caught (sink : Sink σ) : Sink (Except Fault σ) := fun collected token state =>
  match collected with
  | .error fault => .ok (.error fault, .halt)
  | .ok value =>
    match sink value token state with
    | .ok (after, flow) => .ok (.ok after, flow)
    | .error fault => .ok (.error fault, .halt)

theorem Sink.caught_total (sink : Sink σ) (collected : Except Fault σ) (token : Token)
    (state : ScanState) : ∃ taken, sink.caught collected token state = .ok taken := by
  unfold caught
  cases collected with
  | error fault => exact ⟨_, rfl⟩
  | ok value =>
    simp only
    cases sink value token state with
    | error fault => exact ⟨_, rfl⟩
    | ok outcome => exact ⟨_, rfl⟩

/-- A part of a scan, and the same part with the sink that calls a halt where the other one fails. -/
inductive Caught : Except Fault (Progress σ) → Except Fault (Progress (Except Fault σ)) → Prop where
  | went (after : σ) (state : ScanState) (flow : Flow) :
      Caught (.ok ⟨after, state, flow⟩) (.ok ⟨.ok after, state, flow⟩)
  /-- The sink failed. -/
  | failed (fault : Fault) (state : ScanState) :
      Caught (.error fault) (.ok ⟨.error fault, state, .halt⟩)
  /-- The scan itself failed. -/
  | stuck (fault : Fault) : Caught (.error fault) (.error fault)

theorem Caught.bind {first : Except Fault (Progress σ)}
    {other : Except Fault (Progress (Except Fault σ))} (caught : Caught first other)
    {second : Progress σ → Except Fault (Progress σ)}
    {third : Progress (Except Fault σ) → Except Fault (Progress (Except Fault σ))}
    (halts : ∀ after state, second ⟨after, state, .halt⟩ = .ok ⟨after, state, .halt⟩)
    (haltsToo : ∀ found state, third ⟨found, state, .halt⟩ = .ok ⟨found, state, .halt⟩)
    (rest : ∀ after state, first = .ok ⟨after, state, .proceed⟩ →
      Caught (second ⟨after, state, .proceed⟩) (third ⟨.ok after, state, .proceed⟩)) :
    Caught (first >>= second) (other >>= third) := by
  cases caught with
  | went after state flow =>
    cases flow with
    | proceed => exact rest after state rfl
    | halt =>
      rw [Fault.ok_bind, Fault.ok_bind, halts, haltsToo]
      exact .went after state .halt
  | failed fault state =>
    rw [Fault.ok_bind, haltsToo]
    exact .failed fault state
  | stuck fault => exact .stuck fault

/-- Whatever a scan does, the scan with the sink that calls a halt does the same, up to the fault. -/
theorem Sink.beside_caught (sink : Sink σ) (grammar : Grammar) :
    sink.Beside grammar (fun _ => True) sink.caught
      (fun collected found part other => found = .ok collected → Caught part other) where
  leads _ _ _ _ := trivial
  rest := by
    rintro collected - state - rfl
    exact .went collected state .proceed
  stuck _ _ fault _ := .stuck fault
  token := by
    rintro collected - token state - rfl
    simp only [Scanner.deliver, Sink.caught]
    cases sink collected token state with
    | error fault => exact .failed fault state
    | ok outcome => exact .went outcome.1 state outcome.2
  bind related halts haltsToo rest same := (related same).bind halts haltsToo fun after state went =>
    rest after (.ok after) state went trivial rfl

/-- **A scan with the sink that calls a halt is the scan with the one that fails**, up to the fault. -/
theorem Scanner.run_caught (scanner : Scanner) (sink : Sink σ) (text : Text) (limit : Nat)
    (state : ScanState) (collected : σ) {found : Except Fault σ} {final : ScanState}
    {ending : ScanEnd}
    (ran : scanner.run text sink.caught limit state (.ok collected) = .ok (found, final, ending)) :
    scanner.run text sink limit state collected = found.map fun after => (after, final, ending) := by
  unfold run at ran ⊢
  have caught : Caught (scanner.scanTo text sink (min limit text.size) state collected)
      (scanner.scanTo text sink.caught (min limit text.size) state (.ok collected)) :=
    (sink.beside_caught scanner.grammar).scanTo trivial text _ collected _ rfl
  generalize scanner.scanTo text sink (min limit text.size) state collected = plain at caught ⊢
  generalize scanner.scanTo text sink.caught (min limit text.size) state (.ok collected) = other
    at caught ran
  cases caught with
  | went after state flow =>
    cases ran
    rfl
  | failed fault state =>
    cases ran
    rfl
  | stuck fault => cases ran

/-- What a sink keeps true over moves of some kind, what is true when it calls a halt, and which faults
it may fail with. -/
structure Sink.Minds (sink : Sink σ) (grammar : Grammar) (text : Text)
    (made : ScanState → Move → Prop) (kept halted : σ → ScanState → Prop) (failing : Fault → Prop) :
    Prop where
  silent : ∀ {collected state move}, state.Good grammar text → kept collected state →
    made state move → move.token = none → kept collected move.state
  token : ∀ {collected state move token}, state.Good grammar text → kept collected state →
    made state move → move.token = some token →
      Fault.Ends failing (fun (after, flow) => match flow with
        | .proceed => kept after move.state
        | .halt => halted after move.state) (sink collected token move.state)

namespace Sink.Minds

variable {sink : Sink σ} {grammar : Grammar} {text : Text} {made : ScanState → Move → Prop}
  {kept halted : σ → ScanState → Prop} {failing : Fault → Prop}

/-- The sink that calls a halt keeps the same true. -/
theorem caught (minds : sink.Minds grammar text made kept halted failing) :
    sink.caught.Keeps grammar text made
      (fun found state => ∃ collected, found = .ok collected ∧ kept collected state)
      (fun found state => match found with
        | .ok collected => halted collected state
        | .error fault => failing fault) := by
  constructor
  · rintro - state move good ⟨collected, rfl, keptBefore⟩ isMade silent
    exact ⟨collected, rfl, minds.silent good keptBefore isMade silent⟩
  · rintro - state move token after flow good ⟨collected, rfl, keptBefore⟩ isMade delivered taken
    have next := minds.token good keptBefore isMade delivered
    simp only [Sink.caught] at taken
    cases outcome : sink collected token move.state with
    | error fault =>
      rw [outcome] at next taken
      cases taken
      exact next
    | ok result =>
      obtain ⟨value, flow⟩ := result
      rw [outcome] at next taken
      cases taken
      cases flow with
      | proceed => exact ⟨value, rfl, next⟩
      | halt => exact next

end Sink.Minds

/-- **A scan ends with what its sink keeps true or with what is true at the halt, or it fails as the sink
may.** -/
theorem Scanner.run_minds (scanner : Scanner) {sink : Sink σ} {text : Text}
    {made : ScanState → Move → Prop} {kept halted : σ → ScanState → Prop} {failing : Fault → Prop}
    (makes : scanner.grammar.Makes text made) (held : text.Held)
    (minds : sink.Minds scanner.grammar text made kept halted failing) (limit : Nat)
    {state : ScanState} {collected : σ}
    (fits : state.position < text.size → state.position + scanner.unit ≤ maxSize)
    (positive : 0 < scanner.unit) (good : state.Good scanner.grammar text)
    (keptBefore : kept collected state) :
    Fault.Ends failing (fun (after, final, ending) => final.Good scanner.grammar text ∧
        (kept after final ∧ min limit text.size ≤ final.position ∧
            (ending = .endOfText ↔ text.size ≤ final.position) ∨
          halted after final ∧ ending = .stopped))
      (scanner.run text sink limit state collected) := by
  have small : state.position < text.size → state.position + scanner.unit ≤ maxSize ∨ False :=
    fun inside => Or.inl (fits inside)
  have ends := scanner.run_ends makes held minds.caught limit small positive good
    ⟨collected, rfl, keptBefore⟩
  obtain ⟨⟨found, final, ending⟩, ran, goodFinal, outcome⟩ := ends.exists_ok id sink.caught_total
  rw [scanner.run_caught sink text limit state collected ran]
  cases found with
  | ok after =>
    refine ⟨goodFinal, outcome.imp_left ?_⟩
    rintro ⟨⟨value, same, keptFinal⟩, further⟩
    cases same
    exact ⟨keptFinal, further⟩
  | error fault =>
    rcases outcome with ⟨⟨value, same, -⟩, -⟩ | ⟨fails, -⟩
    · cases same
    · exact fails

end Highlight
