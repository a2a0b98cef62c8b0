import BlockDiagram.Proofs.Leaves
import BlockDiagram.Proofs.Preservation

namespace BlockDiagram

def Change.Fits (context : Context) : Change → Prop
  | .invalidateInput index => index < context.inputCount
  | .mark index _ => index < context.outputCount
  | _ => False

namespace Context

def Matches : Context → Prop
  | .leaf _ => True
  | .diagram _ subsystems => ∀ system child buffer, subsystems.context? system = some child →
    subsystems.buffer? system = some buffer → buffer.count = child.outputCount

def Matched (tree : Context) : Prop := tree.Everywhere Matches

def Finished : Context → Prop
  | .leaf _ => True
  | .diagram frame _ => frame.phase = .sealed

def Sealed (tree : Context) : Prop := tree.Everywhere Finished

theorem Matched.child {frame : Frame} {subsystems : Subsystems} {system : Nat} {child : Context}
    (matched : (Context.diagram frame subsystems).Matched) (present : subsystems.context? system = some child) :
    child.Matched :=
  (everywhere_diagram.mp matched).2 system child present

theorem Sealed.child {frame : Frame} {subsystems : Subsystems} {system : Nat} {child : Context}
    (closed : (Context.diagram frame subsystems).Sealed) (present : subsystems.context? system = some child) :
    child.Sealed :=
  (everywhere_diagram.mp closed).2 system child present

theorem Sealed.frame {frame : Frame} {subsystems : Subsystems} (closed : (Context.diagram frame subsystems).Sealed) :
    frame.phase = .sealed :=
  (everywhere_diagram.mp closed).1

theorem matches_receive (context : Context) (changes : List Change) (fits : context.Matches) :
    (context.receive changes).Matches := by
  cases context with
  | leaf => trivial
  | diagram frame subsystems =>
    intro system child buffer present held
    rw [Subsystems.buffer?_receive] at held
    obtain ⟨before, there, rfl⟩ := Subsystems.of_receive present
    rw [outputCount_receive]
    exact fits system before buffer there held

theorem Matched.receive {context : Context} (matched : context.Matched) (changes : List Change) :
    (context.receive changes).Matched :=
  everywhere_receive matches_receive changes matched

theorem matched_putBuffer {frame : Frame} {subsystems : Subsystems} {system : Nat} {buffer kept : OutputBuffer}
    (matched : (Context.diagram frame subsystems).Matched) (held : subsystems.buffer? system = some kept)
    (size : buffer.count = kept.count) :
    (Context.diagram frame (subsystems.putBuffer system buffer)).Matched := by
  obtain ⟨here, below⟩ := everywhere_diagram.mp matched
  refine everywhere_diagram.mpr ⟨fun place child other present there => ?_, fun place child present => ?_⟩
  · rw [Subsystems.context?_putBuffer] at present
    rw [Subsystems.buffer?_putBuffer] at there
    split at there
    · rename_i same
      rw [held] at there
      cases there
      exact size.trans (here system child kept (same ▸ present) held)
    · exact here place child other present there
  · rw [Subsystems.context?_putBuffer] at present
    exact below place child present

theorem matched_delivery {frame later : Frame} {subsystems : Subsystems} (mail : Mail)
    (matched : (Context.diagram frame subsystems).Matched) :
    (Context.diagram later (subsystems.receive mail)).Matched := by
  refine everywhere_diagram.mpr ⟨fun place child buffer present held => ?_, fun place child present => ?_⟩
  · rw [Subsystems.buffer?_receive] at held
    obtain ⟨before, there, rfl⟩ := Subsystems.of_receive present
    rw [outputCount_receive]
    exact (everywhere_diagram.mp matched).1 place before buffer there held
  · obtain ⟨before, there, rfl⟩ := Subsystems.of_receive present
    exact (matched.child there).receive _

theorem matched_putContext {frame : Frame} {subsystems : Subsystems} {system : Nat} {child other : Context}
    (matched : (Context.diagram frame subsystems).Matched) (present : subsystems.context? system = some child)
    (inside : other.Matched) (count : other.outputCount = child.outputCount) :
    (Context.diagram frame (subsystems.putContext system other)).Matched := by
  obtain ⟨here, below⟩ := everywhere_diagram.mp matched
  refine everywhere_diagram.mpr ⟨fun place found buffer there held => ?_, fun place found there => ?_⟩
  · rw [Subsystems.buffer?_putContext] at held
    rcases Subsystems.of_putContext present there with ⟨rfl, rfl⟩ | kept
    · rw [count]
      exact here place child buffer present held
    · exact here place found buffer kept held
  · rcases Subsystems.of_putContext present there with ⟨_, rfl⟩ | kept
    · exact inside
    · exact below place found kept

end Context

theorem Subsystems.declared_child {subsystems : Subsystems} {output : Terminal}
    (declared : output ∈ subsystems.layout.declaredBy output.system) :
    ∃ child, subsystems.context? output.system = some child ∧ output.index < child.outputCount := by
  obtain ⟨outline, found, _⟩ := Layout.mem_declaredBy.mp declared
  obtain ⟨child, present⟩ := mem_present.mp (Layout.mem_present.mpr (Option.isSome_of_eq_some found))
  exact ⟨child, present, ((mem_declaredBy present).mp declared).2⟩

-- What the diagram exports are outputs that the subsystems behind them declare.
def Context.Furnished : Context → Prop
  | .leaf _ => True
  | .diagram frame subsystems => ∀ output ∈ frame.outputs, output ∈ subsystems.layout.declaredBy output.system

theorem Context.Matched.furnished {context : Context} (sound : context.WellFormed) (matched : context.Matched) :
    context.Everywhere Furnished := by
  intro path found located
  cases found with
  | leaf => trivial
  | diagram frame subsystems =>
    intro output exported
    obtain ⟨buffer, held, bound⟩ := (WellFormed.frame (Everywhere.below sound located)).exported output exported
    obtain ⟨child, present⟩ := Subsystems.context?_of_buffer? held
    refine (Subsystems.mem_declaredBy present).mpr ⟨rfl, Nat.lt_of_lt_of_le bound (Nat.le_of_eq ?_)⟩
    exact (everywhere_diagram.mp (Everywhere.below matched located)).1 _ _ _ present held

namespace Frame
variable {frame : Frame} {subsystems : Subsystems}

theorem ripple_fits (sound : frame.Sound subsystems) {start : List Terminal} {item : Nat × Change}
    (member : item ∈ frame.ripple subsystems.layout start) :
    ∃ child, subsystems.context? item.1 = some child ∧ item.2.Fits child := by
  obtain ⟨output, _, stale | invalid⟩ := mem_ripple.mp member
  · obtain ⟨declared, rfl⟩ := mem_staleness.mp stale
    exact Subsystems.declared_child declared
  · obtain ⟨input, fed, _, rfl⟩ := mem_invalidations.mp invalid
    exact (sound.wired output input ((sound.coherent.both output input).mp fed)).2

theorem invalidated_of_downstream (sound : frame.Sound subsystems) {start : List Terminal} {output input : Terminal}
    (reached : output ∈ frame.downstream subsystems.layout start)
    (wired : frame.wiring.source? input = some output) :
    (input.system, .invalidateInput input.index) ∈ frame.ripple subsystems.layout start := by
  obtain ⟨child, present, _⟩ := (sound.wired output input wired).2
  refine mem_ripple.mpr ⟨output, reached, .inr (mem_invalidations.mpr ⟨input, ?_, ?_, rfl⟩)⟩
  · exact (sound.coherent.both output input).mpr wired
  · exact Layout.mem_present.mp (Subsystems.mem_present.mpr ⟨child, present⟩)

theorem downstream_of_wired (sound : frame.Sound subsystems) {start : List Terminal} {output input other : Terminal}
    (reached : output ∈ frame.downstream subsystems.layout start)
    (wired : frame.wiring.source? input = some output)
    (declared : other ∈ subsystems.layout.declaredBy input.system) :
    other ∈ frame.downstream subsystems.layout start :=
  fed_downstream reached (mem_fedBy.mpr ⟨input, (sound.coherent.both output input).mpr wired, declared⟩)

end Frame

theorem Context.leaf_fits {own : Leaf} {change : Change} (fits : change.Fits (.leaf own)) :
    (Context.leaf own).verdict change = .accepted := by
  cases change with
  | invalidateInput | mark => exact if_pos fits
  | _ => exact fits.elim

theorem Context.verdict_furnished {context : Context} {change : Change} (sound : context.WellFormed)
    (furnished : context.Everywhere Furnished) (fits : change.Fits context) : context.verdict change = .accepted := by
  induction context using Context.induct generalizing change with
  | leaf own => exact leaf_fits fits
  | diagram frame subsystems ih =>
    have delivered : ∀ item : Nat × Change,
        (∃ child, subsystems.context? item.1 = some child ∧ item.2.Fits child) →
        subsystems.verdict item.1 item.2 = .accepted := by
      intro item has
      obtain ⟨child, present, fits⟩ := has
      rw [Subsystems.verdict_present present]
      exact ih _ _ present (sound.child present) ((everywhere_diagram.mp furnished).2 _ _ present) fits
    have own : frame.verdict change = .accepted := by
      cases change with
      | invalidateInput index =>
        have inside : index < frame.inputs.length := fits
        simp only [Frame.verdict, Frame.input, List.getElem?_eq_getElem inside]
      | mark index =>
        have inside : index < frame.outputs.length := fits
        simp only [Frame.verdict, Frame.output, List.getElem?_eq_getElem inside]
      | _ => exact fits.elim
    rw [verdict_diagram _ _ _ own]
    refine Verdict.all_accepted.mpr (fun verdict member => ?_)
    obtain ⟨item, sent, rfl⟩ := List.mem_map.mp member
    refine delivered item ?_
    rcases Frame.mem_mail.mp sent with passed | spread
    · cases passed with
      | invalidateInput entered =>
        obtain ⟨exposed, found, rfl⟩ := Frame.target?_inputs.mp entered
        exact sound.frame.exposed exposed (List.mem_of_getElem? (Frame.input_eq_ok.mp found))
      | mark entered =>
        exact Subsystems.declared_child ((everywhere_diagram.mp furnished).1 _ (List.mem_of_getElem? entered))
      | _ => exact fits.elim
    · exact Frame.ripple_fits sound.frame spread

theorem Context.verdict_fits {context : Context} {change : Change} (sound : context.WellFormed)
    (matched : context.Matched) (fits : change.Fits context) : context.verdict change = .accepted :=
  verdict_furnished sound (matched.furnished sound) fits

namespace Subsystems

theorem send_eq {subsystems : Subsystems} {system : Nat} {child : Context} {change : Change}
    (present : subsystems.context? system = some child) (accepted : child.verdict change = .accepted) :
    subsystems.send system change = .done () (subsystems.receive [(system, change)]) := by
  have told := putContext_receive present [change]
  simp only [send, context_eq_ok.mpr present, Context.send, accepted, Outcome.within, told, List.map_cons, List.map_nil]

-- None of the subsystems declines what is addressed to an input or output it has.
def Willing (subsystems : Subsystems) : Prop :=
  ∀ system child, subsystems.context? system = some child → ∀ change : Change, change.Fits child →
    child.verdict change = .accepted

theorem willing_of_matched {frame : Frame} {subsystems : Subsystems}
    (sound : (Context.diagram frame subsystems).WellFormed) (matched : (Context.diagram frame subsystems).Matched) :
    subsystems.Willing :=
  fun _ _ present _ => Context.verdict_fits (sound.child present) (matched.child present)

theorem Willing.putBuffer {subsystems : Subsystems} (willing : subsystems.Willing) (system : Nat)
    (buffer : OutputBuffer) : (subsystems.putBuffer system buffer).Willing :=
  fun place child present => willing place child (by rwa [context?_putBuffer] at present)

end Subsystems

namespace Diagram
variable {diagram : Diagram}

theorem propagateFrom_willing (sound : diagram.context.WellFormed) (willing : diagram.subsystems.Willing)
    (start : List Terminal) :
    diagram.propagateFrom start = .done (diagram.frame.reachedOutputs diagram.layout start)
      (diagram.withSubsystems (diagram.subsystems.receive (diagram.frame.ripple diagram.layout start))) := by
  have accepted : Verdict.all ((diagram.frame.ripple diagram.layout start).map
      (fun item => diagram.subsystems.verdict item.1 item.2)) = .accepted := by
    refine Verdict.all_accepted.mpr (fun verdict member => ?_)
    obtain ⟨item, sent, rfl⟩ := List.mem_map.mp member
    obtain ⟨child, present, fits⟩ := Frame.ripple_fits sound.frame sent
    rw [Subsystems.verdict_present present]
    exact willing _ child present _ fits
  simp only [propagateFrom, Subsystems.deliver, accepted]

theorem propagateFrom_eq (sound : diagram.context.WellFormed) (matched : diagram.context.Matched)
    (start : List Terminal) :
    diagram.propagateFrom start = .done (diagram.frame.reachedOutputs diagram.layout start)
      (diagram.withSubsystems (diagram.subsystems.receive (diagram.frame.ripple diagram.layout start))) :=
  propagateFrom_willing sound (Subsystems.willing_of_matched sound matched) start

theorem propagateMany_eq (sound : diagram.context.WellFormed) (matched : diagram.context.Matched)
    (closed : diagram.frame.phase = .sealed) {system : Nat} {buffer : OutputBuffer}
    (held : diagram.subsystems.buffer? system = some buffer) {indices : List Nat}
    (bound : ∀ index ∈ indices, index < buffer.count) :
    ∃ start, (∀ index ∈ indices, ⟨system, index⟩ ∈ start) ∧
      diagram.propagateMany system indices = .done (diagram.frame.reachedOutputs diagram.layout start)
        (diagram.withSubsystems (diagram.subsystems.receive (diagram.frame.ripple diagram.layout start))) := by
  refine ⟨startsOf buffer system indices, fun index member => (mem_startsOf bound).mpr ⟨rfl, member⟩, ?_⟩
  exact (propagateAs_eq .propagateOutputs closed held bound).trans (propagateFrom_eq sound matched _)

-- Up to its last step storing an output succeeds; that one is up to the
-- subsystem the output belongs to.
theorem setOutput_willing (sound : diagram.context.WellFormed) (willing : diagram.subsystems.Willing)
    (closed : diagram.frame.phase = .sealed) {output : Terminal} {buffer : OutputBuffer} (value : Value)
    (held : diagram.subsystems.buffer? output.system = some buffer) (bound : output.index < buffer.count) :
    diagram.setOutput output value =
      ((((diagram.subsystems.putBuffer output.system (buffer.write output.index (some value))).receive
        (diagram.frame.ripple diagram.layout [output])).send output.system (.mark output.index true)).answering
          (diagram.frame.reachedOutputs diagram.layout [output])).within diagram.withSubsystems := by
  have kept : (diagram.store output buffer value).context.WellFormed :=
    Context.wellFormed_putBuffer sound held (OutputBuffer.count_write _ _ _)
  have still : (diagram.store output buffer value).subsystems.Willing := willing.putBuffer _ _
  simp only [setOutput, closed, Subsystems.buffer_eq_ok.mpr held, if_pos bound, propagateFrom_willing kept still,
    layout_store value held]
  rfl

theorem setOutput_eq (sound : diagram.context.WellFormed) (matched : diagram.context.Matched)
    (closed : diagram.frame.phase = .sealed) {output : Terminal} {buffer : OutputBuffer} (value : Value)
    (held : diagram.subsystems.buffer? output.system = some buffer) (bound : output.index < buffer.count) :
    diagram.setOutput output value = .done (diagram.frame.reachedOutputs diagram.layout [output])
      ⟨diagram.frame, (diagram.subsystems.putBuffer output.system (buffer.write output.index (some value))).receive
        (diagram.frame.ripple diagram.layout [output] ++ [(output.system, .mark output.index true)])⟩ := by
  obtain ⟨child, present⟩ := Subsystems.context?_of_buffer? held
  have count : buffer.count = child.outputCount := (Context.everywhere_diagram.mp matched).1 _ _ _ present held
  have inside : Change.Fits (child.receive (Mail.addressed (diagram.frame.ripple diagram.layout [output]) output.system))
      (.mark output.index true) := by
    rw [Change.Fits, Context.outputCount_receive, ← count]
    exact bound
  have accepted := Context.verdict_fits ((sound.child present).receive _) ((matched.child present).receive _) inside
  rw [setOutput_willing sound (Subsystems.willing_of_matched sound matched) closed value held bound,
    Subsystems.send_eq (context?_stored _ _ present) accepted, Subsystems.receive_append]
  rfl

end Diagram

namespace Context

theorem mailTo_quiet {context : Context} {changes : List Change} {path : List Nat}
    (quiet : ∀ change ∈ changes, change.Quiet) : ∀ change ∈ context.mailTo changes path, change.Quiet := by
  induction path generalizing context changes with
  | nil => rw [mailTo_nil]; exact quiet
  | cons system path ih =>
    cases context with
    | leaf => exact fun _ member => absurd member List.not_mem_nil
    | diagram frame subsystems =>
      simp only [mailTo]
      split
      · refine ih (fun change member => ?_)
        obtain ⟨cause, given, sent⟩ := mem_addressed_mail.mp member
        have calm := quiet cause given
        rcases Frame.mem_mail.mp sent with passed | spread
        · cases passed with
          | invalidateInput => trivial
          | mark => exact calm
          | _ => exact calm.elim
        · exact Frame.ripple_quiet spread
      · exact fun _ member => absurd member List.not_mem_nil

theorem invalidated_of_mailTo {context : Context} {changes : List Change} {path : List Nat} {index : Nat}
    (quiet : ∀ change ∈ changes, change.Quiet) (arrived : .invalidateInput index ∈ context.mailTo changes path) :
    ∃ outer, .invalidateInput outer ∈ changes := by
  induction path generalizing context changes index with
  | nil => rw [mailTo_nil] at arrived; exact ⟨index, arrived⟩
  | cons system path ih =>
    cases context with
    | leaf => cases arrived
    | diagram frame subsystems =>
      cases present : subsystems.context? system with
      | none => simp only [mailTo, present] at arrived; cases arrived
      | some child =>
        rw [mailTo_cons present] at arrived
        have below : ∀ change ∈ Mail.addressed (changes.flatMap (frame.mail subsystems.layout)) system,
            change.Quiet := by
          have hop := @mailTo_quiet (.diagram frame subsystems) changes [system] quiet
          rwa [mailTo_cons present, mailTo_nil] at hop
        obtain ⟨inner, addressed⟩ := ih below arrived
        obtain ⟨cause, given, sent⟩ := mem_addressed_mail.mp addressed
        cases cause with
        | invalidateInput outer => exact ⟨outer, given⟩
        | mark =>
          simp only [Frame.mail] at sent
          split at sent
          · cases List.mem_singleton.mp sent
          · cases sent
        | _ => exact (quiet _ given).elim

end Context

-- An input of a leaf has been invalidated: nothing stored depends on it, and no
-- output of the leaf is up to date.
def Leaf.Cleared (own : Leaf) (index : Nat) : Prop :=
  (∀ ticket, own.cache.DependsOn ticket (inputTicket index) → own.cache.value? ticket = none) ∧
    ∀ fresh ∈ own.fresh, fresh = false

namespace Leaf
variable {own : Leaf} {changes : List Change} {index : Nat}

theorem stale_receiveAll (quiet : ∀ change ∈ changes, change.Quiet)
    (stale : (∀ fresh ∈ own.fresh, fresh = false) ∨ ∃ index, .invalidateInput index ∈ changes) :
    ∀ fresh ∈ (changes.foldl receive own).fresh, fresh = false := by
  induction changes generalizing own with
  | nil => exact stale.resolve_right (fun ⟨_, member⟩ => nomatch member)
  | cons change rest ih =>
    refine ih (fun other member => quiet other (List.mem_cons_of_mem _ member)) ?_
    have here := quiet change List.mem_cons_self
    cases change with
    | invalidateInput index =>
      refine .inl (fun fresh member => ?_)
      obtain ⟨_, _, same⟩ := List.mem_map.mp member
      exact same.symm
    | mark index flag =>
      rcases stale with stale | ⟨place, member⟩
      · refine .inl (fun fresh member => ?_)
        rcases List.mem_or_eq_of_mem_set member with old | new
        · exact stale fresh old
        · exact new.trans here
      · rcases List.mem_cons.mp member with same | later
        · cases same
        · exact .inr ⟨place, later⟩
    | _ => exact here.elim

theorem cleared_receiveAll (closed : own.cache.Closed) (quiet : ∀ change ∈ changes, change.Quiet)
    (member : .invalidateInput index ∈ changes) : (changes.foldl receive own).Cleared index := by
  refine ⟨fun ticket depends => ?_, stale_receiveAll quiet (.inr ⟨index, member⟩)⟩
  rw [dependsOn_receiveAll] at depends
  cases held : (changes.foldl receive own).cache.value? ticket with
  | none => rfl
  | some value => exact absurd depends (((value?_receiveAll closed changes).mp held).2 _ member _ rfl)

theorem Cleared.receiveAll (closed : own.cache.Closed) (cleared : own.Cleared index)
    (quiet : ∀ change ∈ changes, change.Quiet) : (changes.foldl receive own).Cleared index := by
  refine ⟨fun ticket depends => ?_, stale_receiveAll quiet (.inl cleared.2)⟩
  rw [dependsOn_receiveAll] at depends
  cases held : (changes.foldl receive own).cache.value? ticket with
  | none => rfl
  | some value => cases (cleared.1 ticket depends).symm.trans ((value?_receiveAll closed changes).mp held).1

end Leaf
end BlockDiagram
