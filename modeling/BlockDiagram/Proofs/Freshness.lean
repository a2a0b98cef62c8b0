import Mathlib.Data.List.Induction
import BlockDiagram.Proofs.History
import BlockDiagram.Proofs.Downstream

namespace BlockDiagram
open Relation

-- What a leaf is told when an output of its own may have changed.
def Change.Unsettles (index : Nat) : Change → Prop
  | .setTime _ | .invalidateTime | .invalidateState | .invalidateInput _ | .bind .. => True
  | .mark marked fresh => marked = index ∧ fresh = false
  | _ => False

namespace Leaf
variable {own : Leaf} {index : Nat}

theorem fresh_of_receive {change : Change} (fresh : (own.receive change).fresh[index]? = some true)
    (unmarked : change ≠ .mark index true) : own.fresh[index]? = some true ∧ ¬ change.Unsettles index := by
  cases change with
  | mark marked flag =>
    by_cases same : marked = index
    · subst same
      cases flag with
      | true => exact absurd rfl unmarked
      | false =>
        simp only [receive, List.getElem?_set] at fresh
        split at fresh <;> simp_all
    · rw [receive, List.getElem?_set_ne same] at fresh
      exact ⟨fresh, fun unsettled => same unsettled.1⟩
  | setTime | invalidateTime | invalidateState | invalidateInput | bind =>
    exact absurd fresh (own.stale_disturbed index)
  | openEntry =>
    simp only [receive] at fresh
    split at fresh
    · exact absurd fresh (own.stale_disturbed index)
    · exact ⟨fresh, fun unsettled => unsettled⟩
  | rebind | storeEntry => exact ⟨fresh, fun unsettled => unsettled⟩

theorem fresh_of_receiveAll {changes : List Change} (fresh : (changes.foldl receive own).fresh[index]? = some true)
    (unmarked : .mark index true ∉ changes) :
    own.fresh[index]? = some true ∧ ∀ change ∈ changes, ¬ change.Unsettles index := by
  induction changes generalizing own with
  | nil => exact ⟨fresh, fun _ none => nomatch none⟩
  | cons change rest ih =>
    obtain ⟨before, calm⟩ := ih fresh (fun later => unmarked (List.mem_cons_of_mem _ later))
    obtain ⟨earlier, settled⟩ := fresh_of_receive before (fun same => unmarked (same ▸ List.mem_cons_self))
    refine ⟨earlier, fun other member => ?_⟩
    rcases List.mem_cons.mp member with rfl | later
    · exact settled
    · exact calm other later

theorem fresh_of_marks {changes : List Change} (fresh : own.fresh[index]? = some true)
    (marks : ∀ change ∈ changes, ∃ other, change = .mark other true) :
    (changes.foldl receive own).fresh[index]? = some true := by
  induction changes generalizing own with
  | nil => exact fresh
  | cons change rest ih =>
    obtain ⟨other, rfl⟩ := marks change List.mem_cons_self
    refine ih ?_ (fun later member => marks later (List.mem_cons_of_mem _ member))
    obtain ⟨bound, _⟩ := List.getElem?_eq_some_iff.mp fresh
    by_cases same : other = index
    · subst same
      simp [receive, bound]
    · simpa [receive, same] using fresh

end Leaf

namespace Frame
variable {frame : Frame} {subsystems : Subsystems} {start : List Terminal} {origin target : Nat}

-- A subsystem is the other one or leads to it along the wires.
def Leads (frame : Frame) (origin target : Nat) : Prop :=
  origin = target ∨ frame.wiring.reaches origin target = true

-- A chain of wires that starts from the output leads into the subsystem.
def Enters (frame : Frame) (output : Terminal) (target : Nat) : Prop :=
  ∃ input ∈ frame.wiring.inputsOf output, frame.Leads input.system target

theorem declaredBy_matched (matched : (Context.diagram frame subsystems).Matches) (system : Nat) :
    subsystems.layout.declaredBy system = subsystems.layout.bufferedFor system := by
  unfold Layout.declaredBy Layout.bufferedFor
  rw [Subsystems.outline?_layout]
  cases present : subsystems.context? system with
  | none => rfl
  | some child =>
    obtain ⟨buffer, held⟩ := Subsystems.buffer?_of_context? present
    simp [held, matched _ _ _ present held]

theorem declared_iff (matched : (Context.diagram frame subsystems).Matches) {output : Terminal} :
    output ∈ subsystems.layout.declaredBy output.system ↔ subsystems.HasOutput output := by
  constructor
  · intro declared
    obtain ⟨child, present, bound⟩ := Subsystems.declared_child declared
    obtain ⟨buffer, held⟩ := Subsystems.buffer?_of_context? present
    refine ⟨buffer, held, ?_⟩
    rw [matched _ _ _ present held]
    exact bound
  · rintro ⟨buffer, held, bound⟩
    rw [declaredBy_matched matched]
    exact (Subsystems.mem_bufferedFor held).mpr ⟨rfl, bound⟩

-- What is reached in a subsystem is passed on along every chain of wires from it.
theorem wired_downstream (sound : frame.Sound subsystems) (matched : (Context.diagram frame subsystems).Matches)
    (reached : ∀ output ∈ subsystems.layout.declaredBy origin, output ∈ frame.downstream subsystems.layout start)
    (path : TransGen frame.wiring.Feeds origin target) :
    ∃ output input, output ∈ frame.downstream subsystems.layout start ∧
      frame.wiring.source? input = some output ∧ input.system = target := by
  induction path with
  | single edge =>
    obtain ⟨output, input, wired, rfl, enters⟩ := edge
    exact ⟨output, input, reached output ((declared_iff matched).mpr (sound.wired _ _ wired).1), wired, enters⟩
  | tail _ edge ih =>
    obtain ⟨before, entered, earlier, fed, meets⟩ := ih
    obtain ⟨output, input, wired, leaves, enters⟩ := edge
    have declared := (declared_iff matched).mpr (sound.wired _ _ wired).1
    rw [leaves, ← meets] at declared
    exact ⟨output, input, downstream_of_wired sound earlier fed declared, wired, enters⟩

theorem invalidated_of_reached (sound : frame.Sound subsystems) (matched : (Context.diagram frame subsystems).Matches)
    (reached : ∀ output ∈ subsystems.layout.declaredBy origin, output ∈ frame.downstream subsystems.layout start)
    (reaches : frame.wiring.reaches origin target = true) :
    ∃ index, (target, .invalidateInput index) ∈ frame.ripple subsystems.layout start := by
  have path := (Wiring.reaches_feeds sound.coherent).mp reaches
  obtain ⟨output, input, downstream, wired, rfl⟩ := wired_downstream sound matched reached path
  exact ⟨input.index, invalidated_of_downstream sound downstream wired⟩

theorem invalidated_of_enters (sound : frame.Sound subsystems) (matched : (Context.diagram frame subsystems).Matches)
    {output : Terminal} (starts : output ∈ start) (enters : frame.Enters output target) :
    ∃ index, (target, .invalidateInput index) ∈ frame.ripple subsystems.layout start := by
  obtain ⟨input, fed, leads⟩ := enters
  have wired := (sound.coherent.both _ _).mp fed
  have first : output ∈ frame.downstream subsystems.layout start := start_downstream starts
  rcases leads with rfl | reaches
  · exact ⟨input.index, invalidated_of_downstream sound first wired⟩
  · refine invalidated_of_reached sound matched (fun other declared => ?_) reaches
    exact downstream_of_wired sound first wired declared

-- All outputs of a subsystem at once: its own are stale, whatever it leads to is told.
theorem unsettled_of_leads (sound : frame.Sound subsystems) (matched : (Context.diagram frame subsystems).Matches)
    {index : Nat} (declared : ⟨target, index⟩ ∈ subsystems.layout.declaredBy target)
    (leads : frame.Leads origin target) :
    ∃ change : Change, change.Unsettles index ∧
      (target, change) ∈ frame.ripple subsystems.layout (subsystems.layout.bufferedFor origin) := by
  have starts : ∀ output ∈ subsystems.layout.declaredBy origin,
      output ∈ frame.downstream subsystems.layout (subsystems.layout.bufferedFor origin) := by
    intro output listed
    rw [declaredBy_matched matched] at listed
    exact start_downstream listed
  rcases leads with rfl | reaches
  · refine ⟨.mark index false, ⟨rfl, rfl⟩, ?_⟩
    exact mem_ripple.mpr ⟨_, starts _ declared, .inl (mem_staleness.mpr ⟨declared, rfl⟩)⟩
  · obtain ⟨place, told⟩ := invalidated_of_reached sound matched starts reaches
    exact ⟨.invalidateInput place, trivial, told⟩

end Frame

namespace Operation

-- The operations on a diagram after which what a subsystem's outputs are computed
-- from may be another: its time, its state, an input it has, or what one is wired to.
-- An entry is stored only where it has just been opened, and a rebound input reads
-- the same, so neither is listed by itself.
def Disturbs (frame : Frame) (target : Nat) : Operation → Prop
  | .change (.setTime _) | .change .invalidateTime | .change .invalidateState => True
  | .change (.invalidateInput index) | .change (.bind index _) =>
    ∃ exposed, frame.input index = .ok exposed ∧ frame.Leads exposed.terminal.system target
  | .change (.openEntry partition index) | .edit partition index _ =>
    ∃ slot, frame.composite.slot? partition index = some slot ∧ frame.Leads slot.system target
  | .setOutput output _ => frame.Enters output target
  | .propagate system index => frame.Enters ⟨system, index⟩ target
  | .propagateMany system indices => ∃ index ∈ indices, frame.Enters ⟨system, index⟩ target
  | _ => False

def Marks (frame : Frame) (output : Terminal) : Operation → Prop
  | .change (.mark index fresh) => fresh = true ∧ frame.outputs[index]? = some output
  | .markAllFresh => output ∈ frame.outputs
  | .setOutput stored _ => stored = output
  | .markEvaluated system => system = output.system
  | _ => False

end Operation

-- What a leaf is told in the course of an operation, as far as one of its outputs
-- is concerned.
structure Operation.Told (frame : Frame) (output : Terminal) (operation : Operation) (changes : List Change) :
    Prop where
  disturbed : operation.Disturbs frame output.system → ∃ change ∈ changes, change.Unsettles output.index
  marked : .mark output.index true ∈ changes → operation.Marks frame output
  marks : operation.Marks frame output →
    ∃ front rest, changes = front ++ .mark output.index true :: rest ∧
      ∀ change ∈ rest, ∃ index, change = .mark index true

namespace Operation.Told
variable {frame : Frame} {subsystems : Subsystems} {output : Terminal}

theorem nothing {operation : Operation} (calm : ¬ operation.Disturbs frame output.system)
    (unmarked : ¬ operation.Marks frame output) : operation.Told frame output [] where
  disturbed := fun disturbs => absurd disturbs calm
  marked := fun none => nomatch none
  marks := fun marks => absurd marks unmarked

-- Some outputs are marked and nothing else is asked for.
theorem freshened {operation : Operation} {changes : List Change} (calm : ¬ operation.Disturbs frame output.system)
    (fresh : ∀ change ∈ changes, ∃ index, change = .mark index true)
    (marks : operation.Marks frame output ↔ .mark output.index true ∈ changes) :
    operation.Told frame output changes where
  disturbed := fun disturbs => absurd disturbs calm
  marked := marks.mpr
  marks := by
    intro marked
    obtain ⟨front, rest, rfl⟩ := List.append_of_mem (marks.mp marked)
    exact ⟨front, rest, rfl, fun change later => fresh change (List.mem_append_right _ (List.mem_cons_of_mem _ later))⟩

-- An output that is fresh afterwards was marked now, or before and not disturbed since.
theorem settled {operation : Operation} {changes : List Change} {own : Leaf}
    (told : operation.Told frame output changes) (unmarked : ¬ operation.Marks frame output)
    (fresh : (changes.foldl Leaf.receive own).fresh[output.index]? = some true) :
    own.fresh[output.index]? = some true ∧ ¬ operation.Disturbs frame output.system := by
  obtain ⟨before, calm⟩ := Leaf.fresh_of_receiveAll fresh (fun listed => unmarked (told.marked listed))
  refine ⟨before, fun disturbs => ?_⟩
  obtain ⟨change, listed, unsettles⟩ := told.disturbed disturbs
  exact calm change listed unsettles

theorem fresh {operation : Operation} {changes : List Change} {own : Leaf} (told : operation.Told frame output changes)
    (marks : operation.Marks frame output) (bound : output.index < own.fresh.length) :
    (changes.foldl Leaf.receive own).fresh[output.index]? = some true := by
  obtain ⟨front, rest, rfl, only⟩ := told.marks marks
  rw [List.foldl_append, List.foldl_cons]
  refine Leaf.fresh_of_marks ?_ only
  have length := Leaf.outputs_receiveAll own front
  simp [Leaf.receive, length, bound]

end Operation.Told

namespace Frame
variable {frame : Frame} {subsystems : Subsystems} {output : Terminal}

theorem mark_of_mail {cause : Change} {system place : Nat}
    (sent : (system, .mark place true) ∈ frame.mail subsystems.layout cause) :
    ∃ index, cause = .mark index true ∧ frame.outputs[index]? = some ⟨system, place⟩ := by
  rcases mem_mail.mp sent with passed | spread
  · cases passed with
    | mark entered => exact ⟨_, rfl, entered⟩
  · cases ripple_quiet spread

theorem unsettled_of_mail (sound : frame.Sound subsystems) (matched : (Context.diagram frame subsystems).Matches)
    (declared : output ∈ subsystems.layout.declaredBy output.system) {cause : Change}
    (disturbs : (Operation.change cause).Disturbs frame output.system) :
    ∃ change : Change, change.Unsettles output.index ∧
      (output.system, change) ∈ frame.mail subsystems.layout cause := by
  have present : output.system ∈ subsystems.layout.present := by
    obtain ⟨child, held, _⟩ := Subsystems.declared_child declared
    exact Subsystems.mem_present.mpr ⟨child, held⟩
  have spread : ∀ origin, frame.disturbed subsystems.layout cause = subsystems.layout.bufferedFor origin →
      frame.Leads origin output.system →
      ∃ change : Change, change.Unsettles output.index ∧
        (output.system, change) ∈ frame.mail subsystems.layout cause := by
    intro origin starts leads
    obtain ⟨change, unsettles, told⟩ := unsettled_of_leads sound matched declared leads
    exact ⟨change, unsettles, mem_mail.mpr (.inr (starts ▸ told))⟩
  cases cause with
  | setTime moment => exact ⟨.setTime moment, trivial, mem_mail.mpr (.inl (.setTime present))⟩
  | invalidateTime => exact ⟨.invalidateTime, trivial, mem_mail.mpr (.inl (.invalidateTime present))⟩
  | invalidateState => exact ⟨.invalidateState, trivial, mem_mail.mpr (.inl (.invalidateState present))⟩
  | invalidateInput | bind =>
    obtain ⟨exposed, found, leads⟩ := disturbs
    exact spread _ (by simp only [disturbed, found]) leads
  | openEntry =>
    obtain ⟨slot, found, leads⟩ := disturbs
    exact spread _ (by simp only [disturbed, found]) leads
  | mark | rebind | storeEntry => exact disturbs.elim

theorem told_change (sound : frame.Sound subsystems) (matched : (Context.diagram frame subsystems).Matches)
    (declared : output ∈ subsystems.layout.declaredBy output.system) (change : Change) :
    (Operation.change change).Told frame output
      (Mail.addressed (frame.mail subsystems.layout change) output.system) where
  disturbed := by
    intro disturbs
    obtain ⟨told, unsettles, sent⟩ := unsettled_of_mail sound matched declared disturbs
    exact ⟨told, Mail.mem_addressed.mpr sent, unsettles⟩
  marked := by
    intro told
    obtain ⟨index, rfl, shown⟩ := mark_of_mail (Mail.mem_addressed.mp told)
    exact ⟨rfl, shown⟩
  marks := by
    intro marks
    cases change with
    | mark index fresh =>
      obtain ⟨rfl, shown⟩ := marks
      refine ⟨[], [], ?_, fun _ none => nomatch none⟩
      simp [Frame.mail, output_eq_ok.mpr shown, Mail.addressed_single]
    | _ => exact marks.elim

-- An entry is opened first, and that is all a leaf is told before it is written.
theorem told_edit (sound : frame.Sound subsystems) (matched : (Context.diagram frame subsystems).Matches)
    (declared : output ∈ subsystems.layout.declaredBy output.system) {partition : Partition} {index : Nat}
    {revise : partition.Entry → Outcome Unit partition.Entry} {changes : List Change}
    (sends : (Operation.edit partition index revise).Sends changes) :
    (Operation.edit partition index revise).Told frame output
      (Mail.addressed (changes.flatMap (frame.mail subsystems.layout)) output.system) where
  disturbed := by
    intro disturbs
    have opened : (Operation.change (.openEntry partition index)).Disturbs frame output.system := disturbs
    obtain ⟨told, unsettles, sent⟩ := unsettled_of_mail sound matched declared opened
    refine ⟨told, Context.mem_addressed_mail.mpr ⟨.openEntry partition index, ?_, sent⟩, unsettles⟩
    cases sends <;> exact List.mem_cons_self
  marked := by
    intro told
    obtain ⟨cause, given, sent⟩ := Context.mem_addressed_mail.mp told
    obtain ⟨place, rfl, _⟩ := mark_of_mail sent
    cases sends <;> simp at given
  marks := fun marks => marks.elim

theorem told_setOutput (sound : frame.Sound subsystems) (matched : (Context.diagram frame subsystems).Matches)
    (stored : Terminal) (value : Value) :
    (Operation.setOutput stored value).Told frame output
      (Mail.addressed (frame.ripple subsystems.layout [stored] ++ [(stored.system, .mark stored.index true)])
        output.system) where
  disturbed := by
    intro enters
    obtain ⟨index, told⟩ := invalidated_of_enters sound matched List.mem_cons_self enters
    exact ⟨_, Mail.mem_addressed.mpr (List.mem_append_left _ told), trivial⟩
  marked := by
    intro told
    rcases List.mem_append.mp (Mail.mem_addressed.mp told) with spread | last
    · cases ripple_quiet spread
    · cases stored
      cases output
      cases List.mem_singleton.mp last
      rfl
  marks := by
    rintro rfl
    refine ⟨_, [], by rw [Mail.addressed_append, Mail.addressed_single, if_pos rfl], fun _ none => nomatch none⟩

theorem told_propagated (sound : frame.Sound subsystems) (matched : (Context.diagram frame subsystems).Matches)
    {operation : Operation} {start : List Terminal} (unmarked : ¬ operation.Marks frame output)
    (starts : operation.Disturbs frame output.system → ∃ origin ∈ start, frame.Enters origin output.system) :
    operation.Told frame output (Mail.addressed (frame.ripple subsystems.layout start) output.system) where
  disturbed := by
    intro disturbs
    obtain ⟨origin, listed, enters⟩ := starts disturbs
    obtain ⟨index, told⟩ := invalidated_of_enters sound matched listed enters
    exact ⟨_, Mail.mem_addressed.mpr told, trivial⟩
  marked := by
    intro told
    cases ripple_quiet (Mail.mem_addressed.mp told)
  marks := fun marks => absurd marks unmarked

namespace Steady
variable {first second : Frame}

theorem disturbs (steady : first.Steady second) (operation : Operation) (target : Nat) :
    operation.Disturbs second target ↔ operation.Disturbs first target := by
  unfold Operation.Disturbs Enters Leads Frame.input
  rw [steady.inputs, steady.wiring, steady.composite]

theorem marks (steady : first.Steady second) (operation : Operation) (output : Terminal) :
    operation.Marks second output ↔ operation.Marks first output := by
  unfold Operation.Marks
  rw [steady.outputs]

end Steady
end Frame

namespace Diagram
variable {diagram after : Diagram} {output : Terminal}

-- One diagram comes out of another whose subsystems are told something.
structure Passes (diagram after : Diagram) (mail : Mail) : Prop where
  steady : diagram.frame.Steady after.frame
  layout : after.layout = diagram.layout
  children : ∀ system, after.subsystems.context? system =
    (diagram.subsystems.context? system).map (·.receive (Mail.addressed mail system))

theorem passes_receive {later : Frame} {others : Subsystems} (steady : diagram.frame.Steady later)
    (layout : others.layout = diagram.layout)
    (same : ∀ system, others.context? system = diagram.subsystems.context? system) (mail : Mail) :
    diagram.Passes ⟨later, others.receive mail⟩ mail where
  steady := steady
  layout := (others.layout_receive mail).trans layout
  children := by
    intro system
    show (others.receive mail).context? system = _
    rw [Subsystems.context?_receive, same]

theorem passes_nothing {later : Frame} (steady : diagram.frame.Steady later) :
    diagram.Passes ⟨later, diagram.subsystems⟩ [] := by
  have passes := passes_receive steady rfl (fun _ => rfl) []
  rwa [Subsystems.receive_nil] at passes

theorem passes_changes (changes : List Change) (told : after.context = diagram.context.receive changes) :
    diagram.Passes after (changes.flatMap (diagram.frame.mail diagram.layout)) := by
  have same : after = ⟨changes.foldl Frame.receive diagram.frame,
      diagram.subsystems.receive (changes.flatMap (diagram.frame.mail diagram.layout))⟩ := context_injective told
  rw [same]
  exact passes_receive (.receiveAll _ _) rfl (fun _ => rfl) _

-- Some mail that the subsystems were given accounts for all a leaf was told.
def Accounts (diagram after : Diagram) (output : Terminal) (operation : Operation) : Prop :=
  ∃ mail, diagram.Passes after mail ∧ operation.Told diagram.frame output (Mail.addressed mail output.system)

theorem accounts_change (sound : diagram.context.WellFormed) (matched : diagram.context.Matches)
    (declared : output ∈ diagram.layout.declaredBy output.system) {change : Change}
    (left : (diagram.context.send change).left? = some after.context) :
    diagram.Accounts after output (.change change) := by
  have told := Frame.told_change sound.frame matched declared change
  refine ⟨diagram.frame.mail diagram.layout change, ?_, told⟩
  rcases Context.send_left sound left with ⟨⟨index, binds, outside⟩, same⟩ | same
  · -- An input that is not there is refused, and there would have been nothing to tell.
    have missing : diagram.frame.inputs[index]? = none := List.getElem?_eq_none (Nat.le_of_not_lt outside)
    have nothing : diagram.frame.mail diagram.layout change = [] := by
      cases change <;> cases binds <;> simp [Frame.mail, Frame.inward, Frame.input, missing]
    rw [context_injective same, nothing]
    exact passes_nothing (.refl _)
  · have passes := passes_changes [change] same
    rwa [List.flatMap_singleton] at passes

theorem accounts_edit (sound : diagram.context.WellFormed) (matched : diagram.context.Matches)
    (declared : output ∈ diagram.layout.declaredBy output.system) {partition : Partition} {index : Nat}
    {revise : partition.Entry → Outcome Unit partition.Entry}
    (left : (diagram.context.edit partition index revise).left? = some after.context) :
    diagram.Accounts after output (.edit partition index revise) := by
  rcases Context.edit_left sound left with same | ⟨entry, same⟩
  · exact ⟨_, passes_changes _ same, Frame.told_edit sound.frame matched declared .opened⟩
  · exact ⟨_, passes_changes _ same, Frame.told_edit sound.frame matched declared .edited⟩

theorem accounts_markAllFresh (sound : diagram.context.WellFormed)
    (left : diagram.context.markAllFresh.left? = some after.context) :
    diagram.Accounts after output .markAllFresh := by
  have same := Context.markAllFresh_left sound left
  refine ⟨_, passes_changes _ same, .freshened id (fun change told => ?_) ?_⟩
  · obtain ⟨cause, given, sent⟩ := Context.mem_addressed_mail.mp told
    obtain ⟨index, _, rfl⟩ := List.mem_map.mp given
    simp only [Frame.mail] at sent
    split at sent
    · exact ⟨_, (Prod.mk.inj (List.mem_singleton.mp sent)).2⟩
    · cases sent
  · rw [Context.mem_addressed_mail]
    constructor
    · intro shown
      obtain ⟨index, found⟩ := List.mem_iff_getElem?.mp shown
      have bound : index < diagram.context.outputCount := (List.getElem?_eq_some_iff.mp found).1
      refine ⟨.mark index true, List.mem_map.mpr ⟨index, List.mem_range.mpr bound, rfl⟩, ?_⟩
      exact Frame.mem_mail.mpr (.inl (.mark found))
    · rintro ⟨cause, _, sent⟩
      obtain ⟨index, _, found⟩ := Frame.mark_of_mail sent
      exact List.mem_of_getElem? found

theorem accounts_markEvaluated (sound : diagram.context.WellFormed)
    (declared : output ∈ diagram.layout.declaredBy output.system) {system : Nat}
    (left : (diagram.markEvaluated system).left? = some after) :
    diagram.Accounts after output (.markEvaluated system) := by
  obtain ⟨child, present, rfl⟩ := markEvaluated_told sound left
  refine ⟨_, passes_receive (.refl _) rfl (fun _ => rfl) _, .freshened id (fun change told => ?_) ?_⟩
  · rw [Mail.addressed_map] at told
    split at told
    · obtain ⟨index, _, rfl⟩ := List.mem_map.mp told
      exact ⟨index, rfl⟩
    · cases told
  · rw [Mail.addressed_map]
    constructor
    · rintro rfl
      have bound := ((Subsystems.mem_declaredBy present).mp declared).2
      simpa using bound
    · intro told
      split at told
      · exact Eq.symm ‹_›
      · cases told

theorem accounts_setOutput (sound : diagram.context.WellFormed) (matched : diagram.context.Matches)
    (closed : diagram.frame.phase = .sealed) (declared : output ∈ diagram.layout.declaredBy output.system)
    {stored : Terminal} {value : Value} (left : (diagram.setOutput stored value).left? = some after) :
    diagram.Accounts after output (.setOutput stored value) := by
  by_cases has : diagram.subsystems.HasOutput stored
  · obtain ⟨buffer, held, bound⟩ := has
    rw [setOutput_stored sound closed held bound left]
    refine ⟨_, passes_receive (.refl _) ?_ (fun _ => Subsystems.context?_putBuffer _ _ _ _) _,
      Frame.told_setOutput sound.frame matched stored value⟩
    exact layout_store value held
  · have same : after = diagram := by
      unfold setOutput at left
      rw [closed] at left
      dsimp only at left
      split at left
      · exact (Option.some.inj left).symm
      · rename_i buffer found
        rw [if_neg (fun bound => has ⟨buffer, Subsystems.buffer_eq_ok.mp found, bound⟩)] at left
        exact (Option.some.inj left).symm
    rw [same]
    refine ⟨[], passes_nothing (.refl _), .nothing (fun enters => ?_) (fun marks => ?_)⟩
    · obtain ⟨input, fed, _⟩ := enters
      exact has (sound.frame.wired _ _ ((sound.frame.coherent.both _ _).mp fed)).1
    · obtain rfl := marks
      exact has ((Frame.declared_iff matched).mp declared)

theorem accounts_propagated (sound : diagram.context.WellFormed) (matched : diagram.context.Matches)
    {named : SealedOnly} {system : Nat} {indices : List Nat} {operation : Operation}
    (left : (propagateAs named diagram system indices).left? = some after)
    (unmarked : ¬ operation.Marks diagram.frame output)
    (starts : operation.Disturbs diagram.frame output.system →
      ∃ index ∈ indices, diagram.frame.Enters ⟨system, index⟩ output.system) :
    diagram.Accounts after output operation := by
  obtain ⟨start, listed, rfl⟩ := propagateAs_left left
  refine ⟨_, passes_receive (.refl _) rfl (fun _ => rfl) _, Frame.told_propagated sound.frame matched unmarked ?_⟩
  intro disturbs
  obtain ⟨index, given, enters⟩ := starts disturbs
  exact ⟨_, listed index given, enters⟩

-- Building is over, and what concerns the diagram's own cache tells nobody.
theorem accounts_aside {later : Frame} {operation : Operation} (steady : diagram.frame.Steady later)
    (same : (Diagram.mk later diagram.subsystems).context = after.context)
    (calm : ¬ operation.Disturbs diagram.frame output.system) (unmarked : ¬ operation.Marks diagram.frame output) :
    diagram.Accounts after output operation := by
  rw [← context_injective same]
  exact ⟨[], passes_nothing steady, .nothing calm unmarked⟩

theorem accounts_cache {operation : Operation} {task : Cache → Outcome Cache Answer}
    (left : (diagram.context.onCache task).left? = some after.context)
    (calm : ¬ operation.Disturbs diagram.frame output.system) (unmarked : ¬ operation.Marks diagram.frame output) :
    diagram.Accounts after output operation := by
  obtain ⟨cache, _, same⟩ := Context.onCache_left left
  have steady : diagram.frame.Steady { diagram.frame with cache } := ⟨rfl, rfl, rfl, rfl, rfl⟩
  exact accounts_aside steady same.symm calm unmarked

theorem left_of_task {task : Diagram → Outcome Diagram Answer}
    (left : (diagram.context.onDiagram task).left? = some after.context) : (task diagram).left? = some after := by
  rw [context, Context.onDiagram, Outcome.left?_within] at left
  obtain ⟨changed, performed, same⟩ := Option.map_eq_some_iff.mp left
  rw [performed, context_injective same]

theorem accounts_building {α : Type} (closed : diagram.frame.phase = .sealed) {operation : Operation}
    {build : Outcome Diagram α} (left : (diagram.whileBuilding build).left? = some after)
    (calm : ¬ operation.Disturbs diagram.frame output.system) (unmarked : ¬ operation.Marks diagram.frame output) :
    diagram.Accounts after output operation := by
  rw [whileBuilding, closed] at left
  obtain rfl : diagram = after := Option.some.inj left
  exact accounts_aside (.refl _) rfl calm unmarked

theorem performed (sound : diagram.context.WellFormed) (matched : diagram.context.Matches)
    (closed : diagram.frame.phase = .sealed) (declared : output ∈ diagram.layout.declaredBy output.system)
    {operation : Operation} (left : (diagram.context.perform operation).left? = some after.context) :
    diagram.Accounts after output operation := by
  cases operation with
  | change change =>
    rw [Context.perform, Outcome.left?_answering] at left
    exact accounts_change sound matched declared left
  | edit partition index revise =>
    rw [Context.perform, Outcome.left?_map] at left
    exact accounts_edit sound matched declared left
  | markAllFresh =>
    rw [Context.perform, Outcome.left?_answering] at left
    exact accounts_markAllFresh sound left
  | reviseState => exact accounts_aside (.refl _) (Option.some.inj left) id id
  | issueTicket | setLine | swapLine | invalidateLine =>
    rw [Context.perform] at left
    exact accounts_cache left id id
  | connect | finishBuilding =>
    rw [Context.perform] at left
    have done := left_of_task left
    rw [Outcome.left?_answering] at done
    exact accounts_building closed done id id
  | exposeInput | exposeOutput =>
    rw [Context.perform] at left
    have done := left_of_task left
    rw [Outcome.left?_map] at done
    exact accounts_building closed done id id
  | setOutput stored value =>
    rw [Context.perform] at left
    have done := left_of_task left
    rw [Outcome.left?_map] at done
    exact accounts_setOutput sound matched closed declared done
  | propagate system index =>
    rw [Context.perform] at left
    have done := left_of_task left
    rw [Outcome.left?_map] at done
    exact accounts_propagated sound matched done id (fun enters => ⟨index, List.mem_singleton.mpr rfl, enters⟩)
  | propagateMany system indices =>
    rw [Context.perform] at left
    have done := left_of_task left
    rw [Outcome.left?_map] at done
    exact accounts_propagated sound matched done id id
  | markEvaluated system =>
    rw [Context.perform] at left
    have done := left_of_task left
    rw [Outcome.left?_answering] at done
    exact accounts_markEvaluated sound declared done

def next? (diagram : Diagram) (operation : Operation) : Option Diagram :=
  (diagram.context.perform operation).left?.bind Context.diagram?

-- Operations called on a diagram one after another. Nothing follows one that aborts.
def run? (start : Diagram) (operations : List Operation) : Option Diagram := operations.foldlM next? start

theorem left_of_next {operation : Operation} (moved : diagram.next? operation = some after) :
    (diagram.context.perform operation).left? = some after.context := by
  obtain ⟨found, left, same⟩ := Option.bind_eq_some_iff.mp moved
  rw [left]
  cases found with
  | leaf => cases same
  | diagram => cases same; rfl

theorem run?_append {start : Diagram} {operations : List Operation} {operation : Operation} :
    start.run? (operations ++ [operation]) = some after ↔
      ∃ diagram, start.run? operations = some diagram ∧ diagram.next? operation = some after := by
  simp [run?, List.foldlM_append, Option.bind_eq_some_iff]

def Reports (diagram : Diagram) (output : Terminal) : Prop :=
  ∃ child, diagram.subsystems.context? output.system = some child ∧ child.isFresh output.index = .ok true

theorem reports_leaf {own : Leaf} (leaf : diagram.subsystems.context? output.system = some (.leaf own)) :
    diagram.Reports output ↔ own.fresh[output.index]? = some true := by
  unfold Reports
  rw [leaf]
  simp only [Option.some.injEq, exists_eq_left', Context.isFresh, Leaf.isFresh]
  cases own.fresh[output.index]? <;> simp

-- What a run of operations leaves as it was.
structure Lasts (start diagram : Diagram) (output : Terminal) : Prop where
  sound : diagram.context.WellFormed
  steady : start.frame.Steady diagram.frame
  layout : diagram.layout = start.layout
  leaf : ∃ own, diagram.subsystems.context? output.system = some (.leaf own) ∧ output.index < own.fresh.length

theorem Lasts.step {start : Diagram} (lasts : start.Lasts diagram output) (matched : start.context.Matches)
    (closed : start.frame.phase = .sealed) {operation : Operation}
    (left : (diagram.context.perform operation).left? = some after.context) :
    start.Lasts after output ∧
      (after.Reports output → ¬ operation.Marks start.frame output →
        diagram.Reports output ∧ ¬ operation.Disturbs start.frame output.system) ∧
      (operation.Marks start.frame output → after.Reports output) := by
  obtain ⟨own, leaf, bound⟩ := lasts.leaf
  have fits : diagram.context.Matches := by
    refine Context.matches_layout.mpr ?_
    have same : diagram.subsystems.layout = start.subsystems.layout := lasts.layout
    rw [same]
    exact Context.matches_layout.mp matched
  have declared : output ∈ diagram.layout.declaredBy output.system :=
    (Subsystems.mem_declaredBy leaf).mpr ⟨rfl, bound⟩
  obtain ⟨mail, passes, told⟩ := performed lasts.sound fits (lasts.steady.phase.trans closed) declared left
  have later : after.subsystems.context? output.system =
      some (.leaf ((Mail.addressed mail output.system).foldl Leaf.receive own)) := by
    rw [passes.children, leaf]
    rfl
  refine ⟨⟨lasts.sound.effect (Context.perform_effect lasts.sound left), lasts.steady.trans passes.steady,
    passes.layout.trans lasts.layout, _, later, ?_⟩, ?_, ?_⟩
  · rw [Leaf.outputs_receiveAll]
    exact bound
  · rw [reports_leaf later, reports_leaf leaf, ← lasts.steady.marks, ← lasts.steady.disturbs]
    exact fun fresh unmarked => told.settled unmarked fresh
  · rw [reports_leaf later, ← lasts.steady.marks]
    exact fun marks => told.fresh marks bound

theorem lasts_run {start finish : Diagram} {operations : List Operation} (begins : start.Lasts start output)
    (matched : start.context.Matches) (closed : start.frame.phase = .sealed)
    (ran : start.run? operations = some finish) : start.Lasts finish output := by
  induction operations using List.reverseRecOn generalizing finish with
  | nil => cases ran; exact begins
  | append_singleton earlier operation ih =>
    obtain ⟨diagram, before, moved⟩ := run?_append.mp ran
    exact ((ih before).step matched closed (left_of_next moved)).1

-- Read backwards, a run leaves a fresh output alone up to the operation that marked it.
theorem fresh_run {start finish : Diagram} {operations : List Operation} (begins : start.Lasts start output)
    (matched : start.context.Matches) (closed : start.frame.phase = .sealed)
    (ran : start.run? operations = some finish) (fresh : finish.Reports output) :
    (start.Reports output ∧ ∀ operation ∈ operations,
      ¬ operation.Marks start.frame output ∧ ¬ operation.Disturbs start.frame output.system) ∨
    Since (fun operation => operation.Marks start.frame output)
      (fun operation => ¬ operation.Marks start.frame output ∧ ¬ operation.Disturbs start.frame output.system)
      operations := by
  induction operations using List.reverseRecOn generalizing finish with
  | nil =>
    cases ran
    exact .inl ⟨fresh, fun _ none => nomatch none⟩
  | append_singleton earlier operation ih =>
    obtain ⟨diagram, before, moved⟩ := run?_append.mp ran
    obtain ⟨_, settled, _⟩ := (lasts_run begins matched closed before).step matched closed (left_of_next moved)
    by_cases marks : operation.Marks start.frame output
    · exact .inr (Since.append_single.mpr (.inl marks))
    obtain ⟨still, calm⟩ := settled fresh marks
    rcases ih before still with ⟨first, quiet⟩ | since
    · refine .inl ⟨first, fun other listed => ?_⟩
      rcases List.mem_append.mp listed with old | new
      · exact quiet other old
      · rw [List.mem_singleton.mp new]
        exact ⟨marks, calm⟩
    · exact .inr (Since.append_single.mpr (.inr ⟨since, marks, calm⟩))

end Diagram

namespace Built
variable {rules : Rules} {tree : Context} {path : List Nat} {start finish : Diagram} {output : Terminal} {own : Leaf}
  {operations : List Operation}

-- An output that is reported fresh has been marked, and since the last operation that
-- marked it none has touched what it is computed from. Those that mark it do so indeed.
theorem fresh_since_marked (built : Built rules tree) (located : tree.locate path = .ok start.context)
    (closed : start.frame.phase = .sealed) (matched : start.context.Matches)
    (leaf : start.subsystems.context? output.system = some (.leaf own)) (declares : output.index < own.fresh.length)
    (ran : start.run? operations = some finish) :
    (finish.Reports output →
      (start.Reports output ∧ ∀ operation ∈ operations,
        ¬ operation.Marks start.frame output ∧ ¬ operation.Disturbs start.frame output.system) ∨
      Since (fun operation => operation.Marks start.frame output)
        (fun operation => ¬ operation.Marks start.frame output ∧ ¬ operation.Disturbs start.frame output.system)
        operations) ∧
    (∀ earlier operation, operations = earlier ++ [operation] → operation.Marks start.frame output →
      finish.Reports output) := by
  have begins : start.Lasts start output := ⟨(built.frame_sound located).1, .refl _, rfl, own, leaf, declares⟩
  refine ⟨Diagram.fresh_run begins matched closed ran, ?_⟩
  rintro earlier operation rfl marks
  obtain ⟨diagram, before, moved⟩ := Diagram.run?_append.mp ran
  have lasts := Diagram.lasts_run begins matched closed before
  exact (lasts.step matched closed (Diagram.left_of_next moved)).2.2 marks

-- The time is invalidated, everything is computed again in order, and in the end the
-- first subsystem's outputs are marked once more.
def recomputation : List Operation :=
  [.change .invalidateTime, .setOutput ⟨0, 0⟩ .unit, .setOutput ⟨1, 0⟩ .unit, .setOutput ⟨2, 0⟩ .unit, .markEvaluated 0]

theorem fresh_since_marked_running :
    ∃ finish, Diagram.running.run? recomputation = some finish ∧ finish.Reports ⟨2, 0⟩ ∧
      Since (fun operation => operation.Marks Diagram.running.frame ⟨2, 0⟩)
        (fun operation => ¬ operation.Marks Diagram.running.frame ⟨2, 0⟩ ∧
          ¬ operation.Disturbs Diagram.running.frame 2) recomputation := by
  have ends : (Diagram.running.run? recomputation).bind (fun finish =>
      (finish.subsystems.context? 2).map (fun child => (child.isFresh 0).toOption)) = some (some true) := by decide
  obtain ⟨finish, ran, reads⟩ := Option.bind_eq_some_iff.mp ends
  obtain ⟨child, present, fresh⟩ := Option.map_eq_some_iff.mp reads
  have reports : finish.Reports ⟨2, 0⟩ := by
    refine ⟨child, present, ?_⟩
    cases answered : child.isFresh 0 <;> simp_all [Except.toOption]
  obtain ⟨own, leaf, declares⟩ : ∃ own, Diagram.running.subsystems.context? 2 = some (.leaf own) ∧
      (Terminal.mk 2 0).index < own.fresh.length := by
    have counts : (Diagram.running.subsystems.context? 2).map Context.outputCount = some 1 ∧
        ((Diagram.running.subsystems.context? 2).bind Context.leaf?).isSome := by decide
    obtain ⟨child, present, count⟩ := Option.map_eq_some_iff.mp counts.1
    rw [present] at counts ⊢
    cases child with
    | leaf own => exact ⟨own, rfl, Nat.lt_of_lt_of_eq Nat.one_pos count.symm⟩
    | diagram => cases counts.2
  have told := fresh_since_marked Diagram.running_built (Context.locate_nil _) (by decide)
    (Context.everywhere_diagram.mp Diagram.running_matched).1 leaf declares ran
  rcases told.1 reports with ⟨_, unmarked⟩ | since
  · exact absurd rfl (unmarked (.setOutput ⟨2, 0⟩ .unit) (by simp [recomputation])).1
  · exact ⟨finish, ran, reports, since⟩

end Built
end BlockDiagram
