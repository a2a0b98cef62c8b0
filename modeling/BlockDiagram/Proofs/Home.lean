import BlockDiagram.Proofs.Tree
import BlockDiagram.Proofs.Search

namespace BlockDiagram

-- An input, an output or an entry of a leaf in a tree.
structure Endpoint where
  path : List Nat
  index : Nat
deriving DecidableEq, Repr

def Endpoint.under (system : Nat) (inner : Endpoint) : Endpoint := ⟨system :: inner.path, inner.index⟩

-- How many of something a leaf has, and where a diagram finds its own.
structure Numbering where
  count : Leaf → Nat
  target? : Frame → Nat → Option Terminal

namespace Numbering

def inputs : Numbering := ⟨fun own => own.inputs.length, fun frame index => frame.inputs[index]?.map (·.terminal)⟩

def outputs : Numbering := ⟨fun own => own.fresh.length, fun frame index => frame.outputs[index]?⟩

def entries (partition : Partition) : Numbering :=
  ⟨fun own => own.state.count partition,
    fun frame index => (frame.composite.slot? partition index).map (fun slot => ⟨slot.system, slot.index⟩)⟩

end Numbering

mutual
def Context.home? (numbering : Numbering) : Context → Nat → Option Endpoint
  | .leaf own, index => if index < numbering.count own then some ⟨[], index⟩ else none
  | .diagram frame subsystems, index =>
    match numbering.target? frame index with
    | some terminal => (subsystems.homeAt? numbering terminal.system terminal.index).map (.under terminal.system)
    | none => none
def Subsystems.homeAt? (numbering : Numbering) : Subsystems → Nat → Nat → Option Endpoint
  | .nil, _, _ => none
  | .vacant _, 0, _ => none
  | .filled context _ _, 0, index => context.home? numbering index
  | .vacant rest, system + 1, index => rest.homeAt? numbering system index
  | .filled _ _ rest, system + 1, index => rest.homeAt? numbering system index
end

theorem Subsystems.homeAt?_eq (numbering : Numbering) (subsystems : Subsystems) (system index : Nat) :
    subsystems.homeAt? numbering system index =
      (subsystems.context? system).bind (·.home? numbering index) := by
  fun_induction Subsystems.context? subsystems system <;> simp_all [Subsystems.homeAt?]

def Subsystems.terminalHome? (numbering : Numbering) (subsystems : Subsystems) (terminal : Terminal) :
    Option Endpoint :=
  (subsystems.homeAt? numbering terminal.system terminal.index).map (.under terminal.system)

theorem Subsystems.terminalHome?_eq_some {numbering : Numbering} {subsystems : Subsystems}
    {terminal : Terminal} {home : Endpoint} :
    subsystems.terminalHome? numbering terminal = some home ↔
      ∃ child inner, subsystems.context? terminal.system = some child ∧
        child.home? numbering terminal.index = some inner ∧ home = inner.under terminal.system := by
  unfold terminalHome?
  rw [homeAt?_eq]
  cases subsystems.context? terminal.system with
  | none => simp
  | some child => simp only [Option.bind_some, Option.map_eq_some_iff, Option.some.injEq]; grind

namespace Context
variable {numbering : Numbering}

theorem home?_leaf {own : Leaf} {index : Nat} {home : Endpoint} :
    (Context.leaf own).home? numbering index = some home ↔
      index < numbering.count own ∧ home = ⟨[], index⟩ := by
  simp [home?, eq_comm]

theorem home?_diagram {frame : Frame} {subsystems : Subsystems} {index : Nat} {home : Endpoint} :
    (Context.diagram frame subsystems).home? numbering index = some home ↔
      ∃ terminal, numbering.target? frame index = some terminal ∧
        subsystems.terminalHome? numbering terminal = some home := by
  unfold home?
  cases numbering.target? frame index with
  | none => simp
  | some terminal => simp [Subsystems.terminalHome?]

theorem locate_home {context : Context} {index : Nat} {home : Endpoint}
    (found : context.home? numbering index = some home) :
    ∃ own, context.locate home.path = .ok (.leaf own) ∧ home.index < numbering.count own := by
  induction context using Context.induct generalizing index home with
  | leaf own =>
    obtain ⟨bound, rfl⟩ := home?_leaf.mp found
    exact ⟨own, locate_nil _, bound⟩
  | diagram frame subsystems ih =>
    obtain ⟨terminal, _, below⟩ := home?_diagram.mp found
    obtain ⟨child, inner, present, inside, rfl⟩ := Subsystems.terminalHome?_eq_some.mp below
    obtain ⟨own, located, bound⟩ := ih _ _ present inside
    exact ⟨own, locate_cons.mpr ⟨child, present, located⟩, bound⟩

theorem locate_terminalHome {subsystems : Subsystems} {terminal : Terminal} {home : Endpoint} (frame : Frame)
    (found : subsystems.terminalHome? numbering terminal = some home) :
    ∃ own, (Context.diagram frame subsystems).locate home.path = .ok (.leaf own) ∧ home.index < numbering.count own := by
  obtain ⟨child, inner, present, inside, rfl⟩ := Subsystems.terminalHome?_eq_some.mp found
  obtain ⟨own, located, bound⟩ := locate_home inside
  exact ⟨own, locate_cons.mpr ⟨child, present, located⟩, bound⟩

-- The changes that reach the context at a path when the root is given some.
def mailTo : Context → List Change → List Nat → List Change
  | _, changes, [] => changes
  | .leaf _, _, _ :: _ => []
  | .diagram frame subsystems, changes, system :: path =>
    match subsystems.context? system with
    | some child =>
      child.mailTo (Mail.addressed (changes.flatMap (frame.mail subsystems.layout)) system) path
    | none => []

theorem mailTo_nil (context : Context) (changes : List Change) : context.mailTo changes [] = changes := by
  cases context <;> rfl

theorem mailTo_cons {frame : Frame} {subsystems : Subsystems} {system : Nat} {child : Context}
    (present : subsystems.context? system = some child) (changes : List Change) (path : List Nat) :
    (Context.diagram frame subsystems).mailTo changes (system :: path) =
      child.mailTo (Mail.addressed (changes.flatMap (frame.mail subsystems.layout)) system) path := by
  simp only [mailTo, present]

theorem mailTo_none (context : Context) (path : List Nat) : context.mailTo [] path = [] := by
  induction path generalizing context with
  | nil => rw [mailTo_nil]
  | cons system path ih =>
    cases context with
    | leaf => rfl
    | diagram frame subsystems =>
      simp only [mailTo]
      split
      · exact ih _
      · rfl

theorem mailTo_append (context : Context) (earlier later : List Change) (path : List Nat) :
    context.mailTo (earlier ++ later) path = context.mailTo earlier path ++ context.mailTo later path := by
  induction path generalizing context earlier later with
  | nil => simp only [mailTo_nil]
  | cons system path ih =>
    cases context with
    | leaf => rfl
    | diagram frame subsystems =>
      simp only [mailTo]
      split
      · rw [List.flatMap_append, Mail.addressed_append, ih]
      · rfl

theorem locate_receive {context found : Context} {path : List Nat} (changes : List Change)
    (located : context.locate path = .ok found) :
    (context.receive changes).locate path = .ok (found.receive (context.mailTo changes path)) := by
  induction path generalizing context changes with
  | nil => rw [locate_nil] at located; cases located; rw [mailTo_nil, locate_nil]
  | cons system path ih =>
    cases context with
    | leaf own => cases located
    | diagram frame subsystems =>
      obtain ⟨child, present, below⟩ := locate_cons.mp located
      rw [mailTo_cons present, receive, locate_cons, Subsystems.context?_receive, present]
      exact ⟨_, rfl, ih _ below⟩

theorem mem_addressed_mail {frame : Frame} {layout : Layout} {changes : List Change} {system : Nat}
    {change : Change} :
    change ∈ Mail.addressed (changes.flatMap (frame.mail layout)) system ↔
      ∃ cause ∈ changes, (system, change) ∈ frame.mail layout cause := by
  rw [Mail.mem_addressed, List.mem_flatMap]

end Context

namespace Frame

theorem input_eq_ok {frame : Frame} {index : Nat} {exposed : ExposedInput} :
    frame.input index = .ok exposed ↔ frame.inputs[index]? = some exposed := by
  unfold input
  cases frame.inputs[index]? <;> simp

theorem target?_inputs {frame : Frame} {index : Nat} {terminal : Terminal} :
    Numbering.inputs.target? frame index = some terminal ↔
      ∃ exposed, frame.input index = .ok exposed ∧ exposed.terminal = terminal := by
  simp [Numbering.inputs, input_eq_ok]

theorem output_eq_ok {frame : Frame} {index : Nat} {terminal : Terminal} :
    frame.output index = .ok terminal ↔ frame.outputs[index]? = some terminal := by
  unfold output
  cases frame.outputs[index]? <;> simp

theorem target?_entries {frame : Frame} {partition : Partition} {index : Nat} {terminal : Terminal} :
    (Numbering.entries partition).target? frame index = some terminal ↔
      ∃ slot, frame.composite.slot? partition index = some slot ∧ ⟨slot.system, slot.index⟩ = terminal := by
  simp only [Numbering.entries, Option.map_eq_some_iff]

-- What a diagram asks of its subsystems in answer to a change, apart from what
-- it propagates: the same of all of them, or the same change of what is behind
-- the input, output or entry concerned.
inductive Passed (frame : Frame) (layout : Layout) : Change → Nat × Change → Prop where
  | setTime {system : Nat} {moment : Float} (present : system ∈ layout.present) :
    Passed frame layout (.setTime moment) (system, .setTime moment)
  | invalidateTime {system : Nat} (present : system ∈ layout.present) :
    Passed frame layout .invalidateTime (system, .invalidateTime)
  | invalidateState {system : Nat} (present : system ∈ layout.present) :
    Passed frame layout .invalidateState (system, .invalidateState)
  | invalidateInput {index : Nat} {terminal : Terminal}
    (entered : Numbering.inputs.target? frame index = some terminal) :
    Passed frame layout (.invalidateInput index) (terminal.system, .invalidateInput terminal.index)
  | bind {index : Nat} {terminal : Terminal} {binding : Option Binding}
    (entered : Numbering.inputs.target? frame index = some terminal) :
    Passed frame layout (.bind index binding) (terminal.system, .bind terminal.index binding)
  | rebind {index : Nat} {terminal : Terminal} {binding : Option Binding}
    (entered : Numbering.inputs.target? frame index = some terminal) :
    Passed frame layout (.rebind index binding) (terminal.system, .rebind terminal.index binding)
  | mark {index : Nat} {terminal : Terminal} {fresh : Bool}
    (entered : Numbering.outputs.target? frame index = some terminal) :
    Passed frame layout (.mark index fresh) (terminal.system, .mark terminal.index fresh)
  | openEntry {partition : Partition} {index : Nat} {terminal : Terminal}
    (entered : (Numbering.entries partition).target? frame index = some terminal) :
    Passed frame layout (.openEntry partition index) (terminal.system, .openEntry partition terminal.index)
  | storeEntry {partition : Partition} {index : Nat} {terminal : Terminal} {entry : partition.Entry}
    (entered : (Numbering.entries partition).target? frame index = some terminal) :
    Passed frame layout (.storeEntry partition index entry)
      (terminal.system, .storeEntry partition terminal.index entry)

def disturbed (frame : Frame) (layout : Layout) : Change → List Terminal
  | .setTime _ | .invalidateTime | .invalidateState => layout.buffered
  | .invalidateInput index | .bind index _ =>
    match frame.input index with
    | .ok exposed => layout.bufferedFor exposed.terminal.system
    | .error _ => []
  | .openEntry partition index =>
    match frame.composite.slot? partition index with
    | some slot => layout.bufferedFor slot.system
    | none => []
  | _ => []

theorem downstream_nil (frame : Frame) (layout : Layout) : frame.downstream layout [] = [] := by
  refine List.eq_nil_iff_forall_not_mem.mpr (fun output found => ?_)
  obtain ⟨_, absent, _⟩ := mem_downstream.mp found
  cases absent

theorem ripple_nil (frame : Frame) (layout : Layout) : frame.ripple layout [] = [] := by
  rw [ripple, downstream_nil, List.flatMap_nil]

section
variable {frame : Frame} {layout : Layout} {cause : Change} {item : Nat × Change} {index : Nat}

theorem mem_broadcast (told : ∀ system, system ∈ layout.present → frame.Passed layout cause (system, cause))
    (only : frame.Passed layout cause item → item.1 ∈ layout.present ∧ item.2 = cause) :
    item ∈ frame.broadcast layout cause ↔
      frame.Passed layout cause item ∨ item ∈ frame.ripple layout layout.buffered := by
  rw [broadcast, List.mem_append, List.mem_map]
  refine or_congr_left ⟨?_, fun passed => ?_⟩
  · rintro ⟨system, present, rfl⟩
    exact told system present
  · obtain ⟨present, same⟩ := only passed
    exact ⟨item.1, present, same ▸ rfl⟩

theorem mem_handed {target : Option Terminal} (change : Nat → Change)
    (told : ∀ terminal, target = some terminal → frame.Passed layout cause (terminal.system, change terminal.index))
    (only : frame.Passed layout cause item →
      ∃ terminal, target = some terminal ∧ (terminal.system, change terminal.index) = item) :
    item ∈ (target.map (fun terminal => (terminal.system, change terminal.index))).toList ↔
      frame.Passed layout cause item := by
  rw [Option.mem_toList, Option.map_eq_some_iff]
  refine ⟨?_, only⟩
  rintro ⟨terminal, entered, rfl⟩
  exact told terminal entered

theorem mem_inward (change : Nat → Change)
    (told : ∀ terminal, Numbering.inputs.target? frame index = some terminal →
      frame.Passed layout cause (terminal.system, change terminal.index))
    (only : frame.Passed layout cause item → ∃ terminal, Numbering.inputs.target? frame index = some terminal ∧
      (terminal.system, change terminal.index) = item) :
    item ∈ frame.inward layout index change ↔ frame.Passed layout cause item ∨
      item ∈ frame.ripple layout (frame.disturbed layout (.invalidateInput index)) := by
  have handed : frame.inward layout index change =
      ((Numbering.inputs.target? frame index).map (fun terminal => (terminal.system, change terminal.index))).toList ++
        frame.ripple layout (frame.disturbed layout (.invalidateInput index)) := by
    simp only [inward, disturbed, input, Numbering.inputs]
    cases frame.inputs[index]? with
    | none => exact (ripple_nil frame layout).symm
    | some exposed => rfl
  rw [handed, List.mem_append, mem_handed change told only]

theorem mem_mail_rebind {binding : Option Binding} :
    item ∈ frame.mail layout (.rebind index binding) ↔ frame.Passed layout (.rebind index binding) item := by
  have handed : frame.mail layout (.rebind index binding) = ((Numbering.inputs.target? frame index).map
      (fun terminal => (terminal.system, .rebind terminal.index binding))).toList := by
    simp only [mail, input, Numbering.inputs]
    cases frame.inputs[index]? <;> rfl
  rw [handed]
  refine mem_handed (.rebind · binding) (fun _ => .rebind) (fun passed => ?_)
  cases passed with
  | rebind entered => exact ⟨_, entered, rfl⟩

theorem mem_mail_mark {fresh : Bool} :
    item ∈ frame.mail layout (.mark index fresh) ↔ frame.Passed layout (.mark index fresh) item := by
  have handed : frame.mail layout (.mark index fresh) = ((Numbering.outputs.target? frame index).map
      (fun terminal => (terminal.system, .mark terminal.index fresh))).toList := by
    simp only [mail, output, Numbering.outputs]
    cases frame.outputs[index]? <;> rfl
  rw [handed]
  refine mem_handed (.mark · fresh) (fun _ => .mark) (fun passed => ?_)
  cases passed with
  | mark entered => exact ⟨_, entered, rfl⟩

theorem mem_mail_openEntry {partition : Partition} :
    item ∈ frame.mail layout (.openEntry partition index) ↔ frame.Passed layout (.openEntry partition index) item ∨
      item ∈ frame.ripple layout (frame.disturbed layout (.openEntry partition index)) := by
  have handed : frame.mail layout (.openEntry partition index) =
      frame.ripple layout (frame.disturbed layout (.openEntry partition index)) ++
        (((Numbering.entries partition).target? frame index).map
          (fun terminal => (terminal.system, .openEntry partition terminal.index))).toList := by
    simp only [mail, disturbed, Numbering.entries]
    cases frame.composite.slot? partition index with
    | none => exact (congrArg (· ++ []) (ripple_nil frame layout)).symm
    | some slot => rfl
  rw [handed, List.mem_append, or_comm]
  refine or_congr_left (mem_handed (.openEntry partition ·) (fun _ => .openEntry) (fun passed => ?_))
  cases passed with
  | openEntry entered => exact ⟨_, entered, rfl⟩

theorem mem_mail_storeEntry {partition : Partition} {entry : partition.Entry} :
    item ∈ frame.mail layout (.storeEntry partition index entry) ↔
      frame.Passed layout (.storeEntry partition index entry) item := by
  have handed : frame.mail layout (.storeEntry partition index entry) =
      (((Numbering.entries partition).target? frame index).map
        (fun terminal => (terminal.system, .storeEntry partition terminal.index entry))).toList := by
    simp only [mail, Numbering.entries]
    cases frame.composite.slot? partition index <;> rfl
  rw [handed]
  refine mem_handed (.storeEntry partition · entry) (fun _ => .storeEntry) (fun passed => ?_)
  cases passed with
  | storeEntry entered => exact ⟨_, entered, rfl⟩

theorem mem_mail :
    item ∈ frame.mail layout cause ↔
      frame.Passed layout cause item ∨ item ∈ frame.ripple layout (frame.disturbed layout cause) := by
  have nothing : ¬ item ∈ frame.ripple layout [] := ripple_nil frame layout ▸ List.not_mem_nil
  cases cause with
  | setTime =>
    refine mem_broadcast (fun _ => .setTime) (fun passed => ?_)
    cases passed with
    | setTime present => exact ⟨present, rfl⟩
  | invalidateTime =>
    refine mem_broadcast (fun _ => .invalidateTime) (fun passed => ?_)
    cases passed with
    | invalidateTime present => exact ⟨present, rfl⟩
  | invalidateState =>
    refine mem_broadcast (fun _ => .invalidateState) (fun passed => ?_)
    cases passed with
    | invalidateState present => exact ⟨present, rfl⟩
  | invalidateInput =>
    refine mem_inward .invalidateInput (fun _ => .invalidateInput) (fun passed => ?_)
    cases passed with
    | invalidateInput entered => exact ⟨_, entered, rfl⟩
  | bind index binding =>
    refine mem_inward (.bind · binding) (fun _ => .bind) (fun passed => ?_)
    cases passed with
    | bind entered => exact ⟨_, entered, rfl⟩
  | rebind => exact mem_mail_rebind.trans (or_iff_left nothing).symm
  | mark => exact mem_mail_mark.trans (or_iff_left nothing).symm
  | openEntry => exact mem_mail_openEntry
  | storeEntry => exact mem_mail_storeEntry.trans (or_iff_left nothing).symm

end

theorem mem_staleness {layout : Layout} {output : Terminal} {item : Nat × Change} :
    item ∈ staleness layout output ↔
      output ∈ layout.declaredBy output.system ∧ item = (output.system, .mark output.index false) := by
  unfold staleness
  split <;> simp_all

theorem mem_invalidations {frame : Frame} {layout : Layout} {output : Terminal} {item : Nat × Change} :
    item ∈ frame.invalidations layout output ↔
      ∃ input ∈ frame.wiring.inputsOf output, (layout.outline? input.system).isSome ∧
        item = (input.system, .invalidateInput input.index) := by
  simp only [invalidations, List.mem_map, List.mem_filter, and_assoc]
  constructor
  · rintro ⟨input, fed, present, rfl⟩; exact ⟨input, fed, present, rfl⟩
  · rintro ⟨input, fed, present, rfl⟩; exact ⟨input, fed, present, rfl⟩

theorem mem_ripple {frame : Frame} {layout : Layout} {start : List Terminal} {item : Nat × Change} :
    item ∈ frame.ripple layout start ↔
      ∃ output ∈ frame.downstream layout start,
        item ∈ staleness layout output ∨ item ∈ frame.invalidations layout output := by
  simp only [ripple, List.mem_flatMap, List.mem_append]

end Frame

def Change.Quiet : Change → Prop
  | .invalidateInput _ => True
  | .mark _ fresh => fresh = false
  | _ => False

theorem Frame.ripple_quiet {frame : Frame} {layout : Layout} {start : List Terminal} {item : Nat × Change}
    (member : item ∈ frame.ripple layout start) : item.2.Quiet := by
  obtain ⟨output, _, stale | invalid⟩ := mem_ripple.mp member
  · obtain ⟨_, rfl⟩ := mem_staleness.mp stale; rfl
  · obtain ⟨input, _, _, rfl⟩ := mem_invalidations.mp invalid; trivial

namespace Context

theorem input_bound_of_home {context : Context} {index : Nat} {home : Endpoint}
    (found : context.home? .inputs index = some home) : index < context.inputCount := by
  cases context with
  | leaf own => exact (home?_leaf.mp found).1
  | diagram frame subsystems =>
    obtain ⟨terminal, entered, _⟩ := home?_diagram.mp found
    obtain ⟨exposed, held, _⟩ := Frame.target?_inputs.mp entered
    exact (List.getElem?_eq_some_iff.mp (Frame.input_eq_ok.mp held)).1

theorem output_bound_of_home {context : Context} {index : Nat} {home : Endpoint}
    (found : context.home? .outputs index = some home) : index < context.outputCount := by
  cases context with
  | leaf own => exact (home?_leaf.mp found).1
  | diagram frame subsystems =>
    obtain ⟨terminal, entered, _⟩ := home?_diagram.mp found
    exact (List.getElem?_eq_some_iff.mp entered).1

theorem input_home {context : Context} {index : Nat} {home : Endpoint} {own : Leaf}
    (found : context.home? .inputs index = some home) (located : context.locate home.path = .ok (.leaf own)) :
    context.input index = own.input home.index := by
  induction context using Context.induct generalizing index home with
  | leaf leaf =>
    obtain ⟨_, rfl⟩ := home?_leaf.mp found
    cases located
    rfl
  | diagram frame subsystems ih =>
    obtain ⟨terminal, entered, below⟩ := home?_diagram.mp found
    obtain ⟨exposed, held, rfl⟩ := Frame.target?_inputs.mp entered
    obtain ⟨child, inner, present, inside, rfl⟩ := Subsystems.terminalHome?_eq_some.mp below
    obtain ⟨other, there, deeper⟩ := locate_cons.mp located
    cases present.symm.trans there
    simp only [input, held, Subsystems.inputAt_eq, present, Option.map_some, Option.getD_some]
    have same := ih _ _ present inside deeper
    exact same

-- A change that each diagram hands on through one of its tables arrives at home.
theorem mailTo_home {numbering : Numbering} {change : Nat → Change}
    (handed : ∀ frame layout index terminal, numbering.target? frame index = some terminal →
      frame.Passed layout (change index) (terminal.system, change terminal.index))
    {context : Context} {changes : List Change} {index : Nat} {home : Endpoint}
    (member : change index ∈ changes) (found : context.home? numbering index = some home) :
    change home.index ∈ context.mailTo changes home.path := by
  induction context using Context.induct generalizing index home changes with
  | leaf own =>
    obtain ⟨_, rfl⟩ := home?_leaf.mp found
    exact member
  | diagram frame subsystems ih =>
    obtain ⟨terminal, entered, below⟩ := home?_diagram.mp found
    obtain ⟨child, inner, present, inside, rfl⟩ := Subsystems.terminalHome?_eq_some.mp below
    rw [Endpoint.under, mailTo_cons present]
    refine ih _ _ present (mem_addressed_mail.mpr ⟨_, member, ?_⟩) inside
    exact Frame.mem_mail.mpr (.inl (handed frame _ index terminal entered))

theorem mailTo_invalidateInput {context : Context} {changes : List Change} {index : Nat} {home : Endpoint}
    (member : .invalidateInput index ∈ changes) (found : context.home? .inputs index = some home) :
    .invalidateInput home.index ∈ context.mailTo changes home.path :=
  mailTo_home (fun _ _ _ _ entered => .invalidateInput entered) member found

theorem mailTo_bind {context : Context} {changes : List Change} {index : Nat} {binding : Option Binding}
    {home : Endpoint} (member : .bind index binding ∈ changes)
    (found : context.home? .inputs index = some home) :
    .bind home.index binding ∈ context.mailTo changes home.path :=
  @mailTo_home _ (fun index => .bind index binding) (fun _ _ _ _ entered => .bind entered) _ _ _ _ member found

theorem mailTo_openEntry {context : Context} {changes : List Change} {partition : Partition} {index : Nat}
    {home : Endpoint} (member : .openEntry partition index ∈ changes)
    (found : context.home? (.entries partition) index = some home) :
    .openEntry partition home.index ∈ context.mailTo changes home.path :=
  mailTo_home (fun _ _ _ _ entered => .openEntry entered) member found

theorem mailTo_setTime {context found : Context} {changes : List Change} {path : List Nat} {time : Float}
    (member : .setTime time ∈ changes) (located : context.locate path = .ok found) :
    .setTime time ∈ context.mailTo changes path := by
  induction path generalizing context changes with
  | nil => rw [mailTo_nil]; exact member
  | cons system path ih =>
    cases context with
    | leaf own => cases located
    | diagram frame subsystems =>
      obtain ⟨child, present, below⟩ := locate_cons.mp located
      rw [mailTo_cons present]
      refine ih (mem_addressed_mail.mpr ⟨_, member, ?_⟩) below
      exact Frame.mem_mail.mpr (.inl (.setTime (Subsystems.mem_present.mpr ⟨child, present⟩)))

-- And what arrives at an input of a leaf was handed on from the input it stands for.
theorem home_of_mailTo {change : Nat → Change} (loud : ∀ index, ¬ (change index).Quiet)
    (handed : ∀ {frame : Frame} {layout : Layout} {cause : Change} {system index : Nat},
      frame.Passed layout cause (system, change index) →
        ∃ outer, cause = change outer ∧ Numbering.inputs.target? frame outer = some ⟨system, index⟩)
    {context : Context} {changes : List Change} {path : List Nat} {own : Leaf} {index : Nat}
    (located : context.locate path = .ok (.leaf own)) (bound : index < own.inputs.length)
    (member : change index ∈ context.mailTo changes path) :
    ∃ outer, change outer ∈ changes ∧ context.home? .inputs outer = some ⟨path, index⟩ := by
  induction path generalizing context changes with
  | nil =>
    rw [locate_nil] at located
    cases located
    exact ⟨index, member, home?_leaf.mpr ⟨bound, rfl⟩⟩
  | cons system path ih =>
    cases context with
    | leaf => cases located
    | diagram frame subsystems =>
      obtain ⟨child, present, below⟩ := locate_cons.mp located
      rw [mailTo_cons present] at member
      obtain ⟨inner, addressed, home⟩ := ih below member
      obtain ⟨cause, given, sent⟩ := mem_addressed_mail.mp addressed
      rcases Frame.mem_mail.mp sent with passed | spread
      · obtain ⟨outer, rfl, entered⟩ := handed passed
        refine ⟨outer, given, home?_diagram.mpr ⟨_, entered, ?_⟩⟩
        exact Subsystems.terminalHome?_eq_some.mpr ⟨child, _, present, home, rfl⟩
      · exact absurd (Frame.ripple_quiet spread) (loud inner)

section
variable {context : Context} {changes : List Change} {path : List Nat} {own : Leaf} {index : Nat}
  {binding : Option Binding}

theorem bind_of_mailTo (located : context.locate path = .ok (.leaf own)) (bound : index < own.inputs.length)
    (member : .bind index binding ∈ context.mailTo changes path) :
    ∃ outer, .bind outer binding ∈ changes ∧ context.home? .inputs outer = some ⟨path, index⟩ := by
  refine @home_of_mailTo (.bind · binding) (fun _ quiet => quiet) ?_ _ _ _ _ _ located bound member
  intro _ _ _ _ _ passed
  cases passed with
  | bind entered => exact ⟨_, rfl, entered⟩

theorem rebind_home_of_mailTo (located : context.locate path = .ok (.leaf own)) (bound : index < own.inputs.length)
    (member : .rebind index binding ∈ context.mailTo changes path) :
    ∃ outer, .rebind outer binding ∈ changes ∧ context.home? .inputs outer = some ⟨path, index⟩ := by
  refine @home_of_mailTo (.rebind · binding) (fun _ quiet => quiet) ?_ _ _ _ _ _ located bound member
  intro _ _ _ _ _ passed
  cases passed with
  | rebind entered => exact ⟨_, rfl, entered⟩

end

-- What holds of all changes given to the root holds of those that arrive, if it is
-- handed on and true of what propagation sends.
theorem mailTo_forall {property : Change → Prop}
    (handed : ∀ {frame : Frame} {layout : Layout} {cause : Change} {item : Nat × Change},
      frame.Passed layout cause item → property cause → property item.2)
    (quiet : ∀ change : Change, change.Quiet → property change) {context : Context} {changes : List Change}
    {path : List Nat} (holds : ∀ change ∈ changes, property change) :
    ∀ change ∈ context.mailTo changes path, property change := by
  induction path generalizing context changes with
  | nil => rw [mailTo_nil]; exact holds
  | cons system path ih =>
    cases context with
    | leaf => exact fun _ member => absurd member List.not_mem_nil
    | diagram frame subsystems =>
      simp only [mailTo]
      split
      · refine ih (fun change addressed => ?_)
        obtain ⟨cause, given, sent⟩ := mem_addressed_mail.mp addressed
        rcases Frame.mem_mail.mp sent with passed | spread
        · exact handed passed (holds cause given)
        · exact quiet change (Frame.ripple_quiet spread)
      · exact fun _ member => absurd member List.not_mem_nil

theorem rebind_of_mailTo {context : Context} {changes : List Change} {path : List Nat} {index : Nat}
    {binding : Option Binding} (member : .rebind index binding ∈ context.mailTo changes path) :
    ∃ outer, .rebind outer binding ∈ changes := by
  refine Classical.byContradiction (fun absent => ?_)
  refine @mailTo_forall (fun change => ∀ index, change ≠ .rebind index binding) ?_ ?_ _ _ _ ?_ _ member index rfl
  · intro _ _ _ _ passed other index same
    cases passed <;> cases same
    exact other _ rfl
  · rintro _ quiet index rfl
    exact quiet
  · rintro _ given index rfl
    exact absent ⟨index, given⟩

end Context
end BlockDiagram
