import BlockDiagram.Proofs.Home
import BlockDiagram.Proofs.Operation

namespace BlockDiagram

namespace Context

def Everywhere (property : Context → Prop) (tree : Context) : Prop :=
  ∀ path found, tree.locate path = .ok found → property found

def Along (relation : Context → Context → Prop) (tree later : Context) : Prop :=
  ∀ path found, tree.locate path = .ok found → ∃ after, later.locate path = .ok after ∧ relation found after

variable {property : Context → Prop} {relation : Context → Context → Prop}

theorem everywhere_leaf {own : Leaf} : (Context.leaf own).Everywhere property ↔ property (.leaf own) := by
  constructor
  · intro holds
    exact holds [] _ (locate_nil _)
  · intro holds path found located
    obtain ⟨_, rfl⟩ := locate_leaf located
    exact holds

theorem everywhere_diagram {frame : Frame} {subsystems : Subsystems} :
    (Context.diagram frame subsystems).Everywhere property ↔
      property (.diagram frame subsystems) ∧
        ∀ system child, subsystems.context? system = some child → child.Everywhere property := by
  constructor
  · intro holds
    refine ⟨holds [] _ (locate_nil _), ?_⟩
    intro system child present path found located
    exact holds (system :: path) found (locate_cons.mpr ⟨child, present, located⟩)
  · intro both path found located
    obtain ⟨here, below⟩ := both
    cases path with
    | nil => rw [locate_nil] at located; cases located; exact here
    | cons system path =>
      obtain ⟨child, present, inside⟩ := locate_cons.mp located
      exact below system child present path found inside

theorem Everywhere.below {tree found : Context} {path : List Nat} (holds : tree.Everywhere property)
    (located : tree.locate path = .ok found) : found.Everywhere property := by
  intro rest inner inside
  exact holds (path ++ rest) inner ((locate_append located).mpr inside)

theorem Along.refl (reflexive : ∀ context, relation context context) (tree : Context) :
    tree.Along relation tree :=
  fun _ found located => ⟨found, located, reflexive found⟩

theorem Along.here {tree later : Context} (along : tree.Along relation later) : relation tree later := by
  obtain ⟨after, located, related⟩ := along [] tree (locate_nil _)
  rw [locate_nil] at located
  cases located
  exact related

theorem along_diagram {frame later : Frame} {subsystems others : Subsystems}
    (here : relation (.diagram frame subsystems) (.diagram later others))
    (below : ∀ system child, subsystems.context? system = some child →
      ∃ other, others.context? system = some other ∧ child.Along relation other) :
    (Context.diagram frame subsystems).Along relation (.diagram later others) := by
  intro path found located
  cases path with
  | nil => rw [locate_nil] at located; cases located; exact ⟨_, locate_nil _, here⟩
  | cons system path =>
    obtain ⟨child, present, inside⟩ := locate_cons.mp located
    obtain ⟨other, held, along⟩ := below system child present
    obtain ⟨after, arrived, related⟩ := along path found inside
    exact ⟨after, locate_cons.mpr ⟨other, held, arrived⟩, related⟩

theorem Along.child {frame later : Frame} {subsystems others : Subsystems} {system : Nat} {child : Context}
    (along : (Context.diagram frame subsystems).Along relation (.diagram later others))
    (present : subsystems.context? system = some child) :
    ∃ other, others.context? system = some other ∧ child.Along relation other := by
  have inside : ∀ path found, child.locate path = .ok found → ∃ other, others.context? system = some other ∧
      ∃ after, other.locate path = .ok after ∧ relation found after := by
    intro path found located
    obtain ⟨after, arrived, related⟩ := along (system :: path) found (locate_cons.mpr ⟨child, present, located⟩)
    obtain ⟨other, held, below⟩ := locate_cons.mp arrived
    exact ⟨other, held, after, below, related⟩
  obtain ⟨other, held, _⟩ := inside [] child (locate_nil _)
  refine ⟨other, held, ?_⟩
  intro path found located
  obtain ⟨same, place, reached⟩ := inside path found located
  cases held.symm.trans place
  exact reached

-- What is replaced at one place is all that changes, apart from the diagrams
-- around it, which hold something else there.
theorem along_graft (reflexive : ∀ context, relation context context)
    (outward : ∀ frame subsystems system child other, subsystems.context? system = some child →
      relation child other →
      relation (.diagram frame subsystems) (.diagram frame (subsystems.putContext system other)))
    {tree found changed : Context} {path : List Nat} (located : tree.locate path = .ok found)
    (here : found.Along relation changed) : tree.Along relation (tree.graft path changed) := by
  refine graft_induct (fun _ before after => before.Along relation after) located here ?_
  intro frame subsystems system _ child other present along
  refine along_diagram (outward _ _ _ _ _ present along.here) ?_
  intro place child present
  rw [Subsystems.context?_putContext]
  split
  · rename_i same
    subst same
    exact ⟨other, by rw [present]; rfl, by simp_all⟩
  · exact ⟨child, present, .refl reflexive child⟩

theorem along_receive (received : ∀ context changes, relation context (context.receive changes))
    (tree : Context) (changes : List Change) : tree.Along relation (tree.receive changes) :=
  fun _ _ located => ⟨_, locate_receive changes located, received _ _⟩

theorem everywhere_graft (outward : ∀ frame subsystems system child other,
      subsystems.context? system = some child → relation child other →
      property (.diagram frame subsystems) → property (.diagram frame (subsystems.putContext system other)))
    (around : ∀ frame subsystems system child other, subsystems.context? system = some child →
      relation child other →
      relation (.diagram frame subsystems) (.diagram frame (subsystems.putContext system other)))
    {tree found changed : Context} {path : List Nat} (located : tree.locate path = .ok found)
    (holds : tree.Everywhere property) (here : changed.Everywhere property) (related : relation found changed) :
    (tree.graft path changed).Everywhere property := by
  have both : relation tree (tree.graft path changed) ∧
      (tree.Everywhere property → (tree.graft path changed).Everywhere property) := by
    refine graft_induct (fun _ before after => relation before after ∧
      (before.Everywhere property → after.Everywhere property)) located ⟨related, fun _ => here⟩ ?_
    intro frame subsystems system _ child other present both
    obtain ⟨along, inside⟩ := both
    refine ⟨around _ _ _ _ _ present along, ?_⟩
    intro everywhere
    obtain ⟨top, below⟩ := everywhere_diagram.mp everywhere
    refine everywhere_diagram.mpr ⟨outward _ _ _ _ _ present along top, ?_⟩
    intro place context held
    rcases Subsystems.of_putContext present held with ⟨_, rfl⟩ | kept
    · exact inside (below _ _ present)
    · exact below _ _ kept
  exact both.2 holds

theorem locate_of_receive {context after : Context} {path : List Nat} {changes : List Change}
    (located : (context.receive changes).locate path = .ok after) :
    ∃ found, context.locate path = .ok found ∧ after = found.receive (context.mailTo changes path) := by
  induction path generalizing context changes with
  | nil => rw [locate_nil] at located; cases located; exact ⟨context, locate_nil _, by rw [mailTo_nil]⟩
  | cons system path ih =>
    cases context with
    | leaf own => cases located
    | diagram frame subsystems =>
      rw [receive, locate_cons, Subsystems.context?_receive] at located
      obtain ⟨child, held, below⟩ := located
      obtain ⟨before, present, rfl⟩ := Option.map_eq_some_iff.mp held
      obtain ⟨found, inside, same⟩ := ih below
      exact ⟨found, locate_cons.mpr ⟨before, present, inside⟩, by rw [mailTo_cons present]; exact same⟩

theorem everywhere_receive (received : ∀ context changes, property context → property (context.receive changes))
    {tree : Context} (changes : List Change) (holds : tree.Everywhere property) :
    (tree.receive changes).Everywhere property := by
  intro path after located
  obtain ⟨found, there, rfl⟩ := locate_of_receive located
  exact received _ _ (holds path found there)

def Covers (tree later : Context) : Prop :=
  ∀ path after, later.locate path = .ok after → ∃ found, tree.locate path = .ok found

theorem Covers.refl (tree : Context) : tree.Covers tree := fun _ found located => ⟨found, located⟩

theorem covers_leaf {own later : Leaf} : (Context.leaf own).Covers (.leaf later) := by
  intro path after located
  obtain ⟨rfl, _⟩ := locate_leaf located
  exact ⟨_, locate_nil _⟩

theorem covers_diagram {frame later : Frame} {subsystems others : Subsystems}
    (below : ∀ system other, others.context? system = some other →
      ∃ child, subsystems.context? system = some child ∧ child.Covers other) :
    (Context.diagram frame subsystems).Covers (.diagram later others) := by
  intro path after located
  cases path with
  | nil => exact ⟨_, locate_nil _⟩
  | cons system path =>
    obtain ⟨other, held, inside⟩ := locate_cons.mp located
    obtain ⟨child, present, covers⟩ := below system other held
    obtain ⟨found, there⟩ := covers path after inside
    exact ⟨found, locate_cons.mpr ⟨child, present, there⟩⟩

theorem covers_graft {tree found changed : Context} {path : List Nat} (located : tree.locate path = .ok found)
    (here : found.Covers changed) : tree.Covers (tree.graft path changed) := by
  refine graft_induct (fun _ before after => before.Covers after) located here ?_
  intro frame subsystems system _ child other present covers
  refine covers_diagram (fun place context held => ?_)
  rcases Subsystems.of_putContext present held with ⟨rfl, rfl⟩ | kept
  · exact ⟨child, present, covers⟩
  · exact ⟨context, kept, .refl context⟩

theorem covers_receive (tree : Context) (changes : List Change) : tree.Covers (tree.receive changes) := by
  intro path after located
  obtain ⟨found, there, _⟩ := locate_of_receive located
  exact ⟨found, there⟩

end Context

structure Frame.Extends (frame later : Frame) : Prop where
  id : later.id = frame.id
  inputs : frame.inputs <+: later.inputs
  outputs : frame.outputs <+: later.outputs

namespace Frame.Extends

theorem refl (frame : Frame) : frame.Extends frame := ⟨rfl, List.prefix_refl _, List.prefix_refl _⟩

theorem trans {first second third : Frame} (before : first.Extends second) (after : second.Extends third) :
    first.Extends third :=
  ⟨after.id.trans before.id, before.inputs.trans after.inputs, before.outputs.trans after.outputs⟩

theorem of_tables {frame later : Frame} (id : later.id = frame.id) (inputs : later.inputs = frame.inputs)
    (outputs : later.outputs = frame.outputs) : frame.Extends later :=
  ⟨id, inputs ▸ List.prefix_refl _, outputs ▸ List.prefix_refl _⟩

theorem receiveAll (frame : Frame) (changes : List Change) :
    frame.Extends (changes.foldl Frame.receive frame) := by
  obtain ⟨_, _, reached⟩ := frame.receiveAll_eq changes
  rw [reached]
  exact .of_tables rfl rfl rfl

end Frame.Extends

-- Nothing is ever taken away from a context: it keeps its id, its inputs and
-- outputs, and a diagram also its places and the size of their buffers.
def Context.Grows : Context → Context → Prop
  | .leaf own, .leaf later =>
    later.id = own.id ∧ later.inputs.length = own.inputs.length ∧ later.fresh.length = own.fresh.length
  | .diagram frame subsystems, .diagram later others =>
    frame.Extends later ∧ ∀ system buffer, subsystems.buffer? system = some buffer →
      ∃ kept, others.buffer? system = some kept ∧ kept.count = buffer.count
  | _, _ => False

namespace Context

theorem grows_refl (context : Context) : context.Grows context := by
  cases context with
  | leaf own => exact ⟨rfl, rfl, rfl⟩
  | diagram frame subsystems => exact ⟨.refl frame, fun _ buffer held => ⟨buffer, held, rfl⟩⟩

theorem grows_trans {first second third : Context} (before : first.Grows second) (after : second.Grows third) :
    first.Grows third := by
  cases first <;> cases second <;> cases third <;> try exact before.elim
  all_goals try exact after.elim
  · obtain ⟨id, inputs, outputs⟩ := before
    obtain ⟨later, more, rest⟩ := after
    exact ⟨later.trans id, more.trans inputs, rest.trans outputs⟩
  · refine ⟨before.1.trans after.1, ?_⟩
    intro system buffer held
    obtain ⟨middle, there, same⟩ := before.2 system buffer held
    obtain ⟨last, kept, equal⟩ := after.2 system middle there
    exact ⟨last, kept, equal.trans same⟩

theorem Grows.id {context later : Context} (grows : context.Grows later) : later.id = context.id := by
  cases context <;> cases later <;> try exact grows.elim
  · exact grows.1
  · exact grows.1.id

theorem Grows.inputCount {context later : Context} (grows : context.Grows later) :
    context.inputCount ≤ later.inputCount := by
  cases context <;> cases later <;> try exact grows.elim
  · exact Nat.le_of_eq grows.2.1.symm
  · exact grows.1.inputs.length_le

theorem grows_outward (frame : Frame) (subsystems : Subsystems) (system : Nat) (child other : Context)
    (_ : subsystems.context? system = some child) (_ : child.Grows other) :
    (Context.diagram frame subsystems).Grows (.diagram frame (subsystems.putContext system other)) :=
  ⟨.refl frame, fun place buffer held => ⟨buffer, by rw [Subsystems.buffer?_putContext]; exact held, rfl⟩⟩

theorem grows_receive (context : Context) (changes : List Change) : context.Grows (context.receive changes) := by
  cases context with
  | leaf own =>
    rw [receive]
    induction changes generalizing own with
    | nil => exact ⟨rfl, rfl, rfl⟩
    | cons change rest ih =>
      obtain ⟨inputs, outputs⟩ := own.receive_counts change
      have id : (own.receive change).id = own.id := by
        cases change <;> simp only [Leaf.receive] <;> try split
        all_goals rfl
      have first : (Context.leaf own).Grows (.leaf (own.receive change)) := ⟨id, inputs, outputs⟩
      exact grows_trans first (ih _)
  | diagram frame subsystems =>
    refine ⟨Frame.Extends.receiveAll frame changes, ?_⟩
    intro system buffer held
    exact ⟨buffer, by rw [Subsystems.buffer?_receive]; exact held, rfl⟩

end Context

theorem prefix_getElem? {α : Type} {earlier later : List α} (longer : earlier <+: later) {index : Nat} {item : α}
    (found : earlier[index]? = some item) : later[index]? = some item := by
  obtain ⟨rest, rfl⟩ := longer
  obtain ⟨bound, _⟩ := List.getElem?_eq_some_iff.mp found
  rw [List.getElem?_append_left bound, found]

-- Growing without any change of the wires or of what is stored on the outputs.
def Context.Calm : Context → Context → Prop
  | .leaf own, .leaf later => (Context.leaf own).Grows (.leaf later)
  | .diagram frame subsystems, .diagram later others =>
    frame.Extends later ∧ later.wiring = frame.wiring ∧
      ∀ system buffer, subsystems.buffer? system = some buffer → others.buffer? system = some buffer
  | _, _ => False

namespace Context

theorem Calm.grows {context later : Context} (calm : context.Calm later) : context.Grows later := by
  cases context <;> cases later <;> try exact calm.elim
  · exact calm
  · exact ⟨calm.1, fun system buffer held => ⟨buffer, calm.2.2 system buffer held, rfl⟩⟩

theorem calm_refl (context : Context) : context.Calm context := by
  cases context with
  | leaf own => exact grows_refl (.leaf own)
  | diagram frame subsystems => exact ⟨.refl frame, rfl, fun _ _ held => held⟩

theorem calm_outward (frame : Frame) (subsystems : Subsystems) (system : Nat) (child other : Context)
    (_ : subsystems.context? system = some child) (_ : child.Calm other) :
    (Context.diagram frame subsystems).Calm (.diagram frame (subsystems.putContext system other)) :=
  ⟨.refl frame, rfl, fun place buffer held => by rw [Subsystems.buffer?_putContext]; exact held⟩

theorem calm_receive (context : Context) (changes : List Change) : context.Calm (context.receive changes) := by
  cases context with
  | leaf own => exact grows_receive (.leaf own) changes
  | diagram frame subsystems =>
    refine ⟨Frame.Extends.receiveAll frame changes, (Frame.Steady.receiveAll frame changes).wiring, ?_⟩
    intro system buffer held
    rw [Subsystems.buffer?_receive]
    exact held

end Context

def Context.Still (context later : Context) : Prop :=
  context.Calm later ∧ ∀ own, context = .leaf own → later = .leaf own

namespace Context

theorem still_refl (context : Context) : context.Still context := ⟨calm_refl context, fun _ same => same⟩

theorem still_outward (frame : Frame) (subsystems : Subsystems) (system : Nat) (child other : Context)
    (present : subsystems.context? system = some child) (still : child.Still other) :
    (Context.diagram frame subsystems).Still (.diagram frame (subsystems.putContext system other)) :=
  ⟨calm_outward _ _ _ _ _ present still.1, fun _ same => nomatch same⟩

end Context

structure Numbering.Lasting (numbering : Numbering) : Prop where
  leaf : ∀ own later, (Context.leaf own).Grows (.leaf later) → numbering.count later = numbering.count own
  frame : ∀ earlier later index terminal, Frame.Extends earlier later →
    numbering.target? earlier index = some terminal → numbering.target? later index = some terminal

namespace Numbering

theorem lasting_inputs : inputs.Lasting where
  leaf := fun _ _ grows => grows.2.1
  frame := by
    intro earlier later index terminal extended found
    obtain ⟨exposed, held, same⟩ := Option.map_eq_some_iff.mp found
    exact Option.map_eq_some_iff.mpr ⟨exposed, prefix_getElem? extended.inputs held, same⟩

theorem lasting_outputs : outputs.Lasting where
  leaf := fun _ _ grows => grows.2.2
  frame := fun _ _ _ _ extended found => prefix_getElem? extended.outputs found

end Numbering

theorem Context.home?_along {numbering : Numbering} (lasting : numbering.Lasting) {context later : Context}
    {index : Nat} {home : Endpoint} (along : context.Along Grows later)
    (found : context.home? numbering index = some home) : later.home? numbering index = some home := by
  induction context using Context.induct generalizing later index home with
  | leaf own =>
    cases later with
    | diagram => exact along.here.elim
    | leaf later =>
      obtain ⟨bound, rfl⟩ := home?_leaf.mp found
      exact home?_leaf.mpr ⟨by rw [lasting.leaf own later along.here]; exact bound, rfl⟩
  | diagram frame subsystems ih =>
    cases later with
    | leaf => exact along.here.elim
    | diagram later others =>
      obtain ⟨terminal, entered, below⟩ := home?_diagram.mp found
      obtain ⟨child, inner, present, inside, rfl⟩ := Subsystems.terminalHome?_eq_some.mp below
      obtain ⟨other, held, grows⟩ := along.child present
      refine home?_diagram.mpr ⟨terminal, lasting.frame _ _ _ _ along.here.1 entered, ?_⟩
      exact Subsystems.terminalHome?_eq_some.mpr ⟨other, inner, held, ih _ _ present grows inside, rfl⟩

theorem Subsystems.terminalHome?_along {frame later : Frame} {subsystems others : Subsystems} {numbering : Numbering}
    (lasting : numbering.Lasting)
    (along : (Context.diagram frame subsystems).Along Context.Grows (.diagram later others))
    {terminal : Terminal} {home : Endpoint} (found : subsystems.terminalHome? numbering terminal = some home) :
    others.terminalHome? numbering terminal = some home := by
  obtain ⟨child, inner, present, inside, rfl⟩ := Subsystems.terminalHome?_eq_some.mp found
  obtain ⟨other, held, grows⟩ := along.child present
  exact Subsystems.terminalHome?_eq_some.mpr ⟨other, inner, held, Context.home?_along lasting grows inside, rfl⟩

theorem Subsystems.terminalHome?_receive {subsystems : Subsystems} {numbering : Numbering} (lasting : numbering.Lasting)
    (mail : Mail) {terminal : Terminal} {home : Endpoint}
    (found : subsystems.terminalHome? numbering terminal = some home) :
    (subsystems.receive mail).terminalHome? numbering terminal = some home := by
  obtain ⟨child, inner, present, inside, rfl⟩ := Subsystems.terminalHome?_eq_some.mp found
  have arrived := Context.home?_along lasting (Context.along_receive Context.grows_receive child
    (mail.addressed terminal.system)) inside
  exact Subsystems.terminalHome?_eq_some.mpr ⟨_, inner, Subsystems.context?_received present mail, arrived, rfl⟩

end BlockDiagram
