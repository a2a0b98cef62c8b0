import BlockDiagram.Proofs.Clearing
import BlockDiagram.Proofs.Entries

namespace BlockDiagram

namespace Context

-- Where the way of an input, output or entry of a context leads, the context itself
-- included. It need not have come to an end.
inductive Routes (numbering : Numbering) : Context → Nat → Endpoint → Prop where
  | here {context : Context} {index : Nat} : Routes numbering context index ⟨[], index⟩
  | into {frame : Frame} {subsystems : Subsystems} {index : Nat} {terminal : Terminal} {child : Context}
    {place : Endpoint} (entered : numbering.target? frame index = some terminal)
    (present : subsystems.context? terminal.system = some child) (onward : Routes numbering child terminal.index place) :
    Routes numbering (.diagram frame subsystems) index (place.under terminal.system)

end Context

def Subsystems.Routes (numbering : Numbering) (subsystems : Subsystems) (terminal : Terminal) (place : Endpoint) : Prop :=
  ∃ child inner, subsystems.context? terminal.system = some child ∧
    child.Routes numbering terminal.index inner ∧ place = inner.under terminal.system

theorem Endpoint.beneath_cons (inner : Endpoint) (system : Nat) (front : List Nat) :
    inner.beneath (system :: front) = (inner.beneath front).under system := rfl

theorem Endpoint.under_eq {inner : Endpoint} {system place index : Nat} {path : List Nat} :
    inner.under system = ⟨place :: path, index⟩ ↔ system = place ∧ inner = ⟨path, index⟩ := by
  cases inner
  simp [under, and_assoc]

namespace Context
variable {numbering : Numbering} {frame : Frame} {subsystems : Subsystems} {context found : Context}
  {changes : List Change} {path : List Nat} {index : Nat} {place home : Endpoint}

theorem routes_top {inner : Nat} (routed : context.Routes numbering index ⟨[], inner⟩) : inner = index := by
  generalize top : (⟨[], inner⟩ : Endpoint) = target at routed
  cases routed with
  | here => exact congrArg Endpoint.index top
  | into => cases top

theorem routes_under {system inner : Nat} :
    (Context.diagram frame subsystems).Routes numbering index ⟨system :: path, inner⟩ ↔
      ∃ outer child, numbering.target? frame index = some ⟨system, outer⟩ ∧ subsystems.context? system = some child ∧
        child.Routes numbering outer ⟨path, inner⟩ := by
  constructor
  · intro routed
    generalize below : (⟨system :: path, inner⟩ : Endpoint) = target at routed
    cases routed with
    | here => cases below
    | into entered present onward =>
      obtain ⟨rfl, rfl⟩ := Endpoint.under_eq.mp below.symm
      exact ⟨_, _, entered, present, onward⟩
  · rintro ⟨outer, child, entered, present, onward⟩
    exact .into entered present onward

theorem routes_leaf {own : Leaf} : (Context.leaf own).Routes numbering index place ↔ place = ⟨[], index⟩ := by
  constructor
  · intro routed
    cases routed
    rfl
  · rintro rfl
    exact .here

theorem Routes.located (routed : context.Routes numbering index place) :
    ∃ found, context.locate place.path = .ok found := by
  induction routed with
  | here => exact ⟨_, locate_nil _⟩
  | into _ present _ ih =>
    obtain ⟨found, located⟩ := ih
    exact ⟨found, locate_cons.mpr ⟨_, present, located⟩⟩

theorem home?_iff : context.home? numbering index = some home ↔ context.Routes numbering index home ∧
    ∃ own, context.locate home.path = .ok (.leaf own) ∧ home.index < numbering.count own := by
  constructor
  · intro found
    refine ⟨?_, locate_home found⟩
    induction context using Context.induct generalizing index home with
    | leaf own =>
      obtain ⟨_, rfl⟩ := home?_leaf.mp found
      exact .here
    | diagram frame subsystems ih =>
      obtain ⟨terminal, entered, below⟩ := home?_diagram.mp found
      obtain ⟨child, inner, present, inside, rfl⟩ := Subsystems.terminalHome?_eq_some.mp below
      exact .into entered present (ih _ _ present inside)
  · rintro ⟨routed, own, located, bound⟩
    induction routed with
    | here =>
      rw [locate_nil] at located
      cases located
      exact home?_leaf.mpr ⟨bound, rfl⟩
    | into entered present _ ih =>
      obtain ⟨child, there, below⟩ := locate_cons.mp located
      cases present.symm.trans there
      exact home?_diagram.mpr ⟨_, entered, Subsystems.terminalHome?_eq_some.mpr ⟨_, _, present, ih below bound, rfl⟩⟩

theorem Routes.input_bound (sound : context.WellFormed) (routed : context.Routes .inputs index place)
    (bound : index < context.inputCount) (located : context.locate place.path = .ok found) :
    place.index < found.inputCount := by
  induction routed with
  | here =>
    rw [locate_nil] at located
    cases located
    exact bound
  | into entered present _ ih =>
    obtain ⟨exposed, held, rfl⟩ := Frame.target?_inputs.mp entered
    obtain ⟨child, there, inside⟩ := sound.frame.exposed exposed (List.mem_of_getElem? (Frame.input_eq_ok.mp held))
    cases present.symm.trans there
    obtain ⟨other, held, below⟩ := locate_cons.mp located
    cases present.symm.trans held
    exact ih (sound.child present) inside below

theorem mailTo_from {tree : Context} {front : List Nat} (located : tree.locate front = .ok found)
    (changes : List Change) (back : List Nat) :
    tree.mailTo changes (front ++ back) = found.mailTo (tree.mailTo changes front) back := by
  induction front generalizing tree changes with
  | nil =>
    rw [locate_nil] at located
    cases located
    rw [mailTo_nil]
    rfl
  | cons system front ih =>
    cases tree with
    | leaf => cases located
    | diagram frame subsystems =>
      obtain ⟨child, present, below⟩ := locate_cons.mp located
      rw [List.cons_append, mailTo_cons present, mailTo_cons present, ih below]

end Context

-- A change that diagrams hand on through one of their tables, and that none of
-- them makes of anything else it is given.
def Numbering.Hands (numbering : Numbering) (change : Nat → Change) : Prop :=
  ∀ (frame : Frame) (layout : Layout) (cause : Change) (terminal : Terminal),
    frame.Passed layout cause (terminal.system, change terminal.index) ↔
      ∃ outer, cause = change outer ∧ numbering.target? frame outer = some terminal

namespace Numbering

theorem hands_invalidateInput : inputs.Hands .invalidateInput := by
  rintro frame layout cause ⟨system, index⟩
  constructor
  · intro passed
    cases passed with
    | invalidateInput entered => exact ⟨_, rfl, entered⟩
  · rintro ⟨outer, rfl, entered⟩
    exact .invalidateInput entered

theorem hands_mark (fresh : Bool) : outputs.Hands (.mark · fresh) := by
  rintro frame layout cause ⟨system, index⟩
  constructor
  · intro passed
    cases passed with
    | mark entered => exact ⟨_, rfl, entered⟩
  · rintro ⟨outer, rfl, entered⟩
    exact .mark entered

theorem hands_openEntry (partition : Partition) : (entries partition).Hands (.openEntry partition) := by
  rintro frame layout cause ⟨system, index⟩
  constructor
  · intro passed
    cases passed with
    | openEntry entered => exact ⟨_, rfl, entered⟩
  · rintro ⟨outer, rfl, entered⟩
    exact .openEntry entered

end Numbering

def Context.Propagates (tree : Context) (changes : List Change) (numbering : Numbering) (change : Nat → Change)
    (place : Endpoint) : Prop :=
  ∃ front frame subsystems, tree.locate front = .ok (.diagram frame subsystems) ∧
    ∃ cause ∈ tree.mailTo changes front, ∃ terminal inner,
      (terminal.system, change terminal.index) ∈ frame.ripple subsystems.layout (frame.disturbed subsystems.layout cause) ∧
        subsystems.Routes numbering terminal inner ∧ place = inner.beneath front

namespace Context
variable {numbering : Numbering} {change : Nat → Change} {tree : Context} {changes : List Change} {path : List Nat}
  {index : Nat}

theorem propagates_cons {frame : Frame} {subsystems : Subsystems} {child : Context} {system : Nat}
    (present : subsystems.context? system = some child) :
    (Context.diagram frame subsystems).Propagates changes numbering change ⟨system :: path, index⟩ ↔
      (∃ outer, (∃ cause ∈ changes, (system, change outer) ∈
          frame.ripple subsystems.layout (frame.disturbed subsystems.layout cause)) ∧
        child.Routes numbering outer ⟨path, index⟩) ∨
      child.Propagates (Mail.addressed (changes.flatMap (frame.mail subsystems.layout)) system) numbering change
        ⟨path, index⟩ := by
  constructor
  · rintro ⟨front, around, others, located, cause, given, terminal, inner, sent, ⟨other, last, there, onward, rfl⟩, equal⟩
    cases front with
    | nil =>
      rw [locate_nil] at located
      cases located
      rw [mailTo_nil] at given
      obtain ⟨rfl, rfl⟩ := Endpoint.under_eq.mp equal.symm
      cases present.symm.trans there
      exact .inl ⟨_, ⟨cause, given, sent⟩, onward⟩
    | cons step front =>
      rw [Endpoint.beneath_cons] at equal
      obtain ⟨rfl, rest⟩ := Endpoint.under_eq.mp equal.symm
      obtain ⟨held, same, below⟩ := locate_cons.mp located
      cases present.symm.trans same
      rw [mailTo_cons present] at given
      exact .inr ⟨front, around, others, below, cause, given, terminal, _, sent, ⟨other, last, there, onward, rfl⟩, rest.symm⟩
  · rintro (⟨outer, ⟨cause, given, sent⟩, onward⟩ | ⟨front, around, others, below, cause, given, terminal, inner, sent, routed, equal⟩)
    · refine ⟨[], frame, subsystems, locate_nil _, cause, ?_, ⟨system, outer⟩, _, sent, ⟨child, _, present, onward, rfl⟩, rfl⟩
      rw [mailTo_nil]
      exact given
    · refine ⟨system :: front, around, others, locate_cons.mpr ⟨child, present, below⟩, cause, ?_, terminal, inner, sent,
        routed, ?_⟩
      · rw [mailTo_cons present]
        exact given
      · rw [Endpoint.beneath_cons, ← equal]
        rfl

-- Such a change arrives where its way leads from above, and where a diagram on the
-- way there has propagated it.
theorem mem_mailTo (hands : numbering.Hands change) :
    change index ∈ tree.mailTo changes path ↔
      (∃ outer, change outer ∈ changes ∧ tree.Routes numbering outer ⟨path, index⟩) ∨
        tree.Propagates changes numbering change ⟨path, index⟩ := by
  induction path generalizing tree changes with
  | nil =>
    rw [mailTo_nil]
    constructor
    · exact fun given => .inl ⟨index, given, .here⟩
    · rintro (⟨outer, given, routed⟩ | ⟨front, _, _, _, _, _, _, _, _, ⟨_, _, _, _, rfl⟩, equal⟩)
      · rw [routes_top routed]
        exact given
      · have empty : [] = front ++ _ := congrArg Endpoint.path equal
        exact absurd (List.append_eq_nil_iff.mp empty.symm).2 (List.cons_ne_nil _ _)
  | cons system path ih =>
    cases tree with
    | leaf own =>
      simp only [mailTo, List.not_mem_nil, routes_leaf, false_iff]
      rintro (⟨_, _, equal⟩ | ⟨front, _, _, located, _⟩)
      · cases equal
      · cases (locate_leaf located).2
    | diagram frame subsystems =>
      cases present : subsystems.context? system with
      | none =>
        simp only [mailTo, present, List.not_mem_nil, false_iff]
        have vacant : ∀ found, (Context.diagram frame subsystems).locate (system :: path) ≠ .ok found := by
          intro found located
          obtain ⟨_, there, _⟩ := locate_cons.mp located
          cases present.symm.trans there
        rintro (⟨_, _, routed⟩ | ⟨front, around, others, located, _, _, terminal, inner, _, ⟨child, last, there, onward, rfl⟩, equal⟩)
        · obtain ⟨found, located⟩ := routed.located
          exact vacant found located
        · obtain ⟨found, below⟩ := onward.located
          have whole := (locate_append located).mpr (locate_cons.mpr ⟨child, there, below⟩)
          have same : system :: path = front ++ terminal.system :: last.path := congrArg Endpoint.path equal
          rw [← same] at whole
          exact vacant found whole
      | some child =>
        rw [mailTo_cons present, ih, propagates_cons present]
        simp only [mem_addressed_mail, routes_under]
        constructor
        · rintro (⟨inner, ⟨cause, given, sent⟩, onward⟩ | below)
          · rcases Frame.mem_mail.mp sent with passed | spread
            · obtain ⟨outer, rfl, entered⟩ := (hands frame _ cause ⟨system, inner⟩).mp passed
              exact .inl ⟨outer, given, inner, child, entered, present, onward⟩
            · exact .inr (.inl ⟨inner, ⟨cause, given, spread⟩, onward⟩)
          · exact .inr (.inr below)
        · rintro (⟨outer, given, inner, other, entered, there, onward⟩ | ⟨inner, ⟨cause, given, spread⟩, onward⟩ | below)
          · cases present.symm.trans there
            refine .inl ⟨inner, ⟨_, given, Frame.mem_mail.mpr (.inl ?_)⟩, onward⟩
            exact (hands frame _ _ ⟨system, inner⟩).mpr ⟨outer, rfl, entered⟩
          · exact .inl ⟨inner, ⟨cause, given, Frame.mem_mail.mpr (.inr spread)⟩, onward⟩
          · exact .inr below

-- A leaf in a diagram that exposes its input twice, fed by a leaf in front of the
-- diagram and feeding one behind it.
def doubled : Context :=
  ((Diagram.create ⟨1⟩ 1 .sequential).context.joined [] 0 (.leaf (.create ⟨0⟩ ⟨1, 1, 0, []⟩ [.int32 1])) ⟨[none]⟩).actAll
    [([], .exposeInput ⟨0, 0⟩), ([], .exposeInput ⟨0, 0⟩), ([], .exposeOutput ⟨0, 0⟩), ([], .finishBuilding)]

def cascade : Context :=
  ((((Diagram.create ⟨4⟩ 3 .sequential).context.joined [] 0 (.leaf (.create ⟨2⟩ ⟨0, 1, 0, []⟩ [])) ⟨[none]⟩).joined [] 1
    doubled ⟨[none]⟩).joined [] 2 (.leaf (.create ⟨3⟩ ⟨1, 1, 0, []⟩ [])) ⟨[none]⟩).actAll
    [([], .connect ⟨0, 0⟩ ⟨1, 0⟩), ([], .connect ⟨1, 0⟩ ⟨2, 0⟩), ([], .exposeInput ⟨1, 1⟩), ([], .finishBuilding)]

theorem doubled_built : Built .any doubled :=
  (Built.diagram.joined .leaf (by decide) [] 0 ⟨[none]⟩).actAll _ (fun _ _ => trivial)

theorem cascade_built : Built .any cascade :=
  (((Built.diagram.joined .leaf (by decide) [] 0 ⟨[none]⟩).joined doubled_built (by decide) [] 1 ⟨[none]⟩).joined
    .leaf (by decide) [] 2 ⟨[none]⟩).actAll _ (fun _ _ => trivial)

theorem cascade_matched : cascade.Matched := by decide

theorem cascade_sealed : cascade.Sealed := by decide

end Context
end BlockDiagram
