import BlockDiagram.Proofs.Reachable
import BlockDiagram.Proofs.Quiet

namespace BlockDiagram

mutual
def Context.contexts : Context → List Context
  | .leaf own => [.leaf own]
  | .diagram frame subsystems => .diagram frame subsystems :: subsystems.contexts
def Subsystems.contexts : Subsystems → List Context
  | .nil => []
  | .vacant rest => rest.contexts
  | .filled context _ rest => context.contexts ++ rest.contexts
end

theorem Subsystems.mem_contexts {found : Context} (subsystems : Subsystems) :
    found ∈ subsystems.contexts ↔ ∃ system child, subsystems.context? system = some child ∧ found ∈ child.contexts := by
  induction subsystems using row_induct with
  | nil => simp [contexts, context?]
  | vacant rest ih =>
    rw [contexts, ih]
    constructor
    · intro held
      obtain ⟨system, child, present, member⟩ := held
      exact ⟨system + 1, child, present, member⟩
    · intro held
      obtain ⟨system, child, present, member⟩ := held
      cases system with
      | zero => cases present
      | succ system => exact ⟨system, child, present, member⟩
  | filled first _ rest ih =>
    rw [contexts, List.mem_append, ih]
    constructor
    · intro held
      rcases held with here | ⟨system, child, present, member⟩
      · exact ⟨0, first, rfl, here⟩
      · exact ⟨system + 1, child, present, member⟩
    · intro held
      obtain ⟨system, child, present, member⟩ := held
      cases system with
      | zero =>
        cases present
        exact .inl member
      | succ system => exact .inr ⟨system, child, present, member⟩

namespace Context

theorem mem_contexts {tree found : Context} : found ∈ tree.contexts ↔ ∃ path, tree.locate path = .ok found := by
  induction tree using Context.induct with
  | leaf own =>
    rw [contexts, List.mem_singleton]
    constructor
    · rintro rfl
      exact ⟨[], locate_nil _⟩
    · intro found
      obtain ⟨path, located⟩ := found
      exact (locate_leaf located).2
  | diagram frame subsystems ih =>
    rw [contexts, List.mem_cons, Subsystems.mem_contexts]
    constructor
    · rintro (rfl | ⟨system, child, present, member⟩)
      · exact ⟨[], locate_nil _⟩
      · obtain ⟨path, located⟩ := (ih system child present).mp member
        exact ⟨system :: path, locate_cons.mpr ⟨child, present, located⟩⟩
    · rintro ⟨_ | ⟨system, path⟩, located⟩
      · rw [locate_nil] at located
        cases located
        exact .inl rfl
      · obtain ⟨child, present, below⟩ := locate_cons.mp located
        exact .inr ⟨system, child, present, (ih system child present).mpr ⟨path, below⟩⟩

instance {property : Context → Prop} [DecidablePred property] (tree : Context) :
    Decidable (tree.Everywhere property) :=
  decidable_of_iff (∀ found ∈ tree.contexts, property found)
    ⟨fun holds path found located => holds found (mem_contexts.mpr ⟨path, located⟩),
      fun holds found member =>
        have ⟨path, located⟩ := mem_contexts.mp member
        holds path found located⟩

instance (tree other : Context) : Decidable (tree.Apart other) :=
  decidable_of_iff (∀ left ∈ tree.contexts, ∀ right ∈ other.contexts, left.id ≠ right.id)
    ⟨fun apart first second left right one two =>
        apart left (mem_contexts.mpr ⟨first, one⟩) right (mem_contexts.mpr ⟨second, two⟩),
      fun apart left member right there =>
        have ⟨first, one⟩ := mem_contexts.mp member
        have ⟨second, two⟩ := mem_contexts.mp there
        apart first second left right one two⟩

theorem matches_layout {frame : Frame} {subsystems : Subsystems} :
    (Context.diagram frame subsystems).Matches ↔
      ∀ place ∈ subsystems.layout, ∀ outline ∈ place, outline.buffered = outline.outputs := by
  constructor
  · intro fits place member outline held
    obtain ⟨system, found⟩ := List.mem_iff_getElem?.mp member
    have there : subsystems.layout.outline? system = some outline := by
      rw [Layout.outline?, found, held]
      rfl
    rw [Subsystems.outline?_layout] at there
    obtain ⟨child, present, inner⟩ := Option.bind_eq_some_iff.mp there
    obtain ⟨buffer, kept, rfl⟩ := Option.map_eq_some_iff.mp inner
    exact fits system child buffer present kept
  · intro same system child buffer present held
    have there : subsystems.layout.outline? system = some ⟨child.outputCount, buffer.count⟩ := by
      rw [Subsystems.outline?_layout, present, held]
      rfl
    exact same _ (List.mem_of_getElem? (Option.join_eq_some_iff.mp there)) _ rfl

instance : DecidablePred Matches
  | .leaf _ => isTrue trivial
  | .diagram _ _ => decidable_of_iff _ matches_layout.symm

instance : DecidablePred Finished
  | .leaf _ => isTrue trivial
  | .diagram frame _ => inferInstanceAs (Decidable (frame.phase = .sealed))

instance (tree : Context) : Decidable tree.Matched := inferInstanceAs (Decidable (tree.Everywhere Matches))

instance (tree : Context) : Decidable tree.Sealed := inferInstanceAs (Decidable (tree.Everywhere Finished))

instance (subsystems : Subsystems) (terminal : Terminal) : Decidable (subsystems.HasInput terminal) :=
  decidable_of_iff ((subsystems.context? terminal.system).any (terminal.index < ·.inputCount) = true)
    (by simp only [Option.any_eq_true, decide_eq_true_eq]; rfl)

instance (subsystems : Subsystems) (terminal : Terminal) : Decidable (subsystems.HasOutput terminal) :=
  decidable_of_iff ((subsystems.buffer? terminal.system).any (terminal.index < ·.count) = true)
    (by simp only [Option.any_eq_true, decide_eq_true_eq]; rfl)

theorem context_get {context : Context} (drawn : context.diagram?.isSome) :
    (context.diagram?.get drawn).context = context := by
  cases context with
  | leaf own => cases drawn
  | diagram frame subsystems => rfl

-- What a series of operations leaves of a tree, those that are aborted left out.
def actAll (tree : Context) (steps : List (List Nat × Operation)) : Context :=
  steps.foldl (fun tree step => (tree.act step.1 step.2).left?.getD tree) tree

def joined (tree : Context) (path : List Nat) (system : Nat) (other : Context) (buffer : OutputBuffer) : Context :=
  (tree.adopt path system other buffer).left?.getD tree

end Context

namespace Built
variable {rules : Rules} {tree other : Context}

theorem actAll (built : Built rules tree) (steps : List (List Nat × Operation))
    (permitted : ∀ step ∈ steps, rules.permits step.2) : Built rules (tree.actAll steps) := by
  induction steps generalizing tree with
  | nil => exact built
  | cons step rest ih =>
    refine ih ?_ (fun other member => permitted other (List.mem_cons_of_mem _ member))
    dsimp only
    cases acted : (tree.act step.1 step.2).left? with
    | none => exact built
    | some after => exact built.act (permitted step List.mem_cons_self) acted

theorem joined (built : Built rules tree) (joining : Built rules other) (apart : tree.Apart other) (path : List Nat)
    (system : Nat) (buffer : OutputBuffer) : Built rules (tree.joined path system other buffer) := by
  unfold Context.joined
  cases adopted : (tree.adopt path system other buffer).left? with
  | none => exact built
  | some after => exact built.adopt joining apart adopted

end Built
end BlockDiagram
