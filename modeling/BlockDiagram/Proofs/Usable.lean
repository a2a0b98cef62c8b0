import BlockDiagram.Proofs.Sweep

namespace BlockDiagram

namespace Context

theorem leaf_overmarked {own : Leaf} {index : Nat} (beyond : ¬ index < own.fresh.length) (fresh : Bool) :
    (Context.leaf own).verdict (.mark index fresh) = .aborted (.outputOutOfRange index own.fresh.length) :=
  if_neg beyond

end Context

theorem Leaf.isFresh_bounded {own : Leaf} {index : Nat} (bound : index < own.fresh.length) :
    own.isFresh index = .ok own.fresh[index] := by
  simp only [isFresh, List.getElem?_eq_getElem bound]

theorem Leaf.isFresh_beyond {own : Leaf} {index : Nat} (beyond : ¬ index < own.fresh.length) :
    own.isFresh index = .error (.outputOutOfRange index own.fresh.length) := by
  simp only [isFresh, List.getElem?_eq_none (Nat.le_of_not_lt beyond)]

theorem Leaf.isFresh_marked {own : Leaf} {index : Nat} (bound : index < own.fresh.length) (fresh : Bool) :
    (own.receive (.mark index fresh)).isFresh index = .ok fresh := by
  simp [isFresh, receive, bound]

theorem Subsystems.send_aborted {subsystems : Subsystems} {system : Nat} {child : Context} {change : Change}
    {fault : Fault} (present : subsystems.context? system = some child) (objection : child.verdict change = .aborted fault) :
    subsystems.send system change = .aborted fault := by
  simp only [send, context_eq_ok.mpr present, Context.send, objection, Outcome.within]

namespace Diagram
variable {diagram : Diagram} {output : Terminal} {own : Leaf}

def Flat (diagram : Diagram) : Prop :=
  ∀ system child, diagram.subsystems.context? system = some child → ∃ own, child = .leaf own

def Declared (diagram : Diagram) (output : Terminal) : Prop := output ∈ diagram.layout.declaredBy output.system

instance : Decidable (diagram.Declared output) :=
  inferInstanceAs (Decidable (output ∈ diagram.layout.declaredBy output.system))

instance : Decidable diagram.Flat :=
  decidable_of_iff (∀ found ∈ diagram.subsystems.contexts, found.leaf?.isSome) <| by
    constructor
    · intro leaves system child present
      have member := (diagram.subsystems.mem_contexts).mpr
        ⟨system, child, present, Context.mem_contexts.mpr ⟨[], Context.locate_nil _⟩⟩
      cases child with
      | leaf own => exact ⟨own, rfl⟩
      | diagram => cases leaves _ member
    · intro flat found member
      obtain ⟨system, child, present, inside⟩ := diagram.subsystems.mem_contexts.mp member
      obtain ⟨own, rfl⟩ := flat system child present
      cases List.mem_singleton.mp inside
      rfl

theorem declared_leaf (present : diagram.subsystems.context? output.system = some (.leaf own)) :
    diagram.Declared output ↔ output.index < own.fresh.length := by
  rw [Declared, layout, Subsystems.mem_declaredBy present]
  exact and_iff_right rfl

theorem Flat.leaf (flat : diagram.Flat) (has : diagram.subsystems.HasOutput output) :
    ∃ buffer own, diagram.subsystems.buffer? output.system = some buffer ∧ output.index < buffer.count ∧
      diagram.subsystems.context? output.system = some (.leaf own) := by
  obtain ⟨buffer, held, bound⟩ := has
  obtain ⟨child, present⟩ := Subsystems.context?_of_buffer? held
  obtain ⟨own, rfl⟩ := flat _ child present
  exact ⟨buffer, own, held, bound, present⟩

theorem Flat.willing (flat : diagram.Flat) : diagram.subsystems.Willing := by
  intro system child present change fits
  obtain ⟨own, rfl⟩ := flat system child present
  exact Context.leaf_fits fits

theorem setOutput_declared (sound : diagram.context.WellFormed) (flat : diagram.Flat)
    (closed : diagram.frame.phase = .sealed) {buffer : OutputBuffer}
    (held : diagram.subsystems.buffer? output.system = some buffer) (bound : output.index < buffer.count)
    (present : diagram.subsystems.context? output.system = some (.leaf own))
    (declared : output.index < own.fresh.length) (value : Value) :
    ∃ after, diagram.setOutput output value = .done (diagram.frame.reachedOutputs diagram.layout [output]) after ∧
      after.subsystems.output? output = some value ∧ after.subsystems.UpToDate output := by
  let told := (diagram.frame.ripple diagram.layout [output]).addressed output.system
  have inside : output.index < (told.foldl Leaf.receive own).fresh.length := by
    rw [Leaf.outputs_receiveAll]
    exact declared
  have accepted : (Context.leaf (told.foldl Leaf.receive own)).verdict (.mark output.index true) = .accepted :=
    Context.leaf_fits inside
  have stored := context?_stored (buffer.write output.index (some value))
    (diagram.frame.ripple diagram.layout [output]) present
  have done := setOutput_willing sound flat.willing closed value held bound
  rw [Subsystems.send_eq stored accepted] at done
  refine ⟨_, done, ?_, _, Subsystems.context?_received stored _, ?_, ?_⟩
  · show Subsystems.output? (Subsystems.receive (Subsystems.receive _ _) _) output = _
    rw [Subsystems.output?_receive, Subsystems.output?_receive, Subsystems.output?_write _ held bound, if_pos rfl]
  · rw [Context.outputCount_receive]
    exact inside
  · rw [Mail.addressed_single, if_pos rfl]
    exact Leaf.isFresh_marked inside true

theorem setOutput_undeclared (sound : diagram.context.WellFormed) (flat : diagram.Flat)
    (closed : diagram.frame.phase = .sealed) {buffer : OutputBuffer}
    (held : diagram.subsystems.buffer? output.system = some buffer) (bound : output.index < buffer.count)
    (present : diagram.subsystems.context? output.system = some (.leaf own))
    (beyond : ¬ output.index < own.fresh.length) (value : Value) :
    diagram.setOutput output value = .aborted (.outputOutOfRange output.index own.fresh.length) := by
  let told := (diagram.frame.ripple diagram.layout [output]).addressed output.system
  have count : (told.foldl Leaf.receive own).fresh.length = own.fresh.length := Leaf.outputs_receiveAll _ _
  have objection := @Context.leaf_overmarked (told.foldl Leaf.receive own) output.index (by rwa [count]) true
  rw [count] at objection
  have stored := context?_stored (buffer.write output.index (some value))
    (diagram.frame.ripple diagram.layout [output]) present
  rw [setOutput_willing sound flat.willing closed value held bound, Subsystems.send_aborted stored objection]
  rfl

end Diagram

namespace Context
variable {frame : Frame} {subsystems : Subsystems} {index : Nat} {output : Terminal}

theorem home?_exported {own : Leaf} (exported : frame.outputs[index]? = some output)
    (present : subsystems.context? output.system = some (.leaf own)) (declared : output.index < own.fresh.length) :
    (Context.diagram frame subsystems).home? .outputs index = some ⟨[output.system], output.index⟩ :=
  home?_diagram.mpr ⟨output, exported, Subsystems.terminalHome?_eq_some.mpr
    ⟨.leaf own, ⟨[], output.index⟩, present, home?_leaf.mpr ⟨declared, rfl⟩, rfl⟩⟩

theorem exported_declared {own : Leaf} (exported : frame.outputs[index]? = some output)
    (present : subsystems.context? output.system = some (.leaf own)) (declared : output.index < own.fresh.length) :
    (∃ fresh, (Context.diagram frame subsystems).isFresh index = .ok fresh) ∧ ∀ fresh, ∃ after,
      (Context.diagram frame subsystems).send (.mark index fresh) = .done () after ∧ after.isFresh index = .ok fresh := by
  refine ⟨⟨_, (isFresh_diagram exported present).trans (Leaf.isFresh_bounded declared)⟩, fun fresh => ?_⟩
  have home := home?_exported exported present declared
  have accepted : (Context.diagram frame subsystems).verdict (.mark index fresh) = .accepted := by
    rw [verdict_mark exported, Subsystems.verdict_present present]
    exact leaf_fits declared
  refine ⟨(Context.diagram frame subsystems).receive [.mark index fresh], by rw [send, accepted], ?_⟩
  rw [isFresh_mark fresh home home, if_pos rfl]

theorem exported_undeclared {own : Leaf} (exported : frame.outputs[index]? = some output)
    (present : subsystems.context? output.system = some (.leaf own)) (beyond : ¬ output.index < own.fresh.length) :
    (Context.diagram frame subsystems).isFresh index = .error (.outputOutOfRange output.index own.fresh.length) ∧
      ∀ fresh, (Context.diagram frame subsystems).send (.mark index fresh) =
        .aborted (.outputOutOfRange output.index own.fresh.length) := by
  refine ⟨(isFresh_diagram exported present).trans (Leaf.isFresh_beyond beyond), fun fresh => ?_⟩
  have objection : (Context.diagram frame subsystems).verdict (.mark index fresh) =
      .aborted (.outputOutOfRange output.index own.fresh.length) := by
    rw [verdict_mark exported, Subsystems.verdict_present present]
    exact leaf_overmarked beyond fresh
  rw [send, objection]

end Context

-- One leaf with one output, and buffers for two, both of them exported.
def Context.surplus : Context :=
  ((Diagram.create ⟨1⟩ 1 .sequential).context.joined [] 0 (.leaf (.create ⟨0⟩ ⟨0, 1, 0, []⟩ [])) ⟨[none, none]⟩).actAll
    [([], .exposeOutput ⟨0, 0⟩), ([], .exposeOutput ⟨0, 1⟩), ([], .finishBuilding)]

theorem Context.surplus_built : Built .any surplus :=
  (Built.diagram.joined .leaf (by decide) [] 0 ⟨[none, none]⟩).actAll _ (fun _ _ => trivial)

def Diagram.surplus : Diagram := Context.surplus.diagram?.get (by decide)

theorem Diagram.surplus_built : Built .any Diagram.surplus.context := by
  rw [surplus, Context.context_get]
  exact Context.surplus_built

namespace Built
open Context
variable {rules : Rules} {tree : Context} {path : List Nat} {diagram : Diagram}

-- In a finished diagram of leaves an output that was accepted can be used exactly
-- if it is declared: it can be stored, and where it is exported it can be read and
-- marked. If it is not, the attempt is aborted, a store only when all else is done.
theorem usable_iff_declared (built : Built rules tree) (located : tree.locate path = .ok diagram.context)
    (closed : diagram.frame.phase = .sealed) (flat : diagram.Flat) :
    (∀ output, diagram.subsystems.HasOutput output → ∀ value,
      (diagram.Declared output → ∃ changed after, diagram.setOutput output value = .done changed after ∧
        after.subsystems.output? output = some value ∧ after.subsystems.UpToDate output) ∧
      (¬ diagram.Declared output → ∃ count,
        diagram.setOutput output value = .aborted (.outputOutOfRange output.index count))) ∧
    ∀ index output, diagram.frame.outputs[index]? = some output →
      (diagram.Declared output → (∃ fresh, diagram.context.isFresh index = .ok fresh) ∧
        ∀ fresh, ∃ after, diagram.context.send (.mark index fresh) = .done () after ∧ after.isFresh index = .ok fresh) ∧
      (¬ diagram.Declared output → ∃ count,
        diagram.context.isFresh index = .error (.outputOutOfRange output.index count) ∧
        ∀ fresh, diagram.context.send (.mark index fresh) = .aborted (.outputOutOfRange output.index count)) := by
  obtain ⟨sound, frame⟩ := built.frame_sound located
  refine ⟨fun output has value => ?_, fun index output exported => ?_⟩
  · obtain ⟨buffer, own, held, bound, present⟩ := flat.leaf has
    rw [Diagram.declared_leaf present]
    refine ⟨fun declared => ?_, fun beyond => ?_⟩
    · exact ⟨_, Diagram.setOutput_declared sound flat closed held bound present declared value⟩
    · exact ⟨_, Diagram.setOutput_undeclared sound flat closed held bound present beyond value⟩
  · obtain ⟨_, own, _, _, present⟩ := flat.leaf (frame.exported output (List.mem_of_getElem? exported))
    rw [Diagram.declared_leaf present]
    refine ⟨fun declared => ?_, fun beyond => ?_⟩
    · exact exported_declared exported present declared
    · exact ⟨_, exported_undeclared exported present beyond⟩

theorem usable_iff_declared_surplus :
    ∃ diagram : Diagram, Built .any diagram.context ∧ diagram.frame.phase = .sealed ∧ diagram.Flat ∧
      diagram.subsystems.HasOutput ⟨0, 0⟩ ∧ diagram.frame.outputs[0]? = some ⟨0, 0⟩ ∧ diagram.Declared ⟨0, 0⟩ ∧
      (∃ changed after, diagram.setOutput ⟨0, 0⟩ (.int32 1) = .done changed after ∧
        after.subsystems.output? ⟨0, 0⟩ = some (.int32 1) ∧ after.subsystems.UpToDate ⟨0, 0⟩) ∧
      ∀ fresh, ∃ after, diagram.context.send (.mark 0 fresh) = .done () after ∧ after.isFresh 0 = .ok fresh := by
  have built := Diagram.surplus_built
  have closed : Diagram.surplus.frame.phase = .sealed := by decide
  have flat : Diagram.surplus.Flat := by decide
  have has : Diagram.surplus.subsystems.HasOutput ⟨0, 0⟩ := by decide
  have exported : Diagram.surplus.frame.outputs[0]? = some ⟨0, 0⟩ := by decide
  have declared : Diagram.surplus.Declared ⟨0, 0⟩ := by decide
  obtain ⟨stores, marks⟩ := usable_iff_declared built (locate_nil _) closed flat
  exact ⟨_, built, closed, flat, has, exported, declared, (stores _ has _).1 declared,
    ((marks 0 _ exported).1 declared).2⟩

-- The output beyond is accepted everywhere and can be used nowhere.
theorem accepted_unusable :
    ∃ diagram : Diagram, Built .any diagram.context ∧ diagram.frame.phase = .sealed ∧ diagram.Flat ∧
      diagram.subsystems.HasOutput ⟨0, 1⟩ ∧ diagram.frame.outputs[1]? = some ⟨0, 1⟩ ∧
      diagram.setOutput ⟨0, 1⟩ (.int32 1) = .aborted (.outputOutOfRange 1 1) ∧
      diagram.context.isFresh 1 = .error (.outputOutOfRange 1 1) ∧
      ∀ fresh, diagram.context.send (.mark 1 fresh) = .aborted (.outputOutOfRange 1 1) :=
  ⟨Diagram.surplus, Diagram.surplus_built, by decide, by decide, by decide, by decide, rfl, rfl, fun _ => rfl⟩

end Built
end BlockDiagram
