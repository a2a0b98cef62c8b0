import BlockDiagram.Proofs.Inventory

namespace BlockDiagram
open Relation

namespace Wiring
variable {wiring : Wiring} {output input : Terminal}

-- The wires there are once the one into `input` is dropped and the new one drawn.
def Rerouted (wiring : Wiring) (output input source target : Terminal) : Prop :=
  if target = input then source = output else wiring.source? target = some source

def ClosesLoop (wiring : Wiring) (output input : Terminal) : Prop :=
  ∃ system, TransGen (fun before after => ∃ source target, wiring.Rerouted output input source target ∧
    source.system = before ∧ target.system = after) system system

instance (source target : Terminal) : Decidable (wiring.Rerouted output input source target) :=
  inferInstanceAs (Decidable (if target = input then source = output else wiring.source? target = some source))

theorem source?_connect_iff {source target : Terminal} :
    (wiring.connect output input).source? target = some source ↔ wiring.Rerouted output input source target := by
  rw [source?_connect, Rerouted]
  split
  · simp [eq_comm]
  · rfl

theorem closesLoop_connect : wiring.ClosesLoop output input ↔ ¬ (wiring.connect output input).Acyclic := by
  have same : (wiring.connect output input).Feeds = fun before after => ∃ source target,
      wiring.Rerouted output input source target ∧ source.system = before ∧ target.system = after := by
    funext before after
    simp only [Feeds, source?_connect_iff]
  simp only [ClosesLoop, Acyclic, same, Classical.not_forall, Classical.not_not]

theorem feeds_connect : (wiring.connect output input).Feeds output.system input.system :=
  ⟨output, input, source?_connect_iff.mpr (by rw [Rerouted, if_pos rfl]), rfl, rfl⟩

-- What the end of the new wire leads to without loops is led to past the wire
-- that gives way.
theorem Acyclic.reroute (acyclic : wiring.Acyclic) {system : Nat}
    (path : ReflTransGen wiring.Feeds input.system system) :
    ReflTransGen (wiring.connect output input).Feeds input.system system := by
  induction path with
  | refl => exact .refl
  | tail path edge ih =>
    obtain ⟨source, target, wired, rfl, rfl⟩ := edge
    have kept : target ≠ input := by
      rintro rfl
      exact acyclic _ (.tail' path ⟨source, target, wired, rfl, rfl⟩)
    apply ih.tail
    refine ⟨source, target, source?_connect_iff.mpr ?_, rfl, rfl⟩
    rw [Rerouted, if_neg kept]
    exact wired

theorem Acyclic.closesLoop_iff (acyclic : wiring.Acyclic) :
    wiring.ClosesLoop output input ↔ ReflTransGen wiring.Feeds input.system output.system := by
  rw [closesLoop_connect]
  constructor
  · intro looped
    apply Classical.byContradiction
    intro apart
    exact looped (acyclic.connect apart)
  · intro path free
    exact free input.system (.tail' (acyclic.reroute path) feeds_connect)

end Wiring

theorem Context.verdict_bind {context : Context} (sound : context.WellFormed) (matched : context.Matched)
    {index : Nat} (bound : index < context.inputCount) (binding : Option Binding) :
    context.verdict (.bind index binding) = .accepted := by
  induction context using Context.induct generalizing index with
  | leaf own => exact if_pos bound
  | diagram frame subsystems ih =>
    have inside : index < frame.inputs.length := bound
    have own : frame.verdict (.bind index binding) = .accepted := by
      simp only [Frame.verdict, Frame.input, List.getElem?_eq_getElem inside]
    rw [verdict_diagram _ _ _ own]
    refine Verdict.all_accepted.mpr (fun verdict member => ?_)
    obtain ⟨item, sent, rfl⟩ := List.mem_map.mp member
    rcases Frame.mem_mail.mp sent with passed | spread
    · cases passed with
      | bind entered =>
        obtain ⟨exposed, found, rfl⟩ := Frame.target?_inputs.mp entered
        obtain ⟨child, present, bound⟩ := sound.frame.exposed exposed (List.mem_of_getElem? (Frame.input_eq_ok.mp found))
        rw [Subsystems.verdict_present present]
        exact ih _ _ present (sound.child present) (matched.child present) bound
    · obtain ⟨child, present, fits⟩ := Frame.ripple_fits sound.frame spread
      rw [Subsystems.verdict_present present]
      exact verdict_fits (sound.child present) (matched.child present) fits

namespace Diagram
variable {diagram : Diagram} {output input : Terminal}

theorem connect_looped (building : diagram.frame.phase = .building) (source : diagram.subsystems.HasOutput output)
    (target : diagram.subsystems.HasInput input) (looped : diagram.closesLoop output input = true) :
    diagram.connect output input = .refused (.wiringCycle output input) diagram := by
  simp only [connect, whileBuilding, building, checkOutput_eq_ok.mpr source, checkInput_eq_ok.mpr target, looped, if_true]

-- Nothing but a subsystem whose buffers and outputs differ in number can keep a
-- wire that closes no loop from being drawn.
theorem connect_free (sound : diagram.context.WellFormed) (building : diagram.frame.phase = .building)
    (source : diagram.subsystems.HasOutput output) (target : diagram.subsystems.HasInput input)
    (free : ¬ diagram.closesLoop output input = true) :
    (∃ after, diagram.connect output input = .done () after) ∨
      (∃ fault, diagram.connect output input = .aborted fault) ∧
        ∃ child, diagram.subsystems.context? input.system = some child ∧ ¬ child.Matched := by
  obtain ⟨child, present, bound⟩ := target
  have binds : ∀ index, Change.bound? (.bind input.index (some (diagram.bindingTo output))) = some index →
      index < child.inputCount := by
    intro index binds
    cases binds
    exact bound
  simp only [connect, whileBuilding, building, checkOutput_eq_ok.mpr source, checkInput_eq_ok.mpr ⟨child, present, bound⟩,
    if_neg free]
  cases sent : diagram.subsystems.send input.system (.bind input.index (some (diagram.bindingTo output))) with
  | done => exact .inl ⟨_, rfl⟩
  | refused => exact absurd sent (Subsystems.send_not_refused present (sound.child present) binds)
  | aborted fault =>
    refine .inr ⟨⟨fault, rfl⟩, child, present, fun matched => ?_⟩
    rw [Subsystems.send_eq present (Context.verdict_bind (sound.child present) matched bound _)] at sent
    cases sent

end Diagram

def Context.chained : Context :=
  ((((Diagram.create ⟨3⟩ 3 .sequential).context.joined [] 0 (.leaf (.create ⟨0⟩ ⟨1, 1, 0, []⟩ [])) ⟨[none]⟩).joined [] 1
    (.leaf (.create ⟨1⟩ ⟨1, 1, 0, []⟩ [])) ⟨[none]⟩).joined [] 2 (.leaf (.create ⟨2⟩ ⟨1, 1, 0, []⟩ [])) ⟨[none]⟩).actAll
    [([], .connect ⟨0, 0⟩ ⟨1, 0⟩), ([], .connect ⟨1, 0⟩ ⟨2, 0⟩)]

theorem Context.chained_built : Built .any chained :=
  (((Built.diagram.joined .leaf (by decide) [] 0 ⟨[none]⟩).joined .leaf (by decide) [] 1 ⟨[none]⟩).joined
    .leaf (by decide) [] 2 ⟨[none]⟩).actAll _ (fun _ _ => trivial)

def Diagram.chained : Diagram := Context.chained.diagram?.get (by decide)

theorem Diagram.context_chained : Diagram.chained.context = Context.chained := Context.context_get _

namespace Built
open Context
variable {rules : Rules} {tree : Context} {path : List Nat} {diagram : Diagram}

theorem connect_refuses_loops (built : Built rules tree) (located : tree.locate path = .ok diagram.context) :
    diagram.frame.wiring.Acyclic ∧ ∀ output input, diagram.frame.phase = .building →
      diagram.subsystems.HasOutput output → diagram.subsystems.HasInput input →
      (diagram.frame.wiring.ClosesLoop output input ∧
          diagram.connect output input = .refused (.wiringCycle output input) diagram) ∨
        (¬ diagram.frame.wiring.ClosesLoop output input ∧
          ((∃ after, diagram.connect output input = .done () after) ∨
            (∃ fault, diagram.connect output input = .aborted fault) ∧
              ∃ child, diagram.subsystems.context? input.system = some child ∧ ¬ child.Matched)) := by
  obtain ⟨sound, frame⟩ := built.frame_sound located
  refine ⟨frame.acyclic, fun output input building source target => ?_⟩
  have checked : diagram.closesLoop output input = true ↔ diagram.frame.wiring.ClosesLoop output input := by
    rw [Diagram.closesLoop_iff frame.coherent, frame.acyclic.closesLoop_iff]
  by_cases looped : diagram.closesLoop output input = true
  · exact .inl ⟨checked.mp looped, Diagram.connect_looped building source target looped⟩
  · exact .inr ⟨mt checked.mpr looped, Diagram.connect_free sound building source target looped⟩

theorem connect_refuses_loops_chained :
    Diagram.chained.frame.phase = .building ∧ Diagram.chained.subsystems.HasOutput ⟨2, 0⟩ ∧
      Diagram.chained.subsystems.HasInput ⟨0, 0⟩ ∧
      Diagram.chained.connect ⟨2, 0⟩ ⟨0, 0⟩ = .refused (.wiringCycle ⟨2, 0⟩ ⟨0, 0⟩) Diagram.chained := by
  refine ⟨by decide, by decide, by decide, ?_⟩
  have located : Context.chained.locate [] = .ok Diagram.chained.context := by
    rw [locate_nil, Diagram.context_chained]
  obtain ⟨_, decided⟩ := connect_refuses_loops chained_built located
  rcases decided ⟨2, 0⟩ ⟨0, 0⟩ (by decide) (by decide) (by decide) with ⟨_, refused⟩ | ⟨free, _⟩
  · exact refused
  · refine absurd ⟨0, ((TransGen.single (b := 1) ?_).tail (c := 2) ?_).tail ?_⟩ free
    · exact ⟨⟨0, 0⟩, ⟨1, 0⟩, by decide, rfl, rfl⟩
    · exact ⟨⟨1, 0⟩, ⟨2, 0⟩, by decide, rfl, rfl⟩
    · exact ⟨⟨2, 0⟩, ⟨0, 0⟩, by decide, rfl, rfl⟩

end Built
end BlockDiagram
