import BlockDiagram.Proofs.Inventory

namespace BlockDiagram

def Operation.Guarded : Operation → Prop
  | .edit .. => False
  | _ => True

namespace Diagram
variable {diagram after : Diagram} {refusal : Refusal}

theorem whileBuilding_unchanged {α : Type} {build : Outcome Diagram α}
    (unchanged : build = .refused refusal after → after = diagram)
    (refused : diagram.whileBuilding build = .refused refusal after) : after = diagram := by
  unfold whileBuilding at refused
  split at refused
  · exact unchanged refused
  · cases refused
    rfl

theorem exposeInput_refused {input : Terminal} (refused : diagram.exposeInput input = .refused refusal after) :
    after = diagram := by
  apply whileBuilding_unchanged _ refused
  intro checked
  split at checked <;> cases checked
  rfl

theorem exposeOutput_refused {output : Terminal} (refused : diagram.exposeOutput output = .refused refusal after) :
    after = diagram := by
  apply whileBuilding_unchanged _ refused
  intro checked
  split at checked <;> cases checked
  rfl

theorem finishBuilding_refused (refused : diagram.finishBuilding = .refused refusal after) : after = diagram := by
  apply whileBuilding_unchanged _ refused
  intro checked
  split at checked <;> cases checked
  rfl

theorem propagateAs_not_refused {named : SealedOnly} {system : Nat} {indices : List Nat} :
    propagateAs named diagram system indices ≠ .refused refusal after := by
  unfold propagateAs
  split
  · exact nofun
  · split
    · exact nofun
    · split
      · exact nofun
      · exact propagateFrom_not_refused

end Diagram

namespace Context
variable {context after : Context} {refusal : Refusal}

theorem markAllFresh_refused (refused : context.markAllFresh = .refused refusal after) : after = context := by
  unfold markAllFresh at refused
  dsimp only at refused
  split at refused
  · cases refused
  · cases refused
    rfl
  · cases refused

end Context

theorem Diagram.markEvaluated_refused {diagram after : Diagram} {refusal : Refusal} {system : Nat}
    (refused : diagram.markEvaluated system = .refused refusal after) : after = diagram := by
  unfold markEvaluated at refused
  split at refused
  · cases refused
  · rename_i child found
    obtain ⟨left, marked, rfl⟩ := Outcome.within_eq_refused.mp refused
    rw [Context.markAllFresh_refused marked, Subsystems.putContext_present (Subsystems.context_eq_ok.mp found)]
    rfl

namespace Cache
variable {cache after : Cache} {refusal : Refusal}

theorem issue_not_refused {needs : List Ticket} : cache.issue needs ≠ .refused refusal after := by
  unfold issue
  split <;> exact nofun

theorem swap_not_refused {ticket : Ticket} {value : Value} : cache.swap ticket value ≠ .refused refusal after := by
  unfold swap
  split <;> exact nofun

theorem invalidate_not_refused {ticket : Ticket} : cache.invalidate ticket ≠ .refused refusal after := by
  unfold invalidate
  split <;> exact nofun

end Cache

namespace Context
variable {context after : Context} {refusal : Refusal}

theorem onCache_not_refused {task : Cache → Outcome Cache Answer}
    (never : ∀ cache, task context.cache ≠ .refused refusal cache) : context.onCache task ≠ .refused refusal after := by
  intro refused
  obtain ⟨cache, objection, _⟩ := Outcome.within_eq_refused.mp refused
  exact never cache objection

theorem onDiagram_unchanged {task : Diagram → Outcome Diagram Answer}
    (unchanged : ∀ diagram changed : Diagram, context = diagram.context → task diagram = .refused refusal changed →
      changed = diagram) (refused : context.onDiagram task = .refused refusal after) : after = context := by
  cases context with
  | leaf own => cases refused
  | diagram frame subsystems =>
    obtain ⟨changed, objection, rfl⟩ := Outcome.within_eq_refused.mp refused
    rw [unchanged ⟨frame, subsystems⟩ changed rfl objection]
    rfl

theorem perform_refused {operation : Operation} (sound : context.WellFormed) (guarded : operation.Guarded)
    (refused : context.perform operation = .refused refusal after) : after = context := by
  cases operation with
  | edit => exact guarded.elim
  | change asked => exact (send_refused sound (Outcome.answering_eq_refused.mp refused)).2
  | reviseState revise =>
    cases context with
    | diagram => cases refused
    | leaf own =>
      obtain ⟨left, objection, _⟩ := Outcome.within_eq_refused.mp refused
      have revised := Outcome.answering_eq_refused.mp objection
      unfold Leaf.reviseState at revised
      split at revised <;> cases revised
  | markAllFresh => exact markAllFresh_refused (Outcome.answering_eq_refused.mp refused)
  | issueTicket =>
    rw [perform] at refused
    refine absurd refused (onCache_not_refused (fun cache issued => ?_))
    exact Cache.issue_not_refused (Outcome.map_eq_refused.mp issued)
  | setLine =>
    rw [perform] at refused
    refine absurd refused (onCache_not_refused (fun cache stored => ?_))
    exact Cache.swap_not_refused (Outcome.answering_eq_refused.mp (Outcome.map_eq_refused.mp stored))
  | swapLine =>
    rw [perform] at refused
    refine absurd refused (onCache_not_refused (fun cache stored => ?_))
    exact Cache.swap_not_refused (Outcome.map_eq_refused.mp stored)
  | invalidateLine =>
    rw [perform] at refused
    refine absurd refused (onCache_not_refused (fun cache cleared => ?_))
    exact Cache.invalidate_not_refused (Outcome.answering_eq_refused.mp cleared)
  | connect =>
    rw [perform] at refused
    refine onDiagram_unchanged (fun diagram changed same objection => ?_) refused
    exact Diagram.connect_refused (same ▸ sound) (Outcome.answering_eq_refused.mp objection)
  | exposeInput =>
    rw [perform] at refused
    refine onDiagram_unchanged (fun diagram changed _ objection => ?_) refused
    exact Diagram.exposeInput_refused (Outcome.map_eq_refused.mp objection)
  | exposeOutput =>
    rw [perform] at refused
    refine onDiagram_unchanged (fun diagram changed _ objection => ?_) refused
    exact Diagram.exposeOutput_refused (Outcome.map_eq_refused.mp objection)
  | finishBuilding =>
    rw [perform] at refused
    refine onDiagram_unchanged (fun diagram changed _ objection => ?_) refused
    exact Diagram.finishBuilding_refused (Outcome.answering_eq_refused.mp objection)
  | setOutput =>
    rw [perform] at refused
    refine onDiagram_unchanged (fun diagram changed same objection => ?_) refused
    exact Diagram.setOutput_refused (same ▸ sound) (Outcome.map_eq_refused.mp objection)
  | propagate | propagateMany =>
    rw [perform] at refused
    refine onDiagram_unchanged (fun diagram changed _ objection => ?_) refused
    exact absurd (Outcome.map_eq_refused.mp objection) Diagram.propagateAs_not_refused
  | markEvaluated =>
    rw [perform] at refused
    refine onDiagram_unchanged (fun diagram changed _ objection => ?_) refused
    exact Diagram.markEvaluated_refused (Outcome.answering_eq_refused.mp objection)

theorem carryOut_refused {tree : Context} {path : List Nat} {operation : Context → Outcome Context Answer}
    (refused : tree.carryOut path operation = .refused refusal after) :
    ∃ found changed, tree.locate path = .ok found ∧ operation found = .refused refusal changed ∧
      after = tree.graft path changed := by
  unfold carryOut operate at refused
  cases located : tree.locate path with
  | error misstep =>
    rw [located] at refused
    cases misstep <;> cases refused
  | ok found =>
    simp only [located, Except.map] at refused
    obtain ⟨changed, objection, rfl⟩ := Outcome.within_eq_refused.mp refused
    exact ⟨found, changed, rfl, objection, rfl⟩

theorem carryOut_unchanged {tree : Context} {path : List Nat} {operation : Context → Outcome Context Answer}
    (unchanged : ∀ found changed, tree.locate path = .ok found → operation found = .refused refusal changed →
      changed = found) (refused : tree.carryOut path operation = .refused refusal after) : after = tree := by
  obtain ⟨found, changed, located, objection, rfl⟩ := carryOut_refused refused
  rw [unchanged found changed located objection]
  exact graft_located located

end Context

-- A leaf in a diagram that exposes its input, in a diagram with room for one more
-- that exposes it again.
def Context.hosted : Context :=
  ((Diagram.create ⟨2⟩ 2 .sequential).context.joined [] 0
    (((Diagram.create ⟨1⟩ 1 .sequential).context.joined [] 0 (.leaf (.create ⟨0⟩ ⟨1, 1, 0, []⟩ [])) ⟨[none]⟩).actAll
      [([], .exposeInput ⟨0, 0⟩), ([], .exposeOutput ⟨0, 0⟩), ([], .finishBuilding)]) ⟨[none]⟩).actAll
    [([], .exposeInput ⟨0, 0⟩)]

theorem Context.hosted_built : Built .any hosted :=
  (Built.diagram.joined ((Built.diagram.joined .leaf (by decide) [] 0 ⟨[none]⟩).actAll _ (fun _ _ => trivial))
    (by decide) [] 0 ⟨[none]⟩).actAll _ (fun _ _ => trivial)

namespace Built
open Context
variable {rules : Rules} {tree : Context}

-- Wiring, exposing, sealing, binding an input, storing an output and adding a
-- subsystem, among others, wherever in the tree and whatever the call is given.
theorem refused_untouched (built : Built rules tree) (path : List Nat) (refusal : Refusal) (after : Context) :
    (∀ operation : Operation, operation.Guarded → tree.act path operation = .refused refusal after → after = tree) ∧
      ∀ system other buffer, tree.adopt path system other buffer = .refused refusal after → after = tree := by
  constructor
  · intro operation guarded refused
    apply carryOut_unchanged _ refused
    intro found changed located objection
    exact perform_refused (Everywhere.below built.wellFormed located) guarded objection
  · intro system other buffer refused
    apply carryOut_unchanged _ refused
    intro found changed _ objection
    apply onDiagram_unchanged _ objection
    intro diagram left _ added
    exact Diagram.add_refused (Outcome.answering_eq_refused.mp added)

theorem refused_untouched_hosted :
    (∃ after, hosted.act [] (.change (.bind 1 none)) = .refused (.inputOutOfRange 1 1) after ∧ after = hosted) ∧
      (∃ after, hosted.act [0] (.setOutput ⟨0, 1⟩ (.int32 5)) = .refused (.outputOutOfRange 1 1) after ∧ after = hosted) ∧
      ∃ after, hosted.adopt [] 0 (.leaf (.create ⟨3⟩ ⟨0, 0, 0, []⟩ [])) ⟨[]⟩ = .refused (.subsystemAlreadyAdded 0) after ∧
        after = hosted := by
  have bound : ∃ after, hosted.act [] (.change (.bind 1 none)) = .refused (.inputOutOfRange 1 1) after := ⟨_, rfl⟩
  have stored : ∃ after, hosted.act [0] (.setOutput ⟨0, 1⟩ (.int32 5)) = .refused (.outputOutOfRange 1 1) after := ⟨_, rfl⟩
  have added : ∃ after, hosted.adopt [] 0 (.leaf (.create ⟨3⟩ ⟨0, 0, 0, []⟩ [])) ⟨[]⟩ =
    .refused (.subsystemAlreadyAdded 0) after := ⟨_, rfl⟩
  obtain ⟨unbound, one⟩ := bound
  obtain ⟨unstored, two⟩ := stored
  obtain ⟨unadded, three⟩ := added
  exact ⟨⟨unbound, one, (refused_untouched hosted_built _ _ _).1 (.change (.bind 1 none)) trivial one⟩,
    ⟨unstored, two, (refused_untouched hosted_built _ _ _).1 (.setOutput ⟨0, 1⟩ (.int32 5)) trivial two⟩,
    ⟨unadded, three, (refused_untouched hosted_built _ _ _).2 _ _ _ three⟩⟩

end Built
end BlockDiagram
