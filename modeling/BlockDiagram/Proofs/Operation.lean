import BlockDiagram.Proofs.Tree

namespace BlockDiagram

namespace Outcome
variable {σ α β : Type}

def map (answer : α → β) : Outcome σ α → Outcome σ β
  | .done value state => .done (answer value) state
  | .refused refusal state => .refused refusal state
  | .aborted fault => .aborted fault

-- What a call leaves behind. Nothing follows an aborted one.
def left? : Outcome σ α → Option σ
  | .done _ state => some state
  | .refused _ state => some state
  | .aborted _ => none

-- The answer of a call that was carried out, with what it leaves behind.
def done? : Outcome σ α → Option (α × σ)
  | .done value state => some (value, state)
  | .refused _ _ => none
  | .aborted _ => none

theorem done?_eq_some {outcome : Outcome σ α} {value : α} {state : σ} :
    outcome.done? = some (value, state) ↔ outcome = .done value state := by
  cases outcome <;> simp [done?]

theorem left?_eq_some {outcome : Outcome σ α} {state : σ} : outcome.left? = some state ↔
    (∃ value, outcome = .done value state) ∨ ∃ refusal, outcome = .refused refusal state := by
  cases outcome <;> simp [left?]

theorem map_eq_done {outcome : Outcome σ α} {answer : α → β} {value : β} {state : σ} :
    outcome.map answer = .done value state ↔ ∃ found, outcome = .done found state ∧ answer found = value := by
  cases outcome <;> grind [map]

theorem map_eq_refused {outcome : Outcome σ α} {answer : α → β} {refusal : Refusal} {state : σ} :
    outcome.map answer = .refused refusal state ↔ outcome = .refused refusal state := by
  cases outcome <;> simp [map]

theorem answering_eq_done {outcome : Outcome σ α} {answer value : β} {state : σ} :
    outcome.answering answer = .done value state ↔ (∃ found, outcome = .done found state) ∧ answer = value := by
  cases outcome <;> simp [answering, and_comm]

theorem answering_eq_refused {outcome : Outcome σ α} {answer : β} {refusal : Refusal} {state : σ} :
    outcome.answering answer = .refused refusal state ↔ outcome = .refused refusal state := by
  cases outcome <;> simp [answering]

theorem within_eq_done {τ : Type} {outcome : Outcome σ α} {rebuild : σ → τ} {value : α} {state : τ} :
    outcome.within rebuild = .done value state ↔ ∃ inner, outcome = .done value inner ∧ rebuild inner = state := by
  cases outcome <;> grind [within]

theorem within_eq_refused {τ : Type} {outcome : Outcome σ α} {rebuild : σ → τ} {refusal : Refusal} {state : τ} :
    outcome.within rebuild = .refused refusal state ↔
      ∃ inner, outcome = .refused refusal inner ∧ rebuild inner = state := by
  cases outcome <;> grind [within]

theorem left?_map (answer : α → β) (outcome : Outcome σ α) : (outcome.map answer).left? = outcome.left? := by
  cases outcome <;> rfl

theorem left?_answering (value : β) (outcome : Outcome σ α) :
    (outcome.answering value).left? = outcome.left? := by
  cases outcome <;> rfl

theorem left?_within {τ : Type} (rebuild : σ → τ) (outcome : Outcome σ α) :
    (outcome.within rebuild).left? = outcome.left?.map rebuild := by
  cases outcome <;> rfl

end Outcome

-- Whatever a caller does with writing access to the whole state of a leaf. The
-- state has been opened even if the revision breaks off.
def Leaf.reviseState (leaf : Leaf) (revise : State → Except Fault State) : Outcome Leaf Unit :=
  match revise leaf.state with
  | .ok state => .done () (leaf.writeState (fun _ => state))
  | .error fault => .aborted fault

inductive Operation where
  | change (change : Change)
  | edit (partition : Partition) (index : Nat) (revise : partition.Entry → Outcome Unit partition.Entry)
  | reviseState (revise : State → Except Fault State)
  | markAllFresh
  | issueTicket (needs : List Ticket)
  | setLine (ticket : Ticket) (value : Value)
  | swapLine (ticket : Ticket) (value : Value)
  | invalidateLine (ticket : Ticket)
  | connect (output input : Terminal)
  | exposeInput (input : Terminal)
  | exposeOutput (output : Terminal)
  | finishBuilding
  | setOutput (output : Terminal) (value : Value)
  | propagate (system index : Nat)
  | propagateMany (system : Nat) (indices : List Nat)
  | markEvaluated (system : Nat)

inductive Answer where
  | notOffered
  | nothing
  | flag (flag : Bool)
  | index (index : Nat)
  | indices (indices : List Nat)
  | ticket (ticket : Ticket)
  | value (value : Value)
  | former (value : Option Value)
deriving DecidableEq, Repr

theorem Diagram.context_injective {first second : Diagram} (same : first.context = second.context) : first = second := by
  cases first
  cases second
  cases same
  rfl

namespace Diagram
variable {diagram after : Diagram} {system : Nat} {other : Context} {buffer : OutputBuffer}

theorem add_done {answer : Unit} (done : diagram.add system other buffer = .done answer after) :
    diagram.frame.phase = .building ∧ system < diagram.subsystems.size ∧ diagram.subsystems.context? system = none ∧
      after = ⟨diagram.frame, diagram.subsystems.install system other buffer⟩ := by
  simp only [add, whileBuilding] at done
  split at done
  · rename_i building
    split at done
    · rename_i bound
      split at done
      · rename_i vacant
        cases done
        exact ⟨building, bound, vacant, rfl⟩
      · cases done
    · cases done
  · cases done

theorem add_refused {refusal : Refusal} (refused : diagram.add system other buffer = .refused refusal after) :
    after = diagram := by
  simp only [add, whileBuilding] at refused
  split at refused
  · split at refused
    · split at refused
      · cases refused
      · cases refused; rfl
    · cases refused; rfl
  · cases refused; rfl

theorem add_left (added : (diagram.add system other buffer).left? = some after) :
    after = diagram ∨ diagram.frame.phase = .building ∧ system < diagram.subsystems.size ∧
      diagram.subsystems.context? system = none ∧
      after = ⟨diagram.frame, diagram.subsystems.install system other buffer⟩ := by
  rcases Outcome.left?_eq_some.mp added with ⟨_, done⟩ | ⟨_, refused⟩
  · exact .inr (add_done done)
  · exact .inl (add_refused refused)

end Diagram

namespace Context

def onLeaf (context : Context) (operation : Leaf → Outcome Leaf Answer) : Outcome Context Answer :=
  match context with
  | .leaf own => (operation own).within .leaf
  | .diagram .. => .done .notOffered context

def onCache (context : Context) (operation : Cache → Outcome Cache Answer) : Outcome Context Answer :=
  (operation context.cache).within context.withCache

def onDiagram (context : Context) (operation : Diagram → Outcome Diagram Answer) : Outcome Context Answer :=
  match context with
  | .leaf _ => .done .notOffered context
  | .diagram frame subsystems => (operation ⟨frame, subsystems⟩).within Diagram.context

def perform (context : Context) : Operation → Outcome Context Answer
  | .change change => (context.send change).answering .nothing
  | .edit partition index revise => (context.edit partition index revise).map .flag
  | .reviseState revise => context.onLeaf (fun own => (own.reviseState revise).answering .nothing)
  | .markAllFresh => context.markAllFresh.answering .nothing
  | .issueTicket needs => context.onCache (fun cache => (cache.issue needs).map .ticket)
  | .setLine ticket value => context.onCache (fun cache => (cache.set ticket value).map .value)
  | .swapLine ticket value => context.onCache (fun cache => (cache.swap ticket value).map .former)
  | .invalidateLine ticket => context.onCache (fun cache => (cache.invalidate ticket).answering .nothing)
  | .connect output input => context.onDiagram (fun diagram => (diagram.connect output input).answering .nothing)
  | .exposeInput input => context.onDiagram (fun diagram => (diagram.exposeInput input).map .index)
  | .exposeOutput output => context.onDiagram (fun diagram => (diagram.exposeOutput output).map .index)
  | .finishBuilding => context.onDiagram (fun diagram => diagram.finishBuilding.answering .nothing)
  | .setOutput output value => context.onDiagram (fun diagram => (diagram.setOutput output value).map .indices)
  | .propagate system index => context.onDiagram (fun diagram => (diagram.propagate system index).map .indices)
  | .propagateMany system indices =>
    context.onDiagram (fun diagram => (diagram.propagateMany system indices).map .indices)
  | .markEvaluated system => context.onDiagram (fun diagram => (diagram.markEvaluated system).answering .nothing)

-- An operation on the context a path leads to. A path through a leaf leads
-- nowhere and can not be written down by a caller; one through a vacant place can.
def carryOut (tree : Context) (path : List Nat) (operation : Context → Outcome Context Answer) :
    Outcome Context Answer :=
  match tree.operate path operation with
  | .ok ending => ending
  | .error .notDiagram => .done .notOffered tree
  | .error (.absent missing) => .aborted (.access .subsystemForWriting missing)

def act (tree : Context) (path : List Nat) (operation : Operation) : Outcome Context Answer :=
  tree.carryOut path (·.perform operation)

def adopt (tree : Context) (path : List Nat) (system : Nat) (other : Context) (buffer : OutputBuffer) :
    Outcome Context Answer :=
  tree.carryOut path (fun context =>
    context.onDiagram (fun diagram => (diagram.add system other buffer).answering .nothing))

theorem carryOut_left {tree after : Context} {path : List Nat}
    {operation : Context → Outcome Context Answer}
    (left : (tree.carryOut path operation).left? = some after) :
    (tree.locate path = .error .notDiagram ∧ after = tree) ∨ ∃ found changed, tree.locate path = .ok found ∧
      (operation found).left? = some changed ∧ after = tree.graft path changed := by
  unfold carryOut operate at left
  cases located : tree.locate path with
  | error misstep =>
    rw [located] at left
    cases misstep with
    | notDiagram => exact .inl ⟨rfl, (Option.some.inj left).symm⟩
    | absent => cases left
  | ok found =>
    simp only [located, Except.map, Outcome.left?_within, Option.map_eq_some_iff] at left
    obtain ⟨changed, performed, rfl⟩ := left
    exact .inr ⟨found, changed, rfl, performed, rfl⟩

theorem onDiagram_left {context after : Context} {operation : Diagram → Outcome Diagram Answer}
    (left : (context.onDiagram operation).left? = some after) :
    after = context ∨ ∃ frame subsystems diagram, context = .diagram frame subsystems ∧
      (operation ⟨frame, subsystems⟩).left? = some diagram ∧ after = diagram.context := by
  cases context with
  | leaf own => exact .inl (Option.some.inj left).symm
  | diagram frame subsystems =>
    simp only [onDiagram, Outcome.left?_within, Option.map_eq_some_iff] at left
    obtain ⟨diagram, performed, rfl⟩ := left
    exact .inr ⟨frame, subsystems, diagram, rfl, performed, rfl⟩

theorem onDiagram_done {diagram after : Diagram} {operation : Diagram → Outcome Diagram Answer} {answer : Answer}
    (done : diagram.context.onDiagram operation = .done answer after.context) : operation diagram = .done answer after := by
  obtain ⟨changed, performed, same⟩ := Outcome.within_eq_done.mp done
  rw [← Diagram.context_injective same]
  exact performed

theorem adopt_left {tree other after : Context} {path : List Nat} {system : Nat} {buffer : OutputBuffer}
    (adopted : (tree.adopt path system other buffer).left? = some after) :
    after = tree ∨ ∃ frame subsystems, tree.locate path = .ok (.diagram frame subsystems) ∧
      frame.phase = .building ∧ system < subsystems.size ∧ subsystems.context? system = none ∧
      after = tree.graft path (.diagram frame (subsystems.install system other buffer)) := by
  rcases carryOut_left adopted with ⟨_, same⟩ | ⟨found, changed, located, performed, rfl⟩
  · exact .inl same
  rcases onDiagram_left performed with rfl | ⟨frame, subsystems, diagram, rfl, added, rfl⟩
  · exact .inl (graft_located located)
  rw [Outcome.left?_answering] at added
  rcases Diagram.add_left added with rfl | ⟨building, bound, vacant, rfl⟩
  · exact .inl (graft_located located)
  · exact .inr ⟨frame, subsystems, located, building, bound, vacant, rfl⟩

theorem adopt_done {tree other after : Context} {path : List Nat} {system : Nat} {buffer : OutputBuffer}
    (adopted : tree.adopt path system other buffer = .done .nothing after) :
    ∃ frame subsystems, tree.locate path = .ok (.diagram frame subsystems) ∧ system < subsystems.size ∧
      subsystems.context? system = none ∧
      after = tree.graft path (.diagram frame (subsystems.install system other buffer)) := by
  unfold adopt carryOut operate at adopted
  cases located : tree.locate path with
  | error misstep =>
    rw [located] at adopted
    cases misstep <;> cases adopted
  | ok found =>
    cases found with
    | leaf own =>
      simp only [located, Except.map, onDiagram, Outcome.within, Outcome.done.injEq, reduceCtorEq, false_and] at adopted
    | diagram frame subsystems =>
      simp only [located, Except.map] at adopted
      obtain ⟨_, performed, rfl⟩ := Outcome.within_eq_done.mp adopted
      obtain ⟨_, answered, rfl⟩ := Outcome.within_eq_done.mp performed
      obtain ⟨⟨_, added⟩, _⟩ := Outcome.answering_eq_done.mp answered
      obtain ⟨_, bound, vacant, rfl⟩ := Diagram.add_done added
      exact ⟨frame, subsystems, rfl, bound, vacant, rfl⟩

end Context
end BlockDiagram
