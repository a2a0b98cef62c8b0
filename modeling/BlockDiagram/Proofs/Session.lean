import Mathlib.Data.List.Forall2
import BlockDiagram.Proofs.Lockstep

namespace BlockDiagram

-- Who follows a handle: the diagrams at these paths, each before the next, and
-- then something that answers every handle alike.
structure Upstream where
  diagrams : List (List Nat)
  otherwise : Option Value

inductive Query where
  | time
  | inputCount
  | outputCount
  | entryCount (partition : Partition)
  | input (index : Nat)
  | resolve (index : Nat)
  | inputValue (index : Nat)
  | inputVector (index : Nat)
  | inputTicket (index : Nat)
  | entry (partition : Partition) (index : Nat)
  | state
  | isFresh (index : Nat)
  | allFresh
  | line (ticket : Ticket)
  | isValid (ticket : Ticket)
  | lines
  | phase
  | concurrency
  | exposedInputs
  | exposedOutputs
  | composite
  | output (output : Terminal)
  | buffer (system : Nat)
  | isEvaluated (system : Nat)
  | evaluate (input : Terminal) (upstream : Upstream)
  | evaluateVector (input : Terminal) (upstream : Upstream)
  | source (input : Terminal)
  | fedBy (output : Terminal)
  | wires
  | reaches (origin target : Nat)

-- Only a leaf has a state of its own, and only a diagram has wires and tables.
def Query.Reply : Query → Type
  | .time => Float
  | .inputCount | .outputCount | .entryCount _ => Nat
  | .input _ => Except Refusal (Option Binding)
  | .resolve _ => Except Refusal Reading
  | .inputValue _ => Except Refusal (Option Value)
  | .inputVector _ => Except Refusal (Option ScalarVector)
  | .inputTicket _ => Option Ticket
  | .entry partition _ => Option partition.Entry
  | .state => Option State
  | .isFresh _ | .allFresh | .isValid _ => Except Fault Bool
  | .line _ => Except Fault (Option Value)
  | .lines => List (Option Value)
  | .phase => Option Phase
  | .concurrency => Option Concurrency
  | .exposedInputs => Option (List ExposedInput)
  | .exposedOutputs => Option (List Terminal)
  | .composite => Option CompositeState
  | .output _ => Option (Option Value)
  | .buffer _ => Option (Except Fault OutputBuffer)
  | .isEvaluated _ => Option (Except Fault Bool)
  | .evaluate .. => Option (Except Refusal (Option Value))
  | .evaluateVector .. => Option (Except Refusal (Option ScalarVector))
  | .source _ => Option (Option Terminal)
  | .fedBy _ => Option (List Terminal)
  | .wires => Option (List (Terminal × Terminal))
  | .reaches .. => Option Bool

namespace Context

def upstream (tree : Context) (upstream : Upstream) : Resolver :=
  upstream.diagrams.foldr
    (fun path outer =>
      match tree.locate path with
      | .ok (.diagram frame subsystems) => .chain frame.id subsystems.output? outer
      | _ => outer)
    (fun _ => upstream.otherwise)

def reply (tree found : Context) : (query : Query) → query.Reply
  | .time => found.time
  | .inputCount => found.inputCount
  | .outputCount => found.outputCount
  | .entryCount partition => found.entryCount partition
  | .input index => found.input index
  | .resolve index => found.resolve index
  | .inputValue index => found.inputValue index
  | .inputVector index => found.inputVector index
  | .inputTicket index => found.inputTicket? index
  | .entry partition index => found.read? partition index
  | .state => found.leaf?.map (·.state)
  | .isFresh index => found.isFresh index
  | .allFresh => found.allFresh
  | .line ticket => found.cache.get ticket
  | .isValid ticket => found.cache.isValid ticket
  | .lines => found.cache.values
  | .phase => found.diagram?.map (·.frame.phase)
  | .concurrency => found.diagram?.map (·.frame.concurrency)
  | .exposedInputs => found.diagram?.map (·.frame.inputs)
  | .exposedOutputs => found.diagram?.map (·.frame.outputs)
  | .composite => found.diagram?.map (·.frame.composite)
  | .output output => found.diagram?.map (·.output? output)
  | .buffer system => found.diagram?.map (·.subsystemOutput system)
  | .isEvaluated system => found.diagram?.map (·.isEvaluated system)
  | .evaluate input above => found.diagram?.map (·.evaluateInput input (tree.upstream above))
  | .evaluateVector input above => found.diagram?.map (·.evaluateVector input (tree.upstream above))
  | .source input => found.diagram?.map (·.frame.wiring.source? input)
  | .fedBy output => found.diagram?.map (·.frame.wiring.inputsOf output)
  | .wires => found.diagram?.map (·.frame.wiring.wires)
  | .reaches origin target => found.diagram?.map (·.frame.wiring.reaches origin target)

end Context

inductive Request where
  | act (path : List Nat) (operation : Operation)
  | ask (path : List Nat) (query : Query)

inductive Response where
  | answered (answer : Answer)
  | refused (refusal : Refusal)
  | aborted (fault : Fault)
  | replied (query : Query) (reply : query.Reply)

-- The responses to a series of requests, up to the first call that is aborted.
def Context.session (tree : Context) : List Request → List Response
  | [] => []
  | .act path operation :: rest =>
    match tree.act path operation with
    | .done answer after => .answered answer :: after.session rest
    | .refused refusal after => .refused refusal :: after.session rest
    | .aborted fault => [.aborted fault]
  | .ask path query :: rest =>
    match tree.locate path with
    | .ok found => .replied query (tree.reply found query) :: tree.session rest
    | .error .notDiagram => .answered .notOffered :: tree.session rest
    | .error (.absent missing) => [.aborted (.access .subsystem missing)]

def Request.Impersonal : Request → Prop
  | .act _ operation => operation.Impersonal
  | .ask .. => True

def Reading.renamed (rename : ContextId → ContextId) : Reading → Reading
  | .pending handle => .pending ⟨rename handle.owner, handle.source⟩
  | other => other

-- The same reply, apart from the ids in it and the order of what an output feeds.
def Query.Alike (rename : ContextId → ContextId) : (query : Query) → query.Reply → query.Reply → Prop
  | .input _, reply, other => other = Except.map (Option.map (Binding.renamed rename)) reply
  | .resolve _, reply, other => other = Except.map (Reading.renamed rename) reply
  | .fedBy _, reply, other => Option.Rel List.Perm reply other
  | _, reply, other => other = reply

inductive Response.Alike (rename : ContextId → ContextId) : Response → Response → Prop where
  | answered {answer : Answer} : Alike rename (.answered answer) (.answered answer)
  | refused {refusal : Refusal} : Alike rename (.refused refusal) (.refused refusal)
  | aborted {fault other : Fault} : Alike rename (.aborted fault) (.aborted other)
  | replied {query : Query} {reply other : query.Reply} (alike : query.Alike rename reply other) :
    Alike rename (.replied query reply) (.replied query other)

namespace Wiring.Alike
variable {wiring later : Wiring}

theorem source? (alike : wiring.Alike later) : later.source? = wiring.source? := by
  funext input
  simp only [Wiring.source?, alike.sources]

theorem reaches (alike : wiring.Alike later) (first : wiring.Coherent) (second : later.Coherent) (origin target : Nat) :
    later.reaches origin target = wiring.reaches origin target := by
  rw [Bool.eq_iff_iff, reaches_feeds second, reaches_feeds first]
  have same : later.Feeds = wiring.Feeds := by
    funext before after
    simp only [Feeds, alike.source?]
  rw [same]

end Wiring.Alike

namespace Reading
variable {rename : ContextId → ContextId}

theorem ofBinding_renamed (binding : Option Binding) :
    ofBinding (binding.map (Binding.renamed rename)) = (ofBinding binding).renamed rename := by
  rcases binding with _ | value | handle <;> rfl

theorem settledBy_renamed (injective : Function.Injective rename) (reading : Reading) (owner : ContextId)
    (outputs : Terminal → Option Value) :
    (reading.renamed rename).settledBy (rename owner) outputs = (reading.settledBy owner outputs).renamed rename := by
  cases reading with
  | known | unconnected => rfl
  | pending handle =>
    simp only [renamed, settledBy, injective.eq_iff]
    split
    · cases outputs handle.source <;> rfl
    · rfl

theorem value?_renamed (reading : Reading) : (reading.renamed rename).value? = reading.value? := by
  cases reading <;> rfl

end Reading
namespace Context.Twin
variable {rename : ContextId → ContextId} {tree other : Context} {frame later : Frame} {subsystems others : Subsystems}

theorem time (twin : Twin rename tree other) : other.time = tree.time := by
  cases tree with
  | leaf own => rw [twin.leaf]; rfl
  | diagram frame subsystems =>
    obtain ⟨later, others, rfl, like⟩ := twin.diagram
    exact like.alike.time

theorem entryCount (twin : Twin rename tree other) (partition : Partition) :
    other.entryCount partition = tree.entryCount partition := by
  cases tree with
  | leaf own => rw [twin.leaf]; rfl
  | diagram frame subsystems =>
    obtain ⟨later, others, rfl, like⟩ := twin.diagram
    exact congrArg (CompositeState.count · partition) like.alike.composite

theorem inputTicket? (twin : Twin rename tree other) (index : Nat) : other.inputTicket? index = tree.inputTicket? index := by
  cases tree with
  | leaf own => rw [twin.leaf]; simp [Context.inputTicket?, Leaf.renamed]
  | diagram frame subsystems =>
    obtain ⟨later, others, rfl, like⟩ := twin.diagram
    have inputs : later.inputs = frame.inputs := like.alike.inputs
    simp only [Context.inputTicket?, inputs]

theorem frameInput (twin : Twin rename (.diagram frame subsystems) (.diagram later others)) : later.input = frame.input := by
  have inputs : later.inputs = frame.inputs := twin.like.alike.inputs
  funext index
  simp only [Frame.input, inputs]

theorem frameOutput (twin : Twin rename (.diagram frame subsystems) (.diagram later others)) :
    later.output = frame.output := by
  have outputs : later.outputs = frame.outputs := twin.like.alike.outputs
  funext index
  simp only [Frame.output, outputs]

theorem input (twin : Twin rename tree other) (index : Nat) :
    other.input index = (tree.input index).map (Option.map (Binding.renamed rename)) := by
  induction tree using Context.induct generalizing other index with
  | leaf own =>
    rw [twin.leaf]
    simp only [Context.input, Leaf.input, Leaf.renamed, List.getElem?_map, List.length_map]
    cases own.inputs[index]? <;> rfl
  | diagram frame subsystems ih =>
    obtain ⟨later, others, rfl, _⟩ := twin.diagram
    simp only [Context.input, twin.frameInput, Subsystems.inputAt_eq, twin.absence]
    cases frame.input index with
    | error => rfl
    | ok exposed =>
      dsimp only
      cases found : subsystems.context? exposed.terminal.system with
      | none => rw [twin.absent found]; rfl
      | some child =>
        obtain ⟨other, there, inside⟩ := twin.present found
        rw [there]
        exact ih _ _ found inside exposed.terminal.index

theorem resolve (twin : Twin rename tree other) (injective : Function.Injective rename) (index : Nat) :
    other.resolve index = (tree.resolve index).map (Reading.renamed rename) := by
  induction tree using Context.induct generalizing other index with
  | leaf own =>
    rw [twin.leaf]
    simp only [Context.resolve, Leaf.input, Leaf.renamed, List.getElem?_map, List.length_map]
    cases own.inputs[index]? with
    | none => rfl
    | some binding => exact congrArg Except.ok (Reading.ofBinding_renamed binding)
  | diagram frame subsystems ih =>
    obtain ⟨later, others, rfl, like⟩ := twin.diagram
    have id : later.id = rename frame.id := like.id
    simp only [Context.resolve, twin.frameInput, Subsystems.resolveAt_eq, twin.absence, twin.output?, id]
    cases frame.input index with
    | error => rfl
    | ok exposed =>
      dsimp only
      cases found : subsystems.context? exposed.terminal.system with
      | none => rw [twin.absent found]; rfl
      | some child =>
        obtain ⟨other, there, inside⟩ := twin.present found
        rw [there]
        simp only [Option.map_some, Option.getD_some, ih _ _ found inside]
        cases child.resolve exposed.terminal.index with
        | error => rfl
        | ok reading => exact congrArg Except.ok (Reading.settledBy_renamed injective reading _ _)

theorem inputValue (twin : Twin rename tree other) (injective : Function.Injective rename) (index : Nat) :
    other.inputValue index = tree.inputValue index := by
  rw [Context.inputValue, Context.inputValue, twin.resolve injective]
  cases tree.resolve index with
  | error => rfl
  | ok reading => exact congrArg Except.ok reading.value?_renamed

theorem isFresh (twin : Twin rename tree other) (index : Nat) : other.isFresh index = tree.isFresh index := by
  induction tree using Context.induct generalizing other index with
  | leaf own => rw [twin.leaf]; rfl
  | diagram frame subsystems ih =>
    obtain ⟨later, others, rfl, _⟩ := twin.diagram
    simp only [Context.isFresh, twin.frameOutput, Subsystems.isFreshAt_eq, twin.absence]
    cases frame.output index with
    | error => rfl
    | ok terminal =>
      dsimp only
      cases found : subsystems.context? terminal.system with
      | none => rw [twin.absent found]
      | some child =>
        obtain ⟨other, there, inside⟩ := twin.present found
        rw [there]
        exact congrArg (Option.getD · _) (congrArg some (ih _ _ found inside terminal.index))

theorem allFresh (twin : Twin rename tree other) : other.allFresh = tree.allFresh := by
  simp only [Context.allFresh, twin.outputCount, twin.isFresh]

theorem upstream (twin : Twin rename tree other) (injective : Function.Injective rename) (above : Upstream)
    (handle : Handle) : other.upstream above ⟨rename handle.owner, handle.source⟩ = tree.upstream above handle := by
  obtain ⟨paths, otherwise⟩ := above
  unfold Context.upstream
  induction paths with
  | nil => rfl
  | cons path rest ih =>
    simp only [List.foldr_cons]
    rcases twin.locate path with ⟨misstep, one, two⟩ | ⟨found, after, one, two, inside⟩
    · simp only [one, two]
      exact ih
    · cases found with
      | leaf own =>
        simp only [one, two, inside.leaf]
        exact ih
      | diagram frame subsystems =>
        obtain ⟨later, others, rfl, like⟩ := inside.diagram
        have id : later.id = rename frame.id := like.id
        simp only [one, two, Resolver.chain, id, injective.eq_iff, inside.output?]
        split
        · rfl
        · exact ih

end Context.Twin

namespace Diagram.Twin
variable {rename : ContextId → ContextId} {diagram other : Diagram}

theorem subsystem (twin : diagram.Twin rename other) (system : Nat) :
    (∃ fault, diagram.subsystem system = .error fault ∧ other.subsystem system = .error fault) ∨
      ∃ child after, diagram.subsystem system = .ok child ∧ other.subsystem system = .ok after ∧
        Context.Twin rename child after := by
  unfold Diagram.subsystem
  rcases Context.Twin.context twin system with ⟨missing, one, two⟩ | ⟨child, after, found, there, inside⟩
  · rw [one, two]
    exact .inl ⟨_, rfl, rfl⟩
  · rw [Subsystems.context_eq_ok.mpr found, Subsystems.context_eq_ok.mpr there]
    exact .inr ⟨child, after, rfl, rfl, inside⟩

theorem isEvaluated (twin : diagram.Twin rename other) (system : Nat) :
    other.isEvaluated system = diagram.isEvaluated system := by
  unfold Diagram.isEvaluated
  rcases twin.subsystem system with ⟨fault, one, two⟩ | ⟨child, after, one, two, inside⟩
  · rw [one, two]
  · rw [one, two]
    exact inside.allFresh

theorem evaluateInput (twin : diagram.Twin rename other) (injective : Function.Injective rename) (input : Terminal)
    {outer above : Resolver} (same : ∀ handle, above ⟨rename handle.owner, handle.source⟩ = outer handle) :
    other.evaluateInput input above = diagram.evaluateInput input outer := by
  have output : other.output? = diagram.output? := by
    funext output
    exact congrFun (Context.Twin.output? twin) output
  simp only [Diagram.evaluateInput, twin.like.alike.phase, twin.like.closed, twin.like.id, output]
  rcases Context.Twin.context twin input.system with ⟨missing, one, two⟩ | ⟨child, after, found, there, inside⟩
  · rw [one, two]
  · rw [Subsystems.context_eq_ok.mpr found, Subsystems.context_eq_ok.mpr there]
    simp only [inside.resolve injective]
    cases child.resolve input.index with
    | error => rfl
    | ok reading =>
      refine congrArg Except.ok ?_
      dsimp only
      rw [Reading.settledBy_renamed injective]
      cases reading.settledBy diagram.frame.id diagram.output? with
      | pending handle => exact same handle
      | known | unconnected => rfl

end Diagram.Twin
namespace Context.Twin
variable {rename : ContextId → ContextId} {tree other found after : Context}

theorem leaf? (twin : Twin rename tree other) : other.leaf? = tree.leaf?.map (Leaf.renamed rename) := by
  cases tree with
  | leaf own => rw [twin.leaf]; rfl
  | diagram frame subsystems =>
    obtain ⟨later, others, rfl, _⟩ := twin.diagram
    rfl

theorem ofDiagram {α : Type} (twin : Twin rename tree other) (sound : tree.WellFormed) (well : other.WellFormed)
    {first second : Diagram → α}
    (same : ∀ diagram other : Diagram, diagram.Twin rename other → diagram.context.WellFormed →
      other.context.WellFormed → second other = first diagram) :
    other.diagram?.map second = tree.diagram?.map first := by
  cases tree with
  | leaf own => rw [twin.leaf]; rfl
  | diagram frame subsystems =>
    obtain ⟨later, others, rfl, _⟩ := twin.diagram
    exact congrArg some (same ⟨frame, subsystems⟩ ⟨later, others⟩ twin sound well)

theorem reply (twin : Twin rename tree other) (injective : Function.Injective rename) (inside : Twin rename found after)
    (sound : found.WellFormed) (well : after.WellFormed) (query : Query) :
    query.Alike rename (tree.reply found query) (other.reply after query) := by
  cases query with
  | time => exact inside.time
  | inputCount => exact inside.inputCount
  | outputCount => exact inside.outputCount
  | entryCount partition => exact inside.entryCount partition
  | input index => exact inside.input index
  | resolve index => exact inside.resolve injective index
  | inputValue index => exact inside.inputValue injective index
  | inputVector index => exact congrArg (Except.map _) (inside.inputValue injective index)
  | inputTicket index => exact inside.inputTicket? index
  | entry partition index => exact inside.read? partition index
  | state =>
    refine (congrArg (Option.map _) inside.leaf?).trans ?_
    rw [Option.map_map]
    rfl
  | isFresh index => exact inside.isFresh index
  | allFresh => exact inside.allFresh
  | line ticket => exact congrArg (Cache.get · ticket) inside.cache
  | isValid ticket => exact congrArg (Cache.isValid · ticket) inside.cache
  | lines => exact congrArg Cache.values inside.cache
  | phase => exact inside.ofDiagram sound well (fun _ _ twins _ _ => twins.like.alike.phase)
  | concurrency => exact inside.ofDiagram sound well (fun _ _ twins _ _ => twins.like.alike.concurrency)
  | exposedInputs => exact inside.ofDiagram sound well (fun _ _ twins _ _ => twins.like.alike.inputs)
  | exposedOutputs => exact inside.ofDiagram sound well (fun _ _ twins _ _ => twins.like.alike.outputs)
  | composite => exact inside.ofDiagram sound well (fun _ _ twins _ _ => twins.like.alike.composite)
  | output output =>
    exact inside.ofDiagram sound well (fun _ _ twins _ _ => congrFun (Context.Twin.output? twins) output)
  | buffer system =>
    exact inside.ofDiagram sound well
      (fun _ _ twins _ _ => congrArg (Except.mapError _) (congrFun (Context.Twin.buffer twins) system))
  | isEvaluated system => exact inside.ofDiagram sound well (fun _ _ twins _ _ => twins.isEvaluated system)
  | evaluate input above =>
    exact inside.ofDiagram sound well
      (fun _ _ twins _ _ => twins.evaluateInput injective input (twin.upstream injective above))
  | evaluateVector input above =>
    exact inside.ofDiagram sound well
      (fun _ _ twins _ _ => congrArg (Except.map _) (twins.evaluateInput injective input (twin.upstream injective above)))
  | source input =>
    exact inside.ofDiagram sound well (fun _ _ twins _ _ => congrFun twins.like.alike.wiring.source? input)
  | fedBy output =>
    cases found with
    | leaf own => rw [inside.leaf]; exact .none
    | diagram frame subsystems =>
      obtain ⟨later, others, rfl, like⟩ := inside.diagram
      exact .some (like.alike.wiring.fed output).symm
  | wires =>
    exact inside.ofDiagram sound well
      (fun _ _ twins _ _ => congrArg (fun table => table.entries.map (fun entry => (entry.2, entry.1)))
        twins.like.alike.wiring.sources)
  | reaches origin target =>
    exact inside.ofDiagram sound well (fun _ _ twins first second =>
      twins.like.alike.wiring.reaches first.frame.coherent second.frame.coherent origin target)

-- Whatever is asked of twins, call after call, the responses are alike.
theorem session (twin : Twin rename tree other) (injective : Function.Injective rename) (sound : tree.WellFormed)
    (well : other.WellFormed) {requests : List Request} (impersonal : ∀ request ∈ requests, request.Impersonal) :
    List.Forall₂ (Response.Alike rename) (tree.session requests) (other.session requests) := by
  induction requests generalizing tree other with
  | nil => exact .nil
  | cons request rest ih =>
    have behind := fun request member => impersonal request (List.mem_cons_of_mem _ member)
    cases request with
    | act path operation =>
      have alike := twin.act sound well path (impersonal (.act path operation) List.mem_cons_self)
      unfold Context.session
      cases one : tree.act path operation <;> cases two : other.act path operation <;> rw [one, two] at alike <;>
        first | exact alike.elim | skip
      · obtain ⟨rfl, twins⟩ := alike
        exact .cons .answered (ih twins (sound.acted (by rw [one]; rfl)) (well.acted (by rw [two]; rfl)) behind)
      · obtain ⟨rfl, twins⟩ := alike
        exact .cons .refused (ih twins (sound.acted (by rw [one]; rfl)) (well.acted (by rw [two]; rfl)) behind)
      · exact .cons .aborted .nil
    | ask path query =>
      unfold Context.session
      rcases twin.locate path with ⟨misstep, one, two⟩ | ⟨found, after, one, two, inside⟩
      · rw [one, two]
        cases misstep with
        | notDiagram => exact .cons .answered (ih twin sound well behind)
        | absent => exact .cons .aborted .nil
      · rw [one, two]
        have alike := twin.reply injective inside (sound.below one) (well.below two) query
        exact .cons (.replied alike) (ih twin sound well behind)

end Context.Twin
end BlockDiagram
