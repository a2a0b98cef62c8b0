import BlockDiagram.Terminal
import BlockDiagram.Kind

namespace BlockDiagram

inductive Refusal where
  | inputOutOfRange (index count : Nat)
  | outputOutOfRange (index count : Nat)
  | subsystemOutOfRange (index count : Nat)
  | subsystemAlreadyAdded (index : Nat)
  | subsystemMissing (index : Nat)
  | wiringCycle (output input : Terminal)
  | sealed
  | notSealed
  | typeMismatch (expected found : Kind)
deriving DecidableEq, Repr

def Refusal.message : Refusal → String
  | .inputOutOfRange index count => s!"input port {index} out of range: context has {count} input ports"
  | .outputOutOfRange index count => s!"output port {index} out of range: context has {count} output ports"
  | .subsystemOutOfRange index count => s!"subsystem {index} out of range: diagram has {count} subsystems"
  | .subsystemAlreadyAdded index => s!"subsystem {index} has already been added"
  | .subsystemMissing index => s!"subsystem {index} has not been added"
  | .wiringCycle output input =>
    "connecting " ++ output.text ++ " -> " ++ input.text ++ " would close a loop between subsystems"
  | .sealed => "diagram context is sealed; allocation-only operations are no longer allowed"
  | .notSealed => "diagram context is still being built"
  | .typeMismatch expected found =>
    "type mismatch: expected " ++ expected.name ++ ", found " ++ found.name

-- The accesses that abort where the same lookup elsewhere is refused.
inductive Access where
  | subsystem
  | subsystemForWriting
  | subsystemOutput
  | inputInvalidation
deriving DecidableEq, Repr

def Access.name : Access → String
  | .subsystem => "DiagramContext::subsystem_context"
  | .subsystemForWriting => "DiagramContext::subsystem_context_mut"
  | .subsystemOutput => "DiagramContext::subsystem_output"
  | .inputInvalidation => "DiagramContext::invalidate_input_port"

inductive SealedOnly where
  | setTime
  | propagateOutput
  | propagateOutputs
  | clone
deriving DecidableEq, Repr

def SealedOnly.name : SealedOnly → String
  | .setTime => "set_time"
  | .propagateOutput => "propagate_invalid_outputs"
  | .propagateOutputs => "propagate_invalid_subsystem_outputs"
  | .clone => "clone"

inductive Fault where
  | unknownTicket (ticket : Nat)
  | unknownPrerequisite (ticket prerequisite : Nat)
  | indexOutOfBounds (length index : Nat)
  | lengthMismatch (length given : Nat)
  | inputOutOfRange (index count : Nat)
  | outputOutOfRange (index count : Nat)
  | diagramOutputOutOfRange (index count : Nat)
  | subsystemOutputOutOfRange (index system count : Nat)
  | notSealed (operation : SealedOnly)
  | access (kind : Access) (refusal : Refusal)
  | replay (output input : Terminal) (refusal : Refusal)
deriving DecidableEq, Repr

def Fault.message : Fault → String
  | .unknownTicket ticket => s!"unknown cache ticket #{ticket}"
  | .unknownPrerequisite ticket prerequisite =>
    s!"cache ticket #{ticket} lists unknown prerequisite #{prerequisite}"
  | .indexOutOfBounds length index =>
    s!"index out of bounds: the len is {length} but the index is {index}"
  | .lengthMismatch length given =>
    "assertion `left == right` failed: BasicVector::set_from_slice length mismatch\n" ++
      s!"  left: {length}\n right: {given}"
  | .inputOutOfRange index count => s!"input port {index} out of range: context has {count} input ports"
  | .outputOutOfRange index count => s!"output port {index} out of range: context has {count} output ports"
  | .diagramOutputOutOfRange index count =>
    s!"output port {index} out of range: diagram has {count} output ports"
  | .subsystemOutputOutOfRange index system count =>
    s!"output port {index} out of range: subsystem {system} has {count} output ports"
  | .notSealed operation =>
    "DiagramContext::" ++ operation.name ++ " called before make_state: " ++ Refusal.notSealed.message
  | .access kind refusal => kind.name ++ ": " ++ refusal.message
  | .replay output input refusal =>
    "replaying connection " ++ output.text ++ " -> " ++ input.text ++ " on clone failed: " ++ refusal.message

-- A refused call leaves a state behind, which may differ from the one before. An
-- aborted call has broken a rule its caller had to keep.
inductive Outcome (σ α : Type) where
  | done (value : α) (state : σ)
  | refused (refusal : Refusal) (state : σ)
  | aborted (fault : Fault)
deriving DecidableEq, Repr

namespace Outcome
variable {σ τ α β : Type}

def within (rebuild : σ → τ) : Outcome σ α → Outcome τ α
  | .done value state => .done value (rebuild state)
  | .refused refusal state => .refused refusal (rebuild state)
  | .aborted fault => .aborted fault

def answering (value : β) : Outcome σ α → Outcome σ β
  | .done _ state => .done value state
  | .refused refusal state => .refused refusal state
  | .aborted fault => .aborted fault

def ofFault (state : σ) : Except Fault α → Outcome σ α
  | .ok value => .done value state
  | .error fault => .aborted fault

def ofRefusal (state : σ) : Except Refusal α → Outcome σ α
  | .ok value => .done value state
  | .error refusal => .refused refusal state

end Outcome
end BlockDiagram
