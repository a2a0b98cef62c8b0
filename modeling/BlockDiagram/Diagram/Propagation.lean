import BlockDiagram.Diagram.Evaluation

namespace BlockDiagram.Diagram

def propagateFrom (diagram : Diagram) (start : List Terminal) : Outcome Diagram (List Nat) :=
  match diagram.subsystems.deliver (diagram.frame.ripple diagram.layout start) with
  | .ok rippled => .done (diagram.frame.reachedOutputs diagram.layout start) (diagram.withSubsystems rippled)
  | .error fault => .aborted fault

def strayOutput? (count : Nat) (indices : List Nat) : Option Nat := indices.find? (count ≤ ·)

def propagateAs (operation : SealedOnly) (diagram : Diagram) (system : Nat) (indices : List Nat) :
    Outcome Diagram (List Nat) :=
  match diagram.frame.phase with
  | .building => .aborted (.notSealed operation)
  | .sealed =>
    match diagram.subsystemOutput system with
    | .error fault => .aborted fault
    | .ok buffer =>
      match strayOutput? buffer.count indices with
      | some index => .aborted (.subsystemOutputOutOfRange index system buffer.count)
      | none =>
        diagram.propagateFrom
          ((terminalsOf system buffer.count).filter (fun output => output.index ∈ indices))

def propagate (diagram : Diagram) (system index : Nat) : Outcome Diagram (List Nat) :=
  propagateAs .propagateOutput diagram system [index]

def propagateMany (diagram : Diagram) (system : Nat) (indices : List Nat) : Outcome Diagram (List Nat) :=
  propagateAs .propagateOutputs diagram system indices

def store (diagram : Diagram) (output : Terminal) (buffer : OutputBuffer) (value : Value) : Diagram :=
  diagram.withSubsystems
    (diagram.subsystems.putBuffer output.system (buffer.write output.index (some value)))

-- A diagram around this one keeps its outputs in buffers of its own and is not told.
def setOutput (diagram : Diagram) (output : Terminal) (value : Value) : Outcome Diagram (List Nat) :=
  match diagram.frame.phase with
  | .building => .refused .notSealed diagram
  | .sealed =>
    match diagram.subsystems.buffer output.system with
    | .error missing => .refused missing diagram
    | .ok buffer =>
      if output.index < buffer.count then
        match (diagram.store output buffer value).propagateFrom [output] with
        | .done changed rippled =>
          ((rippled.subsystems.send output.system (.mark output.index true)).answering changed).within
            rippled.withSubsystems
        | ending => ending
      else .refused (.outputOutOfRange output.index buffer.count) diagram

def markEvaluated (diagram : Diagram) (system : Nat) : Outcome Diagram Unit :=
  match diagram.subsystems.context system with
  | .error missing => .aborted (.access .subsystemForWriting missing)
  | .ok context =>
    context.markAllFresh.within (fun marked =>
      diagram.withSubsystems (diagram.subsystems.putContext system marked))

end BlockDiagram.Diagram
