import BlockDiagram.Diagram

namespace BlockDiagram.Diagram

def output? (diagram : Diagram) (output : Terminal) : Option Value := diagram.subsystems.output? output

def resolver (diagram : Diagram) (outer : Resolver) : Resolver :=
  .chain diagram.frame.id diagram.output? outer

-- `outer` follows the wires of the diagrams around this one.
def evaluateInput (diagram : Diagram) (input : Terminal) (outer : Resolver) :
    Except Refusal (Option Value) :=
  match diagram.frame.phase with
  | .building => .error .notSealed
  | .sealed =>
    match diagram.subsystems.context input.system with
    | .error missing => .error missing
    | .ok context =>
      (context.resolve input.index).map (fun reading =>
        match reading.settledBy diagram.frame.id diagram.output? with
        | .pending handle => outer handle
        | settled => settled.value?)

def evaluateVector (diagram : Diagram) (input : Terminal) (outer : Resolver) :
    Except Refusal (Option ScalarVector) :=
  (diagram.evaluateInput input outer).map (·.bind Value.vector?)

def subsystem (diagram : Diagram) (system : Nat) : Except Fault Context :=
  (diagram.subsystems.context system).mapError (.access .subsystem)

def subsystemOutput (diagram : Diagram) (system : Nat) : Except Fault OutputBuffer :=
  (diagram.subsystems.buffer system).mapError (.access .subsystemOutput)

def isEvaluated (diagram : Diagram) (system : Nat) : Except Fault Bool :=
  (diagram.subsystem system).bind Context.allFresh

def copySubsystem (diagram : Diagram) (system : Nat) (serial : Nat) : Except Fault (Context × Nat) :=
  (diagram.subsystem system).bind (fun context => context.copy (diagram.resolver .nowhere) serial)

end BlockDiagram.Diagram
