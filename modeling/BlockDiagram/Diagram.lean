import BlockDiagram.Context.Copy
import BlockDiagram.Context.Path

namespace BlockDiagram

structure Diagram where
  frame : Frame
  subsystems : Subsystems

def Diagram.context (diagram : Diagram) : Context := .diagram diagram.frame diagram.subsystems

def Context.diagram? : Context → Option Diagram
  | .leaf _ => none
  | .diagram frame subsystems => some ⟨frame, subsystems⟩

def Context.leaf? : Context → Option Leaf
  | .leaf own => some own
  | .diagram .. => none

namespace Diagram

def create (id : ContextId) (places : Nat) (concurrency : Concurrency) : Diagram :=
  ⟨.create id concurrency, .vacancies places⟩

def layout (diagram : Diagram) : Layout := diagram.subsystems.layout

def withSubsystems (diagram : Diagram) (subsystems : Subsystems) : Diagram :=
  { diagram with subsystems := subsystems }

def whileBuilding {α : Type} (diagram : Diagram) (build : Outcome Diagram α) : Outcome Diagram α :=
  match diagram.frame.phase with
  | .building => build
  | .sealed => .refused .sealed diagram

def add (diagram : Diagram) (system : Nat) (context : Context) (buffer : OutputBuffer) :
    Outcome Diagram Unit :=
  diagram.whileBuilding <|
    if system < diagram.subsystems.size then
      match diagram.subsystems.context? system with
      | none => .done () (diagram.withSubsystems (diagram.subsystems.install system context buffer))
      | some _ => .refused (.subsystemAlreadyAdded system) diagram
    else .refused (.subsystemOutOfRange system diagram.subsystems.size) diagram

def checkOutput (diagram : Diagram) (output : Terminal) : Except Refusal Unit :=
  match diagram.subsystems.buffer output.system with
  | .error missing => .error missing
  | .ok buffer =>
    if output.index < buffer.count then .ok ()
    else .error (.outputOutOfRange output.index buffer.count)

def checkInput (diagram : Diagram) (input : Terminal) : Except Refusal Unit :=
  match diagram.subsystems.context input.system with
  | .error missing => .error missing
  | .ok context =>
    if input.index < context.inputCount then .ok ()
    else .error (.inputOutOfRange input.index context.inputCount)

def closesLoop (diagram : Diagram) (output input : Terminal) : Bool :=
  output.system = input.system || diagram.frame.wiring.reaches input.system output.system

def bindingTo (diagram : Diagram) (output : Terminal) : Binding := .dependent ⟨diagram.frame.id, output⟩

def record (diagram : Diagram) (output input : Terminal) : Diagram :=
  { diagram with frame := { diagram.frame with wiring := diagram.frame.wiring.connect output input } }

def connect (diagram : Diagram) (output input : Terminal) : Outcome Diagram Unit :=
  diagram.whileBuilding <|
    match diagram.checkOutput output with
    | .error refusal => .refused refusal diagram
    | .ok _ =>
      match diagram.checkInput input with
      | .error refusal => .refused refusal diagram
      | .ok _ =>
        if diagram.closesLoop output input then .refused (.wiringCycle output input) diagram
        else
          match diagram.subsystems.send input.system
            (.bind input.index (some (diagram.bindingTo output))) with
          | .done _ wired => .done () ((diagram.withSubsystems wired).record output input)
          | .refused refusal left => .refused refusal (diagram.withSubsystems left)
          | .aborted fault => .aborted fault

-- The same input may be exposed more than once.
def exposeInput (diagram : Diagram) (input : Terminal) : Outcome Diagram Nat :=
  diagram.whileBuilding <|
    match diagram.checkInput input with
    | .error refusal => .refused refusal diagram
    | .ok _ =>
      let frame := diagram.frame
      .done frame.inputs.length { diagram with frame := { frame with
        inputs := frame.inputs ++ [⟨input, ⟨frame.cache.size⟩⟩]
        cache := frame.cache.extend [] } }

def exposeOutput (diagram : Diagram) (output : Terminal) : Outcome Diagram Nat :=
  diagram.whileBuilding <|
    match diagram.checkOutput output with
    | .error refusal => .refused refusal diagram
    | .ok _ =>
      let frame := diagram.frame
      .done frame.outputs.length { diagram with frame := { frame with
        outputs := frame.outputs ++ [output] } }

def firstVacancy? (diagram : Diagram) : Option Nat :=
  (List.range diagram.subsystems.size).find? (fun system => (diagram.subsystems.context? system).isNone)

def finishBuilding (diagram : Diagram) : Outcome Diagram Unit :=
  diagram.whileBuilding <|
    match diagram.firstVacancy? with
    | some system => .refused (.subsystemMissing system) diagram
    | none =>
      .done () { diagram with frame := { diagram.frame with
        phase := .sealed
        composite := diagram.subsystems.composite } }

end Diagram
end BlockDiagram
