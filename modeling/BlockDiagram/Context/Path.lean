import BlockDiagram.Context

namespace BlockDiagram

inductive Misstep where
  | notDiagram
  | absent (missing : Refusal)
deriving DecidableEq, Repr

namespace Context

def locate : Context → List Nat → Except Misstep Context
  | context, [] => .ok context
  | .leaf _, _ :: _ => .error .notDiagram
  | .diagram _ subsystems, system :: path =>
    match subsystems.context system with
    | .ok context => context.locate path
    | .error missing => .error (.absent missing)

def graft : Context → List Nat → Context → Context
  | _, [], replacement => replacement
  | .leaf own, _ :: _, _ => .leaf own
  | .diagram frame subsystems, system :: path, replacement =>
    match subsystems.context? system with
    | some context => .diagram frame (subsystems.putContext system (context.graft path replacement))
    | none => .diagram frame subsystems

def operate {α : Type} (context : Context) (path : List Nat) (operation : Context → Outcome Context α) :
    Except Misstep (Outcome Context α) :=
  (context.locate path).map (fun found => (operation found).within (context.graft path))

end Context

-- A context comes before what is inside it and earlier places before later ones.
mutual
def Context.pathTo (id : ContextId) : Context → Option (List Nat)
  | .leaf own => if own.id = id then some [] else none
  | .diagram frame subsystems => if frame.id = id then some [] else subsystems.pathTo id 0
def Subsystems.pathTo (id : ContextId) : Subsystems → Nat → Option (List Nat)
  | .nil, _ => none
  | .vacant rest, system => rest.pathTo id (system + 1)
  | .filled context _ rest, system =>
    match context.pathTo id with
    | some path => some (system :: path)
    | none => rest.pathTo id (system + 1)
end

end BlockDiagram
