import BlockDiagram.Context.Reading

namespace BlockDiagram

def Subsystems.reissue (owner : ContextId) (subsystems : Subsystems) :
    List (Terminal × Terminal) → Except Fault Subsystems
  | [] => .ok subsystems
  | (output, input) :: rest =>
    match subsystems.send input.system (.rebind input.index (some (.dependent ⟨owner, output⟩))) with
    | .done _ rewired => rewired.reissue owner rest
    | .refused refusal _ => .error (.replay output input refusal)
    | .aborted fault => .error fault

-- Wires are recorded anew in ascending order of their inputs, whatever the order in
-- which they were made.
def Frame.copy (frame : Frame) (id : ContextId) (subsystems : Subsystems) : Frame :=
  { frame with
    id := id
    phase := .sealed
    wiring := frame.wiring.wires.foldl (fun wiring wire => wiring.connect wire.1 wire.2) .empty
    composite := subsystems.composite }

mutual
def Context.copy : Context → Resolver → Nat → Except Fault (Context × Nat)
  | .leaf own, outer, serial => .ok (.leaf (own.copy outer ⟨serial⟩), serial + 1)
  | .diagram frame subsystems, outer, serial =>
    if frame.phase = .sealed then
      match subsystems.copy (.chain frame.id subsystems.output? outer) serial with
      | .ok (copies, next) =>
        match copies.reissue ⟨next⟩ frame.wiring.wires with
        | .ok rewired => .ok (.diagram (frame.copy ⟨next⟩ copies) rewired, next + 1)
        | .error fault => .error fault
      | .error fault => .error fault
    else .error (.notSealed .clone)
def Subsystems.copy : Subsystems → Resolver → Nat → Except Fault (Subsystems × Nat)
  | .nil, _, serial => .ok (.nil, serial)
  | .vacant rest, outer, serial =>
    match rest.copy outer serial with
    | .ok (copies, next) => .ok (.vacant copies, next)
    | .error fault => .error fault
  | .filled context buffer rest, outer, serial =>
    match context.copy outer serial with
    | .ok (copied, middle) =>
      match rest.copy outer middle with
      | .ok (copies, next) => .ok (.filled copied buffer copies, next)
      | .error fault => .error fault
    | .error fault => .error fault
end

end BlockDiagram
