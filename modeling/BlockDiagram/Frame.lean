import BlockDiagram.Wiring
import BlockDiagram.Leaf

namespace BlockDiagram

inductive Phase where
  | building
  | sealed
deriving DecidableEq, Repr

def Phase.name : Phase → String
  | .building => "Building"
  | .sealed => "Sealed"

structure ExposedInput where
  terminal : Terminal
  ticket : Ticket
deriving DecidableEq, Repr

structure Frame where
  id : ContextId
  phase : Phase
  concurrency : Concurrency
  time : Float
  inputs : List ExposedInput
  outputs : List Terminal
  wiring : Wiring
  composite : CompositeState
  cache : Cache
deriving DecidableEq, Repr

structure Outline where
  outputs : Nat
  buffered : Nat
deriving DecidableEq, Repr

abbrev Layout := List (Option Outline)

namespace Layout

def outline? (layout : Layout) (system : Nat) : Option Outline := layout[system]?.join

def present (layout : Layout) : List Nat :=
  (List.range layout.length).filter (fun system => (layout.outline? system).isSome)

def declaredBy (layout : Layout) (system : Nat) : List Terminal :=
  ((layout.outline? system).map (fun outline => terminalsOf system outline.outputs)).getD []

def bufferedFor (layout : Layout) (system : Nat) : List Terminal :=
  ((layout.outline? system).map (fun outline => terminalsOf system outline.buffered)).getD []

def declared (layout : Layout) : List Terminal := (List.range layout.length).flatMap layout.declaredBy

def buffered (layout : Layout) : List Terminal := (List.range layout.length).flatMap layout.bufferedFor

end Layout

namespace Frame

def create (id : ContextId) (concurrency : Concurrency) : Frame where
  id := id
  phase := .building
  concurrency := concurrency
  time := 0.0
  inputs := []
  outputs := []
  wiring := .empty
  composite := .empty
  cache := .blank 2

def isSealed (frame : Frame) : Bool := frame.phase = .sealed

def input (frame : Frame) (index : Nat) : Except Refusal ExposedInput :=
  match frame.inputs[index]? with
  | some exposed => .ok exposed
  | none => .error (.inputOutOfRange index frame.inputs.length)

def output (frame : Frame) (index : Nat) : Except Fault Terminal :=
  match frame.outputs[index]? with
  | some terminal => .ok terminal
  | none => .error (.diagramOutputOutOfRange index frame.outputs.length)

def clear (frame : Frame) (ticket : Ticket) : Frame := { frame with cache := frame.cache.clear ticket }

def fedBy (frame : Frame) (layout : Layout) (output : Terminal) : List Terminal :=
  (frame.wiring.inputsOf output).flatMap (fun input => layout.declaredBy input.system)

def downstream (frame : Frame) (layout : Layout) (start : List Terminal) : List Terminal :=
  (Frontier.starting layout.declared start).explore (frame.fedBy layout)

-- Buffers may be kept for more outputs than a context declares; there is then
-- nothing to mark.
def staleness (layout : Layout) (output : Terminal) : Mail :=
  if output ∈ layout.declaredBy output.system then [(output.system, .mark output.index false)]
  else []

def invalidations (frame : Frame) (layout : Layout) (output : Terminal) : Mail :=
  ((frame.wiring.inputsOf output).filter (fun input => (layout.outline? input.system).isSome)).map
    (fun input => (input.system, .invalidateInput input.index))

def ripple (frame : Frame) (layout : Layout) (start : List Terminal) : Mail :=
  (frame.downstream layout start).flatMap
    (fun output => staleness layout output ++ frame.invalidations layout output)

def reachedOutputs (frame : Frame) (layout : Layout) (start : List Terminal) : List Nat :=
  let reached := frame.downstream layout start
  (List.range frame.outputs.length).filter
    (fun index => frame.outputs[index]?.any (fun output => decide (output ∈ reached)))

def verdict (frame : Frame) : Change → Verdict
  | .setTime _ => if frame.phase = .sealed then .accepted else .aborted (.notSealed .setTime)
  | .invalidateInput index =>
    match frame.input index with
    | .ok _ => .accepted
    | .error refusal => .aborted (.access .inputInvalidation refusal)
  | .bind index _ | .rebind index _ =>
    match frame.input index with
    | .ok _ => .accepted
    | .error refusal => .refused refusal
  | .mark index _ =>
    match frame.output index with
    | .ok _ => .accepted
    | .error fault => .aborted fault
  | _ => .accepted

def receive (frame : Frame) : Change → Frame
  | .setTime time => { frame.clear timeTicket with time := time }
  | .invalidateTime => frame.clear timeTicket
  | .invalidateState => frame.clear stateTicket
  | .invalidateInput index | .bind index _ =>
    match frame.input index with
    | .ok exposed => frame.clear exposed.ticket
    | .error _ => frame
  | .openEntry partition index =>
    match frame.composite.slot? partition index with
    | some _ => frame.clear stateTicket
    | none => frame
  | _ => frame

def broadcast (frame : Frame) (layout : Layout) (change : Change) : Mail :=
  layout.present.map (fun system => (system, change)) ++
    frame.ripple layout layout.buffered

def inward (frame : Frame) (layout : Layout) (index : Nat) (change : Nat → Change) : Mail :=
  match frame.input index with
  | .ok exposed =>
    (exposed.terminal.system, change exposed.terminal.index) ::
      frame.ripple layout (layout.bufferedFor exposed.terminal.system)
  | .error _ => []

def mail (frame : Frame) (layout : Layout) : Change → Mail
  | .setTime time => frame.broadcast layout (.setTime time)
  | .invalidateTime => frame.broadcast layout .invalidateTime
  | .invalidateState => frame.broadcast layout .invalidateState
  | .invalidateInput index => frame.inward layout index .invalidateInput
  | .bind index binding => frame.inward layout index (.bind · binding)
  | .rebind index binding =>
    match frame.input index with
    | .ok exposed => [(exposed.terminal.system, .rebind exposed.terminal.index binding)]
    | .error _ => []
  | .mark index fresh =>
    match frame.output index with
    | .ok terminal => [(terminal.system, .mark terminal.index fresh)]
    | .error _ => []
  | .openEntry partition index =>
    match frame.composite.slot? partition index with
    | some slot =>
      frame.ripple layout (layout.bufferedFor slot.system) ++
        [(slot.system, .openEntry partition slot.index)]
    | none => []
  | .storeEntry partition index entry =>
    match frame.composite.slot? partition index with
    | some slot => [(slot.system, .storeEntry partition slot.index entry)]
    | none => []

-- Whatever a diagram is told, only its time and its cache can be other than before.
theorem receive_eq (frame : Frame) (change : Change) :
    ∃ time cache, frame.receive change = { frame with time := time, cache := cache } := by
  cases change with
  | invalidateInput | bind | openEntry =>
    simp only [receive]
    split
    · exact ⟨_, _, rfl⟩
    · exact ⟨_, _, rfl⟩
  | _ => exact ⟨_, _, rfl⟩

theorem receiveAll_eq (frame : Frame) (changes : List Change) :
    ∃ time cache, changes.foldl receive frame = { frame with time := time, cache := cache } := by
  induction changes generalizing frame with
  | nil => exact ⟨_, _, rfl⟩
  | cons change rest ih =>
    obtain ⟨_, _, first⟩ := frame.receive_eq change
    obtain ⟨time, cache, reached⟩ := ih (frame.receive change)
    refine ⟨time, cache, ?_⟩
    rw [List.foldl_cons, reached, first]

structure Steady (frame later : Frame) : Prop where
  phase : later.phase = frame.phase
  inputs : later.inputs = frame.inputs
  outputs : later.outputs = frame.outputs
  wiring : later.wiring = frame.wiring
  composite : later.composite = frame.composite

namespace Steady
variable {first second third : Frame}

theorem refl (frame : Frame) : frame.Steady frame := ⟨rfl, rfl, rfl, rfl, rfl⟩

theorem trans (before : first.Steady second) (after : second.Steady third) : first.Steady third where
  phase := after.phase.trans before.phase
  inputs := after.inputs.trans before.inputs
  outputs := after.outputs.trans before.outputs
  wiring := after.wiring.trans before.wiring
  composite := after.composite.trans before.composite

theorem receiveAll (frame : Frame) (changes : List Change) : frame.Steady (changes.foldl receive frame) := by
  obtain ⟨_, _, reached⟩ := frame.receiveAll_eq changes
  rw [reached]
  exact ⟨rfl, rfl, rfl, rfl, rfl⟩

theorem ripple (steady : first.Steady second) : second.ripple = first.ripple := by
  have fed : second.fedBy = first.fedBy := by
    funext layout output
    simp only [fedBy, steady.wiring]
  funext layout start
  simp only [Frame.ripple, downstream, invalidations, fed, steady.wiring]

theorem mail (steady : first.Steady second) : second.mail = first.mail := by
  funext layout change
  cases change <;>
    simp only [Frame.mail, broadcast, inward, input, output, steady.inputs, steady.outputs, steady.composite,
      steady.ripple]

end Steady

theorem mail_receiveAll (frame : Frame) (changes : List Change) (layout : Layout) :
    (changes.foldl receive frame).mail layout = frame.mail layout :=
  congrFun (Steady.receiveAll frame changes).mail layout

end Frame
end BlockDiagram
