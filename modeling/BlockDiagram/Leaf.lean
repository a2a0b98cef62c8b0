import BlockDiagram.Cache
import BlockDiagram.Change

namespace BlockDiagram

structure Leaf where
  id : ContextId
  time : Float
  state : State
  inputs : List (Option Binding)
  fresh : List Bool
  cache : Cache
deriving DecidableEq, Repr

def timeTicket : Ticket := ⟨0⟩
def stateTicket : Ticket := ⟨1⟩

namespace Leaf

def inputTicket (index : Nat) : Ticket := ⟨2 + index⟩

def create (id : ContextId) (configuration : Configuration) (modal : List Value) : Leaf where
  id := id
  time := 0.0
  state := .initial configuration modal
  inputs := List.replicate configuration.inputs none
  fresh := List.replicate configuration.outputs false
  cache := .blank (2 + configuration.inputs)

def disturb (leaf : Leaf) (ticket : Ticket) : Leaf :=
  { leaf with cache := leaf.cache.clear ticket, fresh := leaf.fresh.map (fun _ => false) }

-- What depends on the state is cleared, whatever is written then.
def openState (leaf : Leaf) : Leaf := leaf.disturb stateTicket

def writeState (leaf : Leaf) (write : State → State) : Leaf :=
  { leaf.openState with state := write leaf.state }

def assignContinuous (leaf : Leaf) (scalars : List Float) : Outcome Leaf Unit :=
  match leaf.state.continuous.assign scalars with
  | .ok changed => .done () (leaf.writeState ({ · with continuous := changed }))
  | .error fault => .aborted fault

-- False if there is no such group; the state has been opened even so.
def assignGroup (leaf : Leaf) (group : Nat) (scalars : List Float) : Outcome Leaf Bool :=
  match leaf.state.difference[group]? with
  | none => .done false leaf.openState
  | some vector =>
    match vector.assign scalars with
    | .ok changed => .done true (leaf.writeState (·.store .difference group changed))
    | .error fault => .aborted fault

def replaceModal (leaf : Leaf) (index : Nat) (value : Value) : Outcome Leaf Bool :=
  .done (decide (index < leaf.state.modal.length)) (leaf.writeState (·.store .modal index value))

def verdict (leaf : Leaf) : Change → Verdict
  | .bind index _ | .rebind index _ =>
    if index < leaf.inputs.length then .accepted
    else .refused (.inputOutOfRange index leaf.inputs.length)
  | .invalidateInput index =>
    if index < leaf.inputs.length then .accepted
    else .aborted (.inputOutOfRange index leaf.inputs.length)
  | .mark index _ =>
    if index < leaf.fresh.length then .accepted
    else .aborted (.outputOutOfRange index leaf.fresh.length)
  | _ => .accepted

-- Opening or storing an entry the state does not have is accepted and without effect.
def receive (leaf : Leaf) : Change → Leaf
  | .setTime time => { leaf.disturb timeTicket with time := time }
  | .invalidateTime => leaf.disturb timeTicket
  | .invalidateState => leaf.disturb stateTicket
  | .invalidateInput index => leaf.disturb (inputTicket index)
  | .mark index fresh => { leaf with fresh := leaf.fresh.set index fresh }
  | .bind index binding =>
    { leaf.disturb (inputTicket index) with inputs := leaf.inputs.set index binding }
  | .rebind index binding => { leaf with inputs := leaf.inputs.set index binding }
  | .openEntry partition index =>
    if index < leaf.state.count partition then leaf.openState else leaf
  | .storeEntry partition index entry =>
    { leaf with state := leaf.state.store partition index entry }

def input (leaf : Leaf) (index : Nat) : Except Refusal (Option Binding) :=
  match leaf.inputs[index]? with
  | some binding => .ok binding
  | none => .error (.inputOutOfRange index leaf.inputs.length)

def isFresh (leaf : Leaf) (index : Nat) : Except Fault Bool :=
  match leaf.fresh[index]? with
  | some fresh => .ok fresh
  | none => .error (.outputOutOfRange index leaf.fresh.length)

def copy (leaf : Leaf) (outer : Resolver) (id : ContextId) : Leaf :=
  { leaf with id := id, inputs := leaf.inputs.map (Binding.settled outer) }

theorem receive_counts (leaf : Leaf) (change : Change) :
    (leaf.receive change).inputs.length = leaf.inputs.length ∧
      (leaf.receive change).fresh.length = leaf.fresh.length := by
  cases change <;> simp only [receive] <;> try split
  all_goals simp [disturb, openState]

theorem outputs_receiveAll (leaf : Leaf) (changes : List Change) :
    (changes.foldl receive leaf).fresh.length = leaf.fresh.length := by
  induction changes generalizing leaf with
  | nil => rfl
  | cons change rest ih => rw [List.foldl_cons, ih, (leaf.receive_counts change).2]

end Leaf
end BlockDiagram
