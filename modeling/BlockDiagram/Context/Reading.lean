import BlockDiagram.Context.Delivery

namespace BlockDiagram

mutual
def Context.input : Context → Nat → Except Refusal (Option Binding)
  | .leaf own, index => own.input index
  | .diagram frame subsystems, index =>
    match frame.input index with
    | .ok exposed =>
      (subsystems.inputAt exposed.terminal.system exposed.terminal.index).getD
        (.error (subsystems.absence exposed.terminal.system))
    | .error refusal => .error refusal
def Subsystems.inputAt : Subsystems → Nat → Nat → Option (Except Refusal (Option Binding))
  | .nil, _, _ => none
  | .vacant _, 0, _ => none
  | .filled context _ _, 0, index => some (context.input index)
  | .vacant rest, system + 1, index => rest.inputAt system index
  | .filled _ _ rest, system + 1, index => rest.inputAt system index
end

-- A handle the diagram owns stands for the value in its buffer, whether or not
-- the wire it was made for is still there.
def Reading.settledBy (owner : ContextId) (outputs : Terminal → Option Value) : Reading → Reading
  | .pending handle =>
    if handle.owner = owner then
      match outputs handle.source with
      | some value => .known value
      | none => .unconnected
    else .pending handle
  | other => other

mutual
def Context.resolve : Context → Nat → Except Refusal Reading
  | .leaf own, index => (own.input index).map Reading.ofBinding
  | .diagram frame subsystems, index =>
    match frame.input index with
    | .ok exposed =>
      ((subsystems.resolveAt exposed.terminal.system exposed.terminal.index).getD
        (.error (subsystems.absence exposed.terminal.system))).map
          (Reading.settledBy frame.id subsystems.output?)
    | .error refusal => .error refusal
def Subsystems.resolveAt : Subsystems → Nat → Nat → Option (Except Refusal Reading)
  | .nil, _, _ => none
  | .vacant _, 0, _ => none
  | .filled context _ _, 0, index => some (context.resolve index)
  | .vacant rest, system + 1, index => rest.resolveAt system index
  | .filled _ _ rest, system + 1, index => rest.resolveAt system index
end

def Context.inputValue (context : Context) (index : Nat) : Except Refusal (Option Value) :=
  (context.resolve index).map Reading.value?

def Context.inputVector (context : Context) (index : Nat) : Except Refusal (Option ScalarVector) :=
  (context.inputValue index).map (·.bind Value.vector?)

mutual
def Context.read? : Context → (partition : Partition) → Nat → Option partition.Entry
  | .leaf own, partition, index => own.state.read? partition index
  | .diagram frame subsystems, partition, index =>
    match frame.composite.slot? partition index with
    | some slot => subsystems.readAt? slot.system partition slot.index
    | none => none
def Subsystems.readAt? : Subsystems → Nat → (partition : Partition) → Nat → Option partition.Entry
  | .nil, _, _, _ => none
  | .vacant _, 0, _, _ => none
  | .filled context _ _, 0, partition, index => context.read? partition index
  | .vacant rest, system + 1, partition, index => rest.readAt? system partition index
  | .filled _ _ rest, system + 1, partition, index => rest.readAt? system partition index
end

def Context.entries (context : Context) (partition : Partition) : List (Option partition.Entry) :=
  (List.range (context.entryCount partition)).map (context.read? partition)

mutual
def Context.isFresh : Context → Nat → Except Fault Bool
  | .leaf own, index => own.isFresh index
  | .diagram frame subsystems, index =>
    match frame.output index with
    | .ok terminal =>
      (subsystems.isFreshAt terminal.system terminal.index).getD
        (.error (.access .subsystem (subsystems.absence terminal.system)))
    | .error fault => .error fault
def Subsystems.isFreshAt : Subsystems → Nat → Nat → Option (Except Fault Bool)
  | .nil, _, _ => none
  | .vacant _, 0, _ => none
  | .filled context _ _, 0, index => some (context.isFresh index)
  | .vacant rest, system + 1, index => rest.isFreshAt system index
  | .filled _ _ rest, system + 1, index => rest.isFreshAt system index
end

def Context.allFresh (context : Context) : Except Fault Bool :=
  (List.range context.outputCount).foldr
    (fun index rest =>
      match context.isFresh index with
      | .ok true => rest
      | answer => answer)
    (.ok true)

-- What depended on the entry is invalidated whether or not `revise` makes anything of it.
def Context.edit (context : Context) (partition : Partition) (index : Nat)
    (revise : partition.Entry → Outcome Unit partition.Entry) : Outcome Context Bool :=
  match context.send (.openEntry partition index) with
  | .done _ opened =>
    match opened.read? partition index with
    | none => .done false opened
    | some entry =>
      match revise entry with
      | .done written _ => (opened.send (.storeEntry partition index written)).answering true
      | .refused refusal _ => .refused refusal opened
      | .aborted fault => .aborted fault
  | .refused refusal left => .refused refusal left
  | .aborted fault => .aborted fault

theorem Subsystems.inputAt_eq (subsystems : Subsystems) (system index : Nat) :
    subsystems.inputAt system index = (subsystems.context? system).map (·.input index) := by
  fun_induction Subsystems.context? subsystems system <;> simp_all [Subsystems.inputAt]

theorem Subsystems.resolveAt_eq (subsystems : Subsystems) (system index : Nat) :
    subsystems.resolveAt system index = (subsystems.context? system).map (·.resolve index) := by
  fun_induction Subsystems.context? subsystems system <;> simp_all [Subsystems.resolveAt]

theorem Subsystems.readAt?_eq (subsystems : Subsystems) (system : Nat) (partition : Partition)
    (index : Nat) :
    subsystems.readAt? system partition index =
      (subsystems.context? system).bind (·.read? partition index) := by
  fun_induction Subsystems.context? subsystems system <;> simp_all [Subsystems.readAt?]

theorem Subsystems.isFreshAt_eq (subsystems : Subsystems) (system index : Nat) :
    subsystems.isFreshAt system index = (subsystems.context? system).map (·.isFresh index) := by
  fun_induction Subsystems.context? subsystems system <;> simp_all [Subsystems.isFreshAt]

end BlockDiagram
