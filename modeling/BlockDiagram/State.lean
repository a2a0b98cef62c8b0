import BlockDiagram.Value
import BlockDiagram.Configuration

namespace BlockDiagram

inductive Partition where
  | continuous
  | difference
  | modal
deriving DecidableEq, Repr

def Partition.Entry : Partition → Type
  | .continuous => Float
  | .difference => ScalarVector
  | .modal => Value

structure State where
  continuous : ScalarVector
  difference : List ScalarVector
  modal : List Value
deriving DecidableEq, Repr

namespace State

def initial (configuration : Configuration) (modal : List Value) : State :=
  ⟨.zeros configuration.continuous, configuration.difference.map .zeros, modal⟩

def entries (state : State) : (partition : Partition) → List partition.Entry
  | .continuous => state.continuous.scalars
  | .difference => state.difference
  | .modal => state.modal

def count (state : State) (partition : Partition) : Nat := (state.entries partition).length

def read? (state : State) (partition : Partition) (index : Nat) : Option partition.Entry :=
  (state.entries partition)[index]?

def store (state : State) : (partition : Partition) → Nat → partition.Entry → State
  | .continuous, index, scalar => { state with continuous := state.continuous.set index scalar }
  | .difference, index, group => { state with difference := state.difference.set index group }
  | .modal, index, value => { state with modal := state.modal.set index value }

theorem entries_store (state : State) (partition : Partition) (index : Nat) (entry : partition.Entry) :
    (state.store partition index entry).entries partition = (state.entries partition).set index entry := by
  cases partition <;> rfl

theorem entries_store_other {written : Partition} (state : State) (index : Nat) (entry : written.Entry)
    {partition : Partition} (other : partition ≠ written) :
    (state.store written index entry).entries partition = state.entries partition := by
  cases partition <;> cases written <;> first | rfl | exact absurd rfl other

theorem count_store {written : Partition} (state : State) (index : Nat) (entry : written.Entry)
    (partition : Partition) : (state.store written index entry).count partition = state.count partition := by
  by_cases same : partition = written
  · subst same; simp [count, entries_store]
  · simp [count, entries_store_other state index entry same]

end State

structure Slot where
  system : Nat
  index : Nat
deriving DecidableEq, Repr

def slotsOf (system count : Nat) : List Slot := (List.range count).map (Slot.mk system)

-- A diagram has no state of its own and numbers the entries of its subsystems.
structure CompositeState where
  continuous : List Slot
  difference : List Slot
  modal : List Slot
deriving DecidableEq, Repr

namespace CompositeState

def empty : CompositeState := ⟨[], [], []⟩

def tabulate (slots : Partition → List Slot) : CompositeState :=
  ⟨slots .continuous, slots .difference, slots .modal⟩

def slots (composite : CompositeState) : Partition → List Slot
  | .continuous => composite.continuous
  | .difference => composite.difference
  | .modal => composite.modal

def count (composite : CompositeState) (partition : Partition) : Nat := (composite.slots partition).length

def slot? (composite : CompositeState) (partition : Partition) (index : Nat) : Option Slot :=
  (composite.slots partition)[index]?

theorem slots_tabulate (slots : Partition → List Slot) (partition : Partition) :
    (tabulate slots).slots partition = slots partition := by
  cases partition <;> rfl

end CompositeState
end BlockDiagram
