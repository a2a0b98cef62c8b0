import BlockDiagram.Value

namespace BlockDiagram

-- Whoever creates contexts sees to it that no serial number is used twice.
structure ContextId where
  serial : Nat
deriving DecidableEq, Repr

-- The value behind a handle is in the buffers of the diagram that owns it.
structure Handle where
  owner : ContextId
  source : Terminal
deriving DecidableEq, Repr

inductive Binding where
  | free (value : Value)
  | dependent (handle : Handle)
deriving DecidableEq, Repr

inductive Reading where
  | known (value : Value)
  | pending (handle : Handle)
  | unconnected
deriving DecidableEq, Repr

def Reading.value? : Reading → Option Value
  | .known value => some value
  | _ => none

def Reading.ofBinding : Option Binding → Reading
  | some (.free value) => .known value
  | some (.dependent handle) => .pending handle
  | none => .unconnected

abbrev Resolver := Handle → Option Value

namespace Resolver

def nowhere : Resolver := fun _ => none

def fixed (value : Value) : Resolver := fun _ => some value

-- A handle of `owner` is not asked about further out, even if nothing is stored there.
def chain (owner : ContextId) (outputs : Terminal → Option Value) (outer : Resolver) : Resolver :=
  fun handle => if handle.owner = owner then outputs handle.source else outer handle

end Resolver

def Binding.settled (outer : Resolver) : Option Binding → Option Binding
  | some (.dependent handle) => (outer handle).map .free
  | other => other

structure OutputBuffer where
  values : List (Option Value)
deriving DecidableEq, Repr

namespace OutputBuffer

def ofCount (count : Nat) : OutputBuffer := ⟨List.replicate count none⟩

def count (buffer : OutputBuffer) : Nat := buffer.values.length

def cell? (buffer : OutputBuffer) (index : Nat) : Option (Option Value) := buffer.values[index]?

def value? (buffer : OutputBuffer) (index : Nat) : Option Value := (buffer.cell? index).join

def write (buffer : OutputBuffer) (index : Nat) (value : Option Value) : OutputBuffer :=
  ⟨buffer.values.set index value⟩

theorem count_write (buffer : OutputBuffer) (index : Nat) (value : Option Value) :
    (buffer.write index value).count = buffer.count := by
  simp [count, write]

end OutputBuffer
end BlockDiagram
