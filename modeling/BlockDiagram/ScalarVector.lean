import BlockDiagram.Outcome

namespace BlockDiagram

structure ScalarVector where
  scalars : List Float
deriving DecidableEq, Repr

namespace ScalarVector

def zeros (length : Nat) : ScalarVector := ⟨List.replicate length 0.0⟩

def length (vector : ScalarVector) : Nat := vector.scalars.length

def get? (vector : ScalarVector) (index : Nat) : Option Float := vector.scalars[index]?

def scalarAt (vector : ScalarVector) (index : Nat) : Except Fault Float :=
  match vector.get? index with
  | some scalar => .ok scalar
  | none => .error (.indexOutOfBounds vector.length index)

def set (vector : ScalarVector) (index : Nat) (scalar : Float) : ScalarVector :=
  ⟨vector.scalars.set index scalar⟩

def setAt (vector : ScalarVector) (index : Nat) (scalar : Float) : Except Fault ScalarVector :=
  if index < vector.length then .ok (vector.set index scalar)
  else .error (.indexOutOfBounds vector.length index)

def fill (vector : ScalarVector) (scalar : Float) : ScalarVector :=
  ⟨vector.scalars.map (fun _ => scalar)⟩

def assign (vector : ScalarVector) (scalars : List Float) : Except Fault ScalarVector :=
  if vector.length = scalars.length then .ok ⟨scalars⟩
  else .error (.lengthMismatch vector.length scalars.length)

-- Equality of the numbers, not of their representation: the two zeros agree
-- and a value that is no number agrees with nothing, itself included.
def agrees (left right : ScalarVector) : Bool :=
  left.length == right.length &&
    (left.scalars.zip right.scalars).all (fun pair => pair.1 == pair.2)

end ScalarVector
end BlockDiagram
