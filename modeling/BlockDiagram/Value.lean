import BlockDiagram.ScalarVector

namespace BlockDiagram

inductive Value where
  | unit
  | bool (payload : Bool)
  | int32 (payload : Int32)
  | int64 (payload : Int64)
  | word8 (payload : UInt8)
  | word32 (payload : UInt32)
  | word64 (payload : UInt64)
  | size (payload : UInt64)
  | real (payload : Float)
  | literal (payload : String)
  | string (payload : String)
  | vector (payload : ScalarVector)
  | int32s (payload : List Int32)
  | reals (payload : List Float)
  | terminal (payload : Terminal)
  | value (payload : Value)
deriving DecidableEq, Repr

namespace Value

def kind : Value → Kind
  | .unit => .unit
  | .bool _ => .bool
  | .int32 _ => .int32
  | .int64 _ => .int64
  | .word8 _ => .word8
  | .word32 _ => .word32
  | .word64 _ => .word64
  | .size _ => .size
  | .real _ => .real
  | .literal _ => .literal
  | .string _ => .string
  | .vector _ => .vector
  | .int32s _ => .int32s
  | .reals _ => .reals
  | .terminal _ => .terminal
  | .value _ => .value

def checked (value : Value) (expected : Kind) : Except Refusal Value :=
  if value.kind = expected then .ok value else .error (.typeMismatch expected value.kind)

def overwrite (value replacement : Value) : Except Refusal Value :=
  if value.kind = replacement.kind then .ok replacement
  else .error (.typeMismatch replacement.kind value.kind)

def append (value : Value) (number : Int32) : Except Refusal Value :=
  match value with
  | .int32s numbers => .ok (.int32s (numbers ++ [number]))
  | other => .error (.typeMismatch .int32s other.kind)

def vector? : Value → Option ScalarVector
  | .vector payload => some payload
  | _ => none

def summary (value : Value) : String :=
  "TypedValue \x7b type_name: \"" ++ value.kind.name ++ "\", .. \x7d"

end Value
end BlockDiagram
