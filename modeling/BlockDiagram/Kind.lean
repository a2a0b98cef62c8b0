namespace BlockDiagram

inductive Kind where
  | unit | bool
  | int32 | int64
  | word8 | word32 | word64 | size
  | real
  | literal | string
  | vector | int32s | reals
  | terminal
  | value
deriving DecidableEq, Repr

def Kind.name : Kind → String
  | .unit => "()"
  | .bool => "bool"
  | .int32 => "i32"
  | .int64 => "i64"
  | .word8 => "u8"
  | .word32 => "u32"
  | .word64 => "u64"
  | .size => "usize"
  | .real => "f64"
  | .literal => "&str"
  | .string => "alloc::string::String"
  | .vector => "sysframe::core::values::vector::BasicVector"
  | .int32s => "alloc::vec::Vec<i32>"
  | .reals => "alloc::vec::Vec<f64>"
  | .terminal => "sysframe::core::types::PortIdentifier"
  | .value => "sysframe::core::values::typed_value::TypedValue"

end BlockDiagram
