namespace BlockDiagram

structure Configuration where
  inputs : Nat
  outputs : Nat
  continuous : Nat
  difference : List Nat
deriving DecidableEq, Repr

namespace Configuration

def empty : Configuration := ⟨0, 0, 0, []⟩

def withInputs (configuration : Configuration) (count : Nat) : Configuration :=
  { configuration with inputs := count }

def withOutputs (configuration : Configuration) (count : Nat) : Configuration :=
  { configuration with outputs := count }

def withContinuous (configuration : Configuration) (count : Nat) : Configuration :=
  { configuration with continuous := count }

def withDifference (configuration : Configuration) (size : Nat) : Configuration :=
  { configuration with difference := configuration.difference ++ [size] }

def json (configuration : Configuration) : String :=
  "\x7b\"input_ports\":" ++ toString configuration.inputs ++
  ",\"output_ports\":" ++ toString configuration.outputs ++
  ",\"continuous_states\":" ++ toString configuration.continuous ++
  ",\"difference_states\":[" ++ ",".intercalate (configuration.difference.map toString) ++ "]\x7d"

end Configuration

-- Both ways of cloning subsystems give the same copy.
inductive Concurrency where
  | sequential
  | parallel
deriving DecidableEq, Repr

def Concurrency.name : Concurrency → String
  | .sequential => "Sequential"
  | .parallel => "Rayon"

end BlockDiagram
