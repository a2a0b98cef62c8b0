import BlockDiagram.Terminal.Table
import BlockDiagram.Frontier

namespace BlockDiagram

structure Wiring where
  sources : TerminalTable Terminal
  fed : TerminalTable (List Terminal)
deriving DecidableEq, Repr

namespace Wiring

def empty : Wiring := ⟨TerminalTable.empty, TerminalTable.empty⟩

def source? (wiring : Wiring) (input : Terminal) : Option Terminal := wiring.sources.find? input

def inputsOf (wiring : Wiring) (output : Terminal) : List Terminal := (wiring.fed.find? output).getD []

def detach (fed : TerminalTable (List Terminal)) (output input : Terminal) : TerminalTable (List Terminal) :=
  match fed.find? output with
  | none => fed
  | some inputs =>
    let remaining := inputs.filter (· ≠ input)
    if remaining.isEmpty then fed.erase output else fed.insert output remaining

def attach (fed : TerminalTable (List Terminal)) (output input : Terminal) : TerminalTable (List Terminal) :=
  fed.insert output ((fed.find? output).getD [] ++ [input])

-- An earlier wire into the same input gives way, also when it is the same wire:
-- the input then moves to the end of those its source feeds.
def connect (wiring : Wiring) (output input : Terminal) : Wiring :=
  let freed := match wiring.source? input with
    | none => wiring.fed
    | some previous => detach wiring.fed previous input
  ⟨wiring.sources.insert input output, attach freed output input⟩

def rewire (wiring : Wiring) (output input : Terminal) : Option Terminal × Wiring :=
  (wiring.source? input, wiring.connect output input)

def wires (wiring : Wiring) : List (Terminal × Terminal) :=
  wiring.sources.entries.map (fun entry => (entry.2, entry.1))

def size (wiring : Wiring) : Nat := wiring.sources.size

def isConnected (wiring : Wiring) (input : Terminal) : Bool := (wiring.source? input).isSome

def successors (wiring : Wiring) (system : Nat) : List Nat :=
  (wiring.fed.entries.filter (·.1.system = system)).flatMap (fun entry => entry.2.map Terminal.system)

def consumers (wiring : Wiring) : List Nat :=
  wiring.fed.entries.flatMap (fun entry => entry.2.map Terminal.system)

def reaches (wiring : Wiring) (origin target : Nat) : Bool :=
  ((Frontier.starting wiring.consumers.eraseDups [origin]).explore wiring.successors).any
    (fun system => decide (target ∈ wiring.successors system))

end Wiring
end BlockDiagram
