import BlockDiagram.Text.Json
import BlockDiagram.Configuration
import BlockDiagram.ScalarVector

namespace BlockDiagram

namespace Json

def natural? : Json → Option Nat
  | .numeral written => written.natural?
  | _ => none

def real? : Json → Option Float
  | .numeral written => written.real?
  | _ => none

def list? {α : Type} (item? : Json → Option α) : Json → Option (List α)
  | .array items => items.mapM item?
  | _ => none

def withKey (members : List (Option String × Json)) (name : String) : List Json :=
  (members.filter (·.1 = some name)).map Prod.snd

def fields? (names : List String) : Json → Option (List (Option Json))
  | .array items =>
    if items.length ≤ names.length then
      some ((List.range names.length).map (fun index => items[index]?))
    else none
  | .object members =>
    if members.all (·.1.isSome) && names.all (fun name => (withKey members name).length ≤ 1) then
      some (names.map (fun name => (withKey members name).head?))
    else none
  | _ => none

def required {α : Type} (read? : Json → Option α) (field : Option Json) : Option α := field.bind read?

def optional {α : Type} (absent : α) (read? : Json → Option α) : Option Json → Option α
  | none => some absent
  | some field => read? field

end Json

def Configuration.ofJson? (json : Json) : Option Configuration := do
  let fields ← json.fields? ["input_ports", "output_ports", "continuous_states", "difference_states"]
  match fields with
  | [inputs, outputs, continuous, difference] =>
    let inputs ← Json.optional 0 Json.natural? inputs
    let outputs ← Json.optional 0 Json.natural? outputs
    let continuous ← Json.optional 0 Json.natural? continuous
    let difference ← Json.optional [] (Json.list? Json.natural?) difference
    some ⟨inputs, outputs, continuous, difference⟩
  | _ => none

def Configuration.ofText? (text : String) : Option Configuration :=
  (Json.ofText? text).bind Configuration.ofJson?

-- The name alone, or as the only key of an object that gives it no argument.
def Concurrency.ofJson? : Json → Option Concurrency
  | .text (some name) => ofName? name
  | .object [(some name, .null)] => ofName? name
  | _ => none
where
  ofName? (name : String) : Option Concurrency :=
    [Concurrency.sequential, .parallel].find? (·.name = name)

def Concurrency.ofText? (text : String) : Option Concurrency :=
  (Json.ofText? text).bind Concurrency.ofJson?

def Terminal.ofJson? (json : Json) : Option Terminal := do
  let fields ← json.fields? ["system", "port"]
  match fields with
  | [system, index] =>
    let system ← Json.required Json.natural? system
    let index ← Json.required Json.natural? index
    some ⟨system, index⟩
  | _ => none

def Terminal.ofText? (text : String) : Option Terminal := (Json.ofText? text).bind Terminal.ofJson?

def ScalarVector.ofJson? (json : Json) : Option ScalarVector := do
  let fields ← json.fields? ["values"]
  match fields with
  | [scalars] => (Json.required (Json.list? Json.real?) scalars).map ScalarVector.mk
  | _ => none

def ScalarVector.ofText? (text : String) : Option ScalarVector :=
  (Json.ofText? text).bind ScalarVector.ofJson?

def stepTime? (text : String) : Option Float := do
  let json ← Json.ofText? text
  let fields ← json.fields? ["time"]
  match fields with
  | [time] => Json.required Json.real? time
  | _ => none

end BlockDiagram
