import BlockDiagram.Text.Token

namespace BlockDiagram

inductive Json where
  | null
  | bool (value : Bool)
  | numeral (numeral : Numeral)
  | text (decoded : Option String)
  | array (items : List Json)
  | object (members : List (Option String × Json))

namespace Json

inductive Open where
  | array (items : List Json)
  | object (members : List (Option String × Json))
  | member (members : List (Option String × Json)) (key : Option String)

-- `first` and `firstKey` stand behind an opening bracket.
inductive Expected where
  | value | first
  | key | firstKey
  | colon
  | separator (complete : Json)

structure Progress where
  containers : List Open
  expected : Expected

namespace Progress

def scalar? : Token → Option Json
  | .word "null" => some .null
  | .word "true" => some (.bool true)
  | .word "false" => some (.bool false)
  | .numeral written => some (.numeral written)
  | .quoted decoded => some (.text decoded)
  | _ => none

def beginValue (containers : List Open) (token : Token) : Option Progress :=
  match token with
  | .openArray => some ⟨.array [] :: containers, .first⟩
  | .openObject => some ⟨.object [] :: containers, .firstKey⟩
  | _ => (scalar? token).map (fun value => ⟨containers, .separator value⟩)

def beginMember (containers : List Open) (token : Token) : Option Progress :=
  match token, containers with
  | .quoted key, .object members :: outer => some ⟨.member members key :: outer, .colon⟩
  | _, _ => none

def step (progress : Progress) (token : Token) : Option Progress :=
  match progress.expected, token, progress.containers with
  | .first, .closeArray, .array items :: outer => some ⟨outer, .separator (.array items.reverse)⟩
  | .firstKey, .closeObject, .object members :: outer =>
    some ⟨outer, .separator (.object members.reverse)⟩
  | .separator value, .comma, .array items :: outer => some ⟨.array (value :: items) :: outer, .value⟩
  | .separator value, .comma, .member members key :: outer =>
    some ⟨.object ((key, value) :: members) :: outer, .key⟩
  | .separator value, .closeArray, .array items :: outer =>
    some ⟨outer, .separator (.array (value :: items).reverse)⟩
  | .separator value, .closeObject, .member members key :: outer =>
    some ⟨outer, .separator (.object ((key, value) :: members).reverse)⟩
  | .colon, .colon, containers => some ⟨containers, .value⟩
  | .value, token, containers => beginValue containers token
  | .first, token, containers => beginValue containers token
  | .key, token, containers => beginMember containers token
  | .firstKey, token, containers => beginMember containers token
  | _, _, _ => none

def result? : Progress → Option Json
  | ⟨[], .separator value⟩ => some value
  | _ => none

end Progress

def ofTokens? (tokens : List Token) : Option Json :=
  (tokens.foldlM Progress.step ⟨[], .value⟩).bind Progress.result?

def ofText? (text : String) : Option Json := (tokens text).bind ofTokens?

end Json
end BlockDiagram
