import BlockDiagram.Text.Numeral

namespace BlockDiagram

inductive Token where
  | openArray | closeArray
  | openObject | closeObject
  | comma | colon
  | word (name : String)
  | numeral (numeral : Numeral)
  | quoted (text : Option String)
deriving DecidableEq, Repr

inductive NumeralPart where
  | sign | zero | whole | point | fraction | mark | exponentSign | exponent
deriving DecidableEq, Repr

namespace NumeralPart

def isFinal : NumeralPart → Bool
  | .zero | .whole | .fraction | .exponent => true
  | _ => false

end NumeralPart

def isLeadingSurrogate (unit : Nat) : Bool := 0xD800 ≤ unit && unit < 0xDC00
def isTrailingSurrogate (unit : Nat) : Bool := 0xDC00 ≤ unit && unit < 0xE000

def decodeUnits : List Nat → Option (List Char)
  | [] => some []
  | unit :: rest =>
    if isLeadingSurrogate unit then
      match rest with
      | [] => none
      | second :: more =>
        if isTrailingSurrogate second then
          (decodeUnits more).map (Char.ofNat (0x10000 + (unit - 0xD800) * 0x400 + (second - 0xDC00)) :: ·)
        else none
    else if isTrailingSurrogate unit then none
    else (decodeUnits rest).map (Char.ofNat unit :: ·)

def digit? (character : Char) : Option Nat :=
  if character.isDigit then some (character.toNat - '0'.toNat) else none

def hexDigit? (character : Char) : Option Nat :=
  if character.isDigit then some (character.toNat - '0'.toNat)
  else if 'a' ≤ character ∧ character ≤ 'f' then some (character.toNat - 'a'.toNat + 10)
  else if 'A' ≤ character ∧ character ≤ 'F' then some (character.toNat - 'A'.toNat + 10)
  else none

def isBlank (character : Char) : Bool :=
  character = ' ' || character = '\t' || character = '\n' || character = '\r'

def escape? : Char → Option Nat
  | '"' => some '"'.toNat
  | '\\' => some '\\'.toNat
  | '/' => some '/'.toNat
  | 'b' => some 8
  | 'f' => some 12
  | 'n' => some 10
  | 'r' => some 13
  | 't' => some 9
  | _ => none

-- Text is held as code points and surrogates, the last one first.
inductive Scan where
  | blank
  | word (letters : List Char)
  | numeral (written : Numeral) (part : NumeralPart)
  | quoted (units : List Nat)
  | backslash (units : List Nat)
  | unicode (units : List Nat) (missing value : Nat)
deriving DecidableEq, Repr

namespace Scan

def fresh (character : Char) : Option (List Token × Scan) :=
  match character with
  | '[' => some ([.openArray], .blank)
  | ']' => some ([.closeArray], .blank)
  | '\x7b' => some ([.openObject], .blank)
  | '\x7d' => some ([.closeObject], .blank)
  | ',' => some ([.comma], .blank)
  | ':' => some ([.colon], .blank)
  | '"' => some ([], .quoted [])
  | '-' => some ([], .numeral ⟨true, [], [], none⟩ .sign)
  | '0' => some ([], .numeral ⟨false, [0], [], none⟩ .zero)
  | _ =>
    match digit? character with
    | some digit => some ([], .numeral ⟨false, [digit], [], none⟩ .whole)
    | none =>
      if isBlank character then some ([], .blank)
      else if character.isAlpha then some ([], .word [character])
      else none

def extend (numeral : Numeral) (part : NumeralPart) (character : Char) :
    Option (Numeral × NumeralPart) :=
  match part, digit? character with
  | .sign, some digit =>
    some ({ numeral with whole := [digit] }, if digit = 0 then .zero else .whole)
  | .whole, some digit => some ({ numeral with whole := numeral.whole ++ [digit] }, .whole)
  | .point, some digit | .fraction, some digit =>
    some ({ numeral with fraction := numeral.fraction ++ [digit] }, .fraction)
  | .mark, some digit => some ({ numeral with exponent := some (false, [digit]) }, .exponent)
  | .exponentSign, some digit | .exponent, some digit =>
    some ({ numeral with
      exponent := numeral.exponent.map (fun exponent => (exponent.1, exponent.2 ++ [digit])) }, .exponent)
  | .zero, none | .whole, none =>
    if character = '.' then some (numeral, .point)
    else if character = 'e' ∨ character = 'E' then some (numeral, .mark)
    else none
  | .fraction, none =>
    if character = 'e' ∨ character = 'E' then some (numeral, .mark) else none
  | .mark, none =>
    if character = '+' then some ({ numeral with exponent := some (false, []) }, .exponentSign)
    else if character = '-' then some ({ numeral with exponent := some (true, []) }, .exponentSign)
    else none
  | _, _ => none

def finish : Scan → Option (List Token)
  | .blank => some []
  | .word letters => some [.word (String.ofList letters.reverse)]
  | .numeral written part => if part.isFinal then some [.numeral written] else none
  | _ => none

def restart (scan : Scan) (character : Char) : Option (List Token × Scan) :=
  match scan.finish, fresh character with
  | some ended, some (begun, next) => some (ended ++ begun, next)
  | _, _ => none

def step (scan : Scan) (character : Char) : Option (List Token × Scan) :=
  match scan with
  | .blank => fresh character
  | .word letters =>
    if character.isAlpha then some ([], .word (character :: letters)) else scan.restart character
  | .numeral written part =>
    match extend written part character with
    | some (longer, next) => some ([], .numeral longer next)
    | none => scan.restart character
  | .quoted units =>
    if character = '"' then some ([.quoted ((decodeUnits units.reverse).map String.ofList)], .blank)
    else if character = '\\' then some ([], .backslash units)
    else if character.toNat < 0x20 then none
    else some ([], .quoted (character.toNat :: units))
  | .backslash units =>
    if character = 'u' then some ([], .unicode units 4 0)
    else (escape? character).map (fun unit => ([], .quoted (unit :: units)))
  | .unicode units missing value =>
    (hexDigit? character).map (fun digit =>
      let longer := value * 16 + digit
      if missing ≤ 1 then ([], .quoted (longer :: units)) else ([], .unicode units (missing - 1) longer))

end Scan

def tokensFrom (scan : Scan) : List Char → Option (List Token)
  | [] => scan.finish
  | character :: rest =>
    match scan.step character with
    | none => none
    | some (ended, next) => (tokensFrom next rest).map (ended ++ ·)

def tokens (text : String) : Option (List Token) := tokensFrom .blank text.toList

end BlockDiagram
