/-!
Two common kinds of tokens: numbers and identifiers, both spelled in ASCII.
-/
namespace Packrat

/-- A number that a signed word of 64 bits can hold. -/
structure Number where
  value : Nat
  value_lt : value < UInt64.size / 2
deriving DecidableEq

namespace Number

def digit (c : Char) : Nat := c.toNat - '0'.toNat

/-- The value of some digits, the highest first. -/
def ofDigits (digits : List Char) : Nat := digits.foldl (fun n c => 10 * n + digit c) 0

/-- Reads one or more digits; leading zeros change nothing. -/
def ofText? (text : String) : Option Number :=
  let digits := text.toList
  if !digits.isEmpty && digits.all Char.isDigit then
    if h : ofDigits digits < UInt64.size / 2 then some ⟨ofDigits digits, h⟩ else none
  else
    none

end Number

namespace Identifier

def isStart (c : Char) : Bool := c.isLower || c == '_'

def isPart (c : Char) : Bool := isStart c || c.isDigit

/-- A small letter or an underscore, then any number of these and of digits. -/
def isWord (text : String) : Bool :=
  match text.toList with
  | [] => false
  | c :: rest => isStart c && rest.all isPart

end Identifier

structure Identifier where
  text : String
  isWord_text : Identifier.isWord text = true
deriving DecidableEq

def Identifier.ofText? (text : String) : Option Identifier :=
  if h : Identifier.isWord text = true then some ⟨text, h⟩ else none

end Packrat
