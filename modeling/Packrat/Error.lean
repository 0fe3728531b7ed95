import Packrat.Token

/-!
Why a parse gives up. A parse error blames a token of the input; a declaration error blames the
grammar, whose declaration of one symbol is flawed or whose assembler asks for something its
slots do not hold. Absence of a match is neither.
-/
namespace Packrat

/-- What is wrong with the declaration of a symbol. -/
inductive Flaw where
  | noAlternatives
  | noComponents
  | repeatedSlot (slot : String)
  | emptyDelimiter (slot : String)
  | unfilledSlot (slot : String)
  /-- The slot holds something else than the type asked for. -/
  | wrongType (slot type : String)
  /-- A value of an element is not of the type of the element. -/
  | wrongElement
  | noElement
  /-- A reason that an assembler states in its own words. -/
  | stated (reason : String)
deriving DecidableEq

def Flaw.reason : Flaw → String
  | noAlternatives => "an alternation needs at least one alternative"
  | noComponents => "it does not declare any components"
  | repeatedSlot slot => "slot `" ++ slot ++ "` is declared twice"
  | emptyDelimiter slot => "slot `" ++ slot ++ "` has an empty delimiter"
  | unfilledSlot slot => "no component fills slot `" ++ slot ++ "`"
  | wrongType slot type => "slot `" ++ slot ++ "` does not hold a `" ++ type ++ "`"
  | wrongElement => "element value has the wrong type"
  | noElement => "component has no element type"
  | stated reason => reason

inductive Error where
  /-- The input breaks an expectation at `token`. -/
  | parse (expectation : String) (token : Token)
  /-- The symbol called `name` has an unusable declaration. -/
  | declaration (name : String) (flaw : Flaw)
deriving DecidableEq

def Error.message : Error → String
  | parse expectation token => expectation ++ " near " ++ token.describe
  | declaration name flaw => "type `" ++ name ++ "` is not parseable: " ++ flaw.reason

end Packrat
