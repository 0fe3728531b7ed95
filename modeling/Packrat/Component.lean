/-!
The members of a sequence. A component fills one slot, either with a fixed keyword or with the
matches of a symbol in some quantity. Components are attempted by ascending priority; one that
carries a label commits the parse, so that its absence becomes an error with that label.
-/
namespace Packrat

/-- The text of a keyword or of a delimiter. -/
structure Literal where
  text : String
deriving DecidableEq

/-- How many matches of a symbol a component takes. -/
inductive Quantity where
  | required
  | optional
  | oneOrMore
  | zeroOrMore
  /-- A list with a delimiter between neighbours. The flags allow a delimiter after the last
  item, and a list without items. -/
  | delimited (delimiter : Literal) (trailing empty : Bool)
deriving DecidableEq

inductive Policy (S : Type) where
  | keyword (literal : Literal)
  | element (symbol : S) (quantity : Quantity)
deriving DecidableEq

structure Component (S : Type) where
  slot : String
  priority : Int
  policy : Policy S
  label : Option String
deriving DecidableEq

variable {S T : Type}

/-- The mark that a printed grammar puts after the name of the symbol. -/
def Quantity.suffix : Quantity → String
  | required => ""
  | optional => "?"
  | oneOrMore => "+"
  | zeroOrMore => "*"
  | delimited delimiter _ _ => "~\"" ++ delimiter.text ++ "\""

namespace Policy

def suffix : Policy S → String
  | keyword literal => "`" ++ literal.text ++ "`"
  | element _ quantity => quantity.suffix

def symbol? : Policy S → Option S
  | keyword _ => none
  | element symbol _ => some symbol

def map (f : S → T) : Policy S → Policy T
  | keyword literal => keyword literal
  | element symbol quantity => element (f symbol) quantity

def hasEmptyDelimiter : Policy S → Bool
  | element _ (.delimited delimiter _ _) => delimiter.text.isEmpty
  | _ => false

/-- Whether two policies agree up to the symbols they take. -/
def sameKind (p q : Policy S) : Bool :=
  decide (p.map (fun _ => ()) = q.map (fun _ => ()))

end Policy

namespace Component

def element (slot : String) (priority : Int) (symbol : S) (quantity : Quantity) : Component S :=
  ⟨slot, priority, .element symbol quantity, none⟩

def keyword (slot : String) (priority : Int) (literal : String) : Component S :=
  ⟨slot, priority, .keyword ⟨literal⟩, none⟩

def required (slot : String) (priority : Int) (symbol : S) : Component S :=
  element slot priority symbol .required

def optional (slot : String) (priority : Int) (symbol : S) : Component S :=
  element slot priority symbol .optional

def oneOrMore (slot : String) (priority : Int) (symbol : S) : Component S :=
  element slot priority symbol .oneOrMore

def zeroOrMore (slot : String) (priority : Int) (symbol : S) : Component S :=
  element slot priority symbol .zeroOrMore

/-- A strict list: neither empty nor with a trailing delimiter. -/
def delimited (slot : String) (priority : Int) (symbol : S) (delimiter : String) : Component S :=
  element slot priority symbol (.delimited ⟨delimiter⟩ false false)

def labeled (c : Component S) (label : String) : Component S := { c with label := some label }

/-- Sets the trailing flag of a delimited component, and leaves all others alone. -/
def trailingAllowed (c : Component S) (allowed : Bool) : Component S :=
  match c.policy with
  | .element symbol (.delimited delimiter _ empty) =>
    { c with policy := .element symbol (.delimited delimiter allowed empty) }
  | _ => c

/-- Sets the empty flag of a delimited component, and leaves all others alone. -/
def emptyAllowed (c : Component S) (allowed : Bool) : Component S :=
  match c.policy with
  | .element symbol (.delimited delimiter trailing _) =>
    { c with policy := .element symbol (.delimited delimiter trailing allowed) }
  | _ => c

end Component

end Packrat
