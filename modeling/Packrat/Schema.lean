import Packrat.Grammar
import Packrat.Lexeme
import Packrat.Schema.Tree

/-!
Grammars given as data. A schema declares its symbols by number, each with a name, a form and,
for a sequence, the takes of its assembler; the values are trees.
-/
namespace Packrat

/-- Which token texts a terminal accepts. -/
inductive Matcher where
  | any
  | number
  | identifier
  | never
  | oneOf (texts : List String)
  | noneOf (texts : List String)

def Matcher.read? (name : String) : Matcher → String → Option Tree
  | any, text => some (.text name text)
  | number, text => (Number.ofText? text).map fun n => .number name n.value
  | identifier, text => (Identifier.ofText? text).map fun x => .text name x.text
  | never, _ => none
  | oneOf texts, text => if text ∈ texts then some (.text name text) else none
  | noneOf texts, text => if text ∈ texts then none else some (.text name text)

/-- What the assembler of a sequence does: it takes some slots in order, and then refuses if it
has an error to refuse with. Without a list of takes it takes every slot as it is. -/
structure Assembly (S : Type) where
  takes : Option (List (String × SlotType S)) := none
  refusal : Option Error := none

inductive Form (S : Type) where
  | terminal (matcher : Matcher)
  | alternation (alternatives : List S)
  | sequence (components : List (Component S)) (assembly : Assembly S)

structure Declaration (S : Type) where
  name : String
  form : Form S

variable {S : Type}

namespace Assembly

def takesFrom (a : Assembly S) (components : List (Component S)) : List (String × SlotType S) :=
  a.takes.getD (components.map fun c => (c.slot, c.policy.slotType))

def content : (type : SlotType S) → type.Value (fun _ => Tree) → Content Tree
  | .one _, value => .one value
  | .maybe _, value => .maybe value
  | .many _, values => .many values
  | .word, text => .word text
  | .foreign _, value => nomatch value

variable [DecidableEq S]

def collect : List (String × SlotType S) →
    Assembler (fun _ : S => Tree) (List (String × Content Tree))
  | [] => pure []
  | (slot, type) :: rest => do
    let value ← Fields.take slot type
    let more ← collect rest
    pure ((slot, content type value) :: more)

def assembler (a : Assembly S) (name : String) (components : List (Component S)) :
    Assembler (fun _ : S => Tree) Tree := do
  let slots ← collect (a.takesFrom components)
  match a.refusal with
  | some error => throw error
  | none => pure (.record name slots)

end Assembly

def Declaration.shape [DecidableEq S] (d : Declaration S) : Shape (fun _ : S => Tree) Tree :=
  match d.form with
  | .terminal matcher => .terminal (matcher.read? d.name)
  | .alternation alternatives => .alternation (alternatives.map fun s => ⟨s, .choice d.name⟩)
  | .sequence components assembly => .sequence ⟨components, assembly.assembler d.name components⟩

/-- A schema with `n` symbols, which need not differ in name. -/
abbrev Schema (n : Nat) := Vector (Declaration (Fin n)) n

namespace Schema

def typeName (k : Nat) : String := "S<" ++ toString k ++ ">"

def grammar {n : Nat} (schema : Schema n) : Grammar (Fin n) (fun _ => Tree) where
  symbols := List.finRange n
  mem_symbols := List.mem_finRange
  typeName k := typeName k
  name k := schema[k].name
  shape k := schema[k].shape

/-- A type of slots by number. A number that the schema has no symbol for names a type that no
component fills. -/
def slotType (n : Nat) (type : SlotType Nat) : SlotType (Fin n) :=
  match type with
  | .one k => if h : k < n then .one ⟨k, h⟩ else .foreign (type.name typeName)
  | .maybe k => if h : k < n then .maybe ⟨k, h⟩ else .foreign (type.name typeName)
  | .many k => if h : k < n then .many ⟨k, h⟩ else .foreign (type.name typeName)
  | .word => .word
  | .foreign name => .foreign name

end Schema

end Packrat
