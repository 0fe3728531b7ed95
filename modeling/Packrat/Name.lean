import Packrat.Name.Word

/-!
Names of types, freed from the paths that qualify them. `a::b::Pair<c::X, Y>` becomes
`Pair<X, Y>`: a word right before a colon is part of a path and goes, and so do the colons.
-/
namespace Packrat.Name

/-- A name read from the left up to some place. The word read last is held back, since a colon may
yet turn it into part of a path. -/
structure Scan where
  name : List Char := []
  word : List Char := []

namespace Scan

def read (s : Scan) (c : Char) : Scan :=
  if isWord c then { s with word := s.word ++ [c] }
  else if c = ':' then { s with word := [] }
  else ⟨s.name ++ s.word ++ [c], []⟩

/-- All that is left of the name if it ends here. -/
def kept (s : Scan) : List Char := s.name ++ s.word

end Scan

def unqualified (full : String) : String :=
  String.ofList (full.toList.foldl Scan.read {}).kept

end Packrat.Name
