import DeployRecipe.Text.Split

/-!
Dotted names. A name such as `a.b.c` has the segments `a`, `b` and `c`; joining segments undoes
splitting.
-/

namespace DeployRecipe.DottedName

/-- The segments of a name. -/
def segments (name : String) : List String :=
  (Text.split '.' name.toList).map String.ofList

/-- The name with the given segments. -/
def ofSegments (parts : List String) : String :=
  String.ofList (Text.join '.' (parts.map String.toList))

/-- The name of a part inside a name. -/
def within (outer inner : String) : String :=
  String.ofList (outer.toList ++ '.' :: inner.toList)

/-- What follows `outer` and a dot in a longer name. -/
def remainder? (outer longer : String) : Option String :=
  ((outer.toList ++ ['.']).isPrefixOf? longer.toList).map String.ofList

/-- The longer name starts with `outer` and a dot. -/
def isWithin (longer outer : String) : Bool :=
  (remainder? outer longer).isSome

/-- The name has more than one segment. -/
def isDotted (name : String) : Bool :=
  name.toList.contains '.'

/-- The first segment. -/
def head (name : String) : String :=
  String.ofList (name.toList.takeWhile (· ≠ '.'))

theorem ofSegments_segments (name : String) : ofSegments (segments name) = name := by
  have identity : String.toList ∘ String.ofList = id := by
    funext text
    simp
  simp [ofSegments, segments, identity, Text.join_split]

end DeployRecipe.DottedName
