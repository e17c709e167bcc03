import DeployRecipe.Proofs.Recipe.Relined

/-!
Where the nodes of a tree stand in the text: each declaration and each block that stands for a value is read at a place
of its own, in the order in which they stand in the tree.
-/

namespace DeployRecipe.Recipe

/-- What has a line in a tree: a declaration, or a block that stands for a value. -/
inductive Node where
  | declaration (found : Declaration)
  | block (name : String) (line : Nat) (body : List Declaration)

namespace Node

def name : Node → String
  | declaration found => found.name
  | block name _ _ => name

def line : Node → Nat
  | declaration found => found.line
  | block _ line _ => line

/-- The text starts with what is read as this node. -/
def ReadAt (feeds : Nat) (place : List Char) : Node → Prop
  | declaration found => ∃ fuel rest, Recipe.declaration feeds fuel place = .ok (some (found, rest))
  | block name line body => ∃ fuel rest, word feeds fuel place = .ok (some (.block name line body, rest))

end Node

mutual

/-- The nodes of an expression, each before those inside it. -/
def nodesOfExpression : Expression → List Node
  | .list items => nodesOfValues items
  | .map entries => nodesOfEntries entries
  | .block name line body => .block name line body :: nodesOf body
  | _ => []

def nodesOfValues : List Expression → List Node
  | [] => []
  | first :: rest => nodesOfExpression first ++ nodesOfValues rest

def nodesOfEntries : List (String × Expression) → List Node
  | [] => []
  | (_, value) :: rest => nodesOfExpression value ++ nodesOfEntries rest

/-- The nodes of declarations, each before those inside it. -/
def nodesOf : List Declaration → List Node
  | [] => []
  | first :: rest => nodesOfDeclaration first ++ nodesOf rest

def nodesOfDeclaration : Declaration → List Node
  | .mk name line body => .declaration (.mk name line body) :: nodesOfBody body

def nodesOfBody : Body → List Node
  | .block declarations => nodesOf declarations
  | .arguments values => nodesOfValues values
  | .assignment value => nodesOfExpression value

end

theorem nodesOfExpression_of_isLeaf {value : Expression} (leaf : IsLeaf value) : nodesOfExpression value = [] := by
  cases leaf <;> rfl

/-- The nodes are read one after another in the text, each before what is left of it. -/
structure Located (feeds : Nat) (nodes : List Node) (text after : List Char) : Prop where
  suffix : after <:+ text
  places : ∃ places : List (List Char), List.Forall₂ (fun node place => node.ReadAt feeds place) nodes places ∧
    places.Pairwise Shortens ∧ ∀ place ∈ places, place <:+ text ∧ Shortens place after

namespace Located

variable {feeds : Nat} {nodes others : List Node} {text middle after : List Char}

theorem none (suffix : after <:+ text) : Located feeds [] text after :=
  ⟨suffix, [], .nil, .nil, by simp⟩

theorem of_isLeaf {value : Expression} (leaf : IsLeaf value) (suffix : after <:+ text) :
    Located feeds (nodesOfExpression value) text after := by
  rw [nodesOfExpression_of_isLeaf leaf]
  exact none suffix

theorem startingAt (located : Located feeds nodes middle after) (suffix : middle <:+ text) :
    Located feeds nodes text after := by
  obtain ⟨within, places, read, ordered, inside⟩ := located
  exact ⟨within.trans suffix, places, read, ordered, fun place member =>
    ⟨(inside place member).1.trans suffix, (inside place member).2⟩⟩

theorem upTo (located : Located feeds nodes text middle) (suffix : after <:+ middle) :
    Located feeds nodes text after := by
  obtain ⟨within, places, read, ordered, inside⟩ := located
  exact ⟨suffix.trans within, places, read, ordered, fun place member =>
    ⟨(inside place member).1, (inside place member).2.after suffix⟩⟩

theorem append (first : Located feeds nodes text middle) (second : Located feeds others middle after) :
    Located feeds (nodes ++ others) text after := by
  obtain ⟨start, firstPlaces, firstRead, firstOrdered, firstInside⟩ := first
  obtain ⟨finish, places, read, ordered, inside⟩ := second
  refine ⟨finish.trans start, firstPlaces ++ places, List.rel_append firstRead read, ?_, ?_⟩
  · rw [List.pairwise_append]
    exact ⟨firstOrdered, ordered, fun earlier one later other =>
      (firstInside earlier one).2.after (inside later other).1⟩
  · intro place member
    rcases List.mem_append.mp member with one | other
    · exact ⟨(firstInside place one).1, (firstInside place one).2.after finish⟩
    · exact ⟨(inside place other).1.trans start, (inside place other).2⟩

/-- A node stands before those inside it. -/
theorem cons {node : Node} (here : node.ReadAt feeds text) (located : Located feeds nodes middle after)
    (shortens : Shortens text middle) : Located feeds (node :: nodes) text after := by
  obtain ⟨within, places, read, ordered, inside⟩ := located
  refine ⟨within.trans shortens.suffix, text :: places, .cons here read, ?_, ?_⟩
  · exact List.pairwise_cons.mpr ⟨fun place member => shortens.after (inside place member).1, ordered⟩
  · intro place member
    rcases List.mem_cons.mp member with rfl | member
    · exact ⟨List.suffix_refl _, shortens.after within⟩
    · exact ⟨(inside place member).1.trans shortens.suffix, (inside place member).2⟩

end Located

section Readers

variable (feeds : Nat)

mutual

theorem declarations_located (fuel : Nat) {text after : List Char} {list : List Declaration}
    (read : declarations feeds fuel text = .ok (list, after)) : Located feeds (nodesOf list) text after := by
  cases fuel with
  | zero => cases read
  | succ fuel =>
    cases declarations_eq_ok.mp read with
    | none => exact .none (skipTrivia_suffix text)
    | more head tail =>
      exact ((declaration_located fuel head).startingAt (skipTrivia_suffix text)).append
        (declarations_located fuel tail)
termination_by fuel

theorem declaration_located (fuel : Nat) {text after : List Char} {found : Declaration}
    (read : declaration feeds fuel text = .ok (some (found, after))) :
    Located feeds (nodesOfDeclaration found) text after := by
  cases fuel with
  | zero => cases read
  | succ fuel =>
    have here : (Node.declaration found).ReadAt feeds text := ⟨fuel + 1, after, read⟩
    obtain ⟨name, rest, value, named, inner, rfl⟩ := declaration_eq_some.mp read
    exact .cons here (body_located fuel inner) ((dottedName?_shortens named).after (skipSpaces_suffix rest))
termination_by fuel

theorem body_located (fuel : Nat) {text after : List Char} {value : Body}
    (read : body feeds fuel text = .ok (value, after)) : Located feeds (nodesOfBody value) text after := by
  cases fuel with
  | zero => cases read
  | succ fuel =>
    cases body_eq_ok.mp read with
    | block inner => exact (block_located fuel inner).startingAt (List.suffix_cons _ _)
    | assignment inner =>
      exact (expression_located fuel inner).startingAt ((skipTrivia_suffix _).trans (List.suffix_cons _ _))
    | arguments _ _ head tail => exact (expression_located fuel head).append (moreArguments_located fuel tail)
termination_by fuel

theorem block_located (fuel : Nat) {text after : List Char} {list : List Declaration}
    (read : block feeds fuel text = .ok (list, after)) : Located feeds (nodesOf list) text after := by
  cases fuel with
  | zero => cases read
  | succ fuel => exact (declarations_located fuel (block_eq_ok.mp read)).upTo (List.suffix_cons _ _)
termination_by fuel

theorem moreArguments_located (fuel : Nat) {text after : List Char} {list : List Expression}
    (read : moreArguments feeds fuel text = .ok (list, after)) : Located feeds (nodesOfValues list) text after := by
  cases fuel with
  | zero => cases read
  | succ fuel =>
    cases moreArguments_eq_ok.mp read with
    | none => exact .none (List.suffix_refl text)
    | more comma head tail =>
      have passed := Shortens.of_cons (comma ▸ skipSpaces_suffix text)
      exact ((expression_located fuel head).startingAt ((skipTrivia_suffix _).trans passed.suffix)).append
        (moreArguments_located fuel tail)
termination_by fuel

theorem expression_located (fuel : Nat) {text after : List Char} {value : Expression}
    (read : expression feeds fuel text = .ok (some (value, after))) :
    Located feeds (nodesOfExpression value) text after := by
  cases fuel with
  | zero => cases read
  | succ fuel =>
    have suffix := (expression_shortens (fuel + 1) read).suffix
    cases expression_eq_some.mp read with
    | emptyList | emptyMap => exact .none suffix
    | map _ inner =>
      exact (mapEntries_located fuel inner).startingAt ((skipTrivia_suffix _).trans (List.suffix_cons _ _))
    | list _ _ _ inner =>
      exact (listItems_located fuel inner).startingAt ((skipTrivia_suffix _).trans (List.suffix_cons _ _))
    | nested inner closed =>
      exact ((expression_located fuel inner).startingAt ((skipTrivia_suffix _).trans (List.suffix_cons _ _))).upTo
        (Shortens.of_cons (closed ▸ skipTrivia_suffix _)).suffix
    | quoted found => exact .of_isLeaf (isLeaf_of_quoted found) suffix
    | number _ found => exact .of_isLeaf (isLeaf_of_number? found) suffix
    | word _ _ found => exact word_located fuel found
termination_by fuel

theorem word_located (fuel : Nat) {text after : List Char} {value : Expression}
    (read : word feeds fuel text = .ok (some (value, after))) :
    Located feeds (nodesOfExpression value) text after := by
  cases fuel with
  | zero => cases read
  | succ fuel =>
    have suffix := (word_shortens (fuel + 1) read).suffix
    cases word_eq_some.mp read with
    | keyword _ known => exact .of_isLeaf (isLeaf_of_keyword known) suffix
    | load => exact .none suffix
    | block named _ _ brace inner =>
      have here : (Node.block _ _ _).ReadAt feeds text := ⟨fuel + 1, after, read⟩
      exact .cons here (block_located fuel inner)
        ((dottedName?_shortens named).trans (.of_cons (brace ▸ skipSpaces_suffix _)))
    | reference => exact .none suffix
termination_by fuel

theorem listItems_located (fuel : Nat) {text after : List Char} {list : List Expression}
    (read : listItems feeds fuel text = .ok (list, after)) : Located feeds (nodesOfValues list) text after := by
  cases fuel with
  | zero => cases read
  | succ fuel =>
    cases listItems_eq_ok.mp read with
    | last head closed =>
      exact (expression_located fuel head).append (.none (afterItem_shortens closed).suffix)
    | more head comma tail =>
      exact (expression_located fuel head).append
        ((listItems_located fuel tail).startingAt (afterItem_shortens comma).suffix)
termination_by fuel

theorem mapEntries_located (fuel : Nat) {text after : List Char} {list : List (String × Expression)}
    (read : mapEntries feeds fuel text = .ok (list, after)) : Located feeds (nodesOfEntries list) text after := by
  cases fuel with
  | zero => cases read
  | succ fuel =>
    cases mapEntries_eq_ok.mp read with
    | last named colon head closed =>
      exact ((expression_located fuel head).startingAt (valueOfKey_shortens named colon).suffix).append
        (.none (afterItem_shortens closed).suffix)
    | more named colon head comma tail =>
      exact ((expression_located fuel head).startingAt (valueOfKey_shortens named colon).suffix).append
        ((mapEntries_located fuel tail).startingAt (afterItem_shortens comma).suffix)
termination_by fuel

end

end Readers

end DeployRecipe.Recipe
