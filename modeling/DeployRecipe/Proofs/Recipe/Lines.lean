import DeployRecipe.Proofs.Recipe.Places
import DeployRecipe.Proofs.Recipe.Reading
import DeployRecipe.Proofs.Recipe.Stability

/-!
The lines of a recipe. Each node carries the line of its name, trivia around a text only move lines, and a fault is on
a line of the text.
-/

namespace DeployRecipe.Recipe

section Trivia

/-- One separator, one comment that is closed, or one comment that runs to the end of its line. -/
inductive Trivium : List Char → Prop
  | separator {character : Char} (separates : character ∈ [' ', '\t', '\r', '\n', ';']) : Trivium [character]
  | comment {content : List Char} (open_ : ¬['*', '/'] <:+: content) : Trivium ('/' :: '*' :: (content ++ ['*', '/']))
  | line {opening content ending : List Char} (opens : opening = ['/', '/'] ∨ opening = ['#'])
    (plain : ∀ character ∈ content, character ≠ '\n' ∧ character ≠ '\r')
    (ends : ending = ['\n'] ∨ ending = ['\r', '\n']) : Trivium (opening ++ (content ++ ending))

/-- Trivia one after another. -/
def IsTrivia (text : List Char) : Prop :=
  ∃ pieces : List (List Char), (∀ piece ∈ pieces, Trivium piece) ∧ text = pieces.flatten

theorem isSeparator_of_mem {character : Char} (separates : character ∈ [' ', '\t', '\r', '\n', ';']) :
    isSeparator character = true := by
  simp only [List.mem_cons, List.not_mem_nil, or_false] at separates
  rcases separates with rfl | rfl | rfl | rfl | rfl <;> rfl

theorem afterComment?_of_open {content : List Char} (open_ : ¬['*', '/'] <:+: content) (rest : List Char) :
    afterComment? (content ++ '*' :: '/' :: rest) = some rest := by
  induction content with
  | nil => rfl
  | cons first others inductionHypothesis =>
    have inner : ¬['*', '/'] <:+: others := fun closes => open_ (closes.trans (List.suffix_cons first others).isInfix)
    rw [List.cons_append, afterComment?, inductionHypothesis inner]
    rintro after rfl same
    cases others with
    | nil => cases same
    | cons next further =>
      obtain ⟨rfl, -⟩ := List.cons.inj same
      exact open_ ⟨[], further, rfl⟩

theorem afterLine?_of_plain {content : List Char} (plain : ∀ character ∈ content, character ≠ '\n' ∧ character ≠ '\r')
    {ending : List Char} (ends : ending = ['\n'] ∨ ending = ['\r', '\n']) (rest : List Char) :
    afterLine? (content ++ (ending ++ rest)) = some (ending ++ rest) := by
  induction content with
  | nil => rcases ends with rfl | rfl <;> rfl
  | cons first others inductionHypothesis =>
    obtain ⟨⟨noFeed, noReturn⟩, inner⟩ := List.forall_mem_cons.mp plain
    rw [List.cons_append, afterLine?, inductionHypothesis inner]
    all_goals simp_all

theorem Trivium.skipTrivia_append {piece : List Char} (trivium : Trivium piece) (rest : List Char) :
    skipTrivia (piece ++ rest) = skipTrivia rest := by
  cases trivium with
  | separator separates => exact skipTrivia_of_after (afterTrivium?_of_separator (isSeparator_of_mem separates) rest)
  | comment open_ =>
    refine skipTrivia_of_after ?_
    rw [List.cons_append, List.cons_append, List.append_assoc]
    exact afterComment?_of_open open_ rest
  | line opens plain ends =>
    have ended := afterLine?_of_plain plain ends rest
    have skipped : ∀ {ending : List Char}, ending = ['\n'] ∨ ending = ['\r', '\n'] →
        skipTrivia (ending ++ rest) = skipTrivia rest := by
      rintro _ (rfl | rfl)
      · exact skipTrivia_of_after rfl
      · exact (skipTrivia_of_after rfl).trans (skipTrivia_of_after rfl)
    rw [← skipped ends, List.append_assoc, List.append_assoc]
    rcases opens with rfl | rfl <;> exact skipTrivia_of_after ended

theorem IsTrivia.skipTrivia_append {text : List Char} (trivia : IsTrivia text) (rest : List Char) :
    skipTrivia (text ++ rest) = skipTrivia rest := by
  obtain ⟨pieces, each, rfl⟩ := trivia
  induction pieces with
  | nil => rfl
  | cons piece others inductionHypothesis =>
    obtain ⟨here, further⟩ := List.forall_mem_cons.mp each
    rw [List.flatten_cons, List.append_assoc, here.skipTrivia_append, inductionHypothesis further]

theorem IsTrivia.isSilent {text : List Char} (trivia : IsTrivia text) : IsSilent text := by
  have skipped := trivia.skipTrivia_append []
  rwa [List.append_nil, skipTrivia_nil] at skipped

end Trivia

section Names

theorem dottedTail_eq_append (text : List Char) : (dottedTail text).1 ++ (dottedTail text).2 = text := by
  fun_induction dottedTail text with
  | case1 => rfl
  | case2 first rest start tail after same inductionHypothesis => simp_all
  | case3 => rfl
  | case4 character rest _ plain tail after same inductionHypothesis => simp_all
  | case5 => rfl

/-- A name stands at the start of the text in which it is read. -/
theorem dottedName?_prefix {text name rest : List Char} (named : dottedName? text = some (name, rest)) :
    name <+: text := by
  unfold dottedName? at named
  split at named
  · cases named
  · rename_i first others
    split at named
    · obtain ⟨rfl, rfl⟩ := Prod.mk.inj (Option.some.inj named)
      exact ⟨_, by rw [List.cons_append, dottedTail_eq_append]⟩
    · cases named

theorem Node.ReadAt.named {feeds : Nat} {place : List Char} {node : Node} (read : node.ReadAt feeds place) :
    node.name.toList <+: place ∧ node.line = lineOf feeds place := by
  cases node with
  | declaration found =>
    obtain ⟨fuel, rest, read⟩ := read
    cases fuel with
    | zero => cases read
    | succ fuel =>
      obtain ⟨name, after, value, named, -, rfl⟩ := declaration_eq_some.mp read
      refine ⟨?_, rfl⟩
      rw [Node.name, Declaration.name, String.toList_ofList]
      exact dottedName?_prefix named
  | block name line body =>
    obtain ⟨fuel, rest, read⟩ := read
    cases fuel with
    | zero => cases read
    | succ fuel =>
      cases word_eq_some.mp read with
      | keyword _ known => cases isLeaf_of_keyword known
      | block named =>
        refine ⟨?_, rfl⟩
        rw [Node.name, String.toList_ofList]
        exact dottedName?_prefix named

end Names

/-- The node is read at this place of the text, which its name starts, and has the line of the place. -/
def Node.StandsAt (text place : List Char) (node : Node) : Prop :=
  ∃ before, text = before ++ place ∧ node.name.toList <+: place ∧ node.ReadAt (lineFeeds text) place ∧
    node.line = 1 + lineFeeds before

theorem Node.ReadAt.standsAt {text place : List Char} {node : Node} (read : node.ReadAt (lineFeeds text) place)
    (suffix : place <:+ text) : node.StandsAt text place := by
  obtain ⟨before, rfl⟩ := suffix
  obtain ⟨named, same⟩ := read.named
  refine ⟨before, rfl, named, read, ?_⟩
  rw [same, lineOf, lineFeeds_append]
  omega

/-- Declarations are read behind trivia. -/
theorem declarations_congr {feeds fuel : Nat} {text other : List Char} (same : skipTrivia text = skipTrivia other) :
    declarations feeds fuel text = declarations feeds fuel other := by
  cases fuel with
  | zero => rfl
  | succ fuel => rw [declarations, declarations, same]

section Recipes

variable {source : String} {tree : List Declaration}

theorem readDeclarations_eq_ok :
    readDeclarations source = .ok tree ↔
      declarations (lineFeeds source.toList) (enoughFuel source.toList) source.toList = .ok (tree, []) := by
  unfold readDeclarations
  dsimp only
  split
  · rename_i found read
    simp [read]
  · rename_i rest notEmpty read
    rw [read]
    constructor
    · rintro ⟨⟩
    · intro same
      exact absurd (Prod.mk.inj (Except.ok.inj same)).2 notEmpty
  · rename_i read
    simp [read]

theorem nodes_of_readDeclarations (read : readDeclarations source = .ok tree) :
    ∃ places : List (List Char), places.Pairwise Shortens ∧
      List.Forall₂ (fun node place => node.StandsAt source.toList place) (nodesOf tree) places := by
  obtain ⟨-, places, each, ordered, inside⟩ := declarations_located _ _ (readDeclarations_eq_ok.mp read)
  refine ⟨places, ordered, ?_⟩
  have both := (List.forall₂_and_left _ _).mpr ⟨fun place member => (inside place member).1, each.flip⟩
  exact both.flip.imp fun node place found => Node.ReadAt.standsAt found.2 found.1

theorem readDeclarations_surrounded (read : readDeclarations source = .ok tree) {leading trailing : String}
    (before : IsTrivia leading.toList) (behind : IsTrivia trailing.toList) :
    readDeclarations (leading ++ source ++ "\n" ++ trailing) =
      .ok (relined (lineFeeds leading.toList + ·) tree) := by
  have whole : (leading ++ source ++ "\n" ++ trailing).toList =
      leading.toList ++ (source.toList ++ '\n' :: trailing.toList) := by
    simp [String.toList_append]
  have run := declarations_longer (lineFeeds leading.toList) _ behind.isSilent _ le_rfl .text
    (readDeclarations_eq_ok.mp read)
  rw [List.nil_append, skipTrivia_lineFeed, behind.isSilent] at run
  rw [readDeclarations_eq_ok, whole, lineFeeds_append, lineFeeds_append, ← Nat.add_assoc,
    declarations_congr (before.skipTrivia_append _)]
  refine (Call.declarations_settles _ ?_ _).ok run
  simp only [enoughFuel, List.length_append]
  omega

theorem line_of_readDeclarations_error {error : SyntaxError} {line : Nat}
    (fails : readDeclarations source = .error error) (reported : error.line? = some line) :
    1 ≤ line ∧ line ≤ 1 + lineFeeds source.toList := by
  have onLine (rest : List Char) : 1 ≤ lineOf (lineFeeds source.toList) rest ∧
      lineOf (lineFeeds source.toList) rest ≤ 1 + lineFeeds source.toList := by
    unfold lineOf
    omega
  have halted (halt : Halt) (same : SyntaxError.ofHalt (lineFeeds source.toList) halt = error) :
      1 ≤ line ∧ line ≤ 1 + lineFeeds source.toList := by
    cases halt with
    | fault expected rest =>
      subst same
      obtain rfl := Option.some.inj reported
      exact onLine rest
    | outOfFuel =>
      subst same
      cases reported
  unfold readDeclarations at fails
  dsimp only at fails
  split at fails
  · cases fails
  · exact halted _ (Except.error.inj fails)
  · exact halted _ (Except.error.inj fails)

end Recipes

/-- Lines are exact, and trivia only move them. What stands in a tree that is read stands in the text, each at its own
place and in order, on the line that its name is on. The same tree is read between trivia, with lines that grow by the
lines of the trivia before it. The fault of a text that is not read is on one of its lines. -/
theorem lines_of_readDeclarations (source : String) :
    (∀ tree, readDeclarations source = .ok tree →
      (∃ places : List (List Char), places.Pairwise Shortens ∧
        List.Forall₂ (fun node place => node.StandsAt source.toList place) (nodesOf tree) places) ∧
      ∀ leading trailing : String, IsTrivia leading.toList → IsTrivia trailing.toList →
        readDeclarations (leading ++ source ++ "\n" ++ trailing) =
          .ok (relined (lineFeeds leading.toList + ·) tree)) ∧
    ∀ error line, readDeclarations source = .error error → error.line? = some line →
      1 ≤ line ∧ line ≤ 1 + lineFeeds source.toList :=
  ⟨fun _ read => ⟨nodes_of_readDeclarations read,
      fun _ _ before behind => readDeclarations_surrounded read before behind⟩,
    fun _ _ fails reported => line_of_readDeclarations_error fails reported⟩

/-- A declaration with a block inside another one, between a comment with a semicolon and a comment that is closed, and
a name with nothing behind it on the second line. -/
theorem lines_of_readDeclarations_sample :
    (∃ places : List (List Char), places.Pairwise Shortens ∧
      List.Forall₂ (fun (node : Node) place => node.StandsAt "a \x7b\n b c \x7b\x7d\n\x7d".toList place)
        [.declaration (.mk "a" 1 (.block [.mk "b" 2 (.arguments [.block "c" 2 []])])),
          .declaration (.mk "b" 2 (.arguments [.block "c" 2 []])), .block "c" 2 []] places) ∧
    readDeclarations ("# x\n;" ++ "a \x7b\n b c \x7b\x7d\n\x7d" ++ "\n" ++ "/*\n*/") =
      .ok [.mk "a" 2 (.block [.mk "b" 3 (.arguments [.block "c" 3 []])])] ∧
    ∃ error, readDeclarations "\na" = .error error ∧ error.line? = some 2 ∧ 1 ≤ 2 ∧ 2 ≤ 1 + lineFeeds "\na".toList := by
  have read : readDeclarations "a \x7b\n b c \x7b\x7d\n\x7d" =
      .ok [.mk "a" 1 (.block [.mk "b" 2 (.arguments [.block "c" 2 []])])] :=
    readDeclarations_of_readsAs (by decide +kernel)
  have hash : Trivium (['#'] ++ ([' ', 'x'] ++ ['\n'])) := .line (.inr rfl) (by simp) (.inl rfl)
  have comment : Trivium ('/' :: '*' :: (['\n'] ++ ['*', '/'])) := .comment (by decide)
  have leading : IsTrivia "# x\n;".toList :=
    ⟨["# x\n".toList, [';']], by simpa using ⟨hash, .separator (by decide)⟩, rfl⟩
  have trailing : IsTrivia "/*\n*/".toList := ⟨["/*\n*/".toList], by simpa using comment, rfl⟩
  obtain ⟨error, fails, reported⟩ : ∃ error, readDeclarations "\na" = .error error ∧ error.line? = some 2 := by
    have refused : (match readDeclarations "\na" with
        | .ok _ => none
        | .error error => error.line?) = some 2 := by decide +kernel
    cases run : readDeclarations "\na" with
    | ok found =>
      rw [run] at refused
      cases refused
    | error error =>
      rw [run] at refused
      exact ⟨error, rfl, refused⟩
  obtain ⟨ofTree, ofFault⟩ := lines_of_readDeclarations "a \x7b\n b c \x7b\x7d\n\x7d"
  exact ⟨(ofTree _ read).1, (ofTree _ read).2 _ _ leading trailing,
    error, fails, reported, (lines_of_readDeclarations "\na").2 error 2 fails reported⟩

end DeployRecipe.Recipe
