import DeployRecipe.CommandLine.Run
import DeployRecipe.Proofs.Compilation.Filling
import DeployRecipe.Proofs.Compilation.Unnumbered
import DeployRecipe.Proofs.Recipe.RoundTrip

/-!
How the text of a fresh recipe is read. A text that stands behind blanks is read line by line: every line gives a
name one value, or opens a block whose lines follow. A name that is written between double quotes as it is stays
what it is, unless it closes the quotes or asks for a name to look up.
-/

namespace DeployRecipe

namespace Recipe

variable {feeds fuel : Nat}

section Quotes

/-- The text means itself between double quotes. -/
structure IsPlainText (text : List Char) : Prop where
  unquoted : '"' ∉ text
  unescaped : '\\' ∉ text
  literal : ¬ ['$', '{'] <:+: text

instance (text : List Char) : Decidable (IsPlainText text) :=
  decidable_of_iff ('"' ∉ text ∧ '\\' ∉ text ∧ ¬ ['$', '{'] <:+: text)
    ⟨fun parts => ⟨parts.1, parts.2.1, parts.2.2⟩, fun plain => ⟨plain.1, plain.2, plain.3⟩⟩

theorem IsPlainText.tail {character : Char} {rest : List Char} (plain : IsPlainText (character :: rest)) :
    IsPlainText rest where
  unquoted member := plain.unquoted (List.mem_cons_of_mem _ member)
  unescaped member := plain.unescaped (List.mem_cons_of_mem _ member)
  literal inside := plain.literal (inside.trans (List.suffix_cons _ _).isInfix)

/-- A dollar sign before no opening brace is a character like others. -/
theorem doubleQuotedParts_dollar {text : List Char} (literal : ∀ rest, text ≠ '{' :: rest)
    (opening pending : List Char) :
    doubleQuotedParts opening pending ('$' :: text) = doubleQuotedParts opening ('$' :: pending) text := by
  rw [doubleQuotedParts.eq_def]
  split <;> simp_all
  rename_i same
  rw [← same.1, ← same.2]

theorem doubleQuotedParts_plain {text : List Char} (plain : IsPlainText text) (opening pending after : List Char) :
    doubleQuotedParts opening pending (text ++ '"' :: after) = .ok (flush (text.reverse ++ pending) [], after) := by
  induction text generalizing pending with
  | nil => rw [List.nil_append, doubleQuotedParts, List.reverse_nil, List.nil_append]
  | cons character rest inductionHypothesis =>
    have step : doubleQuotedParts opening pending (character :: (rest ++ '"' :: after)) =
        doubleQuotedParts opening (character :: pending) (rest ++ '"' :: after) := by
      by_cases dollar : character = '$'
      · subst dollar
        refine doubleQuotedParts_dollar (fun more same => ?_) _ _
        cases rest with
        | nil => cases same
        | cons next others =>
          obtain rfl : next = '{' := (List.cons.inj same).1
          exact plain.literal ⟨[], others, rfl⟩
      · refine doubleQuotedParts_of_not_isSpecial ?_ _ _ _
        have mark : character ≠ '"' := fun same => plain.unquoted (same ▸ List.mem_cons_self)
        have backslash : character ≠ '\\' := fun same => plain.unescaped (same ▸ List.mem_cons_self)
        simp [Quotes.isSpecial, mark, backslash, dollar]
    rw [List.cons_append, step, inductionHypothesis plain.tail, List.reverse_cons, List.append_assoc]
    rfl

end Quotes

/-- The characters at the end of a line stand for a value. -/
structure Spells (text : List Char) (value : Expression) : Prop where
  start : ∃ first rest, text = first :: rest ∧ isValueStart first = true
  read : ∀ feeds fuel after,
    expression feeds (fuel + 2) (text ++ '\n' :: after) = .ok (some (value, '\n' :: after))

/-- A text between double quotes, without any escapes. -/
def inQuotes (text : String) : List Char :=
  '"' :: (text.toList ++ ['"'])

theorem spells_inQuotes {text : String} (plain : IsPlainText text.toList) :
    Spells (inQuotes text) (.text text) where
  start := ⟨_, _, rfl, rfl⟩
  read feeds fuel after := by
    refine expression_of_quoted ?_
    have parts := doubleQuotedParts_plain plain ('"' :: (text.toList ++ '"' :: '\n' :: after)) [] ('\n' :: after)
    have whole : Expression.ofParts (flush (text.toList.reverse ++ []) []) = .text text := by
      rw [List.append_nil, flush, List.isEmpty_reverse, List.reverse_reverse, String.ofList_toList]
      split
      · rename_i empty
        rw [String.toList_eq_nil_iff.mp (List.isEmpty_iff.mp empty)]
        rfl
      · rfl
    rw [inQuotes, List.cons_append, List.append_assoc, List.singleton_append, quoted, parts]
    simp only [Except.map, whole]

theorem spells_reference {name : String} (referable : isReferable name = true) :
    Spells name.toList (.reference name) where
  start := by
    obtain ⟨first, rest, characters, start⟩ := isDottedIdentifier_start (isReferable_eq_true referable).1
    exact ⟨first, rest, characters, isValueStart_of_isNameStart start⟩
  read _ _ after :=
    (expression_name (isReferable_eq_true referable).1 _).trans (word_reference referable (.line after))

theorem spells_int (value : Int) (fits : isWordInt value = true) : Spells (toString value).toList (.int value) where
  start := by
    obtain ⟨first, rest, characters, digit | rfl⟩ := toString_int_start value
    · exact ⟨first, rest, characters, isValueStart_of_isDigit digit⟩
    · exact ⟨_, rest, characters, rfl⟩
  read _ _ after := expression_int fits (.line after)

/-- With as much fuel, the declarations at the start of a text are read up to the rest, on any lines. -/
def Declares (size : Nat) (text : List Char) (found : List Declaration) (rest : List Char) : Prop :=
  ∀ feeds fuel, size ≤ fuel →
    ∃ read, declarations feeds fuel text = .ok (read, rest) ∧ Declaration.allUnnumbered read = found

namespace Declares

variable {size size' : Nat} {text after inside rest : List Char} {found inner : List Declaration} {name : String}

theorem mono (more : size ≤ size') (declares : Declares size text found rest) : Declares size' text found rest :=
  fun feeds fuel enough => declares feeds fuel (more.trans enough)

/-- Declarations stand behind trivia. -/
theorem of_skipTrivia {other : List Char} (same : skipTrivia text = skipTrivia other)
    (declares : Declares size other found rest) : Declares size text found rest := by
  intro feeds fuel enough
  obtain ⟨read, run, unnumbered⟩ := declares feeds fuel enough
  refine ⟨read, ?_, unnumbered⟩
  cases fuel with
  | zero => exact run
  | succ fuel => rwa [declarations, same, ← declarations]

/-- Where no declaration starts, none is read. -/
theorem nil (solid : skipTrivia text = text) (ends : dottedName? text = none) : Declares 2 text [] text := by
  intro feeds fuel enough
  obtain ⟨fuel, rfl⟩ : ∃ more, fuel = more + 2 := ⟨fuel - 2, by omega⟩
  refine ⟨[], ?_, rfl⟩
  rw [declarations, solid, declaration, ends]
  rfl

theorem lineFeed (declares : Declares size text found rest) : Declares size ('\n' :: text) found rest :=
  of_skipTrivia (skipTrivia_lineFeed text) declares

/-- Where a declaration starts, declarations are read from there on and from its end on. -/
theorem cons {body : Body} (dotted : isDottedIdentifier name = true)
    (first : ∀ feeds fuel, size ≤ fuel → ∃ read, declaration feeds fuel (name.toList ++ text) =
      .ok (some (read, after)) ∧ read.unnumbered = .mk name 0 body)
    (next : Declares size' after found rest) :
    Declares (max size size' + 1) (name.toList ++ text) (.mk name 0 body :: found) rest := by
  intro feeds fuel enough
  obtain ⟨fuel, rfl⟩ : ∃ more, fuel = more + 1 := ⟨fuel - 1, by omega⟩
  obtain ⟨one, readOne, sameOne⟩ := first feeds fuel (by omega)
  obtain ⟨others, readOthers, sameOthers⟩ := next feeds fuel (by omega)
  refine ⟨one :: others, ?_, by rw [Declaration.allUnnumbered, sameOne, sameOthers]⟩
  obtain ⟨character, tail, characters, start⟩ := isDottedIdentifier_start dotted
  rw [characters, List.cons_append] at readOne ⊢
  rw [declarations, skipTrivia_of_solid _ (isSolid_of_isValueStart (isValueStart_of_isNameStart start)), readOne]
  simp only [ok_bind, readOthers]
  rfl

/-- A name that is given one value. -/
theorem value {characters : List Char} {given : Expression} (dotted : isDottedIdentifier name = true)
    (spells : Spells characters given) (next : Declares size after found rest) :
    Declares (max 4 size + 1) (name.toList ++ ' ' :: (characters ++ '\n' :: after))
      (.mk name 0 (.arguments [given.unnumbered]) :: found) rest := by
  refine cons dotted (fun feeds fuel enough => ?_) next.lineFeed
  obtain ⟨fuel, rfl⟩ : ∃ more, fuel = more + 4 := ⟨fuel - 4, by omega⟩
  refine ⟨.mk name (lineOf feeds (name.toList ++ ' ' :: (characters ++ '\n' :: after))) (.arguments [given]), ?_, rfl⟩
  have read := spells.read feeds fuel after
  obtain ⟨first, others, rfl, start⟩ := spells.start
  rw [List.cons_append] at read ⊢
  rw [declaration, dottedName?_append dotted (.cons rfl (by decide) _)]
  simp only [skipSpaces_space, skipSpaces_of_solid _ (isSolid_of_isValueStart start), body_of_isValueStart start, read,
    ok_bind, moreArguments, skipSpaces_lineFeed, String.ofList_toList]
  rfl

/-- A block, whose declarations are read up to its closing brace. -/
theorem block (dotted : isDottedIdentifier name = true) (body : Declares size inside inner ('}' :: after))
    (next : Declares size' after found rest) :
    Declares (max (size + 3) size' + 1) (name.toList ++ ' ' :: '{' :: inside)
      (.mk name 0 (.block inner) :: found) rest := by
  refine cons dotted (fun feeds fuel enough => ?_) next
  obtain ⟨fuel, rfl⟩ : ∃ more, fuel = more + 3 := ⟨fuel - 3, by omega⟩
  obtain ⟨read, run, unnumbered⟩ := body feeds fuel (by omega)
  refine ⟨.mk name (lineOf feeds (name.toList ++ ' ' :: '{' :: inside)) (.block read), ?_, ?_⟩
  · rw [declaration, dottedName?_append dotted (.cons rfl (by decide) _)]
    simp only [skipSpaces_space, skipSpaces_of_solid '{' rfl, Recipe.body, Recipe.block, run, ok_bind,
      String.ofList_toList]
    rfl
  · rw [Declaration.unnumbered, Body.unnumbered, unnumbered]

/-- What declares a whole text is what the text is read as. -/
theorem readDeclarations {source : String} (declares : Declares size source.toList found [])
    (enough : size ≤ enoughFuel source.toList) :
    ∃ read, Recipe.readDeclarations source = .ok read ∧ Declaration.allUnnumbered read = found := by
  obtain ⟨read, run, unnumbered⟩ := declares (lineFeeds source.toList) _ enough
  refine ⟨read, ?_, unnumbered⟩
  rw [Recipe.readDeclarations, run]

end Declares

/-- The text with blanks before it. -/
def indented (width : Nat) (text : List Char) : List Char :=
  List.replicate width ' ' ++ text

@[simp] theorem skipTrivia_indented (width : Nat) (text : List Char) :
    skipTrivia (indented width text) = skipTrivia text := by
  induction width with
  | zero => rfl
  | succ width inductionHypothesis => exact (skipTrivia_space _).trans inductionHypothesis

/-- A line that gives a name a value. -/
def valueLine (width : Nat) (name : String) (value after : List Char) : List Char :=
  indented width (name.toList ++ ' ' :: (value ++ '\n' :: after))

/-- The lines of a block, with the line that closes it. -/
def blockLines (width : Nat) (name : String) (lines : List Char → List Char) (after : List Char) : List Char :=
  indented width (name.toList ++ ' ' :: '{' :: '\n' :: lines (indented width ('}' :: after)))

namespace Declares

variable {size size' : Nat} {after rest : List Char} {found inner : List Declaration}

theorem valueLine (width : Nat) (name : String) {characters : List Char} {given : Expression}
    (dotted : isDottedIdentifier name = true) (spells : Spells characters given)
    (next : Declares size after found rest) :
    Declares (max 4 size + 1) (Recipe.valueLine width name characters after)
      (.mk name 0 (.arguments [given.unnumbered]) :: found) rest :=
  of_skipTrivia (skipTrivia_indented width _) (value dotted spells next)

theorem blockEnd (width : Nat) (after : List Char) : Declares 2 (indented width ('}' :: after)) [] ('}' :: after) :=
  of_skipTrivia (skipTrivia_indented width _) (nil (skipTrivia_of_solid '}' rfl after) rfl)

theorem textEnd : Declares 2 [] [] [] :=
  nil skipTrivia_nil rfl

theorem blockLines (width : Nat) (name : String) {lines : List Char → List Char}
    (dotted : isDottedIdentifier name = true)
    (body : Declares size (lines (indented width ('}' :: after))) inner ('}' :: after))
    (next : Declares size' after found rest) :
    Declares (max (size + 3) size' + 1) (Recipe.blockLines width name lines after)
      (.mk name 0 (.block inner) :: found) rest :=
  of_skipTrivia (skipTrivia_indented width _)
    (block dotted body.lineFeed next)

end Declares

end Recipe

namespace Command

open Recipe

/-- The values of a fresh recipe of a service, with what they come to next to its properties file. -/
def serviceLines (name : String) : List ValueLine :=
  [⟨"name", .text name, .text name⟩, ⟨"type", .text "APP_SERVER", .text "APP_SERVER"⟩,
    ⟨"numInstances", .reference "instances", .int 1⟩, ⟨"maxAllowedInstances", .int 2, .int 2⟩]

def lifecycleLines : List ValueLine :=
  [⟨"install", .text "install.sh", .text "install.sh"⟩, ⟨"start", .text "start.sh", .text "start.sh"⟩,
    ⟨"stop", .text "stop.sh", .text "stop.sh"⟩]

def networkLines : List ValueLine :=
  [⟨"port", .reference "port", .int 8080⟩]

/-- The declarations in a fresh recipe of a service, on no lines. -/
def serviceBody (name : String) : List Declaration :=
  (serviceLines name).map ValueLine.declaration ++
    [.mk "lifecycle" 0 (.block (lifecycleLines.map ValueLine.declaration)),
      .mk "network" 0 (.block (networkLines.map ValueLine.declaration))]

theorem toList_serviceTemplate (name : String) :
    (serviceTemplate name).toList =
      blockLines 0 "service" (fun rest =>
        valueLine 4 "name" (inQuotes name) (
        valueLine 4 "type" (inQuotes "APP_SERVER") (
        valueLine 4 "numInstances" "instances".toList (
        valueLine 4 "maxAllowedInstances" "2".toList ('\n' ::
        blockLines 4 "lifecycle" (fun rest =>
          valueLine 8 "install" (inQuotes "install.sh") (
          valueLine 8 "start" (inQuotes "start.sh") (
          valueLine 8 "stop" (inQuotes "stop.sh") rest))) ('\n' :: '\n' ::
        blockLines 4 "network" (fun rest => valueLine 8 "port" "port".toList rest) ('\n' :: rest))))))) ['\n'] := by
  simp only [serviceTemplate, linesText, String.join, List.map_cons, List.map_nil, List.foldl_cons, List.foldl_nil,
    String.toList_append, blockLines, valueLine, inQuotes, indented, List.append_assoc]
  simp

theorem reads_serviceTemplate {name : String} (plain : IsPlainText name.toList) :
    ∃ read, readDeclarations (serviceTemplate name) = .ok read ∧
      Declaration.allUnnumbered read = [.mk "service" 0 (.block (serviceBody name))] := by
  have instances : Spells "instances".toList _ := spells_reference (by decide)
  have two : Spells "2".toList _ := spells_int 2 (by decide)
  have port : Spells "port".toList _ := spells_reference (by decide)
  have declares : Declares 19 (serviceTemplate name).toList [.mk "service" 0 (.block (serviceBody name))] [] := by
    rw [toList_serviceTemplate]
    refine .mono ?more <| .blockLines 0 "service" (by decide)
      (.valueLine 4 "name" (by decide) (spells_inQuotes plain) <|
        .valueLine 4 "type" (by decide) (spells_inQuotes (by decide)) <|
        .valueLine 4 "numInstances" (by decide) instances <|
        .valueLine 4 "maxAllowedInstances" (by decide) two <| .lineFeed <|
        .blockLines 4 "lifecycle" (by decide)
          (.valueLine 8 "install" (by decide) (spells_inQuotes (by decide)) <|
            .valueLine 8 "start" (by decide) (spells_inQuotes (by decide)) <|
            .valueLine 8 "stop" (by decide) (spells_inQuotes (by decide)) <| .blockEnd 4 _) <|
        .lineFeed <| .lineFeed <|
        .blockLines 4 "network" (by decide) (.valueLine 8 "port" (by decide) port (.blockEnd 4 _)) <|
        .lineFeed <| .blockEnd 0 _)
      (.lineFeed .textEnd)
    decide
  refine declares.readDeclarations ?_
  rw [enoughFuel, toList_serviceTemplate]
  simp only [blockLines, indented, List.length_append, List.length_cons, valueLine, List.length_replicate]
  omega

end Command

end DeployRecipe
