import DeployRecipe.Proofs.Recipe.Productions

/-!
Reading undoes writing: the canonical text of declarations is read as these declarations, on the lines on
which they stand in the text. Each reader takes off the front of a text what was written there and leaves
what follows, with fuel in proportion to what was written.
-/

namespace DeployRecipe.Recipe

variable {feeds fuel : Nat}

/-- What may follow the declarations of a block or of a whole text. -/
inductive EndsBlock : List Char → Prop where
  | text : EndsBlock []
  | brace (rest : List Char) : EndsBlock ('}' :: rest)

theorem ofMoreValues_endsValue (quoting : Quoting) (values : List Expression) {after : List Char}
    (ends : EndsValue after) : EndsValue (Canonical.ofMoreValues quoting values ++ after) := by
  cases values with
  | nil => exact ends
  | cons first rest => exact .comma _

theorem ofMoreValues_noColon (quoting : Quoting) (values : List Expression) (after : List Char) :
    NoColon (Canonical.ofMoreValues quoting values ++ ']' :: after) := by
  cases values with
  | nil => exact .of_solid _ rfl (by decide) _
  | cons first rest => exact .of_solid ',' rfl (by decide) _

theorem ofMoreEntries_endsValue (quoting : Quoting) (entries : List (String × Expression))
    {after : List Char} (ends : EndsValue after) : EndsValue (Canonical.ofMoreEntries quoting entries ++ after) := by
  cases entries with
  | nil => exact ends
  | cons first rest => exact .comma _

theorem inBraces_append (declarations after : List Char) :
    Canonical.inBraces declarations ++ after = '{' :: '\n' :: (declarations ++ '}' :: after) := by
  simp [Canonical.inBraces]

theorem expression_name {name : String} (dotted : isDottedIdentifier name = true) (text : List Char) :
    expression feeds (fuel + 1) (name.toList ++ text) = word feeds fuel (name.toList ++ text) := by
  obtain ⟨first, rest, characters, start⟩ := isDottedIdentifier_start dotted
  rw [characters, List.cons_append, expression_of_isNameStart start]

/-- Declarations that start with a line feed are those after it. -/
theorem declarations_lineFeed (text : List Char) :
    declarations feeds fuel ('\n' :: text) = declarations feeds fuel text := by
  cases fuel with
  | zero => rfl
  | succ fuel => rw [declarations, declarations, skipTrivia_lineFeed]

theorem ofDeclaration_start (quoting : Quoting) {value : Declaration}
    (printable : isPrintableDeclaration value = true) :
    ∃ first rest, Canonical.ofDeclaration quoting value = first :: rest ∧ isNameStart first = true := by
  cases value with
  | mk name line value =>
    rw [isPrintableDeclaration, Bool.and_eq_true] at printable
    obtain ⟨first, rest, characters, start⟩ := isDottedIdentifier_start printable.1
    exact ⟨first, _, by rw [Canonical.ofDeclaration, characters, List.cons_append], start⟩

/-- No blank stands at the start of what a name is given. -/
theorem skipSpaces_ofBody (quoting : Quoting) {value : Body} (printable : isPrintableBody value = true)
    (text : List Char) :
    skipSpaces (Canonical.ofBody quoting value ++ text) = Canonical.ofBody quoting value ++ text := by
  cases value with
  | block list => exact skipSpaces_of_solid '{' rfl _
  | arguments values =>
    cases values with
    | nil => cases printable
    | cons first rest =>
      rw [isPrintableBody, arePrintableValues, Bool.and_eq_true, Bool.and_eq_true] at printable
      obtain ⟨character, tail, characters, start⟩ :=
        ofExpression_start quoting.first printable.2.1
      rw [Canonical.ofBody, Canonical.ofValues, characters]
      exact skipSpaces_of_solid _ (isSolid_of_isValueStart start) _
  | assignment value => exact skipSpaces_of_solid '=' rfl _

theorem body_of_isValueStart {character : Char} (start : isValueStart character = true) (text : List Char) :
    body feeds (fuel + 1) (character :: text) = (do
      match ← expression feeds fuel (character :: text) with
      | some (first, rest) =>
        let (others, rest) ← moreArguments feeds fuel rest
        pure (.arguments (first :: others), rest)
      | none => throw (.fault .value (character :: text))) := by
  have block (inside : List Char) : character :: text ≠ '{' :: inside := by
    rintro ⟨⟩
    exact ne_of_isValueStart start rfl rfl
  have assignment (right : List Char) : character :: text ≠ '=' :: right := by
    rintro ⟨⟩
    exact ne_of_isValueStart start rfl rfl
  exact body_arguments block assignment

mutual

theorem expression_ofExpression (quoting : Quoting) (fuel : Nat) {value : Expression}
    (printable : isPrintableExpression value = true) {after : List Char} (ends : EndsValue after)
    (enough : 4 * (Canonical.ofExpression quoting value).length ≤ fuel) :
    ∃ read, expression feeds fuel (Canonical.ofExpression quoting value ++ after) =
        .ok (some (read, after)) ∧ unlinedExpression read = unlinedExpression value := by
  obtain ⟨fuel, rfl⟩ : ∃ more, fuel = more + 4 := by
    obtain ⟨character, rest, characters, -⟩ := ofExpression_start quoting printable
    rw [characters, List.length_cons] at enough
    exact ⟨fuel - 4, by omega⟩
  cases value with
  | null => exact ⟨.null, (expression_of_isNameStart rfl _).trans (word_null ends.endsName), rfl⟩
  | bool value =>
    cases value with
    | true => exact ⟨.bool true, (expression_of_isNameStart rfl _).trans (word_true ends.endsName), rfl⟩
    | false => exact ⟨.bool false, (expression_of_isNameStart rfl _).trans (word_false ends.endsName), rfl⟩
  | int value => exact ⟨.int value, expression_int printable ends, rfl⟩
  | float => cases printable
  | text value => exact ⟨.text value, expression_of_quoted (quoted_write _ value after), rfl⟩
  | interpolated parts =>
    refine ⟨.interpolated parts, expression_of_quoted ?_, rfl⟩
    rw [Canonical.ofExpression, List.cons_append, List.append_assoc, List.singleton_append]
    exact quoted_interpolated printable after
  | list items =>
    cases items with
    | nil => exact ⟨.list [], expression_emptyList after, rfl⟩
    | cons first rest =>
      have both := printable
      rw [isPrintableExpression, arePrintableValues, Bool.and_eq_true] at both
      obtain ⟨read, items, same⟩ := listItems_ofValues quoting (fuel + 3) (List.cons_ne_nil first rest)
        printable after (by
          simp only [Canonical.ofExpression, List.length_cons, List.length_append] at enough
          omega)
      refine ⟨.list read, ?_, congrArg Expression.list same⟩
      obtain ⟨character, others, characters, start⟩ := ofExpression_start quoting.first both.1
      -- a map is looked for before a list, but no colon stands after the first value
      have noEntry := startsMapEntry_ofExpression quoting.first both.1
        (ofMoreValues_endsValue quoting.others rest (.bracket after)) (ofMoreValues_noColon _ rest after)
      rw [Canonical.ofExpression, List.cons_append, List.append_assoc, List.singleton_append]
      rw [Canonical.ofValues, List.append_assoc] at items ⊢
      rw [characters, List.cons_append] at items noEntry ⊢
      rw [expression_bracket start, noEntry, items]
      rfl
  | map entries =>
    cases entries with
    | nil => exact ⟨.map [], expression_emptyMap after, rfl⟩
    | cons first rest =>
      obtain ⟨key, value⟩ := first
      obtain ⟨read, entries, same⟩ := mapEntries_ofEntries quoting (fuel + 3)
        (List.cons_ne_nil (key, value) rest) printable after (by
          simp only [Canonical.ofExpression, List.length_cons, List.length_append] at enough
          omega)
      refine ⟨.map read, ?_, congrArg Expression.map same⟩
      have entry := startsMapEntry_write quoting.first.here key
        (' ' :: (Canonical.ofExpression quoting.first.others value ++
          (Canonical.ofMoreEntries quoting.others rest ++ ']' :: after)))
      rw [Canonical.ofExpression, List.cons_append, List.append_assoc, List.singleton_append]
      rw [Canonical.ofEntries, List.append_assoc, List.cons_append, List.cons_append, List.append_assoc]
        at entries ⊢
      rw [Quotes.write, List.cons_append] at entries entry ⊢
      rw [expression_bracket (Quotes.isValueStart_mark _), entry, entries]
      rfl
  | reference name =>
    exact ⟨.reference name,
      (expression_name (isReferable_eq_true printable).1 after).trans (word_reference printable ends), rfl⟩
  | block name line body =>
    rw [isPrintableExpression, Bool.and_eq_true] at printable
    obtain ⟨read, declarations, same⟩ := declarations_ofDeclarations quoting (fuel + 1) printable.2
      (EndsBlock.brace after) (by
        simp only [Canonical.ofExpression, Canonical.inBraces, List.length_cons, List.length_append] at enough
        omega)
    refine ⟨.block name (lineOf feeds (name.toList ++ ' ' :: '{' :: '\n' ::
      (Canonical.ofDeclarations quoting body ++ '}' :: after))) read, ?_,
      congrArg (Expression.block name 0) same⟩
    rw [Canonical.ofExpression, List.append_assoc, List.cons_append, inBraces_append,
      expression_name (isReferable_eq_true printable.1).1, word_block printable.1, block,
      declarations_lineFeed, declarations]
    rfl
  | load path =>
    refine ⟨.load path, ?_, rfl⟩
    rw [Canonical.ofExpression, List.append_assoc, List.append_assoc, List.singleton_append]
    exact (expression_of_isNameStart rfl _).trans (word_load _ path after)

theorem listItems_ofValues (quoting : Quoting) (fuel : Nat) {items : List Expression} (some : items ≠ [])
    (printable : arePrintableValues items = true) (after : List Char)
    (enough : 4 * (Canonical.ofValues quoting items).length + 1 ≤ fuel) :
    ∃ read, listItems feeds fuel (Canonical.ofValues quoting items ++ ']' :: after) =
        .ok (read, after) ∧ unlinedValues read = unlinedValues items := by
  obtain ⟨fuel, rfl⟩ : ∃ more, fuel = more + 1 := ⟨fuel - 1, by omega⟩
  cases items with
  | nil => exact absurd rfl some
  | cons first rest =>
    rw [arePrintableValues, Bool.and_eq_true] at printable
    rw [Canonical.ofValues, List.length_append] at enough
    obtain ⟨item, readFirst, sameFirst⟩ := expression_ofExpression quoting.first fuel printable.1
      (ofMoreValues_endsValue quoting.others rest (.bracket after)) (by omega)
    rw [Canonical.ofValues, List.append_assoc, listItems, readFirst]
    cases rest with
    | nil =>
      refine ⟨[item], ?_, congrArg (fun first => [first]) sameFirst⟩
      simp only [Canonical.ofMoreValues, List.nil_append, ok_bind, afterItem_closed]
      rfl
    | cons second others =>
      have both := printable.2
      rw [arePrintableValues, Bool.and_eq_true] at both
      obtain ⟨character, tail, characters, start⟩ :=
        ofExpression_start quoting.others.first both.1
      have written : Canonical.ofMoreValues quoting.others (second :: others) =
          ',' :: ' ' :: Canonical.ofValues quoting.others (second :: others) := rfl
      rw [written, List.length_cons, List.length_cons] at enough
      obtain ⟨items, readOthers, sameOthers⟩ := listItems_ofValues quoting.others fuel
        (List.cons_ne_nil second others) printable.2 after (by omega)
      refine ⟨item :: items, ?_, by rw [unlinedValues, unlinedValues, sameFirst, sameOthers]⟩
      rw [written, List.cons_append, List.cons_append]
      rw [Canonical.ofValues, List.append_assoc] at readOthers ⊢
      rw [characters, List.cons_append] at readOthers ⊢
      simp only [ok_bind, afterItem_item start, readOthers]
      rfl

theorem mapEntries_ofEntries (quoting : Quoting) (fuel : Nat) {entries : List (String × Expression)}
    (some : entries ≠ []) (printable : arePrintableEntries entries = true) (after : List Char)
    (enough : 4 * (Canonical.ofEntries quoting entries).length + 1 ≤ fuel) :
    ∃ read, mapEntries feeds fuel (Canonical.ofEntries quoting entries ++ ']' :: after) =
        .ok (read, after) ∧ unlinedEntries read = unlinedEntries entries := by
  obtain ⟨fuel, rfl⟩ : ∃ more, fuel = more + 1 := ⟨fuel - 1, by omega⟩
  cases entries with
  | nil => exact absurd rfl some
  | cons first rest =>
    obtain ⟨key, value⟩ := first
    rw [arePrintableEntries, Bool.and_eq_true] at printable
    simp only [Canonical.ofEntries, List.length_append, List.length_cons] at enough
    obtain ⟨character, tail, characters, start⟩ :=
      ofExpression_start quoting.first.others printable.1
    obtain ⟨item, readFirst, sameFirst⟩ := expression_ofExpression quoting.first.others fuel printable.1
      (ofMoreEntries_endsValue quoting.others rest (.bracket after)) (by omega)
    rw [Canonical.ofEntries, List.append_assoc, List.cons_append, List.cons_append, List.append_assoc,
      mapEntries, mapKey_write]
    simp only [ok_bind, skipTrivia_of_solid ':' rfl, skipTrivia_space]
    rw [characters, List.cons_append] at readFirst ⊢
    rw [skipTrivia_of_solid _ (isSolid_of_isValueStart start), readFirst]
    cases rest with
    | nil =>
      refine ⟨[(key, item)], ?_, by rw [unlinedEntries, unlinedEntries, sameFirst]; rfl⟩
      simp only [Canonical.ofMoreEntries, List.nil_append, ok_bind, afterItem_closed]
      rfl
    | cons second others =>
      obtain ⟨nextKey, next⟩ := second
      have written : Canonical.ofMoreEntries quoting.others ((nextKey, next) :: others) =
          ',' :: ' ' :: Canonical.ofEntries quoting.others ((nextKey, next) :: others) := rfl
      rw [written, List.length_cons, List.length_cons] at enough
      obtain ⟨items, readOthers, sameOthers⟩ := mapEntries_ofEntries quoting.others fuel
        (List.cons_ne_nil (nextKey, next) others) printable.2 after (by omega)
      refine ⟨(key, item) :: items, ?_, by rw [unlinedEntries, unlinedEntries, sameFirst, sameOthers]⟩
      rw [written, List.cons_append, List.cons_append]
      rw [Canonical.ofEntries, List.append_assoc, Quotes.write, List.cons_append] at readOthers ⊢
      simp only [ok_bind, afterItem_item (Quotes.isValueStart_mark _), readOthers]
      rfl

theorem moreArguments_ofMoreValues (quoting : Quoting) (fuel : Nat) {values : List Expression}
    (printable : arePrintableValues values = true) (after : List Char)
    (enough : 4 * (Canonical.ofMoreValues quoting values).length + 1 ≤ fuel) :
    ∃ read, moreArguments feeds fuel (Canonical.ofMoreValues quoting values ++ '\n' :: after) =
        .ok (read, '\n' :: after) ∧ unlinedValues read = unlinedValues values := by
  obtain ⟨fuel, rfl⟩ : ∃ more, fuel = more + 1 := ⟨fuel - 1, by omega⟩
  cases values with
  | nil =>
    refine ⟨[], ?_, rfl⟩
    simp only [Canonical.ofMoreValues, List.nil_append, moreArguments, skipSpaces_lineFeed]
    rfl
  | cons first rest =>
    rw [arePrintableValues, Bool.and_eq_true] at printable
    simp only [Canonical.ofMoreValues, List.length_append, List.length_cons] at enough
    obtain ⟨character, tail, characters, start⟩ := ofExpression_start quoting.first printable.1
    obtain ⟨value, readFirst, sameFirst⟩ := expression_ofExpression quoting.first fuel printable.1
      (ofMoreValues_endsValue quoting.others rest (.line after)) (by omega)
    obtain ⟨others, readOthers, sameOthers⟩ := moreArguments_ofMoreValues quoting.others fuel
      printable.2 after (by omega)
    refine ⟨value :: others, ?_, by rw [unlinedValues, unlinedValues, sameFirst, sameOthers]⟩
    rw [Canonical.ofMoreValues, List.cons_append, List.cons_append, List.append_assoc, moreArguments,
      skipSpaces_of_solid ',' rfl]
    rw [characters, List.cons_append] at readFirst ⊢
    simp only [skipTrivia_space, skipTrivia_of_solid _ (isSolid_of_isValueStart start), readFirst, ok_bind,
      readOthers]
    rfl

theorem declarations_ofDeclarations (quoting : Quoting) (fuel : Nat) {list : List Declaration}
    (printable : arePrintable list = true) {after : List Char} (ends : EndsBlock after)
    (enough : 4 * (Canonical.ofDeclarations quoting list).length + 2 ≤ fuel) :
    ∃ read, declarations feeds fuel (Canonical.ofDeclarations quoting list ++ after) =
        .ok (read, after) ∧ unlined read = unlined list := by
  obtain ⟨fuel, rfl⟩ : ∃ more, fuel = more + 2 := ⟨fuel - 2, by omega⟩
  cases list with
  | nil =>
    refine ⟨[], ?_, rfl⟩
    rw [Canonical.ofDeclarations, List.nil_append, declarations]
    cases ends with
    | text =>
      rw [skipTrivia_nil]
      rfl
    | brace rest =>
      rw [skipTrivia_of_solid '}' rfl]
      rfl
  | cons first rest =>
    rw [arePrintable, Bool.and_eq_true] at printable
    simp only [Canonical.ofDeclarations, List.length_append, List.length_cons] at enough
    obtain ⟨declaration, readFirst, sameFirst⟩ := declaration_ofDeclaration quoting.first (fuel + 1)
      printable.1 (Canonical.ofDeclarations quoting.others rest ++ after) (by omega)
    obtain ⟨others, readOthers, sameOthers⟩ := declarations_ofDeclarations quoting.others (fuel + 1)
      printable.2 ends (by omega)
    refine ⟨declaration :: others, ?_, by rw [unlined, unlined, sameFirst, sameOthers]⟩
    obtain ⟨character, tail, characters, start⟩ := ofDeclaration_start quoting.first printable.1
    rw [Canonical.ofDeclarations, List.append_assoc, List.cons_append, declarations]
    rw [characters, List.cons_append] at readFirst ⊢
    rw [skipTrivia_of_solid _ (isSolid_of_isValueStart (isValueStart_of_isNameStart start)), readFirst]
    simp only [ok_bind, declarations_lineFeed, readOthers]
    rfl

theorem declaration_ofDeclaration (quoting : Quoting) (fuel : Nat) {value : Declaration}
    (printable : isPrintableDeclaration value = true) (after : List Char)
    (enough : 4 * (Canonical.ofDeclaration quoting value).length ≤ fuel) :
    ∃ read, declaration feeds fuel (Canonical.ofDeclaration quoting value ++ '\n' :: after) =
        .ok (some (read, '\n' :: after)) ∧ unlinedDeclaration read = unlinedDeclaration value := by
  cases value with
  | mk name line value =>
    rw [isPrintableDeclaration, Bool.and_eq_true] at printable
    simp only [Canonical.ofDeclaration, List.length_append, List.length_cons] at enough
    obtain ⟨character, rest, characters, -⟩ := isDottedIdentifier_start printable.1
    have named : name.toList.length = rest.length + 1 := by rw [characters, List.length_cons]
    obtain ⟨fuel, rfl⟩ : ∃ more, fuel = more + 1 := ⟨fuel - 1, by omega⟩
    obtain ⟨read, readBody, same⟩ := body_ofBody quoting fuel printable.2 after
      (by omega)
    refine ⟨.mk name (lineOf feeds (name.toList ++ ' ' :: (Canonical.ofBody quoting value ++ '\n' :: after)))
      read, ?_, congrArg (Declaration.mk name 0) same⟩
    rw [Canonical.ofDeclaration, List.append_assoc, List.cons_append, declaration,
      dottedName?_append printable.1 (.cons rfl (by decide) _)]
    simp only [skipSpaces_space, skipSpaces_ofBody _ printable.2, readBody, String.ofList_toList]
    rfl

theorem body_ofBody (quoting : Quoting) (fuel : Nat) {value : Body} (printable : isPrintableBody value = true)
    (after : List Char) (enough : 4 * (Canonical.ofBody quoting value).length + 7 ≤ fuel) :
    ∃ read, body feeds fuel (Canonical.ofBody quoting value ++ '\n' :: after) =
        .ok (read, '\n' :: after) ∧ unlinedBody read = unlinedBody value := by
  obtain ⟨fuel, rfl⟩ : ∃ more, fuel = more + 2 := ⟨fuel - 2, by omega⟩
  cases value with
  | block list =>
    obtain ⟨read, declarations, same⟩ := declarations_ofDeclarations quoting fuel printable
      (EndsBlock.brace ('\n' :: after)) (by
        simp only [Canonical.ofBody, Canonical.inBraces, List.length_cons, List.length_append] at enough
        omega)
    refine ⟨.block read, ?_, congrArg Body.block same⟩
    rw [Canonical.ofBody, inBraces_append, body, block, declarations_lineFeed, declarations]
    rfl
  | arguments values =>
    cases values with
    | nil => cases printable
    | cons first rest =>
      rw [isPrintableBody, arePrintableValues, Bool.and_eq_true, Bool.and_eq_true] at printable
      simp only [Canonical.ofBody, Canonical.ofValues, List.length_append] at enough
      obtain ⟨character, tail, characters, start⟩ :=
        ofExpression_start quoting.first printable.2.1
      obtain ⟨value, readFirst, sameFirst⟩ := expression_ofExpression quoting.first (fuel + 1) printable.2.1
        (ofMoreValues_endsValue quoting.others rest (.line after)) (by omega)
      obtain ⟨others, readOthers, sameOthers⟩ := moreArguments_ofMoreValues quoting.others (fuel + 1)
        printable.2.2 after (by omega)
      refine ⟨.arguments (value :: others), ?_, by
        rw [unlinedBody, unlinedBody, unlinedValues, unlinedValues, sameFirst, sameOthers]⟩
      rw [Canonical.ofBody, Canonical.ofValues, List.append_assoc]
      rw [characters, List.cons_append] at readFirst ⊢
      rw [body_of_isValueStart start, readFirst]
      simp only [ok_bind, readOthers]
      rfl
  | assignment value =>
    simp only [Canonical.ofBody, List.length_cons] at enough
    obtain ⟨character, tail, characters, start⟩ := ofExpression_start quoting printable
    obtain ⟨read, readValue, same⟩ := expression_ofExpression quoting (fuel + 1)
      printable (.line after) (by omega)
    refine ⟨.assignment read, ?_, congrArg Body.assignment same⟩
    rw [Canonical.ofBody, List.cons_append, List.cons_append, body, skipTrivia_space]
    rw [characters, List.cons_append] at readValue ⊢
    rw [skipTrivia_of_solid _ (isSolid_of_isValueStart start), readValue]
    rfl

end

/-- Reading the canonical text of declarations gives these declarations, up to the lines they stand on. -/
theorem readDeclarations_canonicalText (quoting : Quoting) (list : List Declaration)
    (printable : arePrintable list = true) :
    ∃ read, readDeclarations (canonicalText quoting list) = .ok read ∧ unlined read = unlined list := by
  have enough : 4 * (Canonical.ofDeclarations quoting list).length + 2 ≤
      enoughFuel (Canonical.ofDeclarations quoting list) := by
    unfold enoughFuel
    omega
  obtain ⟨read, run, same⟩ : ∃ read, declarations (lineFeeds (Canonical.ofDeclarations quoting list))
      (enoughFuel (Canonical.ofDeclarations quoting list)) (Canonical.ofDeclarations quoting list ++ []) =
        .ok (read, []) ∧ unlined read = unlined list :=
    declarations_ofDeclarations quoting _ printable .text enough
  rw [List.append_nil] at run
  refine ⟨read, ?_, same⟩
  rw [readDeclarations, canonicalText, String.toList_ofList, run]

/-- An application with each kind of value: texts in both kinds of quotes, one that is put together, a
nested list, maps with and without entries, a block that stands for a value and a file to load. -/
def sampleDeclarations : List Declaration :=
  [.mk "application" 0 (.block
    [.mk "name" 0 (.arguments [.text "a\"$b"]),
      .mk "ports.all" 0 (.assignment (.map
        [("first", .list [.int (-8080), .null, .reference "base.port"]), ("rest", .map [])])),
      .mk "scale" 0 (.arguments [.bool true, .block "load" 0 [], .load "it's",
        .interpolated [.literal "v\\", .reference "main version"]])])]

/-- Double quotes for every text but those inside the declarations after the second one of a block. -/
def sampleQuoting : Quoting := fun way =>
  if [true, false, false].isPrefixOf way then .single else .double

theorem readDeclarations_canonicalText_sample :
    canonicalText sampleQuoting sampleDeclarations =
        "application \x7b\nname \"a\\\"\\$b\"\n" ++
        "ports.all = [\"first\": [-8080, null, base.port], \"rest\": [:]]\n" ++
        "scale true, load \x7b\n\x7d, load('it\\'s'), \"v\\\\$\x7bmain version\x7d\"\n\x7d\n" ∧
      arePrintable sampleDeclarations = true ∧
      ∃ read, readDeclarations (canonicalText sampleQuoting sampleDeclarations) = .ok read ∧
        unlined read = unlined sampleDeclarations :=
  ⟨by decide +kernel, by decide +kernel,
    readDeclarations_canonicalText sampleQuoting sampleDeclarations (by decide +kernel)⟩

end DeployRecipe.Recipe
