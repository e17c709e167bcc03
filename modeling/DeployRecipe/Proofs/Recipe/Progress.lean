import DeployRecipe.Proofs.Recipe.Stability

/-!
Reading makes progress on every text. Loops inside one lexeme take something off the text on each turn, a reader that
is called again while it reads is given a shorter text, and the bound on nested calls is never reached.
-/

namespace DeployRecipe.Recipe

/-- The loops inside one lexeme: over trivia, and over what stands between quotes of either kind. -/
inductive Loop where
  | trivia
  | doubleQuoted
  | singleQuoted
deriving DecidableEq, Repr

/-- The text after one character, one escape or one name to look up between double quotes. -/
def afterDoubleQuotedPart? : List Char → Option (List Char)
  | [] | '"' :: _ | ['\\'] => none
  | '\\' :: _ :: rest => some rest
  | '$' :: '{' :: rest =>
    match splitAtBrace? rest with
    | none => none
    | some (inside, after) => if Text.trim inside = [] then none else some after
  | _ :: rest => some rest

/-- The text after one character or one escape between single quotes. -/
def afterSingleQuotedPart? : List Char → Option (List Char)
  | [] | '\'' :: _ => none
  | '\\' :: '\'' :: rest => some rest
  | '\\' :: '\\' :: rest => some rest
  | _ :: rest => some rest

/-- The text after what was read, if something was. -/
def restOf? {α : Type} (outcome : Except Halt (α × List Char)) : Option (List Char) :=
  outcome.toOption.map Prod.snd

namespace Loop

/-- The text after one turn, if there is another turn. -/
def turn? : Loop → List Char → Option (List Char)
  | trivia => afterTrivium?
  | doubleQuoted => afterDoubleQuotedPart?
  | singleQuoted => afterSingleQuotedPart?

/-- The text after a loop that takes no more turns, if it ends well. -/
def stop? : Loop → List Char → Option (List Char)
  | trivia, text => some text
  | doubleQuoted, '"' :: rest => some rest
  | singleQuoted, '\'' :: rest => some rest
  | _, _ => none

variable {loop : Loop} {text next : List Char}

theorem turn?_shortens (turns : loop.turn? text = some next) : Shortens text next := by
  cases loop with
  | trivia => exact afterTrivium?_shortens turns
  | doubleQuoted =>
    rw [turn?] at turns
    unfold afterDoubleQuotedPart? at turns
    split at turns
    · cases turns
    · cases turns
    · cases turns
    · obtain rfl := Option.some.inj turns
      exact .cons _ (List.suffix_cons _ _)
    · rename_i rest
      split at turns
      · cases turns
      · rename_i inside after brace
        split at turns
        · cases turns
        · obtain rfl := Option.some.inj turns
          exact .cons _ ((splitAtBrace?_suffix brace).trans (List.suffix_cons _ _))
    · obtain rfl := Option.some.inj turns
      exact .cons _ (List.suffix_refl _)
  | singleQuoted =>
    rw [turn?] at turns
    unfold afterSingleQuotedPart? at turns
    split at turns
    · cases turns
    · cases turns
    · obtain rfl := Option.some.inj turns
      exact .cons _ (List.suffix_cons _ _)
    · obtain rfl := Option.some.inj turns
      exact .cons _ (List.suffix_cons _ _)
    · obtain rfl := Option.some.inj turns
      exact .cons _ (List.suffix_refl _)

/-- The text after a loop that takes its turns one after another, if it ends well. -/
def leaves? (loop : Loop) (text : List Char) : Option (List Char) :=
  match _turns : loop.turn? text with
  | some next => loop.leaves? next
  | none => loop.stop? text
termination_by text.length
decreasing_by exact (turn?_shortens _turns).shorter

theorem leaves?_of_turn (turns : loop.turn? text = some next) : loop.leaves? text = loop.leaves? next := by
  rw [leaves?]
  split
  · rename_i turns'
    rw [turns] at turns'
    rw [Option.some.inj turns']
  · rename_i stops
    rw [turns] at stops
    cases stops

theorem leaves?_of_stop (stops : loop.turn? text = none) : loop.leaves? text = loop.stop? text := by
  rw [leaves?]
  split
  · rename_i turns
    rw [stops] at turns
    cases turns
  · rfl

theorem leaves?_trivia (text : List Char) : trivia.leaves? text = some (skipTrivia text) := by
  fun_induction skipTrivia text with
  | case1 text rest found inductionHypothesis =>
    have turns : trivia.turn? text = some rest := found
    exact (leaves?_of_turn turns).trans inductionHypothesis
  | case2 text stops => exact leaves?_of_stop stops

theorem leaves?_doubleQuoted (opening pending text : List Char) :
    restOf? (doubleQuotedParts opening pending text) = doubleQuoted.leaves? text := by
  fun_induction doubleQuotedParts opening pending text with
  | case1 | case2 | case3 =>
    rw [leaves?_of_stop rfl]
    rfl
  | case4 pending escaped rest inductionHypothesis =>
    have turns : doubleQuoted.turn? ('\\' :: escaped :: rest) = some rest := rfl
    exact inductionHypothesis.trans (leaves?_of_turn turns).symm
  | case5 pending rest noBrace =>
    have stops : doubleQuoted.turn? ('$' :: '{' :: rest) = none := by
      simp only [turn?, afterDoubleQuotedPart?, noBrace]
    rw [leaves?_of_stop stops]
    rfl
  | case6 pending rest inside after brace empty =>
    have stops : doubleQuoted.turn? ('$' :: '{' :: rest) = none := by
      simp only [turn?, afterDoubleQuotedPart?, brace, empty, if_true]
    rw [leaves?_of_stop stops]
    rfl
  | case7 pending rest inside after brace halt fails named inductionHypothesis =>
    have turns : doubleQuoted.turn? ('$' :: '{' :: rest) = some after := by
      simp only [turn?, afterDoubleQuotedPart?, brace]
      exact if_neg named
    rw [leaves?_of_turn turns, ← inductionHypothesis, fails]
  | case8 pending rest inside after brace parts last reads named inductionHypothesis =>
    have turns : doubleQuoted.turn? ('$' :: '{' :: rest) = some after := by
      simp only [turn?, afterDoubleQuotedPart?, brace]
      exact if_neg named
    rw [leaves?_of_turn turns, ← inductionHypothesis, reads]
    rfl
  | case9 pending character rest noQuote noEnd noEscape noReference inductionHypothesis =>
    have turns : doubleQuoted.turn? (character :: rest) = some rest := by
      rw [turn?]
      unfold afterDoubleQuotedPart?
      split <;> simp_all
    rw [leaves?_of_turn turns, ← inductionHypothesis]

theorem leaves?_singleQuoted (opening text : List Char) :
    restOf? (singleQuotedText opening text) = singleQuoted.leaves? text := by
  have passed {α β : Type} (change : α → β) (outcome : Except Halt (α × List Char)) :
      restOf? (outcome.map fun (content, after) => (change content, after)) = restOf? outcome := by
    cases outcome <;> rfl
  fun_induction singleQuotedText opening text with
  | case1 | case2 =>
    rw [leaves?_of_stop rfl]
    rfl
  | case3 rest inductionHypothesis =>
    have turns : singleQuoted.turn? ('\\' :: '\'' :: rest) = some rest := rfl
    rw [leaves?_of_turn turns, ← inductionHypothesis, passed]
  | case4 rest inductionHypothesis =>
    have turns : singleQuoted.turn? ('\\' :: '\\' :: rest) = some rest := rfl
    rw [leaves?_of_turn turns, ← inductionHypothesis, passed]
  | case5 character rest noQuote noEscapedQuote noEscapedBackslash inductionHypothesis =>
    have turns : singleQuoted.turn? (character :: rest) = some rest := by
      rw [turn?]
      unfold afterSingleQuotedPart?
      split <;> simp_all
    rw [leaves?_of_turn turns, ← inductionHypothesis, passed]

end Loop

section Bound

theorem ofHalt_eq_tooDeep {feeds : Nat} {halt : Halt} (tooDeep : SyntaxError.ofHalt feeds halt = .tooDeep) :
    halt = .outOfFuel := by
  cases halt with
  | fault expected rest => cases tooDeep
  | outOfFuel => rfl

theorem readDeclarations_ne_tooDeep (source : String) : readDeclarations source ≠ .error .tooDeep := by
  intro run
  unfold readDeclarations at run
  dsimp only at run
  split at run
  · cases run
  · cases run
  · rename_i halt exhausted
    obtain rfl := ofHalt_eq_tooDeep (Except.error.inj run)
    have inTime : ¬Call.RunsOut (lineFeeds source.toList) (enoughFuel source.toList) ⟨.declarations, source.toList⟩ :=
      Call.not_runsOut le_rfl
    exact inTime exhausted

theorem readExpression_ne_tooDeep (source : String) : readExpression source ≠ .error .tooDeep := by
  intro run
  unfold readExpression at run
  dsimp only at run
  split at run
  · cases run
  · split at run <;> cases run
  · rename_i halt exhausted
    obtain rfl := ofHalt_eq_tooDeep (Except.error.inj run)
    have shorter := (skipTrivia_suffix source.toList).length_le
    have inTime : ¬Call.RunsOut (lineFeeds source.toList) (enoughFuel source.toList)
        ⟨.expression, skipTrivia source.toList⟩ := by
      apply Call.not_runsOut
      simp only [enoughFuel]
      omega
    exact inTime exhausted

end Bound

/-- Reading makes progress on every text. Each turn of a loop inside a lexeme takes something off the text, and the
loops leave what the readers of trivia and of quoted texts leave. A reader that is called again by the calls that it
makes is given a shorter text; these calls are the ones on which a bound is spent, and a bound in proportion to the
length of the text is not reached, so that a higher one changes nothing and no text is too deep. -/
theorem readers_make_progress :
    (∀ (loop : Loop) (text next : List Char), loop.turn? text = some next → Shortens text next) ∧
    (∀ text : List Char, Loop.trivia.leaves? text = some (skipTrivia text) ∧
      (∀ opening pending : List Char,
        restOf? (doubleQuotedParts opening pending text) = Loop.doubleQuoted.leaves? text) ∧
      ∀ opening : List Char, restOf? (singleQuotedText opening text) = Loop.singleQuoted.leaves? text) ∧
    (∀ (feeds : Nat) (outer inner : Call), outer.Leads feeds inner → inner.production = outer.production →
      Shortens outer.text inner.text) ∧
    (∀ (feeds fuel : Nat) (call : Call), call.RunsOut feeds (fuel + 1) ↔
      ∃ inner, call.Makes feeds fuel inner ∧ inner.RunsOut feeds fuel) ∧
    (∀ (feeds fuel : Nat) (call : Call), 4 * call.text.length + 4 ≤ fuel →
      ¬call.RunsOut feeds fuel ∧ ∀ more, fuel ≤ more → call.Agrees feeds fuel more) ∧
    ∀ source : String, readDeclarations source ≠ .error .tooDeep ∧ readExpression source ≠ .error .tooDeep :=
  ⟨fun _ _ _ => Loop.turn?_shortens,
    fun text => ⟨Loop.leaves?_trivia text, fun opening pending => Loop.leaves?_doubleQuoted opening pending text,
      fun opening => Loop.leaves?_singleQuoted opening text⟩,
    fun _ _ _ => Call.Leads.shortens,
    fun _ _ call => call.runsOut_succ,
    fun _ _ _ enough => ⟨Call.not_runsOut enough, fun _ higher => Call.agrees (Call.not_runsOut enough) higher⟩,
    fun source => ⟨readDeclarations_ne_tooDeep source, readExpression_ne_tooDeep source⟩⟩

/-- From a block to its first declarations through a name, with a name to look up between quotes. -/
theorem readers_make_progress_block :
    Loop.doubleQuoted.turn? "$\x7bb\x7d\"\x7d".toList = some "\"\x7d".toList ∧
      Shortens "$\x7bb\x7d\"\x7d".toList "\"\x7d".toList ∧
    Call.Leads 0 ⟨.declarations, "a \x7bb 1\x7d".toList⟩ ⟨.declarations, "b 1\x7d".toList⟩ ∧
      Shortens "a \x7bb 1\x7d".toList "b 1\x7d".toList ∧
    ¬Call.RunsOut 0 32 ⟨.declarations, "a \x7bb 1\x7d".toList⟩ := by
  have turn : Loop.doubleQuoted.turn? "$\x7bb\x7d\"\x7d".toList = some "\"\x7d".toList := by decide
  have start : skipTrivia "a \x7bb 1\x7d".toList = "a \x7bb 1\x7d".toList := skipTrivia_of_solid 'a' rfl _
  have name : Call.Makes 0 0 ⟨.declarations, "a \x7bb 1\x7d".toList⟩ ⟨.declaration, "a \x7bb 1\x7d".toList⟩ := by
    have made : Call.Makes 0 0 _ _ := .firstDeclaration "a \x7bb 1\x7d".toList
    rwa [start] at made
  have body : Call.Makes 0 0 ⟨.declaration, "a \x7bb 1\x7d".toList⟩ ⟨.body, "\x7bb 1\x7d".toList⟩ := by
    have named : dottedName? "a \x7bb 1\x7d".toList = some ("a".toList, " \x7bb 1\x7d".toList) := by decide
    exact .bodyOfName named
  have leads : Call.Leads 0 ⟨.declarations, "a \x7bb 1\x7d".toList⟩ ⟨.declarations, "b 1\x7d".toList⟩ :=
    .head ⟨0, name⟩ (.head ⟨0, body⟩ (.head ⟨0, .blockOfBody _⟩ (.single ⟨0, .inBlock _⟩)))
  exact ⟨turn, readers_make_progress.1 _ _ _ turn, leads, readers_make_progress.2.2.1 0 _ _ leads rfl,
    (readers_make_progress.2.2.2.2.1 0 32 _ (by decide)).1⟩

end DeployRecipe.Recipe
