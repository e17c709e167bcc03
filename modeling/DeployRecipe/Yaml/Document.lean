import DeployRecipe.Yaml.Node

/-!
The first document of a YAML text.
-/

namespace DeployRecipe.Yaml

/-- The first document of a text. -/
structure Document where
  root : Node
  /-- Why the text cannot be read after the document. -/
  ending : Option Break
  /-- Another document follows. -/
  isFollowed : Bool

namespace Document

/-- The token belongs to no document's content. -/
def isOutside : TokenKind → Bool
  | .version _ _ | .tagDirective _ _ | .documentStart | .documentEnd | .streamEnd => true
  | _ => false

/-- The fault of a token without further context. -/
def misplaced (problem : String) (mark : Mark) : Break :=
  .fault ⟨problem, mark, none⟩

/-- Takes the directives in front of a document. -/
def directives (versioned : Bool) (handles : List (String × String)) :
    List Token → Except Break (List (String × String) × List Token)
  | ⟨.version major minor, mark, _⟩ :: rest =>
    if versioned then .error (misplaced "found duplicate %YAML directive" mark)
    else if major ≠ 1 ∨ (minor ≠ 1 ∧ minor ≠ 2) then
      .error (misplaced "found incompatible YAML document" mark)
    else directives true handles rest
  | ⟨.tagDirective handle expansion, mark, _⟩ :: rest =>
    if handles.any (·.1 = handle) then .error (misplaced "found duplicate %TAG directive" mark)
    else directives versioned (handles ++ [(handle, expansion)]) rest
  | tokens => .ok (handles, tokens)

/-- Reads the content of a document and looks at what follows it. -/
def content (stream : TokenStream) : Document :=
  let (root, rest) :=
    if stream.next?.any isOutside then (.unwritten stream.place, stream)
    else stream.node (8 * stream.tokens.length + 8) true false
  if rest.tokens.isEmpty then ⟨root, some rest.ending, false⟩
  else
    let further := rest.tokens.dropWhile fun token => token.kind = .documentEnd
    ⟨root, none, (further.head?.map Token.kind) ≠ some .streamEnd⟩

/-- Reads a document after its directives. -/
def explicit (stream : TokenStream) : Document :=
  match stream.tokens with
  | [] => ⟨.broken stream.ending, none, false⟩
  | token :: rest =>
    if token.kind = .documentStart then
      if rest.isEmpty then ⟨.broken stream.ending, none, false⟩
      else content { stream with tokens := rest }
    else ⟨.broken (misplaced "did not find expected <document start>" token.start), none, false⟩

/-- Reads the first document of some tokens. -/
def ofTokens (tokens : List Token) (ending : Break) : Document :=
  match tokens with
  | [] => ⟨.broken ending, none, false⟩
  | first :: _ =>
    match first.kind with
    | .streamEnd => ⟨.nothing, none, false⟩
    | .version _ _ | .tagDirective _ _ | .documentStart =>
      match directives false [] tokens with
      | .ok (handles, rest) => explicit ⟨rest, ending, [], handles⟩
      | .error reason => ⟨.broken reason, none, false⟩
    | _ => content ⟨tokens, ending, [], []⟩

/-- Reads the first document of a text. -/
def ofText (text : String) : Document :=
  match spots text with
  | .error fault => ⟨.broken (.fault fault), none, false⟩
  | .ok spots =>
    let (tokens, fault) := tokens spots
    ofTokens tokens ((fault.map Break.fault).getD .tooDeep)

end Document

end DeployRecipe.Yaml
