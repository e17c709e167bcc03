import DeployRecipe.Yaml.Lexer

/-!
The nodes of a YAML document. Where the text cannot be read further, the node that was expected is broken
and carries the reason; what comes before it stands as usual.
-/

namespace DeployRecipe.Yaml

/-- Why a document cannot be read further. -/
inductive Break where
  | fault (fault : Fault)
  | unknownAnchor (mark : Mark)
  | tooDeep
deriving DecidableEq, Repr

inductive Node where
  | scalar (mark : Mark) (tag : Option String) (plain : Bool) (text : String)
  | sequence (mark : Mark) (tag : Option String) (items : List Node)
  | mapping (mark : Mark) (tag : Option String) (entries : List (Node × Node))
  | alias (target : Node)
  /-- The root of a text without content. -/
  | nothing
  | broken (reason : Break)

instance : Inhabited Node := ⟨.nothing⟩

/-- A scalar that is not written. -/
def Node.unwritten (mark : Mark) : Node :=
  .scalar mark none true ""

/-- Tokens that are to be read, and what the text before them has defined. -/
structure TokenStream where
  tokens : List Token
  /-- Why nothing follows the tokens. -/
  ending : Break
  anchors : List (String × Node)
  /-- What the handles of tags stand for. -/
  handles : List (String × String)

namespace TokenStream

def skip (stream : TokenStream) : TokenStream :=
  { stream with tokens := stream.tokens.tail }

/-- The kind of the next token. -/
def next? (stream : TokenStream) : Option TokenKind :=
  stream.tokens.head?.map Token.kind

/-- The place of the next token. -/
def place (stream : TokenStream) : Mark :=
  (stream.tokens.head?.map Token.start).getD Mark.start

/-- The place where the next token ends. -/
def finish (stream : TokenStream) : Mark :=
  (stream.tokens.head?.map Token.finish).getD Mark.start

/-- Reading stops here. -/
def stop (stream : TokenStream) (reason : Break) : Node × TokenStream :=
  (.broken reason, { stream with tokens := [], ending := reason })

/-- Reading stops at the next token, for the given problem in what began at a place. -/
def refuse (stream : TokenStream) (activity : String) (start : Mark) (problem : String) :
    Node × TokenStream :=
  if stream.tokens.isEmpty then stream.stop stream.ending
  else stream.stop (.fault ⟨problem, stream.place, some (activity, start)⟩)

/-- The next token is one of those that cannot begin a node here. -/
def isAt (stream : TokenStream) (kinds : List TokenKind) : Bool :=
  stream.next?.any kinds.contains

/-- The anchor and the tag in front of a node. -/
structure Properties where
  anchor : Option String
  tag : Option (String × String × Mark)

/-- Reads the properties in front of a node, in either order. -/
def properties (stream : TokenStream) : Properties × TokenStream :=
  match stream.tokens with
  | ⟨.anchor name, _, _⟩ :: ⟨.tag handle suffix, mark, _⟩ :: rest =>
    (⟨some name, some (handle, suffix, mark)⟩, { stream with tokens := rest })
  | ⟨.tag handle suffix, mark, _⟩ :: ⟨.anchor name, _, _⟩ :: rest =>
    (⟨some name, some (handle, suffix, mark)⟩, { stream with tokens := rest })
  | ⟨.anchor name, _, _⟩ :: rest => (⟨some name, none⟩, { stream with tokens := rest })
  | ⟨.tag handle suffix, mark, _⟩ :: rest =>
    (⟨none, some (handle, suffix, mark)⟩, { stream with tokens := rest })
  | _ => (⟨none, none⟩, stream)

/-- What a handle of tags stands for. -/
def expansion? (stream : TokenStream) (handle : String) : Option String :=
  ((stream.handles ++ [("!", "!"), ("!!", "tag:yaml.org,2002:")]).find? fun entry =>
    entry.1 = handle).map Prod.snd

/-- The tag that is written, if its handle is known. -/
def resolveTag (stream : TokenStream) (start : Mark) :
    Option (String × String × Mark) → Except Fault (Option String)
  | none => .ok none
  | some ("", suffix, _) => .ok (some suffix)
  | some (handle, suffix, mark) =>
    match stream.expansion? handle with
    | some expansion => .ok (some (expansion ++ suffix))
    | none => .error ⟨"found undefined tag handle", mark, some ("while parsing a node", start)⟩

/-- Remembers what an anchor names. -/
def name (stream : TokenStream) (anchor : Option String) (node : Node) : TokenStream :=
  match anchor with
  | some name => { stream with anchors := (name, node) :: stream.anchors }
  | none => stream

/-- The node that an anchor names. -/
def target? (stream : TokenStream) (anchor : String) : Option Node :=
  (stream.anchors.find? fun entry => entry.1 = anchor).map Prod.snd

mutual

/-- Reads a node. A block may begin here or only brackets may; a sequence may stand without indentation as
the value of a key. -/
def node (fuel : Nat) (block indentless : Bool) (stream : TokenStream) : Node × TokenStream :=
  match fuel with
  | 0 => stream.stop .tooDeep
  | fuel + 1 =>
    let start := stream.place
    match stream.next? with
    | some (.alias name) =>
      match stream.target? name with
      | some target => (.alias target, stream.skip)
      | none => stream.stop (.unknownAnchor start)
    | _ =>
      let (found, stream) := stream.properties
      if stream.tokens.isEmpty then stream.stop stream.ending
      else
        match stream.resolveTag start found.tag with
        | .error fault => stream.stop (.fault fault)
        | .ok tag =>
          -- Inside of itself a node cannot be named.
          let inner := stream.name found.anchor (.broken .tooDeep)
          let (node, stream) := content fuel block indentless start tag found.anchor.isSome inner
          (node, stream.name found.anchor node)

/-- Reads a node after its properties. -/
def content (fuel : Nat) (block indentless : Bool) (start : Mark) (tag : Option String)
    (anchored : Bool) (stream : TokenStream) : Node × TokenStream :=
  match fuel with
  | 0 => stream.stop .tooDeep
  | fuel + 1 =>
    let absent : Node × TokenStream :=
      if anchored || tag.isSome then (.scalar start tag true "", stream)
      else
        stream.refuse (if block then "while parsing a block node" else "while parsing a flow node")
          start "did not find expected node content"
    match stream.next? with
    | some (.scalar plain text) =>
      (.scalar start (tag.filter (· ≠ "!")) plain text, stream.skip)
    | some .flowSequenceStart =>
      let (items, rest) := flowItems fuel stream.place true stream.skip
      (.sequence start tag items, rest)
    | some .flowMappingStart =>
      let (entries, rest) := flowEntries fuel stream.place true stream.skip
      (.mapping start tag entries, rest)
    | some .blockSequenceStart =>
      if block then
        let (items, rest) := blockItems fuel stream.place stream.skip
        (.sequence start tag items, rest)
      else absent
    | some .blockMappingStart =>
      if block then
        let (entries, rest) := blockEntries fuel stream.place stream.skip
        (.mapping start tag entries, rest)
      else absent
    | some .blockEntry =>
      if indentless then
        let (items, rest) := indentlessItems fuel stream
        (.sequence start tag items, rest)
      else absent
    | _ => absent

/-- Reads a node, or nothing where one of some tokens follows; then it would have stood at the mark. -/
def nodeUnless (fuel : Nat) (kinds : List TokenKind) (mark : Mark) (block indentless : Bool)
    (stream : TokenStream) : Node × TokenStream :=
  match fuel with
  | 0 => stream.stop .tooDeep
  | fuel + 1 =>
    if stream.tokens.isEmpty then stream.stop stream.ending
    else if stream.isAt kinds then (.unwritten mark, stream)
    else node fuel block indentless stream

/-- Reads the items of a block sequence and its end. -/
def blockItems (fuel : Nat) (start : Mark) (stream : TokenStream) : List Node × TokenStream :=
  match fuel with
  | 0 =>
    let (broken, stream) := stream.stop .tooDeep
    ([broken], stream)
  | fuel + 1 =>
    match stream.next? with
    | some .blockEntry =>
      let mark := stream.finish
      let (item, rest) := nodeUnless fuel [.blockEntry, .blockEnd] mark true false stream.skip
      let (items, rest) := blockItems fuel start rest
      (item :: items, rest)
    | some .blockEnd => ([], stream.skip)
    | _ =>
      let (broken, stream) :=
        stream.refuse "while parsing a block collection" start "did not find expected '-' indicator"
      ([broken], stream)

/-- Reads the items of a sequence that is not indented; its end is not marked. -/
def indentlessItems (fuel : Nat) (stream : TokenStream) : List Node × TokenStream :=
  match fuel with
  | 0 =>
    let (broken, stream) := stream.stop .tooDeep
    ([broken], stream)
  | fuel + 1 =>
    match stream.next? with
    | some .blockEntry =>
      let mark := stream.finish
      let (item, rest) :=
        nodeUnless fuel [.blockEntry, .key, .value, .blockEnd] mark true false stream.skip
      let (items, rest) := indentlessItems fuel rest
      (item :: items, rest)
    | some _ => ([], stream)
    | none =>
      let (broken, stream) := stream.stop stream.ending
      ([broken], stream)

/-- Reads the entries of a block mapping and its end. -/
def blockEntries (fuel : Nat) (start : Mark) (stream : TokenStream) :
    List (Node × Node) × TokenStream :=
  match fuel with
  | 0 =>
    let (broken, stream) := stream.stop .tooDeep
    ([(broken, broken)], stream)
  | fuel + 1 =>
    match stream.next? with
    | some .key =>
      let mark := stream.finish
      let (key, rest) := nodeUnless fuel [.key, .value, .blockEnd] mark true true stream.skip
      let (value, rest) := blockValue fuel rest
      let (entries, rest) := blockEntries fuel start rest
      ((key, value) :: entries, rest)
    | some .blockEnd => ([], stream.skip)
    | _ =>
      let (broken, stream) :=
        stream.refuse "while parsing a block mapping" start "did not find expected key"
      ([(broken, broken)], stream)

/-- Reads the value of a key in a block mapping. -/
def blockValue (fuel : Nat) (stream : TokenStream) : Node × TokenStream :=
  match fuel with
  | 0 => stream.stop .tooDeep
  | fuel + 1 =>
    match stream.next? with
    | some .value =>
      nodeUnless fuel [.key, .value, .blockEnd] stream.finish true true stream.skip
    | some _ => (.unwritten stream.place, stream)
    | none => stream.stop stream.ending

/-- Reads the items of a sequence in brackets. A key makes a mapping of one entry. -/
def flowItems (fuel : Nat) (start : Mark) (first : Bool) (stream : TokenStream) :
    List Node × TokenStream :=
  match fuel with
  | 0 =>
    let (broken, stream) := stream.stop .tooDeep
    ([broken], stream)
  | fuel + 1 =>
    if stream.isAt [.flowSequenceEnd] then ([], stream.skip)
    else if !first && !stream.isAt [.flowEntry] then
      let (broken, stream) :=
        stream.refuse "while parsing a flow sequence" start "did not find expected ',' or ']'"
      ([broken], stream)
    else
      let stream := if first then stream else stream.skip
      if stream.isAt [.flowSequenceEnd] then ([], stream.skip)
      else
        let (item, rest) :=
          if stream.isAt [.key] then flowPair fuel stream.place stream.skip
          else node fuel false false stream
        let (items, rest) := flowItems fuel start false rest
        (item :: items, rest)

/-- Reads a mapping of one entry in a sequence in brackets. -/
def flowPair (fuel : Nat) (start : Mark) (stream : TokenStream) : Node × TokenStream :=
  match fuel with
  | 0 => stream.stop .tooDeep
  | fuel + 1 =>
    let absent := stream.isAt [.value, .flowEntry, .flowSequenceEnd]
    let (key, rest) :=
      if absent then (.unwritten stream.finish, stream.skip) else node fuel false false stream
    let (value, rest) :=
      if rest.isAt [.value] then
        let after := rest.skip
        nodeUnless fuel [.flowEntry, .flowSequenceEnd] after.place false false after
      else if rest.tokens.isEmpty then rest.stop rest.ending
      else (.unwritten rest.place, rest)
    (.mapping start none [(key, value)], rest)

/-- Reads the entries of a mapping in braces. -/
def flowEntries (fuel : Nat) (start : Mark) (first : Bool) (stream : TokenStream) :
    List (Node × Node) × TokenStream :=
  match fuel with
  | 0 =>
    let (broken, stream) := stream.stop .tooDeep
    ([(broken, broken)], stream)
  | fuel + 1 =>
    if stream.isAt [.flowMappingEnd] then ([], stream.skip)
    else if !first && !stream.isAt [.flowEntry] then
      let (broken, stream) :=
        stream.refuse "while parsing a flow mapping" start "did not find expected ',' or '\x7d'"
      ([(broken, broken)], stream)
    else
      let stream := if first then stream else stream.skip
      if stream.isAt [.flowMappingEnd] then ([], stream.skip)
      else
        let (entry, rest) := flowEntry fuel stream
        let (entries, rest) := flowEntries fuel start false rest
        (entry :: entries, rest)

/-- Reads an entry of a mapping in braces. What stands there without a colon is a key without value. -/
def flowEntry (fuel : Nat) (stream : TokenStream) : (Node × Node) × TokenStream :=
  match fuel with
  | 0 =>
    let (broken, stream) := stream.stop .tooDeep
    ((broken, broken), stream)
  | fuel + 1 =>
    if stream.isAt [.key] then
      let after := stream.skip
      let (key, rest) :=
        nodeUnless fuel [.value, .flowEntry, .flowMappingEnd] after.place false false after
      if rest.isAt [.value] then
        let after := rest.skip
        let (value, rest) :=
          nodeUnless fuel [.flowEntry, .flowMappingEnd] after.place false false after
        ((key, value), rest)
      else if rest.tokens.isEmpty then
        let (broken, rest) := rest.stop rest.ending
        ((key, broken), rest)
      else ((key, .unwritten rest.place), rest)
    else
      let (key, rest) := node fuel false false stream
      if rest.tokens.isEmpty then
        let (broken, rest) := rest.stop rest.ending
        ((key, broken), rest)
      else ((key, .unwritten rest.place), rest)

end

end TokenStream

end DeployRecipe.Yaml
