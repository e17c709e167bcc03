import DeployRecipe.Schema.DecodeError
import DeployRecipe.Schema.Executable
import DeployRecipe.Schema.Shape

/-!
Reading values by their shape. The result is again a value, in the form that is kept: every field of a
record is present and in order, choices have their own name, and whole numbers stand as floating point
ones where those are asked for. A value in that form is read as itself.
-/

namespace DeployRecipe

/-- The value without its tags. -/
def Value.untagged : Value → Value
  | .tagged _ value => value.untagged
  | value => value

namespace Shape

/-- Reads a command. -/
def decodeExecutable (value : Value) : Except DecodeError Value :=
  match Executable.ofValue? value with
  | some command => .ok command.toValue
  | none => .error (.noAlternative "ExecutableEntry")

/-- An optional text. -/
def isOptionalText : Value → Bool
  | .null => true
  | .text _ => true
  | _ => false

/-- Reads a record of optional texts from a sequence or a mapping. A field may also be named by its
place. -/
def optionalTexts? (names : List String) (closed : Bool) (value : Value) : Option Table :=
  match value with
  | .sequence items =>
    if items.length ≤ names.length ∧ items.all isOptionalText then
      some (names.zip (items ++ List.replicate (names.length - items.length) Value.null))
    else none
  | .mapping entries => do
    let found ← entries.foldlM (fun (found : Table) (key, content) =>
      let name? : Option (Option String) :=
        match key with
        | .text name => if names.contains name then some (some name) else if closed then none else some none
        | .int place =>
          if place < 0 then none
          else
            match names[place.toNat]? with
            | some name => some (some name)
            | none => if closed then none else some none
        | _ => none
      match name? with
      | none => none
      | some none => some found
      | some (some name) =>
        if found.has name || !isOptionalText content then none
        else some (found.insert name content)) []
    some (names.map fun name => (name, (found.find? name).getD .null))
  | _ => none

/-- Reads a gauge, or else a chart. A gauge has no other field than its metric. -/
def decodeWidget (value : Value) : Except DecodeError Value :=
  match optionalTexts? ["metric"] true value with
  | some gauge => .ok (Value.ofTable gauge)
  | none =>
    match optionalTexts? ["metric", "axisYUnit"] false value with
    | some chart => .ok (Value.ofTable chart)
    | none => .error (.noAlternative "Widget")

/-- Reads a choice by one of its spellings. -/
def decodeChoice (choices : List Choice) (spelling : String) : Except DecodeError Value :=
  match choices.find? fun member => member.spellings.contains spelling with
  | some member => .ok (.text member.name)
  | none => .error (.unknownChoice spelling (choices.flatMap Choice.spellings))

/-- Reads the entries of a mapping as fields. `read` gives none for a name that is no field. -/
def collectFields (read : String → Value → Except DecodeError (Option Value)) (closed : Bool)
    (names : List String) : List (Value × Value) → Table → Except DecodeError Table
  | [], found => .ok found
  | (key, content) :: rest, found =>
    match key.untagged with
    | .text name =>
      match read name content with
      | .error error => .error error
      | .ok (some field) => collectFields read closed names rest (found.insert name field)
      | .ok none =>
        if closed then .error (.unknownField name names)
        else collectFields read closed names rest found
    | other => .error (.wrongKind other "field identifier")

/-- Reads the entries of a mapping with text keys. -/
def collectEntries (read : Value → Except DecodeError Value) :
    List (Value × Value) → Except DecodeError (List (Value × Value))
  | [] => .ok []
  | (key, content) :: rest =>
    match key.untagged with
    | .text name => do
      let content ← read content
      let others ← collectEntries read rest
      pure ((.text name, content) :: others)
    | other => .error (.wrongKind other "a string")

mutual

/-- Reads a value by its shape. -/
def decode : Shape → Value → Except DecodeError Value
  | .any, value => .ok value
  | .text, value =>
    match value.untagged with
    | .text content => .ok (.text content)
    | other => .error (.wrongKind other "a string")
  | .bool, value =>
    match value.untagged with
    | .bool content => .ok (.bool content)
    | other => .error (.wrongKind other "a boolean")
  | .int range, value =>
    match value.untagged with
    | .int number =>
      if range.contains number then .ok (.int number) else .error (.outOfRange number range.name)
    | other => .error (.wrongKind other range.name)
  | .double, value =>
    match value.untagged with
    | .int number => .ok (.float (Double.ofInt number))
    | .float number => .ok (.float number)
    | other => .error (.wrongKind other "f64")
  | .optional inner, value =>
    match value with
    | .null => .ok .null
    | _ => decode inner value
  | .list inner, value =>
    match value.untagged with
    | .sequence items => (items.mapM (decode inner)).map .sequence
    | .null => .ok (.sequence [])
    | other => .error (.wrongKind other "a sequence")
  | .map inner, value =>
    match value.untagged with
    | .mapping entries =>
      (collectEntries (decode inner) entries).map .mapping
    | .null => .ok (.mapping [])
    | other => .error (.wrongKind other "a map")
  | .choice choices, value =>
    match value with
    | .text spelling => decodeChoice choices spelling
    | .tagged tag .null => decodeChoice choices (String.ofList (tag.toList.dropWhile (· = '!')))
    | other => .error (.wrongKind other "a Value::Tagged enum")
  | .record title closed layout, value =>
    match value.untagged with
    | .mapping entries =>
      (collectFields (decodeField layout) closed layout.names entries []).map fun found =>
        Value.ofTable (layout.fill found)
    | .null => .ok (Value.ofTable layout.defaults)
    | other => .error (.wrongKind other ("struct " ++ title))
  | .executable, value => decodeExecutable value
  | .widget, value => decodeWidget value

/-- Reads the value of a field by its name. A layout without the field gives none. -/
def decodeField : Layout → String → Value → Except DecodeError (Option Value)
  | .nil, _, _ => .ok none
  | .field name shape _ rest, wanted, value =>
    if name = wanted then (decode shape value).map some else decodeField rest wanted value

end

end Shape

end DeployRecipe
