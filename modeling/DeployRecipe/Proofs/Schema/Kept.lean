import DeployRecipe.Schema.Decode
import DeployRecipe.Proofs.Entries

/-!
The form in which values are kept. What is read by a shape is read again as itself: every alternative
keeps a value in the form in which it recognizes it first. Records of any depth inherit this from their
fields, as long as their names are distinct and their defaults are kept.
-/

namespace DeployRecipe

namespace Layout

/-- Induction on the fields of a layout, without one on their shapes. -/
@[induction_eliminator]
theorem induction {motive : Layout → Prop} (nil : motive .nil)
    (field : ∀ name shape absent rest, motive rest → motive (.field name shape absent rest)) :
    ∀ layout, motive layout
  | .nil => nil
  | .field name shape absent rest => field name shape absent rest (Layout.induction nil field rest)

/-- The shape of a field. -/
def shape? : Layout → String → Option Shape
  | .nil, _ => none
  | .field name shape _ rest, wanted => if name = wanted then some shape else rest.shape? wanted

/-- The table has a value for each field in order, and each is kept by the shape of its field. -/
def Keeps : Layout → Table → Prop
  | .nil, [] => True
  | .field name shape _ rest, (present, value) :: others =>
    present = name ∧ shape.decode value = .ok value ∧ rest.Keeps others
  | _, _ => False

end Layout

mutual

/-- Choices are kept under names that are read as themselves, and records have distinct names and
defaults that are kept. -/
def Shape.Sound : Shape → Prop
  | .optional inner => inner.Sound
  | .list inner => inner.Sound
  | .map inner => inner.Sound
  | .choice choices => ∀ member ∈ choices,
      Shape.decodeChoice choices member.name = .ok (.text member.name)
  | .record _ _ layout => layout.names.Nodup ∧ layout.Sound
  | _ => True

def Layout.Sound : Layout → Prop
  | .nil => True
  | .field _ shape absent rest => shape.Sound ∧ shape.decode absent = .ok absent ∧ rest.Sound

end

namespace Layout

theorem shape?_eq_none_iff (layout : Layout) (name : String) :
    layout.shape? name = none ↔ name ∉ layout.names := by
  induction layout with
  | nil => simp [shape?, names]
  | field present shape absent rest inductionHypothesis =>
    by_cases same : present = name
    · simp [shape?, names, same]
    · simp [shape?, names, same, inductionHypothesis, Ne.symm same]

theorem keys_of_keeps {layout : Layout} {table : Table} (keeps : layout.Keeps table) :
    table.keys = layout.names := by
  induction layout generalizing table with
  | nil =>
    cases table with
    | nil => rfl
    | cons entry others => exact keeps.elim
  | field name shape absent rest inductionHypothesis =>
    cases table with
    | nil => exact keeps.elim
    | cons entry others =>
      obtain ⟨same, _, more⟩ := keeps
      simp only [Entries.keys, List.map_cons, names, same]
      exact congrArg (name :: ·) (inductionHypothesis more)

/-- What is found in a table that a layout keeps is kept by the shape of its field. -/
theorem decode_of_keeps {layout : Layout} {table : Table} (keeps : layout.Keeps table)
    {name : String} {shape : Shape} (field : layout.shape? name = some shape) :
    ∃ value, table.find? name = some value ∧ shape.decode value = .ok value := by
  induction layout generalizing table with
  | nil => simp [shape?] at field
  | field present first absent rest inductionHypothesis =>
    cases table with
    | nil => exact keeps.elim
    | cons entry others =>
      obtain ⟨same, kept, more⟩ := keeps
      by_cases here : present = name
      · rw [shape?, if_pos here] at field
        obtain rfl := Option.some.inj field
        exact ⟨entry.2, by rw [Entries.find?, if_pos (same.trans here)], kept⟩
      · rw [shape?, if_neg here] at field
        obtain ⟨value, found, fits⟩ := inductionHypothesis more field
        exact ⟨value, by rw [Entries.find?, if_neg (same ▸ here), found], fits⟩

end Layout

namespace Shape

/-! Commands and widgets. -/

theorem mapM_textOf?_text (words : List String) :
    (words.map Value.text).mapM Executable.textOf? = some words := by
  induction words with
  | nil => rfl
  | cons word rest inductionHypothesis => simp [Executable.textOf?, inductionHypothesis]

theorem ofValue?_toValue (command : Executable) :
    Executable.ofValue? command.toValue = some command := by
  cases command with
  | command line => rfl
  | arguments words =>
    rw [Executable.toValue, Executable.ofValue?, mapM_textOf?_text]
    rfl
  | perSystem lines =>
    have texts : (lines.map fun entry : String × String => (Value.text entry.1, Value.text entry.2)).mapM
        (fun (entry : Value × Value) => do
          pure ((← Executable.textOf? entry.1), (← Executable.textOf? entry.2))) = some lines := by
      induction lines with
      | nil => rfl
      | cons line rest inductionHypothesis =>
        rw [List.map_cons, List.mapM_cons, inductionHypothesis]
        rfl
    rw [Executable.toValue, Executable.ofValue?]
    exact congrArg (Option.map Executable.perSystem) texts

theorem decodeExecutable_kept {value kept : Value} (read : decodeExecutable value = .ok kept) :
    decodeExecutable kept = .ok kept := by
  rw [decodeExecutable] at read
  split at read
  · rename_i command _
    obtain rfl := Except.ok.inj read
    rw [decodeExecutable, ofValue?_toValue]
  · cases read

theorem foldlM_keeps {α β : Type} (holds : β → Prop) {step : β → α → Option β}
    (keeps : ∀ state item next, holds state → step state item = some next → holds next)
    {items : List α} {start result : β} (first : holds start)
    (run : items.foldlM step start = some result) : holds result := by
  induction items generalizing start with
  | nil => exact Option.some.inj run ▸ first
  | cons item rest inductionHypothesis =>
    rw [List.foldlM_cons] at run
    obtain ⟨next, stepped, run⟩ := Option.bind_eq_some_iff.mp run
    exact inductionHypothesis (keeps start item next first stepped) run

/-- The fields that are read from a sequence or a mapping are all there, each null or a text. -/
theorem optionalTexts?_texts {names : List String} {closed : Bool} {value : Value} {table : Table}
    (read : optionalTexts? names closed value = some table) :
    table.keys = names ∧ ∀ entry ∈ table, isOptionalText entry.2 = true := by
  cases value with
  | sequence items =>
    simp only [optionalTexts?, Option.ite_none_right_eq_some, List.all_eq_true] at read
    obtain ⟨⟨few, texts⟩, same⟩ := read
    obtain rfl := Option.some.inj same
    constructor
    · rw [Entries.keys, List.map_fst_zip]
      simp
      omega
    · intro entry member
      rcases List.mem_append.mp (List.of_mem_zip member).2 with given | padding
      · exact texts _ given
      · rw [List.eq_of_mem_replicate padding]
        rfl
  | mapping entries =>
    simp only [optionalTexts?] at read
    obtain ⟨found, run, same⟩ := Option.bind_eq_some_iff.mp read
    obtain rfl := Option.some.inj same
    have texts : ∀ entry ∈ found, isOptionalText entry.2 = true := by
      refine foldlM_keeps (fun found : Table => ∀ entry ∈ found, isOptionalText entry.2 = true)
        ?_ (by simp) run
      intro state item next kept stepped entry member
      split at stepped
      · cases stepped
      · exact kept entry (Option.some.inj stepped ▸ member)
      · split at stepped
        · cases stepped
        · rename_i name _ fits
          obtain rfl := Option.some.inj stepped
          rcases Entries.mem_insert member with rfl | old
          · simp only [Bool.or_eq_true, Bool.not_eq_eq_eq_not, not_or, Bool.not_eq_true] at fits
            simpa using fits.2
          · exact kept entry old
    constructor
    · simp [Entries.keys, Function.comp_def]
    · intro entry member
      obtain ⟨name, _, rfl⟩ := List.mem_map.mp member
      cases present : found.find? name with
      | none => rfl
      | some content => exact texts _ (Entries.mem_of_find? present)
  | _ => simp [optionalTexts?] at read

/-- A widget is kept as the gauge or the chart that it was read as: a chart has a field that no gauge
has. -/
theorem decodeWidget_kept {value kept : Value} (read : decodeWidget value = .ok kept) :
    decodeWidget kept = .ok kept := by
  rw [decodeWidget] at read
  split at read
  · rename_i gauge found
    obtain rfl := Except.ok.inj read
    obtain ⟨names, texts⟩ := optionalTexts?_texts found
    obtain ⟨⟨name, metric⟩, rfl, rfl⟩ := List.map_eq_singleton_iff.mp names
    have text : isOptionalText metric = true := texts _ (List.mem_singleton_self _)
    simp [decodeWidget, optionalTexts?, Value.ofTable, Entries.has, Entries.insert, Entries.find?, text]
  · split at read
    · rename_i chart found
      obtain rfl := Except.ok.inj read
      obtain ⟨names, texts⟩ := optionalTexts?_texts found
      obtain ⟨⟨first, metric⟩, rest, rfl, rfl, others⟩ := List.map_eq_cons_iff.mp names
      obtain ⟨⟨second, unit⟩, rfl, rfl⟩ := List.map_eq_singleton_iff.mp others
      have text : isOptionalText metric = true := texts ("metric", metric) (by simp)
      have other : isOptionalText unit = true := texts ("axisYUnit", unit) (by simp)
      simp [decodeWidget, optionalTexts?, Value.ofTable, Entries.has, Entries.insert, Entries.find?, text, other]
    · cases read

end Shape

namespace Layout

/-- Reads the value of each field in order. -/
def decodeAll : Layout → Table → Except DecodeError Table
  | .field name shape _ rest, (_, value) :: others => do
    let kept ← shape.decode value
    let more ← rest.decodeAll others
    pure ((name, kept) :: more)
  | _, _ => .ok []

theorem decodeAll_of_keeps {layout : Layout} {table : Table} (keeps : layout.Keeps table) :
    layout.decodeAll table = .ok table := by
  induction layout generalizing table with
  | nil =>
    cases table with
    | nil => rfl
    | cons entry others => exact keeps.elim
  | field name shape absent rest inductionHypothesis =>
    cases table with
    | nil => exact keeps.elim
    | cons entry others =>
      obtain ⟨present, value⟩ := entry
      obtain ⟨rfl, kept, more⟩ := keeps
      rw [decodeAll, kept, inductionHypothesis more]
      rfl

/-- If one field of a kept table is given a value, then only that value is read. -/
theorem decodeAll_insert {layout : Layout} {table : Table} (keeps : layout.Keeps table)
    (distinct : layout.names.Nodup) {name : String} {shape : Shape}
    (field : layout.shape? name = some shape) (value : Value) :
    layout.decodeAll (table.insert name value) = (shape.decode value).map (table.insert name) := by
  induction layout generalizing table with
  | nil => simp [shape?] at field
  | field first content absent rest inductionHypothesis =>
    cases table with
    | nil => exact keeps.elim
    | cons entry others =>
      obtain ⟨present, old⟩ := entry
      obtain ⟨rfl, kept, more⟩ := keeps
      rw [names, List.nodup_cons] at distinct
      by_cases here : present = name
      · rw [shape?, if_pos here] at field
        obtain rfl := Option.some.inj field
        rw [Entries.insert, if_pos here, decodeAll, decodeAll_of_keeps more]
        cases content.decode value with
        | error error => rfl
        | ok result =>
          show Except.ok _ = Except.ok _
          rw [Entries.insert, if_pos here]
      · rw [shape?, if_neg here] at field
        rw [Entries.insert, if_neg here, decodeAll, kept, inductionHypothesis more distinct.2 field]
        cases shape.decode value with
        | error error => rfl
        | ok result =>
          show Except.ok _ = Except.ok _
          rw [Entries.insert, if_neg here]

theorem keeps_insert {layout : Layout} {table : Table} (keeps : layout.Keeps table)
    (distinct : layout.names.Nodup) {name : String} {shape : Shape}
    (field : layout.shape? name = some shape) {value : Value} (kept : shape.decode value = .ok value) :
    layout.Keeps (table.insert name value) := by
  induction layout generalizing table with
  | nil => simp [shape?] at field
  | field first content absent rest inductionHypothesis =>
    cases table with
    | nil => exact keeps.elim
    | cons entry others =>
      obtain ⟨present, old⟩ := entry
      obtain ⟨rfl, before, more⟩ := keeps
      rw [names, List.nodup_cons] at distinct
      by_cases here : present = name
      · rw [shape?, if_pos here] at field
        obtain rfl := Option.some.inj field
        rw [Entries.insert, if_pos here]
        exact ⟨rfl, kept, more⟩
      · rw [shape?, if_neg here] at field
        rw [Entries.insert, if_neg here]
        exact ⟨rfl, before, inductionHypothesis more distinct.2 field⟩

theorem decodeField_eq (layout : Layout) (name : String) (value : Value) :
    Shape.decodeField layout name value =
      match layout.shape? name with
      | some shape => (shape.decode value).map some
      | none => .ok none := by
  induction layout with
  | nil => rfl
  | field present shape absent rest inductionHypothesis =>
    by_cases same : present = name
    · simp [Shape.decodeField, shape?, same]
    · simp [Shape.decodeField, shape?, same, inductionHypothesis]

/-- The entries of a table with the names of some fields of a layout are read field by field. -/
theorem collectFields_table (layout : Layout) (closed : Bool) (known : List String) {part : Layout}
    (agree : ∀ name ∈ part.names, layout.shape? name = part.shape? name) (distinct : part.names.Nodup)
    {table : Table} (same : table.keys = part.names) (found : Table)
    (new : ∀ name ∈ part.names, name ∉ found.keys) :
    Shape.collectFields (Shape.decodeField layout) closed known
        (table.map fun (name, value) => (.text name, value)) found =
      (part.decodeAll table).map (found ++ ·) := by
  induction part generalizing table found with
  | nil =>
    obtain rfl : table = [] := by simpa [Entries.keys, names] using same
    simp [Shape.collectFields, decodeAll, Except.map]
  | field name shape absent rest inductionHypothesis =>
    cases table with
    | nil => simp [Entries.keys, names] at same
    | cons entry others =>
      obtain ⟨present, value⟩ := entry
      simp only [Entries.keys, List.map_cons, names, List.cons.injEq] at same
      obtain ⟨rfl, tail⟩ := same
      rw [names, List.nodup_cons] at distinct
      have field : layout.shape? present = some shape := by
        rw [agree present (by simp [names]), shape?, if_pos rfl]
      rw [List.map_cons, Shape.collectFields]
      simp only [Value.untagged]
      rw [decodeField_eq, field, decodeAll]
      dsimp only
      cases shape.decode value with
      | error error => rfl
      | ok kept =>
        have last : found.insert present kept = found ++ [(present, kept)] :=
          Entries.insert_of_not_mem (new present (by simp [names])) kept
        show Shape.collectFields _ closed known _ (found.insert present kept) = _
        rw [last, inductionHypothesis]
        · cases rest.decodeAll others with
          | error error => rfl
          | ok more => exact congrArg Except.ok (List.append_assoc found [(present, kept)] more)
        · intro name member
          rw [agree name (by simp [names, member]), shape?, if_neg]
          rintro rfl
          exact distinct.1 member
        · exact distinct.2
        · exact tail
        · intro name member
          simp only [Entries.keys, List.map_append, List.map_cons, List.map_nil, List.mem_append,
            List.mem_singleton, not_or]
          refine ⟨new name (by simp [names, member]), ?_⟩
          rintro rfl
          exact distinct.1 member

theorem fill_of_find? {layout : Layout} {table found : Table} (same : table.keys = layout.names)
    (there : ∀ entry ∈ table, found.find? entry.1 = some entry.2) : layout.fill found = table := by
  induction layout generalizing table with
  | nil =>
    obtain rfl : table = [] := by simpa [Entries.keys, names] using same
    rfl
  | field name shape absent rest inductionHypothesis =>
    cases table with
    | nil => simp [Entries.keys, names] at same
    | cons entry others =>
      obtain ⟨present, value⟩ := entry
      simp only [Entries.keys, List.map_cons, names, List.cons.injEq] at same
      obtain ⟨rfl, tail⟩ := same
      rw [fill, there (present, value) (by simp)]
      exact congrArg ((present, value) :: ·)
        (inductionHypothesis tail fun entry member => there entry (by simp [member]))

theorem keys_decodeAll {layout : Layout} {table read : Table} (same : table.keys = layout.names)
    (success : layout.decodeAll table = .ok read) : read.keys = layout.names := by
  induction layout generalizing table read with
  | nil =>
    obtain rfl : table = [] := by simpa [Entries.keys, names] using same
    obtain rfl := Except.ok.inj success
    rfl
  | field name shape absent rest inductionHypothesis =>
    cases table with
    | nil => simp [Entries.keys, names] at same
    | cons entry others =>
      obtain ⟨present, value⟩ := entry
      simp only [Entries.keys, List.map_cons, names, List.cons.injEq] at same
      rw [decodeAll] at success
      cases first : shape.decode value with
      | error error =>
        rw [first] at success
        cases success
      | ok kept =>
        rw [first] at success
        cases more : rest.decodeAll others with
        | error error =>
          simp [more, bind, Except.bind] at success
        | ok others' =>
          simp only [more, bind, Except.bind, pure, Except.pure, Except.ok.injEq] at success
          rw [← success, Entries.keys, List.map_cons, names]
          exact congrArg (name :: ·) (inductionHypothesis same.2 more)

end Layout

namespace Shape

/-- A table with every field in order is read field by field. -/
theorem decode_ofTable (title : String) (closed : Bool) {layout : Layout} (distinct : layout.names.Nodup)
    {table : Table} (same : table.keys = layout.names) :
    (record title closed layout).decode (Value.ofTable table) =
      (layout.decodeAll table).map Value.ofTable := by
  rw [decode, Value.ofTable]
  simp only [Value.untagged]
  rw [Layout.collectFields_table layout closed layout.names (fun _ _ => rfl) distinct same []
    (by simp [Entries.keys])]
  cases read : layout.decodeAll table with
  | error error => rfl
  | ok kept =>
    have names := Layout.keys_decodeAll same read
    show Except.ok (Value.ofTable (layout.fill ([] ++ kept))) = Except.ok (Value.ofTable kept)
    rw [List.nil_append, Layout.fill_of_find? names]
    intro entry member
    exact Entries.find?_of_mem (names ▸ distinct) member

theorem decode_optional_eq_ok {inner : Shape} {value kept : Value}
    (read : (optional inner).decode value = .ok kept) :
    value = .null ∧ kept = .null ∨ inner.decode value = .ok kept := by
  cases value with
  | null => exact Or.inl ⟨rfl, (Except.ok.inj (by simpa only [decode] using read)).symm⟩
  | _ => exact Or.inr (by simpa [decode] using read)

theorem decode_optional_of_decode {inner : Shape} {kept : Value} (read : inner.decode kept = .ok kept) :
    (optional inner).decode kept = .ok kept := by
  cases kept with
  | null => rw [decode]
  | _ => simpa [decode] using read

/-- What is read is read again as itself if each item is. -/
theorem mapM_kept {read : Value → Except DecodeError Value} {items kept : List Value}
    (again : ∀ value kept, read value = .ok kept → read kept = .ok kept)
    (success : items.mapM read = .ok kept) : kept.mapM read = .ok kept := by
  induction items generalizing kept with
  | nil =>
    obtain rfl := Except.ok.inj success
    rfl
  | cons item rest inductionHypothesis =>
    rw [List.mapM_cons] at success
    cases first : read item with
    | error error => simp [first, bind, Except.bind] at success
    | ok value =>
      cases others : rest.mapM read with
      | error error => simp [first, others, bind, Except.bind] at success
      | ok values =>
        simp only [first, others, bind, Except.bind, pure, Except.pure, Except.ok.injEq] at success
        rw [← success, List.mapM_cons, again item value first, inductionHypothesis others]
        rfl

theorem collectEntries_kept {read : Value → Except DecodeError Value}
    {entries kept : List (Value × Value)}
    (again : ∀ value kept, read value = .ok kept → read kept = .ok kept)
    (success : collectEntries read entries = .ok kept) : collectEntries read kept = .ok kept := by
  induction entries generalizing kept with
  | nil =>
    obtain rfl := Except.ok.inj success
    rfl
  | cons entry rest inductionHypothesis =>
    obtain ⟨key, content⟩ := entry
    rw [collectEntries] at success
    split at success
    · rename_i name _
      cases first : read content with
      | error error => simp [first, bind, Except.bind] at success
      | ok value =>
        cases others : collectEntries read rest with
        | error error => simp [first, others, bind, Except.bind] at success
        | ok values =>
          simp only [first, others, bind, Except.bind, pure, Except.pure, Except.ok.injEq] at success
          rw [← success, collectEntries]
          simp only [Value.untagged, again content value first, inductionHypothesis others]
          rfl
    · cases success

/-- Every field that is collected was read. -/
theorem collectFields_read (holds : String → Value → Prop)
    {read : String → Value → Except DecodeError (Option Value)} {closed : Bool} {names : List String}
    {entries : List (Value × Value)}
    (reads : ∀ name content value, read name content = .ok (some value) → holds name value)
    {start found : Table} (first : ∀ entry ∈ start, holds entry.1 entry.2)
    (success : collectFields read closed names entries start = .ok found) :
    ∀ entry ∈ found, holds entry.1 entry.2 := by
  induction entries generalizing start with
  | nil =>
    obtain rfl := Except.ok.inj success
    exact first
  | cons entry rest inductionHypothesis =>
    obtain ⟨key, content⟩ := entry
    rw [collectFields] at success
    split at success
    · rename_i name _
      split at success
      · cases success
      · rename_i value stepped
        refine inductionHypothesis ?_ success
        intro entry member
        rcases Entries.mem_insert member with rfl | old
        · exact reads name content value stepped
        · exact first entry old
      · split at success
        · cases success
        · exact inductionHypothesis first success
    · cases success

end Shape

namespace Layout

/-- A record is filled with what its fields keep, from values that were read or from the defaults. -/
theorem keeps_fill {layout : Layout} (sound : layout.Sound) (distinct : layout.names.Nodup) {found : Table}
    (reads : ∀ name shape value, layout.shape? name = some shape → found.find? name = some value →
      shape.decode value = .ok value) : layout.Keeps (layout.fill found) := by
  induction layout with
  | nil => trivial
  | field name shape absent rest inductionHypothesis =>
    obtain ⟨_, default, others⟩ := sound
    rw [names, List.nodup_cons] at distinct
    refine ⟨rfl, ?_, inductionHypothesis others distinct.2 ?_⟩
    · cases given : found.find? name with
      | none => exact default
      | some value => exact reads name shape value (by rw [shape?, if_pos rfl]) given
    · intro other content value field given
      refine reads other content value ?_ given
      rw [shape?, if_neg, field]
      rintro rfl
      rw [(shape?_eq_none_iff rest name).mpr distinct.1] at field
      cases field

theorem keeps_defaults {layout : Layout} (sound : layout.Sound) : layout.Keeps layout.defaults := by
  induction layout with
  | nil => trivial
  | field name shape absent rest inductionHypothesis =>
    obtain ⟨_, default, others⟩ := sound
    exact ⟨rfl, default, inductionHypothesis others⟩

end Layout

theorem Shape.decode_ofTable_of_keeps (title : String) (closed : Bool) {layout : Layout}
    (distinct : layout.names.Nodup) {table : Table} (keeps : layout.Keeps table) :
    (Shape.record title closed layout).decode (Value.ofTable table) = .ok (Value.ofTable table) := by
  rw [Shape.decode_ofTable title closed distinct (Layout.keys_of_keeps keeps),
    Layout.decodeAll_of_keeps keeps]
  rfl

/-- A record is read as a table that its layout keeps, if each field is read again as itself. -/
theorem Shape.keeps_of_decode_record {title : String} {closed : Bool} {layout : Layout}
    (distinct : layout.names.Nodup) (sound : layout.Sound)
    (again : ∀ name shape, layout.shape? name = some shape → ∀ value kept : Value,
      shape.decode value = .ok kept → shape.decode kept = .ok kept)
    {value kept : Value} (read : (Shape.record title closed layout).decode value = .ok kept) :
    ∃ table, kept = Value.ofTable table ∧ layout.Keeps table := by
  rw [Shape.decode] at read
  split at read
  · rename_i entries _
    cases collected : Shape.collectFields (Shape.decodeField layout) closed layout.names entries [] with
    | error error => simp [collected, Except.map] at read
    | ok found =>
      simp only [collected, Except.map, Except.ok.injEq] at read
      refine ⟨layout.fill found, read.symm, Layout.keeps_fill sound distinct ?_⟩
      intro name shape value field given
      have reads := Shape.collectFields_read (fun name value => ∀ shape,
        layout.shape? name = some shape → shape.decode value = .ok value) ?_ (by simp) collected
      · exact reads (name, value) (Entries.mem_of_find? given) shape field
      · intro name content value first shape field
        rw [Layout.decodeField_eq, field] at first
        cases once : shape.decode content with
        | error error => simp [once, Except.map] at first
        | ok result =>
          simp only [once, Except.map, Except.ok.injEq, Option.some.injEq] at first
          exact first ▸ again name shape field content result once
  · obtain rfl := Except.ok.inj read
    exact ⟨layout.defaults, rfl, Layout.keeps_defaults sound⟩
  · cases read

theorem Shape.decode_list_kept {inner : Shape}
    (keeps : ∀ value kept, inner.decode value = .ok kept → inner.decode kept = .ok kept) {value kept : Value}
    (read : Shape.decode (.list inner) value = .ok kept) : Shape.decode (.list inner) kept = .ok kept := by
  rw [Shape.decode] at read
  split at read
  · rename_i items _
    cases each : items.mapM (Shape.decode inner) with
    | error error => simp [each, Except.map] at read
    | ok values =>
      simp only [each, Except.map, Except.ok.injEq] at read
      rw [← read, Shape.decode]
      simp only [Value.untagged, Shape.mapM_kept keeps each]
      rfl
  · obtain rfl := Except.ok.inj read
    rfl
  · cases read

theorem Shape.decode_map_kept {inner : Shape}
    (keeps : ∀ value kept, inner.decode value = .ok kept → inner.decode kept = .ok kept) {value kept : Value}
    (read : Shape.decode (.map inner) value = .ok kept) : Shape.decode (.map inner) kept = .ok kept := by
  rw [Shape.decode] at read
  split at read
  · rename_i entries _
    cases each : Shape.collectEntries (Shape.decode inner) entries with
    | error error => simp [each, Except.map] at read
    | ok values =>
      simp only [each, Except.map, Except.ok.injEq] at read
      rw [← read, Shape.decode]
      simp only [Value.untagged, Shape.collectEntries_kept keeps each]
      rfl
  · obtain rfl := Except.ok.inj read
    rfl
  · cases read

theorem Shape.decodeChoice_kept {choices : List Choice} (sound : (Shape.choice choices).Sound)
    {spelling : String} {kept : Value} (found : Shape.decodeChoice choices spelling = .ok kept) :
    Shape.decode (.choice choices) kept = .ok kept := by
  rw [Shape.decodeChoice] at found
  split at found
  · rename_i member first
    obtain rfl := Except.ok.inj found
    rw [Shape.decode]
    exact sound member (List.mem_of_find?_eq_some first)
  · cases found

mutual

/-- What is read by a shape is read again as itself. -/
theorem Shape.decode_kept : (shape : Shape) → shape.Sound → ∀ value kept : Value,
    shape.decode value = .ok kept → shape.decode kept = .ok kept
  | .any, _, value, kept, read => by rw [Shape.decode]
  | .text, _, value, kept, read => by
    rw [Shape.decode] at read
    split at read
    · obtain rfl := Except.ok.inj read
      rfl
    · cases read
  | .bool, _, value, kept, read => by
    rw [Shape.decode] at read
    split at read
    · obtain rfl := Except.ok.inj read
      rfl
    · cases read
  | .int range, _, value, kept, read => by
    rw [Shape.decode] at read
    split at read
    · split at read
      · rename_i inside
        obtain rfl := Except.ok.inj read
        simp [Shape.decode, Value.untagged, inside]
      · cases read
    · cases read
  | .double, _, value, kept, read => by
    rw [Shape.decode] at read
    split at read
    · obtain rfl := Except.ok.inj read
      rfl
    · obtain rfl := Except.ok.inj read
      rfl
    · cases read
  | .optional inner, sound, value, kept, read => by
    rcases Shape.decode_optional_eq_ok read with ⟨rfl, rfl⟩ | given
    · rw [Shape.decode]
    · exact Shape.decode_optional_of_decode (Shape.decode_kept inner sound value kept given)
  | .list inner, sound, _, _, read => Shape.decode_list_kept (Shape.decode_kept inner sound) read
  | .map inner, sound, _, _, read => Shape.decode_map_kept (Shape.decode_kept inner sound) read
  | .choice choices, sound, value, kept, read => by
    cases value with
    | text spelling => exact Shape.decodeChoice_kept sound (by simpa only [Shape.decode] using read)
    | tagged tag content =>
      cases content with
      | null => exact Shape.decodeChoice_kept sound (by simpa only [Shape.decode] using read)
      | _ => simp [Shape.decode] at read
    | _ => simp [Shape.decode] at read
  | .record title closed layout, ⟨distinct, sound⟩, value, kept, read => by
    obtain ⟨table, rfl, keeps⟩ :=
      Shape.keeps_of_decode_record distinct sound (Layout.decode_kept layout sound) read
    exact Shape.decode_ofTable_of_keeps title closed distinct keeps
  | .executable, _, value, kept, read => Shape.decodeExecutable_kept read
  | .widget, _, value, kept, read => Shape.decodeWidget_kept read

theorem Layout.decode_kept : (layout : Layout) → layout.Sound → ∀ name shape,
    layout.shape? name = some shape → ∀ value kept : Value,
    shape.decode value = .ok kept → shape.decode kept = .ok kept
  | .nil, _, name, shape, field, _, _, _ => by simp [Layout.shape?] at field
  | .field present first absent rest, ⟨sound, _, others⟩, name, shape, field, value, kept, read => by
    by_cases same : present = name
    · rw [Layout.shape?, if_pos same] at field
      obtain rfl := Option.some.inj field
      exact Shape.decode_kept first sound value kept read
    · rw [Layout.shape?, if_neg same] at field
      exact Layout.decode_kept rest others name shape field value kept read

end

theorem Shape.decode_record_eq_ok {title : String} {closed : Bool} {layout : Layout}
    (distinct : layout.names.Nodup) (sound : layout.Sound) {value kept : Value}
    (read : (Shape.record title closed layout).decode value = .ok kept) :
    ∃ table, kept = Value.ofTable table ∧ layout.Keeps table :=
  Shape.keeps_of_decode_record distinct sound (Layout.decode_kept layout sound) read

end DeployRecipe
