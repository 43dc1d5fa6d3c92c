import Bindery.Code.Declaration
import Bindery.Proofs.Metadata.Declared
import Bindery.Proofs.Text.Pieces
/-!
# Reading declarations back

What the text of a declaration says of the fields, read off the text alone: the lines are cut apart,
and on a line the items.  This works because heads are made of words, identifiers have no marks, and
types and values have no commas and no line feeds.
-/

namespace Bindery.Code

open Source (IsWord continuesName)
open Text (Free between? upTo pieces)

/-! ### Readers -/

/-- The items between the round brackets that end a line. -/
def readItems? (line : String) : Option (List String) :=
  (between? (upTo '(' line ++ "(") ");" line).map (pieces ", ")

/-- A name and what stands behind it and a colon. -/
def readNamed? (text : String) : Option (String × String) :=
  (between? (upTo ':' text ++ ": ") "" text).map (upTo ':' text, ·)

def positioned (items : List String) : List (String × String) :=
  items.mapIdx fun k item => (toString k, item)

/-- What stands under names, by name or by position. -/
def keyed (positional : Bool) (entries : List (String × String)) : List (String × String) :=
  if positional then positioned (entries.map (·.2)) else entries

/-- The fields that a struct declares, by position or by name, with their types. -/
def readFields? (text : String) : Option (List (String × String)) :=
  match pieces "\n" text with
  | [_, _, _, line] => do
    let items ← readItems? line
    let types ← items.mapM (between? "pub " "")
    return positioned types
  | _ :: _ :: _ :: _ :: rest => do
    let lines ← ["\x7d"].isSuffixOf? rest
    let fields ← lines.mapM (between? "    pub " ",")
    fields.mapM readNamed?
  | _ => none

/-- The types that a struct of call boundaries holds. -/
def readEntries? (text : String) : Option (List String) :=
  match pieces "\n" text with
  | [_, _, line] => readItems? line
  | _ => none

/-- The fields for which there is a default value, by position or by name, with the values. -/
def readDefaults? (text : String) : Option (List (String × String)) :=
  match pieces "\n" text with
  | [_, _, line, _, _] =>
    match between? "        Self(" ")" line with
    | some values => some (positioned (pieces ", " values))
    | none => do
      let values ← between? "        Self \x7b " " \x7d" line
      (pieces ", " values).mapM readNamed?
  | _ => none

/-- One side of a comparison: the field of a value, or its address. -/
def readSide? (who text : String) : Option (String × Bool) := do
  let side ← between? (who ++ ".") "" text
  match between? "" ".map(|f| f as usize)" side with
  | some accessor => return (accessor, true)
  | none => return (side, false)

/-- A comparison of the same field of two values in the same way. -/
def readComparison? (text : String) : Option Comparison :=
  match pieces " == " text with
  | [left, right] => do
    let (accessor, byAddress) ← readSide? "self" left
    let other ← readSide? "other" right
    if other = (accessor, byAddress) then some ⟨accessor, byAddress⟩ else none
  | _ => none

/-- How values are compared, field by field. -/
def readComparisons? (text : String) : Option (List Comparison) :=
  match pieces "\n" text with
  | [_, _, line, _, _] => do
    let comparisons ← between? "        " "" line
    (pieces " && " comparisons).mapM readComparison?
  | _ => none

/-- The label of a field that is shown, and how the field is reached. -/
def readShownField? (line : String) : Option (String × String) := do
  let entry ← between? "            .field(\x22" "))" line
  let label := upTo '\x22' entry
  let accessor ← between? (label ++ "\x22, &format_args!(\x22\x7b:?\x7d\x22, self.") "" entry
  return (label, accessor)

def readShown? (text : String) : Option (List (String × String)) :=
  match pieces "\n" text with
  | _ :: _ :: _ :: rest => do
    let lines ← ["            .finish()", "    \x7d", "\x7d"].isSuffixOf? rest
    lines.mapM readShownField?
  | _ => none

/-! ### Names without marks -/

/-- An identifier in code: a word, possibly with the mark of a raw one. -/
def IsPlain (x : String) : Prop := ∀ c ∈ x.toList, continuesName c = true ∨ c = '#'

structure Head.Worded (h : Head) : Prop where
  name : IsWord h.name
  generics : ∀ p ∈ h.generics, IsWord p

/-- The marks at which declarations are cut, and those that are escaped in literals. -/
def cuts : List Char := ['\n', ',', ':', '(', '=', '&', '\x22', '\\']

section Marks

variable {x : String}

theorem isPlain_of_isWord (h : IsWord x) : IsPlain x := fun c hc => .inl (h c hc)

theorem IsPlain.free (h : IsPlain x) : Free cuts x := by
  have hcuts : cuts.all (fun c => !continuesName c && c != '#') = true := by decide
  intro c hc hmem
  have hc := List.all_eq_true.1 hcuts c hc
  rcases h c hmem with hword | rfl
  · simp [hword] at hc
  · simp at hc

theorem free_of_isWord (h : IsWord x) : Free cuts x := (isPlain_of_isWord h).free

theorem Head.Worded.free_declared {h : Head} (hh : h.Worded) : Free ['(', '\n'] h.declared := by
  unfold Head.declared
  split
  · decide
  · refine Text.free_append.2 ⟨Text.free_append.2 ⟨by decide, ?_⟩, by decide⟩
    refine Text.free_intercalate (by decide) fun x hx => ?_
    obtain ⟨p, hp, rfl⟩ := List.mem_map.1 hx
    refine Text.free_append.2 ⟨?_, by decide⟩
    exact (free_of_isWord (hh.generics p hp)).subset (by decide)

theorem Head.Worded.free_used {h : Head} (hh : h.Worded) : Free ['\n'] h.used := by
  unfold Head.used
  split
  · decide
  · refine Text.free_append.2 ⟨Text.free_append.2 ⟨by decide, ?_⟩, by decide⟩
    refine Text.free_intercalate (by decide) fun p hp => ?_
    exact (free_of_isWord (hh.generics p hp)).subset (by decide)

theorem Head.Worded.free_implHeading {h : Head} (hh : h.Worded) {trait : String}
    (htrait : Free ['\n'] trait) : Free ['\n'] (h.implHeading trait) := by
  have hname : Free ['\n'] h.name := (free_of_isWord hh.name).subset (by decide)
  have hdeclared : Free ['\n'] h.declared := hh.free_declared.subset (by decide)
  unfold Head.implHeading Head.selfType
  simp only [Text.free_append]
  exact ⟨⟨⟨⟨⟨by decide, hdeclared⟩, by decide⟩, htrait⟩, by decide⟩, hname, hh.free_used⟩

end Marks

/-! ### Items -/

theorem between?_self (start inside ending : String) :
    between? start ending (start ++ inside ++ ending) = some inside :=
  Text.between?_eq_some.2 rfl

theorem mapM_eq_some_map {α β : Type} {read : α → Option β} {l : List α} {f : α → β}
    (h : ∀ a ∈ l, read a = some (f a)) : l.mapM read = some (l.map f) := by
  induction l with
  | nil => rfl
  | cons a l ih =>
    obtain ⟨ha, hl⟩ := List.forall_mem_cons.1 h
    rw [List.mapM_cons, ha, ih hl]
    rfl

theorem mapM_map_eq_some {α β : Type} {read : α → Option β} {l : List β} {f : β → α}
    (h : ∀ b ∈ l, read (f b) = some b) : (l.map f).mapM read = some l := by
  rw [List.mapM_map]
  exact (mapM_eq_some_map h).trans (by rw [List.map_id'])

theorem pieces_items {items : List String} (hne : items ≠ [])
    (hitems : ∀ x ∈ items, Free [',', '\n'] x) : pieces ", " (", ".intercalate items) = items :=
  Text.pieces_intercalate ',' (by simp) hne fun x hx => hitems x hx ',' (by simp)

theorem free_items {items : List String} (hitems : ∀ x ∈ items, Free [',', '\n'] x) :
    Free ['\n'] (", ".intercalate items) :=
  Text.free_intercalate (by decide) fun x hx => (hitems x hx).subset (by decide)

theorem readItems?_append {opening : String} {items : List String} (hopening : '(' ∉ opening.toList)
    (hne : items ≠ []) (hitems : ∀ x ∈ items, Free [',', '\n'] x) :
    readItems? (opening ++ "(" ++ ", ".intercalate items ++ ");") = some items := by
  have hline : upTo '(' (opening ++ "(" ++ ", ".intercalate items ++ ");") = opening := by
    rw [String.append_assoc, String.append_assoc]
    exact Text.upTo_append hopening (by simp)
  rw [readItems?, hline, between?_self, Option.map_some, pieces_items hne hitems]

theorem free_itemLine {opening : String} {items : List String} (hopening : Free ['(', '\n'] opening)
    (hitems : ∀ x ∈ items, Free [',', '\n'] x) :
    Free ['\n'] (opening ++ "(" ++ ", ".intercalate items ++ ");") := by
  simp only [Text.free_append]
  exact ⟨⟨⟨hopening.subset (by decide), by decide⟩, free_items hitems⟩, by decide⟩

theorem readNamed?_append {name : String} (hname : ':' ∉ name.toList) (rest : String) :
    readNamed? (name ++ ": " ++ rest) = some (name, rest) := by
  have hupTo : upTo ':' (name ++ ": " ++ rest) = name := by
    rw [String.append_assoc]
    exact Text.upTo_append hname (by simp)
  have hbetween : between? (name ++ ": ") "" (name ++ ": " ++ rest) = some rest :=
    Text.between?_eq_some.2 (by rw [String.append_empty])
  rw [readNamed?, hupTo, hbetween]
  rfl

def namedItem (f : String × String) : String := f.1 ++ ": " ++ f.2

theorem mapM_readNamed? {fields : List (String × String)} (hnames : ∀ f ∈ fields, IsPlain f.1) :
    (fields.map namedItem).mapM readNamed? = some fields :=
  mapM_map_eq_some fun f hf => readNamed?_append ((hnames f hf).free ':' (by decide)) f.2

/-! ### Structs -/

section Read

variable {head : Head} {fields : List (String × String)}

theorem free_indent {line : String} (h : Free ['\n'] line) : Free ['\n'] (indent line) :=
  Text.free_append.2 ⟨by decide, h⟩

theorem free_block (heading : String) {body : List String} (hheading : Free ['\n'] heading)
    (hbody : ∀ line ∈ body, Free ['\n'] line) : ∀ line ∈ block heading body, Free ['\n'] line := by
  refine List.forall_mem_cons.2 ⟨Text.free_append.2 ⟨hheading, by decide⟩, ?_⟩
  refine List.forall_mem_append.2 ⟨fun line hline => ?_, List.forall_mem_singleton.2 (by decide)⟩
  obtain ⟨inner, hinner, rfl⟩ := List.mem_map.1 hline
  exact free_indent (hbody inner hinner)

theorem pieces_impl (hhead : head.Worded) (trait : String) (htrait : Free ['\n'] trait)
    {body : List String} (hbody : ∀ line ∈ body, Free ['\n'] line) :
    pieces "\n" (head.impl trait body) = block (head.implHeading trait) body :=
  Text.pieces_joinLines (List.cons_ne_nil _ _) (free_block _ (hhead.free_implHeading htrait) hbody)

theorem indent_indent (line : String) : indent (indent line) = "        " ++ line := by
  rw [indent, indent, ← String.append_assoc]
  rfl

/-- The types of a struct without names are read back with their positions. -/
theorem readFields?_positional (hhead : head.Worded) (hne : fields ≠ [])
    (htypes : ∀ f ∈ fields, Free [',', '\n'] f.2) :
    readFields? (Declaration.struct head true fields).text =
      some (positioned (fields.map (·.2))) := by
  have hopening : Free ['(', '\n'] ("pub struct " ++ head.name ++ head.declared) := by
    simp only [Text.free_append]
    exact ⟨⟨by decide, (free_of_isWord hhead.name).subset (by decide)⟩, hhead.free_declared⟩
  have hitems : ∀ x ∈ fields.map fun f => "pub " ++ f.2, Free [',', '\n'] x := by
    intro x hx
    obtain ⟨f, hf, rfl⟩ := List.mem_map.1 hx
    exact Text.free_append.2 ⟨by decide, htypes f hf⟩
  have hlines : pieces "\n" (Declaration.struct head true fields).text =
      aggregateAttributes ++ ["pub struct " ++ head.name ++ head.declared ++ "(" ++
        ", ".intercalate (fields.map fun f => "pub " ++ f.2) ++ ");"] := by
    refine Text.pieces_joinLines (by simp) (List.forall_mem_append.2 ⟨by decide, ?_⟩)
    exact List.forall_mem_singleton.2 (free_itemLine hopening hitems)
  have hread := readItems?_append (hopening '(' (by simp)) (List.map_eq_nil_iff.not.2 hne) hitems
  have htypes : (fields.map fun f => "pub " ++ f.2).mapM (between? "pub " "") =
      some (fields.map (·.2)) := by
    rw [List.mapM_map]
    exact mapM_eq_some_map fun f _ => Text.between?_eq_some.2 (by rw [String.append_empty])
  simp only [readFields?, hlines, aggregateAttributes, List.cons_append, List.nil_append, hread,
    htypes, Option.bind_eq_bind, Option.bind_some]
  rfl

theorem readFields?_named (hhead : head.Worded) (hnames : ∀ f ∈ fields, IsPlain f.1)
    (htypes : ∀ f ∈ fields, Free [',', '\n'] f.2) :
    readFields? (Declaration.struct head false fields).text = some fields := by
  have hopening : Free ['\n'] ("pub struct " ++ head.name ++ head.declared) := by
    simp only [Text.free_append]
    exact ⟨⟨by decide, (free_of_isWord hhead.name).subset (by decide)⟩,
      hhead.free_declared.subset (by decide)⟩
  have hbody : ∀ line ∈ fieldLines fields, Free ['\n'] line := by
    intro line hline
    obtain ⟨f, hf, rfl⟩ := List.mem_map.1 hline
    simp only [Text.free_append]
    exact ⟨⟨⟨⟨by decide, (hnames f hf).free.subset (by decide)⟩, by decide⟩,
      (htypes f hf).subset (by decide)⟩, by decide⟩
  have hlines : pieces "\n" (Declaration.struct head false fields).text =
      aggregateAttributes ++ block ("pub struct " ++ head.name ++ head.declared)
        (fieldLines fields) := by
    refine Text.pieces_joinLines (by simp [aggregateAttributes]) (List.forall_mem_append.2 ?_)
    exact ⟨by decide, free_block _ hopening hbody⟩
  have hsuffix : ["\x7d"].isSuffixOf? ((fieldLines fields).map indent ++ ["\x7d"]) =
      some ((fieldLines fields).map indent) := by simp
  have hinside : ((fieldLines fields).map indent).mapM (between? "    pub " ",") =
      some (fields.map namedItem) := by
    rw [fieldLines, List.map_map, List.mapM_map]
    refine mapM_eq_some_map fun f _ => Text.between?_eq_some.2 (String.toList_inj.1 ?_)
    simp [namedItem, indent, indentation]
  cases hrest : (fieldLines fields).map indent ++ ["\x7d"] with
  | nil => simp at hrest
  | cons line rest =>
    simp only [readFields?, hlines, aggregateAttributes, block, List.cons_append, List.nil_append,
      hrest]
    rw [← hrest, hsuffix]
    simp [hinside, mapM_readNamed? hnames]

/-- **Structs.**  Their fields are read back. -/
theorem readFields?_text (hhead : head.Worded) {positional : Bool} (hne : fields ≠ [])
    (hnames : ∀ f ∈ fields, IsPlain f.1) (htypes : ∀ f ∈ fields, Free [',', '\n'] f.2) :
    readFields? (Declaration.struct head positional fields).text = some (keyed positional fields) := by
  cases positional with
  | true => exact readFields?_positional hhead hne htypes
  | false => exact readFields?_named hhead hnames htypes

/-! ### Types at call boundaries -/

theorem readEntries?_text {entries : List String} (hhead : head.Worded) (hne : entries ≠ [])
    (hentries : ∀ x ∈ entries, Free [',', '\n'] x) :
    readEntries? (Declaration.abiStruct head entries).text = some entries := by
  have hopening : Free ['(', '\n'] ("pub struct " ++ head.name ++ "_abi" ++ head.declared) := by
    simp only [Text.free_append]
    exact ⟨⟨⟨by decide, (free_of_isWord hhead.name).subset (by decide)⟩, by decide⟩,
      hhead.free_declared⟩
  have hlines : pieces "\n" (Declaration.abiStruct head entries).text =
      ["#[repr(C)]", "#[doc(hidden)]", "pub struct " ++ head.name ++ "_abi" ++ head.declared ++ "(" ++
        ", ".intercalate entries ++ ");"] := by
    refine Text.pieces_joinLines (by simp) ?_
    exact List.forall_mem_cons.2 ⟨by decide, List.forall_mem_cons.2 ⟨by decide,
      List.forall_mem_singleton.2 (free_itemLine hopening hentries)⟩⟩
  simp only [readEntries?, hlines]
  exact readItems?_append (hopening '(' (by simp)) hne hentries

/-! ### Default values -/

theorem pieces_defaultImpl (hhead : head.Worded) {positional : Bool}
    (hvalue : Free ['\n'] (defaultValue positional fields)) :
    pieces "\n" (Declaration.defaultImpl head positional fields).text =
      [head.implHeading "::std::default::Default" ++ " \x7b", "    fn default() -> Self \x7b",
        "        " ++ defaultValue positional fields, "    \x7d", "\x7d"] := by
  have hlines := pieces_impl hhead "::std::default::Default" (by decide)
    (free_block "fn default() -> Self" (by decide) (List.forall_mem_singleton.2 hvalue))
  rw [Declaration.text, hlines]
  simp only [block, List.map_cons, List.map_nil, List.cons_append, List.nil_append, indent_indent]
  rfl

theorem readDefaults?_positional (hhead : head.Worded) (hne : fields ≠ [])
    (hvalues : ∀ f ∈ fields, Free [',', '\n'] f.2) :
    readDefaults? (Declaration.defaultImpl head true fields).text =
      some (positioned (fields.map (·.2))) := by
  have hitems : ∀ x ∈ fields.map (·.2), Free [',', '\n'] x := by
    intro x hx
    obtain ⟨f, hf, rfl⟩ := List.mem_map.1 hx
    exact hvalues f hf
  have hvalue : Free ['\n'] (defaultValue true fields) := by
    rw [defaultValue, if_pos rfl, Text.free_append, Text.free_append]
    exact ⟨⟨by decide, free_items hitems⟩, by decide⟩
  have hbetween : between? "        Self(" ")" ("        " ++ defaultValue true fields) =
      some (", ".intercalate (fields.map (·.2))) := by
    refine Text.between?_eq_some.2 (String.toList_inj.1 ?_)
    simp [defaultValue]
  simp only [readDefaults?, pieces_defaultImpl hhead hvalue, hbetween]
  rw [pieces_items (List.map_eq_nil_iff.not.2 hne) hitems]

theorem readDefaults?_named (hhead : head.Worded) (hne : fields ≠ [])
    (hnames : ∀ f ∈ fields, IsPlain f.1) (hvalues : ∀ f ∈ fields, Free [',', '\n'] f.2) :
    readDefaults? (Declaration.defaultImpl head false fields).text = some fields := by
  have hitems : ∀ x ∈ fields.map namedItem, Free [',', '\n'] x := by
    intro x hx
    obtain ⟨f, hf, rfl⟩ := List.mem_map.1 hx
    simp only [namedItem, Text.free_append]
    exact ⟨⟨(hnames f hf).free.subset (by decide), by decide⟩, hvalues f hf⟩
  have hform : defaultValue false fields =
      "Self \x7b " ++ ", ".intercalate (fields.map namedItem) ++ " \x7d" := by
    simp only [defaultValue, List.isEmpty_iff, hne]
    rfl
  have hvalue : Free ['\n'] (defaultValue false fields) := by
    rw [hform, Text.free_append, Text.free_append]
    exact ⟨⟨by decide, free_items hitems⟩, by decide⟩
  -- a value with names does not look like one without
  have hother : between? "        Self(" ")" ("        " ++ defaultValue false fields) = none := by
    rw [Option.eq_none_iff_forall_ne_some]
    intro inside hinside
    have heq := congrArg String.toList (Text.between?_eq_some.1 hinside)
    simp [hform] at heq
  have hbetween : between? "        Self \x7b " " \x7d" ("        " ++ defaultValue false fields) =
      some (", ".intercalate (fields.map namedItem)) := by
    refine Text.between?_eq_some.2 (String.toList_inj.1 ?_)
    simp [hform]
  simp only [readDefaults?, pieces_defaultImpl hhead hvalue, hother, hbetween]
  rw [Option.bind_eq_bind, Option.bind_some, pieces_items (List.map_eq_nil_iff.not.2 hne) hitems,
    mapM_readNamed? hnames]

/-- **Default values.**  They are read back. -/
theorem readDefaults?_text (hhead : head.Worded) {positional : Bool} (hne : fields ≠ [])
    (hnames : ∀ f ∈ fields, IsPlain f.1) (hvalues : ∀ f ∈ fields, Free [',', '\n'] f.2) :
    readDefaults? (Declaration.defaultImpl head positional fields).text =
      some (keyed positional fields) := by
  cases positional with
  | true => exact readDefaults?_positional hhead hne hvalues
  | false => exact readDefaults?_named hhead hne hnames hvalues

/-! ### Comparisons -/

def Comparison.side (c : Comparison) (who : String) : String :=
  who ++ "." ++ c.accessor ++ if c.byAddress then ".map(|f| f as usize)" else ""

theorem Comparison.text_eq (c : Comparison) : c.text = c.side "self" ++ " == " ++ c.side "other" :=
  rfl

theorem Comparison.free_side {c : Comparison} (hc : IsPlain c.accessor) {who : String}
    (hwho : Free ['\n', '=', '&'] who) : Free ['\n', '=', '&'] (c.side who) := by
  unfold side
  simp only [Text.free_append]
  refine ⟨⟨⟨hwho, by decide⟩, hc.free.subset (by decide)⟩, ?_⟩
  split <;> decide

theorem readSide?_side {c : Comparison} (hc : IsPlain c.accessor) (who : String) :
    readSide? who (c.side who) = some (c.accessor, c.byAddress) := by
  obtain ⟨accessor, byAddress⟩ := c
  have hside : between? (who ++ ".") "" (Comparison.side ⟨accessor, byAddress⟩ who) =
      some (accessor ++ if byAddress then ".map(|f| f as usize)" else "") :=
    Text.between?_eq_some.2 (by rw [Comparison.side, String.append_empty, String.append_assoc])
  rw [readSide?, hside, Option.bind_eq_bind, Option.bind_some]
  cases byAddress with
  | true =>
    have haddress : between? "" ".map(|f| f as usize)" (accessor ++ ".map(|f| f as usize)") =
        some accessor := Text.between?_eq_some.2 (by rw [String.empty_append])
    rw [if_pos rfl, haddress]
    rfl
  | false =>
    -- no accessor ends with brackets
    have hvalue : between? "" ".map(|f| f as usize)" accessor = none := by
      rw [Option.eq_none_iff_forall_ne_some]
      intro inside hinside
      refine hc.free '(' (by decide) ?_
      rw [Text.between?_eq_some.1 hinside]
      simp
    rw [if_neg Bool.false_ne_true, String.append_empty, hvalue]
    rfl

theorem readComparison?_text {c : Comparison} (hc : IsPlain c.accessor) :
    readComparison? c.text = some c := by
  have hsides : pieces " == " c.text = [c.side "self", c.side "other"] := by
    have hitems : ∀ x ∈ [c.side "self", c.side "other"], '=' ∉ x.toList :=
      List.forall_mem_cons.2 ⟨Comparison.free_side hc (by decide) '=' (by simp),
        List.forall_mem_singleton.2 (Comparison.free_side hc (by decide) '=' (by simp))⟩
    have hform : c.text = " == ".intercalate [c.side "self", c.side "other"] := by
      rw [Comparison.text_eq, String.intercalate_cons_cons, String.intercalate_singleton]
    rw [hform]
    exact Text.pieces_intercalate '=' (by simp) (by simp) hitems
  simp only [readComparison?, hsides, readSide?_side hc, Option.bind_eq_bind, Option.bind_some,
    if_pos]

/-- The comparisons of fields are read back. -/
theorem readComparisons?_text {comparisons : List Comparison} (hhead : head.Worded)
    (hne : comparisons ≠ []) (hplain : ∀ c ∈ comparisons, IsPlain c.accessor) :
    readComparisons? (Declaration.partialEqImpl head comparisons).text = some comparisons := by
  have hitems : ∀ x ∈ comparisons.map (·.text), Free ['\n', '&'] x := by
    intro x hx
    obtain ⟨c, hc, rfl⟩ := List.mem_map.1 hx
    have hside {who : String} (hwho : Free ['\n', '=', '&'] who) : Free ['\n', '&'] (c.side who) :=
      (Comparison.free_side (hplain c hc) hwho).subset (by decide)
    rw [Comparison.text_eq, Text.free_append, Text.free_append]
    exact ⟨⟨hside (by decide), by decide⟩, hside (by decide)⟩
  have hform : comparisonText comparisons = " && ".intercalate (comparisons.map (·.text)) := by
    simp [comparisonText, hne]
  have hline : Free ['\n'] (comparisonText comparisons) := by
    rw [hform]
    exact Text.free_intercalate (by decide) fun x hx => (hitems x hx).subset (by decide)
  have hlines := pieces_impl hhead "::std::cmp::PartialEq" (by decide)
    (free_block "fn eq(&self, other: &Self) -> bool" (by decide)
      (List.forall_mem_singleton.2 hline))
  have hbetween : between? "        " "" (indent (indent (comparisonText comparisons))) =
      some (comparisonText comparisons) :=
    Text.between?_eq_some.2 (by rw [indent_indent, String.append_empty])
  rw [readComparisons?, Declaration.text, hlines]
  simp only [block, List.map_cons, List.map_nil, List.cons_append, List.nil_append, hbetween,
    Option.bind_eq_bind, Option.bind_some]
  rw [hform, Text.pieces_intercalate '&' (by simp) (List.map_eq_nil_iff.not.2 hne)
    fun x hx => hitems x hx '&' (by simp)]
  exact mapM_map_eq_some fun c hc => readComparison?_text (hplain c hc)

/-! ### Shown fields -/

theorem stringLiteral_of_free {text : String} (h : Free ['\x22', '\\'] text) :
    Text.stringLiteral text = "\x22" ++ text ++ "\x22" := by
  have hchars : text.toList.flatMap Text.escapeChar = text.toList := by
    have hsingle : ∀ c ∈ text.toList, Text.escapeChar c = [c] := by
      intro c hc
      refine if_neg ?_
      rintro (rfl | rfl)
      · exact h _ (by simp) hc
      · exact h _ (by simp) hc
    rw [List.flatMap_congr hsingle, List.flatMap_singleton']
  rw [← String.toList_inj, Text.stringLiteral, Text.encodeLiteral, hchars]
  simp

theorem readShownField?_debugEntry {label accessor : String} (hlabel : IsPlain label) :
    readShownField? (indent (indent (indent (debugEntry label accessor)))) = some (label, accessor) := by
  have hliteral := stringLiteral_of_free (hlabel.free.subset (by decide))
  have hentry : between? "            .field(\x22" "))"
      (indent (indent (indent (debugEntry label accessor)))) =
        some (label ++ ("\x22, &format_args!(\x22\x7b:?\x7d\x22, self." ++ accessor)) := by
    refine Text.between?_eq_some.2 (String.toList_inj.1 ?_)
    simp [debugEntry, hliteral, indent, indentation]
  have hupTo : upTo '\x22' (label ++ ("\x22, &format_args!(\x22\x7b:?\x7d\x22, self." ++ accessor)) =
      label := Text.upTo_append (hlabel.free '\x22' (by decide)) (by simp)
  have haccessor : between? (label ++ "\x22, &format_args!(\x22\x7b:?\x7d\x22, self.") ""
      (label ++ ("\x22, &format_args!(\x22\x7b:?\x7d\x22, self." ++ accessor)) = some accessor :=
    Text.between?_eq_some.2 (by rw [String.append_empty, String.append_assoc])
  simp only [readShownField?, hentry, hupTo, haccessor, Option.bind_eq_bind, Option.bind_some]
  rfl

theorem free_debugEntry {label accessor : String} (hlabel : IsPlain label)
    (haccessor : IsPlain accessor) : Free ['\n'] (debugEntry label accessor) := by
  unfold debugEntry
  rw [stringLiteral_of_free (hlabel.free.subset (by decide))]
  simp only [Text.free_append]
  have hlabel : Free ['\n'] label := hlabel.free.subset (by decide)
  exact ⟨⟨⟨⟨by decide, ⟨by decide, hlabel⟩, by decide⟩, by decide⟩,
    haccessor.free.subset (by decide)⟩, by decide⟩

/-- The labels of the fields that are shown are read back, and how these are reached. -/
theorem readShown?_text {entries : List (String × String)} (hhead : head.Worded)
    (hlabels : ∀ e ∈ entries, IsPlain e.1) (haccessors : ∀ e ∈ entries, IsPlain e.2) :
    readShown? (Declaration.debugImpl head entries).text = some entries := by
  have hopening : Free ['\n'] ("fmt.debug_struct(" ++ Text.stringLiteral head.name ++ ")") := by
    rw [stringLiteral_of_free ((free_of_isWord hhead.name).subset (by decide))]
    simp only [Text.free_append]
    exact ⟨⟨by decide, ⟨by decide, (free_of_isWord hhead.name).subset (by decide)⟩, by decide⟩,
      by decide⟩
  have hentries : ∀ line ∈ ((entries.map fun e => debugEntry e.1 e.2) ++ [".finish()"]).map indent,
      Free ['\n'] line := by
    intro line hline
    obtain ⟨inner, hinner, rfl⟩ := List.mem_map.1 hline
    refine free_indent ?_
    rcases List.mem_append.1 hinner with hinner | hinner
    · obtain ⟨e, he, rfl⟩ := List.mem_map.1 hinner
      exact free_debugEntry (hlabels e he) (haccessors e he)
    · rw [List.mem_singleton.1 hinner]
      decide
  have hlines := pieces_impl hhead "::std::fmt::Debug" (by decide) (free_block
    "fn fmt(&self, fmt: &mut ::std::fmt::Formatter<'_>) -> ::std::fmt::Result" (by decide)
    (List.forall_mem_cons.2 ⟨hopening, hentries⟩))
  have hread : (entries.map (indent ∘ indent ∘ indent ∘ fun e => debugEntry e.1 e.2)).mapM
      readShownField? = some entries :=
    mapM_map_eq_some fun e he => readShownField?_debugEntry (hlabels e he)
  have hending : [indent (indent (indent ".finish()")), indent "\x7d", "\x7d"] =
      ["            .finish()", "    \x7d", "\x7d"] := rfl
  have hsuffix (lines : List String) : ["            .finish()", "    \x7d", "\x7d"].isSuffixOf?
      (lines ++ ["            .finish()", "    \x7d", "\x7d"]) = some lines := by simp
  rw [readShown?, Declaration.text, hlines]
  simp only [block, List.map_cons, List.map_append, List.map_map, List.map_nil, List.cons_append,
    List.nil_append, List.append_assoc]
  rw [hending, hsuffix, Option.bind_eq_bind, Option.bind_some, hread]

end Read

end Bindery.Code
