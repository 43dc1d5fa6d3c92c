import Bindery.Proofs.Metadata.Contents
import Bindery.Proofs.Source.Spacing
/-!
# Layout in metadata

What a registry says apart from lines (`Registry.unlined`) depends on what the tree of the text says
apart from lines, and so does whether the text is accepted.  So with blanks and comments put in
between its terminals, a text is accepted as before and declares the same (`Registry.ofText_spaced`).
-/

namespace Bindery

/-! ### Definitions without lines -/

def Field.unlined (f : Field) : Field := { f with line := none }

mutual

def Definition.unlined : Definition → Definition
  | ⟨name, category, fields, attributes, explicitLayout, winrt, generics, underlying, enumValues,
      file, _, nested⟩ =>
    ⟨name, category, fields.map Field.unlined, attributes, explicitLayout, winrt, generics,
      underlying, enumValues, file, none, Definition.unlinedAll nested⟩

def Definition.unlinedAll : List Definition → List Definition
  | [] => []
  | d :: ds => d.unlined :: Definition.unlinedAll ds

end

def Entry.unlined (e : Entry) : Entry := ⟨e.space, e.definition.unlined⟩

/-- What a registry says apart from the lines on which definitions and fields were declared. -/
def Registry.unlined (reg : Registry) : Registry := ⟨reg.entries.map Entry.unlined⟩

theorem Definition.unlinedAll_eq_map (ds : List Definition) :
    Definition.unlinedAll ds = ds.map Definition.unlined := by
  induction ds with
  | nil => rfl
  | cons d ds ih => rw [unlinedAll, ih, List.map_cons]

theorem Definition.unlined_eq (d : Definition) : d.unlined =
    { d with
      fields := d.fields.map Field.unlined
      line := none
      nested := d.nested.map Definition.unlined } := by
  rw [← unlinedAll_eq_map]
  cases d
  rfl

namespace Source

variable {file : String} {winrt : Bool}

/-! ### What is written, without lines -/

theorem TypeSource.written_unlined (t : TypeSource) : t.unlined.written = t.written := by
  induction t with
  | named name => rfl
  | pointer _ _ _ ih | array _ _ _ ih => simp only [unlined, written, ih]

theorem AttributeSource.attribute_unlined (a : AttributeSource) : a.unlined.attribute = a.attribute := by
  obtain ⟨line, name, args⟩ := a
  cases args with
  | none => rfl
  | some args => exact congrArg (Attribute.declared name) List.map_map

theorem attributes_unlined (attributes : List AttributeSource) :
    (attributes.map AttributeSource.unlined).map AttributeSource.attribute =
      attributes.map AttributeSource.attribute := by
  simp [AttributeSource.attribute_unlined]

theorem Member.written?_unlined (m : Member) :
    m.unlined.written?.map Field.unlined = m.written?.map Field.unlined := by
  cases m with
  | field name type => simp [unlined, written?, Field.unlined, Located.unlined, TypeSource.written_unlined]
  | constant line name type value => simp [unlined, written?, Field.unlined, Located.unlined]
  | nested attributes heading members => simp [written?]

theorem fieldsWritten_unlined (members : List Member) :
    (fieldsWritten (members.map Member.unlined)).map Field.unlined =
      (fieldsWritten members).map Field.unlined := by
  simp only [fieldsWritten, List.map_filterMap, List.filterMap_map, Function.comp_def,
    Member.written?_unlined]

@[simp] theorem Heading.parameters_unlined (h : Heading) : h.unlined.parameters = h.parameters := by
  simp [parameters, unlined, Located.unlined, Function.comp_def]

theorem Heading.written_unlined (attributes : List AttributeSource) (h : Heading)
    (members : List Member) {nested nested' : List Definition}
    (hnested : nested'.map Definition.unlined = nested.map Definition.unlined) :
    { h.unlined.written file (attributes.map AttributeSource.unlined) winrt
        (members.map Member.unlined) with nested := nested' }.unlined =
      { h.written file attributes winrt members with nested := nested }.unlined := by
  simp only [Definition.unlined_eq, written, blank, attributes_unlined, fieldsWritten_unlined,
    parameters_unlined, hnested]
  rfl

theorem nestedWritten_unlined (members : List Member) :
    (nestedWritten file winrt (members.map Member.unlined)).map Definition.unlined =
      (nestedWritten file winrt members).map Definition.unlined := by
  induction members using nestedWritten.induct with
  | case1 => rfl
  | case2 attributes heading members rest ihInner ihRest =>
    rw [List.map_cons, Member.unlined_nested, nestedWritten, nestedWritten, List.map_cons,
      List.map_cons, ihRest, Heading.written_unlined attributes heading members ihInner]
  | case3 _ _ _ ih | case4 _ _ _ _ _ ih => rwa [List.map_cons, Member.unlined, nestedWritten, nestedWritten]

theorem DefinitionSource.written_unlined (s : DefinitionSource) :
    (s.unlined.written file).unlined = (s.written file).unlined := by
  obtain ⟨attributes, mark, body⟩ := s
  have hmark : (mark.map fun _ => 0).isSome = mark.isSome := Option.isSome_map
  cases body with
  | aggregate heading members =>
    simp only [written, unlined, Body.unlined, Body.written, Body.members, hmark]
    exact Heading.written_unlined attributes heading members (nestedWritten_unlined members)
  | enumeration line name underlying items =>
    have hitems : (items.map EnumItem.unlined).map
        (fun item => (item.name.value, item.number.getD .none)) =
          items.map fun item => (item.name.value, item.number.getD .none) := List.map_map
    simp only [written, unlined, Body.unlined, Body.written, Body.members, hmark, nestedWritten,
      Definition.unlined_eq, blank, attributes_unlined, hitems]
  | bodiless kind line name =>
    simp only [written, unlined, Body.unlined, Body.written, Body.members, hmark, nestedWritten,
      Definition.unlined_eq, blank, attributes_unlined]

/-! ### What can be accepted, without lines -/

def unlinedStruct (t : Struct) : Struct := (t.1.unlined, t.2.map Member.unlined)

theorem structsIn_unlined (members : List Member) :
    structsIn (members.map Member.unlined) = (structsIn members).map unlinedStruct := by
  induction members using structsIn.induct with
  | case1 => rw [List.map_nil, structsIn, List.map_nil]
  | case2 attributes heading members rest ihInner ihRest =>
    rw [List.map_cons, Member.unlined_nested, structsIn, structsIn, ihInner, ihRest, List.map_cons,
      List.map_append]
    rfl
  | case3 _ _ _ ih | case4 _ _ _ _ _ ih => rwa [List.map_cons, Member.unlined, structsIn, structsIn]

theorem Body.structs_unlined (b : Body) : b.unlined.structs = b.structs.map unlinedStruct := by
  cases b with
  | aggregate heading members =>
    rw [unlined, structs, structs, structsIn_unlined, List.map_cons]
    rfl
  | enumeration | bodiless => rfl

theorem TypeSource.sized_unlined (t : TypeSource) : t.unlined.Sized ↔ t.Sized := by
  induction t with
  | named name => exact Iff.rfl
  | pointer _ _ _ ih => exact ih
  | array _ _ _ ih => exact and_congr_right fun _ => ih

theorem Member.sized_unlined (m : Member) : m.unlined.Sized ↔ m.Sized := by
  cases m with
  | field name type => exact type.sized_unlined
  | constant | nested => exact Iff.rfl

theorem nestedNames_unlined (members : List Member) :
    nestedNames (members.map Member.unlined) = nestedNames members := by
  have hname (m : Member) : m.unlined.nestedName? = m.nestedName? := by cases m <;> rfl
  rw [nestedNames, List.filterMap_map]
  exact List.filterMap_congr fun m _ => hname m

theorem admitted_unlined (t : Struct) : Admitted winrt (unlinedStruct t) ↔ Admitted winrt t := by
  have hsized : (∀ m ∈ t.2.map Member.unlined, m.Sized) ↔ ∀ m ∈ t.2, m.Sized := by
    simp only [List.forall_mem_map, Member.sized_unlined]
  constructor
  · rintro ⟨hgenerics, hmembers⟩
    exact ⟨fun h => t.1.parameters_unlined ▸ hgenerics h, hsized.1 hmembers⟩
  · rintro ⟨hgenerics, hmembers⟩
    exact ⟨fun h => t.1.parameters_unlined.trans (hgenerics h), hsized.2 hmembers⟩

theorem DefinitionSource.accepted_unlined (s : DefinitionSource) : s.unlined.Accepted ↔ s.Accepted := by
  have hmark : s.unlined.winrt.isSome = s.winrt.isSome := Option.isSome_map
  have hstructs : s.unlined.body.structs = s.body.structs.map unlinedStruct := s.body.structs_unlined
  have hnames (t : Struct) : nestedNames (unlinedStruct t).2 = nestedNames t.2 :=
    nestedNames_unlined t.2
  rw [Accepted, hmark, hstructs, List.forall_mem_map]
  simp only [admitted_unlined, hnames, Accepted]

/-! ### Whole texts -/

namespace Document

variable {d d' : Document}

theorem sources_unlined (d : Document) : Document.sources (d.map NamespaceSource.unlined) =
    d.sources.map fun s => (s.1, s.2.unlined) := by
  rw [sources, sources, List.flatMap_map, List.map_flatMap]
  refine List.flatMap_congr fun block _ => ?_
  simp only [NamespaceSource.unlined, List.map_map]
  rfl

theorem accepted_unlined (d : Document) :
    (∀ s ∈ Document.sources (d.map NamespaceSource.unlined), s.2.Accepted) ↔
      ∀ s ∈ d.sources, s.2.Accepted := by
  simp only [sources_unlined, List.forall_mem_map, DefinitionSource.accepted_unlined]

theorem distinctTop_unlined (d : Document) :
    Document.DistinctTop (d.map NamespaceSource.unlined) ↔ d.DistinctTop := by
  have hplace (s : String × DefinitionSource) : topPlace (s.1, s.2.unlined) = topPlace s := by
    obtain ⟨space, attributes, mark, body⟩ := s
    cases body <;> rfl
  simp only [DistinctTop, sources_unlined, List.map_map, Function.comp_def, hplace]

theorem entries_unlined (file : String) (d : Document) :
    (Document.entries file (d.map NamespaceSource.unlined)).map Entry.unlined =
      (d.entries file).map Entry.unlined := by
  simp only [entries, sources_unlined, List.map_map, Function.comp_def, Entry.unlined,
    DefinitionSource.written_unlined]

end Document

end Source

namespace Registry

open Source

variable {file text : String} {reg : Registry} {d d' : Document}

/-- Trees that are the same up to lines declare the same up to lines. -/
theorem ofDocument_of_unlined_eq (h : (ofDocument file d).result = .ok reg)
    (heq : d'.map NamespaceSource.unlined = d.map NamespaceSource.unlined) :
    ∃ reg', (ofDocument file d').result = .ok reg' ∧ reg'.unlined = reg.unlined := by
  obtain ⟨haccepted, htop, rfl⟩ := ofDocument_eq_ok.1 h
  refine ⟨⟨d'.entries file⟩, ofDocument_eq_ok.2 ⟨?_, ?_, rfl⟩, congrArg Registry.mk ?_⟩
  · rwa [← Document.accepted_unlined, heq, Document.accepted_unlined]
  · rwa [← Document.distinctTop_unlined, heq, Document.distinctTop_unlined]
  · rw [← Document.entries_unlined, heq, Document.entries_unlined]

theorem ofText_eq_ok_iff : (ofText file text).result = .ok reg ↔
    ∃ d, read text.toList = .ok d ∧ (ofDocument file d).result = .ok reg := by
  rw [ofText_eq_ok]
  refine exists_congr fun d => and_congr_right fun _ => ?_
  rw [ofDocument_eq_ok, Document.accepted_iff]

/-- **Layout.**  A text that is accepted consists of words that the grammar yields, with blanks and
comments around them.  With more blanks and comments put in, anywhere before, between and behind the
words, it is accepted too, and declares the same up to lines. -/
theorem ofText_spaced (h : (ofText file text).result = .ok reg) :
    (∃ ws, (Phrase.rule .start).Yields ws ∧ Spaced ws text.toList text.toList) ∧
      ∀ ws text', (Phrase.rule .start).Yields ws → Spaced ws text.toList text'.toList →
        ∃ reg', (ofText file text').result = .ok reg' ∧ reg'.unlined = reg.unlined := by
  obtain ⟨d, hread, hd⟩ := ofText_eq_ok_iff.1 h
  refine ⟨exists_words_of_read hread, fun ws text' hws hspaced => ?_⟩
  obtain ⟨d₁, d', hread₁, hread', heq⟩ := read_of_spaced hws hspaced
  obtain rfl : d₁ = d := Except.ok.inj (hread₁.symm.trans hread)
  obtain ⟨reg', hreg', hunlined⟩ := ofDocument_of_unlined_eq hd heq
  exact ⟨reg', ofText_eq_ok_iff.2 ⟨d', hread', hreg'⟩, hunlined⟩

end Registry

/-! ### Samples -/

namespace SpacingSample

open Source

/-- A keyword with a name close behind it. -/
def closeText : String := "namespace N\x7bstructS\x7b\x7d\x7d"

/-- The same with a comment between the two, which has a bracket and a quote in it, and a blank. -/
def spacedText : String := "namespace N\x7bstruct// \x7d\x22\nS\x7b \x7d\x7d"

def closeRegistry : Registry :=
  ⟨[⟨"N", ⟨"S", .struct, [], [], false, false, [], none, [], some "m", some 1, []⟩⟩]⟩

def fixedWord (text : String) : Word := ⟨.fixed text, text.toList⟩

def words : List Word :=
  [fixedWord "namespace", ⟨.name, ['N']⟩, fixedWord "\x7b", fixedWord "struct", ⟨.name, ['S']⟩,
    fixedWord "\x7b", fixedWord "\x7d", fixedWord "\x7d"]

theorem yields_words : (Phrase.rule .start).Yields words := by
  have hname (text : List Char) : (Phrase.rule .dottedName).Yields [⟨.name, text⟩] :=
    .rule (.seq (.terminal ⟨.name, text⟩) .done)
  have hstruct : (Phrase.rule .structDef).Yields
      [fixedWord "struct", ⟨.name, ['S']⟩, fixedWord "\x7b", fixedWord "\x7d"] :=
    .rule (.seq (.terminal (fixedWord "struct")) (.seq (.terminal ⟨.name, ['S']⟩) (.seq .absent
      (.seq (.terminal (fixedWord "\x7b")) (.seq .done (.terminal (fixedWord "\x7d")))))))
  have hdefinition : (Phrase.rule .definition).Yields _ :=
    .rule (.seq .done (.seq .absent (.left hstruct)))
  have hblock : (Phrase.rule .namespaceBlock).Yields _ :=
    .rule (.seq (.terminal (fixedWord "namespace")) (.seq (hname ['N'])
      (.seq (.terminal (fixedWord "\x7b")) (.seq (.more hdefinition .done)
        (.terminal (fixedWord "\x7d"))))))
  exact .rule (.more hblock .done)

theorem spaced_words : Spaced words closeText.toList spacedText.toList := by
  have htake {w : Word} {cs : List Char} (h : w.kind.take? (w.text ++ cs) = some (w.text, cs)) :
      w.kind.pattern.match? (w.text ++ cs) = some (w.text, cs) := (w.kind.match?_pattern _).trans h
  have hbody : '\n' ∉ [' ', '\x7d', '\x22'] := by decide
  have hclose : Spaced [fixedWord "\x7d", fixedWord "\x7d"] _ _ :=
    .insert (.blank (x := ' ') (by decide)) (.word (htake rfl) (.word (htake rfl) .nil))
  have hname : Spaced [⟨.name, ['S']⟩, fixedWord "\x7b", fixedWord "\x7d", fixedWord "\x7d"] _ _ :=
    .insert (.comment hbody) (.word (htake rfl) (.word (htake rfl) hclose))
  have hstruct : Spaced (fixedWord "struct" :: _) _ _ := .word (htake rfl) hname
  have hspace : Spaced (⟨.name, ['N']⟩ :: fixedWord "\x7b" :: _) _ _ :=
    .word (htake rfl) (.word (htake rfl) hstruct)
  have hblank : Spaced (⟨.name, ['N']⟩ :: fixedWord "\x7b" :: _) _ _ :=
    .blank (x := ' ') (by decide) hspace
  exact .word (w := fixedWord "namespace") (htake rfl) hblank

/-- The text with the comment is accepted, and declares the same. -/
theorem declares_alike :
    (∃ ws, (Phrase.rule .start).Yields ws ∧ Spaced ws closeText.toList closeText.toList) ∧
      ∃ reg', (Registry.ofText "m" spacedText).result = .ok reg' ∧
        reg'.unlined = closeRegistry.unlined := by
  have h : (Registry.ofText "m" closeText).result = .ok closeRegistry := by cbv
  exact ⟨(Registry.ofText_spaced h).1,
    (Registry.ofText_spaced h).2 words spacedText yields_words spaced_words⟩

end SpacingSample

end Bindery
