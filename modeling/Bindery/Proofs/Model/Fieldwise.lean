import Bindery.Proofs.Model.Blocks
import Bindery.Proofs.Model.Legible
/-!
# Declarations that go field by field

Five declarations of a full model go through its fields, each in a text of its own: the struct, the
struct of call boundaries, the default value, the comparison and what is shown.  Read back from these
texts, all of them have the same fields in the same order and reach them in the same way
(`Registry.fieldwise_of_declarations`).
-/

namespace Bindery

open Code (Comparison Declaration DeclarationKind IsPlain)
open Text (Free)

/-! ### The only declaration of a kind -/

/-- The text of the declaration of a kind for the type of a name, if there is exactly one. -/
def Code.onlyText? (ds : List Declaration) (kind : DeclarationKind) (name : String) :
    Option String :=
  match ds.filter fun d => d.kind = kind ∧ d.typeName = name with
  | [d] => some d.text
  | _ => none

theorem filter_eq_singleton {α β : Type} [DecidableEq β] {f : α → β} {l : List α}
    (h : (l.map f).Nodup) {a : α} (ha : a ∈ l) : l.filter (fun x => f x = f a) = [a] := by
  induction l with
  | nil => cases ha
  | cons x l ih =>
    rw [List.map_cons, List.nodup_cons] at h
    rcases List.mem_cons.1 ha with rfl | ha
    · have hnone : l.filter (fun x => f x = f a) = [] := by
        rw [List.filter_eq_nil_iff]
        intro x hx heq
        exact h.1 (of_decide_eq_true heq ▸ List.mem_map_of_mem hx)
      rw [List.filter_cons_of_pos (by simp), hnone]
    · have hother : f x ≠ f a := fun heq => h.1 (heq ▸ List.mem_map_of_mem ha)
      rw [List.filter_cons_of_neg (by simpa using hother), ih h.2 ha]

namespace Registry

variable {reg : Registry} {name : TypeName} {m : Model} {ds own : List Declaration}

/-- What is declared for a built model is its own, each kind once. -/
theorem WellFormed.onlyText?_eq (hreg : reg.WellFormed) (hbuild : (reg.build name).result = .ok m)
    (hds : (m.declarations reg).result = .ok ds) (hown : m.ownDeclarations reg = .ok own)
    {d : Declaration} (hd : d ∈ own) : Code.onlyText? ds d.kind m.name.name = some d.text := by
  have hkinds : (own.map (·.kind)).Nodup := by
    obtain ⟨copy, hkinds, -⟩ := Model.kinds_ownDeclarations hown
    exact hkinds ▸ Shape.nodup_ownKinds ..
  have hsame : own.filter (fun x => x.kind = d.kind ∧ x.typeName = m.name.name) = [d] := by
    rw [← filter_eq_singleton hkinds hd]
    refine List.filter_congr fun x hx => ?_
    simp [Model.typeName_of_mem_ownDeclarations hown hx]
  have hall : ds.filter (fun x => x.kind = d.kind ∧ x.typeName = m.name.name) = [d] := by
    obtain ⟨own', hown', hds⟩ := Model.declarations_ok hds
    obtain rfl : own = own' := Except.ok.inj (hown.symm.trans hown')
    rcases hds with ⟨-, rfl⟩ | ⟨-, inner, hinner, rfl⟩
    · exact hsame
    · have hnone : inner.flatten.filter
          (fun x => x.kind = d.kind ∧ x.typeName = m.name.name) = [] := by
        rw [List.filter_eq_nil_iff]
        intro x hx hfor
        obtain ⟨cs, hcs, hx⟩ := List.mem_flatten.1 hx
        obtain ⟨c, hc, hdeclared⟩ := exists_of_mem_right hinner hcs
        obtain ⟨k, hk, kown, -, hkown, hx, -⟩ :=
          Model.exists_declared_of_mem_declarations hdeclared hx
        -- what is nested has an index in its name
        obtain ⟨i, -, hinside⟩ := hreg.exists_indexSuffix_of_nested hbuild hc
        obtain ⟨ks, hks⟩ := hinside k hk
        have hname := (of_decide_eq_true hfor).2
        rw [Model.typeName_of_mem_ownDeclarations hkown hx] at hname
        rw [hname, name_of_build hbuild] at hks
        simp [indexSuffix_cons] at hks
      rw [List.filter_append, hsame, hnone, List.append_nil]
  rw [Code.onlyText?, hall]

end Registry

/-! ### Accessors -/

namespace Model

variable {reg : Registry} {m : Model}

/-- How the fields are reached, in order: by their positions, or by their identifiers. -/
def accessors (m : Model) : List String :=
  if m.isTypedef then (List.range m.fields.length).map toString else m.fieldNames

theorem accessors_eq_mapIdx (m : Model) :
    m.accessors = m.fields.mapIdx fun k f => m.accessor k f.1 := by
  unfold accessors accessor fieldNames
  split
  · exact List.ext_getElem (by simp) (by simp)
  · exact List.ext_getElem (by simp) (by simp)

theorem length_accessors (m : Model) : m.accessors.length = m.fields.length := by
  rw [accessors_eq_mapIdx, List.length_mapIdx]

theorem zip_accessors (m : Model) :
    m.accessors.zip m.fields = m.fields.mapIdx fun k f => (m.accessor k f.1, f) := by
  rw [accessors_eq_mapIdx]
  exact List.ext_getElem (by simp) (by simp)

theorem comparisons_eq (m : Model) : m.comparisons =
    (m.accessors.zip m.fields).map fun e => ⟨e.1, e.2.2.isCallback⟩ := by
  rw [zip_accessors]
  exact List.ext_getElem (by simp [comparisons]) (by simp [comparisons])

theorem debugEntries_eq (m : Model) : m.debugEntries =
    (m.accessors.zip m.fields).filterMap fun e =>
      if e.2.2.isCallback then none else some (Code.bare e.2.1, e.1) := by
  have hmap : (m.fields.mapIdx fun k f => (f.2, Code.bare f.1, m.accessor k f.1)) =
      (m.accessors.zip m.fields).map fun e => (e.2.2, Code.bare e.2.1, e.1) := by
    rw [zip_accessors]
    exact List.ext_getElem (by simp) (by simp)
  show (m.fields.mapIdx fun k f => (f.2, Code.bare f.1, m.accessor k f.1)).filterMap _ = _
  rw [hmap, List.filterMap_map]
  rfl

theorem keyed_eq {entries : List (String × String)} (h : entries.map (·.1) = m.fieldNames) :
    Code.keyed m.isTypedef entries = m.accessors.zip (entries.map (·.2)) := by
  unfold Code.keyed accessors
  split
  · have hlength : entries.length = m.fields.length := by
      simpa [fieldNames] using congrArg List.length h
    exact List.ext_getElem (by simp [Code.positioned, hlength]) (by simp [Code.positioned])
  · rw [← h, List.zip_map']
    exact (List.map_id' entries).symm

end Model

/-! ### Agreement -/

open Code (onlyText? readFields? readEntries? readDefaults? readComparisons? readShown?)

/-- What is read from the texts that are declared for the model `m`. -/
structure Fieldwise (reg : Registry) (m : Model) (ds : List Declaration) : Prop where
  /-- Every field is reached in its own way. -/
  length : m.accessors.length = m.fields.length
  distinct : m.accessors.Nodup
  /-- The struct has all fields, in order. -/
  struct : (onlyText? ds .struct m.name.name).bind readFields? =
    some (m.accessors.zip (m.fields.map fun f => f.2.fieldCode m.name.space))
  /-- Each of them has its default value. -/
  defaults : ∃ values, List.Forall₂ (fun f value => f.2.defaultCode reg = .ok value) m.fields values ∧
    (onlyText? ds .defaultImpl m.name.name).bind readDefaults? = some (m.accessors.zip values)
  /-- Each is compared with the same field of the other value. -/
  comparisons : (onlyText? ds .partialEqImpl m.name.name).bind readComparisons? =
    some ((m.accessors.zip m.fields).map fun e => ⟨e.1, e.2.2.isCallback⟩)
  /-- Each is shown, under its word, unless it is a callback. -/
  shown : (onlyText? ds .debugImpl m.name.name).bind readShown? =
    some ((m.accessors.zip m.fields).filterMap fun e =>
      if e.2.2.isCallback then none else some (Code.bare e.2.1, e.1))
  /-- Each has a type at call boundaries; after these there is one marker for each parameter. -/
  boundary : ∃ types,
    List.Forall₂ (fun f type => f.2.abiCode reg m.name.space = .ok type) m.fields types ∧
    (onlyText? ds .abiStruct m.name.name).bind readEntries? =
      some (types ++ m.generics.map fun p => "::std::marker::PhantomData<" ++ p ++ ">")

namespace Registry

variable {reg : Registry} {file text : String} {name : TypeName} {m n : Model}
  {ds : List Declaration}

/-- A full model has a field: if none is declared, one byte makes up for it. -/
theorem BuiltFrom.fields_ne_nil {d : Definition} {children : List Model} {stored : FieldList}
    (h : reg.BuiltFrom name d children stored m) (hfull : m.shape = .full) : m.fields ≠ [] := by
  have habsent : m.guid.isAbsent = true := by
    by_contra hguid
    rw [h.shape_eq, Shape.of, if_pos (by simpa using hguid)] at hfull
    cases hfull
  have htypes := FieldList.map_snd_run m.guid stored
  rw [← h.fields_eq, habsent] at htypes
  intro hnil
  rw [hnil] at htypes
  split at htypes
  · cases htypes
  · rename_i hstored
    exact hstored (by simpa using htypes)

theorem Legible.isPlain_of_mem_accessors (h : Legible m) {x : String} (hx : x ∈ m.accessors) :
    IsPlain x := by
  unfold Model.accessors at hx
  split at hx
  · obtain ⟨k, -, rfl⟩ := List.mem_map.1 hx
    exact Code.isPlain_of_isWord (isWord_toString k)
  · exact h.names x hx

theorem FieldsOf.nodup_accessors {d : Definition} (h : reg.FieldsOf d m) : m.accessors.Nodup := by
  unfold Model.accessors
  split
  · refine List.Nodup.map (fun j k hjk => ?_) List.nodup_range
    simpa using numbered_injective "" (congrArg ("" ++ ·) hjk)
  · exact List.Nodup.of_map _ h.distinct

/-! ### Texts of models -/

theorem read_struct (h : Legible m) (hne : m.fields ≠ []) :
    readFields? m.structDeclaration.text =
      some (m.accessors.zip (m.fields.map fun f => f.2.fieldCode m.name.space)) := by
  have hnames : m.fieldCodes.map (·.1) = m.fieldNames := by
    simp [Model.fieldCodes, Model.fieldNames]
  rw [Model.structDeclaration, Code.readFields?_text h.head, Model.keyed_eq hnames]
  · rw [Model.fieldCodes, List.map_map]
    rfl
  · simpa [Model.fieldCodes] using hne
  · intro f hf
    exact h.names f.1 (hnames ▸ List.mem_map_of_mem hf)
  · intro f hf
    obtain ⟨e, he, rfl⟩ := List.mem_map.1 hf
    exact (h.types e he).free_fieldCode

theorem forall₂_defaults {values : List (String × String)} (h : m.defaults reg = .ok values) :
    List.Forall₂ (fun f e => e.1 = f.1 ∧ f.2.defaultCode reg = .ok e.2) m.fields values := by
  refine (mapM_eq_ok.1 h).imp fun f e he => ?_
  obtain ⟨value, hvalue, heq⟩ := bind_eq_ok.1 he
  cases heq
  exact ⟨rfl, hvalue⟩

theorem read_defaults (h : Legible m) (hne : m.fields ≠ []) {values : List (String × String)}
    (hvalues : m.defaults reg = .ok values) :
    readDefaults? (Declaration.defaultImpl m.head m.isTypedef values).text =
      some (m.accessors.zip (values.map (·.2))) := by
  have hfields := forall₂_defaults hvalues
  have hnames : values.map (·.1) = m.fieldNames :=
    (map_eq_of_forall₂ (hfields.imp fun _ _ he => he.1.symm)).symm
  rw [Code.readDefaults?_text h.head, Model.keyed_eq hnames]
  · rintro rfl
    exact hne (List.forall₂_nil_right_iff.1 hfields)
  · intro e he
    exact h.names e.1 (hnames ▸ List.mem_map_of_mem he)
  · intro e he
    obtain ⟨f, hf, -, hvalue⟩ := exists_of_mem_right hfields he
    exact (h.types f hf).free_defaultCode hvalue

theorem read_comparisons (h : Legible m) (hne : m.fields ≠ []) :
    readComparisons? (Declaration.partialEqImpl m.head m.comparisons).text =
      some ((m.accessors.zip m.fields).map fun e => ⟨e.1, e.2.2.isCallback⟩) := by
  rw [Code.readComparisons?_text h.head, Model.comparisons_eq]
  · simpa [Model.comparisons] using hne
  · rw [Model.comparisons_eq]
    intro c hc
    obtain ⟨⟨x, f⟩, he, rfl⟩ := List.mem_map.1 hc
    exact h.isPlain_of_mem_accessors (List.of_mem_zip he).1

theorem read_shown (h : Legible m) :
    readShown? (Declaration.debugImpl m.head m.debugEntries).text =
      some ((m.accessors.zip m.fields).filterMap fun e =>
        if e.2.2.isCallback then none else some (Code.bare e.2.1, e.1)) := by
  have hentries : ∀ e ∈ m.debugEntries, IsPlain e.1 ∧ IsPlain e.2 := by
    rw [Model.debugEntries_eq]
    intro e he
    obtain ⟨⟨x, f⟩, hf, heq⟩ := List.mem_filterMap.1 he
    obtain ⟨hx, hf⟩ := List.of_mem_zip hf
    split at heq
    · cases heq
    · cases heq
      exact ⟨Code.isPlain_bare (h.names f.1 (List.mem_map_of_mem hf)), h.isPlain_of_mem_accessors hx⟩
  rw [Code.readShown?_text h.head (fun e he => (hentries e he).1) fun e he => (hentries e he).2,
    Model.debugEntries_eq]

theorem read_boundary (h : Legible m) (hne : m.fields ≠ []) {entries : List String}
    (hentries : m.abiEntries reg = .ok entries) :
    ∃ types,
      List.Forall₂ (fun f type => f.2.abiCode reg m.name.space = .ok type) m.fields types ∧
      readEntries? (Declaration.abiStruct m.head entries).text =
        some (types ++ m.generics.map fun p => "::std::marker::PhantomData<" ++ p ++ ">") := by
  obtain ⟨types, htypes, heq⟩ := bind_eq_ok.1 hentries
  cases heq
  have hforall := mapM_eq_ok.1 htypes
  refine ⟨types, hforall, Code.readEntries?_text h.head ?_ ?_⟩
  · intro hnil
    rw [(List.append_eq_nil_iff.1 hnil).1] at hforall
    exact hne (List.forall₂_nil_right_iff.1 hforall)
  · refine List.forall_mem_append.2 ⟨fun type htype => ?_, fun entry hentry => ?_⟩
    · obtain ⟨f, hf, hcode⟩ := exists_of_mem_right hforall htype
      exact (h.types f hf).free_abiCode hcode
    · obtain ⟨p, hp, rfl⟩ := List.mem_map.1 hentry
      simp only [Text.free_append]
      exact ⟨⟨by decide, (Code.free_of_isWord (h.head.generics p hp)).subset (by decide)⟩, by decide⟩

end Registry

/-! ### A sample -/

namespace FieldwiseSample

open Sample (nameOf)

/-- A struct with a raw identifier, a callback and a generic parameter, and a synonym. -/
def sampleText : String :=
  "namespace N { delegate D; struct A<T> { type: u8; f: *mut D; e: T; }
    [NativeTypedefAttribute] struct H { f: D; p: *const A; } }"

def sampleRegistry : Registry :=
  ⟨[⟨"N", ⟨"D", .delegate, [], [], false, false, [], none, [], some "m", some 1, []⟩⟩,
    ⟨"N", ⟨"A", .struct, [⟨"type", .stored (.named "u8"), some 1⟩,
      ⟨"f", .stored (.pointer false (.named "D")), some 1⟩, ⟨"e", .stored (.named "T"), some 1⟩],
      [], false, false, ["T"], none, [], some "m", some 1, []⟩⟩,
    ⟨"N", ⟨"H", .struct, [⟨"f", .stored (.named "D"), some 2⟩,
      ⟨"p", .stored (.pointer true (.named "A")), some 2⟩],
      [⟨"NativeTypedef", []⟩], false, false, [], none, [], some "m", some 2, []⟩⟩]⟩

def callback : TypeName := ⟨⟨"N", "D", []⟩, .delegate, false, "N", "D"⟩

def named : Model where
  name := nameOf "A"
  explicitLayout := false
  generics := ["T"]
  fields := [("r#type", .ofPrimitive .u8), ("f", .ofBase (.named callback)),
    ("e", .ofBase (.generic "T"))]
  constants := []
  signature := none
  isTypedef := false
  guid := .absent
  nested := []
  shape := .full

def synonym : Model where
  name := nameOf "H"
  explicitLayout := false
  generics := []
  fields := [("f", .ofBase (.named callback)), ("p", ⟨.named (nameOf "A"), 1, none, true, none⟩)]
  constants := []
  signature := none
  isTypedef := true
  guid := .absent
  nested := []
  shape := .full

theorem ofText_sample : (Registry.ofText "m" sampleText).result = .ok sampleRegistry := by cbv

theorem build_named : (sampleRegistry.build (nameOf "A")).result = .ok named := by cbv

theorem build_synonym : (sampleRegistry.build (nameOf "H")).result = .ok synonym := by cbv

end FieldwiseSample

end Bindery
