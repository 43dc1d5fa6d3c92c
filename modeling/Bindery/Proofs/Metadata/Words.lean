import Bindery.Proofs.Metadata.Contents
/-!
# Words in definitions

The grammar takes only words for the names of definitions and of their generic parameters, at every
depth.  So every definition that is found in the registry of a text has such names
(`Registry.spelled_of_ofText`).
-/

namespace Bindery

open Source (IsWord)

/-- A definition with a word for its name and for each generic parameter, as has everything nested in
it. -/
inductive Definition.Spelled : Definition → Prop
  | intro {d : Definition} (name : IsWord d.name) (generics : ∀ p ∈ d.generics, IsWord p)
      (inside : ∀ n ∈ d.nested, Spelled n) : Spelled d

namespace Definition.Spelled

variable {d n : Definition}

theorem name (h : d.Spelled) : IsWord d.name := by
  cases h
  assumption

theorem generics (h : d.Spelled) : ∀ p ∈ d.generics, IsWord p := by
  cases h
  assumption

theorem inside (h : d.Spelled) : ∀ n ∈ d.nested, n.Spelled := by
  cases h
  assumption

theorem of_find? (h : d.Spelled) {steps : List String} (hn : d.find? steps = some n) : n.Spelled :=
  of_find?_of_nested (fun _ k hd => hd.inside k) h hn

end Definition.Spelled

namespace Source

variable {c c' : Cursor}

/-! ### Headings in trees -/

/-- The opening of a struct or union with words for names. -/
structure Heading.Spelled (h : Heading) : Prop where
  name : IsWord h.name
  generics : ∀ p ∈ h.parameters, IsWord p

/-- All structs have words for names. -/
def SpelledAll (structs : List Struct) : Prop := ∀ t ∈ structs, t.1.Spelled

/-- All structs in a member, itself among them, have words for names. -/
def Member.Spelled (m : Member) : Prop := SpelledAll (structsIn [m])

section Grammar

open Grammar

theorem isWord_of_generics {parameters : Located (List String)} (h : generics c parameters c') :
    ∀ p ∈ parameters.value, IsWord p := by
  obtain ⟨_, _, -, first, _, hfirst, others, _, hothers, _, _, -, rfl, -⟩ := h
  refine List.forall_mem_cons.2 ⟨isWord_of_nameText hfirst, forall_of_many hothers ?_⟩
  rintro _ word _ ⟨_, _, -, hword⟩
  exact isWord_of_nameText hword

theorem spelled_of_heading {opening : Heading} (h : heading c opening c') : opening.Spelled := by
  obtain ⟨_, _, -, name, _, hname, parameters, _, hparameters, rfl, -⟩ := h
  refine ⟨isWord_of_nameText hname, ?_⟩
  rcases hparameters with ⟨rfl, -⟩ | ⟨g, rfl, hg⟩
  · exact List.forall_mem_nil _
  · exact isWord_of_generics hg

theorem spelledAll_structsIn {members : List Member} (h : ∀ m ∈ members, m.Spelled) :
    SpelledAll (structsIn members) := by
  induction members with
  | nil => simp [SpelledAll, structsIn]
  | cons m members ih =>
    obtain ⟨hm, hmembers⟩ := List.forall_mem_cons.1 h
    have hsplit : structsIn (m :: members) = structsIn [m] ++ structsIn members := by
      cases m <;> simp [structsIn]
    rw [hsplit]
    exact List.forall_mem_append.2 ⟨hm, ih hmembers⟩

theorem spelled_of_member {m : Member} (h : member c m c') : m.Spelled := by
  refine @IsMember.rec (fun _ m _ _ => m.Spelled) (fun _ ms _ _ => ∀ m ∈ ms, m.Spelled)
    ?field ?constant ?nested ?nil ?cons c m c' h
  case field =>
    rintro c c' _ ⟨_, _, -, _, _, -, _, _, -, _, _, -, rfl, -⟩
    simp [Member.Spelled, SpelledAll, structsIn]
  case constant =>
    rintro c c' _ ⟨_, _, -, _, _, -, _, _, -, _, _, -, _, _, -, _, _, -, _, _, -, rfl, -⟩
    simp [Member.Spelled, SpelledAll, structsIn]
  case nested =>
    intro _ _ _ _ _ _ _ _ _ _ _ _ hheading _ _ _ inside
    rw [Member.Spelled, structsIn, structsIn, List.append_nil]
    exact List.forall_mem_cons.2 ⟨spelled_of_heading hheading, spelledAll_structsIn inside⟩
  case nil => exact List.forall_mem_nil _
  case cons => exact fun _ _ hm hms => List.forall_mem_cons.2 ⟨hm, hms⟩

theorem spelled_of_body {b : Body} (h : body c b c') : SpelledAll b.structs := by
  rcases h with h | h | h | h | h
  · obtain ⟨_, _, hheading, _, _, ⟨_, _, -, _, _, hmembers, _, _, -, rfl, -⟩, rfl, -⟩ := h
    exact List.forall_mem_cons.2 ⟨spelled_of_heading hheading, spelledAll_structsIn
      (forall_of_many hmembers spelled_of_member)⟩
  · obtain ⟨_, _, -, _, _, -, _, _, -, _, _, -, _, _, -, _, _, -, rfl, -⟩ := h
    exact List.forall_mem_nil _
  all_goals
    obtain ⟨_, _, -, _, _, -, _, _, -, rfl, -⟩ := h
    exact List.forall_mem_nil _

theorem spelled_of_read {text : List Char} {document : Document} (h : read text = .ok document) :
    ∀ s ∈ document.sources, SpelledAll s.2.body.structs := by
  refine forall_sources_of_read (P := fun _ d => SpelledAll d.body.structs) h ?_
  rintro _ _ _ _ _ _ - ⟨_, _, -, _, _, -, b, _, hb, rfl, -⟩
  exact spelled_of_body hb

end Grammar

/-! ### Definitions as they are written -/

variable {file : String} {winrt : Bool}

theorem spelled_nestedWritten {members : List Member} (h : SpelledAll (structsIn members)) :
    ∀ n ∈ nestedWritten file winrt members, n.Spelled := by
  induction members using nestedWritten.induct with
  | case1 => simp [nestedWritten]
  | case2 attributes heading members rest ihInner ihRest =>
    rw [structsIn] at h
    obtain ⟨hheading, hinside⟩ := List.forall_mem_cons.1 h
    obtain ⟨hinner, hrest⟩ := List.forall_mem_append.1 hinside
    rw [nestedWritten, List.forall_mem_cons]
    exact ⟨.intro hheading.name hheading.generics (ihInner hinner), ihRest hrest⟩
  | case3 name type rest ih =>
    rw [structsIn] at h
    rw [nestedWritten]
    exact ih h
  | case4 line name type value rest ih =>
    rw [structsIn] at h
    rw [nestedWritten]
    exact ih h

theorem DefinitionSource.spelled {s : DefinitionSource} (hname : IsWord s.body.name)
    (h : SpelledAll s.body.structs) : (s.written file).Spelled := by
  unfold written
  cases hbody : s.body with
  | aggregate heading members =>
    rw [hbody, Body.structs] at h
    obtain ⟨hheading, hmembers⟩ := List.forall_mem_cons.1 h
    exact .intro hheading.name hheading.generics (spelled_nestedWritten hmembers)
  | enumeration line name underlying items =>
    rw [hbody] at hname
    exact .intro hname (List.forall_mem_nil _) (by simp [nestedWritten, Body.members])
  | bodiless kind line name =>
    rw [hbody] at hname
    exact .intro hname (List.forall_mem_nil _) (by simp [nestedWritten, Body.members])

end Source

namespace Registry

variable {file text : String} {reg : Registry}

/-- **Words.**  In the registry of a text, the names and the generic parameters of all definitions
are words. -/
theorem spelled_of_ofText (h : (ofText file text).result = .ok reg) {p : Place} {d : Definition}
    (hd : reg.find? p = some d) : d.Spelled := by
  obtain ⟨root, hroot, hd⟩ := Option.bind_eq_some_iff.1 hd
  have hentry := (mem_entries_of_lookup? hroot).1
  obtain ⟨document, hread, -, -, rfl⟩ := ofText_eq_ok.1 h
  obtain ⟨s, hs, heq⟩ := List.mem_map.1 hentry
  have hspelled : (s.2.written file).Spelled :=
    Source.DefinitionSource.spelled (Source.words_of_read hread s hs).2
      (Source.spelled_of_read hread s hs)
  obtain rfl : s.2.written file = root := congrArg Entry.definition heq
  exact hspelled.of_find? hd

end Registry

end Bindery
