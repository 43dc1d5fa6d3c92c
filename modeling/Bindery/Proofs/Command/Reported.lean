import Bindery.Proofs.Command.Steps
import Bindery.Proofs.Model.Faults
/-!
# Building reports what goes wrong

Building the models of a loaded text comes to an answer, whatever the text holds and whatever the
namespace is, unless it meets one of three errors that are not looked for (`returns_or_unforeseen`).
-/

namespace Bindery.Command.Conversion

open Registry

variable {c : Conversion} {reg : Registry} {e : Error}

theorem outcomeOf_of_reported (h : e.Reported) : outcomeOf e = .ok false := by
  unfold outcomeOf
  rcases h with h | h | h <;> rw [h]

theorem outcomeOf_of_unforeseen (h : reg.Unforeseen e) : outcomeOf e = .error (.error e) := by
  cases h with
  | definition _ hunforeseen => cases hunforeseen <;> rfl
  | endless => rfl

theorem winrt_of_mem_targets (hreg : reg.WellFormed) {space : Option String} {n : TypeName}
    (hn : n ∈ targets reg space) {d : Definition} (hd : reg.find? n.place = some d) :
    n.winrt = d.winrt := by
  obtain ⟨entry, hentry, hname⟩ := List.mem_filterMap.1 hn
  split at hname
  · cases hname
    have hfound : reg.find? entry.place = some entry.definition :=
      (find?_top ..).trans (hreg.lookup?_eq_some_iff.2 ⟨hentry, rfl⟩)
    rw [Option.some.inj (hd.symm.trans hfound)]
    rfl
  · cases hname

/-- **Building reports what goes wrong.**  In a loaded text nothing stops the building and ordering of
models but errors that are reported, and three that come unforeseen: two from a definition, and one
from a WinRT definition whose signature never ends.  So building answers whether it was done, for
every namespace, unless it meets one of these. -/
theorem returns_or_unforeseen {file text : String}
    (htext : (Registry.ofText file text).result = .ok reg) (hloaded : c.loaded = some reg)
    (w : Workspace) :
    (∀ names e, (∀ n ∈ names, ∀ d, reg.find? n.place = some d → n.winrt = d.winrt) →
      (orderedModels reg names).result = .error e → e.Reported ∨ reg.Unforeseen e) ∧
    ∃ r c' w', exec build c w = ((r, c'), w') ∧ ((∃ done, r = .ok done) ∨
      ∃ e, reg.Unforeseen e ∧ r = .error (.error e)) := by
  have hreg := wellFormed_of_ofText htext
  refine ⟨fun names e hnames he => hreg.reported_or_unforeseen_of_orderedModels hnames he, ?_⟩
  by_cases hnames : ∀ s, c.settings.space = some s → targets reg c.settings.space ≠ []
  · cases hresult : (orderedModels reg (targets reg c.settings.space)).result with
    | ok models =>
      obtain ⟨lines, hrun⟩ := speaks_build_of_some (w := w) hloaded
        (models?_eq_some.2 ⟨hnames, hresult⟩)
      exact ⟨_, _, _, hrun, .inl ⟨true, rfl⟩⟩
    | error e =>
      obtain ⟨lines, hrun⟩ := speaks_build_of_error (w := w) hloaded hnames hresult
      refine ⟨_, _, _, hrun, ?_⟩
      rcases hreg.reported_or_unforeseen_of_orderedModels
        (fun n hn d hd => winrt_of_mem_targets hreg hn hd) hresult with h | h
      · exact .inl ⟨false, outcomeOf_of_reported h⟩
      · exact .inr ⟨e, h, outcomeOf_of_unforeseen h⟩
  · obtain ⟨s, hspace, htargets⟩ := exists_space_of_not hnames
    obtain ⟨lines, hrun⟩ := speaks_build_of_nil (w := w) hloaded hspace htargets
    exact ⟨_, _, _, hrun, .inl ⟨false, rfl⟩⟩

/-! ### Samples -/

namespace ReportedSample

open Sample (entry)

/-- A struct with a field of a type that is nowhere. -/
def missingText : String := "namespace N { struct A { b: B; } }"

def missing : Registry := ⟨[entry "A" false [("b", .named "B")]]⟩

theorem ofText_missing : (Registry.ofText "m" missingText).result = .ok missing := by cbv

/-- An enumeration that is held in a type without a signature, in a WinRT struct. -/
def wide : Registry :=
  ⟨[⟨"N", ⟨"E", .enum, [], [], false, false, [], some "isize", [], some "m", some 1, []⟩⟩,
    ⟨"N", ⟨"A", .struct, [⟨"e", .stored (.named "E"), some 1⟩], [], false, true, [], none, [],
      some "m", some 1, []⟩⟩]⟩

theorem orderedModels_wide : (orderedModels wide (targets wide none)).result =
    .error (.noUnderlyingSignature .isize) := by cbv

/-- An identity with a negative component. -/
def negative : Registry :=
  ⟨[⟨"N", ⟨"A", .struct, [], [⟨"Guid", .int (-1) :: List.replicate 10 (.int 0)⟩], false, false, [],
    none, [], some "m", some 1, []⟩⟩]⟩

theorem orderedModels_negative : (orderedModels negative (targets negative none)).result =
    .error (.guidRange (.int (-Guid.weight1))) := by cbv

/-- A struct that holds itself, and a WinRT struct that holds this one. -/
def endlessText : String := "namespace N { struct A { a: A; } winrt struct W { a: A; } }"

def endless : Registry :=
  ⟨[entry "A" false [("a", .named "A")],
    ⟨"N", ⟨"W", .struct, [⟨"a", .stored (.named "A"), some 1⟩], [], false, true, [], none, [],
      some "m", some 1, []⟩⟩]⟩

theorem ofText_endless : (Registry.ofText "m" endlessText).result = .ok endless := by cbv

theorem orderedModels_endless : (orderedModels endless (targets endless none)).result =
    .error .endlessSignature := by cbv

theorem not_unforeseen_missing (e : Error) : ¬ missing.Unforeseen e := by
  have hfields {p : Place} {d : Definition} (hd : missing.find? p = some d) :
      d = (entry "A" false [("b", .named "B")]).definition := by
    obtain ⟨root, hroot, hsteps⟩ := Option.bind_eq_some_iff.1 hd
    obtain ⟨hentry, -⟩ := mem_entries_of_lookup? hroot
    have heq := List.mem_singleton.1 hentry
    obtain rfl : root = (entry "A" false [("b", .named "B")]).definition :=
      congrArg Entry.definition heq
    generalize p.steps = steps at hsteps
    cases steps with
    | nil => exact (Option.some.inj hsteps).symm
    | cons step steps => cases hsteps
  intro h
  cases h with
  | definition hd hunforeseen =>
    obtain rfl := hfields hd
    cases hunforeseen with
    | negativeComponent v hattribute => cases hattribute
    | underlying hcategory => cases hcategory
  | endless hd hwinrt =>
    obtain rfl := hfields hd
    cases hwinrt

/-- A missing type is reported.  A negative component, an enumeration held in a type without a
signature, and a signature that never ends are not. -/
theorem build_samples :
    (∃ done c' w', exec build (loadedWith missing) (.empty []) = ((.ok done, c'), w')) ∧
    (∃ c' w', exec build (loadedWith negative) (.empty []) =
      ((.error (.error (.guidRange (.int (-Guid.weight1)))), c'), w')) ∧
    (∃ c' w', exec build (loadedWith wide) (.empty []) =
      ((.error (.error (.noUnderlyingSignature .isize)), c'), w')) ∧
    endless.Unforeseen .endlessSignature ∧
      ∃ c' w', exec build (loadedWith endless) (.empty []) =
        ((.error (.error .endlessSignature), c'), w') := by
  refine ⟨?_, ?_, ?_, ?_, ?_⟩
  · obtain ⟨-, r, c', w', hrun, ⟨done, rfl⟩ | ⟨e, hunforeseen, -⟩⟩ :=
      returns_or_unforeseen (c := loadedWith missing) ofText_missing rfl (.empty [])
    · exact ⟨done, c', w', hrun⟩
    · exact absurd hunforeseen (not_unforeseen_missing e)
  · obtain ⟨lines, hrun⟩ := speaks_build_of_error (c := loadedWith negative) (w := .empty []) rfl
      nofun orderedModels_negative
    exact ⟨_, _, hrun⟩
  · obtain ⟨lines, hrun⟩ := speaks_build_of_error (c := loadedWith wide) (w := .empty []) rfl nofun
      orderedModels_wide
    exact ⟨_, _, hrun⟩
  · have hnames (n) (hn : n ∈ targets endless none) (d) (hd : endless.find? n.place = some d) :
        n.winrt = d.winrt := winrt_of_mem_targets (wellFormed_of_ofText ofText_endless) hn hd
    obtain ⟨herrors, -⟩ :=
      returns_or_unforeseen (c := loadedWith endless) ofText_endless rfl (.empty [])
    rcases herrors _ _ hnames orderedModels_endless with (h | h | h) | h
    · cases h
    · cases h
    · cases h
    · exact h
  · obtain ⟨lines, hrun⟩ := speaks_build_of_error (c := loadedWith endless) (w := .empty []) rfl nofun
      orderedModels_endless
    exact ⟨_, _, hrun⟩

end ReportedSample

end Bindery.Command.Conversion
