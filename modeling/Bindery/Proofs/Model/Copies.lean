import Bindery.Proofs.Model.Boundary
import Bindery.Proofs.Model.Derived
import Bindery.Proofs.Model.Faults
/-!
# Copies and their users

Whether values can be copied byte by byte is asked in two ways: of a model through its fields, when a
copy is declared for it, and of a definition, when a field of another model is of its type.  Both
questions have the same answer, or fail alike; so the users of a model take its values to be copied
exactly when a copy is declared for it (`WellFormed.copied_iff`).
-/

namespace Bindery

open Code (Declares)

/-! ### Errors of the search -/

namespace Registry

variable {reg : Registry} {u : List Place} {p : Place} {e : Error}

theorem kind_of_blittableWith {struct : Place → Except Error Bool} {t : FieldType}
    (hstruct : ∀ q, struct q = .error e → e.kind = .metadata)
    (h : t.blittableWith struct = .error e) : e.kind = .metadata := by
  unfold FieldType.blittableWith at h
  split at h
  · cases h
  · split at h
    · split at h
      · exact hstruct _ h
      · cases h
    · cases h

/-- A search that fails, fails at a type that cannot be resolved or a struct that holds itself. -/
theorem kind_of_blittableWithin (h : reg.blittableWithin u p = .error e) : e.kind = .metadata := by
  -- on how many definitions are left
  induction hlen : u.length using Nat.strongRecOn generalizing u p with
  | ind k ih =>
    subst hlen
    cases hd : reg.find? p with
    | none =>
      rw [blittableWithin, hd] at h
      cases h
      rfl
    | some d =>
      rw [blittableWithin_eq hd] at h
      split at h
      · cases h
      · split at h
        · rename_i hp
          obtain ⟨f, -, hf⟩ := exists_of_allM_ne h (by simp)
          rcases bind_eq_error.1 hf with hf | ⟨t, -, hf⟩
          · exact kind_of_resolveStored hf
          · exact kind_of_blittableWith (fun q hq => ih _ (length_erase_lt hp) hq rfl) hf
        · cases h
          rfl

theorem kind_of_allBlittable {m : Model} (h : m.allBlittable reg = .error e) :
    e.kind = .metadata := by
  obtain ⟨⟨x, t⟩, -, ht⟩ := exists_of_allM_ne h (by simp)
  have htest : t.blittableWith reg.isBlittable = .error e := ht
  exact kind_of_blittableWith (fun q hq => kind_of_blittableWithin hq) htest

end Registry

/-! ### Users -/

namespace FieldType

variable {reg : Registry} {t : FieldType} {n : TypeName} {b : Bool}

/-- The default of an array that repeats the default of its elements. -/
def repeatedDefault (t : FieldType) (length : Value) : String :=
  "[" ++ t.elementDefault ++ "; " ++ length.plain ++ "]"

/-- The default of an array repeats that of its elements if these are blittable, and only then. -/
theorem defaultCode_array {length : Value} (harray : t.array = some length)
    (h : t.isBlittable reg = .ok b) :
    t.defaultCode reg = .ok (t.repeatedDefault length) ↔ b = true := by
  have hcode : t.defaultCode reg =
      .ok (if b then t.repeatedDefault length else "unsafe \x7b ::std::mem::zeroed() \x7d") := by
    unfold defaultCode
    rw [harray, h]
    cases b <;> rfl
  have hne : "unsafe \x7b ::std::mem::zeroed() \x7d" ≠ t.repeatedDefault length := by
    intro heq
    have hletter : "unsafe \x7b ::std::mem::zeroed() \x7d".toList.head? = some 'u' := by decide
    rw [heq] at hletter
    simp [repeatedDefault, String.toList_append] at hletter
  rw [hcode]
  cases b with
  | true => simp
  | false => simp [hne]

end FieldType

namespace Registry

variable {reg : Registry} {name : TypeName} {m : Model}

/-- **Copies and their users.**  Of a model that stands in the namespace of its definition, and of
this definition, it is found alike whether they are blittable: with the same answer, or with errors in
metadata.  A full model is declared to be copied if and only if a type of it, not behind a pointer, is
its own form at call boundaries, and if and only if the default of an array of it is repeated. -/
theorem WellFormed.copied_iff (hreg : reg.WellFormed) (hbuild : (reg.build name).result = .ok m)
    (hspace : name.space = "" ∨ name.space = name.place.space) :
    InStep Eq (m.allBlittable reg) (reg.isBlittable name.place) ∧
    (∀ e, m.allBlittable reg = .error e ∨ reg.isBlittable name.place = .error e →
      e.kind = .metadata) ∧
    ∀ ds, (m.declarations reg).result = .ok ds → m.shape = .full →
      ∀ (t : FieldType) (n : TypeName), t.base = .named n → n.place = name.place →
        n.category = .struct → ¬ 0 < t.pointers →
        (∀ source, Declares ds .copyImpl m.name.name ↔
          t.abiCode reg source = .ok (t.fieldCode source)) ∧
        ∀ length, t.array = some length → (Declares ds .copyImpl m.name.name ↔
          t.defaultCode reg = .ok (t.repeatedDefault length)) := by
  refine ⟨?_, ?_, ?_⟩
  · cases hfields : m.allBlittable reg with
    | ok b =>
      rw [(hreg.allBlittable_eq_ok_iff hbuild hspace).1 hfields]
      exact .ok rfl
    | error e =>
      cases hsearch : reg.isBlittable name.place with
      | ok b =>
        have hok := (hreg.allBlittable_eq_ok_iff hbuild hspace).2 hsearch
        rw [hfields] at hok
        cases hok
      | error e' => exact .error e e'
  · rintro e (h | h)
    · exact kind_of_allBlittable h
    · exact kind_of_blittableWithin h
  · intro ds hds hfull t n hn hplace hcategory hpointers
    obtain ⟨own, hown, -⟩ := Model.declarations_ok hds
    obtain ⟨-, -, -, copy, -, -, -, hcopy, -⟩ := Model.ownDeclarations_full hfull hown
    have hcopied : Declares ds .copyImpl m.name.name ↔ copy = true := by
      rw [hreg.declares_copy hbuild hds, hcopy]
      simp [hfull]
    have htype : t.isBlittable reg = .ok copy := by
      rw [FieldType.isBlittable_of_struct hn hcategory hpointers, hplace]
      exact (hreg.allBlittable_eq_ok_iff hbuild hspace).1 hcopy
    refine ⟨fun source => ?_, fun length harray => ?_⟩
    · obtain ⟨code, hcode, hiff⟩ := FieldType.exists_abiCode htype source
      rw [hcopied, hcode, Except.ok.injEq, hiff]
    · rw [hcopied, FieldType.defaultCode_array harray htype]

end Registry

/-! ### A sample -/

namespace CopiesSample

open Sample (entry nameOf)

/-- Structs that hold themselves behind a field that is not blittable, and before it. -/
def loopText : String := "namespace N { struct A { s: string; a: A; } struct B { b: B; s: string; } }"

def loopRegistry : Registry :=
  ⟨[entry "A" false [("s", .named "string"), ("a", .named "A")],
    entry "B" false [("b", .named "B"), ("s", .named "string")]]⟩

/-- The model that is left before it is found to hold itself. -/
def behind : Model :=
  DerivedSample.simple "A" .full
    [("s", .ofPrimitive .string), ("a", .ofBase (.named (nameOf "A")))]

/-- The model that is not. -/
def before : Model :=
  DerivedSample.simple "B" .full
    [("b", .ofBase (.named (nameOf "B"))), ("s", .ofPrimitive .string)]

/-- Of the first struct there is an answer, and no copy; of the second there is none either way. -/
theorem copied_loop :
    (Registry.ofText "m" loopText).result = .ok loopRegistry ∧
    (∃ ds, (behind.declarations loopRegistry).result = .ok ds ∧
      behind.allBlittable loopRegistry = .ok false ∧
      loopRegistry.isBlittable ⟨"N", "A", []⟩ = .ok false ∧ ¬ Declares ds .copyImpl "A") ∧
    ∃ e e', before.allBlittable loopRegistry = .error e ∧
      loopRegistry.isBlittable ⟨"N", "B", []⟩ = .error e' ∧
      e.kind = .metadata ∧ e'.kind = .metadata := by
  have htext : (Registry.ofText "m" loopText).result = .ok loopRegistry := by cbv
  have hreg := Registry.wellFormed_of_ofText htext
  have hbehind : (loopRegistry.build (nameOf "A")).result = .ok behind := by cbv
  have hbefore : (loopRegistry.build (nameOf "B")).result = .ok before := by cbv
  refine ⟨htext, ?_, ?_⟩
  · obtain ⟨ds, hds⟩ := DerivedSample.exists_declarations loopRegistry behind (by cbv)
    obtain ⟨hsame, -, husers⟩ := hreg.copied_iff hbehind (.inr rfl)
    have hfields : behind.allBlittable loopRegistry = .ok false := by cbv
    obtain ⟨b, hsearch, rfl⟩ := hsame.exists_right hfields
    have huser := (husers ds hds rfl (.ofBase (.named (nameOf "A"))) _ rfl rfl rfl (by decide)).1 "N"
    refine ⟨ds, hds, hfields, hsearch, fun hcopy => ?_⟩
    have hform : (FieldType.ofBase (.named (nameOf "A"))).abiCode loopRegistry "N" =
        .ok "<A as ::windows::Abi>::Abi" := by cbv
    have hfield : (FieldType.ofBase (.named (nameOf "A"))).fieldCode "N" = "A" := by cbv
    rw [huser.1 hcopy, hfield] at hform
    simp at hform
  · obtain ⟨hsame, hkind, -⟩ := hreg.copied_iff hbefore (.inr rfl)
    have hfields : before.allBlittable loopRegistry = .error (.containsItself "N.B") := by cbv
    rw [hfields] at hsame hkind
    generalize hsearch : loopRegistry.isBlittable (nameOf "B").place = r at hsame
    cases hsame with
    | error _ e' => exact ⟨_, e', hfields, hsearch, hkind _ (.inl rfl), hkind e' (.inr hsearch)⟩

end CopiesSample

end Bindery
