import Mathlib.Logic.Relation
import Bindery.Proofs.FieldType.Repointed
import Bindery.Proofs.Model.Alike
import Bindery.Proofs.Model.Signature
/-!
# Models and the pointers of delegates

The pointers that are recorded for delegates make no difference to a model and its declarations, as
long as the model can be built (`Repointed.build_inStep_of_bare`).  Its fields and what is asked about copies
are found without them.  Signatures are not: a struct has none if pointers are recorded for a
delegate that it holds, itself or through other structs, so then nothing is built around a WinRT
definition.
-/

namespace Bindery

open Relation

namespace Registry

variable {reg reg' : Registry} {n : TypeName} {p q : Place}

/-! ### Where no pointers are recorded -/

/-- No pointers are recorded for the delegates that stored fields of the definition at a place are
of. -/
def BareDelegates (reg : Registry) (p : Place) : Prop :=
  ∀ d f type t, reg.find? p = some d → (f, type) ∈ d.stored →
    reg.resolveStored (.of p [] none) f type = .ok t → t.isDelegate = true → t.pointers = 0

/-- No pointers are recorded for delegates in the definition at a place, nor in what it holds by
value, directly or through others. -/
def BareFrom (reg : Registry) (p : Place) : Prop :=
  ∀ q, ReflTransGen reg.Holds p q → reg.BareDelegates q

/-- Nor for the WinRT definitions inside the one at a place, which are all that have signatures. -/
def SignaturesBare (reg : Registry) (p : Place) : Prop :=
  ∀ steps d, reg.find? (p.within steps) = some d → d.winrt = true → reg.BareFrom (p.within steps)

theorem BareFrom.bareDelegates (h : reg.BareFrom p) : reg.BareDelegates p := h p .refl

theorem BareFrom.of_holds (h : reg.BareFrom p) (hq : reg.Holds p q) : reg.BareFrom q :=
  fun r hr => h r (.head hq hr)

/-! ### Signatures ask for it -/

/-- A struct that has a signature has no pointers recorded for delegates. -/
theorem bareDelegates_of_structSignature {s : String} (h : reg.structSignature n = .ok s) :
    reg.BareDelegates n.place := by
  intro d f type t hd hf ht _
  obtain ⟨d', fragments, hd', hfragments, -⟩ := fragments_of_structSignature h
  obtain rfl := Option.some.inj (hd.symm.trans hd')
  obtain ⟨part, -, t', ht', hpart⟩ := exists_of_mem_left hfragments hf
  obtain rfl := Except.ok.inj (ht.symm.trans ht')
  have hplain := plain_of_signatureWith hpart
  have hnonneg := pointers_nonneg_of_resolveExpr (resolveStored_eq_ok.1 ht).1
  have hpointers : ¬ 0 < t.pointers := fun h => hplain (.inl h)
  omega

theorem exists_structSignature_of_holds {s : String} {e : TypeName}
    (h : reg.structSignature n = .ok s) (hholds : reg.HoldsByValue n.place e) :
    ∃ s', reg.structSignature e = .ok s' := by
  obtain ⟨d, f, type, t, hd, hf, hkind, ht, hbase, hcategory, -⟩ := hholds
  obtain ⟨d', fragments, hd', hfragments, -⟩ := fragments_of_structSignature h
  obtain rfl := Option.some.inj (hd.symm.trans hd')
  obtain ⟨part, -, t', ht', hpart⟩ :=
    exists_of_mem_left hfragments (Definition.mem_stored.2 ⟨hf, hkind⟩)
  obtain rfl := Except.ok.inj (ht.symm.trans ht')
  exact ⟨part, signatureWith_of_struct hpart hbase hcategory⟩

theorem bareFrom_of_structSignature {s : String} (h : reg.structSignature n = .ok s) :
    reg.BareFrom n.place := by
  intro q hq
  have hsigned : ∃ e s', reg.structSignature e = .ok s' ∧ e.place = q := by
    induction hq with
    | refl => exact ⟨n, s, h, rfl⟩
    | tail _ hstep ih =>
      obtain ⟨e, s', hs', rfl⟩ := ih
      obtain ⟨e', hholds, rfl⟩ := hstep
      obtain ⟨s'', hs''⟩ := exists_structSignature_of_holds hs' hholds
      exact ⟨e', s'', hs'', rfl⟩
  obtain ⟨e, s', hs', rfl⟩ := hsigned
  exact bareDelegates_of_structSignature hs'

/-- What is built around WinRT definitions has no pointers recorded for delegates there. -/
theorem WellFormed.signaturesBare_of_build (hreg : reg.WellFormed) {d : Definition} {m : Model}
    (hd : reg.find? p = some d) (h : (reg.build (.ofDefinition p d)).result = .ok m) :
    reg.SignaturesBare p := by
  intro steps inner hinner hwinrt
  obtain ⟨s, hs⟩ := hreg.exists_structSignature (n := .ofDefinition (p.within steps) inner) h hd rfl
    rfl hinner hwinrt
  exact bareFrom_of_structSignature hs

/-! ### Registries with other pointers -/

namespace Repointed

theorem holdsByValue (h : reg.Repointed reg') (hholds : reg.HoldsByValue p n) :
    reg'.HoldsByValue p n := by
  obtain ⟨d, f, type, t, hd, hf, hkind, ht, hbase, hcategory, hpointers⟩ := hholds
  obtain ⟨d', hd', -⟩ := h.sameNames.exists_find? hd
  obtain ⟨⟨f', type'⟩, hf', -, hresolve⟩ := exists_of_mem_left
    (h.resolveStored_inStep hd hd' (reg.scopeAt_plain p)) (Definition.mem_stored.2 ⟨hf, hkind⟩)
  obtain ⟨t', ht', hrepointed⟩ := hresolve.exists_right ht
  obtain ⟨hfield', hkind'⟩ := Definition.mem_stored.1 hf'
  cases hrepointed with
  | refl => exact ⟨d', f', type', t, hd', hfield', hkind', ht', hbase, hcategory, hpointers⟩
  | delegate hdelegate =>
    simp [FieldType.isDelegate, FieldType.category?, FieldType.target?, hbase, hcategory]
      at hdelegate

/-- **Signatures without recorded pointers.**  A struct has the same signature in both registries if
in neither pointers are recorded for the delegates that it holds. -/
theorem structSignature_inStep (h : reg.Repointed reg') (hbare : reg.BareFrom n.place)
    (hbare' : reg'.BareFrom n.place) :
    InStep Eq (reg.structSignature n) (reg'.structSignature n) := by
  refine h.sameNames.structSignatureWithin_inStep
    (S := fun p => reg.BareFrom p ∧ reg'.BareFrom p) (fun p d d' hp hd hd' => ?_)
    (fun p e hp he => ?_) h.sameNames.places ⟨hbare, hbare'⟩
  · refine (forall₂_mem (h.resolveStored_inStep hd hd' (reg.scopeAt_plain p))).imp ?_
    rintro ⟨f, type⟩ ⟨f', type'⟩ ⟨⟨-, hresolve⟩, hf, hf'⟩
    refine (hresolve.and_of_ok (fun _ ht => ht) fun _ ht' => ht').mono ?_
    rintro t t' ⟨hrepointed, ht, ht'⟩
    exact hrepointed.dropIdleConst_eq (hp.1.bareDelegates d f type t hd hf ht)
      (hp.2.bareDelegates d' f' type' t' hd' hf' ht')
  · exact ⟨hp.1.of_holds ⟨e, he, rfl⟩, hp.2.of_holds ⟨e, h.holdsByValue he, rfl⟩⟩

/-- **The pointers of delegates do not matter but for signatures.**  Let one registry be the other
with other pointers around the names of delegates.  A struct or union has no model in either if
pointers are recorded there for a delegate that a WinRT definition inside holds.  Otherwise it has a
model in both or in neither; the models are the same but for the constness of types without
pointers, and get the same declarations, or none. -/
theorem build_inStep_of_bare (h : reg.Repointed reg') (hreg : reg.WellFormed) (hreg' : reg'.WellFormed)
    {d : Definition} (hd : reg.find? p = some d) :
    (¬ reg.SignaturesBare p → ∀ m, (reg.build (.ofDefinition p d)).result ≠ .ok m) ∧
    (¬ reg'.SignaturesBare p → ∀ m, (reg'.build (.ofDefinition p d)).result ≠ .ok m) ∧
    (reg.SignaturesBare p → reg'.SignaturesBare p →
      InStep (fun m m' => m.mapTypes FieldType.dropIdleConst = m'.mapTypes FieldType.dropIdleConst ∧
          InStep Eq (m.declarations reg).result (m'.declarations reg').result)
        (reg.build (.ofDefinition p d)).result (reg'.build (.ofDefinition p d)).result) := by
  obtain ⟨d', hd', hagree⟩ := h.sameNames.exists_find? hd
  refine ⟨fun hbare m hm => ?_, fun hbare m hm => ?_, fun hbare hbare' => ?_⟩
  · exact hbare (hreg.signaturesBare_of_build hd hm)
  · rw [hagree.ofDefinition_eq] at hm
    exact hbare (hreg'.signaturesBare_of_build hd' hm)
  · refine InStep.mono (h.alike.build_inStep hreg hreg' hd (.inr rfl) rfl
      fun n steps inner hplace hinner hwinrt => ?_) fun m m' hm => ⟨hm, ?_⟩
    · obtain ⟨inner', hinner', hinside⟩ := h.sameNames.exists_find? hinner
      have hplaceOf : n.place = p.within steps := hplace
      rw [hplaceOf] at hinner hinner'
      refine h.structSignature_inStep ?_ ?_
      · exact hplaceOf ▸ hbare steps inner hinner hwinrt
      · exact hplaceOf ▸ hbare' steps inner' hinner' (hinside.winrt.symm.trans hwinrt)
    · rw [← m'.declarations_dropIdleConst, ← hm, m.declarations_dropIdleConst]
      exact m.declarations_inStep h.alike

end Repointed

end Registry

/-! ### A sample -/

namespace RepointedSample

open Registry Sample

/-- The delegate, and structs with a field of it, one of them a WinRT one. -/
def registryOf (type : TypeExpr) : Registry :=
  ⟨[⟨"N", ⟨"D", .delegate, [], [], false, false, [], none, [], some "m", some 1, []⟩⟩,
    entry "P" false [("f", type)],
    ⟨"N", ⟨"W", .struct, [⟨"f", .stored type, some 1⟩], [], false, true, [], none, [], some "m",
      some 1, []⟩⟩]⟩

/-- The text in which no pointer is recorded for the delegate. -/
def bareText : String := "namespace N { delegate D; struct P { f: D; } winrt struct W { f: D; } }"

/-- The text in which one is. -/
def pointerText : String :=
  "namespace N { delegate D; struct P { f: *mut D; } winrt struct W { f: *mut D; } }"

theorem ofText_bare : (ofText "m" bareText).result = .ok (registryOf (.named "D")) := by cbv

theorem ofText_pointer :
    (ofText "m" pointerText).result = .ok (registryOf (.pointer false (.named "D"))) := by cbv

theorem mem_places {type : TypeExpr} {p : Place} (hp : p ∈ (registryOf type).places) :
    p = ⟨"N", "D", []⟩ ∨ p = ⟨"N", "P", []⟩ ∨ p = ⟨"N", "W", []⟩ := by
  simpa [registryOf, places, Definition.places, Definition.nestedPlaces, Entry.place, entry] using hp

theorem repointed_sample :
    (registryOf (.named "D")).Repointed (registryOf (.pointer false (.named "D"))) := by
  refine ⟨rfl, rfl, fun p hp => ?_⟩
  rcases mem_places hp with rfl | rfl | rfl
  · exact ⟨_, _, rfl, rfl, rfl, rfl, rfl, rfl, rfl, rfl, rfl, rfl, .nil⟩
  · have hname : (registryOf (.named "D")).NamesDelegate (.of ⟨"N", "P", []⟩ [] none) "D" :=
      fun use => ⟨⟨⟨"N", "D", []⟩, .delegate, false, "N", "D"⟩, by cbv, rfl⟩
    exact ⟨_, _, rfl, rfl, rfl, rfl, rfl, rfl, rfl, rfl, rfl, rfl,
      .cons ⟨rfl, .stored (.leaf hname [] [false])⟩ .nil⟩
  · have hname : (registryOf (.named "D")).NamesDelegate (.of ⟨"N", "W", []⟩ [] none) "D" :=
      fun use => ⟨⟨⟨"N", "D", []⟩, .delegate, false, "N", "D"⟩, by cbv, rfl⟩
    exact ⟨_, _, rfl, rfl, rfl, rfl, rfl, rfl, rfl, rfl, rfl, rfl,
      .cons ⟨rfl, .stored (.leaf hname [] [false])⟩ .nil⟩

def plain : Model where
  name := nameOf "P"
  explicitLayout := false
  generics := []
  fields := [("f", .ofBase (.named ⟨⟨"N", "D", []⟩, .delegate, false, "N", "D"⟩))]
  constants := []
  signature := none
  isTypedef := false
  guid := .absent
  nested := []
  shape := .full

theorem build_plain : ((registryOf (.named "D")).build (nameOf "P")).result = .ok plain := by cbv

/-- The plain struct has the same model with the pointer; the WinRT one has a model only without. -/
theorem build_sample :
    (∃ m, ((registryOf (.pointer false (.named "D"))).build (nameOf "P")).result = .ok m ∧
      plain.mapTypes FieldType.dropIdleConst = m.mapTypes FieldType.dropIdleConst) ∧
    ∀ m, ((registryOf (.pointer false (.named "D"))).build
      ⟨⟨"N", "W", []⟩, .struct, true, "N", "W"⟩).result ≠ .ok m := by
  have hreg := wellFormed_of_ofText ofText_bare
  have hreg' := wellFormed_of_ofText ofText_pointer
  constructor
  · have hplain (type : TypeExpr) : (registryOf type).SignaturesBare ⟨"N", "P", []⟩ := by
      rintro (_ | ⟨step, steps⟩) d hd hwinrt
      · cases hd
        cases hwinrt
      · cases hd
    obtain ⟨-, -, hbuild⟩ := repointed_sample.build_inStep_of_bare hreg hreg'
      (p := ⟨"N", "P", []⟩) rfl
    obtain ⟨m, hm, hsame, -⟩ := (hbuild (hplain _) (hplain _)).exists_right build_plain
    exact ⟨m, hm, hsame⟩
  · obtain ⟨-, hnone, -⟩ := repointed_sample.build_inStep_of_bare hreg hreg'
      (p := ⟨"N", "W", []⟩) rfl
    refine hnone fun hbare => ?_
    have hresolved : (registryOf (.pointer false (.named "D"))).resolveStored
        (.of ⟨"N", "W", []⟩ [] none) ⟨"f", .stored (.pointer false (.named "D")), some 1⟩
        (.pointer false (.named "D")) =
          .ok ⟨.named ⟨⟨"N", "D", []⟩, .delegate, false, "N", "D"⟩, 1, none, false, none⟩ := by cbv
    have hpointers := (hbare [] _ rfl rfl).bareDelegates _ _ _ _ rfl (.head _) hresolved rfl
    cases hpointers

end RepointedSample

end Bindery
