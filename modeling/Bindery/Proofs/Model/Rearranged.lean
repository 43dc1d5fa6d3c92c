import Bindery.Proofs.Model.Alike
/-!
# Rearranged registries

The order in which the top-level definitions of a registry come makes no difference to any of them:
with another order the same models are built, with the same declarations (`build_of_perm`).  Names
that are found by namespace are found by a key that is unique; a name that is looked for anywhere
must have one candidate only.
-/

namespace Bindery

namespace Registry

variable {reg reg' : Registry}

/-! ### The same definitions in another order -/

theorem WellFormed.of_perm (hreg : reg.WellFormed) (h : reg.entries.Perm reg'.entries) :
    reg'.WellFormed :=
  ⟨(h.map Entry.place).nodup_iff.1 hreg.topLevel, fun e he => hreg.distinct e (h.mem_iff.2 he)⟩

theorem WellFormed.lookup?_eq_of_perm (hreg : reg.WellFormed) (h : reg.entries.Perm reg'.entries)
    (space name : String) : reg.lookup? space name = reg'.lookup? space name := by
  refine Option.ext fun d => ?_
  rw [hreg.lookup?_eq_some_iff, (hreg.of_perm h).lookup?_eq_some_iff, h.mem_iff]

theorem WellFormed.find?_eq_of_perm (hreg : reg.WellFormed) (h : reg.entries.Perm reg'.entries)
    (p : Place) : reg.find? p = reg'.find? p := by
  rw [find?, find?, hreg.lookup?_eq_of_perm h]

theorem WellFormed.sameNames_of_perm (hreg : reg.WellFormed)
    (h : reg.entries.Perm reg'.entries) : reg.SameNames reg' := by
  refine ⟨fun p => ?_, h.map Entry.place, h.flatMap_right _⟩
  rw [hreg.find?_eq_of_perm h]
  cases reg'.find? p with
  | none => exact .none
  | some d => exact .some (.refl d)

theorem WellFormed.alike_of_perm (hreg : reg.WellFormed) (h : reg.entries.Perm reg'.entries) :
    Alike id reg reg' where
  toSameNames := hreg.sameNames_of_perm h
  keeps t t' ht := congrArg FieldType.dropIdleConst ht
  stored {p d d' scope} hd hd' _ := by
    obtain rfl : d = d' := by
      rw [hreg.find?_eq_of_perm h, hd'] at hd
      exact (Option.some.inj hd).symm
    refine List.forall₂_same.2 fun f _ => ⟨rfl, ?_⟩
    have hf := (hreg.sameNames_of_perm h).resolveStored_inStep scope f.1 f.2
    exact hf.mono fun t t' ht => congrArg FieldType.fixDelegate ht

theorem WellFormed.structSignature_inStep_of_perm (hreg : reg.WellFormed)
    (h : reg.entries.Perm reg'.entries) (n : TypeName) :
    InStep Eq (reg.structSignature n) (reg'.structSignature n) := by
  have hnames := hreg.sameNames_of_perm h
  refine hnames.structSignatureWithin_inStep (S := fun _ => True) (fun p d d' _ hd hd' => ?_)
    (fun _ _ _ _ => trivial) hnames.places trivial
  rw [hreg.find?_eq_of_perm h, hd'] at hd
  obtain rfl := Option.some.inj hd
  refine List.forall₂_same.2 fun f _ => ?_
  exact (hnames.resolveStored_inStep _ f.1 f.2).mono fun t t' ht => ht ▸ rfl

/-! ### Models and declarations -/

/-- **The order of top-level definitions does not matter.**  Where they come in another order, every
struct or union has the same model, or none in either; and a model has the same declarations, or can
be declared in neither. -/
theorem WellFormed.build_of_perm (hreg : reg.WellFormed) (h : reg.entries.Perm reg'.entries)
    {p : Place} {d : Definition} (hd : reg.find? p = some d) :
    (∀ m, (reg.build (.ofDefinition p d)).result = .ok m ↔
      (reg'.build (.ofDefinition p d)).result = .ok m) ∧
    ∀ (m : Model) ds, (m.declarations reg).result = .ok ds ↔
      (m.declarations reg').result = .ok ds := by
  have halike := hreg.alike_of_perm h
  have hsame : InStep Eq (reg.build (.ofDefinition p d)).result
      (reg'.build (.ofDefinition p d)).result := by
    refine InStep.mono (halike.build_inStep hreg (hreg.of_perm h) hd (.inr rfl) rfl
      fun n _ _ _ _ _ => hreg.structSignature_inStep_of_perm h n) fun m m' hm => ?_
    rwa [m.mapTypes_id, m'.mapTypes_id] at hm
  exact ⟨hsame.ok_iff, fun m => (m.declarations_inStep halike).ok_iff⟩

end Registry

/-! ### A sample -/

namespace RearrangedSample

open Sample (entry nameOf)

/-- A struct with a field of a struct in another namespace, which is found by its name alone. -/
def acrossText : String :=
  "namespace N { struct A { b: B; } } namespace M { struct B { x: u8; } }"

def holder : Entry := entry "A" false [("b", .named "B")]

def held : Entry := ⟨"M", (entry "B" false [("x", .named "u8")]).definition⟩

theorem ofText_across : (Registry.ofText "m" acrossText).result = .ok ⟨[holder, held]⟩ := by cbv

def across : Model where
  name := nameOf "A"
  explicitLayout := false
  generics := []
  fields := [("b", .ofBase (.named ⟨⟨"M", "B", []⟩, .struct, false, "M", "B"⟩))]
  constants := []
  signature := none
  isTypedef := false
  guid := .absent
  nested := []
  shape := .full

theorem build_across : (Registry.build ⟨[holder, held]⟩ (nameOf "A")).result = .ok across := by cbv

/-- It is the same if the other struct comes first. -/
theorem build_across_swapped :
    (Registry.build ⟨[held, holder]⟩ (nameOf "A")).result = .ok across ∧
      ∀ ds, (across.declarations ⟨[holder, held]⟩).result = .ok ds ↔
        (across.declarations ⟨[held, holder]⟩).result = .ok ds := by
  have hswap : List.Perm [holder, held] [held, holder] := .swap held holder []
  obtain ⟨hmodel, hdeclarations⟩ := (Registry.wellFormed_of_ofText ofText_across).build_of_perm
    hswap (p := ⟨"N", "A", []⟩) rfl
  exact ⟨(hmodel across).1 build_across, hdeclarations across⟩

end RearrangedSample

end Bindery
