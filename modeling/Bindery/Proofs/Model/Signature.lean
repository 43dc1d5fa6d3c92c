import Bindery.Proofs.FieldType.Signature
import Bindery.Proofs.Model.Building
/-!
# Signatures of models

The model of a WinRT definition carries its signature: the name in code before one fragment for each
stored field (`signature_of_build`).  The fragment of a top-level struct is the signature of its own
model.  That of a nested struct has the same fragments inside, but the name that the struct has in
metadata, while its model goes by its name in code; so the two are equal just if these names are.
-/

namespace Bindery.Registry

variable {reg : Registry} {name n : TypeName} {m : Model}

theorem WellFormed.structSignature_of_build (hreg : reg.WellFormed)
    (h : (reg.build name).result = .ok m) (hwinrt : name.winrt = true) :
    ∃ s, reg.structSignature name = .ok s ∧ m.signature = some s := by
  obtain ⟨d, children, stored, hm⟩ := hreg.builtFrom h
  have hsignature := hm.signature_eq
  rw [if_pos hwinrt, map_eq_ok] at hsignature
  obtain ⟨s, hs, heq⟩ := hsignature
  exact ⟨s, hs, heq.symm⟩

theorem WellFormed.winrt_of_mem_walk (hreg : reg.WellFormed) {e : Model} {d inner : Definition}
    (h : (reg.build name).result = .ok m) (hd : reg.find? name.place = some d)
    (hwinrt : name.winrt = d.winrt) (he : e ∈ m.walk)
    (hinner : reg.find? e.name.place = some inner) : e.name.winrt = inner.winrt := by
  induction m using Model.nested_induction generalizing name d with
  | step m ih =>
    rcases Model.mem_walk.1 he with rfl | ⟨c, hc, he⟩
    · rw [name_of_build h] at hinner ⊢
      rw [hwinrt, Option.some.inj (hd.symm.trans hinner)]
    · obtain ⟨d', children, stored, hm⟩ := hreg.builtFrom h
      obtain ⟨n, hn, k, hbuild⟩ := hm.of_mem_nested hc
      exact ih c hc hbuild (hreg.find?_nested hm.found hn) rfl he

/-- Where a model could be built, the WinRT definitions inside have their signatures. -/
theorem WellFormed.exists_structSignature (hreg : reg.WellFormed) {d inner : Definition}
    {steps : List String} (h : (reg.build name).result = .ok m)
    (hd : reg.find? name.place = some d) (hwinrt : name.winrt = d.winrt)
    (hplace : n.place = name.place.within steps) (hinner : reg.find? n.place = some inner)
    (hinside : inner.winrt = true) : ∃ s, reg.structSignature n = .ok s := by
  obtain ⟨e, he, heplace⟩ := hreg.exists_mem_walk h (hplace ▸ hinner)
  rw [← hplace] at heplace
  have hename := hreg.winrt_of_mem_walk h hd hwinrt he (heplace ▸ hinner)
  obtain ⟨s, hs, -⟩ :=
    hreg.structSignature_of_build (hreg.build_of_mem_walk h he).1 (hename.trans hinside)
  obtain ⟨fragments, -, hrenamed⟩ := structSignature_rename heplace.symm hs
  exact ⟨_, hrenamed⟩

theorem WellFormed.signature_eq_of_build (hreg : reg.WellFormed) {t : FieldType} {part : String}
    (hpart : t.signature reg = .ok part) (hn : t.base = .named n) (hstruct : n.category = .struct)
    (hwinrt : n.winrt = true) (h : (reg.build n).result = .ok m) : m.signature = some part := by
  have hown := signatureWith_of_struct hpart hn hstruct
  obtain ⟨s, hs, heq⟩ := hreg.structSignature_of_build h hwinrt
  rw [heq, Except.ok.inj (hs.symm.trans hown)]

/-- A type of a nested definition is, in the plain scope, of one nested in the owner of the scope,
under its name in metadata. -/
theorem exists_nested_of_base {d : Definition} (hd : reg.find? name.place = some d) {f : Field}
    {type : TypeExpr} {t : FieldType} (ht : reg.resolveStored (.of name.place [] none) f type = .ok t)
    (hn : t.base = .named n) (hnested : n.place.isNested = true) :
    ∃ inner ∈ d.nested, n = .ofDefinition (name.place.child inner.name) inner := by
  obtain ⟨x, hx⟩ := base_of_resolveExpr (resolveStored_eq_ok.1 ht).1
  rw [hn] at hx
  rcases nested_of_resolveName hx hnested with hlookup | ⟨-, hlookup⟩
  · cases hlookup
  · change reg.nestedName? name.place x = some n at hlookup
    rw [nestedName?, hd] at hlookup
    obtain ⟨inner, hinner, hname⟩ := Option.map_eq_some_iff.1 hlookup
    obtain rfl : inner.name = x := by simpa using List.find?_some hinner
    exact ⟨inner, List.mem_of_find?_eq_some hinner, hname.symm⟩

/-- How the fragment of a nested WinRT struct `n` goes with the model `c` of this struct, which is
nested in the model `m` of `name`: they have the same fragments inside. -/
structure NestedFragment (name : TypeName) (m : Model) (n : TypeName) (fragment : String)
    (inner : Definition) (c : Model) (index : Nat) (inside : List String) : Prop where
  mem_nested : c ∈ m.nested
  name_metadata : n = .ofDefinition (name.place.child inner.name) inner
  name_code : c.name = name.nestedName index inner
  fragment_eq : fragment = structText n.qualifiedName inside
  signature_eq : c.signature = some (structText c.name.qualifiedName inside)

theorem NestedFragment.signature_eq_iff {fragment : String} {inner : Definition} {c : Model}
    {index : Nat} {inside : List String}
    (h : NestedFragment name m n fragment inner c index inside) :
    c.signature = some fragment ↔ c.name.qualifiedName = n.qualifiedName := by
  rw [h.signature_eq, h.fragment_eq, Option.some.injEq, structText_inj]

/-- A nested WinRT struct that a field is of has its model, with the same fragments. -/
theorem WellFormed.exists_nestedFragment (hreg : reg.WellFormed)
    (h : (reg.build name).result = .ok m) {f : Field} {type : TypeExpr} {t : FieldType}
    {fragment : String} (ht : reg.resolveStored (.of name.place [] none) f type = .ok t)
    (hfragment : t.signature reg = .ok fragment) (hn : t.base = .named n)
    (hstruct : n.category = .struct) (hwinrt : n.winrt = true) (hnested : n.place.isNested = true) :
    ∃ inner c index inside, NestedFragment name m n fragment inner c index inside := by
  obtain ⟨d, children, stored, hm⟩ := hreg.builtFrom h
  obtain ⟨inner, hinner, hname⟩ := exists_nested_of_base hm.found ht hn hnested
  obtain ⟨c, hc, index, hbuild⟩ := hm.exists_nested hinner
  have hcname : c.name = name.nestedName index inner := name_of_build hbuild
  have hinnerWinrt : (name.nestedName index inner).winrt = true := by
    rw [hname] at hwinrt
    exact hwinrt
  obtain ⟨s, hs, heq⟩ := hreg.structSignature_of_build hbuild hinnerWinrt
  have hplace : (name.nestedName index inner).place = n.place := by
    rw [hname]
    rfl
  obtain ⟨inside, hinside, hrenamed⟩ :=
    structSignature_rename hplace (signatureWith_of_struct hfragment hn hstruct)
  obtain rfl := Except.ok.inj (hs.symm.trans hrenamed)
  exact ⟨inner, c, index, inside, hc, hname, hcname, hinside, by rw [heq, hcname]⟩

/-- **Signatures in containers.**  The model of a WinRT struct carries the signature of its name in
code, with one fragment for each stored field in order of declaration.  Where the field is of a WinRT
struct at the top level, the fragment is the signature that the model of this struct carries.  Where
it is of a nested one, the model of this struct carries the same fragments under the name in code in
place of the one in metadata. -/
theorem WellFormed.signature_of_build (hreg : reg.WellFormed)
    (h : (reg.build name).result = .ok m) (hwinrt : name.winrt = true) :
    ∃ d fragments, reg.find? name.place = some d ∧
      m.signature = some (structText m.name.qualifiedName fragments) ∧
      List.Forall₂ (fun f fragment => ∃ t,
        reg.resolveStored (.of name.place [] none) f.1 f.2 = .ok t ∧
        t.signature reg = .ok fragment ∧
        ∀ n, t.base = .named n → n.category = .struct → n.winrt = true →
          if n.place.isNested then
            ∃ inner c index inside, NestedFragment name m n fragment inner c index inside ∧
              (c.signature = some fragment ↔ c.name.qualifiedName = n.qualifiedName)
          else ∀ e, (reg.build n).result = .ok e → e.signature = some fragment)
        d.stored fragments := by
  obtain ⟨s, hs, heq⟩ := hreg.structSignature_of_build h hwinrt
  obtain ⟨d, fragments, hd, hfragments, rfl⟩ := fragments_of_structSignature hs
  refine ⟨d, fragments, hd, by rw [heq, name_of_build h], hfragments.imp ?_⟩
  rintro f fragment ⟨t, ht, hfragment⟩
  refine ⟨t, ht, hfragment, fun n hn hstruct hnwinrt => ?_⟩
  split
  · rename_i hnested
    obtain ⟨inner, c, index, inside, hc⟩ :=
      hreg.exists_nestedFragment h ht hfragment hn hstruct hnwinrt hnested
    exact ⟨inner, c, index, inside, hc, hc.signature_eq_iff⟩
  · intro e he
    exact hreg.signature_eq_of_build hfragment hn hstruct hnwinrt he

/-! ### A sample -/

namespace SignatureSample

/-- A WinRT struct with a field of a struct nested in it and one of a struct at the top level. -/
def containerText : String :=
  "namespace N { winrt struct A { b: _B; t: T; struct _B { x: u8; } } winrt struct T { y: u8; } }"

def struct (name : String) (fields : List (String × String)) (nested : List Definition) :
    Definition :=
  ⟨name, .struct, fields.map fun f => ⟨f.1, .stored (.named f.2), some 1⟩, [], false, true, [], none,
    [], some "m", some 1, nested⟩

def container : Registry :=
  ⟨[⟨"N", struct "A" [("b", "_B"), ("t", "T")] [struct "_B" [("x", "u8")] []]⟩,
    ⟨"N", struct "T" [("y", "u8")] []⟩]⟩

theorem ofText_container : (ofText "m" containerText).result = .ok container := by cbv

def nameIn (root : String) (steps : List String) (name : String) : TypeName :=
  ⟨⟨"N", root, steps⟩, .struct, true, "N", name⟩

/-- The model of a struct without identity, constants or unions. -/
def plainModel (name : TypeName) (fields : FieldList) (signature : String) (nested : List Model) :
    Model :=
  ⟨name, false, [], fields, [], some signature, false, .absent, nested, .full⟩

def inner : Model := plainModel (nameIn "A" ["_B"] "A_0") [("x", .ofPrimitive .u8)] "struct(N.A_0;u1)" []

def other : Model := plainModel (nameIn "T" [] "T") [("y", .ofPrimitive .u8)] "struct(N.T;u1)" []

def outer : Model := plainModel (nameIn "A" [] "A")
  [("b", .ofBase (.named (nameIn "A" ["_B"] "A_0"))), ("t", .ofBase (.named (nameIn "T" [] "T")))]
  "struct(N.A;struct(N._B;u1);struct(N.T;u1))" [inner]

theorem build_outer : (container.build (nameIn "A" [] "A")).result = .ok outer := by cbv

theorem build_other : (container.build (nameIn "T" [] "T")).result = .ok other := by cbv

/-- The fragment of the nested struct is not the signature of its model; that of the other one is. -/
theorem signature_of_outer : ∃ b t, outer.signature = some (structText "N.A" [b, t]) ∧
    inner.signature ≠ some b ∧ other.signature = some t := by
  obtain ⟨d, fragments, hd, hsignature, hfragments⟩ :=
    (wellFormed_of_ofText ofText_container).signature_of_build build_outer rfl
  obtain rfl : struct "A" [("b", "_B"), ("t", "T")] [struct "_B" [("x", "u8")] []] = d :=
    Option.some.inj hd
  obtain _ | ⟨⟨tb, htb, -, hb⟩, _ | ⟨⟨tt, htt, -, ht⟩, _ | _⟩⟩ := hfragments
  rename_i b t
  refine ⟨b, t, hsignature, fun heq => ?_, ?_⟩
  · have hresolved : container.resolveStored (.of (nameIn "A" [] "A").place [] none)
        ⟨"b", .stored (.named "_B"), some 1⟩ (.named "_B") =
          .ok (.ofBase (.named (nameIn "A" ["_B"] "_B"))) := by cbv
    obtain rfl := Except.ok.inj (htb.symm.trans hresolved)
    obtain ⟨_, c, _, _, hc, hiff⟩ := hb _ rfl rfl rfl
    obtain rfl : c = inner := List.mem_singleton.1 hc.mem_nested
    exact absurd (hiff.1 heq) (by decide)
  · have hresolved : container.resolveStored (.of (nameIn "A" [] "A").place [] none)
        ⟨"t", .stored (.named "T"), some 1⟩ (.named "T") =
          .ok (.ofBase (.named (nameIn "T" [] "T"))) := by cbv
    obtain rfl := Except.ok.inj (htt.symm.trans hresolved)
    exact ht _ rfl rfl rfl other build_other

end SignatureSample

end Bindery.Registry
