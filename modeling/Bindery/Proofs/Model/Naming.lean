import Bindery.Model.Declarations
import Bindery.Proofs.Model.Building
/-!
# Names in code

Nested definitions have no usable names.  Their models go by the name of the outermost one and the
indices on the way inside, each after an underscore (`indexSuffix`).  The indices can be read off
such a name, so the names in a walk differ, and none is another one with the ending of call
boundaries (`nodup_abiNames`).  Fields refer to nested definitions by these names
(`WellFormed.names_of_walk`).
-/

namespace Bindery

/-! ### Indices in names -/

/-- What the indices on the way inside add to a name. -/
def indexSuffix (ks : List Nat) : List Char :=
  ks.flatMap fun k => '_' :: (toString k).toList

theorem indexSuffix_cons (k : Nat) (ks : List Nat) :
    indexSuffix (k :: ks) = '_' :: (Nat.toDigits 10 k ++ indexSuffix ks) := by
  simp [indexSuffix, Nat.toString_eq_repr, Nat.toList_repr]

theorem toList_nestedName (name : TypeName) (k : Nat) (d : Definition) :
    (name.nestedName k d).name.toList = name.name.toList ++ indexSuffix [k] := by
  simp [TypeName.nestedName, indexSuffix]

theorem toDigits_injective : Function.Injective (Nat.toDigits 10) := fun j k h => by
  rw [← Nat.ofDigitChars_ten_toDigits (n := j), h, Nat.ofDigitChars_ten_toDigits]

theorem isDigit_of_mem_toDigits {c : Char} {k : Nat} (h : c ∈ Nat.toDigits 10 k) : c.isDigit :=
  Nat.isDigit_of_mem_toDigits (by decide) (by decide) h

theorem exists_getLast?_toDigits (cs : List Char) (k : Nat) :
    ∃ c, (cs ++ Nat.toDigits 10 k).getLast? = some c ∧ c.isDigit := by
  have hne : Nat.toDigits 10 k ≠ [] := List.ne_nil_of_length_pos Nat.length_toDigits_pos
  refine ⟨_, ?_, isDigit_of_mem_toDigits (List.getLast_mem hne)⟩
  rw [List.getLast?_append_of_ne_nil _ hne, List.getLast?_eq_some_getLast hne]

theorem toList_numbered (base : String) (k : Nat) :
    (base ++ toString k).toList = base.toList ++ Nat.toDigits 10 k := by
  rw [String.toList_append, Nat.toString_eq_repr, Nat.toList_repr]

theorem numbered_injective (base : String) : Function.Injective fun k : Nat => base ++ toString k := by
  intro j k h
  have hlists := congrArg String.toList h
  rw [toList_numbered, toList_numbered] at hlists
  exact toDigits_injective (List.append_cancel_left hlists)

/-- The digits of an index end where the next one begins. -/
theorem takeWhile_indexSuffix (ks : List Nat) :
    (indexSuffix ks).takeWhile (· ≠ '_') = [] := by
  cases ks with
  | nil => rfl
  | cons k ks => simp [indexSuffix_cons]

theorem head_eq_of_indexSuffix_eq {j k : Nat} {js ks : List Nat}
    (h : indexSuffix (j :: js) = indexSuffix (k :: ks)) : j = k := by
  have hdigits (i : Nat) (is : List Nat) :
      (Nat.toDigits 10 i ++ indexSuffix is).takeWhile (· ≠ '_') = Nat.toDigits 10 i := by
    rw [List.takeWhile_append_of_pos, takeWhile_indexSuffix, List.append_nil]
    intro c hc
    refine decide_eq_true fun heq => ?_
    exact Nat.underscore_not_in_toDigits (heq ▸ hc)
  rw [indexSuffix_cons, indexSuffix_cons, List.cons.injEq] at h
  have heq := congrArg (List.takeWhile (· ≠ '_')) h.2
  rw [hdigits, hdigits] at heq
  exact toDigits_injective heq

theorem not_mem_indexSuffix {c : Char} (hunderscore : c ≠ '_') (hdigit : c.isDigit = false)
    (ks : List Nat) : c ∉ indexSuffix ks := by
  induction ks with
  | nil => exact List.not_mem_nil
  | cons k ks ih =>
    rw [indexSuffix_cons]
    have hdigits : c ∉ Nat.toDigits 10 k := fun h => by
      rw [isDigit_of_mem_toDigits h] at hdigit
      cases hdigit
    simp [hunderscore, hdigits, ih]

/-! ### The names in a walk -/

/-- The ending of the types that stand for others at call boundaries. -/
def abiEnding : String := "_abi"

theorem Model.walk_eq (m : Model) : m.walk = m :: m.nested.flatMap walk := by
  have hall (ms : List Model) : walkAll ms = ms.flatMap walk := by
    induction ms with
    | nil => rw [walkAll, List.flatMap_nil]
    | cons c ms ih => rw [walkAll, List.flatMap_cons, ih]
  obtain ⟨_, _, _, _, _, _, _, _, nested, _⟩ := m
  rw [walk, hall]

namespace Registry

variable {reg : Registry} {name : TypeName} {m n : Model}

theorem BuiltFrom.nodup_names {d : Definition} {children : List Model} {stored : FieldList}
    (h : reg.BuiltFrom name d children stored m) : (m.nested.map (·.name.name)).Nodup := by
  have hnames : List.Forall₂ (fun n c => name.name ++ "_" ++ toString n.2 = c.name.name)
      d.nested.zipIdx children := h.built.imp fun n c hc => by rw [name_of_build hc]; rfl
  rw [h.nested_eq, ((List.mergeSort_perm children _).map _).nodup_iff, ← map_eq_of_forall₂ hnames,
    show (fun n : Definition × Nat => name.name ++ "_" ++ toString n.2) =
      (fun k => name.name ++ "_" ++ toString k) ∘ Prod.snd from rfl,
    ← List.map_map, List.zipIdx_map_snd]
  exact List.Nodup.map (numbered_injective (name.name ++ "_")) List.nodup_range'

/-- Inside a model, names start with its own and go on with indices. -/
theorem WellFormed.exists_indexSuffix (hreg : reg.WellFormed)
    (hbuild : (reg.build name).result = .ok m) (hn : n ∈ m.walk) :
    ∃ ks, n.name.name.toList = name.name.toList ++ indexSuffix ks := by
  induction m using Model.nested_induction generalizing name with
  | step m ih =>
    rcases Model.mem_walk.1 hn with rfl | ⟨c, hc, hn⟩
    · exact ⟨[], by simp [name_of_build hbuild, indexSuffix]⟩
    · obtain ⟨d, _, _, hm⟩ := hreg.builtFrom hbuild
      obtain ⟨inner, -, k, hcbuild⟩ := hm.of_mem_nested hc
      obtain ⟨ks, hks⟩ := ih c hc hcbuild hn
      exact ⟨k :: ks, by rw [hks, toList_nestedName, List.append_assoc]; simp [indexSuffix]⟩

theorem WellFormed.exists_indexSuffix_of_nested (hreg : reg.WellFormed)
    (hbuild : (reg.build name).result = .ok m) {c : Model} (hc : c ∈ m.nested) :
    ∃ k, c.name.name = name.name ++ "_" ++ toString k ∧ ∀ n ∈ c.walk,
      ∃ ks, n.name.name.toList = name.name.toList ++ indexSuffix (k :: ks) := by
  obtain ⟨d, _, _, hm⟩ := hreg.builtFrom hbuild
  obtain ⟨inner, -, k, hcbuild⟩ := hm.of_mem_nested hc
  refine ⟨k, by rw [name_of_build hcbuild]; rfl, fun n hn => ?_⟩
  obtain ⟨ks, hks⟩ := hreg.exists_indexSuffix hcbuild hn
  exact ⟨ks, by rw [hks, toList_nestedName, List.append_assoc]; simp [indexSuffix]⟩

theorem WellFormed.nodup_names (hreg : reg.WellFormed) (hbuild : (reg.build name).result = .ok m) :
    (m.walk.map (·.name.name)).Nodup := by
  induction m using Model.nested_induction generalizing name with
  | step m ih =>
    obtain ⟨d, _, _, hm⟩ := hreg.builtFrom hbuild
    rw [Model.walk_eq, List.map_cons, List.map_flatMap, List.nodup_cons, List.nodup_flatMap]
    refine ⟨fun hself => ?_, fun c hc => ?_, ?_⟩
    · -- the names inside are longer
      obtain ⟨c, hc, hself⟩ := List.mem_flatMap.1 hself
      obtain ⟨n, hn, heq⟩ := List.mem_map.1 hself
      obtain ⟨k, -, hinside⟩ := hreg.exists_indexSuffix_of_nested hbuild hc
      obtain ⟨ks, hks⟩ := hinside n hn
      rw [heq, name_of_build hbuild] at hks
      simp [indexSuffix_cons] at hks
    · obtain ⟨inner, -, k, hcbuild⟩ := hm.of_mem_nested hc
      exact ih c hc hcbuild
    · -- two nested models have different indices, and these come first
      refine (List.pairwise_map.1 hm.nodup_names).imp_of_mem fun {a b} ha hb hne => ?_
      obtain ⟨j, hj, hja⟩ := hreg.exists_indexSuffix_of_nested hbuild ha
      obtain ⟨k, hk, hkb⟩ := hreg.exists_indexSuffix_of_nested hbuild hb
      refine List.disjoint_left.2 fun {x} hxa hxb => ?_
      obtain ⟨p, hp, rfl⟩ := List.mem_map.1 hxa
      obtain ⟨q, hq, heq⟩ := List.mem_map.1 hxb
      obtain ⟨js, hjs⟩ := hja p hp
      obtain ⟨ks, hks⟩ := hkb q hq
      rw [heq, hjs] at hks
      have hjk := head_eq_of_indexSuffix_eq (List.append_cancel_left hks)
      exact hne (by rw [hj, hk, hjk])

/-- The names in a walk also differ from those with the ending of call boundaries. -/
theorem WellFormed.nodup_abiNames (hreg : reg.WellFormed)
    (hbuild : (reg.build name).result = .ok m) :
    (m.walk.map (·.name.name) ++ m.walk.map (·.name.name ++ abiEnding)).Nodup := by
  have hnames := hreg.nodup_names hbuild
  refine List.nodup_append.2 ⟨hnames, ?_, fun x hx y hy heq => ?_⟩
  · rw [show (fun n : Model => n.name.name ++ abiEnding) = (· ++ abiEnding) ∘ (·.name.name) from rfl,
      ← List.map_map]
    exact hnames.map fun x y h => (String.append_left_inj _).1 h
  · obtain ⟨p, hp, rfl⟩ := List.mem_map.1 hx
    obtain ⟨q, hq, rfl⟩ := List.mem_map.1 hy
    obtain ⟨js, hjs⟩ := hreg.exists_indexSuffix hbuild hp
    obtain ⟨ks, hks⟩ := hreg.exists_indexSuffix hbuild hq
    rw [heq, String.toList_append, hks, List.append_assoc] at hjs
    refine not_mem_indexSuffix (c := 'a') (by decide) (by decide) js ?_
    rw [← List.append_cancel_left hjs]
    simp [abiEnding]

/-! ### References to nested definitions -/

/-- **Names of models.**  In the walk of a built model all stand in one namespace, their names differ
from each other and from those with the ending of call boundaries, and a field of a nested definition
is written with the bare name of its model, which is the only one nested there that has its place. -/
theorem WellFormed.names_of_walk (hreg : reg.WellFormed) (hbuild : (reg.build name).result = .ok m) :
    (m.walk.map (·.name.name) ++ m.walk.map (·.name.name ++ abiEnding)).Nodup ∧
    ∀ n ∈ m.walk, n.name.space = m.name.space ∧
      ∀ f ∈ n.fields, ∀ t, f.2.base = .named t → t.place.isNested = true →
        ∃ c ∈ n.nested, c.name = t ∧ f.2.baseCode n.name.space = c.head.name ∧
          ∀ e ∈ n.nested, e.name.place = t.place → e = c := by
  refine ⟨hreg.nodup_abiNames hbuild, fun n hn => ?_⟩
  obtain ⟨hnbuild, hspace, -⟩ := hreg.build_of_mem_walk hbuild hn
  refine ⟨by rw [hspace, name_of_build hbuild], fun f hf t ht hnested => ?_⟩
  obtain ⟨d, _, _, hm⟩ := hreg.builtFrom hnbuild
  obtain ⟨c, hc, hcbuild⟩ := hreg.exists_nested_of_field hnbuild hf ht hnested
  have hname := name_of_build hcbuild
  refine ⟨c, hc, hname, ?_, fun e he heq => ?_⟩
  · obtain ⟨inner, hinner, k, hbuilt⟩ := hm.of_mem_nested hc
    have hcname := name_of_build hbuilt
    obtain ⟨_, _, _, hcm⟩ := hreg.builtFrom hbuilt
    have hinnerfound := hreg.find?_nested hm.found hinner
    have hstruct : t.category = .struct := by
      rw [← hname, hcname]
      obtain rfl := Option.some.inj (hcm.found.symm.trans hinnerfound)
      exact hcm.isStruct
    have hbare : t.codePath n.name.space = t.name := by
      rw [TypeName.codePath, Code.itemPath, if_pos]
      rw [← hname, hcname]
      rfl
    rw [FieldType.baseCode, ht]
    simp [Category.isNullable, hstruct, hbare, Model.head, hname]
  · refine List.inj_on_of_nodup_map (hreg.nodup_metadataName hnbuild) he hc ?_
    rw [Model.metadataName, Model.metadataName, heq, hname]

end Registry

/-- The union inside the sample is written with the name that its model declares. -/
theorem Sample.names_whole :
    (whole.walk.map (·.name.name) ++ whole.walk.map (·.name.name ++ abiEnding)).Nodup ∧
    ∃ c ∈ whole.nested, c.name = partName "_U" "A_0" ∧
      (FieldType.ofBase (.named c.name)).baseCode "N" = c.head.name := by
  obtain ⟨hnames, hfields⟩ :=
    (Registry.wellFormed_of_ofText ofText_whole).names_of_walk build_whole
  obtain ⟨c, hc, hname, hcode, -⟩ :=
    (hfields whole whole.self_mem_walk).2 _ (List.mem_singleton_self _) _ rfl rfl
  exact ⟨hnames, c, hc, hname, hname ▸ hcode⟩

end Bindery
