import Mathlib.Data.List.Nodup
import Bindery.Metadata.Reading
import Bindery.Model.Basic
import Bindery.Proofs.Sequence
/-!
# Places in a registry

How a place leads to a definition, and what every registry that is read from a text satisfies
(`WellFormed`): a place leads to one definition only, at the top level and inside every other
definition.
-/

namespace Bindery

/-! ### Finding a definition step by step -/

namespace Definition

theorem find?_append (d : Definition) (steps steps' : List String) :
    d.find? (steps ++ steps') = (d.find? steps).bind (·.find? steps') := by
  induction steps generalizing d with
  | nil => simp [find?]
  | cons step steps ih =>
    simp only [List.cons_append, find?]
    cases d.nested.find? (·.name = step) with
    | none => rfl
    | some n => exact ih n

theorem find?_singleton (d : Definition) (step : String) :
    d.find? [step] = d.nested.find? (·.name = step) := by
  simp only [find?]
  cases d.nested.find? (·.name = step) <;> rfl

/-- What is handed down to nested definitions, whatever is found inside has. -/
theorem of_find?_of_nested {P : Definition → Prop} (hnested : ∀ d n, P d → n ∈ d.nested → P n)
    {d n : Definition} (h : P d) {steps : List String} (hn : d.find? steps = some n) : P n := by
  induction steps generalizing d with
  | nil =>
    cases hn
    exact h
  | cons step steps ih =>
    obtain ⟨k, hk, hn⟩ := Option.bind_eq_some_iff.1 hn
    exact ih (hnested d k h (List.mem_of_find?_eq_some hk)) hn

/-- Definitions nested in the same one have different names, at every depth. -/
inductive Distinct : Definition → Prop
  | intro {d : Definition} (names : (d.nested.map (·.name)).Nodup)
      (inside : ∀ n ∈ d.nested, Distinct n) : Distinct d

theorem Distinct.names {d : Definition} (h : d.Distinct) : (d.nested.map (·.name)).Nodup := by
  cases h
  assumption

theorem Distinct.inside {d n : Definition} (h : d.Distinct) (hn : n ∈ d.nested) : n.Distinct := by
  cases h with
  | intro _ inside => exact inside n hn

theorem Distinct.find?_name {d n : Definition} (h : d.Distinct) (hn : n ∈ d.nested) :
    d.nested.find? (·.name = n.name) = some n := by
  have hsome : (d.nested.find? (·.name = n.name)).isSome := by
    rw [List.find?_isSome]
    exact ⟨n, hn, by simp⟩
  obtain ⟨k, hk⟩ := Option.isSome_iff_exists.1 hsome
  have hname : k.name = n.name := by simpa using List.find?_some hk
  rw [hk, List.inj_on_of_nodup_map h.names (List.mem_of_find?_eq_some hk) hn hname]

theorem Distinct.of_find? {d n : Definition} (h : d.Distinct) {steps : List String}
    (hn : d.find? steps = some n) : n.Distinct :=
  of_find?_of_nested (fun _ _ hd => hd.inside) h hn

theorem name_insert (inner : Definition) (steps : List String) (d : Definition) :
    (insert inner steps d).name = d.name := by
  cases steps <;> rfl

/-- A definition with a new name can be nested in another, however deep that one is inside. -/
theorem Distinct.insert {inner d outer : Definition} {steps : List String} (hd : d.Distinct)
    (hinner : inner.Distinct) (houter : d.find? steps = some outer)
    (hfresh : ∀ n ∈ outer.nested, n.name ≠ inner.name) : (insert inner steps d).Distinct := by
  induction steps generalizing d with
  | nil =>
    cases houter
    refine .intro ?_ fun n hn => ?_
    · rw [Definition.insert, List.map_append, List.map_singleton, ← List.concat_eq_append]
      refine hd.names.concat fun hmem => ?_
      obtain ⟨n, hn, hname⟩ := List.mem_map.1 hmem
      exact hfresh n hn hname
    · rcases List.mem_append.1 hn with hn | hn
      · exact hd.inside hn
      · rwa [List.mem_singleton.1 hn]
  | cons step steps ih =>
    obtain ⟨next, hnext, hrest⟩ := Option.bind_eq_some_iff.1 houter
    have hname : next.name = step := by simpa using List.find?_some hnext
    refine .intro ?_ fun n hn => ?_
    · have hnames : ((·.name) ∘ fun n : Definition =>
          if n.name = step then Definition.insert inner steps n else n) = (·.name) := by
        funext n
        simp only [Function.comp_apply]
        split
        · rw [name_insert]
        · rfl
      rw [Definition.insert, List.map_map, hnames]
      exact hd.names
    · obtain ⟨k, hk, rfl⟩ := List.mem_map.1 hn
      split
      · rename_i hstep
        -- the definition of this name is the one that is found
        obtain rfl : k = next := List.inj_on_of_nodup_map hd.names hk
          (List.mem_of_find?_eq_some hnext) (hstep.trans hname.symm)
        exact ih (hd.inside hk) hrest
      · exact hd.inside hk

end Definition

namespace Place

@[simp] theorem child_name (p : Place) (name : String) : (p.child name).name = name := by
  simp [Place.name, child]

theorem eq_of_isNested_eq_false {p : Place} (h : p.isNested = false) :
    p = ⟨p.space, p.root, []⟩ := by
  obtain ⟨space, root, steps⟩ := p
  simp only [isNested, Bool.not_eq_false', List.isEmpty_iff] at h
  rw [h]

/-- The place reached from another by further steps. -/
def within (p : Place) (steps : List String) : Place := { p with steps := p.steps ++ steps }

@[simp] theorem within_nil (p : Place) : p.within [] = p := by simp [within]

@[simp] theorem child_within (p : Place) (name : String) (steps : List String) :
    (p.child name).within steps = p.within (name :: steps) := by
  simp [within, child]

theorem top_or_child (p : Place) :
    p = ⟨p.space, p.root, []⟩ ∨ ∃ q name, p = Place.child q name := by
  obtain ⟨space, root, steps⟩ := p
  rcases List.eq_nil_or_concat' steps with rfl | ⟨init, last, rfl⟩
  · exact .inl rfl
  · exact .inr ⟨⟨space, root, init⟩, last, rfl⟩

end Place

namespace Registry

variable {reg : Registry} {p : Place} {d : Definition}

theorem find?_within (reg : Registry) (p : Place) (steps : List String) :
    reg.find? (p.within steps) = (reg.find? p).bind (·.find? steps) := by
  simp only [find?, Place.within, Definition.find?_append]
  cases reg.lookup? p.space p.root <;> rfl

theorem find?_child (reg : Registry) (p : Place) (name : String) :
    reg.find? (p.child name) = (reg.find? p).bind fun d => d.nested.find? (·.name = name) := by
  have hwithin := find?_within reg p [name]
  simp only [Definition.find?_singleton] at hwithin
  exact hwithin

theorem find?_top (reg : Registry) (space name : String) :
    reg.find? ⟨space, name, []⟩ = reg.lookup? space name := by
  simp only [find?]
  cases reg.lookup? space name <;> rfl

theorem mem_entries_of_lookup? {space name : String} (h : reg.lookup? space name = some d) :
    (⟨space, d⟩ : Entry) ∈ reg.entries ∧ d.name = name := by
  obtain ⟨e, he, rfl⟩ := Option.map_eq_some_iff.1 h
  have hkey : e.space = space ∧ e.definition.name = name := by simpa using List.find?_some he
  refine ⟨?_, hkey.2⟩
  rw [← hkey.1]
  exact List.mem_of_find?_eq_some he

theorem name_of_find? (h : reg.find? p = some d) : d.name = p.name := by
  rcases p.top_or_child with hp | ⟨q, name, rfl⟩
  · rw [hp, find?_top] at h
    rw [hp]
    exact (mem_entries_of_lookup? h).2
  · rw [find?_child] at h
    obtain ⟨outer, -, h⟩ := Option.bind_eq_some_iff.1 h
    rw [Place.child_name]
    simpa using List.find?_some h

/-! ### Well-formed registries -/

/-- A place leads to one definition only. -/
structure WellFormed (reg : Registry) : Prop where
  /-- Top-level definitions differ in namespace or name. -/
  topLevel : reg.topLevel.Nodup
  /-- Definitions nested in the same one differ in name. -/
  distinct : ∀ e ∈ reg.entries, e.definition.Distinct

/-- A top-level definition is found by its namespace and name. -/
theorem WellFormed.lookup?_eq_some_iff (hreg : reg.WellFormed) {space name : String} :
    reg.lookup? space name = some d ↔ (⟨space, d⟩ : Entry) ∈ reg.entries ∧ d.name = name := by
  constructor
  · exact mem_entries_of_lookup?
  · rintro ⟨hd, rfl⟩
    have hsome : (reg.lookup? space d.name).isSome := by
      rw [lookup?, Option.isSome_map, List.find?_isSome]
      exact ⟨_, hd, by simp⟩
    obtain ⟨k, hk⟩ := Option.isSome_iff_exists.1 hsome
    obtain ⟨hmem, hname⟩ := mem_entries_of_lookup? hk
    have hplace : (⟨space, k⟩ : Entry).place = (⟨space, d⟩ : Entry).place := by
      rw [Entry.place, Entry.place, hname]
    have heq := List.inj_on_of_nodup_map hreg.topLevel hmem hd hplace
    rw [hk, (Entry.mk.inj heq).2]

theorem WellFormed.distinct_of_find? (hreg : reg.WellFormed) (h : reg.find? p = some d) :
    d.Distinct := by
  obtain ⟨r, hr, h⟩ := Option.bind_eq_some_iff.1 h
  exact (hreg.distinct _ (mem_entries_of_lookup? hr).1).of_find? h

theorem WellFormed.find?_nested (hreg : reg.WellFormed) (h : reg.find? p = some d) {n : Definition}
    (hn : n ∈ d.nested) : reg.find? (p.child n.name) = some n := by
  rw [find?_child, h]
  exact (hreg.distinct_of_find? h).find?_name hn

end Registry

/-! ### All places -/

namespace Definition

variable {d : Definition} {p q : Place}

theorem places_eq (p : Place) (d : Definition) :
    d.places p = p :: d.nested.flatMap fun n => n.places (p.child n.name) := by
  have hnested (ds : List Definition) :
      nestedPlaces p ds = ds.flatMap fun n => n.places (p.child n.name) := by
    induction ds with
    | nil => rw [nestedPlaces, List.flatMap_nil]
    | cons n ds ih => rw [nestedPlaces, List.flatMap_cons, ih]
  obtain ⟨_, _, _, _, _, _, _, _, _, _, _, nested⟩ := d
  rw [places, hnested]

theorem mem_places_of_find?_steps {steps : List String} (h : (d.find? steps).isSome) :
    p.within steps ∈ d.places p := by
  induction steps generalizing d p with
  | nil =>
    rw [Place.within_nil, places_eq]
    exact List.mem_cons_self
  | cons step steps ih =>
    obtain ⟨k, hk⟩ := Option.isSome_iff_exists.1 h
    obtain ⟨n, hn, hsteps⟩ := Option.bind_eq_some_iff.1 hk
    obtain rfl : n.name = step := by simpa using List.find?_some hn
    have hinside := ih (p := p.child n.name) (Option.isSome_iff_exists.2 ⟨k, hsteps⟩)
    rw [Place.child_within] at hinside
    rw [places_eq]
    exact List.mem_cons_of_mem _ (List.mem_flatMap.2 ⟨n, List.mem_of_find?_eq_some hn, hinside⟩)

theorem Distinct.exists_within (h : d.Distinct) (hq : q ∈ d.places p) :
    ∃ steps n, q = p.within steps ∧ d.find? steps = some n := by
  induction h generalizing p with
  | @intro d names inside ih =>
    rw [places_eq, List.mem_cons, List.mem_flatMap] at hq
    rcases hq with rfl | ⟨n, hn, hq⟩
    · exact ⟨[], d, (Place.within_nil _).symm, rfl⟩
    · obtain ⟨steps, k, rfl, hk⟩ := ih n hn hq
      refine ⟨n.name :: steps, k, Place.child_within .., ?_⟩
      rw [find?, (Distinct.intro names inside).find?_name hn, Option.bind_some, hk]

theorem Distinct.nodup_places (h : d.Distinct) (p : Place) : (d.places p).Nodup := by
  induction h generalizing p with
  | @intro d names inside ih =>
    rw [places_eq, List.nodup_cons, List.nodup_flatMap]
    refine ⟨fun hself => ?_, fun n hn => ih n hn _, ?_⟩
    · obtain ⟨n, hn, hself⟩ := List.mem_flatMap.1 hself
      obtain ⟨steps, -, hsteps, -⟩ := (inside n hn).exists_within hself
      have hlength := congrArg (fun q : Place => q.steps.length) hsteps
      simp [Place.child, Place.within] at hlength
    · -- places inside two definitions differ in the first step
      refine (List.pairwise_map.1 names).imp_of_mem fun {a b} ha hb hne => ?_
      refine List.disjoint_left.2 fun {q} hqa hqb => hne ?_
      obtain ⟨steps, -, rfl, -⟩ := (inside a ha).exists_within hqa
      obtain ⟨steps', -, heq, -⟩ := (inside b hb).exists_within hqb
      have hsteps := congrArg Place.steps heq
      simp only [Place.child, Place.within, List.append_assoc, List.singleton_append] at hsteps
      exact (List.cons.inj (List.append_cancel_left hsteps)).1

end Definition

namespace Registry

variable {reg : Registry} {p : Place} {d : Definition}

theorem mem_places_of_find? (h : reg.find? p = some d) : p ∈ reg.places := by
  obtain ⟨root, hroot, hsteps⟩ := Option.bind_eq_some_iff.1 h
  obtain ⟨hentry, hname⟩ := mem_entries_of_lookup? hroot
  refine List.mem_flatMap.2 ⟨_, hentry, ?_⟩
  have hplace : p = (⟨p.space, root⟩ : Entry).place.within p.steps := by
    rw [Entry.place, hname]
    rfl
  rw [hplace]
  exact Definition.mem_places_of_find?_steps (Option.isSome_iff_exists.2 ⟨d, hsteps⟩)

theorem find?_eq_none_of_not_mem (hp : p ∉ reg.places) : reg.find? p = none := by
  by_contra hsome
  obtain ⟨d, hd⟩ := Option.ne_none_iff_exists'.1 hsome
  exact hp (mem_places_of_find? hd)

theorem WellFormed.nodup_places (hreg : reg.WellFormed) : reg.places.Nodup := by
  refine List.nodup_flatMap.2 ⟨fun e he => (hreg.distinct e he).nodup_places _, ?_⟩
  refine (List.pairwise_map.1 hreg.topLevel).imp_of_mem fun {a b} ha hb hne => ?_
  refine List.disjoint_left.2 fun {q} hqa hqb => hne ?_
  obtain ⟨steps, -, rfl, -⟩ := (hreg.distinct a ha).exists_within hqa
  obtain ⟨steps', -, heq, -⟩ := (hreg.distinct b hb).exists_within hqb
  have hspace := congrArg Place.space heq
  have hroot := congrArg Place.root heq
  exact (Place.mk.injEq ..).mpr ⟨hspace, hroot, rfl⟩

/-- A place inside a top-level definition leads to what is found inside that one. -/
theorem WellFormed.exists_find?_of_mem_places (hreg : reg.WellFormed) {e : Entry}
    (he : e ∈ reg.entries) (hp : p ∈ e.definition.places e.place) :
    ∃ steps d, p = e.place.within steps ∧ e.definition.find? steps = some d ∧
      reg.find? p = some d := by
  obtain ⟨steps, d, rfl, hd⟩ := (hreg.distinct e he).exists_within hp
  have hroot : reg.find? e.place = some e.definition := by
    rw [Entry.place, find?_top]
    exact hreg.lookup?_eq_some_iff.2 ⟨he, rfl⟩
  exact ⟨steps, d, rfl, hd, by rw [find?_within, hroot, Option.bind_some, hd]⟩

end Registry

/-! ### Reading keeps registries well-formed -/

namespace Source

variable {file : String} {winrt : Bool}

/-- A nested definition is read if its name is new, and what is nested in it before the rest. -/
theorem nestedOf_nested_eq_ok {p : Place} {earlier ds : List Definition}
    {attributes : List AttributeSource} {heading : Heading} {members rest : List Member} :
    (nestedOf file winrt p earlier (.nested attributes heading members :: rest)).result = .ok ds ↔
      ∃ d, heading.definition file attributes winrt members = .ok d ∧
        (∀ n ∈ earlier, n.name ≠ d.name) ∧
        ∃ inner, (nestedOf file winrt (p.child d.name) [] members).result = .ok inner ∧
          (nestedOf file winrt p (earlier ++ [{ d with nested := inner }]) rest).result = .ok ds := by
  rw [nestedOf, Traced.result_bind, bind_eq_ok', Traced.result_lift]
  refine exists_congr fun d => and_congr_right fun _ => ?_
  by_cases hfresh : ∀ n ∈ earlier, n.name ≠ d.name
  · rw [if_neg (by simpa using hfresh)]
    simp only [Traced.result_bind, bind_eq_ok']
    constructor
    · rintro ⟨-, -, h⟩
      exact ⟨hfresh, h⟩
    · rintro ⟨-, h⟩
      exact ⟨(), rfl, h⟩
  · rw [if_pos (by simpa using hfresh)]
    exact iff_of_false (by rintro ⟨⟩) fun h => hfresh h.1

theorem distinct_of_nestedOf {p : Place} {earlier ds : List Definition} {members : List Member}
    (hnames : (earlier.map (·.name)).Nodup) (hinside : ∀ d ∈ earlier, d.Distinct)
    (h : (nestedOf file winrt p earlier members).result = .ok ds) :
    (ds.map (·.name)).Nodup ∧ ∀ d ∈ ds, d.Distinct := by
  induction p, earlier, members using nestedOf.induct generalizing ds with
  | case1 p earlier =>
    rw [nestedOf] at h
    cases h
    exact ⟨hnames, hinside⟩
  | case2 p earlier attributes heading members rest ihInner ihRest =>
    obtain ⟨d, -, hfresh, inner, hinner, h⟩ := nestedOf_nested_eq_ok.1 h
    obtain ⟨hin, hin'⟩ := ihInner d (by simp) (by simp) hinner
    refine ihRest d inner ?_ ?_ h
    · rw [List.map_append, List.map_singleton, ← List.concat_eq_append]
      refine hnames.concat fun hmem => ?_
      obtain ⟨n, hn, hname⟩ := List.mem_map.1 hmem
      exact hfresh n hn hname
    · exact List.forall_mem_append.2 ⟨hinside, List.forall_mem_singleton.2 (.intro hin hin')⟩
  | case3 p earlier name type rest ih =>
    rw [nestedOf] at h
    exact ih hnames hinside h
  | case4 p earlier line name type value rest ih =>
    rw [nestedOf] at h
    exact ih hnames hinside h

theorem wellFormed_of_add {reg reg' : Registry} {space : String} {d : Definition}
    (hreg : reg.WellFormed) (hd : d.Distinct) (h : reg.add space d = .ok reg') :
    reg'.WellFormed := by
  unfold Registry.add at h
  split at h
  · cases h
  · rename_i hfresh
    cases h
    refine ⟨?_, fun e he => ?_⟩
    · rw [Registry.topLevel, List.map_append, List.map_singleton, List.nodup_append]
      refine ⟨hreg.topLevel, List.nodup_singleton _, fun p hp q hq e => hfresh ?_⟩
      obtain ⟨entry, hentry, rfl⟩ := List.mem_map.1 hp
      rw [List.mem_singleton.1 hq] at e
      simp only [Entry.place, Place.mk.injEq, and_true] at e
      rw [Registry.lookup?, Option.isSome_map, List.find?_isSome]
      exact ⟨entry, hentry, by simpa using e⟩
    · rcases List.mem_append.1 he with he | he
      · exact hreg.distinct e he
      · rw [List.mem_singleton.1 he]
        exact hd

theorem wellFormed_of_addNested {reg reg' : Registry} {p : Place} {d : Definition}
    (hreg : reg.WellFormed) (hd : d.Distinct) (h : reg.addNested p d = .ok reg') :
    reg'.WellFormed := by
  unfold Registry.addNested at h
  split at h
  · cases h
  · rename_i outer houter
    split at h
    · cases h
    · rename_i hfresh
      cases h
      refine ⟨?_, fun e he => ?_⟩
      · have hplaces : (Entry.place ∘ fun e : Entry =>
            if e.space = p.space && e.definition.name = p.root then
              { e with definition := Definition.insert d p.steps e.definition }
            else e) = Entry.place := by
          funext e
          simp only [Function.comp_apply]
          split
          · rw [Entry.place, Entry.place, Definition.name_insert]
          · rfl
        rw [Registry.topLevel, List.map_map, hplaces]
        exact hreg.topLevel
      · obtain ⟨k, hk, rfl⟩ := List.mem_map.1 he
        split
        · rename_i hkey
          obtain ⟨root, hroot, hsteps⟩ := Option.bind_eq_some_iff.1 houter
          obtain ⟨hentry, hname⟩ := Registry.mem_entries_of_lookup? hroot
          have hplace : k.place = (⟨p.space, root⟩ : Entry).place := by
            simp only [Bool.and_eq_true, decide_eq_true_eq] at hkey
            rw [Entry.place, Entry.place, hkey.1, hkey.2, hname]
          obtain rfl : k = ⟨p.space, root⟩ :=
            List.inj_on_of_nodup_map hreg.topLevel hk hentry hplace
          exact (hreg.distinct _ hentry).insert hd hsteps fun n hn hname => hfresh
            (List.any_eq_true.2 ⟨n, hn, by simpa using hname⟩)
        · exact hreg.distinct k hk

theorem wellFormed_of_enter {space : String} {reg reg' : Registry} {source : DefinitionSource}
    (hreg : reg.WellFormed) (h : (source.enter file space reg).result = .ok reg') :
    reg'.WellFormed := by
  unfold DefinitionSource.enter at h
  simp only [Traced.result_bind, Traced.result_lift, bind_eq_ok'] at h
  obtain ⟨d, -, -, -, -, -, nested, hnested, h⟩ := h
  obtain ⟨hnames, hinside⟩ := distinct_of_nestedOf (by simp) (by simp) hnested
  exact wellFormed_of_add hreg (.intro hnames hinside) h

end Source

namespace Registry

theorem wellFormed_empty : empty.WellFormed := ⟨by simp [topLevel, empty], by simp [empty]⟩

/-- What holds of the empty registry, and still when a definition of a text has been entered, holds of
the registry of the text. -/
theorem of_ofText {P : Registry → Prop} {file text : String} {reg : Registry} (hempty : P empty)
    (hstep : ∀ document, Source.read text.toList = .ok document → ∀ block ∈ document,
      ∀ source ∈ block.definitions, ∀ r r', P r →
        (source.enter file block.name.text r).result = .ok r' → P r')
    (h : (ofText file text).result = .ok reg) : P reg := by
  unfold ofText at h
  dsimp only at h
  split at h
  · rename_i document hread
    unfold ofDocument at h
    simp only [Traced.result_bind, bind_eq_ok', Traced.result_foldlM] at h
    obtain ⟨reg', hfold, -, -, h⟩ := h
    cases h
    refine foldlM_keeps P (fun block hblock r r' hr h => ?_) hempty hfold
    rw [Source.NamespaceSource.enter, Traced.result_foldlM] at h
    exact foldlM_keeps P (hstep document hread block hblock) hr h
  · cases h

/-- **Registries that are read.**  In the registry of a text, a place leads to one definition. -/
theorem wellFormed_of_ofText {file text : String} {reg : Registry}
    (h : (ofText file text).result = .ok reg) : reg.WellFormed :=
  of_ofText wellFormed_empty (fun _ _ _ _ _ _ _ _ hr h => Source.wellFormed_of_enter hr h) h

end Registry

/-! ### Samples -/

namespace Sample

/-- A struct or union of the namespace `N`, with fields that are declared on the first line of the
text `m`. -/
def entry (name : String) (isUnion : Bool) (fields : List (String × TypeExpr)) : Entry :=
  ⟨"N", ⟨name, .struct, fields.map fun f => ⟨f.1, .stored f.2, some 1⟩, [], isUnion, false, [], none,
    [], some "m", some 1, []⟩⟩

def nameOf (name : String) : TypeName := ⟨⟨"N", name, []⟩, .struct, false, "N", name⟩

end Sample

end Bindery
