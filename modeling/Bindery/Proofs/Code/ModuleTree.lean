import Mathlib
import Bindery.Code.File
/-!
# Trees of modules

The modules of a file as a tree: each holds models and further modules, one for each name.  The tree
of a list of models (`ModuleTree.ofModels`) has the modules of their namespaces and all modules on
the way there, no others, each once, and each model stands in the module of its namespace in the
given order (`isTreeOf_ofModels`).
-/

namespace Bindery

/-- The modules in which code declares a model, outermost first. -/
def Model.modulePath (m : Model) : List String := Code.modulePath m.name.space

namespace Code

/-- A module: the models that stand in it, and the modules inside it by name. -/
structure ModuleTree where
  models : List Model
  inner : List (String × ModuleTree)

namespace ModuleTree

def empty : ModuleTree := ⟨[], []⟩

/-- The inner modules after a change to the one of a name, which is made in its place if it is not
there. -/
def alter (segment : String) (f : ModuleTree → ModuleTree) :
    List (String × ModuleTree) → List (String × ModuleTree)
  | [] => [(segment, f empty)]
  | (s, t) :: rest =>
    if segment = s then (s, f t) :: rest
    else if segment < s then (segment, f empty) :: (s, t) :: rest
    else (s, t) :: alter segment f rest

/-- The tree with one more model in the module at a path, behind those that are there. -/
def insert (m : Model) : List String → ModuleTree → ModuleTree
  | [], t => { t with models := t.models ++ [m] }
  | s :: path, t => { t with inner := alter s (insert m path) t.inner }

/-- The tree of models, each in the module of its namespace. -/
def ofModels (models : List Model) : ModuleTree :=
  models.foldl (fun t m => t.insert m m.modulePath) empty

def find? : ModuleTree → List String → Option ModuleTree
  | t, [] => some t
  | t, s :: path => (t.inner.lookup s).bind (find? · path)

def modelsAt (t : ModuleTree) (path : List String) : List Model :=
  ((t.find? path).map (·.models)).getD []

mutual

/-- The paths of a module and of all modules inside it, each module before those inside it. -/
def paths : ModuleTree → List (List String)
  | ⟨_, inner⟩ => [] :: innerPaths inner

def innerPaths : List (String × ModuleTree) → List (List String)
  | [] => []
  | (s, t) :: rest => t.paths.map (s :: ·) ++ innerPaths rest

end

theorem paths_eq (t : ModuleTree) :
    t.paths = [] :: t.inner.flatMap fun e => e.2.paths.map (e.1 :: ·) := by
  have hinner (inner : List (String × ModuleTree)) :
      innerPaths inner = inner.flatMap fun e => e.2.paths.map (e.1 :: ·) := by
    induction inner with
    | nil => rw [innerPaths, List.flatMap_nil]
    | cons e inner ih =>
      obtain ⟨s, t⟩ := e
      rw [innerPaths, List.flatMap_cons, ih]
  obtain ⟨models, inner⟩ := t
  rw [paths, hinner]

theorem sizeOf_lt_of_mem_inner {t : ModuleTree} {e : String × ModuleTree} (h : e ∈ t.inner) :
    sizeOf e.2 < sizeOf t := by
  obtain ⟨models, inner⟩ := t
  obtain ⟨s, c⟩ := e
  have hsize := List.sizeOf_lt_of_mem h
  simp only [Prod.mk.sizeOf_spec, mk.sizeOf_spec] at hsize ⊢
  omega

theorem inner_induction {P : ModuleTree → Prop} (step : ∀ t, (∀ e ∈ t.inner, P e.2) → P t)
    (t : ModuleTree) : P t := by
  induction t using (measure (fun t : ModuleTree => sizeOf t)).wf.induction with
  | h t ih => exact step t fun e he => ih e.2 (sizeOf_lt_of_mem_inner he)

/-! ### Modules in order -/

/-- Inner modules stand in the order of their names, each once, at every depth. -/
inductive Ordered : ModuleTree → Prop
  | intro {t : ModuleTree} (names : (t.inner.map (·.1)).Pairwise (· < ·))
      (inside : ∀ e ∈ t.inner, Ordered e.2) : Ordered t

namespace Ordered

variable {t : ModuleTree}

theorem names (h : t.Ordered) : (t.inner.map (·.1)).Pairwise (· < ·) := by
  cases h
  assumption

theorem inside (h : t.Ordered) {e : String × ModuleTree} (he : e ∈ t.inner) : e.2.Ordered := by
  cases h with
  | intro _ inside => exact inside e he

end Ordered

theorem ordered_empty : empty.Ordered := .intro .nil (by simp [empty])

section alter

variable {s : String} {f : ModuleTree → ModuleTree} {l : List (String × ModuleTree)}

theorem mem_names_alter {x : String} (h : x ∈ (alter s f l).map (·.1)) :
    x = s ∨ x ∈ l.map (·.1) := by
  induction l with
  | nil => simpa [alter] using h
  | cons e l ih =>
    obtain ⟨r, t⟩ := e
    rw [alter] at h
    split at h
    · exact .inr h
    · split at h
      · rcases List.mem_cons.1 h with rfl | h
        · exact .inl rfl
        · exact .inr h
      · rcases List.mem_cons.1 h with rfl | h
        · exact .inr List.mem_cons_self
        · exact (ih h).imp_right (List.mem_cons_of_mem _)

theorem pairwise_alter (h : (l.map (·.1)).Pairwise (· < ·)) :
    ((alter s f l).map (·.1)).Pairwise (· < ·) := by
  induction l with
  | nil => simp [alter]
  | cons e l ih =>
    obtain ⟨r, t⟩ := e
    rw [List.map_cons, List.pairwise_cons] at h
    rw [alter]
    split
    · exact List.pairwise_cons.2 h
    · rename_i hne
      split
      · rename_i hlt
        refine List.pairwise_cons.2 ⟨fun x hx => ?_, List.pairwise_cons.2 h⟩
        rcases List.mem_cons.1 hx with rfl | hx
        · exact hlt
        · exact lt_trans hlt (h.1 x hx)
      · rename_i hle
        have hlt : r < s := lt_of_le_of_ne (not_lt.1 hle) (Ne.symm hne)
        refine List.pairwise_cons.2 ⟨fun x hx => ?_, ih h.2⟩
        rcases mem_names_alter hx with rfl | hx
        · exact hlt
        · exact h.1 x hx

theorem lookup_cons_eq (x r : String) (t : ModuleTree) :
    ((r, t) :: l).lookup x = if x = r then some t else l.lookup x := by
  by_cases hx : x = r
  · simp [hx]
  · rw [List.lookup_cons, beq_eq_false_iff_ne.2 hx, if_neg hx]

theorem lookup_alter (h : (l.map (·.1)).Pairwise (· < ·)) (x : String) :
    (alter s f l).lookup x = if x = s then some (f ((l.lookup s).getD empty)) else l.lookup x := by
  induction l with
  | nil =>
    rw [alter, lookup_cons_eq]
    rfl
  | cons e l ih =>
    obtain ⟨r, t⟩ := e
    rw [List.map_cons, List.pairwise_cons] at h
    rw [alter]
    split
    · rename_i heq
      subst heq
      rw [lookup_cons_eq, lookup_cons_eq, lookup_cons_eq, if_pos rfl, Option.getD_some]
      by_cases hx : x = s <;> simp [hx]
    · rename_i hne
      split
      · rename_i hlt
        -- a module of this name would stand further in front
        have hnone : l.lookup s = none := List.lookup_eq_none_iff.2 fun e he => by
          have hlt' : s < e.1 := lt_trans hlt (h.1 e.1 (List.mem_map_of_mem he))
          simpa using ne_of_lt hlt'
        rw [lookup_cons_eq, lookup_cons_eq s, if_neg hne, hnone, Option.getD_none]
      · rw [lookup_cons_eq, lookup_cons_eq, lookup_cons_eq, ih h.2, if_neg hne]
        by_cases hx : x = r
        · rw [if_pos hx, if_neg (hx ▸ Ne.symm hne), if_pos hx]
        · rw [if_neg hx, if_neg hx]

theorem mem_alter {e : String × ModuleTree} (h : e ∈ alter s f l) :
    e ∈ l ∨ ∃ t, e.2 = f t ∧ (t = empty ∨ ∃ r, (r, t) ∈ l) := by
  induction l with
  | nil =>
    rw [alter, List.mem_singleton] at h
    exact .inr ⟨empty, by rw [h], .inl rfl⟩
  | cons e' l ih =>
    obtain ⟨r, t⟩ := e'
    rw [alter] at h
    split at h
    · rcases List.mem_cons.1 h with rfl | h
      · exact .inr ⟨t, rfl, .inr ⟨r, List.mem_cons_self⟩⟩
      · exact .inl (List.mem_cons_of_mem _ h)
    · split at h
      · rcases List.mem_cons.1 h with rfl | h
        · exact .inr ⟨empty, rfl, .inl rfl⟩
        · exact .inl h
      · rcases List.mem_cons.1 h with rfl | h
        · exact .inl List.mem_cons_self
        · rcases ih h with h | ⟨c, hc, rfl | ⟨r', hr'⟩⟩
          · exact .inl (List.mem_cons_of_mem _ h)
          · exact .inr ⟨empty, hc, .inl rfl⟩
          · exact .inr ⟨c, hc, .inr ⟨r', List.mem_cons_of_mem _ hr'⟩⟩

end alter

theorem Ordered.insert {t : ModuleTree} (h : t.Ordered) (m : Model) (path : List String) :
    (t.insert m path).Ordered := by
  induction path generalizing t with
  | nil => exact .intro h.names fun e he => h.inside he
  | cons s path ih =>
    refine .intro (pairwise_alter h.names) fun e he => ?_
    rcases mem_alter he with he | ⟨c, hc, rfl | ⟨r, hr⟩⟩
    · exact h.inside he
    · rw [hc]
      exact ih ordered_empty
    · rw [hc]
      exact ih (h.inside hr)

/-! ### Finding modules -/

namespace Ordered

variable {t : ModuleTree}

theorem mem_inner_iff (h : t.Ordered) {s : String} {c : ModuleTree} :
    (s, c) ∈ t.inner ↔ t.inner.lookup s = some c := by
  constructor
  · intro he
    obtain ⟨before, after, hsplit⟩ := List.append_of_mem he
    refine List.lookup_eq_some_iff.2 ⟨before, after, hsplit, fun x hx => ?_⟩
    have hnames := h.names
    rw [hsplit, List.map_append, List.pairwise_append] at hnames
    have hlt : x.1 < s := hnames.2.2 x.1 (List.mem_map_of_mem hx) s (by simp)
    simpa using ne_of_gt hlt
  · intro he
    obtain ⟨before, after, hsplit, -⟩ := List.lookup_eq_some_iff.1 he
    rw [hsplit]
    simp

theorem mem_paths_iff (h : t.Ordered) {path : List String} :
    path ∈ t.paths ↔ (t.find? path).isSome := by
  induction path generalizing t with
  | nil =>
    rw [paths_eq]
    simp [find?]
  | cons s path ih =>
    rw [paths_eq, find?, List.mem_cons]
    constructor
    · rintro (hnil | hmem)
      · cases hnil
      · obtain ⟨e, he, hpath⟩ := List.mem_flatMap.1 hmem
        obtain ⟨p, hp, heq⟩ := List.mem_map.1 hpath
        cases heq
        rw [h.mem_inner_iff.1 he]
        exact (ih (h.inside he)).1 hp
    · intro hfind
      cases hlookup : t.inner.lookup s with
      | none => simp [hlookup] at hfind
      | some c =>
        have he : (s, c) ∈ t.inner := h.mem_inner_iff.2 hlookup
        rw [hlookup] at hfind
        exact .inr (List.mem_flatMap.2 ⟨(s, c), he, List.mem_map_of_mem ((ih (h.inside he)).2 hfind)⟩)

theorem pairwise_paths (h : t.Ordered) : t.paths.Pairwise (· < ·) := by
  induction t using inner_induction with
  | step t ih =>
    rw [paths_eq, List.pairwise_cons, List.pairwise_flatMap]
    refine ⟨fun p hp => ?_, fun e he => ?_, ?_⟩
    · obtain ⟨e, -, hp⟩ := List.mem_flatMap.1 hp
      obtain ⟨q, -, rfl⟩ := List.mem_map.1 hp
      exact List.nil_lt_cons _ _
    · refine List.pairwise_map.2 ((ih e he (h.inside he)).imp fun hlt => ?_)
      exact List.cons_lt_cons_iff.2 (.inr ⟨rfl, hlt⟩)
    · refine (List.pairwise_map.1 h.names).imp fun hlt p hp q hq => ?_
      obtain ⟨p, -, rfl⟩ := List.mem_map.1 hp
      obtain ⟨q, -, rfl⟩ := List.mem_map.1 hq
      exact List.cons_lt_cons_iff.2 (.inl hlt)

theorem modelsAt_inner (h : t.Ordered) {e : String × ModuleTree} (he : e ∈ t.inner)
    (path : List String) : t.modelsAt (e.1 :: path) = e.2.modelsAt path := by
  rw [modelsAt, find?, h.mem_inner_iff.1 he]
  rfl

end Ordered

/-! ### Insertion -/

theorem isSome_find?_empty {path : List String} : (empty.find? path).isSome ↔ path = [] := by
  cases path <;> simp [find?, empty]

/-- Insertion makes the modules on the way to its path. -/
theorem isSome_find?_insert {t : ModuleTree} (h : t.Ordered) (m : Model) (path p : List String) :
    ((t.insert m path).find? p).isSome ↔ (t.find? p).isSome ∨ p <+: path := by
  induction path generalizing t p with
  | nil => cases p <;> simp [insert, find?]
  | cons s path ih =>
    cases p with
    | nil => simp [find?]
    | cons r p =>
      rw [insert, find?, find?, lookup_alter h.names]
      by_cases hr : r = s
      · subst hr
        rw [if_pos rfl, Option.bind_some, List.cons_prefix_cons]
        cases hlookup : t.inner.lookup r with
        | none =>
          rw [Option.getD_none, ih ordered_empty, isSome_find?_empty]
          constructor
          · rintro (rfl | hp)
            · exact .inr ⟨rfl, List.nil_prefix⟩
            · exact .inr ⟨rfl, hp⟩
          · rintro (hp | ⟨-, hp⟩)
            · simp at hp
            · exact .inr hp
        | some c =>
          rw [Option.getD_some, ih (h.inside (h.mem_inner_iff.2 hlookup))]
          simp
      · simp [hr]

/-- Insertion adds to the models of its path, and to no others. -/
theorem modelsAt_insert {t : ModuleTree} (h : t.Ordered) (m : Model) (path p : List String) :
    (t.insert m path).modelsAt p = if path = p then t.modelsAt p ++ [m] else t.modelsAt p := by
  induction path generalizing t p with
  | nil => cases p <;> simp [insert, modelsAt, find?]
  | cons s path ih =>
    cases p with
    | nil => simp [insert, modelsAt, find?]
    | cons r p =>
      have hinsert : (t.insert m (s :: path)).modelsAt (r :: p) =
          if r = s then (((t.inner.lookup s).getD empty).insert m path).modelsAt p
          else t.modelsAt (r :: p) := by
        simp only [modelsAt, insert, find?, lookup_alter h.names]
        by_cases hr : r = s
        · rw [if_pos hr, if_pos hr]
          rfl
        · rw [if_neg hr, if_neg hr]
      rw [hinsert]
      by_cases hr : r = s
      · subst hr
        rw [if_pos rfl]
        have hbelow : ((t.inner.lookup r).getD empty).modelsAt p = t.modelsAt (r :: p) := by
          rw [modelsAt, modelsAt, find?]
          cases hlookup : t.inner.lookup r with
          | none => cases p <;> simp [find?, empty]
          | some c => rfl
        have hordered : ((t.inner.lookup r).getD empty).Ordered := by
          cases hlookup : t.inner.lookup r with
          | none => exact ordered_empty
          | some c => exact h.inside (h.mem_inner_iff.2 hlookup)
        rw [ih hordered, hbelow]
        simp
      · rw [if_neg hr, if_neg (by simp [Ne.symm hr])]

/-! ### The tree of models -/

/-- The tree of the modules of some models: it has the modules of their namespaces and all modules on
the way there, no others, each once and in order, and each model in its module. -/
structure IsTreeOf (models : List Model) (t : ModuleTree) : Prop where
  ordered : t.Ordered
  once : t.paths.Nodup
  mem_paths : ∀ p, p ∈ t.paths ↔ p = [] ∨ ∃ m ∈ models, p <+: m.modulePath
  modelsAt : ∀ p, t.modelsAt p = models.filter (·.modulePath = p)

theorem isTreeOf_ofModels (models : List Model) : IsTreeOf models (ofModels models) := by
  suffices h : (ofModels models).Ordered ∧
      (∀ p, ((ofModels models).find? p).isSome ↔ p = [] ∨ ∃ m ∈ models, p <+: m.modulePath) ∧
      ∀ p, (ofModels models).modelsAt p = models.filter (·.modulePath = p) by
    obtain ⟨hordered, hpaths, hmodels⟩ := h
    exact ⟨hordered, hordered.pairwise_paths.imp fun hlt => ne_of_lt hlt,
      fun p => hordered.mem_paths_iff.trans (hpaths p), hmodels⟩
  unfold ofModels
  induction models using List.reverseRecOn with
  | nil =>
    refine ⟨ordered_empty, fun p => by simp [isSome_find?_empty], fun p => ?_⟩
    cases p <;> rfl
  | append_singleton models m ih =>
    obtain ⟨hordered, hpaths, hmodels⟩ := ih
    rw [List.foldl_append, List.foldl_cons, List.foldl_nil]
    refine ⟨hordered.insert m _, fun p => ?_, fun p => ?_⟩
    · rw [isSome_find?_insert hordered, hpaths]
      simp [or_and_right, exists_or, or_assoc]
    · rw [modelsAt_insert hordered, hmodels, List.filter_append]
      by_cases hp : m.modulePath = p <;> simp [hp]

theorem mem_modelsAt {models : List Model} {path : List String} {m : Model} :
    m ∈ (ofModels models).modelsAt path ↔ m ∈ models ∧ m.modulePath = path := by
  rw [(isTreeOf_ofModels models).modelsAt, List.mem_filter, decide_eq_true_eq]

end ModuleTree

end Code

end Bindery
