import Bindery.Proofs.Code.ModuleTree
import Bindery.Proofs.Sequence
/-!
# Files as trees of modules

A file is written module by module in the order of their paths, and between two modules only those
that they do not share are closed and opened.  What comes out is the tree of modules, written from
the outside to the inside (`fileText_eq_render`): paths that begin alike follow each other in this
order, so no module is opened twice.
-/

namespace Bindery.Code

/-! ### Lines at a depth -/

/-- A line behind four blanks for each module around it; an empty line stays empty. -/
def shifted (depth : Nat) (line : String) : String :=
  if line = "" then "" else .ofList (List.replicate (4 * depth) ' ') ++ line

theorem toList_indentTo (depth : Nat) :
    (indentTo depth).toList = List.replicate (4 * depth) ' ' := by
  rw [indentTo, String.toList_join]
  induction depth with
  | zero => rfl
  | succ depth ih =>
    rw [List.replicate_succ, List.flatMap_cons, ih, Nat.mul_succ, Nat.add_comm, List.replicate_add]
    rfl

theorem indentTo_append {line : String} (h : line ≠ "") (depth : Nat) :
    indentTo depth ++ line = shifted depth line := by
  rw [shifted, if_neg h, ← toList_indentTo, String.ofList_toList]

theorem lineAt_eq_shifted (depth : Nat) : lineAt depth = shifted depth := by
  funext line
  by_cases h : line = ""
  · rw [lineAt, shifted, if_pos h, if_pos h, h]
  · rw [lineAt, if_neg h, indentTo_append h]

theorem opening_ne_empty (segment : String) : "pub mod " ++ segment ++ " \x7b" ≠ "" := by
  simp [← String.toList_inj]

/-! ### The lines of a tree -/

namespace ModuleTree

mutual

/-- The lines of a module at a depth: those of its models, then each module inside it, between the
line that opens it and the line that closes it. -/
def render (lines : Model → List String) (depth : Nat) : ModuleTree → List String
  | ⟨models, inner⟩ =>
    (models.flatMap lines).map (shifted depth) ++ renderInner lines depth inner

def renderInner (lines : Model → List String) (depth : Nat) :
    List (String × ModuleTree) → List String
  | [] => []
  | (s, t) :: rest =>
    shifted depth ("pub mod " ++ s ++ " \x7b") :: render lines (depth + 1) t ++
      shifted depth "\x7d" :: renderInner lines depth rest

end

theorem render_eq (lines : Model → List String) (depth : Nat) (t : ModuleTree) :
    t.render lines depth =
      (t.models.flatMap lines).map (shifted depth) ++ renderInner lines depth t.inner := by
  obtain ⟨models, inner⟩ := t
  rw [render]

/-- The modules of a tree in which models stand, by their paths. -/
def entries (t : ModuleTree) : List (List String × List Model) :=
  (t.paths.filter (t.modelsAt · ≠ [])).map fun p => (p, t.modelsAt p)

/-- Every module holds a model or leads to one. -/
def Occupied (t : ModuleTree) : Prop := ∀ p ∈ t.paths, ∃ q, t.modelsAt (p ++ q) ≠ []

variable {t : ModuleTree}

theorem entries_eq (h : t.Ordered) :
    t.entries = (if t.models = [] then [] else [([], t.models)]) ++
      t.inner.flatMap fun e => e.2.entries.map fun x => (e.1 :: x.1, x.2) := by
  have hroot : t.modelsAt [] = t.models := rfl
  have hinner : (((t.inner.flatMap fun e => e.2.paths.map (e.1 :: ·)).filter
        (t.modelsAt · ≠ [])).map fun p => (p, t.modelsAt p)) =
      t.inner.flatMap fun e => e.2.entries.map fun x => (e.1 :: x.1, x.2) := by
    rw [List.filter_flatMap, List.map_flatMap]
    refine List.flatMap_congr fun e he => ?_
    have hmodels (p : List String) : t.modelsAt (e.1 :: p) = e.2.modelsAt p :=
      h.modelsAt_inner he p
    rw [List.filter_map, List.map_map, entries, List.map_map]
    simp only [Function.comp_def, hmodels]
  rw [entries, paths_eq, ← hinner]
  by_cases hempty : t.models = []
  · rw [List.filter_cons_of_neg (by simp [hroot, hempty]), if_pos hempty, List.nil_append]
  · rw [List.filter_cons_of_pos (by simp [hroot, hempty]), if_neg hempty, List.map_cons, hroot]
    rfl

theorem Occupied.inside (h : t.Occupied) (hordered : t.Ordered) {e : String × ModuleTree}
    (he : e ∈ t.inner) : e.2.Occupied := by
  intro p hp
  have hmem : e.1 :: p ∈ t.paths := by
    rw [paths_eq]
    exact List.mem_cons_of_mem _ (List.mem_flatMap.2 ⟨e, he, List.mem_map_of_mem hp⟩)
  obtain ⟨q, hq⟩ := h _ hmem
  refine ⟨q, ?_⟩
  rwa [List.cons_append, hordered.modelsAt_inner he] at hq

theorem modelsAt_of_find?_eq_none {p : List String} (h : t.find? p = none) : t.modelsAt p = [] := by
  rw [modelsAt, h]
  rfl

theorem Occupied.entries_ne_nil (h : t.Occupied) (hordered : t.Ordered) : t.entries ≠ [] := by
  obtain ⟨q, hq⟩ := h [] (by rw [paths_eq]; exact List.mem_cons_self)
  rw [List.nil_append] at hq
  have hfound : (t.find? q).isSome := by
    rw [Option.isSome_iff_ne_none]
    exact fun hnone => hq (modelsAt_of_find?_eq_none hnone)
  refine List.ne_nil_of_mem (List.mem_map_of_mem (List.mem_filter.2 ⟨?_, decide_eq_true hq⟩))
  exact hordered.mem_paths_iff.2 hfound

end ModuleTree

/-! ### From one module to the next -/

theorem closing_self (depth : Nat) : closing depth depth = [] := by simp [closing]

theorem closing_of_lt {keep depth : Nat} (h : keep < depth) :
    closing keep depth = closing (keep + 1) depth ++ [shifted keep "\x7d"] := by
  obtain ⟨k, rfl⟩ := Nat.exists_eq_add_of_lt h
  rw [← indentTo_append (by decide)]
  have hlong : keep + k + 1 - keep = k + 1 := by omega
  have hshort : keep + k + 1 - (keep + 1) = k := by omega
  simp [closing, hlong, hshort, List.range'_succ]

theorem opening_cons (depth : Nat) (s : String) (segments : List String) :
    opening depth (s :: segments) =
      shifted depth ("pub mod " ++ s ++ " \x7b") :: opening (depth + 1) segments := by
  rw [← indentTo_append (opening_ne_empty s), ← String.append_assoc, ← String.append_assoc]
  simp [opening, List.mapIdx_cons, Nat.add_assoc, Nat.add_comm 1]

theorem sharedDepth_append (path source target : List String) :
    sharedDepth (path ++ source) (path ++ target) = path.length + sharedDepth source target := by
  induction path with
  | nil => simp
  | cons s path ih =>
    simp only [List.cons_append, sharedDepth, if_pos, ih, List.length_cons]
    omega

theorem moduleChange_append (path source target : List String)
    (h : sharedDepth source target = 0) :
    moduleChange (path ++ source) (path ++ target) =
      closing path.length (path ++ source).length ++ opening path.length target := by
  rw [moduleChange, sharedDepth_append, h]
  simp

theorem sharedDepth_cons_eq_zero {source : List String} {s : String}
    (h : ¬ [s] <+: source) (target : List String) : sharedDepth source (s :: target) = 0 := by
  cases source with
  | nil => rfl
  | cons r source =>
    have hne : r ≠ s := by
      rintro rfl
      exact h (by simp)
    rw [sharedDepth, if_neg hne]

/-- Entering a module: what is open inside its surroundings is closed, and the module is opened. -/
theorem moduleChange_enter {path source : List String} {s : String} (h : ¬ [s] <+: source)
    (target : List String) :
    moduleChange (path ++ source) (path ++ [s] ++ target) =
      closing path.length (path ++ source).length ++
        shifted path.length ("pub mod " ++ s ++ " \x7b") ::
          moduleChange (path ++ [s]) (path ++ [s] ++ target) := by
  have hopened := moduleChange_append (path ++ [s]) [] target (by cases target <;> rfl)
  rw [List.append_nil, closing_self, List.nil_append, List.length_append, List.length_singleton]
    at hopened
  rw [hopened, ← opening_cons, List.append_assoc, List.singleton_append]
  exact moduleChange_append _ _ _ (sharedDepth_cons_eq_zero h _)

/-! ### The walk through a tree -/

namespace ModuleTree

variable {lines : Model → List String} {t : ModuleTree}

/-- The lines of the modules of a tree that stands at a path. -/
def entriesAt (lines : Model → List String) (path : List String) (t : ModuleTree) :
    List (List String × List String) :=
  t.entries.map fun e => (path ++ e.1, e.2.flatMap lines)

theorem entriesAt_eq (h : t.Ordered) (path : List String) :
    entriesAt lines path t =
      (if t.models = [] then [] else [(path, t.models.flatMap lines)]) ++
        t.inner.flatMap fun e => entriesAt lines (path ++ [e.1]) e.2 := by
  have hmodels : ((if t.models = [] then [] else [([], t.models)]).map
      fun e : List String × List Model => (path ++ e.1, e.2.flatMap lines)) =
      if t.models = [] then [] else [(path, t.models.flatMap lines)] := by
    split <;> simp
  rw [entriesAt, entries_eq h, List.map_append, hmodels, List.map_flatMap]
  congr 1
  refine List.flatMap_congr fun e _ => ?_
  simp [entriesAt, List.map_map, Function.comp_def]

/-- The walk through a tree at the path `path` with that path open ends with the path `last` open and
has, closed up to `path`, the lines `rendered`. -/
def Walks (path : List String) (modules : List (List String × List String)) (start : List String)
    (rendered : List String) : Prop :=
  ∃ last body, path <+: last ∧ rendered = body ++ closing path.length last.length ∧
    ∀ rest, moduleLines start (modules ++ rest) = body ++ moduleLines last rest

/-- The modules inside one are walked through one after the other, whatever is open of those before
them. -/
theorem walks_inner {path start : List String} {inner : List (String × ModuleTree)}
    (hwalks : ∀ e ∈ inner, Walks (path ++ [e.1]) (entriesAt lines (path ++ [e.1]) e.2)
      (path ++ [e.1]) (e.2.render lines (path.length + 1)))
    (hentries : ∀ e ∈ inner, e.2.entries ≠ []) (hnames : (inner.map (·.1)).Nodup)
    (hstart : path <+: start) (hfresh : ∀ e ∈ inner, ¬ path ++ [e.1] <+: start) :
    Walks path (inner.flatMap fun e => entriesAt lines (path ++ [e.1]) e.2) start
      (closing path.length start.length ++ renderInner lines path.length inner) := by
  induction inner generalizing start with
  | nil => exact ⟨start, [], hstart, by simp [renderInner], fun rest => rfl⟩
  | cons e inner ih =>
    obtain ⟨s, c⟩ := e
    rw [List.map_cons, List.nodup_cons] at hnames
    obtain ⟨middle, body, hmiddle, hrendered, hwalk⟩ := hwalks (s, c) List.mem_cons_self
    have hmiddle' : path <+: middle := (List.prefix_append _ _).trans hmiddle
    obtain ⟨last, others, hlast, hothers, hrest⟩ := ih
      (fun x hx => hwalks x (List.mem_cons_of_mem _ hx))
      (fun x hx => hentries x (List.mem_cons_of_mem _ hx)) hnames.2 hmiddle' fun x hx hprefix => by
        -- two segments at one place of a path are the same
        have hsame := List.prefix_of_prefix_length_le hprefix hmiddle (by simp)
        have hseg : x.1 = s := by simpa using hsame
        exact hnames.1 (List.mem_map.2 ⟨x, hx, hseg⟩)
    refine ⟨last, closing path.length start.length ++
      shifted path.length ("pub mod " ++ s ++ " \x7b") :: body ++ others, hlast, ?_, ?_⟩
    · have hdepth : path.length < middle.length := by
        simpa using hmiddle.length_le
      have hclosed : closing path.length middle.length =
          closing (path.length + 1) middle.length ++ [shifted path.length "\x7d"] :=
        closing_of_lt hdepth
      rw [hclosed] at hothers
      rw [renderInner, hrendered]
      simp only [List.length_append, List.length_singleton, List.cons_append, List.append_assoc,
        List.nil_append] at hothers ⊢
      rw [← hothers]
    · intro rest
      obtain ⟨first, tail, hfirst⟩ := List.exists_cons_of_ne_nil (hentries (s, c) List.mem_cons_self)
      obtain ⟨source, rfl⟩ := hstart
      have hsource : ¬ [s] <+: source := fun h =>
        hfresh (s, c) List.mem_cons_self ((List.prefix_append_right_inj path).2 h)
      have henter (modules : List (List String × List String)) :
          moduleLines (path ++ source) (entriesAt lines (path ++ [s]) c ++ modules) =
            closing path.length (path ++ source).length ++
              shifted path.length ("pub mod " ++ s ++ " \x7b") ::
                moduleLines (path ++ [s]) (entriesAt lines (path ++ [s]) c ++ modules) := by
        rw [entriesAt, hfirst, List.map_cons, List.cons_append, moduleLines, moduleLines,
          moduleChange_enter hsource]
        simp
      rw [List.flatMap_cons, List.append_assoc, henter, hwalk, hrest]
      simp

theorem walks_entriesAt (hordered : t.Ordered) (hoccupied : t.Occupied) (path : List String) :
    Walks path (entriesAt lines path t) path (t.render lines path.length) := by
  induction t using inner_induction generalizing path with
  | step t ih =>
    have hinside : ∀ e ∈ t.inner, Walks (path ++ [e.1]) (entriesAt lines (path ++ [e.1]) e.2)
        (path ++ [e.1]) (e.2.render lines (path.length + 1)) := by
      intro e he
      have hwalks := ih e he (hordered.inside he) (hoccupied.inside hordered he) (path ++ [e.1])
      rwa [List.length_append, List.length_singleton] at hwalks
    obtain ⟨last, body, hlast, hrendered, hwalk⟩ := walks_inner hinside
      (fun e he => (hoccupied.inside hordered he).entries_ne_nil (hordered.inside he))
      (hordered.names.imp fun hlt => ne_of_lt hlt) List.prefix_rfl
      (fun e _ hprefix => by simpa using hprefix.length_le)
    have hchange : moduleChange path path = [] := by
      have := moduleChange_append path [] [] rfl
      simpa [closing_self, opening] using this
    rw [closing_self, List.nil_append] at hrendered
    refine ⟨last, (t.models.flatMap lines).map (shifted path.length) ++ body, hlast, ?_, ?_⟩
    · rw [render_eq, hrendered, List.append_assoc]
    · intro rest
      rw [entriesAt_eq hordered, List.append_assoc]
      by_cases hempty : t.models = []
      · rw [if_pos hempty, hempty, List.nil_append, hwalk]
        rfl
      · rw [if_neg hempty, List.singleton_append, moduleLines, hchange, hwalk, lineAt_eq_shifted]
        simp

theorem moduleLines_entriesAt (hordered : t.Ordered) (hoccupied : t.Occupied) :
    moduleLines [] (entriesAt lines [] t) = t.render lines 0 := by
  obtain ⟨last, body, -, hrendered, hwalk⟩ := @walks_entriesAt lines t hordered hoccupied []
  have hall := hwalk []
  rw [List.append_nil, moduleLines] at hall
  rw [hall, List.length_nil] at *
  exact hrendered.symm

end ModuleTree

/-! ### The order of modules -/

theorem pathLe_iff {p q : List String} : pathLe p q = true ↔ p = q ∨ p < q := by
  induction p generalizing q with
  | nil => cases q <;> simp [pathLe]
  | cons s p ih =>
    cases q with
    | nil => simp [pathLe]
    | cons t q =>
      rw [pathLe, List.cons_lt_cons_iff, List.cons.injEq]
      by_cases hst : s = t
      · subst hst
        simp [ih]
      · simp [hst, le_iff_lt_or_eq]

theorem pathLe_trans {p q r : List String} (h₁ : pathLe p q = true) (h₂ : pathLe q r = true) :
    pathLe p r = true := by
  rw [pathLe_iff] at *
  rcases h₁ with rfl | h₁
  · exact h₂
  · rcases h₂ with rfl | h₂
    · exact .inr h₁
    · exact .inr (List.lt_trans h₁ h₂)

theorem pathLe_total (p q : List String) : (pathLe p q || pathLe q p) = true := by
  rw [Bool.or_eq_true, pathLe_iff, pathLe_iff]
  rcases lt_trichotomy p q with h | h | h
  · exact .inl (.inr h)
  · exact .inl (.inl h)
  · exact .inr (.inr h)

theorem pairwise_eraseDups {α : Type} [BEq α] [LawfulBEq α] {R : α → α → Prop} {l : List α}
    (h : l.Pairwise R) : l.eraseDups.Pairwise fun a b => R a b ∧ a ≠ b := by
  induction l using (measure (fun l : List α => l.length)).wf.induction with
  | h l ih =>
    cases l with
    | nil => exact .nil
    | cons a l =>
      rw [List.pairwise_cons] at h
      rw [List.eraseDups_cons, List.pairwise_cons]
      refine ⟨fun b hb => ?_, ih _ (Nat.lt_succ_of_le (List.length_filter_le ..)) (h.2.filter _)⟩
      obtain ⟨hmem, hne⟩ := List.mem_filter.1 (List.mem_eraseDups.1 hb)
      have hba : b ≠ a := by simpa using hne
      exact ⟨h.1 b hmem, hba.symm⟩

theorem exists_mem_byModule {models : List Model} {m : Model} (hm : m ∈ models) :
    ∃ ms, (m.modulePath, ms) ∈ byModule models ∧ m ∈ ms := by
  refine ⟨_, List.mem_map.2 ⟨m.modulePath, ?_, rfl⟩, List.mem_filter.2 ⟨hm, decide_eq_true rfl⟩⟩
  rw [List.mem_eraseDups, List.mem_mergeSort]
  exact List.mem_map_of_mem hm

theorem mem_of_mem_byModule {models : List Model} {e : List String × List Model}
    (he : e ∈ byModule models) {m : Model} (hm : m ∈ e.2) : m ∈ models := by
  obtain ⟨p, -, rfl⟩ := List.mem_map.1 he
  exact List.mem_of_mem_filter hm

/-- The modules that are written are those of the tree in which models stand, in the same order. -/
theorem byModule_eq (models : List Model) :
    byModule models = (ModuleTree.ofModels models).entries := by
  have htree := ModuleTree.isTreeOf_ofModels models
  have hkeys : ((models.map (·.modulePath)).mergeSort pathLe).eraseDups =
      (ModuleTree.ofModels models).paths.filter ((ModuleTree.ofModels models).modelsAt · ≠ []) := by
    have hsorted : ((models.map (·.modulePath)).mergeSort pathLe).eraseDups.Pairwise (· < ·) := by
      have hle : ((models.map (·.modulePath)).mergeSort pathLe).Pairwise (pathLe · · = true) :=
        @List.pairwise_mergeSort _ pathLe (fun _ _ _ => pathLe_trans) pathLe_total _
      refine (pairwise_eraseDups hle).imp fun {p q} h => ?_
      rcases pathLe_iff.1 h.1 with heq | hlt
      · exact absurd heq h.2
      · exact hlt
    have hpaths := htree.ordered.pairwise_paths.filter
      fun p => decide ((ModuleTree.ofModels models).modelsAt p ≠ [])
    refine List.Perm.eq_of_pairwise (fun p q _ _ hpq hqp => absurd hqp (lt_asymm hpq)) hsorted hpaths ?_
    refine (List.perm_ext_iff_of_nodup (hsorted.imp fun h => ne_of_lt h)
      (hpaths.imp fun h => ne_of_lt h)).2 fun p => ?_
    rw [List.mem_eraseDups, List.mem_mergeSort, List.mem_map, List.mem_filter, htree.mem_paths,
      htree.modelsAt, decide_eq_true_eq]
    constructor
    · rintro ⟨m, hm, rfl⟩
      exact ⟨.inr ⟨m, hm, List.prefix_rfl⟩,
        List.ne_nil_of_mem (List.mem_filter.2 ⟨hm, decide_eq_true rfl⟩)⟩
    · rintro ⟨-, hne⟩
      obtain ⟨m, hm⟩ := List.exists_mem_of_ne_nil _ hne
      obtain ⟨hm, hpath⟩ := List.mem_filter.1 hm
      exact ⟨m, hm, of_decide_eq_true hpath⟩
  rw [ModuleTree.entries, ← hkeys]
  refine List.map_congr_left fun p _ => ?_
  rw [htree.modelsAt]
  rfl

theorem entriesAt_ofModels (models : List Model) (lines : Model → List String) :
    ModuleTree.entriesAt lines [] (.ofModels models) =
      (byModule models).map fun e => (e.1, e.2.flatMap lines) := by
  rw [byModule_eq]
  rfl

theorem occupied_ofModels {models : List Model} (h : models ≠ []) :
    (ModuleTree.ofModels models).Occupied := by
  have htree := ModuleTree.isTreeOf_ofModels models
  intro p hp
  obtain ⟨m, hm, q, hq⟩ : ∃ m ∈ models, p <+: m.modulePath := by
    rcases (htree.mem_paths p).1 hp with rfl | hp
    · obtain ⟨m, hm⟩ := List.exists_mem_of_ne_nil models h
      exact ⟨m, hm, List.nil_prefix⟩
    · exact hp
  refine ⟨q, ?_⟩
  rw [htree.modelsAt, hq]
  exact List.ne_nil_of_mem (List.mem_filter.2 ⟨hm, decide_eq_true rfl⟩)

theorem moduleLines_ofModels (models : List Model) (lines : Model → List String) :
    moduleLines [] (ModuleTree.entriesAt lines [] (.ofModels models)) =
      (ModuleTree.ofModels models).render lines 0 := by
  by_cases hmodels : models = []
  · subst hmodels
    rfl
  · exact ModuleTree.moduleLines_entriesAt (ModuleTree.isTreeOf_ofModels models).ordered
      (occupied_ofModels hmodels)

/-! ### Whole files -/

section

variable {reg : Registry} {models : List Model}

/-- The lines of the text that declarations have together. -/
def declaredLines (ds : List Declaration) : List String :=
  Text.linesOf ("\n".intercalate (ds.map (·.text)))

/-- The text of a file, given what is declared for each model: the header, an empty line, and the
lines of the models in the tree of their modules. -/
def declaredText (models : List Model) (declared : Model → List Declaration) : String :=
  "\n".intercalate ([fileHeader, ""] ++
    (ModuleTree.ofModels models).render (fun m => declaredLines (declared m)) 0) ++ "\n"

/-- The declarations of a model, and none if they are not known. -/
def knownDeclarations (reg : Registry) (m : Model) : List Declaration :=
  (m.declarations reg).result.toOption.getD []

theorem declarations_eq_ok_iff {m : Model} {ds : List Declaration} :
    (m.declarations reg).result = .ok ds ↔
      (m.declarations reg).result = .ok (knownDeclarations reg m) ∧ ds = knownDeclarations reg m :=
  eq_ok_iff_getD ds []

theorem modelLines_eq_ok_iff {m : Model} {lines : List String} :
    (modelLines reg m).result = .ok lines ↔
      (m.declarations reg).result = .ok (knownDeclarations reg m) ∧
        lines = declaredLines (knownDeclarations reg m) := by
  rw [modelLines, Traced.result_bind]
  exact bind_pure_eq_ok (fun _ => declarations_eq_ok_iff) declaredLines

theorem filledModule_eq_ok {e : List String × List Model} {filled : List String × List String} :
    (do return (e.1, (← e.2.mapM (modelLines reg)).flatten) : Traced _).result = .ok filled ↔
      (∀ m ∈ e.2, (m.declarations reg).result = .ok (knownDeclarations reg m)) ∧
        filled = (e.1, e.2.flatMap fun m => declaredLines (knownDeclarations reg m)) := by
  rw [Traced.result_bind, bind_eq_ok', Traced.result_mapM]
  simp only [mapM_eq_ok_map fun _ _ => modelLines_eq_ok_iff, Traced.result_pure, Except.ok.injEq,
    List.flatMap]
  constructor
  · rintro ⟨_, ⟨hall, rfl⟩, rfl⟩
    exact ⟨hall, rfl⟩
  · rintro ⟨hall, rfl⟩
    exact ⟨_, ⟨hall, rfl⟩, rfl⟩

/-- The lines of the modules of a file are known if each model can be declared, and only then. -/
theorem filledModules_eq_ok {filled : List (List String × List String)} :
    (filledModules reg models).result = .ok filled ↔
      ∃ declared : Model → List Declaration,
        (∀ m ∈ models, (m.declarations reg).result = .ok (declared m)) ∧
        filled = ModuleTree.entriesAt (fun m => declaredLines (declared m)) [] (.ofModels models) := by
  simp only [entriesAt_ofModels]
  rw [filledModules, Traced.result_mapM, mapM_eq_ok_map fun _ _ => filledModule_eq_ok]
  constructor
  · rintro ⟨hall, rfl⟩
    refine ⟨knownDeclarations reg, fun m hm => ?_, rfl⟩
    obtain ⟨ms, hms, hmem⟩ := exists_mem_byModule hm
    exact hall _ hms m hmem
  · rintro ⟨declared, hdeclared, rfl⟩
    have hknown (e) (he : e ∈ byModule models) (m) (hm : m ∈ e.2) :=
      declarations_eq_ok_iff.1 (hdeclared m (mem_of_mem_byModule he hm))
    refine ⟨fun e he m hm => (hknown e he m hm).1, List.map_congr_left fun e he => ?_⟩
    rw [List.flatMap_congr fun m hm => by rw [(hknown e he m hm).2]]

theorem fileText_eq_ok {code : String} : (fileText reg models).result = .ok code ↔
    ∃ declared : Model → List Declaration,
      (∀ m ∈ models, (m.declarations reg).result = .ok (declared m)) ∧
      code = declaredText models declared := by
  rw [fileText, Traced.result_bind, bind_eq_ok']
  constructor
  · rintro ⟨filled, hfilled, hcode⟩
    obtain ⟨declared, hdeclared, rfl⟩ := filledModules_eq_ok.1 hfilled
    rw [moduleLines_ofModels] at hcode
    cases hcode
    exact ⟨declared, hdeclared, rfl⟩
  · rintro ⟨declared, hdeclared, rfl⟩
    refine ⟨_, filledModules_eq_ok.2 ⟨declared, hdeclared, rfl⟩, ?_⟩
    rw [moduleLines_ofModels]
    rfl

theorem exists_fileText_iff : (∃ code, (fileText reg models).result = .ok code) ↔
    ∀ m ∈ models, ∃ ds, (m.declarations reg).result = .ok ds := by
  constructor
  · rintro ⟨code, hcode⟩ m hm
    obtain ⟨declared, hdeclared, -⟩ := fileText_eq_ok.1 hcode
    exact ⟨_, hdeclared m hm⟩
  · intro h
    choose! declared hdeclared using h
    exact ⟨_, fileText_eq_ok.2 ⟨declared, hdeclared, rfl⟩⟩

end

/-- **Files.**  The models of a file stand in the tree of their modules, and the lines of the file
behind its header are those of this tree: at each depth the lines of what is declared for the models,
then the modules inside, each opened and closed once. -/
theorem fileText_eq_render (reg : Registry) (models : List Model) :
    ModuleTree.IsTreeOf models (.ofModels models) ∧ ∀ text,
      (fileText reg models).result = .ok text ↔
        ∃ declared : Model → List Declaration,
          (∀ m ∈ models, (m.declarations reg).result = .ok (declared m)) ∧
          text = declaredText models declared :=
  ⟨ModuleTree.isTreeOf_ofModels models, fun _ => fileText_eq_ok⟩

/-! ### A sample -/

namespace FileSample

/-- A struct of the namespace `N`. -/
def outside : Model :=
  ⟨⟨⟨"N", "A", []⟩, .struct, false, "N", "A"⟩, false, [], [("x", .ofPrimitive .u8)], [], none, false,
    .absent, [], .plain⟩

/-- A struct of the namespace `N.M` with a text constant that has an empty line in it. -/
def inside : Model :=
  ⟨⟨⟨"N.M", "B", []⟩, .struct, false, "N.M", "B"⟩, false, [], [("x", .ofPrimitive .u8)],
    [("X", ⟨.text "a\n\nb", "string"⟩)], none, false, .absent, [], .plain⟩

theorem declaredLines_outside : declaredLines (knownDeclarations .empty outside) =
    ["#[repr(C)]", "#[allow(non_snake_case)]", "#[derive(::std::clone::Clone)]", "pub struct A \x7b",
      "    pub x: u8,", "\x7d"] := by cbv

-- the text is gone through character by character
set_option maxRecDepth 1000 in
theorem declaredLines_inside : declaredLines (knownDeclarations .empty inside) =
    ["#[repr(C)]", "#[allow(non_snake_case)]", "#[derive(::std::clone::Clone)]", "pub struct B \x7b",
      "    pub x: u8,", "\x7d", "impl B \x7b", "    pub const X: &'static str = \"a", "", "b\";",
      "\x7d"] := by cbv

theorem ofModels_sample : ModuleTree.ofModels [inside, outside] =
    ⟨[], [("n", ⟨[outside], [("m", ⟨[inside], []⟩)]⟩)]⟩ := by
  have hinside : inside.modulePath = ["n", "m"] := by cbv
  have houtside : outside.modulePath = ["n"] := by cbv
  rw [ModuleTree.ofModels, List.foldl_cons, List.foldl_cons, List.foldl_nil, hinside, houtside]
  rfl

def lines : List String :=
  ["// Generated by struct_wrangler. Do not edit.",
   "",
   "pub mod n \x7b",
   "    #[repr(C)]",
   "    #[allow(non_snake_case)]",
   "    #[derive(::std::clone::Clone)]",
   "    pub struct A \x7b",
   "        pub x: u8,",
   "    \x7d",
   "    pub mod m \x7b",
   "        #[repr(C)]",
   "        #[allow(non_snake_case)]",
   "        #[derive(::std::clone::Clone)]",
   "        pub struct B \x7b",
   "            pub x: u8,",
   "        \x7d",
   "        impl B \x7b",
   "            pub const X: &'static str = \"a",
   "",
   "        b\";",
   "        \x7d",
   "    \x7d",
   "\x7d"]

/-- The module of the inner namespace stands in that of the outer one, behind the models there, and
the empty line stays empty. -/
theorem fileText_lines : (fileText .empty [inside, outside]).result =
    .ok ("\n".intercalate lines ++ "\n") := by
  have hinside : (inside.declarations .empty).result = .ok (knownDeclarations .empty inside) := by
    cbv
  have houtside : (outside.declarations .empty).result = .ok (knownDeclarations .empty outside) := by
    cbv
  refine ((fileText_eq_render _ _).2 _).2 ⟨knownDeclarations .empty, ?_, ?_⟩
  · exact List.forall_mem_cons.2 ⟨hinside, List.forall_mem_singleton.2 houtside⟩
  · rw [declaredText, ofModels_sample]
    simp only [ModuleTree.render, ModuleTree.renderInner, List.flatMap_cons, List.flatMap_nil,
      declaredLines_inside, declaredLines_outside]
    rfl

end FileSample

end Bindery.Code
