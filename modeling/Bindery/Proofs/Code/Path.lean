import Bindery.Proofs.Code.Identifier
import Bindery.Proofs.Code.ModuleTree
/-!
# Where paths lead

A path is read step by step in the module in which it is written (`follow`).  The path to an item
leads from any module to the module of the item's namespace, in which the tree of modules has the
models of that namespace, and never above the outermost module (`follow_itemPath`).
-/

namespace Bindery.Code

/-! ### Reading a path -/

/-- The module and the item to which steps lead from a module: `super` goes one module up, every other
step but the last goes into the module of its name, and the last is the item.  Nothing is above the
outermost module. -/
def follow : List String → List String → Option (List String × String)
  | _, [] => none
  | path, [item] => some (path, item)
  | path, step :: next :: rest =>
    if step = "super" then
      if path = [] then none else follow path.dropLast (next :: rest)
    else follow (path ++ [step]) (next :: rest)

/-- The steps of a path: the pieces between double colons. -/
def pathSteps : List Char → List (List Char)
  | [] => [[]]
  | ':' :: ':' :: rest => [] :: pathSteps rest
  | c :: rest =>
    match pathSteps rest with
    | [] => [[c]]
    | step :: steps => (c :: step) :: steps

/-- Where the text of a path leads from a module. -/
def readPath (path : List String) (text : String) : Option (List String × String) :=
  follow path ((pathSteps text.toList).map .ofList)

theorem pathSteps_cons {c : Char} (hc : c ≠ ':') (cs : List Char) :
    pathSteps (c :: cs) = match pathSteps cs with
      | [] => [[c]]
      | step :: steps => (c :: step) :: steps := by
  rw [pathSteps]
  intro _ hcolon _
  exact hc hcolon

theorem pathSteps_of_not_mem {step : List Char} (h : ':' ∉ step) : pathSteps step = [step] := by
  induction step with
  | nil => rfl
  | cons c cs ih =>
    rw [List.mem_cons, not_or] at h
    rw [pathSteps_cons (Ne.symm h.1), ih h.2]

theorem pathSteps_append {step : List Char} (h : ':' ∉ step) (rest : List Char) :
    pathSteps (step ++ ':' :: ':' :: rest) = step :: pathSteps rest := by
  induction step with
  | nil => rfl
  | cons c cs ih =>
    rw [List.mem_cons, not_or] at h
    rw [List.cons_append, pathSteps_cons (Ne.symm h.1), ih h.2]

theorem pathSteps_intercalate {steps : List (List Char)} (hne : steps ≠ [])
    (h : ∀ step ∈ steps, ':' ∉ step) : pathSteps ([':', ':'].intercalate steps) = steps := by
  induction steps with
  | nil => exact absurd rfl hne
  | cons step steps ih =>
    rw [List.forall_mem_cons] at h
    by_cases hsteps : steps = []
    · subst hsteps
      rw [List.intercalate_singleton]
      exact pathSteps_of_not_mem h.1
    · rw [List.intercalate_cons_of_ne_nil hsteps, List.append_assoc, List.cons_append,
        List.singleton_append, pathSteps_append h.1, ih hsteps h.2]

/-! ### The way to an item -/

section follow

variable {path : List String} {item : String}

theorem follow_up (below : List String) {rest : List String} (h : rest ≠ []) :
    follow (path ++ below) (List.replicate below.length "super" ++ rest) = follow path rest := by
  induction below using List.reverseRecOn with
  | nil => simp
  | append_singleton below s ih =>
    -- the first step up leaves the innermost module
    obtain ⟨next, others, hnext⟩ := List.exists_cons_of_ne_nil
      (show List.replicate below.length "super" ++ rest ≠ [] by simp [h])
    rw [List.length_append, List.length_singleton, List.replicate_succ, List.cons_append, hnext,
      follow, if_pos rfl, if_neg (by simp), ← hnext, ← List.append_assoc, List.dropLast_concat, ih]

theorem follow_down {target : List String} (h : "super" ∉ target) :
    follow path (target ++ [item]) = some (path ++ target, item) := by
  induction target generalizing path with
  | nil => simp [follow]
  | cons s target ih =>
    rw [List.mem_cons, not_or] at h
    obtain ⟨next, others, hnext⟩ := List.exists_cons_of_ne_nil
      (show target ++ [item] ≠ [] by simp)
    rw [List.cons_append, hnext, follow, if_neg (Ne.symm h.1), ← hnext, ih h.2]
    simp

/-- The way from one module to another leads there, whatever both have around them. -/
theorem follow_route {source target : List String} (h : "super" ∉ target) :
    follow (path ++ source) (route source target ++ [item]) = some (path ++ target, item) := by
  have hleave (path below entered : List String) (hentered : "super" ∉ entered) :
      follow (path ++ below) (below.map (fun _ => "super") ++ entered ++ [item]) =
        some (path ++ entered, item) := by
    rw [List.map_const', List.append_assoc, follow_up below (by simp), follow_down hentered]
  induction source generalizing path target with
  | nil =>
    rw [route]
    · exact hleave path [] target h
    · simp
  | cons s source ih =>
    cases target with
    | nil =>
      rw [route]
      · exact hleave path (s :: source) [] (by simp)
      · simp
    | cons t target =>
      rw [route]
      split
      · rename_i heq
        subst heq
        rw [List.mem_cons, not_or] at h
        have hrest := @ih (path ++ [s]) target h.2
        simpa using hrest
      · exact hleave path (s :: source) (t :: target) h

end follow

/-! ### Paths to items -/

def itemSteps (source target name : String) : List String :=
  if source = target then [name] else route (modulePath source) (modulePath target) ++ [name]

theorem itemPath_eq (source target name : String) :
    itemPath source target name = "::".intercalate (itemSteps source target name) := by
  rw [itemPath, itemSteps]
  split
  · simp
  · rfl

theorem super_not_mem_modulePath (space : String) : "super" ∉ modulePath space := by
  intro h
  obtain ⟨name, -, hname⟩ := List.mem_map.1 h
  exact identifier_not_mem_reservedWords (Text.snakeCase name) (by
    rw [← memberIdentifier, hname]
    decide)

theorem mem_route {source target : List String} {step : String} (h : step ∈ route source target) :
    step = "super" ∨ step ∈ target := by
  fun_induction route source target with
  | case1 s source target ih => exact (ih h).imp_right (List.mem_cons_of_mem _)
  | case2 s source t target hne =>
    rcases List.mem_append.1 h with h | h
    · obtain ⟨_, -, rfl⟩ := List.mem_map.1 h
      exact .inl rfl
    · exact .inr h
  | case3 source target =>
    rcases List.mem_append.1 h with h | h
    · obtain ⟨_, -, rfl⟩ := List.mem_map.1 h
      exact .inl rfl
    · exact .inr h

theorem not_mem_itemSteps {c : Char} (hc : c.isLower = false) (hmarks : c ∉ ['_', '#'])
    {source target name step : String} (htarget : c ∉ target.toList) (hname : c ∉ name.toList)
    (h : step ∈ itemSteps source target name) : c ∉ step.toList := by
  unfold itemSteps at h
  split at h
  · rwa [List.mem_singleton.1 h]
  · rcases List.mem_append.1 h with h | h
    · rcases mem_route h with rfl | h
      · have hletters : "super".toList.all Char.isLower = true := by decide
        intro hmem
        rw [List.all_eq_true.1 hletters c hmem] at hc
        cases hc
      · exact not_mem_modulePath hc hmarks htarget h
    · rwa [List.mem_singleton.1 h]

theorem follow_itemSteps (source target name : String) :
    follow (modulePath source) (itemSteps source target name) = some (modulePath target, name) := by
  unfold itemSteps
  split
  · rename_i heq
    rw [heq]
    rfl
  · exact @follow_route [] name (modulePath source) _ (super_not_mem_modulePath target)

theorem pathSteps_itemPath {source target name : String} (htarget : ':' ∉ target.toList)
    (hname : ':' ∉ name.toList) :
    (pathSteps (itemPath source target name).toList).map .ofList = itemSteps source target name := by
  have hne : (itemSteps source target name).map String.toList ≠ [] := by
    unfold itemSteps
    split <;> simp
  have hsteps : ∀ step ∈ (itemSteps source target name).map String.toList, ':' ∉ step := by
    intro step hstep
    obtain ⟨x, hx, rfl⟩ := List.mem_map.1 hstep
    exact not_mem_itemSteps rfl (by decide) htarget hname hx
  rw [itemPath_eq, String.toList_intercalate]
  show (pathSteps ([':', ':'].intercalate _)).map String.ofList = _
  rw [pathSteps_intercalate hne hsteps, List.map_map]
  simp [Function.comp_def]

/-- **Paths to items.**  Read in any module, the path to an item leads to the item in the module of
its namespace, where the models of that namespace stand and nowhere else. -/
theorem follow_itemPath (source target name : String) :
    "super" ∉ modulePath target ∧
    itemPath source target name = "::".intercalate (itemSteps source target name) ∧
    follow (modulePath source) (itemSteps source target name) = some (modulePath target, name) ∧
    (':' ∉ target.toList → ':' ∉ name.toList →
      readPath (modulePath source) (itemPath source target name) = some (modulePath target, name)) ∧
    ∀ models : List Model, ∀ m ∈ models, m.name.space = target → ∀ path,
      m ∈ (ModuleTree.ofModels models).modelsAt path ↔ path = modulePath target := by
  refine ⟨super_not_mem_modulePath target, itemPath_eq source target name,
    follow_itemSteps source target name, fun htarget hname => ?_, ?_⟩
  · rw [readPath, pathSteps_itemPath htarget hname, follow_itemSteps]
  · rintro models m hm rfl path
    rw [(ModuleTree.isTreeOf_ofModels models).modelsAt, List.mem_filter, decide_eq_true_eq]
    exact ⟨fun h => h.2.symm, fun h => ⟨hm, h.symm⟩⟩

/-- A path up from one module and down to another. -/
theorem readPath_point :
    itemPath "Windows.Win32.Gdi" "Windows.Foundation" "Point" = "super::super::foundation::Point" ∧
    readPath ["windows", "win32", "gdi"] "super::super::foundation::Point" =
      some (["windows", "foundation"], "Point") := by
  have hpath : itemPath "Windows.Win32.Gdi" "Windows.Foundation" "Point" =
      "super::super::foundation::Point" := by cbv
  have hsource : modulePath "Windows.Win32.Gdi" = ["windows", "win32", "gdi"] := by cbv
  have htarget : modulePath "Windows.Foundation" = ["windows", "foundation"] := by cbv
  obtain ⟨-, -, -, hread, -⟩ := follow_itemPath "Windows.Win32.Gdi" "Windows.Foundation" "Point"
  have hsteps := hread (by decide) (by decide)
  rw [hpath, hsource, htarget] at hsteps
  exact ⟨hpath, hsteps⟩

end Bindery.Code
