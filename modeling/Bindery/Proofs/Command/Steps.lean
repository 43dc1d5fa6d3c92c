import Bindery.Command.Conversion
import Bindery.Proofs.Command.Workspace
/-!
# Steps on a workspace

What the steps of a conversion do to a workspace.  Loading and building print lines and nothing else
(`Speaks`); whether they are done, and with what, is told by `registryOf` and `models?`.
-/

namespace Bindery.Command

namespace Conversion

variable {α β : Type} {c c' c'' : Conversion} {w : Workspace}

/-- A conversion that has loaded a registry and nothing else. -/
def loadedWith (reg : Registry) : Conversion :=
  { start "m" "out" none none false with loaded := some reg }

/-! ### Running a step -/

/-- What comes of a step on a workspace. -/
def exec (x : Step (StateM Workspace) α) (c : Conversion) (w : Workspace) :
    (Except Failure α × Conversion) × Workspace :=
  (x.run.run c).run w

theorem exec_pure (a : α) (c : Conversion) (w : Workspace) :
    exec (pure a) c w = ((.ok a, c), w) := rfl

theorem exec_throw (f : Failure) (c : Conversion) (w : Workspace) :
    exec (throw f : Step (StateM Workspace) α) c w = ((.error f, c), w) := rfl

theorem exec_get (c : Conversion) (w : Workspace) : exec get c w = ((.ok c, c), w) := rfl

theorem exec_set (d c : Conversion) (w : Workspace) : exec (set d) c w = ((.ok (), d), w) := rfl

theorem exec_lift (x : StateM Workspace α) (c : Conversion) (w : Workspace) :
    exec (liftM x) c w = ((.ok (x.run w).1, c), (x.run w).2) := rfl

theorem exec_bind (x : Step (StateM Workspace) α) (f : α → Step (StateM Workspace) β)
    (c : Conversion) (w : Workspace) :
    exec (x >>= f) c w =
      match exec x c w with
      | ((.ok a, c'), w') => exec (f a) c' w'
      | ((.error e, c'), w') => ((.error e, c'), w') := by
  unfold exec
  simp only [ExceptT.run_bind, StateT.run_bind]
  change (match (x.run.run c).run w with | (a, s') => _) = _
  rcases (x.run.run c).run w with ⟨⟨_ | a, c'⟩, w'⟩ <;> rfl

/-! ### File operations in steps -/

theorem exec_mustSucceed {α : Type} (r : Except Error α) (c : Conversion) (w : Workspace) :
    exec (mustSucceed r) c w = ((r.mapError .error, c), w) := by
  cases r <;> rfl

theorem exec_must_change (f : Workspace → Except FileFault Workspace) (c : Conversion)
    (w : Workspace) : exec (must (Workspace.change f)) c w =
      match f w with
      | .ok w' => ((.ok (), c), w')
      | .error e => ((.error (.file e), c), w) := by
  unfold must
  rw [exec_bind, exec_lift]
  simp only [StateT.run, Workspace.change]
  cases f w <;> rfl

theorem exec_makeDirectories (path : String) (c : Conversion) (w : Workspace) :
    exec (must (Host.makeDirectories path)) c w =
      match w.makeDirectories path with
      | .ok w' => ((.ok (), c), w')
      | .error e => ((.error (.file e), c), w) :=
  exec_must_change (·.makeDirectories path) c w

theorem exec_write (path text : String) (c : Conversion) (w : Workspace) :
    exec (must (Host.write path text)) c w =
      match w.write path text with
      | .ok w' => ((.ok (), c), w')
      | .error e => ((.error (.file e), c), w) :=
  exec_must_change (·.write path text) c w

/-! ### Steps that only speak -/

/-- A step comes to a result and does nothing to the workspace but print lines. -/
def Speaks (x : Step (StateM Workspace) α) (c : Conversion) (w : Workspace) (r : Except Failure α)
    (c' : Conversion) : Prop :=
  ∃ lines, exec x c w = ((r, c'), w.said lines)

theorem speaks_pure (a : α) (c : Conversion) (w : Workspace) : Speaks (pure a) c w (.ok a) c :=
  ⟨[], by rw [exec_pure, Workspace.said_nil]⟩

theorem speaks_throw (f : Failure) (c : Conversion) (w : Workspace) :
    Speaks (throw f : Step (StateM Workspace) α) c w (.error f) c :=
  ⟨[], by rw [exec_throw, Workspace.said_nil]⟩

theorem speaks_say (line : String) (c : Conversion) (w : Workspace) :
    Speaks (say line) c w (.ok ()) c :=
  ⟨[line], rfl⟩

theorem Speaks.bind {x : Step (StateM Workspace) α} {f : α → Step (StateM Workspace) β} {a : α}
    {r : Except Failure β} (hx : Speaks x c w (.ok a) c')
    (hf : ∀ lines, Speaks (f a) c' (w.said lines) r c'') : Speaks (x >>= f) c w r c'' := by
  obtain ⟨lines, hx⟩ := hx
  obtain ⟨lines', hf⟩ := hf lines
  exact ⟨lines ++ lines', by rw [exec_bind, hx, ← Workspace.said_said, ← hf]⟩

theorem speaks_get_bind {f : Conversion → Step (StateM Workspace) β} {r : Except Failure β} :
    Speaks (get >>= f) c w r c' ↔ Speaks (f c) c w r c' := by
  simp only [Speaks, exec_bind, exec_get]

theorem speaks_set_bind {d : Conversion} {f : Unit → Step (StateM Workspace) β}
    {r : Except Failure β} : Speaks (set d >>= f) c w r c' ↔ Speaks (f ()) d w r c' := by
  simp only [Speaks, exec_bind, exec_set]

theorem speaks_read_bind {path : String}
    {f : Except FileFault String → Step (StateM Workspace) β} {r : Except Failure β} :
    Speaks (liftM (Host.read path : StateM Workspace (Except FileFault String)) >>= f) c w r c' ↔
      Speaks (f (w.read path)) c w r c' := by
  simp only [Speaks, exec_bind, exec_lift]
  rfl

theorem speaks_forM_say (lines : List String) (c : Conversion) (w : Workspace) :
    Speaks (lines.forM say) c w (.ok ()) c := by
  induction lines generalizing w with
  | nil => exact speaks_pure () c w
  | cons line lines ih => exact (speaks_say line c w).bind fun _ => ih _

theorem speaks_tell (told : Conversion) (text : String) (c : Conversion) (w : Workspace) :
    Speaks (tell told text) c w (.ok ()) c := by
  unfold tell
  split
  · exact speaks_say _ c w
  · exact speaks_pure () c w

theorem speaks_watch (told : Conversion) (t : Traced α) (c : Conversion) (w : Workspace) :
    Speaks (watch told t) c w (.ok t.result) c := by
  unfold watch
  split
  · exact (speaks_forM_say t.log c w).bind fun _ => speaks_pure _ c _
  · exact speaks_pure _ c w

theorem speaks_refuse (message : String) (c : Conversion) (w : Workspace) :
    Speaks (refuse message) c w (.ok false) c :=
  (speaks_say _ c w).bind fun _ => speaks_pure false c _

/-- What comes of an error that is to be reported: a fault of the metadata is, any other error ends
the conversion. -/
def outcomeOf (e : Error) : Except Failure Bool :=
  match e.kind with
  | .metadata | .anonymousName | .cycle => .ok false
  | _ => .error (.error e)

theorem outcomeOf_ne (e : Error) : outcomeOf e ≠ .ok true := by
  unfold outcomeOf
  split <;> simp

theorem speaks_report (e : Error) (c : Conversion) (w : Workspace) :
    Speaks (report e) c w (outcomeOf e) c := by
  unfold report outcomeOf
  cases e.kind with
  | metadata | anonymousName | cycle => exact speaks_refuse _ c w
  | value | missingSignature | overflow => exact speaks_throw _ c w

theorem speaks_watch_done {t : Traced α} {f : Except Error α → Step (StateM Workspace) β} {a : α}
    {r : Except Failure β} (h : t.result = .ok a) (hf : ∀ w, Speaks (f (.ok a)) c w r c')
    (told : Conversion) (w : Workspace) : Speaks (watch told t >>= f) c w r c' := by
  refine (speaks_watch told t c w).bind fun lines => ?_
  rw [h]
  exact hf _

theorem speaks_watch_report {t : Traced α} {f : Except Error α → Step (StateM Workspace) Bool}
    {e : Error} (h : t.result = .error e) (hf : f (.error e) = report e) (told c : Conversion)
    (w : Workspace) : Speaks (watch told t >>= f) c w (outcomeOf e) c := by
  refine (speaks_watch told t c w).bind fun lines => ?_
  rw [h, hf]
  exact speaks_report e c _

/-! ### Loading -/

/-- The registry of the input file, if it can be read. -/
def registryOf (w : Workspace) (s : Settings) : Option Registry :=
  match w.read s.input with
  | .ok text => (Registry.ofText s.input (.ofList (unifyLineEnds text.toList))).result.toOption
  | .error _ => none

/-- **Loading.**  If the input file has a registry, it is loaded. -/
theorem speaks_load_of_some {reg : Registry} (h : registryOf w c.settings = some reg) :
    Speaks load c w (.ok true) { c with loaded := some reg } := by
  unfold registryOf at h
  split at h
  · rename_i text hread
    unfold load
    rw [speaks_get_bind, speaks_read_bind, hread]
    cases hresult : (Registry.ofText c.settings.input (.ofList (unifyLineEnds text.toList))).result with
    | error e => simp [hresult, Except.toOption] at h
    | ok reg' =>
      obtain rfl : reg' = reg := by simpa [hresult, Except.toOption] using h
      exact speaks_watch_done hresult (fun _ => speaks_set_bind.2 (speaks_pure true _ _)) c w
  · cases h

theorem speaks_load_of_none (h : registryOf w c.settings = none) :
    ∃ r, r ≠ .ok true ∧ Speaks load c w r c := by
  unfold load
  simp only [speaks_get_bind, speaks_read_bind]
  unfold registryOf at h
  split at h
  · rename_i text hread
    rw [hread]
    cases hresult : (Registry.ofText c.settings.input (.ofList (unifyLineEnds text.toList))).result with
    | error e => exact ⟨_, outcomeOf_ne e, speaks_watch_report hresult rfl c c w⟩
    | ok reg => simp [hresult, Except.toOption] at h
  · rename_i f hread
    rw [hread]
    dsimp only
    split
    · exact ⟨.ok false, by simp, speaks_refuse _ c w⟩
    · exact ⟨.error (.file f), by simp, speaks_throw _ c w⟩

/-! ### Building -/

/-- The models of a registry that are converted, in order, if they can be built and ordered. -/
def models? (reg : Registry) (space : Option String) : Option (List Model) :=
  match space, targets reg space with
  | some _, [] => none
  | _, _ => (orderedModels reg (targets reg space)).result.toOption

theorem models?_eq_some {reg : Registry} {space : Option String} {models : List Model} :
    models? reg space = some models ↔ (∀ s, space = some s → targets reg space ≠ []) ∧
      (orderedModels reg (targets reg space)).result = .ok models := by
  have hresult : (orderedModels reg (targets reg space)).result.toOption = some models ↔
      (orderedModels reg (targets reg space)).result = .ok models := by
    cases (orderedModels reg (targets reg space)).result <;> simp [Except.toOption]
  unfold models?
  cases space with
  | none => simpa using hresult
  | some s =>
    cases htargets : targets reg (some s) with
    | nil => simp
    | cons n ns => simpa [htargets] using hresult

/-- **Building.**  If the loaded registry has models in order, they are built. -/
theorem speaks_build_of_some {reg : Registry} {models : List Model} (hreg : c.loaded = some reg)
    (h : models? reg c.settings.space = some models) :
    Speaks build c w (.ok true) { c with models, source := reg } := by
  obtain ⟨hnames, hresult⟩ := models?_eq_some.1 h
  unfold build
  simp only [speaks_get_bind, hreg]
  cases hspace : c.settings.space with
  | none =>
    rw [hspace] at hresult
    exact speaks_watch_done hresult (fun _ => speaks_set_bind.2
      ((speaks_tell _ _ _ _).bind fun _ => speaks_pure true _ _)) c w
  | some s =>
    rw [hspace] at hresult hnames
    cases htargets : targets reg (some s) with
    | nil => exact absurd htargets (hnames s rfl)
    | cons n ns =>
      rw [htargets] at hresult
      exact speaks_watch_done hresult (fun _ => speaks_set_bind.2
        ((speaks_tell _ _ _ _).bind fun _ => speaks_pure true _ _)) c w

theorem speaks_build_of_error {reg : Registry} {e : Error} (hreg : c.loaded = some reg)
    (hnames : ∀ s, c.settings.space = some s → targets reg c.settings.space ≠ [])
    (h : (orderedModels reg (targets reg c.settings.space)).result = .error e) :
    Speaks build c w (outcomeOf e) c := by
  unfold build
  simp only [speaks_get_bind, hreg]
  cases hspace : c.settings.space with
  | none =>
    rw [hspace] at h
    exact speaks_watch_report h rfl c c w
  | some s =>
    rw [hspace] at h hnames
    cases htargets : targets reg (some s) with
    | nil => exact absurd htargets (hnames s rfl)
    | cons n ns =>
      rw [htargets] at h
      exact speaks_watch_report h rfl c c w

theorem exists_space_of_not {reg : Registry} {space : Option String}
    (h : ¬ ∀ s, space = some s → targets reg space ≠ []) :
    ∃ s, space = some s ∧ targets reg (some s) = [] := by
  obtain ⟨s, hs⟩ := not_forall.1 h
  obtain ⟨rfl, htargets⟩ := Classical.not_imp.1 hs
  exact ⟨s, rfl, not_not.1 htargets⟩

theorem speaks_build_of_nil {reg : Registry} {s : String} (hreg : c.loaded = some reg)
    (hspace : c.settings.space = some s) (htargets : targets reg (some s) = []) :
    Speaks build c w (.ok false) c := by
  unfold build
  simp only [speaks_get_bind, hreg, hspace, htargets]
  exact speaks_refuse _ c w

theorem speaks_build_of_none {reg : Registry} (hreg : c.loaded = some reg)
    (h : models? reg c.settings.space = none) : ∃ r, r ≠ .ok true ∧ Speaks build c w r c := by
  by_cases hnames : ∀ s, c.settings.space = some s → targets reg c.settings.space ≠ []
  · cases hresult : (orderedModels reg (targets reg c.settings.space)).result with
    | error e => exact ⟨_, outcomeOf_ne e, speaks_build_of_error hreg hnames hresult⟩
    | ok models =>
      rw [models?_eq_some.2 ⟨hnames, hresult⟩] at h
      cases h
  · obtain ⟨s, hspace, htargets⟩ := exists_space_of_not hnames
    exact ⟨.ok false, by simp, speaks_build_of_nil hreg hspace htargets⟩

end Conversion

end Bindery.Command
