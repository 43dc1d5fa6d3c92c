import Mathlib
import Bindery.Command.Run
import Bindery.Proofs.Command.Steps
/-!
# Runs that do not succeed

Which files a run leaves changed if it does not end with success (`run_ends`).  There is at most one,
the file of the code: it is emptied before the code is made, and what it had is lost when the code
cannot be made or the document cannot be written afterwards.  The run leaves all files as they were
exactly if it does not come to this point or the file had just that text before (`files_kept_iff`).
The document is never touched.
-/

namespace Bindery.Command

open Conversion

/-! ### Paths of the output -/

theorem place_ne {w v : Workspace} {s : Settings} {p q : List String}
    (hp : w.locate s.codePath = .ok p) (hq : v.locate s.documentPath = .ok q) : p ≠ q := by
  obtain ⟨stem, hstem⟩ := Workspace.getLast?_locate (by decide) (by decide) hp
  obtain ⟨stem', hstem'⟩ := Workspace.getLast?_locate (by decide) (by decide) hq
  rintro rfl
  have hends : (stem ++ ".rs").toList.getLast? = (stem' ++ "_model.json").toList.getLast? := by
    rw [Option.some.inj (hstem.symm.trans hstem')]
  simp [String.toList_append] at hends

/-- The file at a place after a text may have been written at one. -/
def Workspace.fileAfter (w : Workspace) (written : Option (List String × String))
    (q : List String) : Option (Option String) :=
  match written with
  | some (place, text) => if q = place then some (some text) else w.file? q
  | none => w.file? q

namespace Conversion

variable {c c' : Conversion} {w w' : Workspace}

/-! ### Writing the document -/

theorem file?_of_exec_writeDocument {r : Except Failure Unit}
    (h : exec (writeDocument c) c w = ((r, c'), w')) (hr : r ≠ .ok ()) (q : List String) :
    w'.file? q = w.file? q := by
  -- once the document is written, only a line can follow
  have hwrite : ∀ v text told, exec (do
      must (Host.write c.settings.documentPath text)
      tell c told) c v = ((r, c'), w') → w' = v := by
    intro v text told h
    rw [exec_bind, exec_write] at h
    cases hw : v.write c.settings.documentPath text with
    | error f =>
      rw [hw] at h
      cases h
      rfl
    | ok v' =>
      rw [hw] at h
      obtain ⟨lines, htell⟩ := speaks_tell c told c v'
      cases htell.symm.trans h
      exact absurd rfl hr
  unfold writeDocument at h
  dsimp only at h
  split at h
  · rw [exec_bind, exec_makeDirectories] at h
    cases hmake : w.makeDirectories (directoryOf c.settings.documentPath) with
    | error f =>
      rw [hmake] at h
      cases h
      rfl
    | ok v =>
      rw [← Workspace.file?_makeDirectories hmake]
      rw [hmake] at h
      rw [hwrite v _ _ h]
  · rw [hwrite w _ _ h]

theorem file?_of_exec_rest {dumpModel : Bool} {told : String} {r : Except Failure Bool}
    (h : exec (do
      tell c told
      if dumpModel then writeDocument c
      return true) c w = ((r, c'), w')) (hr : r ≠ .ok true) (q : List String) :
    w'.file? q = w.file? q := by
  obtain ⟨lines, htell⟩ := speaks_tell c told c w
  rw [exec_bind, htell] at h
  dsimp only at h
  split at h
  · rw [exec_bind] at h
    rcases hdocument : exec (writeDocument c) c (w.said lines) with ⟨⟨r' | u, d⟩, v⟩
    · rw [hdocument] at h
      cases h
      rw [file?_of_exec_writeDocument hdocument (by simp) q, Workspace.file?_said]
    · rw [hdocument] at h
      cases h
      exact absurd rfl hr
  · cases h
    exact absurd rfl hr

/-! ### Writing the code -/

/-- The file in which the code is written, if it comes to that. -/
def opened? (w : Workspace) (s : Settings) : Option (List String) :=
  match w.makeDirectories s.output with
  | .ok w' => w'.writable? s.codePath
  | .error _ => none

/-- What is in the file of the code when a conversion ends early: nothing if the code cannot be
made. -/
def codeOrNothing (reg : Registry) (models : List Model) : String :=
  match (Code.fileText reg models).result with
  | .ok text => text
  | .error _ => ""

theorem opened?_said (w : Workspace) (lines : List String) (s : Settings) :
    opened? (w.said lines) s = opened? w s := by
  unfold opened?
  rw [Workspace.makeDirectories_said]
  cases w.makeDirectories s.output with
  | error f => rfl
  | ok v => exact Workspace.writable?_said v lines s.codePath

/-- What follows the opening of the file: if it is done, the code could be made; if not, the file
has the code as far as it was made. -/
theorem exec_code_ends {dumpModel : Bool} {told : String} {r : Except Failure Bool}
    {place : List String} (hplace : w.writable? c.settings.codePath = some place)
    (h : exec (do
      let text ← mustSucceed (← watch c (Code.fileText c.source c.models))
      must (Host.write c.settings.codePath text)
      tell c told
      if dumpModel then writeDocument c
      return true) c (w.put place (.file (some ""))) = ((r, c'), w')) :
    (r = .ok true → ∃ text, (Code.fileText c.source c.models).result = .ok text) ∧
      (r ≠ .ok true → ∀ q, w'.file? q =
        if q = place then some (some (codeOrNothing c.source c.models)) else w.file? q) := by
  obtain ⟨lines, hwatch⟩ := speaks_watch c (Code.fileText c.source c.models) c
    (w.put place (.file (some "")))
  rw [exec_bind, hwatch] at h
  dsimp only at h
  rw [exec_bind, exec_mustSucceed] at h
  unfold codeOrNothing
  cases hcode : (Code.fileText c.source c.models).result with
  | error e =>
    rw [hcode] at h
    cases h
    refine ⟨nofun, fun _ q => ?_⟩
    rw [Workspace.file?_said, Workspace.file?_put_of_writable? hplace]
  | ok text =>
    -- the file is there now, and the path still leads to it
    have hagain := Workspace.writable?_put_file hplace (some "")
    rw [hcode] at h
    dsimp only [Except.mapError] at h
    rw [exec_bind, exec_write, Workspace.write_said, Workspace.write_of_some hagain] at h
    refine ⟨fun _ => ⟨text, rfl⟩, fun hr q => ?_⟩
    rw [file?_of_exec_rest h hr q, Workspace.file?_said, Workspace.file?_put_of_writable? hagain,
      Workspace.file?_put_of_writable? hplace]
    split <;> rfl

/-- **Generating.**  If it is done, the code could be made.  If it is not, the code is left as far as
it was made, and no other file is touched. -/
theorem exec_generate_ends {dumpModel : Bool} {r : Except Failure Bool}
    (hloaded : c.loaded.isSome) (h : exec (generate dumpModel) c w = ((r, c'), w')) :
    (r = .ok true → ∃ text, (Code.fileText c.source c.models).result = .ok text) ∧
      (r ≠ .ok true → ∀ q, w'.file? q =
        w.fileAfter ((opened? w c.settings).map (·, codeOrNothing c.source c.models)) q) := by
  unfold generate at h
  rw [exec_bind, exec_get] at h
  dsimp only at h
  rw [if_neg (by simp [Option.isSome_iff_ne_none.1 hloaded]), exec_bind, exec_makeDirectories] at h
  cases hmake : w.makeDirectories c.settings.output with
  | error f =>
    rw [hmake] at h
    cases h
    rw [opened?, hmake]
    exact ⟨nofun, fun _ _ => rfl⟩
  | ok v =>
    have hopened : opened? w c.settings = v.writable? c.settings.codePath := by rw [opened?, hmake]
    have hdirectories : ∀ q, v.file? q = w.file? q := fun q => Workspace.file?_makeDirectories hmake
    rw [hmake] at h
    dsimp only at h
    rw [exec_bind, exec_write] at h
    rw [hopened]
    cases hplace : v.writable? c.settings.codePath with
    | none =>
      obtain ⟨f, hf⟩ := Workspace.write_of_none hplace ""
      rw [hf] at h
      cases h
      exact ⟨nofun, fun _ => hdirectories⟩
    | some place =>
      rw [Workspace.write_of_some hplace] at h
      obtain ⟨hdone, hleft⟩ := exec_code_ends hplace h
      refine ⟨hdone, fun hr q => ?_⟩
      rw [hleft hr q, hdirectories q]
      rfl

/-! ### Whole conversions -/

/-- What a conversion that is not done leaves in the file of the code, if it comes to that: the place
of the file and the text. -/
def left? (c : Conversion) (w : Workspace) : Option (List String × String) :=
  (registryOf w c.settings).bind fun reg =>
    (models? reg c.settings.space).bind fun models =>
      (opened? w c.settings).map (·, codeOrNothing reg models)

theorem said_of_not_done {x y : Step (StateM Workspace) Bool} {r r' : Except Failure Bool}
    {c'' : Conversion} (hx : Speaks x c w r c') (hr : r ≠ .ok true)
    (h : exec (do
      if !(← x) then return false
      y) c w = ((r', c''), w')) : r' ≠ .ok true ∧ ∃ lines, w' = w.said lines := by
  obtain ⟨lines, hx⟩ := hx
  rw [exec_bind, hx] at h
  match r, hr with
  | .error f, _ =>
    cases h
    exact ⟨nofun, lines, rfl⟩
  | .ok false, _ =>
    cases h
    exact ⟨nofun, lines, rfl⟩

theorem exec_of_done {x y : Step (StateM Workspace) Bool} {lines : List String}
    (hx : exec x c w = ((.ok true, c'), w.said lines)) :
    exec (do
      if !(← x) then return false
      y) c w = exec y c' (w.said lines) := by
  rw [exec_bind, hx]
  rfl

/-- The code of the input file, if it comes to be made. -/
def Made (c : Conversion) (w : Workspace) : Prop :=
  ∃ reg models text, registryOf w c.settings = some reg ∧ models? reg c.settings.space = some models ∧
    (Code.fileText reg models).result = .ok text

/-- **Converting.**  If it is done, the code could be made.  If it is not, the code is left as far as
it was made, and no other file is touched. -/
theorem exec_convert_ends {dumpModel : Bool} {r : Except Failure Bool}
    (h : exec (convert dumpModel) c w = ((r, c'), w')) :
    (r = .ok true → Made c w) ∧
      (r ≠ .ok true → ∀ q, w'.file? q = w.fileAfter (left? c w) q) := by
  unfold convert at h
  unfold left?
  cases hreg : registryOf w c.settings with
  | none =>
    obtain ⟨r', hr', hload⟩ := speaks_load_of_none hreg
    obtain ⟨hr, lines, rfl⟩ := said_of_not_done hload hr' h
    exact ⟨fun htrue => absurd htrue hr, fun _ _ => rfl⟩
  | some reg =>
    obtain ⟨lines, hload⟩ := speaks_load_of_some hreg
    rw [exec_of_done hload] at h
    rw [Option.bind_some]
    cases hmodels : models? reg c.settings.space with
    | none =>
      obtain ⟨r', hr', hbuild⟩ := speaks_build_of_none (w := w.said lines)
        (c := { c with loaded := some reg }) rfl hmodels
      obtain ⟨hr, lines', rfl⟩ := said_of_not_done hbuild hr' h
      exact ⟨fun htrue => absurd htrue hr, fun _ _ => rfl⟩
    | some models =>
      obtain ⟨lines', hbuild⟩ := speaks_build_of_some (w := w.said lines)
        (c := { c with loaded := some reg }) rfl hmodels
      rw [exec_of_done hbuild] at h
      obtain ⟨hdone, hleft⟩ := exec_generate_ends rfl h
      refine ⟨fun htrue => ?_, fun hr q => ?_⟩
      · obtain ⟨text, htext⟩ := hdone htrue
        exact ⟨reg, models, text, hreg, hmodels, htext⟩
      · rw [hleft hr q, opened?_said, opened?_said]
        rfl

end Conversion

/-! ### Whole runs -/

section

variable {args : List String} {env : String → Option String} {c : Conversion} {dumpModel : Bool}
  {w w' : Workspace} {o : Outcome}

/-- The conversion that a run starts, and whether the models are wanted as a document. -/
def started? (args : List String) (env : String → Option String) : Option (Conversion × Bool) :=
  match readArguments args with
  | .error _ => none
  | .ok a =>
    let a := a.override env
    let input := a.input.getD ""
    let output := a.output.getD ""
    if input = "" ∨ output = "" then none
    else some (.start input output a.space a.outputName a.verbose, a.dumpModel)

theorem run_of_none (h : started? args env = none) (w : Workspace) :
    ∃ o lines, (run (m := StateM Workspace) args env).run w = (o, w.said lines) := by
  unfold started? at h
  unfold run
  split at h
  · rename_i refusal hread
    rw [hread]
    cases refusal with
    | misuse => exact ⟨.misused, [], by rw [Workspace.said_nil]; rfl⟩
    | helpWanted => exact ⟨.success, [], by rw [Workspace.said_nil]; rfl⟩
  · rename_i a hread
    rw [hread]
    dsimp only at h ⊢
    split_ifs at h with hmissing
    rw [if_pos hmissing]
    exact ⟨.failed, ["Error: --input and --output are required"], rfl⟩

theorem run_of_some (h : started? args env = some (c, dumpModel)) (w : Workspace) :
    (run (m := StateM Workspace) args env).run w =
      match exec (convert dumpModel) c w with
      | ((.error f, _), w') => (.broken f, w')
      | ((.ok false, _), w') => (.failed, w')
      | ((.ok true, _), w') => (.success, w'.said ["Struct conversion completed successfully."]) := by
  unfold started? at h
  unfold run
  split at h
  · cases h
  · rename_i a hread
    rw [hread]
    dsimp only at h ⊢
    split_ifs at h with hmissing
    obtain ⟨hc, hdump⟩ := Prod.mk.inj (Option.some.inj h)
    rw [if_neg hmissing, StateT.run_bind, hc, hdump]
    unfold exec
    rcases ((convert dumpModel : Step (StateM Workspace) Bool).run.run c).run w with
      ⟨⟨_ | done, d⟩, v⟩
    · rfl
    · cases done <;> rfl

/-- What a run that does not succeed leaves in the file of the code, if it comes to that. -/
def left? (args : List String) (env : String → Option String) (w : Workspace) :
    Option (List String × String) :=
  (started? args env).bind fun started => started.1.left? w

/-- **Ends of runs.**  A run that succeeds could make the code, if it started a conversion.  One that
does not changes at most the file of the code. -/
theorem run_ends (h : (run (m := StateM Workspace) args env).run w = (o, w')) :
    (o = .success → ∀ c dumpModel, started? args env = some (c, dumpModel) → c.Made w) ∧
      (o ≠ .success → ∀ q, w'.file? q = w.fileAfter (left? args env w) q) := by
  unfold left?
  cases hstart : started? args env with
  | none =>
    obtain ⟨o', lines, hrun⟩ := run_of_none hstart w
    cases hrun.symm.trans h
    exact ⟨fun _ _ _ hnone => absurd hnone (by simp), fun _ _ => rfl⟩
  | some started =>
    obtain ⟨c, dumpModel⟩ := started
    rw [run_of_some hstart] at h
    rcases hconvert : exec (convert dumpModel) c w with ⟨⟨f | done, d⟩, v⟩
    · obtain ⟨-, hleft⟩ := exec_convert_ends hconvert
      rw [hconvert] at h
      cases h
      exact ⟨nofun, fun _ => hleft nofun⟩
    · obtain ⟨hmade, hleft⟩ := exec_convert_ends hconvert
      rw [hconvert] at h
      cases done with
      | false =>
        cases h
        exact ⟨nofun, fun _ => hleft (by simp)⟩
      | true =>
        cases h
        refine ⟨fun _ c' dumpModel' hsame => ?_, fun ho => absurd rfl ho⟩
        cases hsame
        exact hmade rfl

theorem locate_of_left? {place : List String} {text : String}
    (hstart : started? args env = some (c, dumpModel))
    (hleft : left? args env w = some (place, text)) :
    ∃ v : Workspace, v.locate c.settings.codePath = .ok place := by
  rw [left?, hstart, Option.bind_some] at hleft
  obtain ⟨reg, -, hleft⟩ := Option.bind_eq_some_iff.1 hleft
  obtain ⟨models, -, hleft⟩ := Option.bind_eq_some_iff.1 hleft
  obtain ⟨place', hopened, heq⟩ := Option.map_eq_some_iff.1 hleft
  cases heq
  unfold opened? at hopened
  split at hopened
  · exact ⟨_, (Workspace.writable?_eq_some.1 hopened).1⟩
  · cases hopened

/-- **What a failure changes.**  Let a run not succeed.  The document is left as it was.  The code is
left as far as it was made, if the run came to open its file; all other files are left as they
were.  So no file is changed exactly if the run did not come to open the file of the code, or this
held just that before. -/
theorem files_kept_iff (h : (run (m := StateM Workspace) args env).run w = (o, w'))
    (ho : o ≠ .success) :
    (∀ q, w'.file? q = w.fileAfter (left? args env w) q) ∧
    (∀ c dumpModel (v : Workspace) q, started? args env = some (c, dumpModel) →
      v.locate c.settings.documentPath = .ok q → w'.file? q = w.file? q) ∧
    ((∀ q, w'.file? q = w.file? q) ↔
      ∀ place text, left? args env w = some (place, text) → w.file? place = some (some text)) := by
  have hafter := (run_ends h).2 ho
  refine ⟨hafter, fun c dumpModel v q hstart hq => ?_, ⟨fun hkept place text hleft => ?_, ?_⟩⟩
  · rw [hafter q]
    cases hleft : left? args env w with
    | none => rfl
    | some change =>
      obtain ⟨place, text⟩ := change
      obtain ⟨v', hplace⟩ := locate_of_left? hstart hleft
      exact if_neg (place_ne hplace hq).symm
  · rw [← hkept place, hafter place, hleft, Workspace.fileAfter, if_pos rfl]
  · intro hsame q
    rw [hafter q]
    cases hleft : left? args env w with
    | none => rfl
    | some change =>
      obtain ⟨place, text⟩ := change
      rw [Workspace.fileAfter]
      split
      · rename_i hq
        rw [hq, hsame place text hleft]
      · rfl

end

/-! ### A sample -/

namespace FailureSample

/-- A struct with a constant that is no number of its type. -/
def text : String := "namespace N \x7b struct A \x7b const X: f32 = \"z\"; \x7d \x7d"

/-- A workspace with the text, and with the code of an earlier run. -/
def workspace : Workspace where
  nodes := [(["a.mdl"], .file (some text)), (["out"], .directory),
    (["out", "a.rs"], .file (some "old"))]
  home := []
  printed := []

def arguments : List String := ["-i", "a.mdl", "-o", "out"]

def conversion : Conversion := .start "a.mdl" "out" none none false

theorem started?_arguments : started? arguments (fun _ => none) = some (conversion, false) := by cbv

def registry : Registry :=
  ⟨[⟨"N", ⟨"A", .struct, [⟨"X", .literal (some ⟨.text "z", "f32"⟩), some 1⟩], [], false, false, [],
    none, [], some "a.mdl", some 1, []⟩⟩]⟩

def model : Model where
  name := ⟨⟨"N", "A", []⟩, .struct, false, "N", "A"⟩
  explicitLayout := false
  generics := []
  fields := [("reserved", .ofPrimitive .u8)]
  constants := [("X", ⟨.text "z", "f32"⟩)]
  signature := none
  isTypedef := false
  guid := .absent
  nested := []
  shape := .full

theorem registryOf_workspace : registryOf workspace conversion.settings = some registry := by
  have hparts : Workspace.parts? "a.mdl" = .ok ["a.mdl"] := by
    rw [Workspace.parts?, if_neg (by decide), if_neg (by decide)]
    rfl
  have hread : workspace.read conversion.settings.input = .ok text := by
    rw [show conversion.settings.input = "a.mdl" from rfl, Workspace.read, Workspace.locate,
      if_neg (by decide), hparts]
    rfl
  rw [registryOf, hread]
  cbv

theorem models?_registry : models? registry conversion.settings.space = some [model] := by cbv

theorem fileText_model :
    (Code.fileText registry [model]).result = .error (.notNumeral (.text "z")) := by cbv

theorem opened?_workspace : opened? workspace conversion.settings = some ["out", "a.rs"] := by
  have hdirectories : workspace.makeDirectories conversion.settings.output = .ok workspace := by cbv
  have hpath : conversion.settings.codePath = "out/a.rs" := by cbv
  have hparts : Workspace.parts? "out/a.rs" = .ok ["out", "a.rs"] := by
    rw [Workspace.parts?, if_neg (by decide), if_neg (by decide)]
    rfl
  rw [opened?, hdirectories, hpath]
  refine Workspace.writable?_eq_some.2 ⟨?_, by decide⟩
  rw [Workspace.locate, if_neg (by decide), hparts]
  rfl

/-- **Code that is lost.**  The run fails, and the earlier code is gone. -/
theorem code_lost :
    ∃ o w', (run (m := StateM Workspace) arguments (fun _ => none)).run workspace = (o, w') ∧
      o ≠ .success ∧ workspace.file? ["out", "a.rs"] = some (some "old") ∧
      w'.file? ["out", "a.rs"] = some (some "") := by
  rcases hrun : (run (m := StateM Workspace) arguments (fun _ => none)).run workspace with ⟨o, w'⟩
  have ho : o ≠ .success := by
    intro hsuccess
    obtain ⟨reg, models, code, hreg, hmodels, hcode⟩ :=
      (run_ends hrun).1 hsuccess conversion false started?_arguments
    cases registryOf_workspace.symm.trans hreg
    cases models?_registry.symm.trans hmodels
    rw [fileText_model] at hcode
    cases hcode
  have hleft : left? arguments (fun _ => none) workspace = some (["out", "a.rs"], "") := by
    rw [left?, started?_arguments, Option.bind_some, Conversion.left?, registryOf_workspace,
      Option.bind_some, models?_registry, Option.bind_some, opened?_workspace, Option.map_some,
      codeOrNothing, fileText_model]
  refine ⟨o, w', rfl, ho, rfl, ?_⟩
  rw [(files_kept_iff hrun ho).1, hleft]
  rfl

end FailureSample

end Bindery.Command
