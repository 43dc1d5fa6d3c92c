import Mathlib.Tactic.SplitIfs
import Bindery.Command.Workspace
import Bindery.Proofs.Sequence
/-!
# What happens to files

Printing changes no file, and neither does making directories.  Writing changes the one file to
which its path leads, and can then be repeated there (`writable?_put_file`).  The place of a file that
is given with an extension has a name with this extension (`getLast?_locate`).
-/

namespace Bindery.Command

namespace Workspace

variable {w w' : Workspace} {place q : List String}

/-! ### Printed lines -/

def said (w : Workspace) (lines : List String) : Workspace :=
  { w with printed := w.printed ++ lines }

@[simp] theorem said_nil (w : Workspace) : w.said [] = w := by simp [said]

@[simp] theorem said_said (w : Workspace) (lines lines' : List String) :
    (w.said lines).said lines' = w.said (lines ++ lines') := by
  simp [said]

@[simp] theorem node?_said (w : Workspace) (lines : List String) (place : List String) :
    (w.said lines).node? place = w.node? place := rfl

@[simp] theorem put_said (w : Workspace) (lines : List String) (place : List String) (n : Node) :
    (w.said lines).put place n = (w.put place n).said lines := rfl

theorem follow_said (w : Workspace) (lines : List String) (place parts : List String) :
    (w.said lines).follow place parts = w.follow place parts := by
  induction parts generalizing place with
  | nil => rfl
  | cons part rest ih => simp only [follow, node?_said, ih]

@[simp] theorem locate_said (w : Workspace) (lines : List String) (path : String) :
    (w.said lines).locate path = w.locate path := by
  simp only [locate, follow_said]
  rfl

theorem write_said (w : Workspace) (lines : List String) (path text : String) :
    (w.said lines).write path text = (w.write path text).map (·.said lines) := by
  simp only [write, locate_said, node?_said, put_said]
  cases w.locate path with
  | error f => rfl
  | ok place =>
    simp only [bind, Except.bind]
    split <;> rfl

theorem extend_said (w : Workspace) (lines : List String) (place parts : List String) :
    (w.said lines).extend place parts = (w.extend place parts).map (·.said lines) := by
  induction parts generalizing w place with
  | nil => rfl
  | cons part rest ih =>
    simp only [extend, node?_said, put_said, ih]
    repeat' split
    all_goals rfl

theorem makeDirectories_said (w : Workspace) (lines : List String) (path : String) :
    (w.said lines).makeDirectories path = (w.makeDirectories path).map (·.said lines) := by
  simp only [makeDirectories, extend_said]
  cases parts? path <;> rfl

/-! ### Files -/

/-- The file at a place: its text, if its bytes are one. -/
def file? (w : Workspace) (place : List String) : Option (Option String) :=
  match w.node? place with
  | some (.file text) => some text
  | _ => none

@[simp] theorem file?_said (w : Workspace) (lines : List String) (place : List String) :
    (w.said lines).file? place = w.file? place := rfl

theorem node?_put_self {n : Node} (h : place ≠ []) : (w.put place n).node? place = some n := by
  simp [node?, put, h]

theorem node?_put_of_ne {n : Node} (h : q ≠ place) : (w.put place n).node? q = w.node? q := by
  unfold node?
  split
  · rfl
  · have hkeep : ∀ l : List (List String × Node),
        (l.filter (·.1 ≠ place)).lookup q = l.lookup q := by
      intro l
      induction l with
      | nil => rfl
      | cons e l ih =>
        by_cases he : e.1 = place
        · rw [List.filter_cons_of_neg (by simpa using he), List.lookup_cons, ih,
            beq_eq_false_iff_ne.2 (he ▸ h)]
        · rw [List.filter_cons_of_pos (by simpa using he), List.lookup_cons, List.lookup_cons, ih]
    simp only [put, List.lookup_cons, beq_eq_false_iff_ne.2 h]
    exact hkeep w.nodes

theorem ne_nil_of_node? (h : w.node? place ≠ some .directory) : place ≠ [] := by
  rintro rfl
  exact h rfl

theorem file?_put_directory (h : w.node? place = none) :
    (w.put place .directory).file? q = w.file? q := by
  unfold file?
  by_cases hq : q = place
  · have hne : place ≠ [] := ne_nil_of_node? (w := w) (by simp [h])
    rw [hq, node?_put_self hne, h]
  · rw [node?_put_of_ne hq]

theorem file?_extend {parts : List String} (h : w.extend place parts = .ok w') :
    w'.file? q = w.file? q := by
  induction parts generalizing w place with
  | nil =>
    cases h
    rfl
  | cons part rest ih =>
    rw [extend] at h
    split at h
    · exact ih h
    · split at h
      · exact ih h
      · split at h
        · cases h
        · split at h
          · cases h
          · dsimp only at h
            split at h
            · exact ih h
            · cases h
            · rename_i hnone
              rw [ih h, file?_put_directory hnone]

theorem file?_makeDirectories {path : String} (h : w.makeDirectories path = .ok w') :
    w'.file? q = w.file? q := by
  unfold makeDirectories at h
  obtain ⟨parts, -, h⟩ := bind_eq_ok.1 h
  exact file?_extend h

/-! ### Writing -/

theorem file?_put_file (h : w.node? place ≠ some .directory) (text : Option String) :
    (w.put place (.file text)).file? q = if q = place then some text else w.file? q := by
  unfold file?
  by_cases hq : q = place
  · rw [if_pos hq, hq, node?_put_self (ne_nil_of_node? h)]
  · rw [if_neg hq, node?_put_of_ne hq]

/-- The place of the file that is written under a path: one to which the path leads and where no
directory is. -/
def writable? (w : Workspace) (path : String) : Option (List String) :=
  match w.locate path with
  | .ok place => if w.node? place = some .directory then none else some place
  | .error _ => none

theorem writable?_eq_some {path : String} : w.writable? path = some place ↔
    w.locate path = .ok place ∧ w.node? place ≠ some .directory := by
  unfold writable?
  cases w.locate path with
  | error f => simp
  | ok q =>
    dsimp only
    split_ifs with hdir
    · simp only [Except.ok.injEq, false_iff, not_and, not_not]
      rintro rfl
      exact hdir
    · simp only [Option.some.injEq, Except.ok.injEq]
      exact ⟨fun h => ⟨h, h ▸ hdir⟩, And.left⟩

theorem write_of_some {path : String} (h : w.writable? path = some place) (text : String) :
    w.write path text = .ok (w.put place (.file (some text))) := by
  obtain ⟨hplace, hdir⟩ := writable?_eq_some.1 h
  unfold write
  rw [hplace]
  simp only [bind, Except.bind]

theorem write_of_none {path : String} (h : w.writable? path = none) (text : String) :
    ∃ f, w.write path text = .error f := by
  unfold writable? at h
  unfold write
  cases hplace : w.locate path with
  | error f => exact ⟨f, rfl⟩
  | ok place =>
    rw [hplace] at h
    dsimp only at h
    split_ifs at h with hdir
    refine ⟨.isDirectory, ?_⟩
    simp only [bind, Except.bind, hdir]

/-- A new file leaves the ways that do not end in it: what is on the way is a directory. -/
theorem follow_put_file {start parts : List String} (h : w.follow start parts = .ok q)
    (hplace : w.node? place ≠ some .directory) (text : Option String) :
    (w.put place (.file text)).follow start parts = .ok q := by
  induction parts generalizing start with
  | nil => exact h
  | cons part rest ih =>
    rw [follow] at h ⊢
    split at h
    · cases h
    · cases h
    · rename_i hdir
      have hne : start ≠ place := by
        rintro rfl
        exact hplace hdir
      rw [node?_put_of_ne hne, hdir]
      dsimp only at h ⊢
      split_ifs at h ⊢ with hpart hup hlong
      · exact ih h
      · exact ih h
      · exact ih h

theorem locate_put_file {path : String} (h : w.locate path = .ok q)
    (hplace : w.node? place ≠ some .directory) (text : Option String) :
    (w.put place (.file text)).locate path = .ok q := by
  unfold locate at h ⊢
  split at h
  · cases h
  · rename_i hnull
    rw [if_neg hnull]
    simp only [bind_eq_ok] at h ⊢
    obtain ⟨parts, hparts, h⟩ := h
    exact ⟨parts, hparts, follow_put_file h hplace text⟩

/-- **Writing again.**  What was written once can be replaced, at the same place. -/
theorem writable?_put_file {path : String} (h : w.writable? path = some place)
    (text : Option String) : (w.put place (.file text)).writable? path = some place := by
  obtain ⟨hplace, hdir⟩ := writable?_eq_some.1 h
  refine writable?_eq_some.2 ⟨locate_put_file hplace hdir text, ?_⟩
  rw [node?_put_self (ne_nil_of_node? hdir)]
  simp

theorem file?_put_of_writable? {path : String} (h : w.writable? path = some place)
    (text : Option String) :
    (w.put place (.file text)).file? q = if q = place then some text else w.file? q :=
  file?_put_file (writable?_eq_some.1 h).2 text

@[simp] theorem writable?_said (w : Workspace) (lines : List String) (path : String) :
    (w.said lines).writable? path = w.writable? path := by
  simp only [writable?, locate_said, node?_said]
  rfl

/-! ### The names of files -/

theorem getLast?_parts {ending : String} (h : '/' ∉ ending.toList) (path : String) :
    ∃ stem, (parts (path ++ ending)).getLast? = some (stem ++ ending) := by
  have hchars : ∀ cs : List Char, ∃ stem,
      ((cs ++ ending.toList).splitOn '/').getLast? = some (stem ++ ending.toList) := by
    intro cs
    -- what stands before the last slash makes no difference
    induction cs with
    | nil => exact ⟨[], by rw [List.nil_append, List.splitOn_eq_singleton h]; rfl⟩
    | cons c cs ih =>
      obtain ⟨stem, hstem⟩ := ih
      rw [List.cons_append, List.splitOn_cons_eq_if_modifyHead]
      cases hrest : (cs ++ ending.toList).splitOn '/' with
      | nil => exact absurd hrest (List.splitOn_ne_nil _ _)
      | cons first others =>
        rw [hrest] at hstem
        split
        · exact ⟨stem, by rw [List.getLast?_cons_cons, hstem]⟩
        · cases others with
          | nil =>
            obtain rfl : first = stem ++ ending.toList := by simpa using hstem
            exact ⟨c :: stem, rfl⟩
          | cons second others =>
            rw [List.getLast?_cons_cons] at hstem
            exact ⟨stem, by rw [List.modifyHead_cons, List.getLast?_cons_cons, hstem]⟩
  obtain ⟨stem, hstem⟩ := hchars path.toList
  refine ⟨.ofList stem, ?_⟩
  rw [parts, List.getLast?_map, String.toList_append, hstem]
  simp

theorem getLast?_follow {start parts : List String} {name : String}
    (h : w.follow start parts = .ok q) (hname : parts.getLast? = some name) (hempty : name ≠ "")
    (hhere : name ≠ ".") (hup : name ≠ "..") : q.getLast? = some name := by
  induction parts generalizing start with
  | nil => cases hname
  | cons part rest ih =>
    rw [follow] at h
    cases rest with
    | nil =>
      obtain rfl : part = name := by simpa using hname
      split at h
      · cases h
      · cases h
      · rw [if_neg (by simp [hempty, hhere]), if_neg hup] at h
        split at h
        · cases h
        · cases h
          simp
    | cons next rest =>
      rw [List.getLast?_cons_cons] at hname
      split at h
      · cases h
      · cases h
      · split_ifs at h
        · exact ih h hname
        · exact ih h hname
        · exact ih h hname

/-- A file with an extension has a place whose name ends with it. -/
theorem getLast?_locate {directory name ending : String} (hslash : '/' ∉ ending.toList)
    (hlong : 3 ≤ ending.length) (h : w.locate (joinPath directory (name ++ ending)) = .ok q) :
    ∃ stem, q.getLast? = some (stem ++ ending) := by
  have hpath : ∃ path, joinPath directory (name ++ ending) = path ++ ending := by
    unfold joinPath
    split_ifs
    · exact ⟨name, rfl⟩
    · exact ⟨directory ++ name, by rw [String.append_assoc]⟩
    · exact ⟨directory ++ "/" ++ name, by simp only [String.append_assoc]⟩
  obtain ⟨path, hpath⟩ := hpath
  obtain ⟨stem, hstem⟩ := getLast?_parts hslash path
  have hne : ∀ short : String, short.length < 3 → stem ++ ending ≠ short := by
    rintro short hshort rfl
    rw [String.length_append] at hshort
    omega
  unfold locate at h
  rw [hpath] at h
  split at h
  · cases h
  · obtain ⟨_, hparts, h⟩ := bind_eq_ok.1 h
    unfold parts? at hparts
    split_ifs at hparts
    cases hparts
    exact ⟨stem, getLast?_follow h hstem (hne _ (by decide)) (hne _ (by decide))
      (hne _ (by decide))⟩

end Workspace

end Bindery.Command
