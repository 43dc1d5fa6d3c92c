import Bindery.Proofs.Code.File
/-!
# String literals in files

A file takes the text of a model apart into lines and puts these at the depth of the module.  So a
literal that holds a line end does not stand in a file as it was written: its further lines are
moved in, and every line end becomes a line feed (`relined`).
-/

namespace Bindery.Code

open Text

variable {depth : Nat} {c d : Char} {cs rest : List Char}

/-! ### Text at a depth -/

def placed (depth : Nat) (line : List Char) : List Char := (shifted depth (.ofList line)).toList

def following (depth : Nat) (ls : List (List Char)) : List Char :=
  ls.flatMap fun line => '\n' :: placed depth line

/-- Lines of which the first goes on behind other text, and the others stand at a depth. -/
def continued (depth : Nat) : List (List Char) → List Char
  | [] => []
  | line :: ls => line ++ following depth ls

/-- A text behind other text on a line, with its further lines at a depth. -/
def relined (depth : Nat) (text : String) : String :=
  .ofList (continued depth (lines text.toList))

theorem placed_cons (depth : Nat) (c : Char) (line : List Char) :
    placed depth (c :: line) = List.replicate (4 * depth) ' ' ++ c :: line := by
  have hne : String.ofList (c :: line) ≠ "" := by simp [← String.toList_inj]
  rw [placed, shifted, if_neg hne, String.toList_append, String.toList_ofList, String.toList_ofList]

/-! ### Lines one character after the other -/

theorem lines_cons_of_mem (hc : c ∈ lineEnds) (hpair : c = '\x0d' → rest.head? ≠ some '\n') :
    lines (c :: rest) = [] :: lines rest := by
  rw [lines.eq_3 _ _ fun r hr hrest => hpair hr (by rw [hrest]; rfl), if_pos hc]

theorem lines_cons_of_not_mem (hc : c ∉ lineEnds) (rest : List Char) :
    lines (c :: rest) = (c :: (lines rest).headD []) :: (lines rest).tail := by
  rw [lines.eq_3 _ _ fun r hr _ => hc (by rw [hr]; decide), if_neg hc]
  cases lines rest <;> rfl

theorem continued_lines_cons (hc : c ∉ lineEnds) (rest : List Char) :
    continued depth (lines (c :: rest)) = c :: continued depth (lines rest) := by
  rw [lines_cons_of_not_mem hc, continued]
  cases lines rest <;> rfl

theorem following_lines_cons (hc : c ∉ lineEnds) (rest : List Char) :
    following depth (lines (c :: rest)) =
      '\n' :: List.replicate (4 * depth) ' ' ++ c :: continued depth (lines rest) := by
  rw [lines_cons_of_not_mem hc, following, List.flatMap_cons, placed_cons]
  cases lines rest <;> simp [continued, following]

theorem following_nil_cons (depth : Nat) (ls : List (List Char)) :
    following depth ([] :: ls) = '\n' :: following depth ls := rfl

/-- A text may be taken apart behind any character that ends no line. -/
theorem continued_lines_append (hc : c ∉ lineEnds) (cs rest : List Char) :
    continued depth (lines (cs ++ c :: rest)) =
        continued depth (lines (cs ++ [c])) ++ continued depth (lines rest) ∧
      following depth (lines (cs ++ c :: rest)) =
        following depth (lines (cs ++ [c])) ++ continued depth (lines rest) := by
  induction cs using lines.induct with
  | case1 =>
    rw [List.nil_append, List.nil_append, continued_lines_cons hc, continued_lines_cons hc,
      following_lines_cons hc, following_lines_cons hc]
    exact ⟨rfl, by simp [lines, continued]⟩
  | case2 cs ih =>
    rw [List.cons_append, List.cons_append, List.cons_append, List.cons_append, lines, lines]
    exact ⟨ih.2, by rw [following_nil_cons, following_nil_cons, ih.2, List.cons_append]⟩
  | case3 d cs hpair hd ih =>
    -- what follows is no line feed, as it is not in `cs` and `c` is none
    have hhead (rest : List Char) : d = '\x0d' → (cs ++ c :: rest).head? ≠ some '\n' := by
      intro hr
      cases cs with
      | nil => exact fun h => hc (by cases h; decide)
      | cons e cs => exact fun h => hpair cs hr (by cases h; rfl)
    rw [List.cons_append, List.cons_append, lines_cons_of_mem hd (hhead _),
      lines_cons_of_mem hd (hhead _)]
    exact ⟨ih.2, by rw [following_nil_cons, following_nil_cons, ih.2, List.cons_append]⟩
  | case4 d cs _ hd _ ih | case5 d cs _ hd _ _ _ ih =>
    rw [List.cons_append, List.cons_append, continued_lines_cons hd, continued_lines_cons hd,
      following_lines_cons hd, following_lines_cons hd, ih.1]
    simp

/-! ### What is changed -/

theorem not_mem_lineEnds_of_mem_lines {line : List Char} (h : line ∈ lines cs) (hd : d ∈ line) :
    d ∉ lineEnds := by
  induction cs using lines.induct generalizing line with
  | case1 => cases h
  | case2 cs ih =>
    rw [lines] at h
    rcases List.mem_cons.1 h with rfl | h
    · cases hd
    · exact ih h hd
  | case3 c cs hpair hc ih =>
    rw [lines.eq_3 _ _ hpair, if_pos hc] at h
    rcases List.mem_cons.1 h with rfl | h
    · cases hd
    · exact ih h hd
  | case4 c cs _ hc hlines ih =>
    rw [lines_cons_of_not_mem hc, hlines] at h
    obtain rfl := List.mem_singleton.1 h
    obtain rfl := List.mem_singleton.1 hd
    exact hc
  | case5 c cs _ hc line' others hlines ih =>
    rw [lines_cons_of_not_mem hc, hlines] at h
    rw [hlines] at ih
    rcases List.mem_cons.1 h with rfl | h
    · rcases List.mem_cons.1 hd with rfl | hd
      · exact hc
      · exact ih List.mem_cons_self hd
    · exact ih (List.mem_cons_of_mem _ h) hd

theorem eq_of_mem_continued_lines (h : d ∈ continued depth (lines cs)) (hd : d ∈ lineEnds) :
    d = '\n' := by
  have hlines {line : List Char} (hline : line ∈ lines cs) : d ∉ line := fun hmem =>
    not_mem_lineEnds_of_mem_lines hline hmem hd
  cases hcs : lines cs with
  | nil =>
    rw [hcs] at h
    cases h
  | cons first ls =>
    rw [hcs] at h hlines
    rcases List.mem_append.1 h with h | h
    · exact absurd h (hlines List.mem_cons_self)
    · obtain ⟨line, hline, h⟩ := List.mem_flatMap.1 h
      rcases List.mem_cons.1 h with h | h
      · exact h
      · cases line with
        | nil => cases h
        | cons e line =>
          rw [placed_cons] at h
          rcases List.mem_append.1 h with h | h
          · rw [List.eq_of_mem_replicate h] at hd
            exact absurd hd (by decide)
          · exact absurd h (hlines (List.mem_cons_of_mem _ hline))

theorem continued_lines_of_not_mem (h : ∀ d ∈ cs, d ∉ lineEnds) :
    continued depth (lines cs) = cs := by
  induction cs with
  | nil => rfl
  | cons d cs ih =>
    rw [List.forall_mem_cons] at h
    rw [continued_lines_cons h.1, ih h.2]

/-- A text that ends no line and has no line ends but line feeds gets longer by an indentation for
every line that is not empty. -/
theorem length_le_continued_lines (depth : Nat) (hc : c ∉ lineEnds)
    (h : ∀ d ∈ cs, d ∈ lineEnds → d = '\n') :
    cs.length + 1 ≤ (continued depth (lines (cs ++ [c]))).length ∧
      cs.length + 2 + 4 * depth ≤ (following depth (lines (cs ++ [c]))).length ∧
      ('\n' ∈ cs → cs.length + 1 + 4 * depth ≤ (continued depth (lines (cs ++ [c]))).length) := by
  induction cs with
  | nil =>
    rw [List.nil_append, continued_lines_cons hc, following_lines_cons hc]
    simp
    omega
  | cons d cs ih =>
    rw [List.forall_mem_cons] at h
    obtain ⟨hcontinued, hfollowing, hlonger⟩ := ih h.2
    rw [List.cons_append]
    by_cases hd : d ∈ lineEnds
    · obtain rfl := h.1 hd
      have hnext : lines ('\n' :: (cs ++ [c])) = [] :: lines (cs ++ [c]) :=
        lines_cons_of_mem hd (fun h => absurd h (by decide))
      have hsame : continued depth (lines ('\n' :: (cs ++ [c]))) =
          following depth (lines (cs ++ [c])) := by rw [hnext]; rfl
      rw [hsame, hnext, following_nil_cons, List.length_cons, List.length_cons]
      exact ⟨by omega, by omega, fun _ => by omega⟩
    · have hne : '\n' ≠ d := by
        rintro rfl
        exact hd (by decide)
      rw [continued_lines_cons hd, following_lines_cons hd, List.mem_cons, or_iff_right hne]
      simp only [List.cons_append, List.length_cons, List.length_append, List.length_replicate]
      refine ⟨by omega, by omega, fun hmem => ?_⟩
      have hmore := hlonger hmem
      omega

theorem continued_lines_zero (hc : c ∉ lineEnds) (h : ∀ d ∈ cs, d ∈ lineEnds → d = '\n') :
    continued 0 (lines (cs ++ [c])) = cs ++ [c] ∧
      following 0 (lines (cs ++ [c])) = '\n' :: (cs ++ [c]) := by
  induction cs with
  | nil =>
    rw [List.nil_append, continued_lines_cons hc, following_lines_cons hc]
    exact ⟨rfl, rfl⟩
  | cons d cs ih =>
    rw [List.forall_mem_cons] at h
    obtain ⟨hcontinued, hfollowing⟩ := ih h.2
    rw [List.cons_append]
    by_cases hd : d ∈ lineEnds
    · obtain rfl := h.1 hd
      rw [lines_cons_of_mem hd (fun h => absurd h (by decide))]
      exact ⟨hfollowing, by rw [following_nil_cons, hfollowing]⟩
    · rw [continued_lines_cons hd, following_lines_cons hd, hcontinued]
      exact ⟨rfl, rfl⟩

/-- A text that ends no line is kept only if it has no line end, or none but line feeds at no depth.
-/
theorem continued_lines_eq_iff (hc : c ∉ lineEnds) :
    continued depth (lines (cs ++ [c])) = cs ++ [c] ↔
      (∀ d ∈ cs, d ∉ lineEnds) ∨ (depth = 0 ∧ ∀ d ∈ cs, d ∈ lineEnds → d = '\n') := by
  constructor
  · intro h
    have hfeeds : ∀ d ∈ cs, d ∈ lineEnds → d = '\n' := by
      intro d hmem hd
      have hleft : d ∈ continued depth (lines (cs ++ [c])) := by
        rw [h]
        exact List.mem_append_left _ hmem
      exact eq_of_mem_continued_lines hleft hd
    by_cases hnone : ∀ d ∈ cs, d ∉ lineEnds
    · exact .inl hnone
    · push Not at hnone
      obtain ⟨d, hmem, hd⟩ := hnone
      obtain rfl := hfeeds d hmem hd
      have hlonger := (length_le_continued_lines depth hc hfeeds).2.2 hmem
      rw [h, List.length_append, List.length_singleton] at hlonger
      exact .inr ⟨by omega, hfeeds⟩
  · rintro (hnone | ⟨rfl, hfeeds⟩)
    · refine continued_lines_of_not_mem fun d hd => ?_
      rcases List.mem_append.1 hd with hd | hd
      · exact hnone d hd
      · rwa [List.mem_singleton.1 hd]
    · exact (continued_lines_zero hc hfeeds).1

/-! ### Literals -/

theorem mem_encodeLiteral_iff (hd : d ∈ lineEnds) :
    d ∈ '\x22' :: cs.flatMap escapeChar ↔ d ∈ cs := by
  have hquote : d ≠ '\x22' := by
    rintro rfl
    exact absurd hd (by decide)
  have hslash : d ≠ '\\' := by
    rintro rfl
    exact absurd hd (by decide)
  have hescape (e : Char) : d ∈ escapeChar e ↔ d = e := by
    unfold escapeChar
    split
    · simp [hslash]
    · simp
  rw [List.mem_cons, or_iff_right hquote, List.mem_flatMap]
  simp [hescape]

/-- **Which literals are kept.**  A literal in a file is what it was if it has no line end, or has
none but line feeds and stands in no module. -/
theorem relined_stringLiteral_eq_iff {text : String} :
    relined depth (stringLiteral text) = stringLiteral text ↔
      (∀ d ∈ text.toList, d ∉ lineEnds) ∨
        (depth = 0 ∧ ∀ d ∈ text.toList, d ∈ lineEnds → d = '\n') := by
  have hquote : '\x22' ∉ lineEnds := by decide
  have hends {P : Char → Prop} :
      (∀ d ∈ '\x22' :: text.toList.flatMap escapeChar, d ∈ lineEnds → P d) ↔
        ∀ d ∈ text.toList, d ∈ lineEnds → P d :=
    forall_congr' fun d =>
      ⟨fun h hd hend => h ((mem_encodeLiteral_iff hend).2 hd) hend,
        fun h hd hend => h ((mem_encodeLiteral_iff hend).1 hd) hend⟩
  rw [relined, stringLiteral, encodeLiteral, String.ofList_inj, String.toList_ofList]
  refine (continued_lines_eq_iff hquote).trans ?_
  exact or_congr (hends (P := fun _ => False)) (and_congr_right fun _ => hends)

/-! ### Files -/

section File

variable {reg : Registry} {models : List Model} {code : String} {m : Model}

theorem toList_joinLines (line : String) (ls : List String) :
    (joinLines (line :: ls)).toList = line.toList ++ ls.flatMap fun l => '\n' :: l.toList :=
  toList_intercalate_cons "\n" line ls

theorem infix_flatMap {α β : Type} {a : α} {l : List α} (h : a ∈ l) (f : α → List β) :
    f a <:+: l.flatMap f := by
  obtain ⟨before, after, rfl⟩ := List.append_of_mem h
  exact ⟨before.flatMap f, after.flatMap f, by simp⟩

theorem infix_joinLines {line : String} {ls : List String} (h : line ∈ ls) :
    line.toList <:+: (joinLines ls).toList := by
  cases ls with
  | nil => cases h
  | cons l ls =>
    rw [toList_joinLines]
    rcases List.mem_cons.1 h with rfl | h
    · exact (List.prefix_append _ _).isInfix
    · have hbehind : ('\n' :: line.toList) <:+: ls.flatMap fun l => '\n' :: l.toList :=
        infix_flatMap h fun l : String => '\n' :: l.toList
      exact ((List.suffix_cons _ _).isInfix.trans hbehind).trans (List.suffix_append _ _).isInfix

theorem infix_moduleLines {path target : List String} {ls : List String}
    {modules : List (List String × List String)} (h : (target, ls) ∈ modules) :
    ls.map (lineAt target.length) <:+: moduleLines path modules := by
  induction modules generalizing path with
  | nil => cases h
  | cons e modules ih =>
    obtain ⟨target', ls'⟩ := e
    rw [moduleLines]
    rcases List.mem_cons.1 h with heq | h
    · cases heq
      exact ⟨_, _, rfl⟩
    · exact (ih h).trans (List.suffix_append _ _).isInfix

theorem infix_moduleLines_ofModels (hm : m ∈ models) (lines : Model → List String) :
    (lines m).map (shifted m.modulePath.length) <:+:
      moduleLines [] (ModuleTree.entriesAt lines [] (.ofModels models)) := by
  obtain ⟨ms, hms, hmem⟩ := exists_mem_byModule hm
  have hentry : (m.modulePath, ms.flatMap lines) ∈
      ModuleTree.entriesAt lines [] (.ofModels models) := by
    rw [entriesAt_ofModels]
    exact List.mem_map.2 ⟨_, hms, rfl⟩
  rw [← lineAt_eq_shifted]
  exact ((infix_flatMap hmem lines).map (lineAt m.modulePath.length)).trans (infix_moduleLines hentry)

/-- The declarations of a model stand in a file at the depth of its module. -/
theorem exists_infix_fileText (h : (fileText reg models).result = .ok code) (hm : m ∈ models) :
    ∃ ds, (m.declarations reg).result = .ok ds ∧
      following m.modulePath.length (lines (joinDeclarations ds).toList) <:+: code.toList := by
  rw [fileText, Traced.result_bind, bind_eq_ok'] at h
  obtain ⟨filled, hfilled, hcode⟩ := h
  obtain ⟨declared, hdeclared, rfl⟩ := filledModules_eq_ok.1 hfilled
  refine ⟨declared m, hdeclared m hm, ?_⟩
  have hfollowing : following m.modulePath.length (lines (joinDeclarations (declared m)).toList) =
      ((declaredLines (declared m)).map (shifted m.modulePath.length)).flatMap
        fun l => '\n' :: l.toList := by
    rw [declaredLines, linesOf, List.map_map, List.flatMap_map]
    rfl
  have hplaced := (infix_moduleLines_ofModels hm fun m => declaredLines (declared m)).trans
    (List.suffix_cons "" _).isInfix
  cases hcode
  rw [hfollowing, String.toList_append, List.cons_append, toList_joinLines]
  refine (hplaced.flatMap fun l => '\n' :: l.toList).trans ?_
  exact (List.suffix_append _ _).isInfix.trans (List.prefix_append _ _).isInfix

theorem infix_joinDeclarations {n : Model} {d : Declaration} {ds : List Declaration} {name : String}
    {x : Constant} {text : String} (hd : n.constantsDeclaration = .ok [d]) (hmem : d ∈ ds)
    (hx : (name, x) ∈ n.constants) (htype : x.typeName = "string") (hvalue : x.value = .text text) :
    ("pub const " ++ identifier name ++ ": " ++ ("&'static str = " ++ stringLiteral text) ++
      ";").toList <:+: (joinDeclarations ds).toList := by
  have hcode : x.code = .ok ("&'static str = " ++ stringLiteral text) := by
    rw [Constant.code, if_pos (show x.typeName = Primitive.string.name from htype), hvalue]
    rfl
  rw [Model.constantsDeclaration] at hd
  split at hd
  · cases hd
  · obtain ⟨items, hitems, hd⟩ := bind_eq_ok.1 hd
    cases hd
    obtain ⟨item, hitem, hcodes⟩ := exists_of_mem_left (mapM_eq_ok.1 hitems) hx
    dsimp only at hcodes
    rw [hcode] at hcodes
    cases hcodes
    refine List.IsInfix.trans ?_ (infix_joinLines (List.mem_map_of_mem hmem))
    refine List.IsInfix.trans ?_ (infix_joinLines (List.mem_append_left _ (List.mem_cons_of_mem _
      (List.mem_map_of_mem (List.mem_map_of_mem hitem)))))
    rw [indent, String.toList_append (s := indentation)]
    exact (List.suffix_append _ _).isInfix

theorem infix_following {text heading literal : String}
    (h : (heading ++ ": " ++ ("&'static str = " ++ stringLiteral literal) ++ ";").toList <:+:
      text.toList) :
    ("&'static str = " ++ relined depth (stringLiteral literal) ++ ";").toList <:+:
      following depth (lines text.toList) := by
  obtain ⟨before, after, htext⟩ := h
  have hsplit : text.toList = (before ++ heading.toList ++ [':']) ++ ' ' ::
      ("&'static str =".toList ++ ' ' ::
        (('\x22' :: literal.toList.flatMap escapeChar) ++ '\x22' :: (';' :: after))) := by
    rw [← htext]
    simp [stringLiteral, encodeLiteral]
  have hblank : ' ' ∉ lineEnds := by decide
  have hquote : '\x22' ∉ lineEnds := by decide
  have hmark : continued depth (lines ("&'static str =".toList ++ [' '])) =
      "&'static str = ".toList := continued_lines_of_not_mem (by simp [lineEnds])
  rw [hsplit, (continued_lines_append hblank _ _).2, (continued_lines_append hblank _ _).1, hmark,
    (continued_lines_append hquote _ _).1, continued_lines_cons (by decide)]
  refine ⟨following depth (lines (before ++ heading.toList ++ [':'] ++ [' '])),
    continued depth (lines after), ?_⟩
  simp [relined, stringLiteral, encodeLiteral]

/-- **Literals in files.**  In a file that is made from some models, the literal of a text constant
that is declared for one of them, or for a model nested in one, stands behind the type of the
constant with its further lines at the depth of the module, each behind a line feed.  So it stands
there as it was written if and only if the text has no line end, or has none but line feeds and the
model is in no module. -/
theorem relined_literal_of_fileText {n : Model} {d : Declaration} {ds : List Declaration}
    {name text : String} {x : Constant} (h : (fileText reg models).result = .ok code)
    (hm : m ∈ models) (hds : (m.declarations reg).result = .ok ds)
    (hd : n.constantsDeclaration = .ok [d]) (hmem : d ∈ ds) (hx : (name, x) ∈ n.constants)
    (htype : x.typeName = "string") (hvalue : x.value = .text text) :
    ("&'static str = " ++ relined m.modulePath.length (stringLiteral text) ++ ";").toList <:+:
        code.toList ∧
      (relined m.modulePath.length (stringLiteral text) = stringLiteral text ↔
        (∀ c ∈ text.toList, c ∉ lineEnds) ∨
          (m.modulePath.length = 0 ∧ ∀ c ∈ text.toList, c ∈ lineEnds → c = '\n')) := by
  refine ⟨?_, relined_stringLiteral_eq_iff⟩
  obtain ⟨ds', hds', hcode⟩ := exists_infix_fileText h hm
  cases hds.symm.trans hds'
  exact (infix_following (infix_joinDeclarations hd hmem hx htype hvalue)).trans hcode

end File

/-! ### Samples -/

namespace LiteralSample

/-- A struct of the namespace `N` with a text constant that has a line feed in it. -/
def broken : Model :=
  ⟨⟨⟨"N", "A", []⟩, .struct, false, "N", "A"⟩, false, [], [("x", .ofPrimitive .u8)],
    [("X", ⟨.text "a\nb", "string"⟩)], none, false, .absent, [], .plain⟩

/-- The second line of the literal is moved in, so the text is another one. -/
theorem literal_moved : ∃ code, (fileText .empty [broken]).result = .ok code ∧
    ("&'static str = " ++ "\"a\n    b\"" ++ ";").toList <:+: code.toList ∧
    relined 1 (stringLiteral "a\nb") ≠ stringLiteral "a\nb" := by
  have hds : (broken.declarations .empty).result = .ok [broken.structDeclaration,
      .constants broken.head [("X", "&'static str = \"a\nb\"")]] := by cbv
  obtain ⟨code, hcode⟩ := exists_fileText_iff.2 (List.forall_mem_singleton.2 ⟨_, hds⟩)
  have hconstant : ("X", ⟨.text "a\nb", "string"⟩) ∈ broken.constants := List.mem_cons_self
  obtain ⟨hliteral, hkept⟩ := relined_literal_of_fileText hcode List.mem_cons_self hds
    (n := broken) (d := .constants broken.head [("X", "&'static str = \"a\nb\"")]) (by cbv)
    (by simp) hconstant rfl rfl
  have hrelined : relined 1 (stringLiteral "a\nb") = "\"a\n    b\"" := by cbv
  have hdepth : broken.modulePath.length = 1 := by cbv
  rw [hdepth, hrelined] at hliteral
  rw [hdepth] at hkept
  refine ⟨code, hcode, hliteral, mt hkept.1 ?_⟩
  simp [lineEnds]

end LiteralSample

end Bindery.Code
