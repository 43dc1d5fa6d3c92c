import Bindery.Proofs.Source.Grammar
/-!
# Layout and terminals

No terminal starts like layout, so the layout in front of one is always all there is
(`Grammar.Layout.skipLayout_eq`), and the terminals of the grammar are those that are read
(`expect_eq_ok`).  A name reaches as far as it can; therefore a keyword with a name behind it is read
as one name up to the same end, unless layout parts them (`name_of_keyword`).
-/

namespace Bindery.Source

open Grammar (Layout LayoutStep terminal)

/-! ### Where layout ends -/

theorem layoutSpan_comment (cs : List Char) : layoutSpan true cs =
    (cs.takeWhile (· ≠ '\n') ++ (layoutSpan false (cs.dropWhile (· ≠ '\n'))).1,
      (layoutSpan false (cs.dropWhile (· ≠ '\n'))).2) := by
  induction cs with
  | nil => simp [layoutSpan]
  | cons c cs ih =>
    rw [layoutSpan]
    by_cases hc : c = '\n'
    · simp [hc, layoutSpan, blanks]
    · simp [hc, ih]

theorem layoutSpan_blanks (cs : List Char) : layoutSpan false cs =
    (cs.takeWhile (· ∈ blanks) ++ (layoutSpan false (cs.dropWhile (· ∈ blanks))).1,
      (layoutSpan false (cs.dropWhile (· ∈ blanks))).2) := by
  induction cs with
  | nil => simp [layoutSpan]
  | cons c cs ih =>
    by_cases hc : c ∈ blanks
    · have hslash : c ≠ '/' := by
        rintro rfl
        exact absurd hc (by decide)
      rw [layoutSpan]
      · simpa [hc] using Prod.ext_iff.1 ih
      · exact fun _ h _ => hslash h
    · simp [hc]

/-- A character with which no layout starts. -/
def opensTerminal (c : Char) : Bool := c ∉ '/' :: blanks

theorem layoutSpan_of_opensTerminal {c : Char} (h : opensTerminal c) (cs : List Char) :
    layoutSpan false (c :: cs) = ([], c :: cs) := by
  obtain ⟨hslash, hblank⟩ : c ≠ '/' ∧ c ∉ blanks := by simpa [opensTerminal] using h
  rw [layoutSpan, if_neg hblank]
  exact fun _ hc _ => hslash hc

/-- The layout behind a point and what follows it make up the rest of the text. -/
theorem layoutSpan_append (comment : Bool) (cs : List Char) :
    (layoutSpan comment cs).1 ++ (layoutSpan comment cs).2 = cs := by
  induction comment, cs using layoutSpan.induct <;> simp_all [layoutSpan]

namespace Cursor

theorem after_after (c : Cursor) (taken more rest rest' : List Char) :
    (c.after taken rest).after more rest' = c.after (taken ++ more) rest' := by
  simp [after, List.count_append, Nat.add_assoc]

theorem skipLayout_of_cons {c : Cursor} {x : Char} {xs : List Char} (h : c.rest = x :: xs)
    (hx : opensTerminal x) : c.skipLayout = c := by
  rw [skipLayout, h, layoutSpan_of_opensTerminal hx, ← h]
  rfl

/-- The first character behind the layout. -/
def next (c : Cursor) : Option Char := c.skipLayout.rest.head?

/-- A character of a kind is next. -/
def NextIs (c : Cursor) (accepts : Char → Bool) : Prop := ∃ x ∈ c.next, accepts x

theorem NextIs.ne {c : Cursor} {accepts : Char → Bool} {y : Char} (h : c.NextIs accepts)
    (hy : accepts y = false) : c.next ≠ some y := by
  obtain ⟨x, hx, haccepts⟩ := h
  rintro heq
  obtain rfl := Option.some.inj (hx.symm.trans heq)
  exact Bool.false_ne_true (hy.symm.trans haccepts)

theorem NextIs.mono {c : Cursor} {accepts accepts' : Char → Bool} (h : c.NextIs accepts)
    (himp : ∀ x, accepts x → accepts' x) : c.NextIs accepts' := by
  obtain ⟨x, hx, haccepts⟩ := h
  exact ⟨x, hx, himp x haccepts⟩

theorem length_skipLayout (c : Cursor) : c.skipLayout.rest.length ≤ c.rest.length := by
  have h := congrArg List.length (layoutSpan_append false c.rest)
  rw [List.length_append] at h
  simp only [skipLayout, after]
  omega

end Cursor

theorem match?_comment (cs : List Char) : Pattern.comment.match? cs =
    match cs with
    | '/' :: '/' :: rest => some ('/' :: '/' :: rest.takeWhile (· ≠ '\n'), rest.dropWhile (· ≠ '\n'))
    | _ => none := by
  have hline : Pattern.Accepts (.noneOf ['\n']) fun c => c ≠ '\n' :=
    congrArg Pattern.single (funext fun c => by simp)
  split
  · rename_i rest
    have hmark : (Pattern.text "//").match? ('/' :: '/' :: rest) = some (['/', '/'], rest) :=
      Pattern.match?_text "//" _
    exact Pattern.match?_seq_of_some hmark (hline.match?_many rest)
  · rename_i hother
    refine Pattern.match?_seq_of_nil (Pattern.splits_eq_nil ?_)
    rw [Pattern.match?_text, Pattern.takeFixed?_eq, if_neg]
    rintro ⟨rest, rfl⟩
    exact hother rest rfl

theorem match?_blanks (cs : List Char) : Pattern.blanks.match? cs =
    if (cs.takeWhile (· ∈ blanks)).isEmpty then none
    else some (cs.takeWhile (· ∈ blanks), cs.dropWhile (· ∈ blanks)) :=
  Pattern.accepts_blank.match?_plus cs

namespace Grammar

theorem LayoutStep.skipLayout_eq {c c' : Cursor} (h : LayoutStep c c') :
    c'.skipLayout = c.skipLayout := by
  obtain ⟨p, hp, taken, rest, hmatch, rfl⟩ := h
  rw [List.mem_cons, List.mem_singleton] at hp
  rcases hp with rfl | rfl
  · rw [match?_comment] at hmatch
    split at hmatch
    · rename_i cs hcs
      cases hmatch
      simp only [Cursor.skipLayout, hcs, layoutSpan, layoutSpan_comment cs, Cursor.after_after]
      rfl
    · cases hmatch
  · rw [match?_blanks] at hmatch
    split at hmatch
    · cases hmatch
    · cases hmatch
      simp only [Cursor.skipLayout, layoutSpan_blanks c.rest, Cursor.after_after]
      rfl

theorem Layout.skipLayout_eq {c c' : Cursor} (h : Layout c c') : c'.skipLayout = c.skipLayout := by
  induction h with
  | refl => rfl
  | tail _ hstep ih => rw [hstep.skipLayout_eq, ih]

theorem exists_step_of_match? {p : Pattern} {c : Cursor} {x : Char} {taken rest : List Char}
    (hp : p ∈ [Pattern.comment, Pattern.blanks]) (h : p.match? c.rest = some (x :: taken, rest)) :
    ∃ c', LayoutStep c c' ∧ c'.rest.length < c.rest.length := by
  refine ⟨_, ⟨p, hp, _, _, h, rfl⟩, ?_⟩
  rw [← Pattern.append_of_match? h]
  simp only [Cursor.after, List.length_append, List.length_cons]
  omega

/-- If there is layout, some piece of it comes first. -/
theorem skipLayout_eq_or_exists_step (c : Cursor) :
    c.skipLayout = c ∨ ∃ c', LayoutStep c c' ∧ c'.rest.length < c.rest.length := by
  have hnone {cs : List Char} (hcs : c.rest = cs) (h : layoutSpan false cs = ([], cs)) :
      c.skipLayout = c := by
    rw [Cursor.skipLayout, hcs, h, ← hcs]
    rfl
  match hrest : c.rest with
  | [] => exact .inl (hnone hrest rfl)
  | x :: cs =>
    by_cases hx : x ∈ blanks
    · have hmatch : Pattern.blanks.match? c.rest =
          some (x :: cs.takeWhile (· ∈ blanks), (x :: cs).dropWhile (· ∈ blanks)) := by
        rw [hrest, match?_blanks, List.takeWhile_cons_of_pos (by simpa using hx)]
        rfl
      exact .inr (hrest ▸ exists_step_of_match? (by simp) hmatch)
    · by_cases hcomment : ∃ rest, x :: cs = '/' :: '/' :: rest
      · obtain ⟨rest, heq⟩ := hcomment
        have hmatch : Pattern.comment.match? c.rest =
            some ('/' :: '/' :: rest.takeWhile (· ≠ '\n'), rest.dropWhile (· ≠ '\n')) := by
          rw [hrest, heq, match?_comment]
          rfl
        exact .inr (hrest ▸ exists_step_of_match? (by simp) hmatch)
      · refine .inl (hnone hrest ?_)
        rw [layoutSpan, if_neg hx]
        exact fun rest hx hrest => hcomment ⟨rest, by rw [hx, hrest]⟩

theorem layout_skipLayout (c : Cursor) : Layout c c.skipLayout := by
  induction hn : c.rest.length using Nat.strongRecOn generalizing c with
  | ind n ih =>
    rcases skipLayout_eq_or_exists_step c with heq | ⟨c', hstep, hlt⟩
    · rw [heq]
      exact .refl
    · rw [← hstep.skipLayout_eq]
      exact .head hstep (ih _ (hn ▸ hlt) c' rfl)

end Grammar

/-! ### Terminals -/

theorem opensTerminal_of {accepts : Char → Bool} {c : Char}
    (hnone : ('/' :: blanks).any accepts = false) (h : accepts c) : opensTerminal c := by
  cases hc : opensTerminal c with
  | true => rfl
  | false =>
    have hmem : c ∈ '/' :: blanks := Decidable.of_not_not (decide_eq_false_iff_not.1 hc)
    exact absurd h (List.any_eq_false.1 hnone c hmem)

theorem opensTerminal_of_opensName {c : Char} (h : opensName c) : opensTerminal c :=
  opensTerminal_of rfl h

namespace Terminal

/-- The characters with which a terminal starts. -/
def starts : Terminal → Char → Bool
  | fixed text, c => text.toList.head? == some c
  | name, c => opensName c
  | number, c => c.isDigit || c == '-'
  | string, c => c == '\x22'

/-- A terminal that cannot be empty and starts unlike layout. -/
def opens : Terminal → Bool
  | fixed text => text.toList.head?.any opensTerminal
  | _ => true

end Terminal

theorem exists_of_takeDecimal? {cs taken rest : List Char}
    (h : takeDecimal? cs = some (taken, rest)) : ∃ c cs', taken = c :: cs' ∧ c.isDigit := by
  cases cs with
  | nil => cases h
  | cons c cs =>
    cases hc : c.isDigit with
    | false => simp [takeDecimal?, hc] at h
    | true =>
      unfold takeDecimal? at h
      rw [List.takeWhile_cons_of_pos hc, List.dropWhile_cons_of_pos hc] at h
      simp only [List.isEmpty_cons, Bool.false_eq_true, if_false] at h
      split at h
      · split at h <;> cases h <;> exact ⟨_, _, rfl, hc⟩
      · cases h
        exact ⟨_, _, rfl, hc⟩

theorem exists_of_takeUnsigned? {cs taken rest : List Char}
    (h : takeUnsigned? cs = some (taken, rest)) : ∃ c cs', taken = c :: cs' ∧ c.isDigit := by
  unfold takeUnsigned? at h
  split at h
  · split at h
    · cases h
      exact ⟨_, _, rfl, rfl⟩
    · exact exists_of_takeDecimal? h
  · exact exists_of_takeDecimal? h

namespace Terminal

theorem exists_of_take? {t : Terminal} (ht : t.opens) {cs taken rest : List Char}
    (h : t.take? cs = some (taken, rest)) : ∃ c cs', taken = c :: cs' ∧ t.starts c := by
  cases t with
  | fixed text =>
    rw [take?, Pattern.takeFixed?_eq] at h
    split at h
    · cases h
      obtain ⟨c, hc, -⟩ := (Option.any_eq_true _ _).1 ht
      obtain ⟨cs', hcs⟩ := List.head?_eq_some_iff.1 hc
      exact ⟨c, cs', hcs, beq_iff_eq.2 hc⟩
    · cases h
  | name =>
    rw [take?, takeName?.eq_def] at h
    split at h
    · cases h
    · split at h
      · rename_i hc
        cases h
        exact ⟨_, _, rfl, hc⟩
      · cases h
  | number =>
    rw [take?, takeNumber?.eq_def] at h
    split at h
    · obtain ⟨s, -, hs⟩ := Option.map_eq_some_iff.1 h
      cases hs
      exact ⟨_, _, rfl, rfl⟩
    · obtain ⟨c, cs', htaken, hc⟩ := exists_of_takeUnsigned? h
      exact ⟨c, cs', htaken, Bool.or_eq_true_iff.2 (.inl hc)⟩
  | string =>
    rw [take?, takeString?.eq_def] at h
    split at h
    · obtain ⟨s, -, hs⟩ := Option.map_eq_some_iff.1 h
      cases hs
      exact ⟨_, _, rfl, rfl⟩
    · cases h

theorem opensTerminal_of_starts {t : Terminal} (ht : t.opens) {c : Char} (hc : t.starts c) :
    opensTerminal c := by
  cases t with
  | fixed text =>
    obtain ⟨x, hx, hopens⟩ := (Option.any_eq_true _ _).1 ht
    obtain rfl := Option.some.inj (hx.symm.trans (eq_of_beq hc))
    exact hopens
  | name => exact opensTerminal_of_opensName hc
  | number => exact opensTerminal_of (show ('/' :: blanks).any number.starts = false from rfl) hc
  | string =>
    obtain rfl := eq_of_beq hc
    rfl

end Terminal

/-- **Terminals.**  Those that are read are those of the grammar: the layout in front of one ends
where it starts. -/
theorem expect_eq_ok {t : Terminal} (ht : t.opens) {c c' : Cursor} {token : Located String} :
    Parser.expect t c = .ok (token, c') ↔ terminal t.pattern c token c' := by
  constructor
  · intro h
    simp only [Parser.expect] at h
    split at h
    · rename_i taken rest htake
      cases h
      exact ⟨_, Grammar.layout_skipLayout c, taken, rest, by rw [t.match?_pattern, htake], rfl, rfl⟩
    · cases h
  · rintro ⟨c₁, hlayout, taken, rest, hmatch, rfl, rfl⟩
    rw [t.match?_pattern] at hmatch
    obtain ⟨x, xs, rfl, hx⟩ := t.exists_of_take? ht hmatch
    have happend := Pattern.append_of_match? ((t.match?_pattern _).trans hmatch)
    have hskip : c₁.skipLayout = c₁ :=
      Cursor.skipLayout_of_cons happend.symm (t.opensTerminal_of_starts ht hx)
    rw [hlayout.skipLayout_eq] at hskip
    simp only [Parser.expect, hskip, hmatch]

/-- What a terminal of the grammar is, once the layout in front of it is left out. -/
theorem terminal_iff {t : Terminal} (ht : t.opens) {c c' : Cursor} {token : Located String} :
    terminal t.pattern c token c' ↔ ∃ taken rest, t.take? c.skipLayout.rest = some (taken, rest) ∧
      token = ⟨c.skipLayout.line, .ofList taken⟩ ∧ c' = c.skipLayout.after taken rest := by
  rw [← expect_eq_ok ht]
  constructor
  · intro h
    simp only [Parser.expect] at h
    split at h
    · rename_i taken rest htake
      cases h
      exact ⟨taken, rest, htake, rfl, rfl⟩
    · cases h
  · rintro ⟨taken, rest, htake, rfl, rfl⟩
    simp only [Parser.expect, htake]

namespace Grammar

variable {c c' : Cursor}

theorem next_of_terminal {t : Terminal} (ht : t.opens) {token : Located String}
    (h : terminal t.pattern c token c') : c.NextIs t.starts := by
  obtain ⟨taken, rest, htake, -, -⟩ := (terminal_iff ht).1 h
  obtain ⟨x, xs, rfl, hx⟩ := t.exists_of_take? ht htake
  have happend := Pattern.append_of_match? ((t.match?_pattern _).trans htake)
  exact ⟨x, by rw [Cursor.next, ← happend]; rfl, hx⟩

theorem length_of_terminal {t : Terminal} (ht : t.opens) {token : Located String}
    (h : terminal t.pattern c token c') : c'.rest.length + 1 ≤ c.rest.length := by
  obtain ⟨taken, rest, htake, -, rfl⟩ := (terminal_iff ht).1 h
  obtain ⟨x, xs, rfl, -⟩ := t.exists_of_take? ht htake
  have happend := congrArg List.length
    (Pattern.append_of_match? ((t.match?_pattern _).trans htake))
  have := c.length_skipLayout
  simp only [List.length_append, List.length_cons, Cursor.after] at happend ⊢
  omega

theorem eq_of_terminal {t : Terminal} (ht : t.opens) {token token' : Located String} {c'' : Cursor}
    (h : terminal t.pattern c token c') (h' : terminal t.pattern c token' c'') :
    token = token' ∧ c' = c'' := by
  rw [← expect_eq_ok ht] at h h'
  simpa using Except.ok.inj (h.symm.trans h')

end Grammar

/-! ### Keywords and names -/

theorem continuesName_of_opensName {c : Char} (h : opensName c) : continuesName c := by
  simp only [opensName, continuesName, Char.isAlphanum, Bool.or_eq_true] at h ⊢
  exact h.imp_left .inl

theorem takeName?_eq_some {cs : List Char} {s : List Char × List Char} :
    takeName? cs = some s ↔ (∃ c ∈ cs.head?, opensName c) ∧
      s = (cs.takeWhile continuesName, cs.dropWhile continuesName) := by
  cases cs with
  | nil => simp [takeName?]
  | cons c cs =>
    rw [takeName?]
    cases hc : opensName c with
    | false => simp [hc]
    | true =>
      rw [if_pos rfl, List.takeWhile_cons_of_pos (continuesName_of_opensName hc),
        List.dropWhile_cons_of_pos (continuesName_of_opensName hc), Option.some.injEq]
      exact ⟨fun h => ⟨⟨c, rfl, hc⟩, h.symm⟩, fun h => h.2.symm⟩

theorem name_iff {c c' : Cursor} {token : Located String} :
    Grammar.name c token c' ↔ c.NextIs opensName ∧
      token = ⟨c.skipLayout.line, .ofList (c.skipLayout.rest.takeWhile continuesName)⟩ ∧
      c' = c.skipLayout.after (c.skipLayout.rest.takeWhile continuesName)
        (c.skipLayout.rest.dropWhile continuesName) := by
  refine (terminal_iff (t := .name) rfl).trans ?_
  simp only [Terminal.take?, takeName?_eq_some]
  constructor
  · rintro ⟨taken, rest, ⟨hopens, heq⟩, htoken, hc'⟩
    cases heq
    exact ⟨hopens, htoken, hc'⟩
  · rintro ⟨hopens, htoken, hc'⟩
    exact ⟨_, _, ⟨hopens, rfl⟩, htoken, hc'⟩

/-- **Keywords before names.**  What is a keyword with a name behind it is also one name up to the same
end, unless layout parts them. -/
theorem name_of_keyword {text : String} (hopens : (Terminal.fixed text).opens)
    (hword : text.toList.all continuesName) {c c₁ c₂ c₃ : Cursor} {n k n' : Located String}
    (hname : Grammar.name c n c₁) (hkeyword : Grammar.fixed text c k c₂)
    (hnext : Grammar.name c₂ n' c₃) : c₁ = c₃ ∨ c₁.NextIs opensName := by
  obtain ⟨taken, rest, htake, -, rfl⟩ := (terminal_iff (t := .fixed text) hopens).1 hkeyword
  have happend := Pattern.append_of_match? ((Terminal.match?_pattern _ _).trans htake)
  have htext : taken = text.toList := by
    rw [Terminal.take?, Pattern.takeFixed?_eq] at htake
    split at htake <;> cases htake
    rfl
  subst htext
  -- the name goes on behind the keyword as long as there is no layout
  obtain ⟨-, -, hc₁⟩ := name_iff.1 hname
  rw [← happend, List.takeWhile_append_of_pos (List.all_eq_true.1 hword),
    List.dropWhile_append_of_pos (List.all_eq_true.1 hword),
    ← Cursor.after_after _ _ _ rest] at hc₁
  generalize hd : c.skipLayout.after text.toList rest = d at hc₁ hnext
  have hrest : d.rest = rest := by rw [← hd]; rfl
  obtain ⟨hnext', -, hc₃⟩ := name_iff.1 hnext
  by_cases hmore : ∃ x ∈ rest.head?, continuesName x
  · obtain ⟨x, hx, hcontinues⟩ := hmore
    obtain ⟨xs, hxs⟩ := List.head?_eq_some_iff.1 hx
    have hskip : d.skipLayout = d :=
      Cursor.skipLayout_of_cons (hrest.trans hxs) (opensTerminal_of rfl hcontinues)
    rw [hskip, hrest, ← hc₁] at hc₃
    exact .inl hc₃.symm
  · have hstop : rest.takeWhile continuesName = [] ∧ rest.dropWhile continuesName = rest := by
      cases rest with
      | nil => exact ⟨rfl, rfl⟩
      | cons x xs =>
        have hx : ¬ continuesName x := fun h => hmore ⟨x, rfl, h⟩
        exact ⟨List.takeWhile_cons_of_neg hx, List.dropWhile_cons_of_neg hx⟩
    obtain rfl : c₁ = d := by
      rw [hc₁, hstop.1, hstop.2, ← hrest]
      rfl
    exact .inr hnext'

end Bindery.Source
