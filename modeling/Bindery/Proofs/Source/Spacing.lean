import Bindery.Proofs.Source.Spelling
import Bindery.Proofs.Source.Unlined
/-!
# Layout put in

A text consists of words with layout around them, and more layout may be put in (`Spaced`).  A terminal
is taken as far as it reaches, whatever the grammar asks for next, so with another text behind it a
word might reach further.  It does not: what is put in starts with a character with which no terminal
goes on, and up to there the text goes on as it did (`GoesOnLike`).  So both texts consist of the same
words, and have the same tree up to lines (`read_of_spaced`).
-/

namespace Bindery.Source

variable {ws : List Word} {w : Word} {cs ds piece : List Char}

/-! ### Spacing -/

/-- What may be put in: a blank, or a comment with the line feed that ends it. -/
inductive Spacer : List Char → Prop
  | blank {x : Char} (hx : x ∈ blanks) : Spacer [x]
  | comment {body : List Char} (hbody : '\n' ∉ body) : Spacer ('/' :: '/' :: (body ++ ['\n']))

/-- The first text consists of the words, with blanks and comments before, between and behind them.
The second is the same with more blanks and comments put in, anywhere before, between and behind these
pieces.  A comment is one piece: a line feed inside would make terminals of its rest. -/
inductive Spaced : List Word → List Char → List Char → Prop
  | nil : Spaced [] [] []
  | insert {ws : List Word} {piece cs ds : List Char} (hpiece : Spacer piece) (h : Spaced ws cs ds) :
    Spaced ws cs (piece ++ ds)
  | blank {ws : List Word} {x : Char} {cs ds : List Char} (hx : x ∈ blanks) (h : Spaced ws cs ds) :
    Spaced ws (x :: cs) (x :: ds)
  | comment {ws : List Word} {comment cs ds : List Char}
    (hmatch : Pattern.comment.match? (comment ++ cs) = some (comment, cs)) (h : Spaced ws cs ds) :
    Spaced ws (comment ++ cs) (comment ++ ds)
  | word {w : Word} {ws : List Word} {cs ds : List Char}
    (hmatch : w.kind.pattern.match? (w.text ++ cs) = some (w.text, cs)) (h : Spaced ws cs ds) :
    Spaced (w :: ws) (w.text ++ cs) (w.text ++ ds)

theorem Spaced.left (h : Spaced ws cs ds) : Spaced ws cs cs := by
  induction h with
  | nil => exact .nil
  | insert _ _ ih => exact ih
  | blank hx _ ih => exact .blank hx ih
  | comment hmatch _ ih => exact .comment hmatch ih
  | word hmatch _ ih => exact .word hmatch ih

/-! ### Layout that is put in -/

theorem opensTerminal_of_mem_blanks {x : Char} (hx : x ∈ blanks) : opensTerminal x = false := by
  simp [opensTerminal, hx]

theorem head?_dropWhile {accepts : Char → Bool} (xs : List Char) :
    ∀ x ∈ (xs.dropWhile accepts).head?, accepts x = false := by
  intro x hx
  have hstop := List.head?_dropWhile_not accepts xs
  rw [Option.mem_def.1 hx] at hstop
  simpa using hstop

/-- The inside of a comment, up to the line feed or the end of the text. -/
theorem exists_of_match?_comment {comment : List Char}
    (h : Pattern.comment.match? (comment ++ cs) = some (comment, cs)) :
    ∃ body, comment = '/' :: '/' :: body ∧ '\n' ∉ body ∧ ∀ x ∈ cs.head?, x = '\n' := by
  rw [match?_comment] at h
  split at h
  · rename_i rest hrest
    simp only [Option.some.injEq, Prod.mk.injEq] at h
    obtain ⟨rfl, rfl⟩ := h
    refine ⟨_, rfl, fun hmem => ?_, fun x hx => ?_⟩
    · simpa using List.mem_takeWhile_imp hmem
    · simpa using head?_dropWhile rest x hx
  · cases h

/-- A text without the rest of the comment at its start, and the layout behind it. -/
def skipLine (cs : List Char) : List Char := (layoutSpan true cs).2

theorem skip_blank {x : Char} (hx : x ∈ blanks) (cs : List Char) : skip (x :: cs) = skip cs := by
  rw [skip, layoutSpan, if_pos hx, skip]
  rintro _ rfl
  exact absurd hx (by decide)

theorem skip_comment (cs : List Char) : skip ('/' :: '/' :: cs) = skipLine cs := rfl

theorem skipLine_cons {x : Char} (hx : x ≠ '\n') (cs : List Char) :
    skipLine (x :: cs) = skipLine cs := by
  rw [skipLine, layoutSpan, decide_eq_true hx, skipLine]

theorem skipLine_append {body : List Char} (hbody : '\n' ∉ body) (cs : List Char) :
    skipLine (body ++ cs) = skipLine cs := by
  induction body with
  | nil => rfl
  | cons x body ih =>
    rw [List.mem_cons, not_or] at hbody
    rw [List.cons_append, skipLine_cons (Ne.symm hbody.1), ih hbody.2]

theorem skipLine_feed (cs : List Char) : skipLine ('\n' :: cs) = skip cs := rfl

namespace Spacer

theorem skip_append (h : Spacer piece) (cs : List Char) : skip (piece ++ cs) = skip cs := by
  cases h with
  | blank hx => exact skip_blank hx cs
  | comment hbody =>
    rw [List.cons_append, List.cons_append, skip_comment, List.append_assoc, skipLine_append hbody]
    rfl

/-- At the end of a comment, what is put in goes on with it or ends it. -/
theorem skipLine_append_eq (h : Spacer piece) (hcs : skipLine cs = skip cs) :
    skipLine (piece ++ cs) = skip cs := by
  cases h with
  | @blank x hx =>
    by_cases hfeed : x = '\n'
    · subst hfeed
      rfl
    · rw [List.singleton_append, skipLine_cons hfeed, hcs]
  | comment hbody =>
    rw [List.cons_append, List.cons_append, skipLine_cons (by decide), skipLine_cons (by decide),
      List.append_assoc, skipLine_append hbody]
    rfl

theorem exists_head? (h : Spacer piece) : ∃ x xs, piece = x :: xs ∧ opensTerminal x = false := by
  cases h with
  | blank hx => exact ⟨_, [], rfl, opensTerminal_of_mem_blanks hx⟩
  | comment => exact ⟨'/', _, rfl, rfl⟩

end Spacer

theorem Word.exists_of_match? (hopens : w.kind.opens)
    (hmatch : w.kind.pattern.match? (w.text ++ cs) = some (w.text, cs)) :
    ∃ x xs, w.text = x :: xs ∧ opensTerminal x := by
  rw [w.kind.match?_pattern] at hmatch
  obtain ⟨x, xs, htext, hx⟩ := w.kind.exists_of_take? hopens hmatch
  exact ⟨x, xs, htext, w.kind.opensTerminal_of_starts hopens hx⟩

/-- A comment ends where a line feed, or the end of the text, was: what is put in there changes
nothing of what comes behind. -/
theorem Spaced.skipLine_eq (h : Spaced ws cs ds) (hopens : ∀ w ∈ ws, w.kind.opens)
    (hcs : ∀ x ∈ cs.head?, x = '\n') : skipLine ds = skip ds := by
  induction h with
  | nil => rfl
  | insert hpiece _ ih =>
    rw [hpiece.skipLine_append_eq (ih hopens hcs), hpiece.skip_append]
  | blank hx _ _ =>
    obtain rfl := hcs _ rfl
    rw [skipLine_feed, skip_blank hx]
  | comment hmatch _ _ =>
    obtain ⟨body, rfl, -, -⟩ := exists_of_match?_comment hmatch
    exact absurd (hcs '/' rfl) (by decide)
  | word hmatch _ _ =>
    obtain ⟨x, xs, htext, hx⟩ := Word.exists_of_match? (hopens _ List.mem_cons_self) hmatch
    obtain rfl := hcs x (by rw [htext]; rfl)
    exact absurd hx (by decide)

/-! ### Terminals before layout that is put in -/

/-- Up to its first layout, the second text goes on like the first. -/
def GoesOnLike (cs ds : List Char) : Prop :=
  ∀ xs : List Char, (∀ x ∈ xs, opensTerminal x) → xs <+: ds → xs <+: cs

namespace GoesOnLike

theorem of_layout {x : Char} (hx : opensTerminal x = false) : GoesOnLike cs (x :: ds) := by
  intro xs hxs hprefix
  cases xs with
  | nil => exact List.nil_prefix
  | cons y ys =>
    obtain rfl := (List.cons_prefix_cons.1 hprefix).1
    exact absurd (hxs y List.mem_cons_self) (Bool.eq_false_iff.1 hx)

theorem append (h : GoesOnLike cs ds) (text : List Char) : GoesOnLike (text ++ cs) (text ++ ds) := by
  intro xs hxs hprefix
  rcases List.prefix_or_prefix_of_prefix hprefix (List.prefix_append text ds) with h' | ⟨ys, rfl⟩
  · exact h'.trans (List.prefix_append text cs)
  · rw [List.prefix_append_right_inj] at hprefix ⊢
    exact h ys (fun y hy => hxs y (List.mem_append_right _ hy)) hprefix

theorem head? (h : GoesOnLike cs ds) {x : Char} (hx : opensTerminal x) (hds : x ∈ ds.head?) :
    x ∈ cs.head? := by
  obtain ⟨xs, rfl⟩ := List.head?_eq_some_iff.1 hds
  obtain ⟨ys, hys⟩ := h [x] (List.forall_mem_singleton.2 hx) (List.prefix_append [x] xs)
  rw [← hys]
  rfl

theorem stops (h : GoesOnLike cs ds) {accepts : Char → Bool}
    (hnone : ('/' :: blanks).any accepts = false) (hcs : ∀ x ∈ cs.head?, accepts x = false) :
    ∀ x ∈ ds.head?, accepts x = false := by
  intro x hx
  by_contra haccepts
  rw [Bool.not_eq_false] at haccepts
  exact absurd haccepts (Bool.eq_false_iff.1 (hcs x (h.head? (opensTerminal_of hnone haccepts) hx)))

end GoesOnLike

/-- The second text of two with the same words goes on like the first. -/
theorem Spaced.goesOnLike (h : Spaced ws cs ds) : GoesOnLike cs ds := by
  induction h with
  | nil => exact fun _ _ h => h
  | insert hpiece _ _ =>
    obtain ⟨x, xs, rfl, hx⟩ := hpiece.exists_head?
    exact .of_layout hx
  | blank hx _ _ => exact .of_layout (opensTerminal_of_mem_blanks hx)
  | comment _ _ ih => exact ih.append _
  | word _ _ ih => exact ih.append _

/-- How a decimal numeral ends: before no digit, and if it has no decimals, also before no point
with a digit behind it. -/
def DecimalEnd (text cs : List Char) : Prop := (∀ x ∈ cs.head?, x.isDigit = false) ∧
  ((text ≠ [] ∧ (∀ x ∈ text, x.isDigit) ∧ ∀ d, d.isDigit → ¬ ['.', d] <+: cs) ∨
    ∃ whole decimals, text = whole ++ '.' :: decimals ∧ (whole ≠ [] ∧ ∀ x ∈ whole, x.isDigit) ∧
      decimals ≠ [] ∧ ∀ x ∈ decimals, x.isDigit)

theorem decimalEnd_of_takeDecimal? {xs text : List Char} (h : takeDecimal? xs = some (text, cs)) :
    DecimalEnd text cs := by
  have hdigits (ys : List Char) : ∀ x ∈ ys.takeWhile Char.isDigit, x.isDigit :=
    fun _ => List.mem_takeWhile_imp
  unfold takeDecimal? at h
  dsimp only at h
  split at h
  · cases h
  · rename_i hwhole
    have hwhole : xs.takeWhile Char.isDigit ≠ [] := by simpa using hwhole
    have hstop : ∀ x ∈ (xs.dropWhile Char.isDigit).head?, x.isDigit = false := head?_dropWhile xs
    split at h
    · rename_i rest hpoint
      split at h
      · rename_i hnone
        cases h
        refine ⟨by rintro _ ⟨⟩; rfl, .inl ⟨hwhole, hdigits xs, fun d hd hprefix => ?_⟩⟩
        obtain ⟨rest', rfl⟩ := (List.cons_prefix_cons.1 hprefix).2
        simp [hd] at hnone
      · rename_i hsome
        cases h
        exact ⟨head?_dropWhile rest,
          .inr ⟨_, _, rfl, ⟨hwhole, hdigits xs⟩, by simpa using hsome, hdigits rest⟩⟩
    · rename_i hpoint
      cases h
      refine ⟨hstop, .inl ⟨hwhole, hdigits xs, fun d _ hprefix => ?_⟩⟩
      obtain ⟨rest, hrest⟩ := hprefix
      exact hpoint (d :: rest) hrest.symm

theorem DecimalEnd.takeDecimal? {text : List Char} (h : DecimalEnd text cs) :
    takeDecimal? (text ++ cs) = some (text, cs) := by
  obtain ⟨hend, ⟨hne, hdigits, hpoint⟩ | ⟨whole, decimals, rfl, ⟨hne, hwhole⟩, hne', hdecimals⟩⟩ := h
  · obtain ⟨htake, hdrop⟩ := span_append hdigits hend
    unfold Source.takeDecimal?
    rw [htake, hdrop, if_neg (by simpa using hne)]
    split
    · rename_i rest
      have hnone : rest.takeWhile Char.isDigit = [] := by
        cases rest with
        | nil => rfl
        | cons d rest =>
          exact List.takeWhile_cons_of_neg fun hd => hpoint d hd (List.prefix_append ['.', d] rest)
      rw [hnone]
      rfl
    · rfl
  · have hpoint : ∀ x ∈ ('.' :: (decimals ++ cs)).head?, x.isDigit = false := by
      rintro _ ⟨⟩
      rfl
    obtain ⟨htake, hdrop⟩ := span_append hwhole hpoint
    obtain ⟨htake', hdrop'⟩ := span_append hdecimals hend
    unfold Source.takeDecimal?
    rw [List.append_assoc, List.cons_append, htake, hdrop, if_neg (by simpa using hne)]
    simp only [htake', hdrop']
    exact if_neg (by simpa using hne')

/-- A mark of base sixteen with a digit behind it. -/
def IsHexOpening (xs : List Char) : Prop :=
  ∃ x d, xs = ['0', x, d] ∧ (x = 'x' ∨ x = 'X') ∧ Text.isHexDigit d

theorem takeUnsigned?_of_hexOpening {xs rest : List Char} (h : IsHexOpening xs) :
    takeUnsigned? (xs ++ rest) =
      some (xs ++ rest.takeWhile Text.isHexDigit, rest.dropWhile Text.isHexDigit) := by
  obtain ⟨x, d, rfl, hx, hd⟩ := h
  exact if_pos ⟨hx, hd⟩

theorem takeUnsigned?_of_not_hexOpening (h : ∀ xs, IsHexOpening xs → ¬ xs <+: cs) :
    takeUnsigned? cs = takeDecimal? cs := by
  unfold takeUnsigned?
  split
  · rename_i x d rest
    exact if_neg fun hhex => h _ ⟨x, d, rfl, hhex⟩ (List.prefix_append ['0', x, d] rest)
  · rfl

theorem isHexDigit_layout : ('/' :: blanks).any Text.isHexDigit = false := by decide

theorem IsHexOpening.opensTerminal {xs : List Char} (h : IsHexOpening xs) :
    ∀ x ∈ xs, opensTerminal x := by
  obtain ⟨x, d, rfl, hx, hd⟩ := h
  have hx : Source.opensTerminal x := by rcases hx with rfl | rfl <;> rfl
  simp [hx, opensTerminal_of isHexDigit_layout hd]
  rfl

namespace GoesOnLike

variable {text : List Char}

theorem decimalEnd (h : GoesOnLike cs ds) (hcs : DecimalEnd text cs) : DecimalEnd text ds := by
  refine ⟨h.stops rfl hcs.1, hcs.2.imp_left fun ⟨hne, hdigits, hpoint⟩ => ⟨hne, hdigits, ?_⟩⟩
  intro d hd hprefix
  have hopens : ∀ x ∈ ['.', d], opensTerminal x := by
    have hlayout : ('/' :: blanks).any Char.isDigit = false := rfl
    simp [opensTerminal_of hlayout hd]
    rfl
  exact hpoint d hd (h _ hopens hprefix)

theorem takeUnsigned? (h : GoesOnLike cs ds)
    (htake : takeUnsigned? (text ++ cs) = some (text, cs)) :
    takeUnsigned? (text ++ ds) = some (text, ds) := by
  by_cases hhex : ∃ xs, IsHexOpening xs ∧ xs <+: text ++ cs
  · obtain ⟨xs, hxs, rest, hrest⟩ := hhex
    -- the opening is part of the word, which ends where the digits do
    rw [← hrest, takeUnsigned?_of_hexOpening hxs] at htake
    simp only [Option.some.injEq, Prod.mk.injEq] at htake
    obtain ⟨rfl, rfl⟩ := htake
    have hstop := h.stops isHexDigit_layout (head?_dropWhile rest)
    obtain ⟨htake, hdrop⟩ := span_append (fun _ => List.mem_takeWhile_imp) hstop
    rw [List.append_assoc, takeUnsigned?_of_hexOpening hxs, htake, hdrop]
  · rw [takeUnsigned?_of_not_hexOpening fun xs hxs hprefix => hhex ⟨xs, hxs, hprefix⟩] at htake
    -- an opening that came about only in the second text would be the first one's as well
    rw [takeUnsigned?_of_not_hexOpening fun xs hxs hprefix =>
      hhex ⟨xs, hxs, h.append text xs hxs.opensTerminal hprefix⟩]
    exact (h.decimalEnd (decimalEnd_of_takeDecimal? htake)).takeDecimal?

theorem takeNumber? (h : GoesOnLike cs ds) (htake : takeNumber? (text ++ cs) = some (text, cs)) :
    takeNumber? (text ++ ds) = some (text, ds) := by
  obtain ⟨x, xs, rfl, hx⟩ := Terminal.exists_of_take? (t := .number) rfl htake
  rw [List.cons_append] at htake ⊢
  by_cases hsign : x = '-'
  · subst hsign
    obtain ⟨⟨taken, rest⟩, hunsigned, heq⟩ := Option.map_eq_some_iff.1 htake
    cases heq
    exact Option.map_eq_some_iff.2 ⟨(xs, ds), h.takeUnsigned? hunsigned, rfl⟩
  · rw [takeNumber?_eq hsign] at htake ⊢
    rw [← List.cons_append] at htake ⊢
    exact h.takeUnsigned? htake

/-- **Terminals.**  What was taken is taken as well where layout is put in behind it. -/
theorem take? (h : GoesOnLike cs ds) {t : Terminal} (htake : t.take? (text ++ cs) = some (text, cs)) :
    t.take? (text ++ ds) = some (text, ds) := by
  cases t with
  | fixed word =>
    rw [Terminal.take?, Pattern.takeFixed?_eq] at htake ⊢
    split at htake
    · obtain rfl := (Prod.mk.inj (Option.some.inj htake)).1
      rw [if_pos (List.prefix_append _ _), List.drop_left]
    · cases htake
  | name =>
    obtain ⟨-, heq⟩ := takeName?_eq_some.1 htake
    obtain ⟨x, xs, rfl, hx⟩ := Terminal.exists_of_take? (t := .name) rfl htake
    obtain ⟨htext, hcs⟩ := Prod.mk.inj heq
    have hword : ∀ y ∈ x :: xs, continuesName y := fun y hy => by
      rw [htext] at hy
      exact List.mem_takeWhile_imp hy
    have hstop : ∀ y ∈ ds.head?, continuesName y = false :=
      h.stops rfl fun y hy => head?_dropWhile _ y (hcs ▸ hy)
    obtain ⟨htake, hdrop⟩ := span_append hword hstop
    exact takeName?_eq_some.2 ⟨⟨x, rfl, hx⟩, by rw [htake, hdrop]⟩
  | number => exact h.takeNumber? htake
  | string =>
    obtain ⟨body, hbody, htext, -⟩ := takeString?_eq_some.1 htake
    exact takeString?_eq_some.2 ⟨body, hbody, htext, rfl⟩

end GoesOnLike

/-! ### Texts that consist of words -/

/-- The words stand in the text one behind the other, and behind them there is only layout. -/
def Fills (ws : List Word) (cs : List Char) : Prop := ∃ rest, Laid ws cs rest ∧ skip rest = []

theorem Fills.of_skip_eq (h : Fills ws cs) (heq : skip ds = skip cs) : Fills ws ds := by
  obtain ⟨rest, hlaid, hrest⟩ := h
  cases hlaid with
  | nil => exact ⟨ds, .nil, heq.trans hrest⟩
  | cons hopens htake hlaid => exact ⟨rest, .cons hopens (heq ▸ htake) hlaid, hrest⟩

/-- With layout put in, a text consists of the same words. -/
theorem Spaced.fills (h : Spaced ws cs ds) (hopens : ∀ w ∈ ws, w.kind.opens) : Fills ws ds := by
  induction h with
  | nil => exact ⟨[], .nil, rfl⟩
  | insert hpiece _ ih => exact (ih hopens).of_skip_eq (hpiece.skip_append _)
  | blank hx _ ih => exact (ih hopens).of_skip_eq (skip_blank hx _)
  | comment hmatch h ih =>
    obtain ⟨body, rfl, hbody, hcs⟩ := exists_of_match?_comment hmatch
    -- the comment may go on in the second text, but not beyond the line feed behind it
    refine (ih hopens).of_skip_eq ?_
    rw [List.cons_append, List.cons_append, skip_comment, skipLine_append hbody,
      h.skipLine_eq hopens hcs]
  | @word w ws cs ds hmatch h ih =>
    rw [List.forall_mem_cons] at hopens
    obtain ⟨x, xs, htext, hx⟩ := Word.exists_of_match? hopens.1 hmatch
    obtain ⟨rest, hlaid, hrest⟩ := ih hopens.2
    have hskip : skip (w.text ++ ds) = w.text ++ ds := by
      rw [htext, List.cons_append, skip_of_opensTerminal hx]
    rw [w.kind.match?_pattern] at hmatch
    exact ⟨rest, .cons hopens.1 (hskip.symm ▸ h.goesOnLike.take? hmatch) hlaid, hrest⟩

theorem spaced_blanks {xs : List Char} (hxs : ∀ x ∈ xs, x ∈ blanks) (h : Spaced ws cs cs) :
    Spaced ws (xs ++ cs) (xs ++ cs) := by
  induction xs with
  | nil => exact h
  | cons x xs ih =>
    rw [List.forall_mem_cons] at hxs
    exact .blank hxs.1 (ih hxs.2)

theorem spaced_of_layout {c c' : Cursor} (hlayout : Grammar.Layout c c')
    (h : Spaced ws c'.rest c'.rest) : Spaced ws c.rest c.rest := by
  induction hlayout using Relation.ReflTransGen.head_induction_on with
  | refl => exact h
  | head hstep _ ih =>
    obtain ⟨p, hp, taken, rest, hmatch, rfl⟩ := hstep
    have happend := Pattern.append_of_match? hmatch
    rw [← happend] at hmatch ⊢
    rw [List.mem_cons, List.mem_singleton] at hp
    rcases hp with rfl | rfl
    · exact .comment hmatch ih
    · rw [match?_blanks] at hmatch
      split at hmatch
      · cases hmatch
      · obtain ⟨htaken, -⟩ := Prod.mk.inj (Option.some.inj hmatch)
        refine spaced_blanks (fun x hx => ?_) ih
        rw [← htaken] at hx
        simpa using List.mem_takeWhile_imp hx

theorem Fills.spaced (h : Fills ws cs) : Spaced ws cs cs := by
  obtain ⟨rest, hlaid, hrest⟩ := h
  induction hlaid with
  | @nil cs =>
    refine spaced_of_layout (Grammar.layout_skipLayout ⟨0, cs⟩) ?_
    rw [show (Cursor.skipLayout ⟨0, cs⟩).rest = [] from hrest]
    exact .nil
  | @cons w ws cs ds es hopens htake _ ih =>
    refine spaced_of_layout (Grammar.layout_skipLayout ⟨0, cs⟩) ?_
    rw [← w.kind.match?_pattern] at htake
    have happend : w.text ++ ds = (Cursor.skipLayout ⟨0, cs⟩).rest := Pattern.append_of_match? htake
    rw [← happend]
    exact .word (happend ▸ htake) (ih hrest)

/-! ### Two texts of the same words -/

/-- A text that is read consists of words that the grammar yields. -/
theorem exists_words_of_read {text : List Char} {d : Document} (h : read text = .ok d) :
    ∃ ws, (Phrase.rule .start).Yields ws ∧ Spaced ws text text := by
  obtain ⟨c, c', hdocument, hlayout, hrest⟩ := read_eq_ok_iff.1 h
  obtain ⟨ws, hws, hlaid⟩ := (follows_document (text.length + 1)).words (Nat.lt_succ_self _) hdocument
  have hskip := c'.length_skipLayout
  rw [hlayout.skipLayout_eq, hrest] at hskip
  exact ⟨ws, hws, Fills.spaced ⟨c.rest, hlaid, List.eq_nil_of_length_eq_zero (Nat.le_zero.1 hskip)⟩⟩

/-- **Layout put in.**  Words that the grammar yields are read, with whatever layout, and the tree is
the same up to lines. -/
theorem read_of_spaced {text text' : List Char} (hws : (Phrase.rule .start).Yields ws)
    (h : Spaced ws text text') : ∃ d d', read text = .ok d ∧ read text' = .ok d' ∧
      d'.map NamespaceSource.unlined = d.map NamespaceSource.unlined := by
  have hopens := hws.opens rfl
  obtain ⟨rest, hlaid, hrest⟩ := h.left.fills hopens
  obtain ⟨rest', hlaid', hrest'⟩ := h.fills hopens
  obtain ⟨d, c, d', c', ⟨hd, rfl⟩, ⟨hd', rfl⟩, hview⟩ := (follows_document (ws.length + 1)).trees
    (c := ⟨1, text⟩) (d := ⟨1, text'⟩) (Nat.lt_succ_self _) hws hlaid hlaid'
  exact ⟨d, d', read_eq_ok_iff.2 ⟨c, _, hd, Grammar.layout_skipLayout c, hrest⟩,
    read_eq_ok_iff.2 ⟨c', _, hd', Grammar.layout_skipLayout c', hrest'⟩, hview.symm⟩

end Bindery.Source
