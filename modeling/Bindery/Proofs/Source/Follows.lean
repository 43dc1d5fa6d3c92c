import Bindery.Proofs.Source.Yield
/-!
# Rules and the words they take

What it is for a rule to follow a phrase of the grammar (`Follows`): what it derives consists of words
that the phrase yields; and of words that the phrase yields it derives a tree wherever they are laid,
and the same tree in two texts, as far as it is looked at.  Rules that are put together follow the
phrases that are put together in the same way.  For rules that are recursive, texts and words may be
bounded in length.
-/

namespace Bindery.Source

variable {α β γ : Type} {n m : Nat} {p q : Phrase} {R R' : Rule α}

/-- The rules `R` and `R'` follow the phrase `p` in texts, and on words, shorter than `n`.  Of the same
words they derive, each in its text, trees that look alike in `view`. -/
structure Follows (n : Nat) (p : Phrase) (R R' : Rule α) (view : α → β) : Prop where
  words : ∀ {c a c'}, c.rest.length < n → R c a c' → ∃ ws, p.Yields ws ∧ Laid ws c.rest c'.rest
  trees : ∀ {ws} {c d : Cursor} {rest rest'}, ws.length < n → p.Yields ws → Laid ws c.rest rest →
    Laid ws d.rest rest' →
      ∃ a c' a' d', (R c a c' ∧ c'.rest = rest) ∧ (R' d a' d' ∧ d'.rest = rest') ∧ view a = view a'

namespace Follows

variable {view : α → β}

theorem zero : Follows 0 p R R' view where
  words h := absurd h (Nat.not_lt_zero _)
  trees h := absurd h (Nat.not_lt_zero _)

theorem of_iff {S S' : Rule α} (h : Follows n p R R' view) (hS : ∀ c a c', S c a c' ↔ R c a c')
    (hS' : ∀ c a c', S' c a c' ↔ R' c a c') : Follows n p S S' view where
  words hc hR := h.words hc ((hS _ _ _).1 hR)
  trees hws hp hc hd := by
    obtain ⟨a, c', a', d', ⟨hR, hc'⟩, ⟨hR', hd'⟩, hview⟩ := h.trees hws hp hc hd
    exact ⟨a, c', a', d', ⟨(hS _ _ _).2 hR, hc'⟩, ⟨(hS' _ _ _).2 hR', hd'⟩, hview⟩

theorem of_alike (h : Follows n p R R' view) (hq : q.Alike p) : Follows n q R R' view where
  words hc hR := by
    obtain ⟨ws, hp, hlaid⟩ := h.words hc hR
    exact ⟨ws, (hq ws).2 hp, hlaid⟩
  trees hws hp := h.trees hws ((hq _).1 hp)

theorem rule {s : Symbol} (h : Follows n (production s) R R' view) : Follows n (.rule s) R R' view :=
  h.of_alike fun _ => Phrase.yields_rule

theorem terminal (n : Nat) {t : Terminal} (ht : t.opens) : Follows n (.terminal t)
    (Grammar.terminal t.pattern) (Grammar.terminal t.pattern) (·.value) where
  words _ hR := by
    obtain ⟨taken, rest, htake, -, rfl⟩ := (terminal_iff ht).1 hR
    exact ⟨[⟨t, taken⟩], .terminal ⟨t, taken⟩, .cons ht htake .nil⟩
  trees _ hp hc hd := by
    obtain ⟨text, rfl⟩ := Phrase.yields_terminal.1 hp
    obtain _ | ⟨-, htake, ⟨⟩⟩ := hc
    obtain _ | ⟨-, htake', ⟨⟩⟩ := hd
    exact ⟨_, _, _, _, ⟨(terminal_iff ht).2 ⟨_, _, htake, rfl, rfl⟩, rfl⟩,
      ⟨(terminal_iff ht).2 ⟨_, _, htake', rfl, rfl⟩, rfl⟩, rfl⟩

/-! ### Sequence -/

section Sequence

variable {S S' : α → Rule γ} {view' : γ → β}

/-- One rule behind another.  The second must follow its phrase as far as the first one leaves room,
and must not make a difference between trees that look alike. -/
theorem bind_of {δ : Type} {view' : γ → δ} (hR : Follows n p R R' view)
    (hS : ∀ a a', view a = view a' → Follows m q (S a) (S' a') view')
    (hroom : ∀ us k, p.Yields us → k + us.length < n → k < m) :
    Follows n (.seq p q) (R >>= S) (R' >>= S') view' where
  words := by
    rintro c b c'' hc ⟨a, c', hRa, hSb⟩
    obtain ⟨us, hus, hlaid⟩ := hR.words hc hRa
    have hlength := hlaid.length_le
    obtain ⟨vs, hvs, hlaid'⟩ := (hS a a rfl).words (hroom us _ hus (by omega)) hSb
    exact ⟨us ++ vs, .seq hus hvs, hlaid.append hlaid'⟩
  trees := by
    intro ws c d rest rest' hws hp hc hd
    obtain ⟨us, vs, hus, hvs, rfl⟩ := Phrase.yields_seq.1 hp
    obtain ⟨cs, hc, hcs⟩ := hc.exists_of_append
    obtain ⟨ds, hd, hds⟩ := hd.exists_of_append
    rw [List.length_append] at hws
    obtain ⟨a, c₁, a', d₁, ⟨hRa, rfl⟩, ⟨hRa', rfl⟩, hview⟩ := hR.trees (by omega) hus hc hd
    obtain ⟨b, c₂, b', d₂, ⟨hSb, hc₂⟩, ⟨hSb', hd₂⟩, hview'⟩ :=
      (hS a a' hview).trees (hroom us _ hus (by omega)) hvs hcs hds
    exact ⟨b, c₂, b', d₂, ⟨⟨a, c₁, hRa, hSb⟩, hc₂⟩, ⟨⟨a', d₁, hRa', hSb'⟩, hd₂⟩, hview'⟩

theorem bind {δ : Type} {view' : γ → δ} (hR : Follows n p R R' view)
    (hS : ∀ a a', view a = view a' → Follows n q (S a) (S' a') view') :
    Follows n (.seq p q) (R >>= S) (R' >>= S') view' :=
  hR.bind_of hS fun _ _ _ h => by omega

theorem bind_lt {δ : Type} {view' : γ → δ} (hR : Follows (n + 1) p R R' view)
    (hp : ∀ us, p.Yields us → 0 < us.length)
    (hS : ∀ a a', view a = view a' → Follows n q (S a) (S' a') view') :
    Follows (n + 1) (.seq p q) (R >>= S) (R' >>= S') view' :=
  hR.bind_of hS fun us _ hus h => by
    have := hp us hus
    omega

theorem map {δ : Type} {view' : γ → δ} {f f' : α → γ} (hR : Follows n p R R' view)
    (hf : ∀ a a', view a = view a' → view' (f a) = view' (f' a')) :
    Follows n p (R >>= fun a => pure (f a)) (R' >>= fun a => pure (f' a)) view' where
  words := by
    rintro c b c' hc ⟨a, c', hRa, rfl, rfl⟩
    exact hR.words hc hRa
  trees := by
    intro ws c d rest rest' hws hp hc hd
    obtain ⟨a, c₁, a', d₁, ⟨hRa, hc₁⟩, ⟨hRa', hd₁⟩, hview⟩ := hR.trees hws hp hc hd
    exact ⟨f a, c₁, f' a', d₁, ⟨⟨a, c₁, hRa, rfl, rfl⟩, hc₁⟩, ⟨⟨a', d₁, hRa', rfl, rfl⟩, hd₁⟩,
      hf a a' hview⟩

end Sequence

/-! ### Choice and repetition -/

theorem or {S S' : Rule α} (hR : Follows n p R R' view) (hS : Follows n q S S' view) :
    Follows n (.alt p q) (R.or S) (R'.or S') view where
  words := by
    rintro c a c' hc (h | h)
    · obtain ⟨ws, hp, hlaid⟩ := hR.words hc h
      exact ⟨ws, .left hp, hlaid⟩
    · obtain ⟨ws, hq, hlaid⟩ := hS.words hc h
      exact ⟨ws, .right hq, hlaid⟩
  trees := by
    intro ws c d rest rest' hws h hc hd
    rcases Phrase.yields_alt.1 h with hp | hq
    · obtain ⟨a, c', a', d', ⟨h, hc'⟩, ⟨h', hd'⟩, hview⟩ := hR.trees hws hp hc hd
      exact ⟨a, c', a', d', ⟨.inl h, hc'⟩, ⟨.inl h', hd'⟩, hview⟩
    · obtain ⟨a, c', a', d', ⟨h, hc'⟩, ⟨h', hd'⟩, hview⟩ := hS.trees hws hq hc hd
      exact ⟨a, c', a', d', ⟨.inr h, hc'⟩, ⟨.inr h', hd'⟩, hview⟩

theorem orPure {a : α} (hR : Follows n p R R' view) :
    Follows n (.optional p) (.or (pure a) R) (.or (pure a) R') view where
  words := by
    rintro c b c' hc (⟨-, rfl⟩ | h)
    · exact ⟨[], .absent, .nil⟩
    · obtain ⟨ws, hp, hlaid⟩ := hR.words hc h
      exact ⟨ws, .present hp, hlaid⟩
  trees := by
    intro ws c d rest rest' hws h hc hd
    rcases Phrase.yields_optional.1 h with rfl | hp
    · cases hc
      cases hd
      exact ⟨a, c, a, d, ⟨.inl ⟨rfl, rfl⟩, rfl⟩, ⟨.inl ⟨rfl, rfl⟩, rfl⟩, rfl⟩
    · obtain ⟨b, c', b', d', ⟨h, hc'⟩, ⟨h', hd'⟩, hview⟩ := hR.trees hws hp hc hd
      exact ⟨b, c', b', d', ⟨.inr h, hc'⟩, ⟨.inr h', hd'⟩, hview⟩

theorem optional (hR : Follows n p R R' view) :
    Follows n (.optional p) R.optional R'.optional (Option.map view) := by
  have hsome : Follows n p (do let a ← R; return some a) (do let a ← R'; return some a)
      (Option.map view) := hR.map fun _ _ => congrArg some
  refine (hsome.orPure (a := none)).of_iff ?_ ?_
  all_goals
    intro c o c'
    constructor
    · rintro (h | ⟨a, rfl, h⟩)
      · exact .inl h
      · exact .inr ⟨a, c', h, rfl, rfl⟩
    · rintro (h | ⟨a, _, h, rfl, rfl⟩)
      · exact .inl h
      · exact .inr ⟨a, rfl, h⟩

theorem many (hR : Follows n p R R' view) :
    Follows n (.many p) (Many R) (Many R') (List.map view) where
  words := by
    intro c as c' hc h
    induction h with
    | nil => exact ⟨[], .done, .nil⟩
    | cons ha _ ih =>
      obtain ⟨us, hus, hlaid⟩ := hR.words hc ha
      have hlength := hlaid.length_le
      obtain ⟨vs, hvs, hlaid'⟩ := ih (by omega)
      exact ⟨us ++ vs, .more hus hvs, hlaid.append hlaid'⟩
  trees := by
    intro ws c d rest rest' hws hp hc hd
    obtain ⟨parts, hparts, rfl⟩ := Phrase.exists_parts_of_many hp
    clear hp
    induction parts generalizing c d with
    | nil =>
      cases hc
      cases hd
      exact ⟨[], c, [], d, ⟨.nil, rfl⟩, ⟨.nil, rfl⟩, rfl⟩
    | cons part parts ih =>
      rw [List.flatten_cons] at hws hc hd
      rw [List.length_append] at hws
      rw [List.forall_mem_cons] at hparts
      obtain ⟨cs, hc, hcs⟩ := hc.exists_of_append
      obtain ⟨ds, hd, hds⟩ := hd.exists_of_append
      obtain ⟨a, c₁, a', d₁, ⟨h, rfl⟩, ⟨h', rfl⟩, hview⟩ := hR.trees (by omega) hparts.1 hc hd
      obtain ⟨as, c₂, as', d₂, ⟨hs, hc₂⟩, ⟨hs', hd₂⟩, hviews⟩ := ih hparts.2 (by omega) hcs hds
      refine ⟨a :: as, c₂, a' :: as', d₂, ⟨.cons h hs, hc₂⟩, ⟨.cons h' hs', hd₂⟩, ?_⟩
      rw [List.map_cons, List.map_cons, hview, hviews]

end Follows

end Bindery.Source
