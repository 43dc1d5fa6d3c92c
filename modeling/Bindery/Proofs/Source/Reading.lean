import Bindery.Proofs.Sequence
import Bindery.Proofs.Source.Layout
/-!
# Readers of rules

What it is for a reader to read a rule of the grammar (`Reads`): what it reads is derived, and what is
derived it reads, as long as the text does not go on in a way that the reader takes for more.  Readers
that are put together read the rules that are put together in the same way.
-/

namespace Bindery.Source

variable {α β : Type}

/-- At the point `c` the reader `p` reads the rule `R`.  What is derived is read if the next character
behind it is as `ends` says; and at least `k` characters are derived. -/
structure Reads (c : Cursor) (k : Nat) (p : Parser α) (R : Rule α) (ends : Option Char → Prop) :
    Prop where
  sound : ∀ {a c'}, p c = .ok (a, c') → R c a c'
  complete : ∀ {a c'}, R c a c' → ends c'.next → p c = .ok (a, c')
  takes : ∀ {a c'}, R c a c' → c'.rest.length + k ≤ c.rest.length

/-- The text may go on in any way. -/
abbrev anyhow : Option Char → Prop := fun _ => True

/-! ### Sequence -/

theorem discard_bind (p : Parser α) (q : Parser β) : (do discard p; q) = (do let _ ← p; q) := by
  funext c
  change Except.bind (Except.bind (p c) _) _ = Except.bind (p c) _
  cases p c <;> rfl

theorem pure_eq_ok {a b : α} {c c' : Cursor} :
    (pure a : Parser α) c = .ok (b, c') ↔ b = a ∧ c' = c := by
  change Except.ok (a, c) = .ok (b, c') ↔ _
  simp only [Except.ok.injEq, Prod.mk.injEq]
  exact and_congr eq_comm eq_comm

theorem parser_bind_eq_ok {p : Parser α} {q : α → Parser β} {c c'' : Cursor} {b : β} :
    (p >>= q) c = .ok (b, c'') ↔ ∃ a c', p c = .ok (a, c') ∧ q a c' = .ok (b, c'') := by
  refine bind_eq_ok.trans ⟨?_, ?_⟩
  · rintro ⟨⟨a, c'⟩, hp, hq⟩
    exact ⟨a, c', hp, hq⟩
  · rintro ⟨a, c', hp, hq⟩
    exact ⟨(a, c'), hp, hq⟩

namespace Reads

variable {c : Cursor} {k k' l : Nat} {p : Parser α} {R : Rule α} {q : α → Parser β}
  {S : α → Rule β} {E F : Option Char → Prop}

theorem mono (h : Reads c k p R E) (hk : k' ≤ k) : Reads c k' p R E where
  sound := h.sound
  complete := h.complete
  takes hR := Nat.le_trans (Nat.add_le_add_left hk _) (h.takes hR)

theorem ending (h : Reads c k p R E) (hEF : ∀ y, F y → E y) : Reads c k p R F where
  sound := h.sound
  complete hR hF := h.complete hR (hEF _ hF)
  takes := h.takes

theorem tail (h : Reads c k p R E) : Reads c 0 p R E := h.mono (Nat.zero_le k)

theorem of_rule {R' : Rule α} (h : Reads c k p R E) (hsound : ∀ a c', R c a c' → R' c a c')
    (hcomplete : ∀ a c', R' c a c' → E c'.next → R c a c')
    (htakes : ∀ a c', R' c a c' → c'.rest.length + k ≤ c.rest.length) : Reads c k p R' E where
  sound hp := hsound _ _ (h.sound hp)
  complete h' hE := h.complete (hcomplete _ _ h' hE) hE
  takes h' := htakes _ _ h'

theorem congr {R' : Rule α} (h : Reads c k p R E) (hR : ∀ a c', R' c a c' ↔ R c a c') :
    Reads c k p R' E :=
  h.of_rule (fun _ _ => (hR _ _).2) (fun _ _ h' _ => (hR _ _).1 h') fun _ _ h' =>
    h.takes ((hR _ _).1 h')

protected theorem pure (a : α) : Reads c 0 (pure a) (pure a : Rule α) anyhow where
  sound h := pure_eq_ok.1 h
  complete h _ := pure_eq_ok.2 h
  takes h := by rw [h.2]; exact Nat.le_refl _

/-- One reader behind another.  Where the second rule follows, the next character must be one with
which the first reader ends. -/
theorem bind_of (hp : Reads c k p R E)
    (hq : ∀ a c₁, c₁.rest.length + k ≤ c.rest.length → Reads c₁ l (q a) (S a) F)
    (hends : ∀ a c₁ b c₂, S a c₁ b c₂ → F c₂.next → E c₁.next) :
    Reads c (k + l) (p >>= q) (R >>= S) F where
  sound h := by
    obtain ⟨a, c₁, ha, hb⟩ := parser_bind_eq_ok.1 h
    have hR := hp.sound ha
    exact ⟨a, c₁, hR, (hq a c₁ (hp.takes hR)).sound hb⟩
  complete := by
    rintro b c₂ ⟨a, c₁, hR, hS⟩ hF
    refine parser_bind_eq_ok.2 ⟨a, c₁, hp.complete hR (hends a c₁ b c₂ hS hF), ?_⟩
    exact (hq a c₁ (hp.takes hR)).complete hS hF
  takes := by
    rintro b c₂ ⟨a, c₁, hR, hS⟩
    have h₁ := hp.takes hR
    have h₂ := (hq a c₁ h₁).takes hS
    omega

theorem bind (hp : Reads c k p R E)
    (hq : ∀ a c₁, c₁.rest.length + k ≤ c.rest.length → Reads c₁ l (q a) (S a) F)
    (hends : ∀ a c₁ b c₂, S a c₁ b c₂ → F c₂.next → E c₁.next) : Reads c k (p >>= q) (R >>= S) F :=
  (hp.bind_of hq hends).mono (Nat.le_add_right k l)

theorem andThen (hp : Reads c k p R anyhow)
    (hq : ∀ a c₁, c₁.rest.length + k ≤ c.rest.length → Reads c₁ l (q a) (S a) F) :
    Reads c k (p >>= q) (R >>= S) F :=
  hp.bind hq fun _ _ _ _ _ _ => trivial

theorem before (hp : Reads c 0 p R E)
    (hq : ∀ a c₁, c₁.rest.length ≤ c.rest.length → Reads c₁ k (q a) (S a) F)
    (hends : ∀ a c₁ b c₂, S a c₁ b c₂ → F c₂.next → E c₁.next) : Reads c k (p >>= q) (R >>= S) F := by
  have h := hp.bind_of hq hends
  rwa [Nat.zero_add] at h

theorem map (h : Reads c k p R E) (f : α → β) :
    Reads c k (p >>= fun a => pure (f a)) (R >>= fun a => pure (f a)) E where
  sound hb := by
    obtain ⟨a, c₁, ha, hb⟩ := parser_bind_eq_ok.1 hb
    exact ⟨a, c₁, h.sound ha, pure_eq_ok.1 hb⟩
  complete := by
    rintro b c' ⟨a, c₁, hR, rfl, rfl⟩ hE
    exact parser_bind_eq_ok.2 ⟨a, c', h.complete hR hE, rfl⟩
  takes := by
    rintro b c' ⟨a, c₁, hR, rfl, rfl⟩
    exact h.takes hR

/-! ### Choice -/

/-- One of two readers, if the rules exclude each other. -/
theorem either {p₂ : Parser α} {R₂ : Rule α} (h : Reads c k p R E) (h₂ : Reads c k p₂ R₂ E)
    (hex : ∀ a c₁ b c₂, R c a c₁ → ¬ R₂ c b c₂) : Reads c k (Parser.either p p₂) (R.or R₂) E where
  sound hread := by
    simp only [Parser.either] at hread
    split at hread
    · rename_i r hr
      cases hread
      exact .inl (h.sound hr)
    · split at hread
      · rename_i r hr
        cases hread
        exact .inr (h₂.sound hr)
      · cases hread
  complete := by
    rintro a c' (hR | hR) hE
    · simp only [Parser.either, h.complete hR hE]
    · cases hp : p c with
      | ok r => exact (hex _ _ _ _ (h.sound hp) hR).elim
      | error i => simp only [Parser.either, hp, h₂.complete hR hE]
  takes hR := hR.elim h.takes h₂.takes

end Reads

/-! ### Looking ahead -/

theorem peek_bind {f : Option Char → Parser α} {c : Cursor} :
    (Parser.peek >>= f) c = f c.next c := rfl

theorem Reads.peek {c : Cursor} {k : Nat} {f : Option Char → Parser α} {R : Rule α}
    {E : Option Char → Prop} (h : Reads c k (f c.next) R E) : Reads c k (Parser.peek >>= f) R E where
  sound := h.sound
  complete := h.complete
  takes := h.takes

theorem Reads.whenNext {c : Cursor} {k : Nat} {p : Parser α} {R : Rule α} {E : Option Char → Prop}
    {x : Char} (h : Reads c k p R E) (hnext : ∀ a c', R c a c' → c.next = some x) :
    Reads c 0 (Parser.whenNext x p) R.optional fun y => y ≠ some x ∧ E y where
  sound hread := by
    rw [Parser.whenNext, peek_bind] at hread
    split at hread
    · obtain ⟨a, c₁, ha, hb⟩ := parser_bind_eq_ok.1 hread
      obtain ⟨rfl, rfl⟩ := pure_eq_ok.1 hb
      exact .inr ⟨a, rfl, h.sound ha⟩
    · exact .inl (pure_eq_ok.1 hread)
  complete := by
    rintro o c' (⟨rfl, rfl⟩ | ⟨a, rfl, hR⟩) ⟨hy, hE⟩
    · rw [Parser.whenNext, peek_bind, if_neg hy]
      rfl
    · rw [Parser.whenNext, peek_bind, if_pos (hnext a c' hR)]
      exact parser_bind_eq_ok.2 ⟨a, c', h.complete hR hE, rfl⟩
  takes := by
    rintro o c' (⟨-, rfl⟩ | ⟨a, -, hR⟩)
    · exact Nat.le_refl _
    · exact Nat.le_trans (Nat.add_le_add_left (Nat.zero_le k) _) (h.takes hR)

theorem Reads.unlessNext {c : Cursor} {k : Nat} {p : Parser α} {R : Rule α} {E : Option Char → Prop}
    {x : Char} (a : α) (h : Reads c k p R E) (hnext : ∀ b c', R c b c' → c.next ≠ some x) :
    Reads c 0 (do if (← Parser.peek) = some x then return a else p) (.or (pure a) R)
      fun y => y = some x ∧ E y where
  sound hread := by
    rw [peek_bind] at hread
    split at hread
    · exact .inl (pure_eq_ok.1 hread)
    · exact .inr (h.sound hread)
  complete := by
    rintro b c' (⟨rfl, rfl⟩ | hR) ⟨hy, hE⟩
    · rw [peek_bind, if_pos hy]
      rfl
    · rw [peek_bind, if_neg (hnext b c' hR)]
      exact h.complete hR hE
  takes := by
    rintro b c' (⟨-, rfl⟩ | hR)
    · exact Nat.le_refl _
    · exact h.tail.takes hR

/-! ### Repetition -/

section Many

variable {more : Option Char → Bool} {p : Parser α} {R : Rule α} {E : Option Char → Prop}

theorem manyFuel_of_stop {c : Cursor} (fuel : Nat) (h : more c.next = false) :
    Parser.manyFuel more p fuel c = .ok ([], c) := by
  cases fuel <;> rw [Parser.manyFuel, peek_bind, h] <;> rfl

theorem manyFuel_succ_of_more {c : Cursor} {fuel : Nat} (h : more c.next = true) :
    Parser.manyFuel more p (fuel + 1) c =
      (do let a ← p; return a :: (← Parser.manyFuel more p fuel) : Parser (List α)) c := by
  rw [Parser.manyFuel, peek_bind, h]
  rfl

/-- What is read part by part is derived, and the last part is not followed by another. -/
theorem sound_manyFuel {fuel : Nat} {c c' : Cursor} {as : List α}
    (hp : ∀ c₁ : Cursor, c₁.rest.length ≤ c.rest.length → Reads c₁ 1 p R E)
    (h : Parser.manyFuel more p fuel c = .ok (as, c')) : Many R c as c' ∧ more c'.next = false := by
  induction fuel generalizing c as with
  | zero =>
    cases hmore : more c.next with
    | true =>
      rw [Parser.manyFuel, peek_bind, hmore] at h
      cases h
    | false =>
      rw [manyFuel_of_stop _ hmore] at h
      cases h
      exact ⟨.nil, hmore⟩
  | succ fuel ih =>
    cases hmore : more c.next with
    | true =>
      rw [manyFuel_succ_of_more hmore] at h
      obtain ⟨a, c₁, ha, h⟩ := parser_bind_eq_ok.1 h
      obtain ⟨as, c₂, has, h⟩ := parser_bind_eq_ok.1 h
      obtain ⟨rfl, rfl⟩ := pure_eq_ok.1 h
      have hR := (hp c (Nat.le_refl _)).sound ha
      have htakes := (hp c (Nat.le_refl _)).takes hR
      obtain ⟨hmany, hend⟩ := ih (fun c₁ hc₁ => hp c₁ (by omega)) has
      exact ⟨.cons hR hmany, hend⟩
    | false =>
      rw [manyFuel_of_stop _ hmore] at h
      cases h
      exact ⟨.nil, hmore⟩

/-- What is derived part by part is read, if there are not more parts than characters. -/
theorem complete_manyFuel {fuel : Nat} {c c' : Cursor} {as : List α}
    (hp : ∀ c₁ : Cursor, c₁.rest.length ≤ c.rest.length → Reads c₁ 1 p R E)
    (hmore : ∀ c₁ a c₂, R c₁ a c₂ → more c₁.next = true) (hE : ∀ y, more y = true → E y)
    (h : Many R c as c') (hstop : more c'.next = false) (hend : E c'.next)
    (hfuel : c.rest.length ≤ fuel) : Parser.manyFuel more p fuel c = .ok (as, c') := by
  induction h generalizing fuel with
  | nil => exact manyFuel_of_stop fuel hstop
  | @cons c c₁ c₂ a as hR hmany ih =>
    have hreads := hp c (Nat.le_refl _)
    have htakes := hreads.takes hR
    obtain ⟨fuel, rfl⟩ : ∃ f, fuel = f + 1 := ⟨fuel - 1, by omega⟩
    rw [manyFuel_succ_of_more (hmore c a c₁ hR)]
    have hfirst : E c₁.next := by
      cases hmany with
      | nil => exact hend
      | cons hnext _ => exact hE _ (hmore _ _ _ hnext)
    refine parser_bind_eq_ok.2 ⟨a, c₁, hreads.complete hR hfirst, ?_⟩
    have hothers : Parser.manyFuel more p fuel c₁ = .ok (as, c₂) :=
      ih (fun c₃ hc₃ => hp c₃ (by omega)) hstop hend (by omega)
    exact parser_bind_eq_ok.2 ⟨as, c₂, hothers, rfl⟩

theorem length_many {c c' : Cursor} {as : List α}
    (hp : ∀ c₁ : Cursor, c₁.rest.length ≤ c.rest.length → Reads c₁ 1 p R E) (h : Many R c as c') :
    c'.rest.length ≤ c.rest.length := by
  induction h with
  | nil => exact Nat.le_refl _
  | @cons c c₁ c₂ a as hR _ ih =>
    have htakes := (hp c (Nat.le_refl _)).takes hR
    have := ih fun c₃ hc₃ => hp c₃ (by omega)
    omega

theorem Reads.manyWhile {c : Cursor}
    (hp : ∀ c₁ : Cursor, c₁.rest.length ≤ c.rest.length → Reads c₁ 1 p R E)
    (hmore : ∀ c₁ a c₂, R c₁ a c₂ → more c₁.next = true) (hE : ∀ y, more y = true → E y) :
    Reads c 0 (Parser.manyWhile more p) (Many R) fun y => more y = false ∧ E y where
  sound h := (sound_manyFuel hp h).1
  complete h hend := complete_manyFuel hp hmore hE h hend.1 hend.2 (Nat.le_refl _)
  takes h := length_many hp h

end Many

/-! ### Terminals -/

theorem reads_expect {t : Terminal} (ht : t.opens) (c : Cursor) :
    Reads c 1 (Parser.expect t) (Grammar.terminal t.pattern) anyhow where
  sound h := (expect_eq_ok ht).1 h
  complete h _ := (expect_eq_ok ht).2 h
  takes h := Grammar.length_of_terminal ht h

theorem reads_fixed (text : String) (ht : (Terminal.fixed text).opens) (c : Cursor) :
    Reads c 1 (Parser.fixed text) (Grammar.fixed text) anyhow :=
  reads_expect ht c

theorem Reads.afterMark {text : String} {c : Cursor} {l : Nat} {q : Parser β} {S : Rule β}
    {F : Option Char → Prop} (ht : (Terminal.fixed text).opens)
    (hq : ∀ c₁ : Cursor, c₁.rest.length + 1 ≤ c.rest.length → Reads c₁ l q S F) :
    Reads c 1 (do discard <| Parser.fixed text; q) (do let _ ← Grammar.fixed text; S) F :=
  discard_bind (Parser.fixed text) q ▸ (reads_fixed text ht c).andThen fun _ => hq

theorem next_of_fixed {text : String} {c c' : Cursor} {token : Located String}
    (ht : (Terminal.fixed text).opens) (h : Grammar.fixed text c token c') :
    c.next = text.toList.head? := by
  obtain ⟨x, hx, hstarts⟩ := Grammar.next_of_terminal (t := .fixed text) ht h
  rw [hx, eq_of_beq hstarts]

theorem Reads.untilMark {text : String} {c : Cursor} {k l : Nat} {p : Parser α} {R : Rule α}
    {q : α → Parser β} {S : α → Rule β} {E F : Option Char → Prop} (hp : Reads c k p R E)
    (ht : (Terminal.fixed text).opens) (hE : E text.toList.head?)
    (hq : ∀ a, ∀ c₁ : Cursor, c₁.rest.length + k + 1 ≤ c.rest.length → Reads c₁ l (q a) (S a) F) :
    Reads c k (do let a ← p; discard <| Parser.fixed text; q a)
      (do let a ← R; let _ ← Grammar.fixed text; S a) F := by
  refine hp.bind (fun a c₁ h₁ => afterMark ht fun c₂ h₂ => hq a c₂ (by omega)) ?_
  rintro a c₁ b c₂ ⟨_, _, hmark, -⟩ -
  rwa [next_of_fixed ht hmark]

end Bindery.Source
