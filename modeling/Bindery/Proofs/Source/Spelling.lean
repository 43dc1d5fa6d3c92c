import Mathlib.Data.List.Forall2
import Mathlib.Data.List.TakeWhile
import Bindery.Proofs.Sequence
import Bindery.Proofs.Source.Strings
import Bindery.Proofs.Source.Types
/-!
# Spelling

What it is for characters to spell a tree of a rule of the grammar, wherever in a text they stand
(`Spells`).  The rules that are put together spell what their parts spell, one behind the other
(`Spells.bind`, `Spells.many`), as long as no part goes on into the next one: a name ends only before a
character that it cannot have (`wordEnd`), a number also before no point.
-/

namespace Bindery.Source

variable {α β : Type} {cs ds blank : List Char} {ends : Option Char → Prop}

/-- From the characters `cs` the rule derives a tree with the property `P`, wherever they stand and as
long as the character behind them is as `ends` says. -/
def Spells (cs : List Char) (R : Rule α) (P : α → Prop) (ends : Option Char → Prop) : Prop :=
  ∀ (c : Cursor) (rest : List Char), c.rest = cs ++ rest → ends rest.head? →
    ∃ a c', R c a c' ∧ P a ∧ c'.rest = rest

/-- Nothing that a name goes on with. -/
def wordEnd (next : Option Char) : Prop := ∀ x ∈ next, continuesName x = false

theorem wordEnd_of {x : Char} (h : continuesName x = false) (cs : List Char) :
    wordEnd (x :: cs).head? := by
  rintro _ ⟨⟩
  exact h

/-! ### Putting rules together -/

namespace Spells

variable {R : Rule α} {S : α → Rule β} {P : α → Prop} {Q : β → Prop} {ends' : Option Char → Prop}

theorem of_eq (h : Spells cs R P ends) (heq : cs = ds) : Spells ds R P ends := heq ▸ h

theorem ending (h : Spells cs R P ends) (hends : ∀ y, ends' y → ends y) : Spells cs R P ends' :=
  fun c rest hc hy => h c rest hc (hends _ hy)

theorem mono {P' : α → Prop} (h : Spells cs R P ends) (hP : ∀ a, P a → P' a) :
    Spells cs R P' ends := by
  intro c rest hc hy
  obtain ⟨a, c', ha, hPa, hc'⟩ := h c rest hc hy
  exact ⟨a, c', ha, hP a hPa, hc'⟩

theorem rule {R' : Rule α} (h : Spells cs R P ends) (hR : ∀ c a c', R c a c' → R' c a c') :
    Spells cs R' P ends := by
  intro c rest hc hy
  obtain ⟨a, c', ha, hP, hc'⟩ := h c rest hc hy
  exact ⟨a, c', hR c a c' ha, hP, hc'⟩

/-- One rule behind another.  The first part must end where the second begins. -/
theorem bind (hR : Spells cs R P ends') (hS : ∀ a, P a → Spells ds (S a) Q ends)
    (hends : ∀ rest, ends rest.head? → ends' (ds ++ rest).head?) :
    Spells (cs ++ ds) (R >>= S) Q ends := by
  intro c rest hc hy
  obtain ⟨a, c₁, ha, hP, hc₁⟩ := hR c (ds ++ rest) (by rw [hc, List.append_assoc]) (hends rest hy)
  obtain ⟨b, c₂, hb, hQ, hc₂⟩ := hS a hP c₁ rest hc₁ hy
  exact ⟨b, c₂, ⟨a, c₁, ha, hb⟩, hQ, hc₂⟩

theorem andThen (hR : Spells cs R P anyhow) (hS : ∀ a, P a → Spells ds (S a) Q ends) :
    Spells (cs ++ ds) (R >>= S) Q ends :=
  hR.bind hS fun _ _ => trivial

theorem map (hR : Spells cs R P ends) {f : α → β} (h : ∀ a, P a → Q (f a)) :
    Spells cs (R >>= fun a => pure (f a)) Q ends := by
  intro c rest hc hy
  obtain ⟨a, c', ha, hP, hc'⟩ := hR c rest hc hy
  exact ⟨f a, c', ⟨a, c', ha, rfl, rfl⟩, h a hP, hc'⟩

theorem none : Spells [] R.optional (· = none) anyhow :=
  fun c _ hc _ => ⟨_, c, .inl ⟨rfl, rfl⟩, rfl, hc⟩

theorem orLeft {R' : Rule α} (h : Spells cs R P ends) : Spells cs (R.or R') P ends :=
  h.rule fun _ _ _ => .inl

theorem manyNone : Spells [] (Many R) (· = []) anyhow :=
  fun c _ hc _ => ⟨[], c, .nil, rfl, hc⟩

/-- Parts one after the other, each of which ends where the next one begins. -/
theorem many {ι : Type} {t : ι → List Char} {P : ι → α → Prop} {is : List ι}
    (h : ∀ i ∈ is, Spells (t i) R (P i) ends)
    (hends : ∀ i ∈ is, ∀ rest, ends (t i ++ rest).head?) :
    Spells (is.flatMap t) (Many R) (List.Forall₂ P is) ends := by
  induction is with
  | nil => exact fun c _ hc _ => ⟨[], c, .nil, .nil, hc⟩
  | cons i is ih =>
    rw [List.forall_mem_cons] at h hends
    intro c rest hc hy
    have hnext : ends (is.flatMap t ++ rest).head? := by
      cases is with
      | nil => exact hy
      | cons j js =>
        rw [List.flatMap_cons, List.append_assoc]
        exact hends.2 j List.mem_cons_self _
    obtain ⟨a, c₁, ha, hP, hc₁⟩ := h.1 c _ (by rw [hc, List.flatMap_cons, List.append_assoc]) hnext
    obtain ⟨as, c₂, has, hPs, hc₂⟩ := ih h.2 hends.2 c₁ rest hc₁ hy
    exact ⟨a :: as, c₂, .cons ha has, .cons hP hPs, hc₂⟩

end Spells

/-! ### Terminals -/

theorem span_append {accepts : Char → Bool} {rest : List Char} (hcs : ∀ x ∈ cs, accepts x)
    (hend : ∀ x ∈ rest.head?, accepts x = false) :
    (cs ++ rest).takeWhile accepts = cs ∧ (cs ++ rest).dropWhile accepts = rest := by
  rw [List.takeWhile_append_of_pos hcs, List.dropWhile_append_of_pos hcs]
  cases rest with
  | nil => simp
  | cons y rest =>
    have hy : ¬ accepts y = true := by simp [hend y rfl]
    rw [List.takeWhile_cons_of_neg hy, List.dropWhile_cons_of_neg hy, List.append_nil]
    exact ⟨rfl, rfl⟩

/-- Blanks that may stand before a terminal. -/
def IsBlank (blank : List Char) : Prop := ∀ x ∈ blank, x ∈ blanks

theorem isBlank_nil : IsBlank [] := List.forall_mem_nil _

theorem isBlank_space : IsBlank [' '] := by simp [IsBlank, blanks]

theorem rest_skipLayout {c : Cursor} {x : Char} {xs : List Char} (hblank : IsBlank blank)
    (hx : opensTerminal x) (hc : c.rest = blank ++ x :: xs) : c.skipLayout.rest = x :: xs := by
  have hstop : ∀ y ∈ (x :: xs).head?, decide (y ∈ blanks) = false := by
    rintro _ ⟨⟩
    simp only [opensTerminal, List.mem_cons, not_or, decide_eq_true_eq] at hx
    exact decide_eq_false hx.2
  obtain ⟨-, hdrop⟩ := span_append (fun y hy => decide_eq_true (hblank y hy)) hstop
  have hlayout : (layoutSpan false (blank ++ x :: xs)).2 = x :: xs := by
    rw [layoutSpan_blanks, hdrop, layoutSpan_of_opensTerminal hx]
  rw [Cursor.skipLayout, hc]
  exact hlayout

/-- A terminal is spelt by what is taken for it, blanks before it. -/
theorem spells_terminal {t : Terminal} (ht : t.opens) (hblank : IsBlank blank)
    (htake : ∀ rest, ends rest.head? → t.take? (cs ++ rest) = some (cs, rest)) :
    Spells (blank ++ cs) (Grammar.terminal t.pattern) (·.value = .ofList cs) ends := by
  intro c rest hc hy
  obtain ⟨x, xs, hxs, hx⟩ := t.exists_of_take? ht (htake rest hy)
  have hskip : c.skipLayout.rest = cs ++ rest := by
    rw [hxs, List.cons_append]
    refine rest_skipLayout hblank (t.opensTerminal_of_starts ht hx) ?_
    rw [hc, hxs, List.append_assoc, List.cons_append]
  refine ⟨_, _, (terminal_iff ht).2 ⟨cs, rest, ?_, rfl, rfl⟩, rfl, rfl⟩
  rw [hskip]
  exact htake rest hy

theorem spells_fixed (text : String) (ht : (Terminal.fixed text).opens) (hblank : IsBlank blank) :
    Spells (blank ++ text.toList) (Grammar.fixed text) (·.value = text) anyhow := by
  have h : Spells (blank ++ text.toList) (Grammar.fixed text) (·.value = .ofList text.toList) anyhow :=
    spells_terminal (t := .fixed text) ht hblank fun rest _ => by
      rw [Terminal.take?, Pattern.takeFixed?_eq, if_pos (List.prefix_append _ _), List.drop_left]
  rwa [String.ofList_toList] at h

/-- A word that is a name in full. -/
def IsName (word : String) : Prop := Pattern.name.match? word.toList = some (word.toList, [])

instance : DecidablePred IsName := fun word =>
  decidable_of_iff (takeName? word.toList = some (word.toList, [])) (by
    rw [IsName, Pattern.match?_name])

theorem isName_iff {word : String} : IsName word ↔
    (∃ x ∈ word.toList.head?, opensName x) ∧ ∀ x ∈ word.toList, continuesName x := by
  rw [IsName, Pattern.match?_name, takeName?_eq_some, Prod.mk.injEq]
  refine and_congr_right fun _ => ⟨fun h x hx => ?_, fun h => ?_⟩
  · rw [h.1] at hx
    exact List.mem_takeWhile_imp hx
  · exact ⟨(List.takeWhile_eq_self_iff.2 h).symm, (List.dropWhile_eq_nil_iff.2 h).symm⟩

theorem spells_name {word : String} (hword : IsName word) (hblank : IsBlank blank) :
    Spells (blank ++ word.toList) Grammar.name (·.value = word) wordEnd := by
  obtain ⟨⟨x, hx, hopens⟩, hcontinues⟩ := isName_iff.1 hword
  have h : Spells (blank ++ word.toList) Grammar.name (·.value = .ofList word.toList) wordEnd := by
    refine spells_terminal (t := .name) rfl hblank fun rest hend => takeName?_eq_some.2 ⟨?_, ?_⟩
    · exact ⟨x, by rw [List.head?_append, hx]; rfl, hopens⟩
    · obtain ⟨htake, hdrop⟩ := span_append hcontinues hend
      rw [htake, hdrop]
  rwa [String.ofList_toList] at h

theorem spells_nameText {word : String} (hword : IsName word) (hblank : IsBlank blank) :
    Spells (blank ++ word.toList) Grammar.nameText (· = word) wordEnd :=
  (spells_name hword hblank).map fun _ h => h

theorem spells_string (text : String) (hblank : IsBlank blank) :
    Spells (blank ++ (Text.stringLiteral text).toList) Grammar.string (·.value = .text text)
      anyhow := by
  refine (spells_terminal (t := .string) rfl hblank fun rest _ => ?_).map fun token htoken => ?_
  · rw [← Terminal.match?_pattern]
    exact match?_stringLiteral text rest
  · rw [htoken, String.toList_ofList, stringValue_stringLiteral]

/-! ### Names with dots -/

/-- Names with dots between them. -/
def IsDottedName (name : String) : Prop :=
  ∃ first others, (∀ word ∈ first :: others, IsName word) ∧ name = ".".intercalate (first :: others)

theorem IsName.isDottedName {word : String} (h : IsName word) : IsDottedName word :=
  ⟨word, [], by simpa using h, by simp⟩

theorem spells_dottedName {name : String} (hname : IsDottedName name) (hblank : IsBlank blank) :
    Spells (blank ++ name.toList) Grammar.dottedName (·.text = name) wordEnd := by
  obtain ⟨first, others, hwords, rfl⟩ := hname
  rw [List.forall_mem_cons] at hwords
  have hpart : ∀ word ∈ others, Spells ('.' :: word.toList) (Grammar.behind "." Grammar.nameText)
      (word = ·) wordEnd := fun word hword =>
    (spells_fixed "." rfl isBlank_nil).andThen fun _ _ =>
      (spells_nameText (hwords.2 word hword) isBlank_nil).mono fun _ h => h.symm
  rw [toList_intercalate_cons, ← List.append_assoc]
  refine (spells_name hwords.1 hblank).bind (fun token htoken => ?_) fun rest hend => ?_
  · refine (Spells.many hpart fun word _ rest => wordEnd_of rfl _).map fun words hall => ?_
    rw [List.forall₂_eq_eq_eq] at hall
    rw [DottedName.text, DottedName.parts, htoken, hall]
  · cases others with
    | nil => exact hend
    | cons word others => exact wordEnd_of rfl _

/-! ### Numbers -/

theorem continuesName_of_isDigit {x : Char} (h : x.isDigit) : continuesName x := by
  simp [continuesName, Char.isAlphanum, h]

theorem takeDecimal?_digits {ds rest : List Char} (hne : ds ≠ []) (hds : ∀ x ∈ ds, x.isDigit)
    (hend : ∀ x ∈ rest.head?, x.isDigit = false ∧ x ≠ '.') :
    takeDecimal? (ds ++ rest) = some (ds, rest) := by
  obtain ⟨htake, hdrop⟩ := span_append hds fun x hx => (hend x hx).1
  unfold takeDecimal?
  rw [htake, hdrop, if_neg (by simpa using hne)]
  split
  · exact absurd rfl (hend '.' rfl).2
  · rfl

theorem takeUnsigned?_eq {cs : List Char} (h : ∀ x ∈ cs.tail.head?, x ≠ 'x' ∧ x ≠ 'X') :
    takeUnsigned? cs = takeDecimal? cs := by
  unfold takeUnsigned?
  split
  · rename_i x d rest
    obtain ⟨hx, hX⟩ := h x rfl
    rw [if_neg fun hmark => hmark.1.elim hx hX]
  · rfl

theorem takeNumber?_eq {x : Char} (hx : x ≠ '-') (cs : List Char) :
    takeNumber? (x :: cs) = takeUnsigned? (x :: cs) := by
  rw [takeNumber?]
  exact fun rest h => hx (List.cons.inj h).1

theorem numberValue_digits {ds : List Char} (hds : ∀ x ∈ ds, x.isDigit) :
    numberValue ds = .int (Text.decimalNumber ds) := by
  have hnot {y : Char} (hy : y.isDigit = false) : y ∉ ds := fun hmem =>
    Bool.false_ne_true (hy.symm.trans (hds y hmem))
  have hpoint : ds.contains '.' = false := by simpa using hnot (y := '.') (by decide)
  unfold numberValue
  split
  · exact absurd List.mem_cons_self (hnot (y := '-') (by decide))
  · simp only [unsignedValue, Bool.false_eq_true, if_false]
    split
    · exact absurd (List.mem_cons_of_mem _ List.mem_cons_self) (hnot (y := 'x') (by decide))
    · exact absurd (List.mem_cons_of_mem _ List.mem_cons_self) (hnot (y := 'X') (by decide))
    · rw [hpoint]
      rfl

theorem spells_number (n : Nat) (hblank : IsBlank blank) :
    Spells (blank ++ (toString n).toList) Grammar.number (·.value = .int n)
      fun y => wordEnd y ∧ y ≠ some '.' := by
  have hrepr : (toString n).toList = Nat.toDigits 10 n := Nat.toList_repr
  have hdigits : ∀ x ∈ Nat.toDigits 10 n, x.isDigit := fun x hx =>
    Nat.isDigit_of_mem_toDigits (by decide) (by decide) hx
  have hvalue : Text.decimalNumber (Nat.toDigits 10 n) = n :=
    Nat.ofDigitChars_toDigits (by decide) (by decide)
  rw [hrepr]
  obtain ⟨d, ds, hds⟩ := List.exists_cons_of_ne_nil (Nat.toDigits_ne_nil (n := n) (b := 10))
  refine (spells_terminal (t := .number) rfl hblank fun rest hend => ?_).map fun token htoken => ?_
  · have hrest : ∀ x ∈ rest.head?, x.isDigit = false ∧ x ≠ '.' ∧ x ≠ 'x' ∧ x ≠ 'X' := by
      intro x hx
      have hstop : continuesName x = false := hend.1 x hx
      refine ⟨?_, fun h => hend.2 (h ▸ hx), fun h => ?_, fun h => ?_⟩
      · exact Bool.eq_false_iff.2 fun h => by simp [continuesName_of_isDigit h] at hstop
      · exact absurd (h ▸ hstop) (by decide)
      · exact absurd (h ▸ hstop) (by decide)
    have hdecimal : takeDecimal? (Nat.toDigits 10 n ++ rest) = some (Nat.toDigits 10 n, rest) :=
      takeDecimal?_digits Nat.toDigits_ne_nil hdigits fun x hx => ⟨(hrest x hx).1, (hrest x hx).2.1⟩
    -- behind the first digit there is another one, or what follows the number
    have hmark : ∀ x ∈ (Nat.toDigits 10 n ++ rest).tail.head?, x ≠ 'x' ∧ x ≠ 'X' := by
      rw [hds] at hdigits ⊢
      intro x hx
      rw [List.cons_append, List.tail_cons, List.head?_append, Option.mem_def,
        Option.or_eq_some_iff] at hx
      rcases hx with hx | ⟨-, hx⟩
      · have hx := hdigits x (List.mem_cons_of_mem _ (List.mem_of_head? hx))
        exact ⟨fun h => absurd (h ▸ hx) (by decide), fun h => absurd (h ▸ hx) (by decide)⟩
      · exact (hrest x hx).2.2
    have hsign : d ≠ '-' := by
      rintro rfl
      exact absurd (hdigits '-' (hds ▸ List.mem_cons_self)) (by decide)
    rw [Terminal.take?, ← hdecimal, ← takeUnsigned?_eq hmark, hds, List.cons_append,
      takeNumber?_eq hsign]
  · rw [htoken, String.toList_ofList, numberValue_digits hdigits, hvalue]

end Bindery.Source
