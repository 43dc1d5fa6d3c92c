import Bindery.Proofs.Source.Reading
/-!
# Names, attributes and types are read exactly

The readers of names, literals, attributes and types read the rules of the grammar.  Where the grammar
offers a choice, the next character tells which way to go (`next_of_*`), except between the two pointer
marks, of which neither starts like the other (`fixed_exclusive`).
-/

namespace Bindery.Source

open Grammar

variable {c c' c₁ c₂ : Cursor}

/-! ### What comes first -/

theorem next_of_name {token : Located String} (h : name c token c') : c.NextIs opensName :=
  next_of_terminal (t := .name) rfl h

theorem next_of_number {n : Located Value} (h : number c n c') : c.NextIs Terminal.number.starts := by
  obtain ⟨_, _, h, -⟩ := h
  exact next_of_terminal (t := .number) rfl h

theorem next_of_string {s : Located Value} (h : string c s c') : c.next = some '\x22' := by
  obtain ⟨_, _, h, -⟩ := h
  obtain ⟨x, hx, hquote⟩ := next_of_terminal (t := .string) rfl h
  rw [hx, eq_of_beq hquote]

theorem opensName_of_number {x : Char} (h : Terminal.number.starts x) : opensName x = false := by
  rcases Bool.or_eq_true_iff.1 h with h | h
  · rw [Bool.eq_false_iff]
    simp only [Char.isDigit, opensName, Pattern.isAlpha_eq, Char.ext_iff, Bool.and_eq_true,
      Bool.or_eq_true, decide_eq_true_eq, ne_eq] at h ⊢
    grind
  · rw [eq_of_beq h]
    rfl

/-! ### Names and literals -/

theorem reads_name (c : Cursor) : Reads c 1 Parser.name name anyhow :=
  reads_expect (t := .name) rfl c

theorem reads_nameText (c : Cursor) : Reads c 1 Parser.nameText nameText anyhow :=
  (reads_name c).map _

theorem reads_number (c : Cursor) : Reads c 1 Parser.number number anyhow :=
  (reads_expect (t := .number) rfl c).map _

theorem reads_string (c : Cursor) : Reads c 1 Parser.string string anyhow :=
  (reads_expect (t := .string) rfl c).map _

theorem reads_manyAfter {α : Type} (mark : Char) {p : Parser α} {R : Rule α}
    {E : Option Char → Prop} (ht : (Terminal.fixed mark.toString).opens) (hE : E (some mark))
    (hp : ∀ c₁ : Cursor, c₁.rest.length ≤ c.rest.length → Reads c₁ 0 p R E) :
    Reads c 0 (Parser.manyAfter mark p) (Many (behind mark.toString R))
      fun y => y ≠ some mark ∧ E y := by
  have hmark : mark.toString.toList.head? = some mark := by simp [Char.toString]
  have hpart (c₁ : Cursor) (h : c₁.rest.length ≤ c.rest.length) :
      Reads c₁ 1 (do discard <| Parser.fixed mark.toString; p) (behind mark.toString R) E :=
    .afterMark ht fun c₂ h₂ => hp c₂ (by omega)
  refine (Reads.manyWhile hpart ?_ ?_).ending ?_
  · rintro c₁ a c₂ ⟨_, _, h, -⟩
    rw [next_of_fixed ht h, hmark]
    exact beq_self_eq_true _
  · intro y hy
    rwa [eq_of_beq hy]
  · rintro y ⟨hy, hE⟩
    exact ⟨beq_false_of_ne hy, hE⟩

theorem reads_dottedName (c : Cursor) :
    Reads c 1 Parser.dottedName dottedName (· ≠ some '.') := by
  refine (reads_name c).andThen (l := 0) fun first c₁ _ => ?_
  have hothers := reads_manyAfter (c := c₁) '.' rfl trivial fun c₂ _ => (reads_nameText c₂).tail
  exact (hothers.map _).ending fun _ h => ⟨h, trivial⟩

/-! ### Attributes -/

theorem reads_argument (c : Cursor) : Reads c 1 Parser.argument argument anyhow := by
  refine ((reads_string c).map _).either (((reads_number c).map _).either ((reads_name c).map _) ?_) ?_
  · rintro _ _ _ _ ⟨_, _, hnumber, -⟩ ⟨_, _, hname, -⟩
    obtain ⟨x, hx, hstarts⟩ := next_of_number hnumber
    exact (next_of_name hname).ne (opensName_of_number hstarts) hx
  · rintro _ _ _ _ ⟨_, _, hstring, -⟩ (⟨_, _, hnumber, -⟩ | ⟨_, _, hname, -⟩)
    · exact (next_of_number hnumber).ne rfl (next_of_string hstring)
    · exact (next_of_name hname).ne rfl (next_of_string hstring)

theorem next_of_argument {a : Located Argument} (h : argument c a c') : c.next ≠ some ')' := by
  rcases h with ⟨_, _, h, -⟩ | ⟨_, _, h, -⟩ | ⟨_, _, h, -⟩
  · rw [next_of_string h]
    decide
  · exact (next_of_number h).ne rfl
  · exact (next_of_name h).ne rfl

theorem reads_argumentList (c : Cursor) : Reads c 1
    (do let first ← Parser.argument; let others ← Parser.manyAfter ',' Parser.argument
        return first :: others) argumentList fun y => y ≠ some ',' ∧ anyhow y :=
  (reads_argument c).andThen fun _ _ _ =>
    (reads_manyAfter ',' rfl trivial fun c₂ _ => (reads_argument c₂).tail).map _

theorem arguments_eq : Parser.arguments = (do
    let mark ← Parser.fixed "("
    let args ← (do
      if (← Parser.peek) = some ')' then return []
      else
        let first ← Parser.argument
        let others ← Parser.manyAfter ',' Parser.argument
        return first :: others)
    discard <| Parser.fixed ")"
    return ⟨mark.line, args⟩) := by
  unfold Parser.arguments
  congr 1
  funext mark
  rw [bind_assoc]
  congr 1
  funext x
  dsimp only
  split
  · simp only [pure_bind]
  · simp only [bind_assoc, pure_bind]

theorem reads_arguments (c : Cursor) : Reads c 1 Parser.arguments arguments anyhow := by
  rw [arguments_eq]
  refine (reads_fixed "(" rfl c).andThen (l := 0) fun mark c₁ _ => ?_
  refine ((reads_argumentList c₁).unlessNext [] ?_).untilMark rfl (by decide) fun _ _ _ => .pure _
  rintro _ _ ⟨_, _, h, -⟩
  exact next_of_argument h

theorem next_of_arguments {args : Located (List (Located Argument))} (h : arguments c args c') :
    c.next = some '(' := by
  obtain ⟨_, _, hmark, -⟩ := h
  exact next_of_fixed rfl hmark

theorem reads_attributeBlock (c : Cursor) :
    Reads c 1 Parser.attributeBlock attributeBlock anyhow := by
  refine (reads_fixed "[" rfl c).andThen (l := 1) fun mark c₁ _ => ?_
  refine (reads_nameText c₁).andThen (l := 0) fun name c₂ _ => ?_
  have hargs := (reads_arguments c₂).whenNext fun _ _ => next_of_arguments
  exact hargs.untilMark rfl (by decide) fun args c₃ _ => .pure _

theorem next_of_attributeBlock {a : AttributeSource} (h : attributeBlock c a c') :
    c.next = some '[' := by
  obtain ⟨_, _, hmark, -⟩ := h
  exact next_of_fixed rfl hmark

theorem reads_attributeBlocks (c : Cursor) :
    Reads c 0 Parser.attributeBlocks (Many attributeBlock) (· ≠ some '[') :=
  (Reads.manyWhile (fun c₁ _ => reads_attributeBlock c₁)
    (fun _ _ _ h => by rw [next_of_attributeBlock h]; rfl) fun _ _ => trivial).ending
    fun _ hy => ⟨beq_false_of_ne hy, trivial⟩

/-! ### Types -/

theorem prefix_of_match? {text : String} {cs taken rest : List Char}
    (h : (Pattern.text text).match? cs = some (taken, rest)) :
    taken = text.toList ∧ text.toList <+: cs := by
  rw [Pattern.match?_text, Pattern.takeFixed?_eq] at h
  split at h <;> cases h
  exact ⟨rfl, by assumption⟩

theorem value_of_fixed {text : String} {token : Located String} (h : fixed text c token c') :
    token.value = text := by
  obtain ⟨_, -, _, _, hmatch, rfl, rfl⟩ := h
  rw [(prefix_of_match? hmatch).1]
  exact String.ofList_toList

/-- Two fixed texts cannot both be next, unless one starts like the other. -/
theorem fixed_exclusive {s t : String} {token token' : Located String}
    (hopens : (Terminal.fixed s).opens) (hopens' : (Terminal.fixed t).opens)
    (hst : ¬ s.toList <+: t.toList) (hts : ¬ t.toList <+: s.toList) (hs : fixed s c token c₁)
    (ht : fixed t c token' c₂) : False := by
  obtain ⟨_, _, hs, -⟩ := (terminal_iff (t := .fixed s) hopens).1 hs
  obtain ⟨_, _, ht, -⟩ := (terminal_iff (t := .fixed t) hopens').1 ht
  rw [← Terminal.match?_pattern] at hs ht
  rcases List.prefix_or_prefix_of_prefix (prefix_of_match? hs).2 (prefix_of_match? ht).2 with h | h
  · exact hst h
  · exact hts h

/-- The mark of a pointer, and whether it is one to constant data. -/
def pointerMark : Rule (Located Bool) := do
  let mark ← terminal .pointer
  return ⟨mark.line, mark.value = "*const"⟩

theorem terminal_pointer_iff {token : Located String} : terminal .pointer c token c' ↔
    fixed "*mut" c token c' ∨ fixed "*const" c token c' := by
  simp only [fixed, terminal, Pattern.pointer, Pattern.match?_alt]
  constructor
  · rintro ⟨d, hlayout, taken, rest, hmatch, htoken, hc'⟩
    rcases Option.or_eq_some_iff.1 hmatch with h | ⟨-, h⟩
    · exact .inl ⟨d, hlayout, taken, rest, h, htoken, hc'⟩
    · exact .inr ⟨d, hlayout, taken, rest, h, htoken, hc'⟩
  · rintro (⟨d, hlayout, taken, rest, hmatch, htoken, hc'⟩ |
      ⟨d, hlayout, taken, rest, hmatch, htoken, hc'⟩)
    · exact ⟨d, hlayout, taken, rest, by rw [hmatch, Option.some_or], htoken, hc'⟩
    · have hother : (Pattern.text "*mut").match? d.rest = none := by
        rw [Pattern.match?_text, Pattern.takeFixed?_eq, if_neg]
        intro h
        rcases List.prefix_or_prefix_of_prefix h (prefix_of_match? hmatch).2 with h | h
          <;> revert h <;> decide
      exact ⟨d, hlayout, taken, rest, by rw [hother, Option.none_or, hmatch], htoken, hc'⟩

theorem reads_pointerMark (c : Cursor) : Reads c 1 Parser.pointerMark pointerMark anyhow := by
  refine (((reads_fixed "*mut" rfl c).map _).either ((reads_fixed "*const" rfl c).map _) ?_).congr ?_
  · rintro _ _ _ _ ⟨_, _, hmut, -⟩ ⟨_, _, hconst, -⟩
    exact fixed_exclusive rfl rfl (by decide) (by decide) hmut hconst
  · intro a c'
    constructor
    · rintro ⟨mark, _, hmark, rfl, rfl⟩
      rcases terminal_pointer_iff.1 hmark with h | h
      · exact .inl ⟨mark, _, h, by rw [value_of_fixed h]; rfl, rfl⟩
      · exact .inr ⟨mark, _, h, by rw [value_of_fixed h]; rfl, rfl⟩
    · rintro (⟨mark, _, h, rfl, rfl⟩ | ⟨mark, _, h, rfl, rfl⟩)
      · exact ⟨mark, _, terminal_pointer_iff.2 (.inl h), by rw [value_of_fixed h]; rfl, rfl⟩
      · exact ⟨mark, _, terminal_pointer_iff.2 (.inr h), by rw [value_of_fixed h]; rfl, rfl⟩

theorem next_of_pointer {token : Located String} (h : terminal .pointer c token c') :
    c.next = some '*' := by
  rcases terminal_pointer_iff.1 h with h | h
  · exact next_of_fixed rfl h
  · exact next_of_fixed rfl h

theorem next_of_dottedName {n : DottedName} (h : dottedName c n c') : c.NextIs opensName := by
  obtain ⟨_, _, h, -⟩ := h
  exact next_of_name h

/-- A type is of the form that its first character tells. -/
theorem type_iff_of_pointer (hc : c.next = some '*') {t : TypeSource} : type c t c' ↔
    (do let mark ← pointerMark; let element ← type
        return .pointer mark.line mark.value element : Rule TypeSource) c t c' := by
  constructor
  · rintro (⟨hmark, helement⟩ | ⟨hmark, -⟩ | hname)
    · exact ⟨_, _, ⟨_, _, hmark, rfl, rfl⟩, _, _, helement, rfl, rfl⟩
    · rw [next_of_fixed rfl hmark] at hc
      cases hc
    · exact absurd hc ((next_of_dottedName hname).ne rfl)
  · rintro ⟨_, _, ⟨_, _, hmark, rfl, rfl⟩, _, _, helement, rfl, rfl⟩
    exact .pointer hmark helement

theorem type_iff_of_array (hc : c.next = some '[') {t : TypeSource} : type c t c' ↔
    (do let mark ← fixed "["; let element ← type; let _ ← fixed ";"; let length ← number
        let _ ← fixed "]"
        return .array mark.line element length.value : Rule TypeSource) c t c' := by
  constructor
  · rintro (⟨hmark, -⟩ | ⟨hmark, helement, hsemi, hlength, hclose⟩ | hname)
    · rw [next_of_pointer hmark] at hc
      cases hc
    · exact ⟨_, _, hmark, _, _, helement, _, _, hsemi, _, _, hlength, _, _, hclose, rfl, rfl⟩
    · exact absurd hc ((next_of_dottedName hname).ne rfl)
  · rintro ⟨_, _, hmark, _, _, helement, _, _, hsemi, _, _, hlength, _, _, hclose, rfl, rfl⟩
    exact .array hmark helement hsemi hlength hclose

theorem type_iff_of_name (hpointer : c.next ≠ some '*') (harray : c.next ≠ some '[')
    {t : TypeSource} : type c t c' ↔
    (do let name ← dottedName; return .named name : Rule TypeSource) c t c' := by
  constructor
  · rintro (⟨hmark, -⟩ | ⟨hmark, -⟩ | hname)
    · exact absurd (next_of_pointer hmark) hpointer
    · exact absurd (next_of_fixed rfl hmark) harray
    · exact ⟨_, _, hname, rfl, rfl⟩
  · rintro ⟨_, _, hname, rfl, rfl⟩
    exact .named hname

theorem reads_typeFuel (fuel : Nat) (c : Cursor) (hc : c.rest.length < fuel) :
    Reads c 1 (Parser.typeFuel fuel) type (· ≠ some '.') := by
  induction fuel generalizing c with
  | zero => omega
  | succ fuel ih =>
    rw [Parser.typeFuel]
    refine .peek ?_
    split
    · rename_i hnext
      refine Reads.congr ?_ fun _ _ => type_iff_of_pointer hnext
      exact (reads_pointerMark c).andThen fun mark c₁ h₁ => ((ih c₁ (by omega)).tail.map _)
    · rename_i hnext
      refine Reads.congr ?_ fun _ _ => type_iff_of_array hnext
      refine Reads.ending (E := anyhow) ?_ fun _ _ => trivial
      refine (reads_fixed "[" rfl c).andThen (l := 1) fun mark c₁ h₁ => ?_
      refine (ih c₁ (by omega)).untilMark (l := 1) rfl (by decide) fun element c₂ _ => ?_
      exact (reads_number c₂).untilMark rfl trivial fun length c₃ _ => .pure _
    · rename_i hpointer harray
      refine Reads.congr ?_ fun _ _ => type_iff_of_name hpointer harray
      exact (reads_dottedName c).map _

theorem reads_type (c : Cursor) : Reads c 1 Parser.type type (· ≠ some '.') :=
  have h := reads_typeFuel (c.rest.length + 1) c (Nat.lt_succ_self _)
  ⟨h.sound, h.complete, h.takes⟩

end Bindery.Source
