import Mathlib
import Bindery.Proofs.Source.Types
/-!
# Reading is exact

Rule by rule, the readers read the grammar, and so does the reader of whole texts (`read_iff_derives`).

Keywords are names too, so the next character does not tell a field from a constant or a nested
definition.  What does is the mark behind: a keyword and a name would together be the name of the field
(`eq_of_name_of_keyword`), and what follows then is no colon, or a type that no semicolon ends.
-/

namespace Bindery.Source

open Grammar

variable {c c' c₁ c₂ : Cursor}

/-! ### Structs and unions -/

theorem reads_generics (c : Cursor) : Reads c 1 Parser.generics generics anyhow := by
  refine (reads_fixed "<" rfl c).andThen (l := 1) fun mark c₁ _ => ?_
  refine (reads_nameText c₁).andThen (l := 0) fun first c₂ _ => ?_
  have hothers := reads_manyAfter (c := c₂) ',' rfl trivial fun c₃ _ => (reads_nameText c₃).tail
  exact hothers.untilMark rfl (by decide) fun others c₃ _ => .pure _

theorem next_of_generics {g : Located (List String)} (h : generics c g c') : c.next = some '<' := by
  obtain ⟨_, _, hmark, -⟩ := h
  exact next_of_fixed rfl hmark

theorem reads_heading (c : Cursor) : Reads c 1 Parser.heading heading (· ≠ some '<') := by
  have hkeyword := ((reads_fixed "struct" rfl c).map fun mark => (mark.line, false)).either
    ((reads_fixed "union" rfl c).map fun mark => (mark.line, true)) (by
      rintro _ _ _ _ ⟨_, _, hstruct, -⟩ ⟨_, _, hunion, -⟩
      exact fixed_exclusive rfl rfl (by decide) (by decide) hstruct hunion)
  refine hkeyword.andThen fun (line, isUnion) c₁ _ =>
    (reads_nameText c₁).andThen (l := 0) fun name c₂ _ => ?_
  refine (((reads_generics c₂).whenNext fun _ _ => next_of_generics).map _).ending ?_
  exact fun _ h => ⟨h, trivial⟩

theorem next_of_heading {h : Heading} (hh : heading c h c') : c.NextIs ['s', 'u'].contains := by
  obtain ⟨_, _, ⟨_, _, hmark, -⟩ | ⟨_, _, hmark, -⟩, -⟩ := hh
  · exact ⟨'s', next_of_fixed rfl hmark, rfl⟩
  · exact ⟨'u', next_of_fixed rfl hmark, rfl⟩

theorem reads_field (c : Cursor) : Reads c 1 Parser.field field anyhow := by
  refine (reads_name c).untilMark (l := 1) rfl trivial fun name c₁ _ => ?_
  exact (reads_type c₁).untilMark rfl (by decide) fun type c₂ _ => .pure _

theorem reads_literal (c : Cursor) : Reads c 1 Parser.literal literal anyhow :=
  (reads_string c).either (reads_number c) fun _ _ _ _ hstring hnumber =>
    (next_of_number hnumber).ne rfl (next_of_string hstring)

theorem reads_constant (c : Cursor) : Reads c 1 Parser.constant constant anyhow := by
  refine (reads_fixed "const" rfl c).andThen (l := 1) fun keyword c₁ _ => ?_
  refine (reads_nameText c₁).untilMark (l := 1) rfl trivial fun name c₂ _ => ?_
  refine (reads_nameText c₂).untilMark (l := 1) rfl trivial fun type c₃ _ => ?_
  exact (reads_literal c₃).untilMark rfl trivial fun value c₄ _ => .pure _

/-- `nested_def: attribute* (struct_def | union_def)` -/
def nestedMember : Rule Member := do
  let attributes ← Many attributeBlock
  let heading ← heading
  let members ← members
  return .nested attributes heading members

theorem member_iff {m : Member} :
    member c m c' ↔ (field.or (constant.or nestedMember)) c m c' := by
  constructor
  · rintro (h | h | ⟨hattributes, hheading, hopen, hmembers, hclose⟩)
    · exact .inl h
    · exact .inr (.inl h)
    · exact .inr (.inr ⟨_, _, hattributes, _, _, hheading, _, _,
        ⟨_, _, hopen, _, _, hmembers, _, _, hclose, rfl, rfl⟩, rfl, rfl⟩)
  · rintro (h | h | ⟨_, _, hattributes, _, _, hheading, _, _,
      ⟨_, _, hopen, _, _, hmembers, _, _, hclose, rfl, rfl⟩, rfl, rfl⟩)
    · exact .field h
    · exact .constant h
    · exact .nested hattributes hheading hopen hmembers hclose

theorem next_of_members {ms : List Member} (h : members c ms c') : c.next = some '\x7b' := by
  obtain ⟨_, _, hmark, -⟩ := h
  exact next_of_fixed rfl hmark

theorem next_of_nestedMember {m : Member} (h : nestedMember c m c') :
    c.NextIs ['[', 's', 'u'].contains := by
  obtain ⟨_, _, hattributes, _, _, hheading, -⟩ := h
  cases hattributes with
  | nil => exact (next_of_heading hheading).mono fun x hx => by grind [List.contains_iff_mem]
  | cons hblock _ => exact ⟨_, next_of_attributeBlock hblock, rfl⟩

/-! ### What a member is -/

/-- A keyword and a name are no name with a mark behind it, unless this mark follows both. -/
theorem eq_of_name_of_keyword {text : String} {n k n' : Located String} {x : Char} {c₃ : Cursor}
    (hopens : (Terminal.fixed text).opens) (hword : text.toList.all continuesName)
    (hx : opensName x = false) (hname : name c n c₁) (hnext : c₁.next = some x)
    (hkeyword : fixed text c k c₂) (hname' : name c₂ n' c₃) : c₁ = c₃ := by
  rcases name_of_keyword hopens hword hname hkeyword hname' with h | h
  · exact h
  · exact absurd hnext (h.ne hx)

theorem not_nestedMember_of_field {m m' : Member} (hfield : field c m c₁) :
    ¬ nestedMember c m' c₂ := by
  rintro ⟨_, d, hattributes, _, d₁, hheading, _, _, hmembers, -⟩
  obtain ⟨_, e, hname, _, _, hcolon, -⟩ := hfield
  have hnext : e.next = some ':' := next_of_fixed rfl hcolon
  cases hattributes with
  | cons hblock _ =>
    exact (next_of_name hname).ne rfl (next_of_attributeBlock hblock)
  | nil =>
    obtain ⟨_, d₂, hkeyword, _, d₃, ⟨_, _, hname', -, rfl⟩, _, _, hgenerics, -, rfl⟩ := hheading
    -- behind the name of a struct or union there are generic parameters or members, and no colon
    have hbehind : d₃.next = some '<' ∨ d₃.next = some '\x7b' := by
      rcases hgenerics with ⟨-, rfl⟩ | ⟨_, -, hgenerics⟩
      · exact .inr (next_of_members hmembers)
      · exact .inl (next_of_generics hgenerics)
    have heq : e = d₃ := by
      rcases hkeyword with ⟨_, _, hmark, -, rfl⟩ | ⟨_, _, hmark, -, rfl⟩
      · exact eq_of_name_of_keyword rfl rfl rfl hname hnext hmark hname'
      · exact eq_of_name_of_keyword rfl rfl rfl hname hnext hmark hname'
    rw [← heq, hnext] at hbehind
    rcases hbehind with h | h <;> cases h

theorem not_constant_of_field {m m' : Member} (hfield : field c m c₁) : ¬ constant c m' c₂ := by
  rintro ⟨_, d₁, hkeyword, _, d₂, ⟨_, _, hname', -, rfl⟩, _, d₃, hcolon', _, d₄,
    ⟨_, _, htypename, -, rfl⟩, _, _, hequals, -⟩
  obtain ⟨_, e₁, hname, _, e₂, hcolon, _, e₃, htype, _, _, hsemicolon, -⟩ := hfield
  have hnext : e₁.next = some ':' := next_of_fixed rfl hcolon
  obtain rfl : e₁ = d₂ := eq_of_name_of_keyword rfl rfl rfl hname hnext hkeyword hname'
  obtain ⟨-, rfl⟩ := eq_of_terminal (t := .fixed ":") (by decide) hcolon hcolon'
  -- from here on there is a name on both sides, which the equals sign follows
  rw [type_iff_of_name ((next_of_name htypename).ne rfl) ((next_of_name htypename).ne rfl)] at htype
  obtain ⟨_, _, ⟨_, e₄, hfirst, _, _, hothers, -, rfl⟩, -, rfl⟩ := htype
  obtain ⟨-, rfl⟩ := eq_of_terminal (t := .name) rfl hfirst htypename
  have hequals := next_of_fixed rfl hequals
  cases hothers with
  | nil =>
    rw [next_of_fixed rfl hsemicolon] at hequals
    cases hequals
  | cons hpart _ =>
    obtain ⟨_, _, hdot, -⟩ := hpart
    rw [next_of_fixed rfl hdot] at hequals
    cases hequals

theorem next_of_constant {m : Member} (h : constant c m c') : c.next = some 'c' := by
  obtain ⟨_, _, hmark, -⟩ := h
  exact next_of_fixed rfl hmark

theorem next_of_member {m : Member} (h : member c m c') : c.next ≠ some '\x7d' := by
  rcases member_iff.1 h with ⟨_, _, hname, -⟩ | h | h
  · exact (next_of_name hname).ne rfl
  · rw [next_of_constant h]
    decide
  · exact (next_of_nestedMember h).ne rfl

theorem reads_members {p : Parser Member}
    (hp : ∀ c₁ : Cursor, c₁.rest.length + 1 ≤ c.rest.length → Reads c₁ 1 p member anyhow) :
    Reads c 1 (Parser.members p) members anyhow := by
  refine .afterMark (l := 0) rfl fun c₁ h₁ => ?_
  refine (Reads.manyWhile (fun c₂ h₂ => hp c₂ (by omega)) ?_ fun _ _ => trivial).untilMark rfl
    (by decide) fun _ _ _ => .pure _
  intro c₂ m c₃ h
  exact bne_iff_ne.2 (next_of_member h)

theorem reads_memberFuel (fuel : Nat) (c : Cursor) (hc : c.rest.length < fuel) :
    Reads c 1 (Parser.memberFuel fuel) member anyhow := by
  induction fuel generalizing c with
  | zero => omega
  | succ fuel ih =>
    have hnested : Reads c 1 (do
        let attributes ← Parser.attributeBlocks
        let heading ← Parser.heading
        return .nested attributes heading (← Parser.members (Parser.memberFuel fuel)))
        nestedMember anyhow := by
      refine (reads_attributeBlocks c).before (fun attributes c₁ h₁ => ?_) ?_
      · refine (reads_heading c₁).bind (l := 1) (fun opening c₂ h₂ => ?_) ?_
        · exact (reads_members fun c₃ (h₃ : c₃.rest.length + 1 ≤ c₂.rest.length) =>
            ih c₃ (by omega)).map _
        · rintro _ _ _ _ ⟨_, _, hmembers, -⟩ -
          rw [next_of_members hmembers]
          decide
      · rintro _ _ _ _ ⟨_, _, hheading, -⟩ -
        exact (next_of_heading hheading).ne rfl
    rw [Parser.memberFuel]
    refine Reads.congr ?_ fun _ _ => member_iff
    refine (reads_field c).either ((reads_constant c).either hnested ?_) ?_
    · intro _ _ _ _ hconstant hnested
      exact (next_of_nestedMember hnested).ne rfl (next_of_constant hconstant)
    · rintro _ _ _ _ hfield (hconstant | hnested)
      · exact not_constant_of_field hfield hconstant
      · exact not_nestedMember_of_field hfield hnested

theorem reads_member (c : Cursor) : Reads c 1 Parser.member member anyhow :=
  have h := reads_memberFuel (c.rest.length + 1) c (Nat.lt_succ_self _)
  ⟨h.sound, h.complete, h.takes⟩

theorem reads_aggregate (c : Cursor) : Reads c 1 Parser.aggregate aggregate anyhow := by
  refine (reads_heading c).bind
    (fun _ _ _ => (reads_members fun c₂ _ => reads_member c₂).map _) ?_
  rintro _ _ _ _ ⟨_, _, hmembers, -⟩ -
  rw [next_of_members hmembers]
  decide

/-! ### The other definitions -/

theorem reads_enumItem (c : Cursor) : Reads c 1 Parser.enumItem enumItem (· ≠ some '=') := by
  refine (reads_name c).andThen (l := 0) fun name c₁ _ => ?_
  have hnumber : Reads c₁ 1 (do discard <| Parser.fixed "="; return (← Parser.number).value)
      (do let _ ← fixed "="; let number ← number; return number.value) anyhow :=
    .afterMark rfl fun c₂ _ => ((reads_number c₂).map _).tail
  refine ((hnumber.whenNext ?_).map _).ending fun _ h => ⟨h, trivial⟩
  rintro _ _ ⟨_, _, hmark, -⟩
  exact next_of_fixed rfl hmark

theorem next_of_enumItem {e : EnumItem} (h : enumItem c e c') : c.next ≠ some '\x7d' := by
  obtain ⟨_, _, hname, -⟩ := h
  exact (next_of_name hname).ne rfl

/-- What stands behind a comma: nothing if the values end, and otherwise the next one. -/
def maybeItem : Rule (Option EnumItem) := fun c o c' =>
  (c.next = some '\x7d' ∧ o = none ∧ c' = c) ∨ ∃ e, o = some e ∧ enumItem c e c'

theorem reads_maybeItem (c : Cursor) : Reads c 0
    (do if (← Parser.peek) = some '\x7d' then return none else return some (← Parser.enumItem))
    maybeItem (· ≠ some '=') := by
  refine .peek ?_
  split
  · rename_i hnext
    refine ((Reads.pure none).congr fun o c' => ?_).ending fun _ _ => trivial
    constructor
    · rintro (⟨-, h⟩ | ⟨e, -, h⟩)
      · exact h
      · exact absurd hnext (next_of_enumItem h)
    · exact fun h => .inl ⟨hnext, h⟩
  · rename_i hnext
    refine ((reads_enumItem c).map some).tail.congr fun o c' => ?_
    constructor
    · rintro (⟨h, -⟩ | ⟨e, rfl, h⟩)
      · exact absurd h hnext
      · exact ⟨e, c', h, rfl, rfl⟩
    · rintro ⟨e, _, h, rfl, rfl⟩
      exact .inr ⟨e, rfl, h⟩

/-- Values behind commas, the last of which may be missing, are values behind commas and perhaps one
comma more. -/
theorem exists_of_maybeItems {os : List (Option EnumItem)}
    (h : Many (behind "," maybeItem) c os c') :
    ∃ c₁, Many (behind "," enumItem) c (os.filterMap id) c₁ ∧
      ∃ o, (fixed ",").optional c₁ o c' := by
  induction h with
  | nil => exact ⟨_, .nil, none, .inl ⟨rfl, rfl⟩⟩
  | @cons c c₁ c₂ o os hpart hothers ih =>
    obtain ⟨mark, d, hmark, ⟨hclose, rfl, rfl⟩ | ⟨e, rfl, hitem⟩⟩ := hpart
    · -- no comma can follow
      cases hothers with
      | nil => exact ⟨c, .nil, some mark, .inr ⟨mark, rfl, hmark⟩⟩
      | cons hnext _ =>
        obtain ⟨_, _, hcomma, -⟩ := hnext
        rw [next_of_fixed rfl hcomma] at hclose
        cases hclose
    · obtain ⟨d', hitems, hend⟩ := ih
      exact ⟨d', .cons ⟨mark, d, hmark, hitem⟩ hitems, hend⟩

theorem exists_maybeItems {es : List EnumItem} {o : Option (Located String)}
    (h : Many (behind "," enumItem) c es c₁) (ho : (fixed ",").optional c₁ o c')
    (hclose : c'.next = some '\x7d') :
    ∃ os : List (Option EnumItem), os.filterMap id = es ∧ Many (behind "," maybeItem) c os c' := by
  induction h with
  | nil =>
    rcases ho with ⟨-, rfl⟩ | ⟨mark, -, hmark⟩
    · exact ⟨[], rfl, .nil⟩
    · exact ⟨[none], rfl, .cons ⟨mark, c', hmark, .inl ⟨hclose, rfl, rfl⟩⟩ .nil⟩
  | @cons c d d' e es hpart _ ih =>
    obtain ⟨mark, d₀, hmark, hitem⟩ := hpart
    obtain ⟨os, hos, hmany⟩ := ih ho
    exact ⟨some e :: os, congrArg (e :: ·) hos, .cons ⟨mark, d₀, hmark, .inr ⟨e, rfl, hitem⟩⟩ hmany⟩

theorem reads_enumItems (c : Cursor) : Reads c 1
    (do
      let first ← Parser.enumItem
      let others ← Parser.manyAfter ',' do
        if (← Parser.peek) = some '\x7d' then return none else return some (← Parser.enumItem)
      return first :: others.filterMap id)
    enumItems (· = some '\x7d') := by
  -- the reader looks behind each comma, which makes no difference in front of the closing bracket
  refine Reads.of_rule (R := do
      let first ← enumItem
      let others ← Many (behind "," maybeItem)
      return first :: others.filterMap id) ?_ ?_ ?_ ?_
  · refine (reads_enumItem c).bind (fun first c₁ _ => ((reads_manyAfter ',' rfl (by decide)
      fun c₂ _ => reads_maybeItem c₂).map _).ending ?_) ?_
    · rintro _ rfl
      decide
    · rintro first c₁ _ c₂ ⟨os, _, hmany, rfl, rfl⟩ hclose
      cases hmany with
      | nil =>
        rw [hclose]
        decide
      | cons hpart _ =>
        obtain ⟨_, _, hcomma, -⟩ := hpart
        rw [next_of_fixed rfl hcomma]
        decide
  · rintro _ c' ⟨first, c₁, hfirst, os, _, hmany, rfl, rfl⟩
    obtain ⟨d, hitems, o, hend⟩ := exists_of_maybeItems hmany
    exact ⟨first, c₁, hfirst, _, d, hitems, o, c', hend, rfl, rfl⟩
  · rintro _ c' ⟨first, c₁, hfirst, es, d, hitems, o, _, hend, rfl, rfl⟩ hclose
    obtain ⟨os, rfl, hmany⟩ := exists_maybeItems hitems hend hclose
    exact ⟨first, c₁, hfirst, os, c', hmany, rfl, rfl⟩
  · rintro _ c' ⟨first, c₁, hfirst, es, d, hitems, o, _, hend, rfl, rfl⟩
    have h₁ := (reads_enumItem c).takes hfirst
    have h₂ := (reads_manyAfter ',' rfl (by decide) fun c₂ _ => (reads_enumItem c₂).tail).takes hitems
    have h₃ : c'.rest.length ≤ d.rest.length := by
      rcases hend with ⟨-, rfl⟩ | ⟨_, -, hcomma⟩
      · exact Nat.le_refl _
      · exact (reads_fixed "," rfl d).tail.takes hcomma
    omega

theorem reads_items (c : Cursor) : Reads c 0 Parser.enumItems (.or (pure []) enumItems)
    fun y => y = some '\x7d' ∧ y = some '\x7d' := by
  refine (reads_enumItems c).unlessNext [] ?_
  rintro _ _ ⟨_, _, hitem, -⟩
  exact next_of_enumItem hitem

theorem reads_enumeration (c : Cursor) : Reads c 1 Parser.enumeration enumeration anyhow := by
  refine (reads_fixed "enum" rfl c).andThen (l := 1) fun keyword c₁ _ => ?_
  refine (reads_nameText c₁).andThen (l := 0) fun name c₂ _ => ?_
  have hunderlying : Reads c₂ 1 (do discard <| Parser.fixed ":"; Parser.nameText)
      (behind ":" nameText) anyhow := .afterMark rfl fun c₃ _ => (reads_nameText c₃).tail
  refine (hunderlying.whenNext ?_).untilMark (l := 0) rfl (by decide) fun underlying c₃ _ => ?_
  · rintro _ _ ⟨_, _, hmark, -⟩
    exact next_of_fixed rfl hmark
  · exact (reads_items c₃).untilMark rfl (by decide) fun items c₄ _ => .pure _

theorem reads_bodiless (kind : Bodiless) (c : Cursor) :
    Reads c 1 (Parser.bodiless kind) (bodiless kind) anyhow := by
  have hopens : (Terminal.fixed kind.keyword).opens := by cases kind <;> rfl
  refine (reads_fixed kind.keyword hopens c).andThen (l := 1) fun keyword c₁ _ => ?_
  exact (reads_nameText c₁).untilMark rfl trivial fun name c₂ _ => .pure _

theorem next_of_aggregate {b : Body} (h : aggregate c b c') : c.NextIs ['s', 'u'].contains := by
  obtain ⟨_, _, hheading, -⟩ := h
  exact next_of_heading hheading

theorem next_of_enumeration {b : Body} (h : enumeration c b c') : c.next = some 'e' := by
  obtain ⟨_, _, hmark, -⟩ := h
  exact next_of_fixed rfl hmark

theorem next_of_bodiless {kind : Bodiless} {b : Body} (h : bodiless kind c b c') :
    c.next = kind.keyword.toList.head? := by
  obtain ⟨_, _, hmark, -⟩ := h
  exact next_of_fixed (by cases kind <;> rfl) hmark

theorem reads_body (c : Cursor) : Reads c 1 Parser.body body anyhow := by
  refine (reads_aggregate c).either ((reads_enumeration c).either ((reads_bodiless .delegate c).either
    ((reads_bodiless .interface c).either (reads_bodiless .runtimeClass c) ?_) ?_) ?_) ?_
  · intro _ _ _ _ h h'
    exact absurd ((next_of_bodiless h).symm.trans (next_of_bodiless h')) (by decide)
  · rintro _ _ _ _ h (h' | h')
      <;> exact absurd ((next_of_bodiless h).symm.trans (next_of_bodiless h')) (by decide)
  · rintro _ _ _ _ h (h' | h' | h')
      <;> exact absurd ((next_of_enumeration h).symm.trans (next_of_bodiless h')) (by decide)
  · rintro _ _ _ _ h (h' | h' | h' | h')
    · exact (next_of_aggregate h).ne rfl (next_of_enumeration h')
    · exact (next_of_aggregate h).ne (y := 'd') rfl (next_of_bodiless h')
    · exact (next_of_aggregate h).ne (y := 'i') rfl (next_of_bodiless h')
    · exact (next_of_aggregate h).ne (y := 'c') rfl (next_of_bodiless h')

theorem next_of_body {b : Body} (h : body c b c') :
    c.NextIs ['s', 'u', 'e', 'd', 'i', 'c'].contains := by
  rcases h with h | h | h | h | h
  · exact (next_of_aggregate h).mono fun x hx => by grind [List.contains_iff_mem]
  · exact ⟨_, next_of_enumeration h, rfl⟩
  · exact ⟨'d', next_of_bodiless h, rfl⟩
  · exact ⟨'i', next_of_bodiless h, rfl⟩
  · exact ⟨'c', next_of_bodiless h, rfl⟩

theorem next_of_fixed_winrt {token : Located String} (h : fixed "winrt" c token c') :
    c.next = some 'w' := next_of_fixed rfl h

theorem reads_definition (c : Cursor) : Reads c 1 Parser.definition definition anyhow := by
  refine (reads_attributeBlocks c).before (fun attributes c₁ _ => ?_) ?_
  · refine ((reads_fixed "winrt" rfl c₁).whenNext fun _ _ => next_of_fixed_winrt).before
      (fun winrt c₂ _ => (reads_body c₂).map _) ?_
    rintro _ _ _ _ ⟨_, _, hbody, -⟩ -
    exact ⟨(next_of_body hbody).ne rfl, trivial⟩
  · rintro _ c₁ _ c₂ ⟨_, _, hwinrt, _, _, hbody, -⟩ -
    rcases hwinrt with ⟨-, rfl⟩ | ⟨_, -, hwinrt⟩
    · exact (next_of_body hbody).ne rfl
    · rw [next_of_fixed_winrt hwinrt]
      decide

theorem next_of_definition {d : DefinitionSource} (h : definition c d c') :
    c.NextIs ['[', 'w', 's', 'u', 'e', 'd', 'i', 'c'].contains := by
  obtain ⟨_, _, hattributes, _, _, hwinrt, _, _, hbody, -⟩ := h
  cases hattributes with
  | cons hblock _ => exact ⟨_, next_of_attributeBlock hblock, rfl⟩
  | nil =>
    rcases hwinrt with ⟨-, rfl⟩ | ⟨_, -, hwinrt⟩
    · exact (next_of_body hbody).mono fun x hx => by grind [List.contains_iff_mem]
    · exact ⟨_, next_of_fixed_winrt hwinrt, rfl⟩

/-! ### Whole texts -/

theorem reads_namespaceBlock (c : Cursor) : Reads c 1 Parser.namespaceBlock namespaceBlock anyhow := by
  have hdefinitions (c₁ : Cursor) : Reads c₁ 0 (Parser.manyUntil '\x7d' Parser.definition)
      (Many definition) fun y => (y != some '\x7d') = false ∧ anyhow y := by
    refine Reads.manyWhile (fun c₂ _ => reads_definition c₂) ?_ fun _ _ => trivial
    intro _ _ _ h
    exact bne_iff_ne.2 ((next_of_definition h).ne rfl)
  refine (reads_fixed "namespace" rfl c).andThen (l := 1) fun keyword c₁ _ => ?_
  refine (reads_dottedName c₁).untilMark (l := 0) rfl (by decide) fun name c₂ _ => ?_
  exact (hdefinitions c₂).untilMark rfl (by decide) fun definitions c₃ _ => .pure _

theorem reads_document (c : Cursor) : Reads c 0 Parser.document document (· = none) := by
  refine (Reads.manyWhile (fun c₁ _ => reads_namespaceBlock c₁) ?_ fun _ _ => trivial).ending ?_
  · rintro _ _ _ ⟨_, _, hmark, -⟩
    rw [next_of_fixed rfl hmark]
    rfl
  · rintro _ rfl
    exact ⟨rfl, trivial⟩

theorem next_of_document {c c' : Cursor} {d : Document} (h : Parser.document c = .ok (d, c')) :
    c'.next = none := by
  have hend := (sound_manyFuel (fun c₁ _ => reads_namespaceBlock c₁) h).2
  simpa using hend

theorem next_eq_none_iff {c : Cursor} : c.next = none ↔ c.skipLayout.rest = [] :=
  List.head?_eq_none_iff

theorem read_eq_ok_iff {text : List Char} {d : Document} : read text = .ok d ↔ Derives text d := by
  have hread : read text = .ok d ↔ ∃ c, Parser.document ⟨1, text⟩ = .ok (d, c) := by
    unfold read
    cases Parser.document ⟨1, text⟩ with
    | error i => simp [Except.map]
    | ok r => simp [Except.map, Prod.ext_iff]
  rw [hread]
  constructor
  · rintro ⟨c, h⟩
    exact ⟨c, c.skipLayout, (reads_document _).sound h, layout_skipLayout c,
      next_eq_none_iff.1 (next_of_document h)⟩
  · rintro ⟨c, c', hderives, hlayout, hrest⟩
    refine ⟨c, (reads_document _).complete hderives (next_eq_none_iff.2 ?_)⟩
    have hlength := c'.length_skipLayout
    rw [hlayout.skipLayout_eq, hrest] at hlength
    exact List.eq_nil_of_length_eq_zero (Nat.le_zero.1 hlength)

/-- **The grammar and its readings.**  A tree is read from a text exactly if the grammar derives it, and
a text derives one tree at most. -/
theorem read_iff_derives (text : List Char) : (∀ d, read text = .ok d ↔ Derives text d) ∧
    ∀ d d', Derives text d → Derives text d' → d = d' := by
  refine ⟨fun d => read_eq_ok_iff, fun d d' hd hd' => ?_⟩
  exact Except.ok.inj ((read_eq_ok_iff.2 hd).symm.trans (read_eq_ok_iff.2 hd'))

-- keywords need no blank behind them, and are names too
example : read "namespace N\x7bstructS\x7bstruct:u8;\x7d\x7d".toList =
    .ok [⟨1, ⟨⟨1, "N"⟩, []⟩, [⟨[], none, .aggregate ⟨1, false, "S", none⟩
      [.field ⟨1, "struct"⟩ (.named ⟨⟨1, "u8"⟩, []⟩)]⟩]⟩] := by
  cbv

end Bindery.Source
