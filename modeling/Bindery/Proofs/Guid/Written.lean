import Bindery.Proofs.Guid.Components
/-!
# Identities in writing

An identity is written as a text, and as a call in code.  The text is read again, with brackets around
it or without (`ofText_text`); the numerals in the call have the digits of the text
(`flatten_numerals_code`).  With the components these are three forms of one identity
(`forms_agree`).
-/

namespace Bindery.Guid

open Text (hexDigits isHexDigit)

variable {cs before after : List Char}

/-! ### The characters of the text -/

theorem forall_mem_textChars {P : Char → Prop} (hdigits : ∀ d < 16, P (Nat.digitChar d))
    (hhyphen : P '-') (g : Guid) : ∀ c ∈ g.textChars, P c := by
  have hall := Text.forall_mem_hexDigits hdigits 32 g.value
  intro c hc
  simp only [textChars, List.mem_append, List.mem_cons] at hc
  rcases hc with (((hc | rfl | hc) | rfl | hc) | rfl | hc) | rfl | hc
  · exact hall c (List.mem_of_mem_take hc)
  · exact hhyphen
  · exact hall c (List.mem_of_mem_drop (List.mem_of_mem_take hc))
  · exact hhyphen
  · exact hall c (List.mem_of_mem_drop (List.mem_of_mem_take hc))
  · exact hhyphen
  · exact hall c (List.mem_of_mem_drop (List.mem_of_mem_take hc))
  · exact hhyphen
  · exact hall c (List.mem_of_mem_drop hc)

theorem append_groups (ds : List Char) :
    ds.take 8 ++ ((ds.drop 8).take 4 ++ ((ds.drop 12).take 4 ++ ((ds.drop 16).take 4 ++ ds.drop 20))) =
      ds := by
  have hgroup (k : Nat) : (ds.drop k).take 4 ++ ds.drop (k + 4) = ds.drop k := by
    rw [← List.drop_drop]
    exact List.take_append_drop 4 (ds.drop k)
  rw [hgroup 16, hgroup 12, hgroup 8, List.take_append_drop]

theorem filter_textChars (g : Guid) : g.textChars.filter (· ≠ '-') = hexDigits 32 g.value := by
  have hdigits : ∀ c ∈ hexDigits 32 g.value, c ≠ '-' :=
    Text.forall_mem_hexDigits (by decide) 32 g.value
  have hkept : (hexDigits 32 g.value).filter (· ≠ '-') = hexDigits 32 g.value :=
    List.filter_eq_self.2 fun c hc => decide_eq_true (hdigits c hc)
  rw [← hkept]
  conv_rhs => rw [← append_groups (hexDigits 32 g.value)]
  simp [textChars, List.filter_append]

/-! ### Reading the text -/

theorem removeAll_of_not_mem {c : Char} {pattern : List Char} (h : c ∉ cs) :
    removeAll (c :: pattern) 0 cs = cs := by
  induction cs with
  | nil => rfl
  | cons x cs ih =>
    have hne : c ≠ x := fun heq => h (by simp [heq])
    have hrest : c ∉ cs := fun hmem => h (by simp [hmem])
    have hstart : (c :: pattern).isPrefixOf (x :: cs) = false := by
      simp [List.isPrefixOf, hne]
    rw [removeAll, hstart, ih hrest]
    rfl

theorem dropWhile_of_forall {drop : Char → Bool} (h : ∀ c ∈ cs, drop c = false) :
    cs.dropWhile drop = cs := by
  cases cs with
  | nil => rfl
  | cons c cs =>
    rw [List.dropWhile_cons, h c (by simp)]
    rfl

theorem trimBoth_of_forall {drop : Char → Bool} (h : ∀ c ∈ cs, drop c = false) :
    Text.trimBoth drop cs = cs := by
  have hreverse : ∀ c ∈ cs.reverse, drop c = false := fun c hc => h c (List.mem_reverse.1 hc)
  rw [Text.trimBoth, dropWhile_of_forall h, dropWhile_of_forall hreverse, List.reverse_reverse]

theorem trimBoth_append {drop : Char → Bool} {c : Char} (hbefore : ∀ x ∈ before, drop x = true)
    (hafter : ∀ x ∈ after, drop x = true) (h : ∀ x ∈ c :: cs, drop x = false) :
    Text.trimBoth drop (before ++ c :: cs ++ after) = c :: cs := by
  have hstart : (before ++ c :: cs ++ after).dropWhile drop = c :: cs ++ after := by
    rw [List.append_assoc, List.dropWhile_append_of_pos hbefore, List.cons_append,
      List.dropWhile_cons, h c (by simp)]
    rfl
  have hend : (c :: cs ++ after).reverse.dropWhile drop = (c :: cs).reverse := by
    rw [List.reverse_append, List.dropWhile_append_of_pos fun x hx =>
      hafter x (List.mem_reverse.1 hx)]
    exact dropWhile_of_forall fun x hx => h x (List.mem_reverse.1 hx)
  rw [Text.trimBoth, hstart, hend, List.reverse_reverse]

theorem stripped_textChars (g : Guid) (hbefore : ∀ c ∈ before, isBrace c = true)
    (hafter : ∀ c ∈ after, isBrace c = true) :
    stripped (before ++ g.textChars ++ after) = hexDigits 32 g.value := by
  have hbrace : ∀ c ∈ g.textChars, isBrace c = false :=
    forall_mem_textChars (by decide) (by decide) g
  have hscheme : 'u' ∉ g.textChars := fun hmem =>
    forall_mem_textChars (P := (· ≠ 'u')) (by decide) (by decide) g 'u' hmem rfl
  have htrim : Text.trimBoth isBrace (before ++ g.textChars ++ after) = g.textChars := by
    cases hchars : g.textChars with
    | nil => simp [textChars] at hchars
    | cons c cs => exact trimBoth_append hbefore hafter (hchars ▸ hbrace)
  have hurn : removeAll "urn:".toList 0 g.textChars = g.textChars := removeAll_of_not_mem hscheme
  have huuid : removeAll "uuid:".toList 0 g.textChars = g.textChars := removeAll_of_not_mem hscheme
  unfold stripped
  dsimp only
  rw [htrim, hurn, huuid, trimBoth_of_forall hbrace, filter_textChars]

theorem normaliseNumeral?_eq (hascii : ∀ c ∈ cs, c.toNat < 127)
    (hblank : ∀ c ∈ cs, c ∉ Text.asciiBlanks) : Text.normaliseNumeral? cs = some cs := by
  have hchars : cs.mapM Text.asciiNumeral? = some cs := by
    induction cs with
    | nil => rfl
    | cons c cs ih =>
      have hc : Text.asciiNumeral? c = some c := if_pos (hascii c (by simp))
      have hrest := ih (fun x hx => hascii x (by simp [hx])) fun x hx => hblank x (by simp [hx])
      rw [List.mapM_cons, hc, hrest]
      rfl
  have htrim : Text.trimBoth (· ∈ Text.asciiBlanks) cs = cs :=
    trimBoth_of_forall fun c hc => decide_eq_false (hblank c hc)
  rw [Text.normaliseNumeral?, hchars, Option.map_some, htrim]

theorem underscoredDigits?_eq (h : ∀ c ∈ cs, isHexDigit c = true ∧ c ≠ '_') :
    underscoredDigits? true cs = some cs := by
  induction cs with
  | nil => rfl
  | cons c cs ih =>
    obtain ⟨hdigit, hne⟩ := h c (by simp)
    rw [underscoredDigits?, if_neg hne, if_pos hdigit, ih fun x hx => h x (by simp [hx])]
    rfl

theorem dropBase_of_forall (h : ∀ c ∈ cs, c ≠ 'x' ∧ c ≠ 'X') : dropBase cs = cs := by
  unfold dropBase
  split
  · exact absurd rfl (h 'x' (by simp)).1
  · exact absurd rfl (h 'X' (by simp)).2
  · exact absurd rfl (h 'x' (by simp)).1
  · exact absurd rfl (h 'X' (by simp)).2
  · rfl

theorem readHex?_hexDigits (width n : Nat) :
    readHex? (hexDigits (width + 1) n) = some (n % 16 ^ (width + 1)) := by
  have hnumber := Text.hexNumber_hexDigits (width + 1) n
  have hlength := Text.length_hexDigits (width + 1) n
  have hchars : ∀ c ∈ hexDigits (width + 1) n, (c.toNat < 127 ∧ c ∉ Text.asciiBlanks) ∧
      (isHexDigit c = true ∧ c ≠ '_') ∧ (c ≠ 'x' ∧ c ≠ 'X') ∧ c ≠ '+' :=
    Text.forall_mem_hexDigits (by decide) (width + 1) n
  generalize hexDigits (width + 1) n = ds at *
  cases ds with
  | nil => cases hlength
  | cons c ds =>
    obtain ⟨-, ⟨hdigit, hne⟩, -, hplus⟩ := hchars c (by simp)
    have hnormal := normaliseNumeral?_eq (fun x hx => (hchars x hx).1.1) fun x hx => (hchars x hx).1.2
    have hbase := dropBase_of_forall fun x hx => (hchars x hx).2.2.1
    have hdigits : underscoredDigits? false (c :: ds) = some (c :: ds) := by
      rw [underscoredDigits?, if_neg hne, if_pos hdigit,
        underscoredDigits?_eq fun x hx => (hchars x (by simp [hx])).2.1]
      rfl
    simp only [readHex?, hnormal, Option.bind_eq_bind, Option.bind_some]
    split
    · rename_i rest heq
      cases heq
      exact absurd rfl hplus
    · rw [hbase, hdigits, Option.bind_some, hnumber]

/-- **Reading a text.**  The text of an identity is read as this identity, whatever brackets stand
around it. -/
theorem ofText_text (g : Guid) (hbefore : ∀ c ∈ before, isBrace c = true)
    (hafter : ∀ c ∈ after, isBrace c = true) :
    ofText (.ofList (before ++ g.textChars ++ after)) = .ok g := by
  have hvalue : g.value % 16 ^ (31 + 1) = g.value := Nat.mod_eq_of_lt g.value_lt
  have hstripped := stripped_textChars g hbefore hafter
  have hlength : (stripped (before ++ g.textChars ++ after)).length = 32 := by
    rw [hstripped, Text.length_hexDigits]
  have hread : readHex? (stripped (before ++ g.textChars ++ after)) = some g.value := by
    rw [hstripped, readHex?_hexDigits 31 g.value, hvalue]
  simp only [ofText, String.toList_ofList, hlength, hread, ne_eq, not_true_eq_false, if_false]
  exact ofInt_value g

theorem ofArgs_text {s : String} {g : Guid} (h : ofText s = .ok g) : ofArgs [.text s] = .ok g := by
  rw [ofArgs, h]

/-! ### Numerals in code -/

/-- The digits of the numerals in base sixteen that stand in a text, each behind its mark. -/
def numeralsIn : List Char → List (List Char)
  | '0' :: 'x' :: rest => rest.takeWhile isHexDigit :: numeralsIn rest
  | _ :: rest => numeralsIn rest
  | [] => []

def numerals (code : String) : List (List Char) := numeralsIn code.toList

theorem numeralsIn_cons {c : Char} (h : cs.head? ≠ some 'x') :
    numeralsIn (c :: cs) = numeralsIn cs := by
  rw [numeralsIn]
  rintro rest rfl rfl
  exact h rfl

theorem numeralsIn_of_not_mem (h : 'x' ∉ cs) : numeralsIn cs = [] := by
  induction cs with
  | nil => rfl
  | cons c cs ih =>
    have hrest : 'x' ∉ cs := fun hmem => h (List.mem_cons_of_mem c hmem)
    rw [numeralsIn_cons fun hhead => hrest (List.mem_of_mem_head? hhead), ih hrest]

theorem numeralsIn_append (h : 'x' ∉ before) :
    numeralsIn (before ++ '0' :: 'x' :: cs) = cs.takeWhile isHexDigit :: numeralsIn cs := by
  induction before with
  | nil => rfl
  | cons c before ih =>
    have hrest : 'x' ∉ before := fun hmem => h (List.mem_cons_of_mem c hmem)
    have hnext : (before ++ '0' :: 'x' :: cs).head? ≠ some 'x' := by
      cases before with
      | nil => simp
      | cons d before =>
        intro heq
        have hd : d = 'x' := by simpa using heq
        exact hrest (by simp [hd])
    rw [List.cons_append, numeralsIn_cons hnext, ih hrest]

/-- A numeral behind its mark, and what follows it. -/
def marked (part : List Char × List Char) : List Char := '0' :: 'x' :: (part.1 ++ part.2)

/-- Numerals that are followed by other characters are found one after the other. -/
theorem numeralsIn_flatMap {parts : List (List Char × List Char)} (hbefore : 'x' ∉ before)
    (hdigits : ∀ part ∈ parts, ∀ c ∈ part.1, isHexDigit c = true ∧ c ≠ 'x')
    (hends : ∀ part ∈ parts, 'x' ∉ part.2 ∧ part.2.head?.any (!isHexDigit ·) = true) :
    numeralsIn (before ++ parts.flatMap marked) = parts.map (·.1) := by
  -- along the numerals: what is before the next one has no mark
  induction parts generalizing before with
  | nil => simpa using numeralsIn_of_not_mem hbefore
  | cons part parts ih =>
    obtain ⟨digits, ending⟩ := part
    obtain ⟨hpart, hdigits⟩ := List.forall_mem_cons.1 hdigits
    obtain ⟨⟨hmark, hhead⟩, hends⟩ := List.forall_mem_cons.1 hends
    have hpassed : 'x' ∉ digits ++ ending := by
      intro hmem
      rcases List.mem_append.1 hmem with hmem | hmem
      · exact (hpart 'x' hmem).2 rfl
      · exact hmark hmem
    have htake (rest : List Char) : (digits ++ ending ++ rest).takeWhile isHexDigit = digits := by
      rw [List.append_assoc, List.takeWhile_append_of_pos fun c hc => (hpart c hc).1]
      cases ending with
      | nil => cases hhead
      | cons c ending =>
        have hc : isHexDigit c = false := by simpa using hhead
        rw [List.cons_append, List.takeWhile_cons, hc]
        simp
    rw [List.flatMap_cons, marked, List.cons_append, List.cons_append, numeralsIn_append hbefore,
      htake, ih hpassed hdigits hends, List.map_cons]

/-- What follows the numerals in the call. -/
def separators : List (List Char) :=
  [", ", ", ", ", [", ", ", ", ", ", ", ", ", ", ", ", ", ", ", "])"].map String.toList

def componentDigits (g : Guid) : List (List Char) :=
  digitCounts.zipWith hexDigits g.components.numbers

theorem toList_code (g : Guid) : g.code.toList =
    "::windows::Guid::from_values(".toList ++ (g.componentDigits.zip separators).flatMap marked := by
  have hopening : "::windows::Guid::from_values(0x".toList =
      "::windows::Guid::from_values(".toList ++ ['0', 'x'] := by decide
  have hcomma : ", 0x".toList = ", ".toList ++ ['0', 'x'] := by decide
  have hmark : "0x".toList = ['0', 'x'] := by decide
  unfold code
  dsimp only
  simp only [String.toList_append, String.toList_intercalate, String.toList_ofList, Text.hexText,
    hopening, hcomma, hmark, List.map_map, Function.comp_def]
  simp only [componentDigits, separators, digitCounts, Components.numbers, components, byteWeights,
    List.map_cons, List.map_nil, List.zipWith_cons_cons, List.zipWith_nil_left, List.zip_cons_cons,
    List.zip_nil_left, List.flatMap_cons, List.flatMap_nil, marked]
  -- the rest is about the order of the parts, whatever their characters are
  generalize "::windows::Guid::from_values(".toList = opening
  generalize ", ".toList = comma
  generalize ", [".toList = bracket
  generalize "])".toList = ending
  simp [List.intercalate]

/-- The numerals in the call are the components. -/
theorem numerals_code (g : Guid) : numerals g.code = g.componentDigits := by
  have hopening : 'x' ∉ "::windows::Guid::from_values(".toList := by decide
  have hseparators : ∀ ending ∈ separators,
      'x' ∉ ending ∧ ending.head?.any (!isHexDigit ·) = true := by decide
  have hdigits : ∀ ds ∈ g.componentDigits, ∀ c ∈ ds, isHexDigit c = true ∧ c ≠ 'x' := by
    intro ds hds
    obtain ⟨i, hi, rfl⟩ := List.mem_iff_getElem.1 hds
    simp only [componentDigits, List.getElem_zipWith]
    exact Text.forall_mem_hexDigits (by decide) _ _
  have hlength : g.componentDigits.length ≤ separators.length := Nat.le_refl 11
  rw [numerals, toList_code, numeralsIn_flatMap hopening, List.map_fst_zip hlength]
  · exact fun part hpart => hdigits part.1 (List.of_mem_zip hpart).1
  · exact fun part hpart => hseparators part.2 (List.of_mem_zip hpart).2

/-- **Three forms.**  The components of an identity, its text, in brackets or without, and its call in
code stand for this identity: the first two give it, and the numerals in the call, which are padded to
the digits of the components, have the digits of the text.  Eleven numbers give an identity if and only
if they are in the bounds of the components, and then they are its components. -/
theorem forms_agree :
    (∀ g : Guid,
      ofArgs (g.components.numbers.map fun n => .int n) = .ok g ∧
      ofArgs [.text g.text] = .ok g ∧
      ofArgs [.text ("\x7b" ++ g.text ++ "\x7d")] = .ok g ∧
      (numerals g.code).map List.length = digitCounts ∧
      (numerals g.code).flatten = g.text.toList.filter (· ≠ '-')) ∧
    ∀ (args : List Value) (data1 data2 data3 : Int) (data4 : List Int),
      args.mapM Value.int? = some (data1 :: data2 :: data3 :: data4) → data4.length = 8 →
      ((∃ g, ofArgs args = .ok g) ↔ (0 ≤ data1 ∧ data1 < 2 ^ 32) ∧ (0 ≤ data2 ∧ data2 < 2 ^ 16) ∧
        (0 ≤ data3 ∧ data3 < 2 ^ 16) ∧ ∀ b ∈ data4, 0 ≤ b ∧ b < 2 ^ 8) ∧
      ∀ g, ofArgs args = .ok g →
        (g.components.numbers.map fun n => (n : Int)) = data1 :: data2 :: data3 :: data4 := by
  constructor
  · intro g
    refine ⟨?_, ?_, ?_, ?_, ?_⟩
    · have hnumbers : (g.components.numbers.map fun n => Value.int n).mapM Value.int? =
          some (g.components.numbers.map fun n : Nat => (n : Int)) := rfl
      exact (ofArgs_numbers_iff hnumbers rfl).2 rfl
    · have hread : ofText (.ofList ([] ++ g.textChars ++ [])) = .ok g :=
        ofText_text g (by simp) (by simp)
      rw [List.nil_append, List.append_nil] at hread
      exact ofArgs_text hread
    · have hread : ofText (.ofList (['\x7b'] ++ g.textChars ++ ['\x7d'])) = .ok g :=
        ofText_text g (by simp [isBrace]) (by simp [isBrace])
      have hbraces : "\x7b" ++ g.text ++ "\x7d" = .ofList (['\x7b'] ++ g.textChars ++ ['\x7d']) := by
        rw [← String.toList_inj]
        simp [text, String.toList_append]
      rw [hbraces]
      exact ofArgs_text hread
    · rw [numerals_code]
      simp [componentDigits, digitCounts, Components.numbers, components, byteWeights]
    · rw [numerals_code, componentDigits, numbers_components, Text.flatten_hexDigits_groups, text,
        String.toList_ofList, filter_textChars]
      rfl
  · intro args data1 data2 data3 data4 hargs hlength
    have heleven : (data1 :: data2 :: data3 :: data4).length = 11 := by simp [hlength]
    refine ⟨?_, fun g hg => ((ofArgs_numbers_iff hargs heleven).1 hg).symm⟩
    rw [exists_ofArgs_iff hargs heleven, small_cons_iff data1 data2 data3 hlength]
    simp only [List.forall_mem_cons]
    constructor
    · rintro ⟨⟨h1, h2, h3, h4⟩, hpos1, hpos2, hpos3, hpos4⟩
      exact ⟨⟨hpos1, h1⟩, ⟨hpos2, h2⟩, ⟨hpos3, h3⟩, fun b hb => ⟨hpos4 b hb, h4 b hb⟩⟩
    · rintro ⟨⟨hpos1, h1⟩, ⟨hpos2, h2⟩, ⟨hpos3, h3⟩, h4⟩
      exact ⟨⟨h1, h2, h3, fun b hb => (h4 b hb).2⟩, hpos1, hpos2, hpos3, fun b hb => (h4 b hb).1⟩

/-! ### A sample -/

def sample : Guid := ⟨0x6d4865fe0ab84d918f625dd6be34a3e0, by decide⟩

def sampleNumbers : List Int :=
  [0x6d4865fe, 0x0ab8, 0x4d91, 0x8f, 0x62, 0x5d, 0xd6, 0xbe, 0x34, 0xa3, 0xe0]

/-- The components and the text of an identity, and what comes of a sign. -/
theorem forms_sample :
    ofArgs (sampleNumbers.map .int) = .ok sample ∧
    ofArgs [.text "6d4865fe-0ab8-4d91-8f62-5dd6be34a3e0"] = .ok sample ∧
    ¬ ∃ g, ofArgs ((-1 :: sampleNumbers.tail).map .int) = .ok g := by
  obtain ⟨hforms, hnumbers⟩ := forms_agree
  obtain ⟨hcomponents, htext, -⟩ := hforms sample
  refine ⟨hcomponents, ?_, fun h => ?_⟩
  · have hwritten : sample.text = "6d4865fe-0ab8-4d91-8f62-5dd6be34a3e0" := by cbv
    rwa [hwritten] at htext
  · have hbounds := (hnumbers _ _ _ _ _ rfl rfl).1.1 h
    exact absurd hbounds.1.1 (by decide)

end Bindery.Guid
