import Bindery.Source.Terminal
/-!
# Patterns

Regular expressions with the matches that a search with backtracking finds, in the order in which it
finds them (`Pattern.splits`).  A pattern's own match is the first of them (`Pattern.match?`).  Each
terminal is taken as far as its pattern matches by itself (`Terminal.match?_pattern`).
-/

namespace Bindery.Source

inductive Pattern
  /-- One character in one of the ranges. -/
  | oneOf (ranges : List (Char × Char))
  /-- One character that is none of these. -/
  | noneOf (excluded : List Char)
  | text (t : String)
  | seq (p q : Pattern)
  | alt (p q : Pattern)
  | optional (p : Pattern)
  | many (p : Pattern)

/-- The start of a text that is matched, and what follows it. -/
abbrev Split := List Char × List Char

namespace Pattern

/-- A match behind characters that are taken before. -/
def prepend (taken : List Char) (s : Split) : Split := (taken ++ s.1, s.2)

/-! ### Matches -/

/-- One character that is accepted. -/
def single (accepts : Char → Bool) : List Char → List Split
  | c :: rest => if accepts c then [([c], rest)] else []
  | [] => []

/-- Repeated matches.  After each match another one is tried first, and none last. -/
def repeated (once : List Char → List Split) (cs : List Char) : List Split :=
  ((once cs).flatMap fun s =>
    if _h : s.2.length < cs.length then (repeated once s.2).map (prepend s.1) else []) ++ [([], cs)]
termination_by cs.length

/-- All matches at the start of a text, in the order in which they are tried. -/
def splits : Pattern → List Char → List Split
  | oneOf ranges => single fun c => ranges.any fun r => r.1 ≤ c && c ≤ r.2
  | noneOf excluded => single fun c => c ∉ excluded
  | text t => fun cs => if t.toList <+: cs then [(t.toList, cs.drop t.toList.length)] else []
  | seq p q => fun cs => (p.splits cs).flatMap fun s => (q.splits s.2).map (prepend s.1)
  | alt p q => fun cs => p.splits cs ++ q.splits cs
  | optional p => fun cs => p.splits cs ++ [([], cs)]
  | many p => repeated p.splits

/-- The match that is found first. -/
def match? (p : Pattern) (cs : List Char) : Option Split := (p.splits cs).head?

/-! ### What is matched -/

theorem append_of_mem_single {accepts : Char → Bool} {cs : List Char} {s : Split}
    (h : s ∈ single accepts cs) : s.1 ++ s.2 = cs := by
  unfold single at h
  split at h
  · split at h
    · rw [List.mem_singleton.1 h]
      rfl
    · cases h
  · cases h

theorem append_of_mem_repeated {once : List Char → List Split}
    (honce : ∀ cs, ∀ s ∈ once cs, s.1 ++ s.2 = cs) (cs : List Char) :
    ∀ s ∈ repeated once cs, s.1 ++ s.2 = cs := by
  induction cs using repeated.induct with
  | case1 cs ih =>
    intro s hs
    rw [repeated, List.mem_append, List.mem_flatMap] at hs
    rcases hs with ⟨first, hfirst, hs⟩ | hs
    · split at hs
      · rename_i hlt
        obtain ⟨t, ht, rfl⟩ := List.mem_map.1 hs
        rw [prepend, List.append_assoc, ih first hlt t ht, honce cs first hfirst]
      · cases hs
    · rw [List.mem_singleton.1 hs]
      rfl

theorem append_of_mem_splits (p : Pattern) {cs : List Char} {s : Split} (h : s ∈ p.splits cs) :
    s.1 ++ s.2 = cs := by
  induction p generalizing cs s with
  | oneOf ranges => exact append_of_mem_single h
  | noneOf excluded => exact append_of_mem_single h
  | text t =>
    simp only [splits] at h
    split at h
    · rename_i hprefix
      rw [List.mem_singleton.1 h]
      exact List.prefix_iff_eq_append.1 hprefix
    · cases h
  | seq p q ihp ihq =>
    obtain ⟨a, ha, h⟩ := List.mem_flatMap.1 h
    obtain ⟨b, hb, rfl⟩ := List.mem_map.1 h
    rw [prepend, List.append_assoc, ihq hb, ihp ha]
  | alt p q ihp ihq => exact (List.mem_append.1 h).elim ihp ihq
  | optional p ih =>
    rcases List.mem_append.1 h with h | h
    · exact ih h
    · rw [List.mem_singleton.1 h]
      rfl
  | many p ih => exact append_of_mem_repeated (fun cs s hs => ih hs) cs s h

theorem append_of_match? {p : Pattern} {cs taken rest : List Char}
    (h : p.match? cs = some (taken, rest)) : taken ++ rest = cs :=
  p.append_of_mem_splits (List.mem_of_head? h)

/-! ### The first match -/

section First

variable {p q : Pattern} {cs : List Char}

/-- In a sequence, the matches of the first pattern are tried in turn. -/
theorem match?_seq : (seq p q).match? cs =
    (p.splits cs).findSome? fun s => (q.match? s.2).map (prepend s.1) := by
  simp only [match?, splits, List.head?_flatMap, List.head?_map]

theorem match?_seq_of_some {s t : Split} (hp : p.match? cs = some s) (hq : q.match? s.2 = some t) :
    (seq p q).match? cs = some (prepend s.1 t) := by
  obtain ⟨others, hsplits⟩ := List.head?_eq_some_iff.1 hp
  rw [match?_seq, hsplits, List.findSome?_cons, hq, Option.map_some]

theorem match?_seq_of_nil (hp : p.splits cs = []) : (seq p q).match? cs = none := by
  rw [match?_seq, hp, List.findSome?_nil]

theorem match?_alt : (alt p q).match? cs = (p.match? cs).or (q.match? cs) := by
  rw [match?, splits, List.head?_append]
  rfl

theorem match?_optional : (optional p).match? cs = (p.match? cs).or (some ([], cs)) := by
  rw [match?, splits, List.head?_append]
  rfl

theorem splits_eq_nil (h : p.match? cs = none) : p.splits cs = [] :=
  List.head?_eq_none_iff.1 h

end First

/-- Characters are matched as long as they are accepted. -/
theorem head?_repeated_single (accepts : Char → Bool) (cs : List Char) :
    (repeated (single accepts) cs).head? = some (cs.takeWhile accepts, cs.dropWhile accepts) := by
  induction cs with
  | nil => simp [repeated, single]
  | cons c cs ih =>
    rw [repeated, single, List.head?_append]
    cases hc : accepts c with
    | true => simp [hc, ih, prepend]
    | false => simp [hc]

/-- A pattern for one character. -/
def Accepts (p : Pattern) (accepts : Char → Bool) : Prop := p.splits = single accepts

namespace Accepts

variable {p : Pattern} {accepts : Char → Bool}

theorem match?_cons (h : p.Accepts accepts) (c : Char) (cs : List Char) :
    p.match? (c :: cs) = if accepts c then some ([c], cs) else none := by
  rw [match?, h, single]
  split <;> rfl

theorem match?_nil (h : p.Accepts accepts) : p.match? [] = none := by
  rw [match?, h]
  rfl

theorem match?_seq_nil (h : p.Accepts accepts) (q : Pattern) : (seq p q).match? [] = none :=
  match?_seq_of_nil (splits_eq_nil h.match?_nil)

theorem match?_seq_cons (h : p.Accepts accepts) (q : Pattern) (c : Char) (cs : List Char) :
    (seq p q).match? (c :: cs) = if accepts c then (q.match? cs).map (prepend [c]) else none := by
  rw [match?_seq, h, single]
  split
  · rw [List.findSome?_cons, List.findSome?_nil]
    cases (q.match? cs).map (prepend [c]) <;> rfl
  · rfl

theorem match?_many (h : p.Accepts accepts) (cs : List Char) :
    (many p).match? cs = some (cs.takeWhile accepts, cs.dropWhile accepts) := by
  rw [match?, splits, h, head?_repeated_single]

end Accepts

/-! ### The patterns of the grammar -/

/-- A pattern once or more often. -/
def plus (p : Pattern) : Pattern := seq p (many p)

def digit : Pattern := oneOf [('0', '9')]

def hexDigit : Pattern := oneOf [('0', '9'), ('a', 'f'), ('A', 'F')]

/-- `[a-zA-Z_][a-zA-Z0-9_]*` -/
def name : Pattern :=
  seq (oneOf [('a', 'z'), ('A', 'Z'), ('_', '_')])
    (many (oneOf [('a', 'z'), ('A', 'Z'), ('0', '9'), ('_', '_')]))

/-- `0[xX][0-9a-fA-F]+` -/
def hexadecimal : Pattern := seq (text "0") (seq (oneOf [('x', 'x'), ('X', 'X')]) (plus hexDigit))

/-- `[0-9]+(\.[0-9]+)?` -/
def decimal : Pattern := seq (plus digit) (optional (seq (text ".") (plus digit)))

/-- `-?(0[xX][0-9a-fA-F]+|[0-9]+(\.[0-9]+)?)` -/
def number : Pattern := seq (optional (text "-")) (alt hexadecimal decimal)

/-- `\\.|[^"\\]` -/
def stringPart : Pattern := alt (seq (text "\\") (noneOf ['\n'])) (noneOf ['\x22', '\\'])

/-- `"(\\.|[^"\\])*"` -/
def string : Pattern := seq (text "\x22") (seq (many stringPart) (text "\x22"))

/-- `\*mut|\*const` -/
def pointer : Pattern := alt (text "*mut") (text "*const")

/-- `//[^\n]*` -/
def comment : Pattern := seq (text "//") (many (noneOf ['\n']))

/-- `[ \t\f\r\n]+` -/
def blanks : Pattern := plus (oneOf (Source.blanks.map fun c => (c, c)))

/-! ### Terminals match by themselves -/

section Classes

theorem le_iff_val (c d : Char) : c ≤ d ↔ c.val ≤ d.val := Iff.rfl

theorem isAlpha_eq (c : Char) : c.isAlpha = (decide ('A'.val ≤ c.val ∧ c.val ≤ 'Z'.val) ||
    decide ('a'.val ≤ c.val) && decide (c.val ≤ 'z'.val)) := rfl

theorem accepts_oneOf {ranges : List (Char × Char)} {accepts : Char → Bool}
    (h : ∀ c, (∃ r ∈ ranges, r.1.val ≤ c.val ∧ c.val ≤ r.2.val) ↔ accepts c) :
    Accepts (oneOf ranges) accepts := by
  refine congrArg single (funext fun c => ?_)
  rw [Bool.eq_iff_iff, ← h, List.any_eq_true]
  simp only [Bool.and_eq_true, decide_eq_true_eq, le_iff_val]

theorem accepts_nameStart : Accepts (oneOf [('a', 'z'), ('A', 'Z'), ('_', '_')]) opensName :=
  accepts_oneOf fun c => by
    simp [opensName, isAlpha_eq, Char.ext_iff]
    grind

theorem accepts_namePart :
    Accepts (oneOf [('a', 'z'), ('A', 'Z'), ('0', '9'), ('_', '_')]) continuesName :=
  accepts_oneOf fun c => by
    simp [continuesName, Char.isAlphanum, isAlpha_eq, Char.isDigit, Char.ext_iff]
    grind

theorem accepts_digit : Accepts digit Char.isDigit :=
  accepts_oneOf fun c => by simp [Char.isDigit]

theorem accepts_hexDigit : Accepts hexDigit Text.isHexDigit :=
  accepts_oneOf fun c => by
    simp [Text.isHexDigit, Text.hexValue?, Char.isDigit, le_iff_val]
    grind

theorem accepts_hexMark : Accepts (oneOf [('x', 'x'), ('X', 'X')]) fun c => c = 'x' || c = 'X' :=
  accepts_oneOf fun c => by
    simp [Char.ext_iff]
    grind

theorem accepts_blank :
    Accepts (oneOf (Source.blanks.map fun c => (c, c))) fun c => c ∈ Source.blanks :=
  accepts_oneOf fun c => by
    simp [Source.blanks, Char.ext_iff]
    grind

end Classes

theorem takeFixed?_eq (ps cs : List Char) :
    takeFixed? ps cs = if ps <+: cs then some (ps, cs.drop ps.length) else none := by
  induction ps generalizing cs with
  | nil => simp [takeFixed?]
  | cons p ps ih =>
    cases cs with
    | nil => simp [takeFixed?]
    | cons c cs =>
      by_cases hpc : p = c
      · by_cases hprefix : ps <+: cs <;> simp [takeFixed?, ih, hpc, hprefix, List.cons_prefix_cons]
      · simp [takeFixed?, hpc, List.cons_prefix_cons]

theorem match?_text (t : String) (cs : List Char) :
    (text t).match? cs = takeFixed? t.toList cs := by
  rw [takeFixed?_eq, match?]
  simp only [splits]
  split <;> rfl

theorem accepts_text {t : String} {c : Char} (h : t.toList = [c]) :
    Accepts (text t) fun x => x = c := by
  funext cs
  cases cs with
  | nil => simp [splits, single, h]
  | cons x cs =>
    by_cases hx : x = c
    · simp [splits, single, h, hx]
    · simp [splits, single, h, hx, Ne.symm hx, List.cons_prefix_cons]

theorem match?_name (cs : List Char) : name.match? cs = takeName? cs := by
  cases cs with
  | nil => exact accepts_nameStart.match?_seq_nil _
  | cons c cs =>
    rw [name, accepts_nameStart.match?_seq_cons, accepts_namePart.match?_many, takeName?]
    rfl

theorem Accepts.match?_plus {p : Pattern} {accepts : Char → Bool} (h : p.Accepts accepts)
    (cs : List Char) : (plus p).match? cs =
      if (cs.takeWhile accepts).isEmpty then none
      else some (cs.takeWhile accepts, cs.dropWhile accepts) := by
  cases cs with
  | nil => exact h.match?_seq_nil _
  | cons c cs =>
    rw [plus, h.match?_seq_cons, h.match?_many]
    cases hc : accepts c <;> simp [hc, prepend]

/-- Decimals are a point and digits; without a digit the point is not taken. -/
theorem match?_decimals (cs : List Char) : (optional (seq (text ".") (plus digit))).match? cs =
    match cs with
    | '.' :: rest =>
      if (rest.takeWhile Char.isDigit).isEmpty then some ([], '.' :: rest)
      else some ('.' :: rest.takeWhile Char.isDigit, rest.dropWhile Char.isDigit)
    | rest => some ([], rest) := by
  have hpoint : Accepts (text ".") fun x => x = '.' := accepts_text rfl
  rw [match?_optional]
  split
  · rename_i rest
    rw [hpoint.match?_seq_cons, if_pos (by decide), accepts_digit.match?_plus]
    split <;> rfl
  · rename_i hother
    cases cs with
    | nil => rw [hpoint.match?_seq_nil, Option.none_or]
    | cons c cs =>
      have hc : c ≠ '.' := fun h => hother cs (h ▸ rfl)
      rw [hpoint.match?_seq_cons, if_neg (by simpa using hc), Option.none_or]

theorem match?_decimal (cs : List Char) : decimal.match? cs = takeDecimal? cs := by
  have hwhole := accepts_digit.match?_plus cs
  have hdecimals := match?_decimals (cs.dropWhile Char.isDigit)
  unfold takeDecimal?
  dsimp only
  split
  · rename_i hempty
    rw [if_pos hempty] at hwhole
    exact match?_seq_of_nil (splits_eq_nil hwhole)
  · rename_i hempty
    rw [if_neg hempty] at hwhole
    split
    · rename_i rest heq
      rw [heq] at hwhole hdecimals
      simp only at hdecimals
      split at hdecimals
      · rename_i hnone
        rw [if_pos hnone, decimal, match?_seq_of_some hwhole hdecimals, prepend, List.append_nil]
      · rename_i hsome
        rw [if_neg hsome, decimal, match?_seq_of_some hwhole hdecimals, prepend]
    · rename_i rest hpoint
      split at hdecimals
      · rename_i rest' heq
        exact absurd heq (hpoint rest')
      · rw [decimal, match?_seq_of_some hwhole hdecimals, prepend, List.append_nil]

/-- Hexadecimal digits are taken only behind their mark. -/
theorem match?_unsigned (cs : List Char) :
    (alt hexadecimal decimal).match? cs = takeUnsigned? cs := by
  have hzero : Accepts (text "0") fun x => x = '0' := accepts_text rfl
  rw [match?_alt, match?_decimal, hexadecimal]
  unfold takeUnsigned?
  split
  · rename_i x d rest
    rw [hzero.match?_seq_cons, if_pos (by decide), accepts_hexMark.match?_seq_cons, plus,
      accepts_hexDigit.match?_seq_cons, accepts_hexDigit.match?_many]
    by_cases hmark : x = 'x' ∨ x = 'X'
    · by_cases hd : Text.isHexDigit d = true <;> simp [hmark, hd, prepend]
    · simp [hmark]
  · rename_i hother
    have hnone : (seq (text "0") (seq (oneOf [('x', 'x'), ('X', 'X')]) (plus hexDigit))).match? cs =
        none := by
      rcases cs with _ | ⟨z, _ | ⟨x, _ | ⟨d, rest⟩⟩⟩
      · exact hzero.match?_seq_nil _
      · simp [hzero.match?_seq_cons, accepts_hexMark.match?_seq_nil]
      · simp [hzero.match?_seq_cons, accepts_hexMark.match?_seq_cons, plus,
          accepts_hexDigit.match?_seq_nil]
      · have hz : z ≠ '0' := fun h => hother x d rest (h ▸ rfl)
        simp [hzero.match?_seq_cons, hz]
    rw [hnone, Option.none_or]

theorem match?_number (cs : List Char) : number.match? cs = takeNumber? cs := by
  have hminus : Accepts (text "-") fun x => x = '-' := accepts_text rfl
  have hsplits : (optional (text "-")).splits cs = single (fun x => x = '-') cs ++ [([], cs)] := by
    rw [splits, hminus]
  rw [number, match?_seq, hsplits]
  unfold takeNumber?
  split
  · rename_i rest
    -- what is tried without the sign fails on it
    have hnone : takeUnsigned? ('-' :: rest) = none := rfl
    have hsingle : single (fun x => x = '-') ('-' :: rest) = [(['-'], rest)] := rfl
    simp only [hsingle, List.cons_append, List.findSome?_cons, List.findSome?_nil, match?_unsigned,
      List.nil_append, hnone]
    cases takeUnsigned? rest <;> rfl
  · rename_i hother
    have hsingle : single (fun x => x = '-') cs = [] := by
      cases cs with
      | nil => rfl
      | cons c cs =>
        have hc : c ≠ '-' := fun h => hother cs (h ▸ rfl)
        exact if_neg (by simpa using hc)
    rw [hsingle, List.nil_append, List.findSome?_cons, match?_unsigned]
    cases takeUnsigned? cs <;> rfl

theorem splits_stringPart_escape (c : Char) (cs : List Char) :
    stringPart.splits ('\\' :: c :: cs) = if c = '\n' then [] else [(['\\', c], cs)] := by
  have hmark : "\\".toList = ['\\'] := rfl
  by_cases hc : c = '\n' <;> simp [stringPart, splits, hmark, single, hc, prepend]

theorem splits_stringPart_other {c : Char} (hc : c ≠ '\\') (cs : List Char) :
    stringPart.splits (c :: cs) = if c = '\x22' then [] else [([c], cs)] := by
  have hmark : "\\".toList = ['\\'] := rfl
  by_cases hquote : c = '\x22' <;>
    simp [stringPart, splits, hmark, single, hc, Ne.symm hc, hquote, List.cons_prefix_cons]

theorem match?_stringBody_of_nil {cs : List Char} (h : stringPart.splits cs = []) :
    (seq (many stringPart) (text "\x22")).match? cs = (text "\x22").match? cs := by
  rw [match?_seq, splits, repeated, h, List.flatMap_nil, List.nil_append, List.findSome?_cons,
    List.findSome?_nil]
  cases (text "\x22").match? cs <;> rfl

/-- A step that is taken must be followed by the rest of the string: without it the quote would
have to be next. -/
theorem match?_stringBody_of_step {cs : List Char} {s : Split} (h : stringPart.splits cs = [s])
    (hlt : s.2.length < cs.length) (hquote : (text "\x22").match? cs = none) :
    (seq (many stringPart) (text "\x22")).match? cs =
      ((seq (many stringPart) (text "\x22")).match? s.2).map (prepend s.1) := by
  have hassoc (t : Split) (u : Option Split) :
      u.map (prepend (prepend s.1 t).1) = (u.map (prepend t.1)).map (prepend s.1) := by
    cases u <;> simp [prepend]
  rw [match?_seq, splits, repeated, h, List.flatMap_singleton, dif_pos hlt, List.findSome?_append,
    List.findSome?_map, List.findSome?_cons, hquote, match?_seq, List.map_findSome?]
  simp only [Function.comp_def, hassoc]
  simp [prepend, splits]

theorem match?_stringBody (cs : List Char) :
    (seq (many stringPart) (text "\x22")).match? cs = takeStringBody? cs := by
  have hquote : Accepts (text "\x22") fun x => x = '\x22' := accepts_text rfl
  induction cs using takeStringBody?.induct with
  | case1 => exact (match?_stringBody_of_nil rfl).trans hquote.match?_nil
  | case2 rest =>
    rw [match?_stringBody_of_nil (by rw [splits_stringPart_other (by decide), if_pos rfl]),
      hquote.match?_cons, takeStringBody?]
    rfl
  | case3 rest =>
    rw [match?_stringBody_of_nil (by rw [splits_stringPart_escape, if_pos rfl]),
      hquote.match?_cons, takeStringBody?]
    rfl
  | case4 c rest hc ih =>
    rw [match?_stringBody_of_step (by rw [splits_stringPart_escape, if_neg hc])
      (by simp only [List.length_cons]; omega) (hquote.match?_cons _ _), ih, takeStringBody?, if_neg hc]
    rfl
  | case5 rest _ hrest =>
    obtain rfl : rest = [] := by
      cases rest with
      | nil => rfl
      | cons c rest => exact (hrest c rest rfl rfl).elim
    rw [match?_stringBody_of_nil (by rfl), hquote.match?_cons]
    rfl
  | case6 c rest hquoted _ hc ih =>
    have hstep : stringPart.splits (c :: rest) = [([c], rest)] := by
      rw [splits_stringPart_other hc, if_neg hquoted]
    have hnone : (text "\x22").match? (c :: rest) = none := by
      rw [hquote.match?_cons, if_neg (by simpa using hquoted)]
    rw [match?_stringBody_of_step hstep (by simp) hnone, ih, takeStringBody?]
    · rw [if_neg hc]
      rfl
    · exact hquoted
    · exact fun _ _ h => absurd h hc

theorem match?_string (cs : List Char) : string.match? cs = takeString? cs := by
  have hquote : Accepts (text "\x22") fun x => x = '\x22' := accepts_text rfl
  unfold takeString?
  split
  · rw [string, hquote.match?_seq_cons, if_pos (by decide), match?_stringBody]
    rfl
  · rename_i hother
    cases cs with
    | nil => exact hquote.match?_seq_nil _
    | cons c cs =>
      have hc : c ≠ '\x22' := fun h => hother cs (h ▸ rfl)
      rw [string, hquote.match?_seq_cons, if_neg (by simpa using hc)]

end Pattern

def Terminal.pattern : Terminal → Pattern
  | fixed text => .text text
  | name => .name
  | number => .number
  | string => .string

/-- **Terminals.**  Each one is taken as far as its pattern matches by itself. -/
theorem Terminal.match?_pattern (t : Terminal) (cs : List Char) :
    t.pattern.match? cs = t.take? cs := by
  cases t with
  | fixed text => exact Pattern.match?_text text cs
  | name => exact Pattern.match?_name cs
  | number => exact Pattern.match?_number cs
  | string => exact Pattern.match?_string cs

end Bindery.Source
