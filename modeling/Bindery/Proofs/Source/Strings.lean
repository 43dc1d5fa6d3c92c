import Bindery.Proofs.Source.Pattern
/-!
# Strings read back

Between its quotes a string consists of plain characters and of backslashes that take the next
character with them (`StringBody`).  Every quote inside belongs to a backslash, so it does not matter
that escaped quotes are resolved first and escaped backslashes after them: the result is that of one
pass from left to right (`StringBody.decodeLiteral_eq`).  The literal of a text is a string, which
stands for the text (`match?_stringLiteral`, `stringValue_stringLiteral`).
-/

namespace Bindery.Source

open Text (decodeLiteral encodeLiteral escapeChar replacePair stringLiteral)

/-! ### Inside a string -/

/-- The inside of a string. -/
inductive StringBody : List Char → Prop
  | nil : StringBody []
  | escape {c : Char} {cs : List Char} (hfeed : c ≠ '\n') (hcs : StringBody cs) :
    StringBody ('\\' :: c :: cs)
  | plain {c : Char} {cs : List Char} (hquote : c ≠ '\x22') (hslash : c ≠ '\\')
    (hcs : StringBody cs) : StringBody (c :: cs)

theorem StringBody.head?_ne {body : List Char} (h : StringBody body) :
    body.head? ≠ some '\x22' := by
  cases h with
  | nil => exact nofun
  | escape => simp
  | plain hquote => simpa using hquote

/-- A string is read up to the first quote that is not escaped. -/
theorem takeStringBody?_eq_some {cs taken rest : List Char} :
    takeStringBody? cs = some (taken, rest) ↔
      ∃ body, StringBody body ∧ taken = body ++ ['\x22'] ∧ cs = body ++ '\x22' :: rest := by
  constructor
  · intro h
    induction cs using takeStringBody?.induct generalizing taken with
    | case1 => cases h
    | case2 rest' =>
      rw [takeStringBody?] at h
      cases h
      exact ⟨[], .nil, rfl, rfl⟩
    | case3 rest' => simp [takeStringBody?] at h
    | case4 c rest' hfeed ih =>
      rw [takeStringBody?, if_neg hfeed] at h
      obtain ⟨⟨taken', rest''⟩, htake, heq⟩ := Option.map_eq_some_iff.1 h
      cases heq
      obtain ⟨body, hbody, rfl, rfl⟩ := ih htake
      exact ⟨'\\' :: c :: body, .escape hfeed hbody, rfl, rfl⟩
    | case5 rest' _ hrest =>
      cases rest' with
      | nil => simp [takeStringBody?] at h
      | cons c rest' => exact (hrest c rest' rfl rfl).elim
    | case6 c rest' hquote hescape hslash ih =>
      rw [takeStringBody?, if_neg hslash] at h
      · obtain ⟨⟨taken', rest''⟩, htake, heq⟩ := Option.map_eq_some_iff.1 h
        cases heq
        obtain ⟨body, hbody, rfl, rfl⟩ := ih htake
        exact ⟨c :: body, .plain hquote hslash hbody, rfl, rfl⟩
      · exact hquote
      · exact fun _ _ h => absurd h hslash
  · rintro ⟨body, hbody, rfl, rfl⟩
    induction hbody with
    | nil => rfl
    | escape hfeed _ ih =>
      rw [List.cons_append, List.cons_append, takeStringBody?, if_neg hfeed, ih]
      rfl
    | plain hquote hslash _ ih =>
      rw [List.cons_append, takeStringBody?, if_neg hslash, ih]
      · rfl
      · exact hquote
      · exact fun _ _ h => absurd h hslash

theorem takeString?_eq_some {cs taken rest : List Char} :
    takeString? cs = some (taken, rest) ↔
      ∃ body, StringBody body ∧ taken = '\x22' :: (body ++ ['\x22']) ∧ cs = taken ++ rest := by
  constructor
  · intro h
    unfold takeString? at h
    split at h
    · obtain ⟨⟨taken', rest'⟩, htake, heq⟩ := Option.map_eq_some_iff.1 h
      cases heq
      obtain ⟨body, hbody, rfl, rfl⟩ := takeStringBody?_eq_some.1 htake
      exact ⟨body, hbody, rfl, by simp⟩
    · cases h
  · rintro ⟨body, hbody, rfl, rfl⟩
    have htake : takeStringBody? (body ++ '\x22' :: rest) = some (body ++ ['\x22'], rest) :=
      takeStringBody?_eq_some.2 ⟨body, hbody, rfl, rfl⟩
    rw [List.cons_append, List.append_assoc, List.singleton_append, takeString?, htake]
    rfl

/-! ### Resolving escapes -/

/-- Escapes resolved in one pass from left to right.  A backslash before a character that needs none
stays. -/
def unescape : List Char → List Char
  | '\\' :: c :: rest =>
    if c = '\\' ∨ c = '\x22' then c :: unescape rest else '\\' :: c :: unescape rest
  | c :: rest => c :: unescape rest
  | [] => []

theorem unescape_cons {c : Char} (h : c ≠ '\\') (cs : List Char) :
    unescape (c :: cs) = c :: unescape cs := by
  rw [unescape]
  exact fun _ _ hc => absurd hc h

section Replacing

variable {a b c x : Char} {cs : List Char}

theorem replacePair_cons_cons : replacePair a b c (a :: b :: cs) = c :: replacePair a b c cs := by
  rw [replacePair, if_pos ⟨rfl, rfl⟩]

theorem replacePair_cons (h : x = a → cs.head? ≠ some b) :
    replacePair a b c (x :: cs) = x :: replacePair a b c cs := by
  cases cs with
  | nil => rfl
  | cons y cs =>
    rw [replacePair, if_neg]
    rintro ⟨hx, hy⟩
    exact h hx (congrArg some hy)

end Replacing

/-- Resolving quotes first and backslashes after them is one pass from left to right. -/
theorem StringBody.decodeLiteral_eq {body : List Char} (h : StringBody body) :
    decodeLiteral body = unescape body := by
  unfold decodeLiteral
  induction h with
  | nil => rfl
  | @escape c cs hfeed hcs ih =>
    rw [unescape]
    by_cases hquote : c = '\x22'
    · subst hquote
      have hslash : '\x22' ≠ '\\' := by decide
      rw [replacePair_cons_cons, replacePair_cons fun h => absurd h hslash, ih]
      rfl
    · rw [replacePair_cons fun _ => by simpa using hquote]
      by_cases hslash : c = '\\'
      · -- an escaped backslash: what follows does not begin with a quote
        subst hslash
        rw [replacePair_cons fun _ => hcs.head?_ne, replacePair_cons_cons, ih]
        rfl
      · rw [replacePair_cons fun h => absurd h hslash, replacePair_cons fun _ => by simpa using hslash,
          replacePair_cons fun h => absurd h hslash, ih, if_neg (not_or.2 ⟨hslash, hquote⟩)]
  | plain hquote hslash hcs ih =>
    rw [unescape_cons hslash, replacePair_cons fun h => absurd h hslash,
      replacePair_cons fun h => absurd h hslash, ih]

/-! ### Literals -/

theorem stringBody_escaped (cs : List Char) : StringBody (cs.flatMap escapeChar) := by
  induction cs with
  | nil => exact .nil
  | cons c cs ih =>
    rw [List.flatMap_cons, escapeChar]
    split
    · rename_i hc
      exact .escape (by rcases hc with rfl | rfl <;> decide) ih
    · rename_i hc
      rw [not_or] at hc
      exact .plain hc.2 hc.1 ih

theorem unescape_escaped (cs : List Char) : unescape (cs.flatMap escapeChar) = cs := by
  induction cs with
  | nil => rfl
  | cons c cs ih =>
    rw [List.flatMap_cons, escapeChar]
    split
    · rename_i hc
      rw [List.cons_append, List.singleton_append, unescape, if_pos hc, ih]
    · rename_i hc
      rw [List.singleton_append, unescape_cons (not_or.1 hc).1, ih]

theorem toList_stringLiteral (text : String) : (stringLiteral text).toList =
    '\x22' :: (text.toList.flatMap escapeChar ++ ['\x22']) := by
  rw [stringLiteral, String.toList_ofList, encodeLiteral, List.cons_append]

theorem match?_stringLiteral (text : String) (rest : List Char) :
    Pattern.string.match? ((stringLiteral text).toList ++ rest) =
      some ((stringLiteral text).toList, rest) := by
  rw [Pattern.match?_string]
  exact takeString?_eq_some.2 ⟨_, stringBody_escaped text.toList, toList_stringLiteral text, rfl⟩

theorem stringValue_quoted (body : List Char) :
    stringValue ('\x22' :: (body ++ ['\x22'])) = .text (.ofList (decodeLiteral body)) := by
  rw [stringValue, List.drop_one, List.tail_cons, List.dropLast_concat]

/-- The literal of a text stands for the text. -/
theorem stringValue_stringLiteral (text : String) :
    stringValue (stringLiteral text).toList = .text text := by
  rw [toList_stringLiteral, stringValue_quoted, (stringBody_escaped _).decodeLiteral_eq,
    unescape_escaped, String.ofList_toList]

/-- Of every string, the value is what one pass from left to right makes of its inside. -/
theorem stringValue_of_match? {cs taken rest : List Char}
    (h : Pattern.string.match? cs = some (taken, rest)) :
    ∃ body, taken = '\x22' :: (body ++ ['\x22']) ∧
      stringValue taken = .text (.ofList (decodeLiteral body)) ∧ decodeLiteral body = unescape body := by
  rw [Pattern.match?_string] at h
  obtain ⟨body, hbody, rfl, -⟩ := takeString?_eq_some.1 h
  exact ⟨body, rfl, stringValue_quoted body, hbody.decodeLiteral_eq⟩

end Bindery.Source
