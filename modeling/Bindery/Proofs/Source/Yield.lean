import Bindery.Proofs.Source.Layout
/-!
# The terminals of a text

The grammar as data: each rule has a name (`Symbol`) and a right side (`production`), and yields
sequences of terminals with their characters (`Phrase.Yields`).  Terminals are `Laid` in a text one
behind the other, each behind all the layout there is and taken as far as it reaches.
-/

namespace Bindery.Source

/-! ### Right sides of rules -/

inductive Symbol
  | start | namespaceBlock | definition | attribute | arguments | argument
  | structDef | unionDef | generics | member | nested | field | constant | literal
  | type | pointerType | arrayType | namedType | dottedName
  | enumDef | enumItem | delegateDef | interfaceDef | classDef
  deriving DecidableEq, Repr

/-- What a rule consists of. -/
inductive Phrase
  | terminal (t : Terminal)
  | rule (s : Symbol)
  | seq (p q : Phrase)
  | alt (p q : Phrase)
  | optional (p : Phrase)
  | many (p : Phrase)

namespace Phrase

def mark (text : String) : Phrase := terminal (.fixed text)

def name : Phrase := terminal .name

def number : Phrase := terminal .number

def string : Phrase := terminal .string

def inOrder (p : Phrase) : List Phrase → Phrase
  | [] => p
  | q :: qs => seq p (inOrder q qs)

def oneOf (p : Phrase) : List Phrase → Phrase
  | [] => p
  | q :: qs => alt p (oneOf q qs)

/-- A phrase any number of times, each time behind a mark. -/
def manyAfter (text : String) (p : Phrase) : Phrase := many (seq (mark text) p)

/-- The members of a struct or union and what stands before them. -/
def aggregate (keyword : String) : Phrase :=
  inOrder (mark keyword) [name, optional (rule .generics), mark "\x7b", many (rule .member), mark "\x7d"]

def bodiless (keyword : String) : Phrase := inOrder (mark keyword) [name, mark ";"]

end Phrase

open Phrase in
/-- The right sides of the rules. -/
def production : Symbol → Phrase
  | .start => many (rule .namespaceBlock)
  | .namespaceBlock =>
    inOrder (mark "namespace") [rule .dottedName, mark "\x7b", many (rule .definition), mark "\x7d"]
  | .definition => inOrder (many (rule .attribute)) [optional (mark "winrt"),
      oneOf (rule .structDef) [rule .unionDef, rule .enumDef, rule .delegateDef, rule .interfaceDef,
        rule .classDef]]
  | .attribute => inOrder (mark "[") [name, optional (rule .arguments), mark "]"]
  | .arguments => inOrder (mark "(") [optional (seq (rule .argument) (manyAfter "," (rule .argument))), mark ")"]
  | .argument => oneOf string [number, name]
  | .structDef => aggregate "struct"
  | .unionDef => aggregate "union"
  | .generics => inOrder (mark "<") [name, manyAfter "," name, mark ">"]
  | .member => oneOf (rule .field) [rule .constant, rule .nested]
  | .nested => seq (many (rule .attribute)) (alt (rule .structDef) (rule .unionDef))
  | .field => inOrder name [mark ":", rule .type, mark ";"]
  | .constant =>
    inOrder (mark "const") [name, mark ":", name, mark "=", rule .literal, mark ";"]
  | .literal => alt string number
  | .type => oneOf (rule .pointerType) [rule .arrayType, rule .namedType]
  | .pointerType => seq (alt (mark "*mut") (mark "*const")) (rule .type)
  | .arrayType => inOrder (mark "[") [rule .type, mark ";", number, mark "]"]
  | .namedType => rule .dottedName
  | .dottedName => seq name (manyAfter "." name)
  | .enumDef => inOrder (mark "enum") [name, optional (seq (mark ":") name), mark "\x7b",
      optional (inOrder (rule .enumItem) [manyAfter "," (rule .enumItem), optional (mark ",")]),
      mark "\x7d"]
  | .enumItem => seq name (optional (seq (mark "=") number))
  | .delegateDef => bodiless "delegate"
  | .interfaceDef => bodiless "interface"
  | .classDef => bodiless "class"

/-! ### Words -/

/-- A terminal with the characters that stand for it. -/
structure Word where
  kind : Terminal
  text : List Char
  deriving DecidableEq, Repr

namespace Phrase

/-- The sequences of terminals that a phrase yields. -/
inductive Yields : Phrase → List Word → Prop
  | terminal (w : Word) : Yields (terminal w.kind) [w]
  | rule {s : Symbol} {ws : List Word} : Yields (production s) ws → Yields (rule s) ws
  | seq {p q : Phrase} {us vs : List Word} : Yields p us → Yields q vs → Yields (seq p q) (us ++ vs)
  | left {p q : Phrase} {ws : List Word} : Yields p ws → Yields (alt p q) ws
  | right {p q : Phrase} {ws : List Word} : Yields q ws → Yields (alt p q) ws
  | absent {p : Phrase} : Yields (optional p) []
  | present {p : Phrase} {ws : List Word} : Yields p ws → Yields (optional p) ws
  | done {p : Phrase} : Yields (many p) []
  | more {p : Phrase} {us vs : List Word} : Yields p us → Yields (many p) vs →
    Yields (many p) (us ++ vs)

variable {p q : Phrase} {s : Symbol} {t : Terminal} {ws : List Word}

@[simp] theorem yields_terminal : (terminal t).Yields ws ↔ ∃ text, ws = [⟨t, text⟩] := by
  constructor
  · rintro ⟨w⟩
    exact ⟨w.text, rfl⟩
  · rintro ⟨text, rfl⟩
    exact .terminal ⟨t, text⟩

@[simp] theorem yields_rule : (rule s).Yields ws ↔ (production s).Yields ws := by
  refine ⟨fun h => ?_, .rule⟩
  cases h with
  | rule h => exact h

@[simp] theorem yields_seq :
    (seq p q).Yields ws ↔ ∃ us vs, p.Yields us ∧ q.Yields vs ∧ ws = us ++ vs := by
  constructor
  · intro h
    cases h with
    | seq hp hq => exact ⟨_, _, hp, hq, rfl⟩
  · rintro ⟨us, vs, hp, hq, rfl⟩
    exact .seq hp hq

@[simp] theorem yields_alt : (alt p q).Yields ws ↔ p.Yields ws ∨ q.Yields ws := by
  refine ⟨fun h => ?_, fun h => h.elim .left .right⟩
  cases h with
  | left h => exact .inl h
  | right h => exact .inr h

@[simp] theorem yields_optional : (optional p).Yields ws ↔ ws = [] ∨ p.Yields ws := by
  constructor
  · intro h
    cases h with
    | absent => exact .inl rfl
    | present h => exact .inr h
  · rintro (rfl | h)
    · exact .absent
    · exact .present h

theorem exists_parts_of_many (h : (many p).Yields ws) :
    ∃ parts : List (List Word), (∀ part ∈ parts, p.Yields part) ∧ ws = parts.flatten := by
  generalize hq : many p = q at h
  induction h with
  | done => exact ⟨[], nofun, rfl⟩
  | more hpart _ _ ih =>
    cases hq
    obtain ⟨parts, hparts, rfl⟩ := ih rfl
    exact ⟨_ :: parts, List.forall_mem_cons.2 ⟨hpart, hparts⟩, rfl⟩
  | terminal | rule | seq | left | right | absent | present => cases hq

/-! ### The same words -/

/-- Phrases that yield the same words. -/
def Alike (p q : Phrase) : Prop := ∀ ws, p.Yields ws ↔ q.Yields ws

theorem alike_alt_assoc (p q r : Phrase) : (alt p (alt q r)).Alike (alt (alt p q) r) := by
  intro ws
  simp only [yields_alt, or_assoc]

/-- Two phrases that end alike, with their end put behind the choice between their beginnings. -/
theorem alike_factor (k l p q r : Phrase) : (alt (seq k (seq p (seq q r))) (seq l (seq p (seq q r)))).Alike
    (seq (seq (alt k l) (seq p q)) r) := by
  intro ws
  simp only [yields_alt, yields_seq]
  constructor
  · rintro (⟨ks, _, hk, ⟨ps, _, hp, ⟨qs, rs, hq, hr, rfl⟩, rfl⟩, rfl⟩ |
      ⟨ks, _, hk, ⟨ps, _, hp, ⟨qs, rs, hq, hr, rfl⟩, rfl⟩, rfl⟩)
    · exact ⟨_, rs, ⟨ks, _, .inl hk, ⟨ps, qs, hp, hq, rfl⟩, rfl⟩, hr, by simp⟩
    · exact ⟨_, rs, ⟨ks, _, .inr hk, ⟨ps, qs, hp, hq, rfl⟩, rfl⟩, hr, by simp⟩
  · rintro ⟨_, rs, ⟨ks, _, hk, ⟨ps, qs, hp, hq, rfl⟩, rfl⟩, hr, rfl⟩
    have hwords : ks ++ (ps ++ qs) ++ rs = ks ++ (ps ++ (qs ++ rs)) := by simp
    exact hk.imp (fun hk => ⟨ks, _, hk, ⟨ps, _, hp, ⟨qs, rs, hq, hr, rfl⟩, rfl⟩, hwords⟩)
      fun hk => ⟨ks, _, hk, ⟨ps, _, hp, ⟨qs, rs, hq, hr, rfl⟩, rfl⟩, hwords⟩

/-! ### Words that start like terminals -/

/-- Only terminals that start unlike layout stand in the phrase itself. -/
def opens : Phrase → Bool
  | terminal t => t.opens
  | rule _ => true
  | seq p q | alt p q => p.opens && q.opens
  | optional p | many p => p.opens

end Phrase

theorem opens_production (s : Symbol) : (production s).opens := by cases s <;> rfl

theorem Phrase.Yields.opens {p : Phrase} {ws : List Word} (h : p.Yields ws) (hp : p.opens) :
    ∀ w ∈ ws, w.kind.opens := by
  induction h with
  | terminal w => exact List.forall_mem_singleton.2 hp
  | rule _ ih => exact ih (opens_production _)
  | seq _ _ ihp ihq =>
    rw [Phrase.opens, Bool.and_eq_true] at hp
    exact List.forall_mem_append.2 ⟨ihp hp.1, ihq hp.2⟩
  | left _ ih =>
    rw [Phrase.opens, Bool.and_eq_true] at hp
    exact ih hp.1
  | right _ ih =>
    rw [Phrase.opens, Bool.and_eq_true] at hp
    exact ih hp.2
  | absent | done => exact nofun
  | present _ ih => exact ih hp
  | more _ _ ihp ih => exact List.forall_mem_append.2 ⟨ihp hp, ih hp⟩

/-! ### Words in a text -/

/-- A text without the layout at its start. -/
def skip (cs : List Char) : List Char := (layoutSpan false cs).2

theorem skip_of_opensTerminal {c : Char} (h : opensTerminal c) (cs : List Char) :
    skip (c :: cs) = c :: cs := by
  rw [skip, layoutSpan_of_opensTerminal h]

theorem length_skip (cs : List Char) : (skip cs).length ≤ cs.length :=
  Cursor.length_skipLayout ⟨0, cs⟩

/-- The words stand one behind the other in the first text, each behind all the layout there is, and
leave the second one. -/
inductive Laid : List Word → List Char → List Char → Prop
  | nil {cs : List Char} : Laid [] cs cs
  | cons {w : Word} {ws : List Word} {cs ds es : List Char} (hopens : w.kind.opens)
    (htake : w.kind.take? (skip cs) = some (w.text, ds)) (hrest : Laid ws ds es) : Laid (w :: ws) cs es

namespace Laid

variable {us vs ws : List Word} {cs ds es : List Char}

theorem append (hu : Laid us cs ds) (hv : Laid vs ds es) : Laid (us ++ vs) cs es := by
  induction hu with
  | nil => exact hv
  | cons hopens htake _ ih => exact .cons hopens htake (ih hv)

theorem exists_of_append (h : Laid (us ++ vs) cs es) : ∃ ds, Laid us cs ds ∧ Laid vs ds es := by
  induction us generalizing cs with
  | nil => exact ⟨cs, .nil, h⟩
  | cons u us ih =>
    obtain _ | ⟨hopens, htake, hrest⟩ := h
    obtain ⟨ds, hus, hvs⟩ := ih hrest
    exact ⟨ds, .cons hopens htake hus, hvs⟩

theorem length_le (h : Laid ws cs ds) : ds.length + ws.length ≤ cs.length := by
  induction h with
  | nil => exact Nat.le_refl _
  | @cons w ws cs ds es hopens htake _ ih =>
    obtain ⟨x, xs, hx, -⟩ := w.kind.exists_of_take? hopens htake
    have happend := congrArg List.length
      (Pattern.append_of_match? ((w.kind.match?_pattern _).trans htake))
    have hskip := length_skip cs
    simp only [hx, List.length_append, List.length_cons] at happend ⊢
    omega

end Laid

end Bindery.Source
