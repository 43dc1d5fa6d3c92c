import Mathlib
import Bindery.Proofs.FieldType.Alike
/-!
# Structs inside structs

What the search for blittable structs finds, told by the structs that a struct holds by value,
directly or through others (`WellFormed.isBlittable_struct`).  A struct is blittable if nothing
inside it holds itself and every other field inside it is blittable.  The search leaves out the
structs that it is looking at, and those are the ones that hold the struct it has come to
(`Pending`); so it takes no struct that it meets twice for one that holds itself.
-/

namespace Bindery

open Relation

/-! ### Fields by value -/

namespace FieldType

/-- Whether a type is of values that are more than their bytes: texts, objects, interfaces, classes,
WinRT delegates, and whatever a generic parameter stands for. -/
def isHandle (t : FieldType) : Bool :=
  match t.base with
  | .primitive p => p = .string || p = .object
  | .generic _ => true
  | .named n =>
    match n.category with
    | .struct | .enum => false
    | .delegate => n.winrt
    | .interface | .runtimeClass => true

def isStruct (t : FieldType) : Bool := t.category? = some .struct

variable {t : FieldType}

theorem isStruct_iff : t.isStruct = true ↔ ∃ n, t.base = .named n ∧ n.category = .struct := by
  unfold isStruct category? target?
  cases t.base <;> simp

theorem simpleBlittable_eq_not (h : t.isStruct = false) : t.simpleBlittable = !t.isHandle := by
  unfold simpleBlittable isHandle
  cases hbase : t.base with
  | primitive p => cases p <;> rfl
  | generic name => rfl
  | named n =>
    have hcategory : n.category ≠ .struct := fun hn =>
      absurd (isStruct_iff.2 ⟨n, hbase, hn⟩) (by simp [h])
    cases hn : n.category <;> simp_all

theorem blittableWith_of_not_isStruct {struct : Place → Except Error Bool}
    (h : t.isStruct = false) (hpointers : t.pointers = 0) :
    t.blittableWith struct = .ok (!t.isHandle) := by
  rw [← simpleBlittable_eq_not h, blittableWith, if_neg (by omega)]
  split
  · rename_i n hn
    exact if_neg fun hcategory => absurd (isStruct_iff.2 ⟨n, hn, hcategory⟩) (by simp [h])
  · rfl

theorem isStruct_of_isHandle (h : t.isHandle = true) : t.isStruct = false := by
  rw [Bool.eq_false_iff]
  intro hstruct
  obtain ⟨n, hn, hcategory⟩ := isStruct_iff.1 hstruct
  simp [isHandle, hn, hcategory] at h

/-- A test that does not say yes has the result of a struct, or has come to a handle. -/
theorem of_blittableWith_ne {struct : Place → Except Error Bool} {r : Except Error Bool}
    (hnonneg : 0 ≤ t.pointers) (h : t.blittableWith struct = r) (hr : r ≠ .ok true) :
    t.pointers = 0 ∧ ((∃ n, t.base = .named n ∧ n.category = .struct ∧ struct n.place = r) ∨
      (t.isHandle = true ∧ r = .ok false)) := by
  have hpointers : t.pointers = 0 := by
    by_contra hne
    rw [blittableWith, if_pos (by omega)] at h
    exact hr h.symm
  refine ⟨hpointers, ?_⟩
  cases hstruct : t.isStruct with
  | true =>
    obtain ⟨n, hn, hcategory⟩ := isStruct_iff.1 hstruct
    rw [blittableWith, if_neg (by omega), hn] at h
    dsimp only at h
    rw [if_pos hcategory] at h
    exact .inl ⟨n, hn, hcategory, h⟩
  | false =>
    rw [blittableWith_of_not_isStruct hstruct hpointers] at h
    cases hhandle : t.isHandle with
    | true => exact .inr ⟨rfl, by rw [← h, hhandle]; rfl⟩
    | false => exact absurd (by rw [← h, hhandle]; rfl) hr

end FieldType

namespace Registry

variable {reg : Registry} {u : List Place} {p q : Place} {d : Definition} {t : FieldType}

/-- The definition at a place has a stored field of a type that is no pointer.  Pointers recorded
for a delegate do not count. -/
def HasByValue (reg : Registry) (p : Place) (t : FieldType) : Prop :=
  ∃ d f type u, reg.find? p = some d ∧ f ∈ d.fields ∧ f.kind = .stored type ∧
    reg.resolveStored (.of p [] none) f type = .ok u ∧ u.fixDelegate = t ∧ t.pointers = 0

/-- Every stored field of the definition at a place has a type. -/
def Resolves (reg : Registry) (p : Place) : Prop :=
  ∀ d f type, reg.find? p = some d → f ∈ d.fields → f.kind = .stored type →
    ∃ t, reg.resolveStored (.of p [] none) f type = .ok t

def IsStructAt (reg : Registry) (p : Place) : Prop :=
  ∃ d, reg.find? p = some d ∧ d.category = .struct

theorem Holds.isStructAt (h : reg.Holds p q) : reg.IsStructAt q := by
  obtain ⟨n, ⟨d, f, type, t, -, -, -, ht, hn, hcategory, -⟩, rfl⟩ := h
  obtain ⟨e, he, hname⟩ := has_of_resolveStored ht hn
  rw [hname] at hcategory
  exact ⟨e, he, hcategory⟩

theorem isStructAt_of_reflTransGen (hp : reg.IsStructAt p) (h : ReflTransGen reg.Holds p q) :
    reg.IsStructAt q := by
  rcases ReflTransGen.cases_tail h with rfl | ⟨r, -, hr⟩
  · exact hp
  · exact hr.isStructAt

theorem HasByValue.pointers_eq (h : reg.HasByValue p t) : t.pointers = 0 := by
  obtain ⟨-, -, -, -, -, -, -, -, -, hpointers⟩ := h
  exact hpointers

/-- What is held by value is what fields by value are of. -/
theorem holds_iff : reg.Holds p q ↔
    ∃ t n, reg.HasByValue p t ∧ t.base = .named n ∧ n.category = .struct ∧ n.place = q := by
  constructor
  · rintro ⟨n, ⟨d, f, type, t, hd, hf, hkind, ht, hn, hcategory, hpointers⟩, rfl⟩
    have hfix := FieldType.fixDelegate_of_struct hn hcategory
    exact ⟨t, n, ⟨d, f, type, t, hd, hf, hkind, ht, hfix, hpointers⟩, hn, hcategory, rfl⟩
  · rintro ⟨t, n, ⟨d, f, type, u, hd, hf, hkind, hu, rfl, hpointers⟩, hn, hcategory, rfl⟩
    rw [FieldType.base_fixDelegate] at hn
    rw [FieldType.fixDelegate_of_struct hn hcategory] at hpointers
    exact ⟨n, ⟨d, f, type, u, hd, hf, hkind, hu, hn, hcategory, hpointers⟩, rfl⟩

/-! ### What the search finds -/

/-- The definitions that have been left out of the search hold the one it has come to. -/
def Pending (reg : Registry) (u : List Place) (p : Place) : Prop :=
  ∀ q ∈ reg.places, q ∉ u → TransGen reg.Holds q p

theorem pending_places (reg : Registry) (p : Place) : reg.Pending reg.places p :=
  fun _ hq hnot => absurd hq hnot

/-- A struct is left out when the search goes on to what it holds. -/
theorem Pending.step (h : reg.Pending u p) (hpq : reg.Holds p q) : reg.Pending (u.erase p) q := by
  intro r hr hnot
  by_cases hrp : r = p
  · exact hrp ▸ .single hpq
  · exact (h r hr (mt (List.mem_erase_of_ne hrp).2 hnot)).tail hpq

theorem of_blittableWithin_ne {r : Except Error Bool} (hp : reg.IsStructAt p) (hu : p ∈ u)
    (hresolves : reg.Resolves p) (h : reg.blittableWithin u p = r) (hr : r ≠ .ok true) :
    (∃ q, reg.Holds p q ∧ reg.blittableWithin (u.erase p) q = r) ∨
      (r = .ok false ∧ ∃ t, reg.HasByValue p t ∧ t.isHandle = true) := by
  obtain ⟨d, hd, hstruct⟩ := hp
  rw [blittableWithin_eq hd, if_neg (by simpa using hstruct), if_pos hu] at h
  obtain ⟨⟨f, type⟩, hf, h⟩ := exists_of_allM_ne h hr
  obtain ⟨hf, hkind⟩ := Definition.mem_stored.1 hf
  obtain ⟨t, ht⟩ := hresolves d f type hd hf hkind
  dsimp only at h
  rw [ht] at h
  obtain ⟨hpointers, h⟩ := FieldType.of_blittableWith_ne (pointers_fixDelegate_nonneg ht) h hr
  have hhas : reg.HasByValue p t.fixDelegate := ⟨d, f, type, t, hd, hf, hkind, ht, rfl, hpointers⟩
  rcases h with ⟨n, hn, hcategory, h⟩ | ⟨hhandle, hfalse⟩
  · exact .inl ⟨n.place, holds_iff.2 ⟨_, n, hhas, hn, hcategory, rfl⟩, h⟩
  · exact .inr ⟨hfalse, _, hhas, hhandle⟩

/-- A search that does not say yes has come to a handle, or to a struct that holds itself. -/
theorem Pending.of_blittableWithin_ne {r : Except Error Bool} (hpending : reg.Pending u p)
    (hp : reg.IsStructAt p) (hresolves : ∀ q, ReflTransGen reg.Holds p q → reg.Resolves q)
    (h : reg.blittableWithin u p = r) (hr : r ≠ .ok true) :
    ∃ q, ReflTransGen reg.Holds p q ∧
      ((r = .ok false ∧ ∃ t, reg.HasByValue q t ∧ t.isHandle = true) ∨
        (r = .error (.containsItself q.qualifiedName) ∧ TransGen reg.Holds q q)) := by
  -- on how many definitions are left: the search goes on without the struct that it has entered
  induction hlen : u.length using Nat.strongRecOn generalizing u p with
  | ind k ih =>
    subst hlen
    by_cases hu : p ∈ u
    · rcases Registry.of_blittableWithin_ne hp hu (hresolves p .refl) h hr with
        ⟨q, hpq, hq⟩ | hhandle
      · obtain ⟨s, hqs, hs⟩ := ih _ (length_erase_lt hu) (hpending.step hpq) hpq.isStructAt
          (fun s hs => hresolves s (.head hpq hs)) hq rfl
        exact ⟨s, .head hpq hqs, hs⟩
      · exact ⟨p, .refl, .inl hhandle⟩
    · obtain ⟨d, hd, hstruct⟩ := hp
      rw [blittableWithin_eq hd, if_neg (by simpa using hstruct), if_neg hu] at h
      exact ⟨p, .refl, .inr ⟨h.symm, hpending p (mem_places_of_find? hd) hu⟩⟩

theorem blittableWith_of_hasByValue (hp : reg.IsStructAt p) (h : reg.blittableWithin u p = .ok true)
    (ht : reg.HasByValue p t) : t.blittableWith (reg.blittableWithin (u.erase p)) = .ok true := by
  obtain ⟨d, hd, hstruct⟩ := hp
  obtain ⟨d', f, type, s, hd', hf, hkind, hs, rfl, -⟩ := ht
  cases hd.symm.trans hd'
  obtain ⟨-, hfields⟩ := (blittableWithin_struct hd hstruct).1 h
  obtain ⟨s', hs', htest⟩ := hfields f hf type hkind
  cases hs.symm.trans hs'
  exact htest

/-- What a blittable struct holds is blittable, and that is found without coming back to the struct.
-/
theorem blittableWithin_of_holds (hp : reg.IsStructAt p) (h : reg.blittableWithin u p = .ok true)
    (hpq : reg.Holds p q) : reg.blittableWithin (u.erase p) q = .ok true := by
  obtain ⟨t, n, ht, hn, hcategory, rfl⟩ := holds_iff.1 hpq
  have htest := blittableWith_of_hasByValue hp h ht
  rw [FieldType.blittableWith, if_neg (by rw [ht.pointers_eq]; decide), hn] at htest
  dsimp only at htest
  rwa [if_pos hcategory] at htest

theorem blittableWithin_of_reflTransGen (hp : reg.IsStructAt p)
    (h : reg.blittableWithin u p = .ok true) (hpq : ReflTransGen reg.Holds p q) :
    reg.blittableWithin u q = .ok true := by
  induction hpq with
  | refl => exact h
  | tail hpr hrq ih =>
    exact blittableWithin_mono (List.erase_subperm _ _)
      (blittableWithin_of_holds (isStructAt_of_reflTransGen hp hpr) ih hrq)

theorem not_transGen_of_blittableWithin (hu : u.Nodup) (hp : reg.IsStructAt p)
    (h : reg.blittableWithin u p = .ok true) : ¬ TransGen reg.Holds p p := by
  intro hcycle
  obtain ⟨q, hpq, hqp⟩ := TransGen.head'_iff.1 hcycle
  have hagain : reg.blittableWithin (u.erase p) p = .ok true :=
    blittableWithin_of_reflTransGen hpq.isStructAt (blittableWithin_of_holds hp h hpq) hqp
  obtain ⟨d, hd, hstruct⟩ := hp
  exact hu.not_mem_erase ((blittableWithin_struct hd hstruct).1 hagain).1

/-- **Blittable structs.**  When all fields inside a struct have a type, the search for it says yes
if and only if nothing inside it holds itself and every other field by value inside it is blittable.
It says no only if there is a text, an object, an interface, a class, a WinRT delegate or a generic
parameter by value inside; and it fails only at a struct inside that holds itself. -/
theorem WellFormed.isBlittable_struct (hreg : reg.WellFormed) (hp : reg.IsStructAt p)
    (hresolves : ∀ q, ReflTransGen reg.Holds p q → reg.Resolves q) :
    (reg.isBlittable p = .ok true ↔
      (∀ q, ReflTransGen reg.Holds p q → ¬ TransGen reg.Holds q q) ∧
      ∀ q t, ReflTransGen reg.Holds p q → reg.HasByValue q t → t.isStruct = false →
        t.isBlittable reg = .ok true) ∧
    (reg.isBlittable p = .ok false →
      ∃ q t, ReflTransGen reg.Holds p q ∧ reg.HasByValue q t ∧ t.isHandle = true) ∧
    ∀ e, reg.isBlittable p = .error e →
      ∃ q, e = .containsItself q.qualifiedName ∧ ReflTransGen reg.Holds p q ∧
        TransGen reg.Holds q q := by
  have hne : ∀ r, reg.isBlittable p = r → r ≠ .ok true → _ := fun r h hr =>
    (reg.pending_places p).of_blittableWithin_ne hp hresolves h hr
  refine ⟨⟨fun h => ⟨fun q hq => ?_, fun q t hq ht hstruct => ?_⟩, fun ⟨hcycles, hfields⟩ => ?_⟩,
    fun h => ?_, fun e h => ?_⟩
  · exact not_transGen_of_blittableWithin hreg.nodup_places (isStructAt_of_reflTransGen hp hq)
      (blittableWithin_of_reflTransGen hp h hq)
  · have htest := blittableWith_of_hasByValue (isStructAt_of_reflTransGen hp hq)
      (blittableWithin_of_reflTransGen hp h hq) ht
    rw [FieldType.blittableWith_of_not_isStruct hstruct ht.pointers_eq] at htest
    rw [FieldType.isBlittable_eq, FieldType.blittableWith_of_not_isStruct hstruct ht.pointers_eq,
      htest]
  · by_contra hno
    obtain ⟨q, hq, ⟨-, t, ht, hhandle⟩ | ⟨-, hcycle⟩⟩ := hne _ rfl hno
    · have hstruct := FieldType.isStruct_of_isHandle hhandle
      have htest := hfields q t hq ht hstruct
      rw [FieldType.isBlittable_eq, FieldType.blittableWith_of_not_isStruct hstruct ht.pointers_eq,
        hhandle] at htest
      cases htest
    · exact hcycles q hq hcycle
  · obtain ⟨q, hq, ⟨-, t, ht, hhandle⟩ | ⟨herror, -⟩⟩ := hne _ h (by simp)
    · exact ⟨q, t, hq, ht, hhandle⟩
    · cases herror
  · obtain ⟨q, hq, ⟨hfalse, -⟩ | ⟨herror, hcycle⟩⟩ := hne _ h (by simp)
    · cases hfalse
    · cases herror
      exact ⟨q, rfl, hq, hcycle⟩

def resolvesAll (reg : Registry) : Bool :=
  reg.places.all fun p =>
    match reg.find? p with
    | none => true
    | some d => d.stored.all fun f => (reg.resolveStored (.of p [] none) f.1 f.2).toBool

theorem resolves_of_resolvesAll (h : reg.resolvesAll = true) (p : Place) : reg.Resolves p := by
  intro d f type hd hf hkind
  have hp := List.all_eq_true.1 h p (mem_places_of_find? hd)
  rw [hd] at hp
  have hok := List.all_eq_true.1 hp (f, type) (Definition.mem_stored.2 ⟨hf, hkind⟩)
  cases ht : reg.resolveStored (.of p [] none) f type with
  | ok t => exact ⟨t, rfl⟩
  | error e =>
    rw [ht] at hok
    cases hok

end Registry

/-! ### Samples -/

namespace BlittableSample

open Sample (entry)

/-- A struct that holds another twice: itself, and in an array of a third. -/
def sharedText : String :=
  "namespace N { struct A { b: B; d: D; } struct B { d: [D; 2]; } struct D { x: *mut A; } }"

def sharedRegistry : Registry :=
  ⟨[entry "A" false [("b", .named "B"), ("d", .named "D")],
    entry "B" false [("d", .array (.named "D") (.int 2))],
    entry "D" false [("x", .pointer false (.named "A"))]]⟩

/-- A struct that is held twice is not one that holds itself, nor is one behind a pointer. -/
theorem isBlittable_shared :
    (Registry.ofText "m" sharedText).result = .ok sharedRegistry ∧
      sharedRegistry.isBlittable ⟨"N", "A", []⟩ = .ok true ∧
      ∀ q, ReflTransGen sharedRegistry.Holds ⟨"N", "A", []⟩ q →
        ¬ TransGen sharedRegistry.Holds q q := by
  have htext : (Registry.ofText "m" sharedText).result = .ok sharedRegistry := by cbv
  have hresolves : sharedRegistry.resolvesAll = true := by cbv
  have hblittable : sharedRegistry.isBlittable ⟨"N", "A", []⟩ = .ok true := by cbv
  have hstruct := (Registry.wellFormed_of_ofText htext).isBlittable_struct (p := ⟨"N", "A", []⟩)
    ⟨_, rfl, rfl⟩ fun q _ => Registry.resolves_of_resolvesAll hresolves q
  exact ⟨htext, hblittable, (hstruct.1.1 hblittable).1⟩

end BlittableSample

end Bindery
