import Mathlib.Data.List.Forall2
import Bindery.Traced
/-!
# Computations in sequence

What is known of the results when a computation that may fail is run over a list, and that a traced
computation over a list has the result of the computation without its log.
-/

namespace Bindery

variable {α β γ ε : Type}

/-! ### Lists in step -/

theorem exists_of_mem_left {R : α → β → Prop} {l : List α} {l' : List β} (h : List.Forall₂ R l l')
    {a : α} (ha : a ∈ l) : ∃ b ∈ l', R a b := by
  induction h with
  | nil => cases ha
  | @cons x y l l' hxy _ ih =>
    rcases List.mem_cons.1 ha with rfl | ha
    · exact ⟨y, by simp, hxy⟩
    · obtain ⟨b, hb, hab⟩ := ih ha
      exact ⟨b, by simp [hb], hab⟩

theorem exists_of_mem_right {R : α → β → Prop} {l : List α} {l' : List β} (h : List.Forall₂ R l l')
    {b : β} (hb : b ∈ l') : ∃ a ∈ l, R a b :=
  exists_of_mem_left h.flip hb

theorem forall₂_trans {R : α → β → Prop} {S : β → γ → Prop} {l : List α} {l' : List β} {l'' : List γ}
    (h : List.Forall₂ R l l') (h' : List.Forall₂ S l' l'') :
    List.Forall₂ (fun a c => ∃ b, R a b ∧ S b c) l l'' := by
  induction h generalizing l'' with
  | nil =>
    cases h'
    exact .nil
  | @cons a b l l' hab _ ih =>
    obtain _ | ⟨hbc, h'⟩ := h'
    exact .cons ⟨b, hab, hbc⟩ (ih h')

theorem forall₂_mem {R : α → β → Prop} {l : List α} {l' : List β} (h : List.Forall₂ R l l') :
    List.Forall₂ (fun a b => R a b ∧ a ∈ l ∧ b ∈ l') l l' := by
  induction h with
  | nil => exact .nil
  | cons hab _ ih =>
    refine .cons ⟨hab, by simp, by simp⟩ (ih.imp fun a b h => ?_)
    exact ⟨h.1, List.mem_cons_of_mem _ h.2.1, List.mem_cons_of_mem _ h.2.2⟩

theorem forall₂_zipIdx {R : α → β → Prop} {l : List α} {l' : List β} (h : List.Forall₂ R l l')
    (k : Nat) : List.Forall₂ (fun a b => R a.1 b.1 ∧ a.2 = b.2) (l.zipIdx k) (l'.zipIdx k) := by
  induction h generalizing k with
  | nil => exact .nil
  | cons hab _ ih =>
    rw [List.zipIdx_cons, List.zipIdx_cons]
    exact .cons ⟨hab, rfl⟩ (ih (k + 1))

theorem exists_mem_zipIdx {l : List α} {a : α} (h : a ∈ l) : ∃ k, (a, k) ∈ l.zipIdx := by
  obtain ⟨k, hk, rfl⟩ := List.mem_iff_getElem.1 h
  exact ⟨k, List.mk_mem_zipIdx_iff_getElem?.2 (List.getElem?_eq_getElem hk)⟩

theorem forall₂_of_map_eq {f : α → γ} {g : β → γ} {l : List α} {l' : List β}
    (h : l.map f = l'.map g) : List.Forall₂ (fun a b => f a = g b) l l' := by
  have heq : List.Forall₂ Eq (l.map f) (l'.map g) := by rw [h, List.forall₂_eq_eq_eq]
  exact List.forall₂_map_left_iff.1 (List.forall₂_map_right_iff.1 heq)

theorem map_eq_of_forall₂ {f : α → γ} {g : β → γ} {l : List α} {l' : List β}
    (h : List.Forall₂ (fun a b => f a = g b) l l') : l.map f = l'.map g := by
  rw [← List.forall₂_eq_eq_eq]
  exact List.forall₂_map_left_iff.2 (List.forall₂_map_right_iff.2 h)

/-- Strings put together, as the first one and the others with the separator before each. -/
theorem toList_intercalate_cons (sep first : String) (others : List String) :
    (sep.intercalate (first :: others)).toList =
      first.toList ++ others.flatMap fun s => sep.toList ++ s.toList := by
  rw [String.toList_intercalate]
  induction others generalizing first with
  | nil => simp
  | cons s others ih =>
    have hrest := ih s
    rw [List.map_cons] at hrest
    rw [List.map_cons, List.map_cons, List.intercalate_cons_cons, hrest]
    simp

/-! ### Computations with errors -/

theorem bind_eq_ok {x : Except ε α} {f : α → Except ε β} {b : β} :
    x >>= f = .ok b ↔ ∃ a, x = .ok a ∧ f a = .ok b := by
  cases x <;> simp [bind, Except.bind]

theorem bind_eq_ok' {x : Except ε α} {f : α → Except ε β} {b : β} :
    x.bind f = .ok b ↔ ∃ a, x = .ok a ∧ f a = .ok b :=
  bind_eq_ok

theorem bind_eq_error {x : Except ε α} {f : α → Except ε β} {e : ε} :
    x >>= f = .error e ↔ x = .error e ∨ ∃ a, x = .ok a ∧ f a = .error e := by
  cases x <;> simp [bind, Except.bind]

theorem bind_pure_eq_ok {x : Except ε α} {P : Prop} {a : α} (h : ∀ a', x = .ok a' ↔ P ∧ a' = a)
    (f : α → β) {b : β} : (x >>= fun a => pure (f a)) = .ok b ↔ P ∧ b = f a := by
  simp only [bind_eq_ok, h]
  constructor
  · rintro ⟨_, ⟨hP, rfl⟩, hb⟩
    cases hb
    exact ⟨hP, rfl⟩
  · rintro ⟨hP, rfl⟩
    exact ⟨a, ⟨hP, rfl⟩, rfl⟩

theorem map_eq_ok {x : Except ε α} {f : α → β} {b : β} :
    f <$> x = .ok b ↔ ∃ a, x = .ok a ∧ f a = b := by
  cases x <;> simp [Functor.map, Except.map]

theorem map_eq_error {x : Except ε α} {f : α → β} {e : ε} : f <$> x = .error e ↔ x = .error e := by
  cases x <;> simp [Functor.map, Except.map]

theorem mapM_eq_ok {f : α → Except ε β} {l : List α} {bs : List β} :
    l.mapM f = .ok bs ↔ List.Forall₂ (fun a b => f a = .ok b) l bs := by
  induction l generalizing bs with
  | nil => cases bs <;> simp [pure, Except.pure]
  | cons a l ih =>
    simp only [List.mapM_cons, bind_eq_ok, ih]
    constructor
    · rintro ⟨b, hb, rest, hrest, h⟩
      cases h
      exact .cons hb hrest
    · rintro (_ | ⟨hb, hrest⟩)
      exact ⟨_, hb, _, hrest, rfl⟩

theorem mapM_congr {f g : α → Except ε β} {l : List α} (h : ∀ a ∈ l, f a = g a) :
    l.mapM f = l.mapM g := by
  induction l with
  | nil => rfl
  | cons a l ih =>
    rw [List.mapM_cons, List.mapM_cons, h a (by simp), ih fun x hx => h x (by simp [hx])]

/-- Steps over a list fail at the first element at which one fails. -/
theorem mapM_eq_error {f : α → Except ε β} {l : List α} {e : ε} : l.mapM f = .error e ↔
    ∃ before a after, l = before ++ a :: after ∧ (∀ x ∈ before, ∃ b, f x = .ok b) ∧
      f a = .error e := by
  induction l with
  | nil => simp [pure, Except.pure]
  | cons a l ih =>
    rw [List.mapM_cons, bind_eq_error]
    constructor
    · rintro (h | ⟨b, hb, h⟩)
      · exact ⟨[], a, l, rfl, List.forall_mem_nil _, h⟩
      · rcases bind_eq_error.1 h with h | ⟨bs, -, h⟩
        · obtain ⟨before, x, after, rfl, hbefore, hx⟩ := ih.1 h
          exact ⟨a :: before, x, after, rfl, List.forall_mem_cons.2 ⟨⟨b, hb⟩, hbefore⟩, hx⟩
        · cases h
    · rintro ⟨before, x, after, hl, hbefore, hx⟩
      cases before with
      | nil =>
        obtain ⟨rfl, rfl⟩ := List.cons.inj hl
        exact .inl hx
      | cons y before =>
        obtain ⟨rfl, rfl⟩ := List.cons.inj hl
        obtain ⟨⟨b, hb⟩, hbefore⟩ := List.forall_mem_cons.1 hbefore
        exact .inr ⟨b, hb, bind_eq_error.2 (.inl (ih.2 ⟨before, x, after, rfl, hbefore, hx⟩))⟩

theorem exists_of_mapM_error {f : α → Except ε β} {l : List α} {e : ε} (h : l.mapM f = .error e) :
    ∃ a ∈ l, f a = .error e := by
  obtain ⟨before, a, after, rfl, -, ha⟩ := mapM_eq_error.1 h
  exact ⟨a, by simp, ha⟩

theorem mapM_append_eq_error {f : α → Except ε β} {before after : List α} {a : α} {e : ε}
    (hbefore : ∀ x ∈ before, (∃ b, f x = .ok b) ∨ f x = .error e) (ha : f a = .error e) :
    (before ++ a :: after).mapM f = .error e := by
  induction before with
  | nil => exact mapM_eq_error.2 ⟨[], a, after, rfl, List.forall_mem_nil _, ha⟩
  | cons x before ih =>
    obtain ⟨hx, hbefore⟩ := List.forall_mem_cons.1 hbefore
    rw [List.cons_append, List.mapM_cons, bind_eq_error]
    rcases hx with ⟨b, hb⟩ | hx
    · exact .inr ⟨b, hb, bind_eq_error.2 (.inl (ih hbefore))⟩
    · exact .inl hx

theorem mapM_eq_ok_or_error {f : α → Except ε β} {l : List α} {bs : List β} {e : ε}
    (h : List.Forall₂ (fun a b => f a = .ok b ∨ f a = .error e) l bs) :
    l.mapM f = .ok bs ∨ l.mapM f = .error e := by
  induction h with
  | nil => exact .inl rfl
  | cons hab _ ih =>
    rw [List.mapM_cons]
    rcases hab with hab | hab
    · rcases ih with ih | ih <;> rw [hab, ih]
      · exact .inl rfl
      · exact .inr rfl
    · rw [hab]
      exact .inr rfl

theorem eq_ok_iff_getD {r : Except ε α} (a other : α) :
    r = .ok a ↔ r = .ok (r.toOption.getD other) ∧ a = r.toOption.getD other := by
  cases r <;> simp [Except.toOption, eq_comm]

theorem mapM_eq_ok_map {f : α → Except ε β} {P : α → Prop} {g : α → β}
    (h : ∀ a b, f a = .ok b ↔ P a ∧ b = g a) {l : List α} {bs : List β} :
    l.mapM f = .ok bs ↔ (∀ a ∈ l, P a) ∧ bs = l.map g := by
  rw [mapM_eq_ok]
  induction l generalizing bs with
  | nil => simp
  | cons a l ih =>
    cases bs with
    | nil => simp
    | cons b bs =>
      rw [List.forall₂_cons, ih, h, List.forall_mem_cons, List.map_cons, List.cons.injEq]
      tauto

theorem allM_eq_ok_true {f : α → Except ε Bool} {l : List α} :
    l.allM f = .ok true ↔ ∀ a ∈ l, f a = .ok true := by
  induction l with
  | nil => simp [List.allM, pure, Except.pure]
  | cons a l ih =>
    rw [List.allM, bind_eq_ok]
    constructor
    · rintro ⟨b, hb, h⟩
      cases b with
      | false => simp [pure, Except.pure] at h
      | true => simpa [hb] using ih.1 h
    · intro h
      exact ⟨true, h a (by simp), ih.2 fun x hx => h x (by simp [hx])⟩

theorem exists_of_allM_ne {f : α → Except ε Bool} {l : List α} {r : Except ε Bool}
    (h : l.allM f = r) (hr : r ≠ .ok true) : ∃ a ∈ l, f a = r := by
  induction l with
  | nil => exact absurd h.symm hr
  | cons a l ih =>
    rw [List.allM] at h
    match hfa : f a with
    | .error e => exact ⟨a, by simp, by rw [hfa, ← h, hfa]; rfl⟩
    | .ok false => exact ⟨a, by simp, by rw [hfa, ← h, hfa]; rfl⟩
    | .ok true =>
      rw [hfa] at h
      obtain ⟨x, hx, hfx⟩ := ih h
      exact ⟨x, by simp [hx], hfx⟩

/-- A test of all elements goes through to a result if the tests that it came to do: those with only
positive ones before them. -/
theorem allM_imp {f g : α → Except ε Bool} {l : List α} {b : Bool}
    (h : ∀ pre a post, l = pre ++ a :: post → (∀ x ∈ pre, f x = .ok true) →
      ∀ c, f a = .ok c → g a = .ok c) (hl : l.allM f = .ok b) : l.allM g = .ok b := by
  induction l with
  | nil => exact hl
  | cons a l ih =>
    rw [List.allM, bind_eq_ok] at hl ⊢
    obtain ⟨c, hc, hl⟩ := hl
    refine ⟨c, h [] a l rfl (by simp) c hc, ?_⟩
    cases c with
    | false => exact hl
    | true =>
      refine ih (fun pre x post hsplit hpre => ?_) hl
      refine h (a :: pre) x post (by rw [hsplit, List.cons_append]) ?_
      exact List.forall_mem_cons.2 ⟨hc, hpre⟩

/-- A test of all elements that has a result comes to each one, unless one before it says no. -/
theorem of_allM_append {f : α → Except ε Bool} {pre post : List α} {a : α} {b : Bool}
    (h : (pre ++ a :: post).allM f = .ok b) :
    (∃ x ∈ pre, f x = .ok false) ∨ ∃ c, f a = .ok c := by
  induction pre with
  | nil =>
    rw [List.nil_append, List.allM, bind_eq_ok] at h
    obtain ⟨c, hc, -⟩ := h
    exact .inr ⟨c, hc⟩
  | cons x pre ih =>
    rw [List.cons_append, List.allM, bind_eq_ok] at h
    obtain ⟨c, hc, h⟩ := h
    cases c with
    | false => exact .inl ⟨x, by simp, hc⟩
    | true =>
      rcases ih h with ⟨y, hy, hfalse⟩ | hresult
      · exact .inl ⟨y, by simp [hy], hfalse⟩
      · exact .inr hresult

theorem allM_eq_of_forall₂ {f : α → Except ε Bool} {g : β → Except ε Bool} {l : List α}
    {l' : List β} (h : List.Forall₂ (fun a b => f a = g b) l l') : l.allM f = l'.allM g := by
  induction h with
  | nil => rfl
  | cons hab _ ih => rw [List.allM, List.allM, hab, ih]

theorem allM_map {f : α → β} {g : β → Except ε Bool} (l : List α) :
    (l.map f).allM g = l.allM fun a => g (f a) := by
  induction l with
  | nil => rfl
  | cons a l ih => rw [List.map_cons, List.allM, List.allM, ih]

theorem foldlM_keeps {f : β → α → Except ε β} (P : β → Prop) {l : List α} {b b' : β}
    (step : ∀ a ∈ l, ∀ x y, P x → f x a = .ok y → P y) (hb : P b) (h : l.foldlM f b = .ok b') :
    P b' := by
  induction l generalizing b with
  | nil =>
    cases h
    exact hb
  | cons a l ih =>
    rw [List.foldlM_cons, bind_eq_ok] at h
    obtain ⟨c, hc, h⟩ := h
    exact ih (fun x hx => step x (by simp [hx])) (step a (by simp) b c hb hc) h

theorem exists_of_foldlM_error {f : β → α → Except ε β} {l : List α} {b : β} {e : ε}
    (h : l.foldlM f b = .error e) : ∃ a ∈ l, ∃ c, f c a = .error e := by
  induction l generalizing b with
  | nil => cases h
  | cons a l ih =>
    rw [List.foldlM_cons, bind_eq_error] at h
    rcases h with h | ⟨c, -, h⟩
    · exact ⟨a, by simp, b, h⟩
    · obtain ⟨x, hx, hfail⟩ := ih h
      exact ⟨x, by simp [hx], hfail⟩

/-! ### Two computations side by side -/

/-- Two computations succeed together, with related results, or fail together; the errors may
differ. -/
inductive InStep (R : α → β → Prop) : Except ε α → Except ε β → Prop
  | ok {a : α} {b : β} (h : R a b) : InStep R (.ok a) (.ok b)
  | error (e e' : ε) : InStep R (.error e) (.error e')

namespace InStep

variable {R : α → β → Prop} {x : Except ε α} {y : Except ε β}

theorem refl (x : Except ε α) : InStep Eq x x := by
  cases x with
  | error e => exact .error e e
  | ok a => exact .ok rfl

theorem mono {S : α → β → Prop} (h : InStep R x y) (hRS : ∀ a b, R a b → S a b) : InStep S x y := by
  cases h with
  | ok h => exact .ok (hRS _ _ h)
  | error e e' => exact .error e e'

theorem bind {α' β' : Type} {S : α' → β' → Prop} {f : α → Except ε α'} {g : β → Except ε β'}
    (h : InStep R x y) (hfg : ∀ a b, R a b → InStep S (f a) (g b)) :
    InStep S (x >>= f) (y >>= g) := by
  cases h with
  | ok h => exact hfg _ _ h
  | error e e' => exact .error e e'

theorem bind_eq {α' β' : Type} {S : α' → β' → Prop} {y : Except ε α} {f : α → Except ε α'}
    {g : α → Except ε β'} (h : InStep Eq x y) (hfg : ∀ a, InStep S (f a) (g a)) :
    InStep S (x >>= f) (y >>= g) :=
  h.bind fun a _ hab => hab ▸ hfg a

theorem map {α' β' : Type} {S : α' → β' → Prop} {f : α → α'} {g : β → β'} (h : InStep R x y)
    (hfg : ∀ a b, R a b → S (f a) (g b)) : InStep S (x.map f) (y.map g) := by
  cases h with
  | ok h => exact .ok (hfg _ _ h)
  | error e e' => exact .error e e'

theorem mapM {α' β' : Type} {S : α' → β' → Prop} {f : α → Except ε α'} {g : β → Except ε β'}
    {l : List α} {l' : List β} (h : List.Forall₂ R l l')
    (hfg : ∀ a b, R a b → InStep S (f a) (g b)) :
    InStep (List.Forall₂ S) (l.mapM f) (l'.mapM g) := by
  induction h with
  | nil => exact .ok .nil
  | cons hab _ ih =>
    rw [List.mapM_cons, List.mapM_cons]
    refine (hfg _ _ hab).bind fun c d hcd => ?_
    exact ih.bind fun cs ds hcds => .ok (.cons hcd hcds)

theorem mapM_eq {f g : α → Except ε β} {l : List α} (h : ∀ a ∈ l, InStep Eq (f a) (g a)) :
    InStep Eq (l.mapM f) (l.mapM g) := by
  induction l with
  | nil => exact .ok rfl
  | cons a l ih =>
    rw [List.mapM_cons, List.mapM_cons]
    refine (h a (by simp)).bind_eq fun b => ?_
    exact (ih fun x hx => h x (by simp [hx])).bind_eq fun bs => .ok rfl

theorem allM {f : α → Except ε Bool} {g : β → Except ε Bool} {l : List α} {l' : List β}
    (h : List.Forall₂ R l l') (hfg : ∀ a b, R a b → InStep Eq (f a) (g b)) :
    InStep Eq (l.allM f) (l'.allM g) := by
  induction h with
  | nil => exact .ok rfl
  | cons hab _ ih =>
    rw [List.allM, List.allM]
    refine (hfg _ _ hab).bind_eq fun c => ?_
    cases c with
    | false => exact .ok rfl
    | true => exact ih

theorem exists_right {a : α} (h : InStep R x y) (hx : x = .ok a) : ∃ b, y = .ok b ∧ R a b := by
  subst hx
  cases h with
  | ok h => exact ⟨_, rfl, h⟩

theorem ok_iff {y : Except ε α} (h : InStep Eq x y) (a : α) : x = .ok a ↔ y = .ok a := by
  cases h with
  | ok h => rw [h]
  | error e e' => exact iff_of_false nofun nofun

theorem and_of_ok {P : α → Prop} {Q : β → Prop} (h : InStep R x y) (hP : ∀ a, x = .ok a → P a)
    (hQ : ∀ b, y = .ok b → Q b) : InStep (fun a b => R a b ∧ P a ∧ Q b) x y := by
  cases h with
  | ok h => exact .ok ⟨h, hP _ rfl, hQ _ rfl⟩
  | error e e' => exact .error e e'

end InStep

/-! ### Traced computations -/

namespace Traced

instance : LawfulMonad Traced := by
  refine LawfulMonad.mk' _ ?_ ?_ ?_
  · rintro α ⟨log, result⟩
    cases result <;> simp [Functor.map]
  · intro α β a f
    simp [bind, pure]
  · rintro α β γ ⟨log, result⟩ f g
    cases result with
    | error e => rfl
    | ok a =>
      simp only [bind]
      cases (f a).result <;> simp

theorem result_map (f : α → β) (x : Traced α) : (f <$> x).result = f <$> x.result := by
  rw [← bind_pure_comp, result_bind, ← bind_pure_comp]
  rfl

theorem result_mapM {f : α → Traced β} (l : List α) :
    (l.mapM f).result = l.mapM fun a => (f a).result := by
  induction l with
  | nil => rfl
  | cons a l ih =>
    simp only [List.mapM_cons, result_bind, ih, result_pure]
    rfl

theorem result_foldlM {f : β → α → Traced β} (l : List α) (b : β) :
    (l.foldlM f b).result = l.foldlM (fun b a => (f b a).result) b := by
  induction l generalizing b with
  | nil => rfl
  | cons a l ih =>
    simp only [List.foldlM_cons, result_bind, ih]
    rfl

end Traced

end Bindery
