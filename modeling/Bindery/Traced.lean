import Bindery.Error
/-!
# Traced computations

A computation that may fail and that tells what it does on the way.  The lines told before a
failure are kept.  Forgetting the lines, `Traced.result`, leaves an ordinary computation with
errors: it takes `pure` to `pure` and a sequence to the sequence of results.
-/

namespace Bindery

/-- A result, or an error, with the lines told on the way. -/
structure Traced (α : Type) where
  log : List String
  result : Except Error α

namespace Traced

variable {α β : Type}

instance : Monad Traced where
  pure a := ⟨[], .ok a⟩
  bind x f :=
    match x.result with
    | .ok a => ⟨x.log ++ (f a).log, (f a).result⟩
    | .error e => ⟨x.log, .error e⟩

instance : MonadLift (Except Error) Traced where
  monadLift r := ⟨[], r⟩

def fail (e : Error) : Traced α := ⟨[], .error e⟩

def debugLine (text : String) : String := "[DEBUG] " ++ text

/-- Tell what is done. -/
def tell (text : String) : Traced Unit := ⟨[debugLine text], .ok ()⟩

/-! ### The result of a traced computation -/

@[simp] theorem result_pure (a : α) : (pure a : Traced α).result = .ok a := rfl

@[simp] theorem result_bind (x : Traced α) (f : α → Traced β) :
    (x >>= f).result = x.result.bind fun a => (f a).result := by
  simp only [bind, Except.bind]
  cases x.result <;> rfl

@[simp] theorem result_fail (e : Error) : (fail e : Traced α).result = .error e := rfl

@[simp] theorem result_tell (text : String) : (tell text).result = .ok () := rfl

@[simp] theorem result_lift (r : Except Error α) : (liftM r : Traced α).result = r := rfl

end Traced

end Bindery
