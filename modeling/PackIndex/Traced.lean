import PackIndex.Event

/-!
# Traced computations

A computation that may fail and reports events on the way. What it reported before it failed is
kept, and its result does not depend on the events.
-/

namespace PackIndex

structure Traced (ε α : Type) where
  result : Except ε α
  events : List Event

namespace Traced

variable {ε α β : Type}

def ofExcept (result : Except ε α) : Traced ε α := ⟨result, []⟩

def emit (event : Event) : Traced ε Unit := ⟨.ok (), [event]⟩

def report (events : List Event) : Traced ε Unit := ⟨.ok (), events⟩

def fail (e : ε) : Traced ε α := ⟨.error e, []⟩

protected def bind (x : Traced ε α) (f : α → Traced ε β) : Traced ε β :=
  match x.result with
  | .ok a => ⟨(f a).result, x.events ++ (f a).events⟩
  | .error e => ⟨.error e, x.events⟩

instance : Monad (Traced ε) where
  pure a := ⟨.ok a, []⟩
  bind := Traced.bind

def map (f : α → β) (x : Traced ε α) : Traced ε β := ⟨x.result.map f, x.events⟩

def mapError {ε' : Type} (f : ε → ε') (x : Traced ε α) : Traced ε' α :=
  ⟨x.result.mapError f, x.events⟩

@[simp] theorem result_pure (a : α) : (pure a : Traced ε α).result = .ok a := rfl

@[simp] theorem events_pure (a : α) : (pure a : Traced ε α).events = [] := rfl

@[simp] theorem result_ofExcept (r : Except ε α) : (ofExcept r).result = r := rfl

@[simp] theorem result_report (events : List Event) :
    (report events : Traced ε Unit).result = .ok () := rfl

@[simp] theorem result_fail (e : ε) : (fail e : Traced ε α).result = .error e := rfl

@[simp] theorem result_bind (x : Traced ε α) (f : α → Traced ε β) :
    (x >>= f).result = x.result >>= fun a => (f a).result := by
  show (Traced.bind x f).result = _
  unfold Traced.bind
  cases x.result <;> rfl

end Traced

end PackIndex
