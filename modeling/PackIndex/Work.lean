/-!
# Work done in steps

What a thread does to a state that it shares with others is done in steps. A step reads the state as
it is then, changes it, and settles what is left to do; between two steps of one thread, others may
take steps of theirs.
-/

namespace PackIndex

inductive Work (σ α : Type) where
  | done (result : α)
  /-- A step changes the state; what is left to do afterwards depends on the state before. -/
  | step (change : σ → σ) (next : σ → Work σ α)

namespace Work

variable {σ ε α β : Type}

/-- All steps one after the other, with nothing in between. -/
def run : Work σ α → σ → α × σ
  | done a, s => (a, s)
  | step change next, s => (next s).run (change s)

protected def bind : Work σ α → (α → Work σ β) → Work σ β
  | done a, f => f a
  | step change next, f => step change fun s => (next s).bind f

instance : Monad (Work σ) where
  pure := done
  bind := Work.bind

def look (read : σ → α) : Work σ α := step id fun s => done (read s)

def change (f : σ → σ) : Work σ Unit := step f fun _ => done ()

def act (f : σ → α × σ) : Work σ α := step (fun s => (f s).2) fun s => done (f s).1

/-- Goes on unless the work so far has failed. -/
def andThen (w : Work σ (Except ε α)) (f : α → Work σ (Except ε β)) : Work σ (Except ε β) := do
  match ← w with
  | .ok a => f a
  | .error e => done (.error e)

/-- The first answer that is found, looked for one way after the other. -/
def firstOf : List (Work σ (Option α)) → Work σ (Option α)
  | [] => done none
  | w :: rest => do
    match ← w with
    | some a => done (some a)
    | none => firstOf rest

@[simp] theorem run_pure (a : α) (s : σ) : (pure a : Work σ α).run s = (a, s) := rfl

@[simp] theorem run_done (a : α) (s : σ) : (done a : Work σ α).run s = (a, s) := rfl

@[simp] theorem run_look (read : σ → α) (s : σ) : (look read).run s = (read s, s) := rfl

@[simp] theorem run_change (f : σ → σ) (s : σ) : (change f).run s = ((), f s) := rfl

@[simp] theorem run_act (f : σ → α × σ) (s : σ) : (act f).run s = f s := rfl

@[simp] theorem run_bind (w : Work σ α) (f : α → Work σ β) (s : σ) :
    (w >>= f).run s = (f (w.run s).1).run (w.run s).2 := by
  show (w.bind f).run s = _
  induction w generalizing s with
  | done a => rfl
  | step change next ih => exact ih s (change s)

@[simp] theorem run_map (f : α → β) (w : Work σ α) (s : σ) :
    (f <$> w).run s = (f (w.run s).1, (w.run s).2) := run_bind w _ s

theorem run_andThen (w : Work σ (Except ε α)) (f : α → Work σ (Except ε β)) (s : σ) :
    (w.andThen f).run s = match w.run s with
      | (.ok a, s) => (f a).run s
      | (.error e, s) => (.error e, s) := by
  rw [andThen, run_bind]
  rcases w.run s with ⟨_ | _, s⟩ <;> rfl

theorem run_firstOf_cons (w : Work σ (Option α)) (rest : List (Work σ (Option α))) (s : σ) :
    (firstOf (w :: rest)).run s = match w.run s with
      | (some a, s) => (some a, s)
      | (none, s) => (firstOf rest).run s := by
  rw [firstOf, run_bind]
  rcases w.run s with ⟨_ | _, s⟩ <;> rfl

end Work

end PackIndex
