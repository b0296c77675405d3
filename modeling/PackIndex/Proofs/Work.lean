import PackIndex.Work

/-!
# Work that others do not disturb

Work ends with the same result whatever others do between its steps, if every step reads only what
the others keep. Such work is put together from such parts; and its result is the one that it has
when it is done without others.
-/

namespace PackIndex.Work

variable {σ ε α β : Type} {P : σ → Prop}

/-- As long as others keep a property of the state, the work keeps it with every step, and ends with
this result. -/
def Undisturbed (P : σ → Prop) : Work σ α → α → Prop
  | done result, a => result = a
  | step change next, a => ∀ s, P s → P (change s) ∧ (next s).Undisturbed P a

/-- Work that ends with some result that others do not decide. -/
def Steady (P : σ → Prop) (w : Work σ α) : Prop := ∃ a, w.Undisturbed P a

theorem Undisturbed.bind {w : Work σ α} {f : α → Work σ β} {a : α} {b : β}
    (h : w.Undisturbed P a) (hf : (f a).Undisturbed P b) : (w >>= f).Undisturbed P b := by
  show (Work.bind w f).Undisturbed P b
  induction w with
  | done result =>
    obtain rfl : result = a := h
    exact hf
  | step change next ih =>
    intro s hs
    obtain ⟨hkept, hnext⟩ := h s hs
    exact ⟨hkept, ih s hnext⟩

theorem Undisturbed.run {w : Work σ α} {a : α} (h : w.Undisturbed P a) {s : σ} (hs : P s) :
    (w.run s).1 = a := by
  induction w generalizing s with
  | done result => exact h
  | step change next ih =>
    obtain ⟨hkept, hnext⟩ := h s hs
    exact ih s hnext hkept

/-- What steady work ends with shows when it is done without others. -/
theorem Steady.undisturbed {w : Work σ α} (h : w.Steady P) {s : σ} (hs : P s) :
    w.Undisturbed P (w.run s).1 := by
  obtain ⟨a, ha⟩ := h
  rw [ha.run hs]
  exact ha

namespace Steady

theorem done (a : α) : (Work.done a : Work σ α).Steady P := ⟨a, rfl⟩

theorem look {read : σ → α} (k : σ) (h : ∀ s, P s → read s = read k) : (look read).Steady P :=
  ⟨read k, fun s hs => ⟨hs, h s hs⟩⟩

theorem change {f : σ → σ} (h : ∀ s, P s → P (f s)) : (change f).Steady P :=
  ⟨(), fun s hs => ⟨h s hs, rfl⟩⟩

theorem act {f : σ → α × σ} (k : σ) (h : ∀ s, P s → (f s).1 = (f k).1)
    (hf : ∀ s, P s → P (f s).2) : (act f).Steady P :=
  ⟨(f k).1, fun s hs => ⟨hf s hs, h s hs⟩⟩

theorem bind {w : Work σ α} {f : α → Work σ β} (h : w.Steady P) (hf : ∀ a, (f a).Steady P) :
    (w >>= f).Steady P := by
  obtain ⟨a, ha⟩ := h
  obtain ⟨b, hb⟩ := hf a
  exact ⟨b, ha.bind hb⟩

theorem map (f : α → β) {w : Work σ α} (h : w.Steady P) : (f <$> w).Steady P :=
  h.bind fun a => done (f a)

theorem andThen {w : Work σ (Except ε α)} {f : α → Work σ (Except ε β)} (h : w.Steady P)
    (hf : ∀ a, (f a).Steady P) : (w.andThen f).Steady P := by
  refine h.bind fun result => ?_
  cases result with
  | error e => exact done _
  | ok a => exact hf a

theorem firstOf {ways : List (Work σ (Option α))} (h : ∀ w ∈ ways, w.Steady P) :
    (firstOf ways).Steady P := by
  induction ways with
  | nil => exact done none
  | cons w rest ih =>
    refine (h w List.mem_cons_self).bind fun found => ?_
    cases found with
    | some a => exact done (some a)
    | none => exact ih fun w hw => h w (List.mem_cons_of_mem _ hw)

end Steady

end PackIndex.Work
