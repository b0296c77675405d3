import PackIndex.Proofs.Lock.Safety

/-!
# Stages of the threads

A step of the lock is a step of one thread. It decides the stage of that thread; to the others it
does no more than wake them up. And while a writer is inside, all others wait.
-/

namespace PackIndex.LockState

variable {s s' : LockState} {threads : List (String × Stage)} {thread other : String}
  {old new : Stage} {access : Access}

/-! ### Looking threads up -/

theorem lookup_cons_eq (name : String) (stage : Stage) (rest : List (String × Stage))
    (other : String) : ((name, stage) :: rest).lookup other =
      if other = name then some stage else rest.lookup other := by
  by_cases hname : other = name
  · rw [if_pos hname, hname, List.lookup_cons_self]
  · rw [if_neg hname, List.lookup_cons, beq_eq_false_iff_ne.mpr hname]

theorem lookup_map_stage (f : String → Stage → Stage) (threads : List (String × Stage))
    (other : String) : (threads.map fun x => (x.1, f x.1 x.2)).lookup other =
      (threads.lookup other).map (f other) := by
  induction threads with
  | nil => rfl
  | cons x rest ih =>
    obtain ⟨name, stage⟩ := x
    rw [List.map_cons, lookup_cons_eq, lookup_cons_eq, ih]
    by_cases hname : other = name
    · rw [if_pos hname, if_pos hname, hname]
      rfl
    · rw [if_neg hname, if_neg hname]

theorem lookup_setStage (threads : List (String × Stage)) (thread other : String) (new : Stage) :
    (setStage thread new threads).lookup other =
      (threads.lookup other).map fun old => if other = thread then new else old := by
  have hset : setStage thread new threads =
      threads.map fun x => (x.1, if x.1 = thread then new else x.2) := by
    refine List.map_congr_left fun x _ => ?_
    simp only
    split <;> rfl
  rw [hset]
  exact lookup_map_stage (fun name old => if name = thread then new else old) threads other

theorem lookup_notifyAll (threads : List (String × Stage)) (other : String) :
    (notifyAll threads).lookup other = (threads.lookup other).map Stage.notify :=
  lookup_map_stage (fun _ => Stage.notify) threads other

theorem lookup_dropThread (threads : List (String × Stage)) (thread other : String) :
    (dropThread thread threads).lookup other =
      if other = thread then none else threads.lookup other := by
  induction threads with
  | nil => simp [dropThread]
  | cons x rest ih =>
    obtain ⟨name, stage⟩ := x
    by_cases hname : name = thread
    · have hdrop : dropThread thread ((name, stage) :: rest) = dropThread thread rest := by
        simp [dropThread, hname]
      rw [hdrop, ih, lookup_cons_eq, hname]
      split <;> rfl
    · have hdrop : dropThread thread ((name, stage) :: rest) =
          (name, stage) :: dropThread thread rest := by simp [dropThread, hname]
      rw [hdrop, lookup_cons_eq, lookup_cons_eq, ih]
      by_cases hother : other = name
      · rw [if_pos hother, if_pos hother, if_neg (hother ▸ hname)]
      · rw [if_neg hother, if_neg hother]

/-! ### One step -/

/-- A thread that looks goes in, unless it has to wait. -/
inductive Entered (s : LockState) (access : Access) : Stage → Prop
  | waits : Entered s access (.asleep access false)
  | goes_in (h : access = .write → s.counters.writer = false) : Entered s access (.inside access)

theorem entered_of_tryEnter {c : LockCounters} (h : c.writer = s.counters.writer) :
    Entered s access (tryEnter c access).2 := by
  unfold tryEnter
  split
  · exact .waits
  · next hopen =>
    refine .goes_in fun hwrite => ?_
    rw [hwrite] at hopen
    rw [← h]
    exact ((blocks_write_eq_false_iff c).mp (Bool.eq_false_iff.mpr hopen)).1

theorem arrive_cases (h : s.step? (.arrive thread access) = some s') :
    s.stage? thread = none ∧ (∃ stage, s'.stage? thread = some stage ∧ Entered s access stage) ∧
      ∀ other, other ≠ thread → s'.stage? other = s.stage? other := by
  cases hst : s.stage? thread with
  | some stage => simp [step?, hst] at h
  | none =>
    simp only [step?, hst, Option.some.injEq] at h
    have hnone : s.threads.lookup thread = none := hst
    subst h
    have hwriter : (s.counters.queue access).writer = s.counters.writer := by cases access <;> rfl
    refine ⟨rfl, ⟨_, ?_, entered_of_tryEnter hwriter⟩, ?_⟩
    · rw [stage?, List.lookup_append, hnone, lookup_cons_eq, if_pos rfl]
      rfl
    · intro other hother
      rw [stage?, List.lookup_append, lookup_cons_eq, if_neg hother]
      exact Option.or_none

theorem recheck_cases (h : s.step? (.recheck thread) = some s') :
    ∃ access, s.stage? thread = some (.asleep access true) ∧
      (∃ stage, s'.stage? thread = some stage ∧ Entered s access stage) ∧
      ∀ other, other ≠ thread → s'.stage? other = s.stage? other := by
  simp only [step?] at h
  split at h
  · next access hst =>
    obtain rfl := Option.some.inj h
    have hold : s.threads.lookup thread = some (.asleep access true) := hst
    refine ⟨access, hst, ⟨_, ?_, entered_of_tryEnter rfl⟩, fun other hother => ?_⟩
    · rw [stage?, lookup_setStage, hold, Option.map_some, if_pos rfl]
    · simp only [stage?, lookup_setStage, if_neg hother, Option.map_id']
  · cases h

/-- A thread that leaves has been inside, and is then gone. Of the others, those who slept may have
been woken. -/
theorem leave_cases (h : s.step? (.leave thread) = some s') :
    (∃ access, s.stage? thread = some (.inside access)) ∧ s'.stage? thread = none ∧
      ∀ other, other ≠ thread → s'.stage? other = s.stage? other ∨
        s'.stage? other = (s.stage? other).map Stage.notify := by
  simp only [step?] at h
  split at h
  · next access hst =>
    obtain rfl := Option.some.inj h
    refine ⟨⟨access, hst⟩, ?_, fun other hother => ?_⟩
    · simp only [stage?]
      split <;> simp [lookup_notifyAll, lookup_dropThread]
    · simp only [stage?]
      split
      · exact Or.inr (by rw [lookup_notifyAll, lookup_dropThread, if_neg hother])
      · exact Or.inl (by rw [lookup_dropThread, if_neg hother])
  · cases h

/-! ### Writers -/

theorem Sound.not_inside_write (h : s.Sound) (hwriter : s.counters.writer = false)
    (thread : String) : s.stage? thread ≠ some (.inside .write) := by
  intro hin
  have hpos := count_pos_of_mem (p := Stage.isInside .write) (mem_of_stage? hin)
    (beq_self_eq_true Access.write)
  rw [h.writers, hwriter] at hpos
  cases hpos

theorem Sound.alone (h : s.Sound) (hin : s.stage? thread = some (.inside .write))
    (hother : s.stage? other = some (.inside access)) : other = thread := by
  have hwriter : s.counters.writer = true := by
    by_contra hfree
    exact h.not_inside_write (Bool.eq_false_iff.mpr hfree) thread hin
  cases access with
  | read =>
    have hpos := count_pos_of_mem (p := Stage.isInside .read) (mem_of_stage? hother)
      (beq_self_eq_true Access.read)
    rw [h.readers, h.apart hwriter] at hpos
    cases hpos
  | write =>
    by_contra hne
    obtain ⟨before, after, hthreads, hdrop, -⟩ := exists_split h.names_nodup hin
    have hone := h.writers
    rw [hwriter, hthreads, count_split] at hone
    have hleft : (other, Stage.inside .write) ∈ before ++ after := by
      rw [← hdrop]
      exact List.mem_filter.mpr ⟨mem_of_stage? hother, decide_eq_true hne⟩
    have hpos := count_pos_of_mem (p := Stage.isInside .write) hleft
      (beq_self_eq_true Access.write)
    simp only [Stage.isInside, beq_self_eq_true, if_true] at hone hpos
    omega

end PackIndex.LockState
