import Mathlib.Data.List.Nodup
import PackIndex.Lock
import PackIndex.Proofs.Result

/-!
# Safety of the lock

Whatever the order in which threads come, look again and leave, the counters of the lock tell who
is inside and who waits, readers and a writer are never inside together, and a sleeper that has not
been woken has a reason to sleep on. So nobody sleeps in front of a free lock without another one
being awake.

Coming is broken down into two parts: joining the sleepers as one who has been woken, and looking.
So every step is made of three changes, and each of them keeps the invariant.
-/

namespace PackIndex

namespace Stage

/-- Whether a thread has come for an access and has not got it. -/
def waitsFor (access : Access) : Stage → Bool
  | asleep wanted _ => wanted == access
  | inside _ => false

def isInside (access : Access) : Stage → Bool
  | asleep _ _ => false
  | inside held => held == access

@[simp] theorem waitsFor_notify (access : Access) (s : Stage) :
    s.notify.waitsFor access = s.waitsFor access := by cases s <;> rfl

@[simp] theorem isInside_notify (access : Access) (s : Stage) :
    s.notify.isInside access = s.isInside access := by cases s <;> rfl

theorem eq_asleep_of_waitsFor {access : Access} {s : Stage} (h : s.waitsFor access = true) :
    ∃ notified, s = asleep access notified := by
  cases s with
  | asleep wanted notified => exact ⟨notified, by rw [eq_of_beq h]⟩
  | inside held => cases h

end Stage

namespace LockState

variable {s s' : LockState} {threads : List (String × Stage)} {thread : String} {old new : Stage}
  {access : Access}

/-! ### Threads by name -/

def count (p : Stage → Bool) (threads : List (String × Stage)) : Nat :=
  threads.countP fun x => p x.2

theorem setStage_of_not_mem (h : thread ∉ threads.map Prod.fst) :
    setStage thread new threads = threads := by
  unfold setStage
  rw [List.map_congr_left (g := id), List.map_id]
  intro x hx
  have hne : x.1 ≠ thread := fun he => h (he ▸ List.mem_map_of_mem hx)
  exact if_neg hne

theorem dropThread_of_not_mem (h : thread ∉ threads.map Prod.fst) :
    dropThread thread threads = threads := by
  unfold dropThread
  rw [List.filter_eq_self]
  intro x hx
  have hne : x.1 ≠ thread := fun he => h (he ▸ List.mem_map_of_mem hx)
  exact decide_eq_true hne

theorem not_mem_of_lookup (h : threads.lookup thread = none) : thread ∉ threads.map Prod.fst := by
  intro hmem
  obtain ⟨x, hx, rfl⟩ := List.mem_map.mp hmem
  have hne := List.lookup_eq_none_iff.mp h x hx
  simp at hne

theorem exists_split (hn : (threads.map Prod.fst).Nodup) (h : threads.lookup thread = some old) :
    ∃ before after, threads = before ++ (thread, old) :: after ∧
      dropThread thread threads = before ++ after ∧
      ∀ new, setStage thread new threads = before ++ (thread, new) :: after := by
  obtain ⟨before, after, rfl, -⟩ := List.lookup_eq_some_iff.mp h
  rw [List.map_append, List.map_cons, List.nodup_middle, List.nodup_cons, List.mem_append,
    not_or] at hn
  obtain ⟨⟨hbefore, hafter⟩, -⟩ := hn
  refine ⟨before, after, rfl, ?_, fun new => ?_⟩
  · have hself : dropThread thread ((thread, old) :: after) = dropThread thread after := by
      simp [dropThread]
    have happend : dropThread thread (before ++ (thread, old) :: after) =
        dropThread thread before ++ dropThread thread ((thread, old) :: after) :=
      List.filter_append _ _
    rw [happend, hself, dropThread_of_not_mem hbefore, dropThread_of_not_mem hafter]
  · have hself : setStage thread new ((thread, old) :: after) =
        (thread, new) :: setStage thread new after := by simp [setStage]
    have happend : setStage thread new (before ++ (thread, old) :: after) =
        setStage thread new before ++ setStage thread new ((thread, old) :: after) :=
      List.map_append
    rw [happend, hself, setStage_of_not_mem hbefore, setStage_of_not_mem hafter]

theorem count_split (p : Stage → Bool) (before after : List (String × Stage)) :
    count p (before ++ (thread, old) :: after) =
      count p (before ++ after) + if p old then 1 else 0 := by
  simp only [count, List.countP_append, List.countP_cons]
  omega

theorem count_notifyAll {p : Stage → Bool} (hp : ∀ st : Stage, p st.notify = p st)
    (threads : List (String × Stage)) : count p (notifyAll threads) = count p threads := by
  simp only [count, notifyAll, List.countP_map]
  apply List.countP_congr
  intro x _
  simp [hp]

theorem names_notifyAll (threads : List (String × Stage)) :
    (notifyAll threads).map Prod.fst = threads.map Prod.fst := by
  simp [notifyAll, Function.comp_def]

theorem not_asleep_notifyAll : (thread, Stage.asleep access false) ∉ notifyAll threads := by
  intro h
  obtain ⟨⟨name, stage⟩, -, he⟩ := List.mem_map.mp h
  cases stage <;> simp [Stage.notify] at he

theorem count_pos_of_mem {p : Stage → Bool} (h : (thread, old) ∈ threads) (hp : p old = true) :
    0 < count p threads :=
  List.countP_pos_iff.mpr ⟨(thread, old), h, hp⟩

theorem blocks_read_eq_false_iff (c : LockCounters) :
    c.blocks .read = false ↔ c.writer = false ∧ c.writersWaiting = 0 := by
  simp [LockCounters.blocks]

theorem blocks_write_eq_false_iff (c : LockCounters) :
    c.blocks .write = false ↔ c.writer = false ∧ c.readers = 0 := by
  simp [LockCounters.blocks]

/-! ### Counted threads -/

/-- Whether the counters count the threads. -/
structure Tallies (c : LockCounters) (threads : List (String × Stage)) : Prop where
  readers : count (Stage.isInside .read) threads = c.readers
  writers : count (Stage.isInside .write) threads = if c.writer then 1 else 0
  waiting : count (Stage.waitsFor .write) threads = c.writersWaiting
  apart : c.writer = true → c.readers = 0

namespace Tallies

variable {c : LockCounters} {before after : List (String × Stage)}

theorem queue (h : Tallies c threads) (thread : String) (access : Access) :
    Tallies (c.queue access) (threads ++ [(thread, .asleep access true)]) := by
  have hcount (p : Stage → Bool) : count p (threads ++ [(thread, .asleep access true)]) =
      count p threads + if p (.asleep access true) then 1 else 0 := by
    rw [count_split, List.append_nil]
  cases access with
  | read => exact ⟨(hcount _).trans h.readers, (hcount _).trans h.writers,
      (hcount _).trans h.waiting, h.apart⟩
  | write => exact ⟨(hcount _).trans h.readers, (hcount _).trans h.writers,
      (hcount _).trans (congrArg (· + 1) h.waiting), h.apart⟩

theorem notifyAll (h : Tallies c threads) : Tallies c (notifyAll threads) where
  readers := (count_notifyAll (Stage.isInside_notify _) _).trans h.readers
  writers := (count_notifyAll (Stage.isInside_notify _) _).trans h.writers
  waiting := (count_notifyAll (Stage.waitsFor_notify _) _).trans h.waiting
  apart := h.apart

theorem asleep (h : Tallies c (before ++ (thread, .asleep access true) :: after)) :
    Tallies c (before ++ (thread, .asleep access false) :: after) := by
  have hcount (p : Stage → Bool) (hp : p (.asleep access false) = p (.asleep access true)) :
      count p (before ++ (thread, .asleep access false) :: after) =
        count p (before ++ (thread, .asleep access true) :: after) := by
    rw [count_split, count_split, hp]
  exact ⟨(hcount (Stage.isInside .read) rfl).trans h.readers,
    (hcount (Stage.isInside .write) rfl).trans h.writers,
    (hcount (Stage.waitsFor .write) rfl).trans h.waiting, h.apart⟩

theorem enter (h : Tallies c (before ++ (thread, .asleep access true) :: after))
    (hopen : c.blocks access = false) :
    Tallies (c.enter access) (before ++ (thread, .inside access) :: after) := by
  obtain ⟨hreaders, hwriters, hwaiting, -⟩ := h
  rw [count_split] at hreaders hwriters hwaiting
  cases access with
  | read =>
    obtain ⟨hwriter, -⟩ := (blocks_read_eq_false_iff _).mp hopen
    refine ⟨?_, ?_, ?_, fun hw => absurd (hwriter.symm.trans hw) Bool.false_ne_true⟩ <;>
      rw [count_split]
    · exact congrArg (· + 1) hreaders
    · exact hwriters
    · exact hwaiting
  | write =>
    obtain ⟨hwriter, hnone⟩ := (blocks_write_eq_false_iff _).mp hopen
    refine ⟨?_, ?_, ?_, fun _ => hnone⟩ <;> rw [count_split]
    · exact hreaders
    · rw [hwriter] at hwriters
      exact congrArg (· + 1) hwriters
    · exact Nat.eq_sub_of_add_eq hwaiting

theorem leave (h : Tallies c (before ++ (thread, .inside access) :: after)) :
    Tallies (c.leave access) (before ++ after) := by
  obtain ⟨hreaders, hwriters, hwaiting, hapart⟩ := h
  rw [count_split] at hreaders hwriters hwaiting
  cases access with
  | read =>
    refine ⟨Nat.eq_sub_of_add_eq hreaders, hwriters, hwaiting, fun hw => ?_⟩
    rw [LockCounters.leave, hapart hw]
  | write =>
    have hnone : count (Stage.isInside .write) (before ++ after) = 0 := by
      simp only [Stage.isInside, beq_self_eq_true, if_true] at hwriters
      split at hwriters <;> omega
    exact ⟨hreaders, hnone, hwaiting, nofun⟩

end Tallies

/-! ### Reasons to sleep -/

section Blocks

variable {c : LockCounters} {wanted : Access}

theorem blocks_queue (h : c.blocks wanted = true) (access : Access) :
    (c.queue access).blocks wanted = true := by
  cases access with
  | read => exact h
  | write =>
    cases wanted with
    | read => simp [LockCounters.queue, LockCounters.blocks]
    | write => exact h

theorem blocks_enter (hopen : c.blocks access = false) (h : c.blocks wanted = true) :
    (c.enter access).blocks wanted = true := by
  cases access with
  | read =>
    cases wanted with
    | read => exact absurd (hopen.symm.trans h) Bool.false_ne_true
    | write => simp [LockCounters.blocks, LockCounters.enter]
  | write => cases wanted <;> rfl

/-- Who leaves without waking others is a reader and leaves readers inside, who keep the writers
waiting. -/
theorem blocks_leave (hwakes : (c.leave access).wakes access = false)
    (h : c.blocks wanted = true) : (c.leave access).blocks wanted = true := by
  cases access with
  | write => cases hwakes
  | read =>
    cases wanted with
    | read => exact h
    | write =>
      have hinside : 0 < c.readers - 1 := Nat.pos_of_ne_zero (beq_eq_false_iff_ne.mp hwakes)
      simp [LockCounters.blocks, LockCounters.leave, hinside]

end Blocks

/-! ### The invariant -/

/-- The counters count the threads, and who sleeps unwoken has a reason to. -/
structure Sound (s : LockState) : Prop extends Tallies s.counters s.threads where
  names_nodup : (s.threads.map Prod.fst).Nodup
  kept_out : ∀ thread access, (thread, Stage.asleep access false) ∈ s.threads →
    s.counters.blocks access = true

theorem sound_initial : initial.Sound where
  toTallies := ⟨rfl, rfl, rfl, nofun⟩
  names_nodup := List.nodup_nil
  kept_out := nofun

/-- A thread that comes first joins the others as one that has been woken. -/
def joined (s : LockState) (thread : String) (access : Access) : LockState :=
  ⟨s.counters.queue access, s.threads ++ [(thread, .asleep access true)]⟩

theorem Sound.joined (h : s.Sound) (hnew : s.stage? thread = none) (access : Access) :
    (s.joined thread access).Sound where
  toTallies := h.toTallies.queue thread access
  names_nodup := by
    rw [LockState.joined, List.map_append, List.map_singleton, ← List.concat_eq_append,
      List.nodup_concat]
    exact ⟨not_mem_of_lookup hnew, h.names_nodup⟩
  kept_out name wanted hmem := by
    rcases List.mem_append.mp hmem with hmem | hmem
    · exact blocks_queue (h.kept_out name wanted hmem) access
    · simp at hmem

section Split

variable {before after : List (String × Stage)}
  (hthreads : s.threads = before ++ (thread, old) :: after)
include hthreads

theorem Sound.names_nodup_of_split (h : s.Sound) (new : Stage) :
    ((before ++ (thread, new) :: after).map Prod.fst).Nodup ∧
      ((before ++ after).map Prod.fst).Nodup := by
  have hnames := hthreads ▸ h.names_nodup
  rw [List.map_append, List.map_cons] at hnames
  rw [List.map_append, List.map_cons, List.map_append]
  exact ⟨hnames, (List.nodup_cons.mp (List.nodup_middle.mp hnames)).2⟩

theorem Sound.kept_out_of_split (h : s.Sound) {name : String} {wanted : Access}
    (hmem : (name, Stage.asleep wanted false) ∈ before ++ after) :
    s.counters.blocks wanted = true := by
  apply h.kept_out name wanted
  rw [hthreads]
  rcases List.mem_append.mp hmem with hmem | hmem <;> simp [hmem]

end Split

/-- A woken thread looks: it goes in, or it falls asleep because it has to wait. -/
theorem Sound.look (h : s.Sound) (hold : s.stage? thread = some (.asleep access true)) :
    Sound ⟨(tryEnter s.counters access).1,
      setStage thread (tryEnter s.counters access).2 s.threads⟩ := by
  obtain ⟨before, after, hthreads, -, hset⟩ := exists_split h.names_nodup hold
  have htallies := hthreads ▸ h.toTallies
  rw [hset]
  by_cases hblocked : s.counters.blocks access = true
  · have htry : tryEnter s.counters access = (s.counters, .asleep access false) := if_pos hblocked
    rw [htry]
    refine ⟨htallies.asleep, (h.names_nodup_of_split hthreads _).1, fun name wanted hmem => ?_⟩
    rcases List.mem_cons.mp (List.perm_middle.mem_iff.mp hmem) with he | hmem
    · obtain ⟨rfl, -⟩ := Stage.asleep.inj (Prod.mk.inj he).2
      exact hblocked
    · exact h.kept_out_of_split hthreads hmem
  · have htry : tryEnter s.counters access = (s.counters.enter access, .inside access) :=
      if_neg hblocked
    rw [htry]
    have hopen : s.counters.blocks access = false := Bool.eq_false_iff.mpr hblocked
    refine ⟨htallies.enter hopen, (h.names_nodup_of_split hthreads _).1, fun name wanted hmem => ?_⟩
    rcases List.mem_cons.mp (List.perm_middle.mem_iff.mp hmem) with he | hmem
    · cases he
    · exact blocks_enter hopen (h.kept_out_of_split hthreads hmem)

theorem Sound.leave (h : s.Sound) (hold : s.stage? thread = some (.inside access)) :
    Sound ⟨s.counters.leave access,
      if (s.counters.leave access).wakes access then notifyAll (dropThread thread s.threads)
      else dropThread thread s.threads⟩ := by
  obtain ⟨before, after, hthreads, hdrop, -⟩ := exists_split h.names_nodup hold
  have htallies := (hthreads ▸ h.toTallies).leave
  have hnames := (h.names_nodup_of_split hthreads (.inside access)).2
  rw [hdrop]
  by_cases hwakes : (s.counters.leave access).wakes access = true
  · rw [if_pos hwakes]
    exact ⟨htallies.notifyAll, (names_notifyAll _).symm ▸ hnames,
      fun _ _ hmem => absurd hmem not_asleep_notifyAll⟩
  · rw [if_neg hwakes]
    exact ⟨htallies, hnames, fun _ _ hmem =>
      blocks_leave (Bool.eq_false_iff.mpr hwakes) (h.kept_out_of_split hthreads hmem)⟩

/-! ### Steps -/

/-- What a step does: a new thread joins and looks, a woken one looks, or one that is inside
leaves. -/
theorem step?_cases {step : LockStep} (h : s.step? step = some s') :
    (∃ thread access, s.stage? thread = none ∧ s' = ⟨(tryEnter (s.counters.queue access) access).1,
      s.threads ++ [(thread, (tryEnter (s.counters.queue access) access).2)]⟩) ∨
    (∃ thread access, s.stage? thread = some (.asleep access true) ∧
      s' = ⟨(tryEnter s.counters access).1,
        setStage thread (tryEnter s.counters access).2 s.threads⟩) ∨
    (∃ thread access, s.stage? thread = some (.inside access) ∧ s' = ⟨s.counters.leave access,
      if (s.counters.leave access).wakes access then notifyAll (dropThread thread s.threads)
      else dropThread thread s.threads⟩) := by
  cases step with
  | arrive thread access =>
    cases hst : s.stage? thread with
    | some stage => simp [step?, hst] at h
    | none =>
      refine Or.inl ⟨thread, access, hst, ?_⟩
      simp only [step?, hst, Option.some.injEq] at h
      exact h.symm
  | recheck thread =>
    simp only [step?] at h
    split at h
    · next access hst => exact Or.inr (Or.inl ⟨thread, access, hst, (Option.some.inj h).symm⟩)
    · cases h
  | leave thread =>
    simp only [step?] at h
    split at h
    · next access hst => exact Or.inr (Or.inr ⟨thread, access, hst, (Option.some.inj h).symm⟩)
    · cases h

theorem setStage_joined (hnew : s.stage? thread = none) (stage : Stage) :
    setStage thread stage (s.joined thread access).threads = s.threads ++ [(thread, stage)] := by
  have happend : setStage thread stage (s.joined thread access).threads =
      setStage thread stage s.threads ++ setStage thread stage [(thread, .asleep access true)] :=
    List.map_append
  rw [happend, setStage_of_not_mem (not_mem_of_lookup hnew)]
  simp [setStage]

theorem stage?_joined (hnew : s.stage? thread = none) :
    (s.joined thread access).stage? thread = some (.asleep access true) := by
  have hlookup : s.threads.lookup thread = none := hnew
  simp [joined, stage?, List.lookup_append, hlookup]

theorem Sound.step {step : LockStep} (h : s.Sound) (hs : s.step? step = some s') : s'.Sound := by
  rcases step?_cases hs with
    ⟨thread, access, hnew, rfl⟩ | ⟨thread, access, hold, rfl⟩ | ⟨thread, access, hold, rfl⟩
  · have hlook := (h.joined hnew access).look (stage?_joined hnew)
    rw [setStage_joined hnew] at hlook
    exact hlook
  · exact h.look hold
  · exact h.leave hold

/-- The states that the steps of any threads, in any order, lead to. -/
inductive Reachable : LockState → Prop
  | initial : Reachable initial
  | step {s s' : LockState} (h : Reachable s) (step : LockStep) (hs : s.step? step = some s') :
      Reachable s'

theorem Reachable.sound (h : Reachable s) : s.Sound := by
  induction h with
  | initial => exact sound_initial
  | step _ step hs ih => exact ih.step hs

theorem Reachable.run (h : Reachable s) (steps : List LockStep)
    (hrun : steps.foldlM step? s = some s') : Reachable s' :=
  foldlM_keeps (fun _ step _ h hs => h.step step hs) h steps hrun

theorem reads_of_tryEnter {c : LockCounters} {access : Access}
    (h : (tryEnter c access).2 = .inside .read) : access = .read ∧ c.writersWaiting = 0 := by
  unfold tryEnter at h
  split at h
  · cases h
  · next hopen =>
    obtain rfl : access = .read := Stage.inside.inj h
    have hopen : c.blocks .read = false := Bool.eq_false_iff.mpr hopen
    exact ⟨rfl, ((blocks_read_eq_false_iff c).mp hopen).2⟩

theorem Sound.no_reader_enters {step : LockStep} (h : s.Sound) (hs : s.step? step = some s')
    (hwaiting : 0 < s.counters.writersWaiting) (hin : (thread, Stage.inside .read) ∈ s'.threads) :
    (thread, Stage.inside .read) ∈ s.threads := by
  rcases step?_cases hs with
    ⟨name, access, hnew, rfl⟩ | ⟨name, access, hold, rfl⟩ | ⟨name, access, hold, rfl⟩
  · rcases List.mem_append.mp hin with hin | hin
    · exact hin
    · have hentered := (Prod.mk.inj (List.mem_singleton.mp hin)).2
      obtain ⟨rfl, hnone⟩ := reads_of_tryEnter hentered.symm
      have hnone : s.counters.writersWaiting = 0 := hnone
      omega
  · obtain ⟨before, after, hthreads, -, hset⟩ := exists_split h.names_nodup hold
    have hin : (thread, Stage.inside .read) ∈ setStage name (tryEnter s.counters access).2 s.threads :=
      hin
    rw [hset] at hin
    rcases List.mem_append.mp hin with hin | hin
    · simp [hthreads, hin]
    · rcases List.mem_cons.mp hin with he | hin
      · obtain ⟨-, hnone⟩ := reads_of_tryEnter (Prod.mk.inj he).2.symm
        omega
      · simp [hthreads, hin]
  · have hdropped : (thread, Stage.inside .read) ∈ dropThread name s.threads := by
      simp only at hin
      split at hin
      · obtain ⟨⟨other, stage⟩, hmem, he⟩ := List.mem_map.mp hin
        obtain ⟨rfl, hstage⟩ := Prod.mk.inj he
        cases stage with
        | asleep wanted notified => cases hstage
        | inside held =>
          obtain rfl : held = .read := Stage.inside.inj hstage
          exact hmem
      · exact hin
    exact (List.mem_filter.mp hdropped).1

/-- If a thread waits although nobody is inside, some waiting thread is awake. -/
theorem Sound.exists_awake (h : s.Sound) (hreaders : s.counters.readers = 0)
    (hwriter : s.counters.writer = false) {name : String} {stage : Stage}
    (hmem : (name, stage) ∈ s.threads) :
    ∃ other access, (other, Stage.asleep access true) ∈ s.threads := by
  have hopen : s.counters.blocks .write = false :=
    (blocks_write_eq_false_iff _).mpr ⟨hwriter, hreaders⟩
  have hnobody (access : Access) : count (Stage.isInside access) s.threads = 0 := by
    cases access with
    | read => rw [h.readers, hreaders]
    | write => rw [h.writers, hwriter]; rfl
  -- a writer that waits in front of a free lock has been woken
  have hwriters (other : String) (notified : Bool)
      (hother : (other, Stage.asleep .write notified) ∈ s.threads) : notified = true := by
    cases notified with
    | true => rfl
    | false =>
      have hblocked := h.kept_out other .write hother
      rw [hopen] at hblocked
      cases hblocked
  cases stage with
  | inside access =>
    have hpos := count_pos_of_mem (p := Stage.isInside access) hmem (beq_self_eq_true access)
    have hnone := hnobody access
    omega
  | asleep access notified =>
    cases access with
    | write =>
      obtain rfl := hwriters name notified hmem
      exact ⟨name, .write, hmem⟩
    | read =>
      cases notified with
      | true => exact ⟨name, .read, hmem⟩
      | false =>
        -- a reader that sleeps on has a writer in front of it
        have hblocked := h.kept_out name .read hmem
        have hpos : 0 < count (Stage.waitsFor .write) s.threads := by
          rw [h.waiting]
          simp only [LockCounters.blocks, hwriter, Bool.false_or, decide_eq_true_eq] at hblocked
          exact hblocked
        obtain ⟨⟨other, stage⟩, hother, hwaits⟩ := List.countP_pos_iff.mp hpos
        obtain ⟨notified, rfl⟩ := Stage.eq_asleep_of_waitsFor hwaits
        obtain rfl := hwriters other notified hother
        exact ⟨other, .write, hother⟩

/-! ### Main statement -/

/-- What holds at every moment of the lock's life. -/
structure Safe (s : LockState) : Prop where
  distinct : (s.threads.map Prod.fst).Nodup
  readers : s.counters.readers = count (Stage.isInside .read) s.threads
  writer : s.counters.writer = true ↔ count (Stage.isInside .write) s.threads = 1
  one_writer : count (Stage.isInside .write) s.threads ≤ 1
  apart : count (Stage.isInside .read) s.threads = 0 ∨ count (Stage.isInside .write) s.threads = 0
  waiting : s.counters.writersWaiting = count (Stage.waitsFor .write) s.threads
  writers_first : ∀ step s', s.step? step = some s' → 0 < s.counters.writersWaiting →
    ∀ thread, s'.stage? thread = some (.inside .read) → s.stage? thread = some (.inside .read)
  reader_sleeps : ∀ thread, s.stage? thread = some (.asleep .read false) →
    s.counters.writer = true ∨ 0 < s.counters.writersWaiting
  writer_sleeps : ∀ thread, s.stage? thread = some (.asleep .write false) →
    s.counters.writer = true ∨ 0 < s.counters.readers
  not_all_asleep : s.counters.readers = 0 → s.counters.writer = false → s.threads ≠ [] →
    ∃ thread access, s.stage? thread = some (.asleep access true)

theorem mem_of_stage? (h : s.stage? thread = some old) : (thread, old) ∈ s.threads := by
  obtain ⟨before, after, he, -⟩ := List.lookup_eq_some_iff.mp h
  rw [he]
  simp

theorem Sound.stage?_of_mem (h : s.Sound) (hmem : (thread, old) ∈ s.threads) :
    s.stage? thread = some old := by
  cases hst : s.stage? thread with
  | none => exact absurd (List.mem_map_of_mem hmem) (not_mem_of_lookup hst)
  | some other =>
    have he := List.inj_on_of_nodup_map h.names_nodup (mem_of_stage? hst) hmem rfl
    rw [(Prod.mk.inj he).2]

/-- In every interleaving the lock is safe, and nobody sleeps on without a reason. -/
theorem safe_of_reachable (h : Reachable s) : s.Safe := by
  have hs := h.sound
  refine ⟨hs.names_nodup, hs.readers.symm, ?_, ?_, ?_, hs.waiting.symm, ?_, ?_, ?_, ?_⟩
  · rw [hs.writers]
    cases s.counters.writer <;> simp
  · rw [hs.writers]
    split <;> omega
  · rw [hs.readers, hs.writers]
    cases hw : s.counters.writer with
    | true => exact Or.inl (hs.apart hw)
    | false => exact Or.inr rfl
  · intro step s' hstep hwaiting thread hin
    exact hs.stage?_of_mem (hs.no_reader_enters hstep hwaiting (mem_of_stage? hin))
  · intro thread hst
    have hblocked := hs.kept_out thread .read (mem_of_stage? hst)
    simpa [LockCounters.blocks] using hblocked
  · intro thread hst
    have hblocked := hs.kept_out thread .write (mem_of_stage? hst)
    simpa [LockCounters.blocks] using hblocked
  · intro hreaders hwriter hsome
    obtain ⟨⟨name, stage⟩, hmem⟩ := List.exists_mem_of_ne_nil _ hsome
    obtain ⟨other, access, hother⟩ := hs.exists_awake hreaders hwriter hmem
    exact ⟨other, access, hs.stage?_of_mem hother⟩

/-- A reader that was woken behind a waiting writer has gone back to sleep. -/
def overtaken : LockState :=
  ⟨⟨0, false, 1⟩, [("edit", .asleep .write true), ("view", .asleep .read false)]⟩

theorem safe_overtaken : Reachable overtaken ∧ overtaken.Safe := by
  have hreached : Reachable overtaken := by
    refine Reachable.initial.run [.arrive "list" .read, .arrive "edit" .write,
      .arrive "view" .read, .leave "list", .recheck "view"] ?_
    decide
  exact ⟨hreached, safe_of_reachable hreached⟩

end LockState

end PackIndex
