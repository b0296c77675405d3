import PackIndex.Proofs.Catalog.Succession
import PackIndex.Proofs.Lock.Stages

/-!
# Questions see no cycle in progress

Whatever the order in which the steps of threads are taken, a thread that asks finds the catalog as
the last cycle that ended has left it, and gets the answer that it would get alone at that time.

The invariant ties the stages of the lock to the work of the threads. A thread that waits has all of
its work before it. One that asks is not disturbed by what questions do. One that builds will end as
if it were alone, and unless a thread builds, the catalog is settled. A step of the lock moves one
thread at a time, and the writer that is inside is inside alone.
-/

namespace PackIndex

namespace SharedCatalog

open LockState (Entered)

variable {c₀ k c : Catalog} {s s' : SharedCatalog} {thread other : String} {lock : LockState}
  {stage : Stage} {worker : Worker} {access : Access}

/-- A thread and its work, in a catalog that was left as `k` by the last cycle that ended. -/
inductive Fits (k c : Catalog) : Stage → Worker → Prop
  | waiting {worker : Worker} {notified : Bool}
      (hwork : worker.call.steps worker.tree = .ok worker.work) :
      Fits k c (.asleep worker.call.access notified) worker
  | asking {worker : Worker} (hread : worker.call.access = .read)
      (hwork : worker.work.Undisturbed k.Settled (k.perform worker.tree worker.call).1.ended) :
      Fits k c (.inside .read) worker
  | building {worker : Worker} (hcall : worker.call = .rebuild)
      (hended : (worker.work.run c).1 = (k.perform worker.tree worker.call).1.ended)
      (hleft : (k.rebuild worker.tree).1.Settled (worker.work.run c).2) :
      Fits k c (.inside .write) worker

/-- What all steps keep. -/
structure Isolated (c₀ : Catalog) (s : SharedCatalog) : Prop where
  lock : s.lock.Sound
  fits : ∀ thread, Option.Rel (Fits (c₀.afterCycles s.finished) s.catalog)
    (s.lock.stage? thread) (s.workers thread)
  settled : (∀ thread, s.lock.stage? thread ≠ some (.inside .write)) →
    (c₀.afterCycles s.finished).Settled s.catalog
  results : c₀.EndedAlone s.finished

theorem isolated_unused (h : c₀.Whole) : Isolated c₀ (unused c₀) where
  lock := LockState.sound_initial
  fits _ := .none
  settled _ := h.settled
  results := Catalog.endedAlone_nil

theorem setWorker_self (s : SharedCatalog) (thread : String) (worker : Option Worker) :
    (s.setWorker thread worker).workers thread = worker := if_pos rfl

theorem setWorker_of_ne (h : other ≠ thread) (worker : Option Worker) :
    (s.setWorker thread worker).workers other = s.workers other := if_neg h

theorem setWorker_eq_self {worker : Option Worker} (h : s.workers thread = worker) :
    s.setWorker thread worker = s := by
  have hworkers : (fun name => if name = thread then worker else s.workers name) = s.workers := by
    funext name
    by_cases hname : name = thread
    · rw [if_pos hname, hname, h]
    · exact if_neg hname
  rw [setWorker, hworkers]

/-- What is so for a thread with its work, and for all others, is so for every thread. -/
theorem rel_setWorker {R : Stage → Worker → Prop} (stages : String → Option Stage)
    {worker : Option Worker} (hself : Option.Rel R (stages thread) worker)
    (hothers : ∀ other, other ≠ thread → Option.Rel R (stages other) (s.workers other))
    (name : String) : Option.Rel R (stages name) ((s.setWorker thread worker).workers name) := by
  by_cases hname : name = thread
  · rw [hname, setWorker_self]
    exact hself
  · rw [setWorker_of_ne hname]
    exact hothers name hname

/-! ### Threads that come and look again -/

/-- A thread whose work is all before it waits, or it begins where the last cycle ended. -/
theorem fits_of_entered (hk : k.Whole) (hentered : Entered s.lock worker.call.access stage)
    (hwork : worker.call.steps worker.tree = .ok worker.work)
    (hsettled : s.lock.counters.writer = false → k.Settled c) : Fits k c stage worker := by
  cases hentered with
  | waits => exact .waiting hwork
  | goes_in hopen =>
    cases haccess : worker.call.access with
    | read => exact .asking haccess (Call.undisturbed_steps hk hwork haccess)
    | write =>
      have hcall := Call.eq_rebuild haccess
      obtain ⟨hended, hleft⟩ := (hsettled (hopen haccess)).rebuild worker.tree
      have hrun := Call.run_steps hwork c
      refine .building hcall ?_ ?_
      · rw [hrun, hcall]
        exact congrArg (fun ended : Traced BuildError Unit => Ended.built ended.result) hended
      · rw [hrun, hcall]
        exact hleft

theorem Isolated.enter (hc : c₀.Whole) (h : Isolated c₀ s) (hlock : lock.Sound)
    (hstage : lock.stage? thread = some stage)
    (hentered : Entered s.lock worker.call.access stage)
    (hothers : ∀ other, other ≠ thread → lock.stage? other = s.lock.stage? other)
    (hbefore : s.lock.stage? thread ≠ some (.inside .write))
    (hwork : worker.call.steps worker.tree = .ok worker.work) :
    Isolated c₀ { s.setWorker thread (some worker) with lock } where
  lock := hlock
  fits := by
    refine rel_setWorker lock.stage? ?_ fun other hother => ?_
    · rw [hstage]
      refine .some (fits_of_entered (hc.afterCycles _) hentered hwork fun hwriter => ?_)
      exact h.settled (h.lock.not_inside_write hwriter)
    · rw [hothers other hother]
      exact h.fits other
  settled hnobody := h.settled fun name hin => by
    by_cases hname : name = thread
    · exact hbefore (hname ▸ hin)
    · exact hnobody name ((hothers name hname).trans hin)
  results := h.results

/-! ### Threads that work -/

/-- While a thread builds, all others wait, and it does not matter to them what the catalog is. -/
theorem Isolated.others_wait (h : Isolated c₀ s)
    (hin : s.lock.stage? thread = some (.inside .write)) (hother : other ≠ thread) (k c : Catalog) :
    Option.Rel (Fits k c) (s.lock.stage? other) (s.workers other) := by
  have hfits := h.fits other
  generalize hstage : s.lock.stage? other = found, s.workers other = worker at hfits ⊢
  cases hfits with
  | none => exact .none
  | some hfits =>
    cases hfits with
    | waiting hwork => exact .some (.waiting hwork)
    | asking => exact absurd (h.lock.alone hin hstage) hother
    | building => exact absurd (h.lock.alone hin hstage) hother

/-- While a thread asks, nobody builds, and the others do not see what becomes of metrics and of
listings that are remembered. -/
theorem Isolated.others_ask (h : Isolated c₀ s) (hin : s.lock.stage? thread = some (.inside .read))
    (other : String) (c : Catalog) :
    Option.Rel (Fits (c₀.afterCycles s.finished) c) (s.lock.stage? other) (s.workers other) := by
  have hfits := h.fits other
  generalize hstage : s.lock.stage? other = found, s.workers other = worker at hfits ⊢
  cases hfits with
  | none => exact .none
  | some hfits =>
    cases hfits with
    | waiting hwork => exact .some (.waiting hwork)
    | asking hread hwork => exact .some (.asking hread hwork)
    | building =>
      rw [h.lock.alone hstage hin, hstage] at hin
      cases hin

theorem Isolated.nobody_builds (h : Isolated c₀ s)
    (hin : s.lock.stage? thread = some (.inside .read)) (other : String) :
    s.lock.stage? other ≠ some (.inside .write) := by
  intro hother
  rw [h.lock.alone hother hin, hother] at hin
  cases hin

theorem Isolated.work {tree : FileTree} {call : Call} {change : Catalog → Catalog}
    {next : Catalog → Work Catalog Ended} (h : Isolated c₀ s)
    (hin : s.lock.stage? thread = some (.inside access))
    (hworker : s.workers thread = some ⟨tree, call, .step change next⟩) :
    Isolated c₀ { s.setWorker thread (some ⟨tree, call, next s.catalog⟩) with
      catalog := change s.catalog } := by
  have hfits := h.fits thread
  rw [hin, hworker] at hfits
  cases hfits with
  | some hfits =>
    cases hfits with
    | asking hread hwork =>
      obtain ⟨hkept, hnext⟩ := hwork s.catalog (h.settled (h.nobody_builds hin))
      refine ⟨h.lock, rel_setWorker s.lock.stage? ?_ fun other _ => h.others_ask hin other _,
        fun _ => hkept, h.results⟩
      rw [hin]
      exact .some (.asking hread hnext)
    | building hcall hended hleft =>
      refine ⟨h.lock, rel_setWorker s.lock.stage? ?_ fun _ hother => h.others_wait hin hother _ _,
        fun hnobody => absurd hin (hnobody thread), h.results⟩
      rw [hin]
      exact .some (.building hcall hended hleft)

/-! ### Threads that leave -/

theorem Fits.notify (h : Fits k c stage worker) : Fits k c stage.notify worker := by
  cases h with
  | waiting hwork => exact .waiting hwork
  | asking hread hwork => exact .asking hread hwork
  | building hcall hended hleft => exact .building hcall hended hleft

/-- What is so for a thread stays so when it has been woken. -/
theorem fits_of_woken {found found' : Option Stage} {worker : Option Worker}
    (h : Option.Rel (Fits k c) found worker)
    (hwoken : found' = found ∨ found' = found.map Stage.notify) :
    Option.Rel (Fits k c) found' worker := by
  rcases hwoken with rfl | rfl
  · exact h
  · cases h with
    | none => exact .none
    | some hfits => exact .some hfits.notify

theorem Isolated.leave {tree : FileTree} {call : Call} {ended : Ended} (h : Isolated c₀ s)
    (hlock : s.lock.step? (.leave thread) = some lock)
    (hworker : s.workers thread = some ⟨tree, call, .done ended⟩) :
    Isolated c₀ { s.setWorker thread none with
      lock, finished := s.finished ++ [⟨tree, call, ended⟩] } := by
  obtain ⟨⟨access, hin⟩, hgone, hothers⟩ := LockState.leave_cases hlock
  have hfits := h.fits thread
  rw [hin, hworker] at hfits
  -- a cycle that ends was alone inside, so the others do not mind what has been left
  have hleft : (∀ other, other ≠ thread →
      Option.Rel (Fits (c₀.afterCycles (s.finished ++ [⟨tree, call, ended⟩])) s.catalog)
        (s.lock.stage? other) (s.workers other)) ∧
      (c₀.afterCycles (s.finished ++ [⟨tree, call, ended⟩])).Settled s.catalog ∧
      ended = ((c₀.afterCycles s.finished).perform tree call).1.ended := by
    cases hfits with
    | some hfits =>
      cases hfits with
      | asking hread hwork =>
        rw [Catalog.afterCycles_concat_ask hread]
        exact ⟨fun other _ => h.others_ask hin other _, h.settled (h.nobody_builds hin), hwork⟩
      | building hcall hended hleft =>
        rw [Catalog.afterCycles_concat_rebuild hcall]
        exact ⟨fun other hother => h.others_wait hin hother _ _, hleft, hended⟩
  obtain ⟨hkept, hsettled, hended⟩ := hleft
  refine ⟨h.lock.step hlock, rel_setWorker lock.stage? ?_ fun other hother => ?_,
    fun _ => hsettled, Catalog.endedAlone_concat_iff.mpr ⟨h.results, hended⟩⟩
  · rw [hgone]
    exact .none
  · exact fits_of_woken (hkept other hother) (hothers other hother)

/-! ### All steps -/

theorem Isolated.refused {tree : FileTree} {call : Call} {ended : Ended} (h : Isolated c₀ s)
    (hrefused : call.steps tree = .error ended) :
    Isolated c₀ { s with finished := s.finished ++ [⟨tree, call, ended⟩] } := by
  obtain ⟨hread, hended⟩ := Call.perform_of_refused hrefused (c₀.afterCycles s.finished)
  have hcycles : c₀.afterCycles (s.finished ++ [⟨tree, call, ended⟩]) = c₀.afterCycles s.finished :=
    Catalog.afterCycles_concat_ask hread
  refine ⟨h.lock, fun name => ?_, fun hnobody => ?_,
    Catalog.endedAlone_concat_iff.mpr ⟨h.results, hended.symm⟩⟩
  · rw [hcycles]
    exact h.fits name
  · rw [hcycles]
    exact h.settled hnobody

theorem Isolated.step {step : SharedStep} (hc : c₀.Whole) (h : Isolated c₀ s)
    (hs : s.step? step = some s') : Isolated c₀ s' := by
  cases step with
  | call thread tree call =>
    simp only [step?] at hs
    split at hs
    · cases hs
    · next ended _ hrefused =>
      obtain rfl := Option.some.inj hs
      exact h.refused hrefused
    · next work _ hwork =>
      obtain ⟨lock, hlock, rfl⟩ := Option.map_eq_some_iff.mp hs
      obtain ⟨hnew, ⟨stage, hstage, hentered⟩, hothers⟩ := LockState.arrive_cases hlock
      have hbefore : s.lock.stage? thread ≠ some (.inside .write) := by
        rw [hnew]
        nofun
      exact h.enter hc (h.lock.step hlock) hstage hentered hothers hbefore hwork
  | recheck thread =>
    obtain ⟨lock, hlock, rfl⟩ := Option.map_eq_some_iff.mp hs
    obtain ⟨access, hold, ⟨stage, hstage, hentered⟩, hothers⟩ := LockState.recheck_cases hlock
    have hbefore : s.lock.stage? thread ≠ some (.inside .write) := by
      rw [hold]
      nofun
    have hfits := h.fits thread
    rw [hold] at hfits
    generalize hworker : s.workers thread = worker at hfits
    cases hfits with
    | some hfits =>
      cases hfits with
      | waiting hwork =>
        have hentered := h.enter hc (h.lock.step hlock) hstage hentered hothers hbefore hwork
        rwa [setWorker_eq_self hworker] at hentered
  | work thread =>
    simp only [step?] at hs
    split at hs
    · next access tree call change next hin hworker =>
      obtain rfl := Option.some.inj hs
      exact h.work hin hworker
    · cases hs
  | leave thread =>
    simp only [step?] at hs
    split at hs
    · next tree call ended hworker =>
      obtain ⟨lock, hlock, rfl⟩ := Option.map_eq_some_iff.mp hs
      exact h.leave hlock hworker
    · cases hs

/-- The catalogs that threads share, after any steps in any order. -/
inductive Reachable (c₀ : Catalog) : SharedCatalog → Prop
  | unused : Reachable c₀ (unused c₀)
  | step {s s' : SharedCatalog} (h : Reachable c₀ s) (step : SharedStep)
      (hs : s.step? step = some s') : Reachable c₀ s'

theorem Reachable.isolated (hc : c₀.Whole) (h : Reachable c₀ s) : Isolated c₀ s := by
  induction h with
  | unused => exact isolated_unused hc
  | step _ step hs ih => exact ih.step hc hs

/-- A schedule leads from reachable states to reachable states. -/
theorem Reachable.run (h : Reachable c₀ s) (steps : List SharedStep)
    (hrun : steps.foldlM step? s = some s') : Reachable c₀ s' :=
  foldlM_keeps (fun _ step _ h hs => h.step step hs) h steps hrun

/-! ### Main statement -/

/-- What a thread finds that asks: the catalog as the last cycle that ended has left it. -/
structure SeesLastCycle (c₀ : Catalog) (s : SharedCatalog) : Prop where
  state : s.catalog.state = .ready ∨ s.catalog.state = .uninitialized
  /-- The entries are those that the cycles that ended have left. A listing may be remembered, and
  then it is that of the entries. -/
  tables : ∀ kind, ∃ listing, (s.catalog.table kind).Remembers ∧
    s.catalog.table kind = ((c₀.afterCycles s.finished).table kind).remembering listing
  ready_iff : s.catalog.state = .ready ↔ lastCycle s.finished = some (.built (.ok ()))
  /-- After a cycle that failed, and before any has ended, there is nothing in the tables. -/
  empty : s.catalog.state = .uninitialized →
    ∀ kind, (s.catalog.table kind).clear = s.catalog.table kind

theorem Isolated.sees (hc : c₀.Vacant) (h : Isolated c₀ s)
    (hin : s.lock.stage? thread = some (.inside .read)) : SeesLastCycle c₀ s := by
  have hsettled := h.settled (h.nobody_builds hin)
  have hstate : s.catalog.state = (c₀.afterCycles s.finished).state := hsettled.sameView.state
  have htables (kind : PackKind) : ∃ listing, (s.catalog.table kind).Remembers ∧
      s.catalog.table kind = ((c₀.afterCycles s.finished).table kind).remembering listing :=
    ⟨_, (hsettled.upToDate kind).remembers, hsettled.tables kind⟩
  rcases Catalog.afterCycles_cases hc h.results with ⟨hlast, hready⟩ | ⟨hlast, hvacant⟩
  · refine ⟨Or.inl (hstate.trans hready), htables, iff_of_true (hstate.trans hready) hlast, ?_⟩
    intro hnot
    rw [hstate, hready] at hnot
    cases hnot
  · have hnot := hstate.trans hvacant.state
    refine ⟨Or.inr hnot, htables, iff_of_false ?_ hlast, fun _ => hsettled.cleared hvacant⟩
    rw [hnot]
    nofun

/-- Steps of one thread alone, the last of which gives the lock back. -/
def ownSteps (thread : String) (n : Nat) : List SharedStep :=
  List.replicate n (.work thread) ++ [.leave thread]

/-- The steps of a thread that is inside come to an end, and nobody can keep it from them. -/
theorem exists_end {tree : FileTree} {call : Call} {work : Work Catalog Ended}
    (hin : s.lock.stage? thread = some (.inside access))
    (hworker : s.workers thread = some ⟨tree, call, work⟩) :
    ∃ n s', (ownSteps thread n).foldlM step? s = some s' := by
  induction work generalizing s with
  | done ended =>
    have hleave : ∃ s', s.step? (.leave thread) = some s' := by
      simp only [step?, hworker, LockState.step?, hin, Option.map_some]
      exact ⟨_, rfl⟩
    obtain ⟨s', hs'⟩ := hleave
    refine ⟨0, s', ?_⟩
    rw [ownSteps, List.replicate_zero, List.nil_append, List.foldlM_cons, hs']
    rfl
  | step change next ih =>
    let after : SharedCatalog :=
      { s.setWorker thread (some ⟨tree, call, next s.catalog⟩) with catalog := change s.catalog }
    have hstep : s.step? (.work thread) = some after := by
      simp only [step?, hin, hworker, after]
    have hin' : after.lock.stage? thread = some (.inside access) := hin
    have hworker' : after.workers thread = some ⟨tree, call, next s.catalog⟩ :=
      setWorker_self s thread _
    obtain ⟨n, s', hrest⟩ := ih s.catalog hin' hworker'
    refine ⟨n + 1, s', ?_⟩
    rw [ownSteps, List.replicate_succ, List.cons_append, List.foldlM_cons, hstep]
    exact hrest

/-- In every interleaving, a thread that asks finds the catalog as the last cycle that ended has
left it. Every call ends as it would alone, in the catalog that the cycles which ended before it have
left, and a thread that is inside can always go on to the end of its call. -/
theorem questions_see_no_cycle {t : FileTree} {config : CatalogConfig}
    {shared : Option SharedNamespace} {loader : PackKind → PackLoader}
    (hc : Catalog.create t config shared loader = .ok c₀) (h : Reachable c₀ s) :
    (∀ thread, s.lock.stage? thread = some (.inside .read) → SeesLastCycle c₀ s) ∧
    c₀.EndedAlone s.finished ∧
    ∀ thread access, s.lock.stage? thread = some (.inside access) →
      ∃ n s', (ownSteps thread n).foldlM step? s = some s' := by
  have hisolated := h.isolated (.create hc)
  refine ⟨fun _ hin => hisolated.sees (Catalog.vacant_create hc) hin, hisolated.results, ?_⟩
  intro thread access hin
  have hfits := hisolated.fits thread
  rw [hin] at hfits
  generalize hworker : s.workers thread = worker at hfits
  cases hfits with
  | some => exact exists_end hin hworker

/-- A thread builds, and when the first entry is in its table another one comes to ask. -/
def fjordBeginning : List SharedStep :=
  .call "edit" Catalog.fjordTree .rebuild :: List.replicate 7 (.work "edit") ++
    [.call "view" Catalog.fjordTree (.ask .summary)]

/-- The cycle ends, and the thread that asks gets in before the other one can build again. -/
def fjordSchedule : List SharedStep :=
  fjordBeginning ++ List.replicate 7 (.work "edit") ++
    [.leave "edit", .recheck "view", .call "edit" Catalog.deltaTree .rebuild, .work "view"]

theorem questions_see_no_cycle_fjord :
    (∃ s, Reachable Catalog.fjordCatalog s ∧ s.catalog.state = .initializing ∧
      s.catalog.variants.size = 1 ∧ s.lock.stage? "view" = some (.asleep .read false)) ∧
    ∃ s, Reachable Catalog.fjordCatalog s ∧ s.lock.stage? "view" = some (.inside .read) ∧
      SeesLastCycle Catalog.fjordCatalog s ∧ s.catalog.state = .ready := by
  have hbeginning : (fjordBeginning.foldlM step? (unused Catalog.fjordCatalog)).map (fun s =>
      (s.catalog.state, s.catalog.variants.size, s.lock.stage? "view")) =
        some (.initializing, 1, some (.asleep .read false)) := by
    decide +kernel
  have hschedule : (fjordSchedule.foldlM step? (unused Catalog.fjordCatalog)).map (fun s =>
      (s.lock.stage? "view", s.catalog.state)) = some (some (.inside .read), .ready) := by
    decide +kernel
  obtain ⟨s, hrun, hs⟩ := Option.map_eq_some_iff.mp hbeginning
  obtain ⟨hstate, hs⟩ := Prod.mk.inj hs
  obtain ⟨hsize, hasleep⟩ := Prod.mk.inj hs
  obtain ⟨s', hrun', hs'⟩ := Option.map_eq_some_iff.mp hschedule
  obtain ⟨hin, hready⟩ := Prod.mk.inj hs'
  have hreached := Reachable.unused.run fjordSchedule hrun'
  have hcreate : Catalog.create Catalog.fjordTree Catalog.fjordCatalog.config none _ =
      .ok Catalog.fjordCatalog := rfl
  obtain ⟨hsees, -⟩ := questions_see_no_cycle hcreate hreached
  exact ⟨⟨s, Reachable.unused.run fjordBeginning hrun, hstate, hsize, hasleep⟩,
    s', hreached, hin, hsees "view" hin, hready⟩

end SharedCatalog

end PackIndex
