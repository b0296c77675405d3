import Mathlib.Data.List.Induction
import PackIndex.Catalog.Shared
import PackIndex.Proofs.Catalog.Settled

/-!
# Cycles one after the other

The cycles among the calls that have ended lead from a new catalog to one that is ready if the last
of them succeeded, and else has nothing in its tables. Questions do not count: they leave no trace in
what later calls are given.
-/

namespace PackIndex

theorem Call.eq_rebuild {call : Call} (h : call.access = .write) : call = .rebuild := by
  cases call with
  | rebuild => rfl
  | ask q => cases h

def lastCycle (finished : List FinishedCall) : Option Ended :=
  (finished.filter fun f => f.call.access == .write).getLast?.map FinishedCall.ended

variable {finished : List FinishedCall} {f : FinishedCall}

theorem lastCycle_concat_ask (h : f.call.access = .read) :
    lastCycle (finished ++ [f]) = lastCycle finished := by
  simp [lastCycle, h]

theorem lastCycle_concat_rebuild (h : f.call = .rebuild) :
    lastCycle (finished ++ [f]) = some f.ended := by
  simp [lastCycle, h, Call.access]

namespace Catalog

variable {t : FileTree} {c c₀ : Catalog}

def afterCycles (c : Catalog) (finished : List FinishedCall) : Catalog :=
  finished.foldl (fun c f => match f.call with
    | .rebuild => (c.rebuild f.tree).1
    | .ask _ => c) c

theorem afterCycles_concat_ask (h : f.call.access = .read) :
    c₀.afterCycles (finished ++ [f]) = c₀.afterCycles finished := by
  obtain ⟨tree, call, ended⟩ := f
  cases call with
  | rebuild => cases h
  | ask q => simp only [afterCycles, List.foldl_append, List.foldl_cons, List.foldl_nil]

theorem afterCycles_concat_rebuild (h : f.call = .rebuild) :
    c₀.afterCycles (finished ++ [f]) = ((c₀.afterCycles finished).rebuild f.tree).1 := by
  simp only [afterCycles, List.foldl_append, List.foldl_cons, List.foldl_nil, h]

theorem Whole.afterCycles (h : c₀.Whole) (finished : List FinishedCall) :
    (c₀.afterCycles finished).Whole := by
  induction finished using List.reverseRecOn with
  | nil => exact h
  | append_singleton rest f ih =>
    cases haccess : f.call.access with
    | read =>
      rw [afterCycles_concat_ask haccess]
      exact ih
    | write =>
      rw [afterCycles_concat_rebuild (Call.eq_rebuild haccess)]
      exact whole_rebuild _ _

/-! ### How calls have ended -/

/-- Every call has ended as it would alone, in the catalog that the cycles which ended before it
have left. -/
def EndedAlone (c₀ : Catalog) (finished : List FinishedCall) : Prop :=
  ∀ before f after, finished = before ++ f :: after →
    f.ended = ((c₀.afterCycles before).perform f.tree f.call).1.ended

theorem endedAlone_nil : c₀.EndedAlone [] := by
  intro before f after h
  cases before <;> cases h

theorem endedAlone_concat_iff : c₀.EndedAlone (finished ++ [f]) ↔ c₀.EndedAlone finished ∧
    f.ended = ((c₀.afterCycles finished).perform f.tree f.call).1.ended := by
  constructor
  · refine fun h => ⟨fun before g after hg => ?_, h finished f [] rfl⟩
    exact h before g (after ++ [f]) (by simp [hg])
  · rintro ⟨h, hf⟩ before g after he
    rcases List.eq_nil_or_concat after with rfl | ⟨rest, last, rfl⟩
    · obtain ⟨rfl, hlast⟩ := List.append_inj' he rfl
      obtain rfl := List.singleton_inj.mp hlast
      exact hf
    · have he : finished ++ [f] = (before ++ g :: rest) ++ [last] := by
        simpa using he
      exact h before g rest (List.append_inj' he rfl).1

/-! ### What they have left -/

structure Vacant (c : Catalog) : Prop where
  state : c.state = .uninitialized
  cleared : ∀ kind, (c.table kind).clear = c.table kind

theorem vacant_create {config : CatalogConfig} {shared : Option SharedNamespace}
    {loader : PackKind → PackLoader} (h : create t config shared loader = .ok c) : c.Vacant := by
  obtain ⟨ns, rfl, -⟩ := create_cases h
  exact ⟨rfl, fun kind => by cases kind <;> rfl⟩

/-- The cycles leave a ready catalog if the last of them succeeded, and else nothing. -/
theorem afterCycles_cases (hc : c₀.Vacant) (h : c₀.EndedAlone finished) :
    (lastCycle finished = some (.built (.ok ())) ∧ (c₀.afterCycles finished).state = .ready) ∨
    (lastCycle finished ≠ some (.built (.ok ())) ∧ (c₀.afterCycles finished).Vacant) := by
  induction finished using List.reverseRecOn with
  | nil => exact Or.inr ⟨nofun, hc⟩
  | append_singleton rest f ih =>
    obtain ⟨hrest, hended⟩ := endedAlone_concat_iff.mp h
    cases haccess : f.call.access with
    | read =>
      rw [lastCycle_concat_ask haccess, afterCycles_concat_ask haccess]
      exact ih hrest
    | write =>
      have hcall := Call.eq_rebuild haccess
      rw [lastCycle_concat_rebuild hcall, afterCycles_concat_rebuild hcall, hended, hcall]
      rcases rebuild_cases f.tree (c₀.afterCycles rest) with
        ⟨d, -, hleft, hok⟩ | ⟨left, e, -, hleft, herror⟩
      · refine Or.inl ⟨congrArg (some ∘ Ended.built) hok, ?_⟩
        rw [hleft]
        rfl
      · refine Or.inr ⟨?_, ?_⟩
        · intro hlast
          have hok : ((c₀.afterCycles rest).rebuild f.tree).2.result = .ok () :=
            Ended.built.inj (Option.some.inj hlast)
          rw [herror] at hok
          cases hok
        · rw [hleft]
          exact ⟨rfl, fun kind => by cases kind <;> rfl⟩

theorem Settled.cleared (h : c₀.Settled c) (hleft : c₀.Vacant) (kind : PackKind) :
    (c.table kind).clear = c.table kind := by
  have hcleared := hleft.cleared kind
  have hgroups : (c.table kind).groups = [] := by
    rw [h.tables kind, ← hcleared]
    rfl
  have hlisting : (c.table kind).snapshot = [] := by
    rcases (h.upToDate kind).remembers with hnone | ⟨items, hitems, hlisting⟩
    · exact hnone
    · rw [hgroups] at hitems
      obtain rfl := Except.ok.inj hitems
      rw [hlisting]
      exact List.mergeSort_nil
  rw [h.tables kind, hlisting, ← hcleared]
  rfl

end Catalog

end PackIndex
