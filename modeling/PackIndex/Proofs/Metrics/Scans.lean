import Mathlib.Algebra.GroupWithZero.Nat
import Mathlib.Algebra.Order.BigOperators.Group.List
import Mathlib.Algebra.Order.Group.Nat
import PackIndex.Proofs.Catalog.Outcome

/-!
# The scans that a cycle counts

A scan is counted when the table of its kind has taken everything, and not before: a cycle that fails
over the first table counts none, one that fails later counts what it has gone through. What is
counted are the packages and, of them, those without a manifest.
-/

namespace PackIndex

namespace Metrics

theorem recordScan_zero (m : Metrics) : m.recordScan 0 0 = m := by
  simp [recordScan]

theorem recordScan_recordScan (m : Metrics) (a b x y : Int) :
    (m.recordScan a b).recordScan x y = m.recordScan (a + x) (b + y) := by
  simp [recordScan, Int.add_assoc]

end Metrics

namespace Catalog

variable {t : FileTree} {c d : Catalog} {kind : PackKind} {found : List Location}
  {table : ItemTable}

def isBare (t : FileTree) (c : Catalog) (kind : PackKind) (l : Location) : Bool :=
  match (c.loadEntries t kind l).result with
  | .ok none => true
  | _ => false

/-- The packages of a kind, if all of them can be read and a cleared table takes all their
entries. -/
def completed? (t : FileTree) (c : Catalog) (kind : PackKind) : Option (List Location) :=
  match (c.locations t kind).result with
  | .error _ => none
  | .ok found =>
    if (∀ l ∈ found, (c.loadEntries t kind l).result.isOk = true) ∧
        ((c.table kind).clear.submitAll (found.flatMap (c.submissionsOf t kind))).isOk = true then
      some found
    else none

/-- The tables that a cycle fills to the end, each with its packages: symbol packs only after
variants. -/
def completed (t : FileTree) (c : Catalog) : List (PackKind × List Location) :=
  if c.config.searchPaths = [] then []
  else
    match c.completed? t .variants with
    | none => []
    | some variants =>
      (.variants, variants) ::
        match c.completed? t .symbols with
        | none => []
        | some symbols => [(.symbols, symbols)]

def packageCount (runs : List (PackKind × List Location)) : Nat :=
  (runs.map fun run => run.2.length).sum

def bareCount (t : FileTree) (c : Catalog) (runs : List (PackKind × List Location)) : Nat :=
  (runs.map fun run => run.2.countP (c.isBare t run.1)).sum

theorem bareCount_le (t : FileTree) (c : Catalog) (runs : List (PackKind × List Location)) :
    c.bareCount t runs ≤ packageCount runs :=
  List.sum_le_sum fun _ _ => List.countP_le_length

/-! ### One table -/

theorem completed?_eq_some_iff : c.completed? t kind = some found ↔
    (c.locations t kind).result = .ok found ∧ c.Readable t kind found ∧ ∃ table,
      (c.table kind).clear.submitAll (found.flatMap (c.submissionsOf t kind)) = .ok table := by
  unfold completed? Readable
  cases (c.locations t kind).result with
  | error e => simp
  | ok others =>
    simp only [isOk_iff, Option.ite_none_right_eq_some, Option.some.injEq, Except.ok.injEq]
    constructor
    · rintro ⟨⟨hread, hsubmit⟩, rfl⟩
      exact ⟨rfl, hread, hsubmit⟩
    · rintro ⟨rfl, hread, hsubmit⟩
      exact ⟨⟨hread, hsubmit⟩, rfl⟩

theorem admitPackages_count {table' : ItemTable} {n n' : Nat}
    (h : (admitPackages t c kind table n found).result = .ok (table', n')) :
    n' = n + found.countP (c.isBare t kind) := by
  induction found generalizing table n with
  | nil =>
    obtain ⟨-, rfl⟩ := Prod.mk.inj (Except.ok.inj h)
    rfl
  | cons l rest ih =>
    simp only [admitPackages, Traced.result_bind] at h
    obtain ⟨entries, hload, h⟩ := bind_eq_ok_iff.mp h
    rw [List.countP_cons, isBare, hload]
    cases entries with
    | none =>
      simp only [Traced.result_bind] at h
      obtain ⟨-, -, h⟩ := bind_eq_ok_iff.mp h
      rw [ih h, if_pos rfl]
      omega
    | some entries =>
      simp only [Traced.result_bind] at h
      obtain ⟨next, -, h⟩ := bind_eq_ok_iff.mp h
      rw [ih h, if_neg Bool.false_ne_true]
      omega

theorem populate_count {count : ScanCount} (h : (c.populate t kind).result = .ok (table, count)) :
    ∃ found, (c.locations t kind).result = .ok found ∧
      count = ⟨found.length, found.countP (c.isBare t kind)⟩ := by
  simp only [populate, Traced.result_bind] at h
  obtain ⟨found, hfound, h⟩ := bind_eq_ok_iff.mp h
  obtain ⟨⟨filled, n⟩, hfilled, h⟩ := bind_eq_ok_iff.mp h
  obtain ⟨-, -, h⟩ := bind_eq_ok_iff.mp h
  obtain ⟨-, rfl⟩ := Prod.mk.inj (Except.ok.inj h)
  have hcount := admitPackages_count hfilled
  rw [Nat.zero_add] at hcount
  exact ⟨found, hfound, by rw [hcount]⟩

theorem populate_begun_cases (t : FileTree) (c : Catalog) (kind : PackKind) :
    (∃ e, (c.begun.populate t kind).result = .error e ∧ c.completed? t kind = none) ∨
    ∃ table found, c.completed? t kind = some found ∧ (c.begun.populate t kind).result =
      .ok (table, ⟨found.length, found.countP (c.isBare t kind)⟩) := by
  cases hpopulate : (c.begun.populate t kind).result with
  | error e =>
    refine Or.inl ⟨e, rfl, Option.eq_none_iff_forall_ne_some.mpr fun found hsome => ?_⟩
    obtain ⟨hfound, hread, table, hsubmit⟩ := completed?_eq_some_iff.mp hsome
    obtain ⟨count, hok⟩ := populate_begun_ok_iff.mpr ⟨found, hfound, hread, hsubmit⟩
    rw [hpopulate] at hok
    cases hok
  | ok filled =>
    obtain ⟨table, count⟩ := filled
    have hplan := samePlan_begun c
    obtain ⟨found, hfound, hread, hsubmit⟩ := populate_begun_ok_iff.mp ⟨count, hpopulate⟩
    obtain ⟨others, hothers, hcount⟩ := populate_count hpopulate
    rw [hplan.locations] at hothers
    obtain rfl := Except.ok.inj (hfound.symm.trans hothers)
    refine Or.inr ⟨table, found, completed?_eq_some_iff.mpr ⟨hfound, hread, table, hsubmit⟩, ?_⟩
    have hbare : c.begun.isBare t kind = c.isBare t kind := by
      funext l
      rw [isBare, isBare, hplan.loadEntries]
    rw [hcount, hbare]

/-! ### A cycle -/

theorem metrics_build (t : FileTree) (c : Catalog) : (c.begun.build t).1.metrics =
    c.metrics.recordScan (packageCount (c.completed t)) (c.bareCount t (c.completed t)) := by
  have hconfig : c.begun.config = c.config := rfl
  have hmetrics : c.begun.metrics = c.metrics := rfl
  rw [build, completed, hconfig]
  split
  · exact (Metrics.recordScan_zero _).symm
  · rcases populate_begun_cases t c .variants with
      ⟨e, hvariants, hnone⟩ | ⟨table, found, hsome, hvariants⟩
    · simp only [fill, hvariants, hnone]
      exact (Metrics.recordScan_zero _).symm
    · have hsame := populate_symbols_of_filled hvariants
      rcases populate_begun_cases t c .symbols with
        ⟨e, hsymbols, hnone⟩ | ⟨table', found', hsome', hsymbols⟩
      · simp only [fill, hvariants, hsome, hsame, hsymbols, hnone, hmetrics, packageCount, bareCount,
          List.map_cons, List.map_nil, List.sum_cons, List.sum_nil, Nat.add_zero]
      · simp only [fill, hvariants, hsome, hsame, hsymbols, hsome', hmetrics, packageCount, bareCount,
          List.map_cons, List.map_nil, List.sum_cons, List.sum_nil, Nat.add_zero, Int.natCast_add,
          Metrics.recordScan_recordScan]

end Catalog

end PackIndex
