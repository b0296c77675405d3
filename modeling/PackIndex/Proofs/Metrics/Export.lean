import Mathlib.Data.List.Nodup
import PackIndex.Metrics.Exporter
import PackIndex.Proofs.Number.Whole

/-!
# What an exporter has exported

One exporter follows one set of metrics. After an update every exported counter is the metric
itself, plus what was exported again because of resets: for each reset that updates preceded, the
metric as the last of them saw it. In between no exported counter ever decreases. The gauges show
the metrics of the last update as far as doubles can.
-/

namespace PackIndex

theorem lookup_filter_ne {l : List (String × Int)} {word other : String} (h : other ≠ word) :
    (l.filter fun entry => entry.1 ≠ word).lookup other = l.lookup other := by
  induction l with
  | nil => rfl
  | cons entry rest ih =>
    by_cases hentry : entry.1 = word
    · have hne : (other == entry.1) = false := beq_false_of_ne (hentry ▸ h)
      rw [List.filter_cons_of_neg (by simpa using hentry), ih, List.lookup_cons, hne]
    · rw [List.filter_cons_of_pos (by simpa using hentry), List.lookup_cons, List.lookup_cons, ih]

namespace CounterKey

theorem mem_all (k : CounterKey) : k ∈ all := by
  cases k with
  | resolution o => cases o <;> decide
  | _ => decide

theorem nodup_all : all.Nodup := by decide

theorem word_injOn : ∀ j ∈ all, ∀ k ∈ all, j.word = k.word → j = k := by decide

theorem word_inj {j k : CounterKey} : j.word = k.word ↔ j = k :=
  ⟨word_injOn j (mem_all j) k (mem_all k), congrArg word⟩

end CounterKey

theorem GaugeKey.mem_all (g : GaugeKey) : g ∈ all := by
  cases g with
  | names kind => cases kind <;> decide
  | items kind => cases kind <;> decide
  | lastDuration => decide

namespace Exporter

variable {e : Exporter} {m : Metrics} {keys : List CounterKey} {gauges : List GaugeKey}

/-! ### Counters -/

theorem lastSeen_advance (e : Exporter) (j k : CounterKey) (current : Int) :
    (e.advance k current).lastSeen j.word = if j = k then current else e.lastSeen j.word := by
  rw [lastSeen, advance, List.lookup_cons]
  by_cases h : j = k
  · subst h
    simp
  · have hword : j.word ≠ k.word := mt CounterKey.word_inj.mp h
    rw [beq_false_of_ne hword, lookup_filter_ne hword, if_neg h, lastSeen]

theorem total_advance (e : Exporter) (j k : CounterKey) (current : Int) :
    (e.advance k current).total j =
      if j = k then e.total j + max 0 (current - e.lastSeen j.word) else e.total j := by
  simp only [advance]
  by_cases h : j = k
  · subst h
    rw [if_pos rfl]
    by_cases hgrowth : 0 < current - e.lastSeen j.word
    · rw [if_pos ⟨rfl, hgrowth⟩, max_eq_right hgrowth.le]
    · rw [if_neg fun hboth => hgrowth hboth.2, max_eq_left (Int.not_lt.mp hgrowth), Int.add_zero]
  · simp [h]

theorem foldl_advance (hnodup : keys.Nodup) (m : Metrics) (e : Exporter) (j : CounterKey) :
    (keys.foldl (fun e k => e.advance k (m.counter k)) e).lastSeen j.word =
        (if j ∈ keys then m.counter j else e.lastSeen j.word) ∧
      (keys.foldl (fun e k => e.advance k (m.counter k)) e).total j =
        if j ∈ keys then e.total j + max 0 (m.counter j - e.lastSeen j.word) else e.total j := by
  induction keys generalizing e with
  | nil => exact ⟨rfl, rfl⟩
  | cons k rest ih =>
    obtain ⟨hk, hrest⟩ := List.nodup_cons.mp hnodup
    obtain ⟨hseen, htotal⟩ := ih hrest (e.advance k (m.counter k))
    rw [lastSeen_advance] at hseen htotal
    rw [total_advance] at htotal
    rw [List.foldl_cons, hseen, htotal]
    by_cases hj : j = k
    · subst hj
      simp [hk]
    · simp [hj]

theorem lastSeen_advanceAll (e : Exporter) (m : Metrics) (k : CounterKey) :
    (e.advanceAll m).lastSeen k.word = m.counter k :=
  (foldl_advance CounterKey.nodup_all m e k).1.trans (if_pos k.mem_all)

theorem total_advanceAll (e : Exporter) (m : Metrics) (k : CounterKey) :
    (e.advanceAll m).total k = e.total k + max 0 (m.counter k - e.lastSeen k.word) :=
  (foldl_advance CounterKey.nodup_all m e k).2.trans (if_pos k.mem_all)

/-! ### Gauges -/

theorem gauge_showGauge (e : Exporter) (k : GaugeKey) (x : Binary64) (j : GaugeKey) :
    (e.showGauge k x).gauge j = if j = k then some x else e.gauge j := rfl

theorem setGauges_counters (m : Metrics) (e : Exporter) (gauges : List GaugeKey) :
    (setGauges m e gauges).total = e.total ∧ (setGauges m e gauges).seen = e.seen := by
  induction gauges generalizing e with
  | nil => exact ⟨rfl, rfl⟩
  | cons g rest ih =>
    rw [setGauges]
    split
    · exact ih _
    · exact ⟨rfl, rfl⟩

theorem gaugeFailure_eq_none_iff : gaugeFailure m gauges = none ↔
    ∀ g ∈ gauges, ∃ x, gaugeNumber (m.shown g) = .ok x := by
  induction gauges with
  | nil => simp [gaugeFailure]
  | cons g rest ih =>
    rw [gaugeFailure, List.forall_mem_cons, ← ih]
    cases gaugeNumber (m.shown g) <;> simp

theorem gauge_setGauges {g : GaugeKey} {x : Binary64} (hx : gaugeNumber (m.shown g) = .ok x)
    (hall : ∀ g ∈ gauges, ∃ x, gaugeNumber (m.shown g) = .ok x)
    (hg : g ∈ gauges ∨ e.gauge g = some x) : (setGauges m e gauges).gauge g = some x := by
  induction gauges generalizing e with
  | nil => exact hg.resolve_left List.not_mem_nil
  | cons h rest ih =>
    obtain ⟨⟨y, hy⟩, hrest⟩ := List.forall_mem_cons.mp hall
    simp only [setGauges, hy]
    refine ih hrest ?_
    by_cases hgh : g = h
    · subst hgh
      rw [hx] at hy
      exact Or.inr (by rw [gauge_showGauge, if_pos rfl, Except.ok.inj hy])
    · refine hg.imp (fun hmem => (List.mem_cons.mp hmem).resolve_left hgh) fun hshown => ?_
      rw [gauge_showGauge, if_neg hgh, hshown]

/-! ### Updates -/

theorem lastSeen_synced (e : Exporter) (m : Metrics) (k : CounterKey) :
    (e.synced m).lastSeen k.word = m.counter k := by
  rw [lastSeen, synced, (setGauges_counters m _ _).2, ← lastSeen, lastSeen_advanceAll]

theorem total_synced (e : Exporter) (m : Metrics) (k : CounterKey) :
    (e.synced m).total k = e.total k + max 0 (m.counter k - e.lastSeen k.word) := by
  rw [synced, (setGauges_counters m _ _).1, total_advanceAll]

/-- An update fails only for a gauge that its value does not give a double for. -/
theorem update_succeeds_iff :
    (e.update m).1 = none ↔ ∀ g, ∃ x, gaugeNumber (m.shown g) = .ok x := by
  rw [update, gaugeFailure_eq_none_iff]
  exact ⟨fun h g => h g g.mem_all, fun h g _ => h g⟩

theorem gauge_synced {g : GaugeKey} {x : Binary64} (hx : gaugeNumber (m.shown g) = .ok x)
    (hnone : (e.update m).1 = none) : (e.synced m).gauge g = some x := by
  rw [synced]
  exact gauge_setGauges hx (fun g _ => update_succeeds_iff.mp hnone g) (Or.inl g.mem_all)

end Exporter

/-! ### Numbers on gauges -/

theorem gaugeNumber_int (n : Int) : gaugeNumber (.int n) =
    if n.natAbs < Binary64.roundingLimit then .ok (.ofInt n) else .error .tooLarge := by
  have hvalue : gaugeNumber (.int n) = GaugeError.tooLarge.unless (Binary64.ofInt? n) := rfl
  rw [hvalue]
  cases hn : Binary64.ofInt? n with
  | none =>
    rw [if_neg (Nat.not_lt.mpr ((Binary64.ofInt?_eq_none_iff n).mp hn)), GaugeError.unless]
  | some x =>
    have hlt : n.natAbs < Binary64.roundingLimit := by
      refine Nat.lt_of_not_le fun hle => ?_
      rw [(Binary64.ofInt?_eq_none_iff n).mpr hle] at hn
      cases hn
    rw [if_pos hlt, Binary64.eq_ofInt hn, GaugeError.unless]

/-! ### Histories -/

/-- What is done with a set of metrics and the exporter that follows it. -/
inductive ExportStep where
  | scan (scanned withoutManifest : Nat)
  | cycle (succeeded : Bool) (duration : Value) (sizes : TableSizes)
  | resolution (o : Outcome)
  | update
  | reset

namespace ExportStep

/-- The metrics after a history, which lists its steps from the last to the first. -/
def metrics : List ExportStep → Metrics
  | [] => .fresh
  | scan scanned withoutManifest :: earlier =>
    (metrics earlier).recordScan scanned withoutManifest
  | cycle succeeded duration sizes :: earlier =>
    (metrics earlier).recordCycle succeeded duration sizes
  | resolution o :: earlier => (metrics earlier).recordResolution o
  | update :: earlier | reset :: earlier => metrics earlier

/-- What a step does to an exporter; an update that fails leaves it as it then is. -/
def follow (m : Metrics) (e : Exporter) : ExportStep → Exporter
  | update => (e.update m).2
  | reset => e.resetTracking
  | scan _ _ | cycle _ _ _ | resolution _ => e

def exporter : List ExportStep → Exporter
  | [] => .fresh
  | step :: earlier => follow (metrics earlier) (exporter earlier) step

/-- The metric of a counter as the last update saw it, if there was one since the last reset. -/
def latest (k : CounterKey) : List ExportStep → Option Int
  | [] => none
  | update :: earlier => some ((metrics earlier).counter k)
  | reset :: _ => none
  | scan _ _ :: earlier | cycle _ _ _ :: earlier | resolution _ :: earlier => latest k earlier

/-- For every reset, the metric as the last update saw it that came between it and the reset before,
if one did. -/
def carried (k : CounterKey) : List ExportStep → Int
  | [] => 0
  | reset :: earlier => (latest k earlier).getD 0 + carried k earlier
  | scan _ _ :: earlier | cycle _ _ _ :: earlier | resolution _ :: earlier
  | update :: earlier => carried k earlier

variable {history : List ExportStep} {k : CounterKey}

@[simp] theorem exporter_update (history : List ExportStep) :
    exporter (update :: history) = (exporter history).synced (metrics history) := by
  rw [exporter, follow, Exporter.update]

@[simp] theorem exporter_reset (history : List ExportStep) :
    exporter (reset :: history) = (exporter history).resetTracking := rfl

theorem counter_le_cons (step : ExportStep) (history : List ExportStep) (k : CounterKey) :
    (metrics history).counter k ≤ (metrics (step :: history)).counter k := by
  cases step with
  | scan scanned withoutManifest =>
    cases k <;> simp only [metrics, Metrics.recordScan, Metrics.counter] <;> omega
  | cycle succeeded duration sizes =>
    cases succeeded <;> cases k <;> simp only [metrics, Metrics.recordCycle, Metrics.counter] <;>
      omega
  | resolution o =>
    cases k with
    | resolution p =>
      simp only [metrics, Metrics.recordResolution, Metrics.counter, OutcomeCounts.get_bump]
      split <;> omega
    | _ => exact le_rfl
  | update => exact le_rfl
  | reset => exact le_rfl

theorem counter_nonneg (history : List ExportStep) (k : CounterKey) :
    0 ≤ (metrics history).counter k := by
  induction history with
  | nil =>
    cases k with
    | resolution o => cases o <;> exact le_rfl
    | _ => exact le_rfl
  | cons step earlier ih => exact ih.trans (counter_le_cons step earlier k)

/-- What an exporter has exported and what it remembers: the rule that every step keeps. -/
structure Tracks (history : List ExportStep) (k : CounterKey) : Prop where
  total : (exporter history).total k = carried k history + (latest k history).getD 0
  seen : (exporter history).lastSeen k.word = (latest k history).getD 0
  seen_le : (latest k history).getD 0 ≤ (metrics history).counter k

theorem Tracks.update (h : Tracks history k) : Tracks (update :: history) k where
  total := by
    -- What was seen is not beyond the metric, so nothing is cut off.
    have hgrowth := max_eq_right (Int.sub_nonneg_of_le h.seen_le)
    rw [exporter_update, Exporter.total_synced, h.total, h.seen, hgrowth, carried, latest,
      Option.getD_some]
    omega
  seen := by rw [exporter_update, Exporter.lastSeen_synced, latest, Option.getD_some]
  seen_le := le_rfl

theorem Tracks.reset (h : Tracks history k) : Tracks (reset :: history) k where
  total := by
    rw [exporter_reset, Exporter.resetTracking, h.total, carried, latest, Option.getD_none]
    omega
  seen := rfl
  seen_le := counter_nonneg _ k

theorem Tracks.record {step : ExportStep} (h : Tracks history k)
    (hexporter : exporter (step :: history) = exporter history)
    (hcarried : carried k (step :: history) = carried k history)
    (hlatest : latest k (step :: history) = latest k history) : Tracks (step :: history) k where
  total := by rw [hexporter, hcarried, hlatest, h.total]
  seen := by rw [hexporter, hlatest, h.seen]
  seen_le := by
    rw [hlatest]
    exact h.seen_le.trans (counter_le_cons step history k)

theorem tracks (history : List ExportStep) (k : CounterKey) : Tracks history k := by
  induction history with
  | nil => exact ⟨rfl, rfl, counter_nonneg [] k⟩
  | cons step earlier ih =>
    cases step with
    | update => exact ih.update
    | reset => exact ih.reset
    | scan _ _ => exact ih.record rfl rfl rfl
    | cycle _ _ _ => exact ih.record rfl rfl rfl
    | resolution _ => exact ih.record rfl rfl rfl

theorem total_of_update (history : List ExportStep) (k : CounterKey) :
    (exporter (update :: history)).total k = (metrics history).counter k + carried k history := by
  rw [(tracks history k).update.total, carried, latest, Option.getD_some, Int.add_comm]

theorem total_le_cons (step : ExportStep) (history : List ExportStep) (k : CounterKey) :
    (exporter history).total k ≤ (exporter (step :: history)).total k := by
  cases step with
  | update =>
    rw [exporter_update, Exporter.total_synced]
    exact Int.le_add_of_nonneg_right (le_max_left _ _)
  | _ => exact le_rfl

theorem total_le_append (later history : List ExportStep) (k : CounterKey) :
    (exporter history).total k ≤ (exporter (later ++ history)).total k := by
  induction later with
  | nil => exact le_rfl
  | cons step later ih => exact ih.trans (total_le_cons step _ k)

theorem carried_of_no_reset (h : reset ∉ history) (k : CounterKey) : carried k history = 0 := by
  induction history with
  | nil => rfl
  | cons step earlier ih =>
    rw [List.mem_cons, not_or] at h
    cases step with
    | reset => exact absurd rfl h.1
    | _ => exact ih h.2

/-- How an exporter has followed metrics over a history: what the counters and gauges are after one
more update, and when that update fails. Gauges show floats and small whole numbers as they are. -/
structure Follows (history : List ExportStep) : Prop where
  never_decreases : ∀ later k, (exporter history).total k ≤ (exporter (later ++ history)).total k
  total : ∀ k, (exporter (update :: history)).total k =
    (metrics history).counter k + carried k history
  total_of_no_reset : reset ∉ history →
    ∀ k, (exporter (update :: history)).total k = (metrics history).counter k
  succeeds_iff : ((exporter history).update (metrics history)).1 = none ↔
    ∀ g, ∃ x, gaugeNumber ((metrics history).shown g) = .ok x
  gauge : ((exporter history).update (metrics history)).1 = none →
    ∀ g, ∃ x, gaugeNumber ((metrics history).shown g) = .ok x ∧
      (exporter (update :: history)).gauge g = some x
  gaugeNumber_float : ∀ x, gaugeNumber (.float x) = .ok x
  gaugeNumber_int : ∀ n, gaugeNumber (.int n) =
    if n.natAbs < Binary64.roundingLimit then .ok (.ofInt n) else .error .tooLarge
  int_exact : ∀ n : Int, n.natAbs < 2 ^ 53 → (Binary64.ofInt n).toInt? = some n

theorem exporter_follows (history : List ExportStep) : Follows history where
  never_decreases later k := total_le_append later history k
  total := total_of_update history
  total_of_no_reset hreset k := by
    rw [total_of_update, carried_of_no_reset hreset, Int.add_zero]
  succeeds_iff := Exporter.update_succeeds_iff
  gauge hnone g := by
    obtain ⟨x, hx⟩ := Exporter.update_succeeds_iff.mp hnone g
    exact ⟨x, hx, exporter_update history ▸ Exporter.gauge_synced hx hnone⟩
  gaugeNumber_float _ := rfl
  gaugeNumber_int := PackIndex.gaugeNumber_int
  int_exact _ := Binary64.toInt?_ofInt

/-- The history of one cycle, which found so many names of variants. -/
def named (names : Int) : List ExportStep :=
  [cycle true (.float .zero) ⟨names, 3, 1, 1, 0⟩, scan 4 1]

theorem update_named {names : Int} (h : names.natAbs < 2 ^ 64) :
    ((exporter (named names)).update (metrics (named names))).1 = none := by
  have hwhole (n : Int) (hn : n.natAbs < 2 ^ 64) : ∃ x, gaugeNumber (.int n) = .ok x :=
    ⟨_, (gaugeNumber_int n).trans (if_pos (hn.trans_le Binary64.le_roundingLimit))⟩
  refine Exporter.update_succeeds_iff.mpr fun g => ?_
  match g with
  | .names .variants => exact hwhole names h
  | .names .symbols => exact hwhole 1 (by decide)
  | .items .variants => exact hwhole 3 (by decide)
  | .items .symbols => exact hwhole 1 (by decide)
  | .lastDuration => exact ⟨_, rfl⟩

theorem exporter_follows_named : (exporter (update :: named 2)).total .packagesScanned = 4 ∧
    (exporter (update :: named 2)).gauge (.names .variants) = some (.ofInt 2) ∧
    (Binary64.ofInt 2).toInt? = some 2 := by
  have hfollows := exporter_follows (named 2)
  obtain ⟨x, hx, hgauge⟩ := hfollows.gauge (update_named (by decide)) (.names .variants)
  have hshown : (metrics (named 2)).shown (.names .variants) = .int 2 := rfl
  have hlt : (2 : Int).natAbs < Binary64.roundingLimit :=
    Nat.lt_of_lt_of_le (by decide) Binary64.le_roundingLimit
  rw [hshown, hfollows.gaugeNumber_int, if_pos hlt] at hx
  refine ⟨hfollows.total_of_no_reset (by simp [named]) .packagesScanned, ?_,
    hfollows.int_exact 2 (by decide)⟩
  rw [hgauge, Except.ok.inj hx]

/-- A gauge does not show a whole number that is no double, but the one nearest to it. -/
theorem gauge_rounded :
    (metrics (named 9007199254740993)).shown (.names .variants) = .int 9007199254740993 ∧
    ∃ x, (exporter (update :: named 9007199254740993)).gauge (.names .variants) = some x ∧
      x.toInt? = some 9007199254740992 := by
  have hlt : (9007199254740993 : Int).natAbs < Binary64.roundingLimit :=
    Nat.lt_of_lt_of_le (by decide) Binary64.le_roundingLimit
  refine ⟨rfl, .ofInt 9007199254740993, ?_, by decide +kernel⟩
  rw [exporter_update]
  refine Exporter.gauge_synced ?_ (update_named (by decide))
  exact (gaugeNumber_int _).trans (if_pos hlt)

end ExportStep

end PackIndex
