import PackIndex.Metrics
import PackIndex.Validation.Scalar

/-!
# Exporting metrics

The exporter brings metrics into counters that only grow and gauges that are set. A counter grows by
how much its metric grew since the last update; after the tracking is reset, the next update counts
from zero again. What was last seen stands in one mapping for all counters. A gauge shows a double,
so an update fails at the first gauge whose number no double is near or that is given no number; by
then the counters have grown. Labelled counters and gauges exist from the first time they are used.
-/

namespace PackIndex

inductive CounterKey where
  | initCycles
  | initFailures
  | packagesScanned
  | packagesWithoutManifest
  | resolution (o : Outcome)
  deriving DecidableEq

namespace CounterKey

/-- The key under which an exporter remembers a counter. -/
def word : CounterKey → String
  | initCycles => "init_cycles"
  | initFailures => "init_failures"
  | packagesScanned => "packages_scanned"
  | packagesWithoutManifest => "packages_without_manifest"
  | resolution o => "res:" ++ o.word

/-- The counters in the order in which an update brings them up to date. -/
def all : List CounterKey :=
  [initCycles, initFailures, packagesScanned, packagesWithoutManifest] ++
    Outcome.all.map resolution

end CounterKey

inductive GaugeKey where
  | names (kind : PackKind)
  | items (kind : PackKind)
  | lastDuration
  deriving DecidableEq

/-- The gauges in the order in which an update sets them. -/
def GaugeKey.all : List GaugeKey :=
  [names .variants, names .symbols, items .variants, items .symbols, lastDuration]

inductive GaugeError where
  | tooLarge
  | unreadable (text : String)
  | notNumber (given : Value)

def GaugeError.message : GaugeError → String
  | tooLarge => "int too large to convert to float"
  | unreadable text => "could not convert string to float: " ++ Text.quoted text
  | notNumber given =>
    "float() argument must be a string or a real number, not '" ++ given.typeName ++ "'"

namespace Metrics

def counter (m : Metrics) : CounterKey → Int
  | .initCycles => m.initCycles
  | .initFailures => m.initFailures
  | .packagesScanned => m.packagesScanned
  | .packagesWithoutManifest => m.packagesWithoutManifest
  | .resolution o => m.resolutions.get o

def shown (m : Metrics) : GaugeKey → Value
  | .names .variants => .int m.variantNames
  | .names .symbols => .int m.symbolPackNames
  | .items .variants => .int m.variantItems
  | .items .symbols => .int m.symbolPackItems
  | .lastDuration => m.lastDuration

end Metrics

def GaugeError.unless (e : GaugeError) : Option Binary64 → Except GaugeError Binary64
  | some x => .ok x
  | none => .error e

/-- The double that a gauge shows for a value. -/
def gaugeNumber : Value → Except GaugeError Binary64
  | .int n => GaugeError.tooLarge.unless (Binary64.ofInt? n)
  | .float x => .ok x
  | .bool b => .ok (.ofInt (if b then 1 else 0))
  | .str s => (GaugeError.unreadable s).unless
      (Checked.numberOf? (Text.trimChars Text.isBlank s.toList))
  | given => .error (.notNumber given)

structure Exporter where
  total : CounterKey → Int
  /-- The metrics seen by the last update since tracking was reset. -/
  seen : List (String × Int)
  gauge : GaugeKey → Option Binary64
  /-- Whether an update has created the labelled counters. -/
  labelled : Bool

namespace Exporter

def fresh : Exporter where
  total := fun _ => 0
  seen := []
  gauge := fun k => if k = .lastDuration then some .zero else none
  labelled := false

def lastSeen (e : Exporter) (word : String) : Int := (e.seen.lookup word).getD 0

/-- Brings a counter up to date by how much its metric grew, and remembers the metric. -/
def advance (e : Exporter) (k : CounterKey) (current : Int) : Exporter :=
  let growth := current - e.lastSeen k.word
  { e with
    total := fun j => if j = k ∧ 0 < growth then e.total j + growth else e.total j
    seen := (k.word, current) :: e.seen.filter fun entry => entry.1 ≠ k.word }

def advanceAll (e : Exporter) (m : Metrics) : Exporter :=
  { CounterKey.all.foldl (fun e k => e.advance k (m.counter k)) e with labelled := true }

def showGauge (e : Exporter) (k : GaugeKey) (x : Binary64) : Exporter :=
  { e with gauge := fun j => if j = k then some x else e.gauge j }

/-- Why gauges cannot be set: the first one of them that fails. -/
def gaugeFailure (m : Metrics) : List GaugeKey → Option GaugeError
  | [] => none
  | k :: rest =>
    match gaugeNumber (m.shown k) with
    | .ok _ => gaugeFailure m rest
    | .error e => some e

/-- Sets gauges one after the other, up to the first that fails; that one exists, too, and shows
what it did before, or zero. -/
def setGauges (m : Metrics) : Exporter → List GaugeKey → Exporter
  | e, [] => e
  | e, k :: rest =>
    match gaugeNumber (m.shown k) with
    | .ok x => setGauges m (e.showGauge k x) rest
    | .error _ => e.showGauge k ((e.gauge k).getD .zero)

def synced (e : Exporter) (m : Metrics) : Exporter := setGauges m (e.advanceAll m) GaugeKey.all

/-- Brings the exporter up to date; an update that fails does so after the counters have grown. -/
def update (e : Exporter) (m : Metrics) : Option GaugeError × Exporter :=
  (gaugeFailure m GaugeKey.all, e.synced m)

/-- Forgets what the last update saw; the exported counters stay. -/
def resetTracking (e : Exporter) : Exporter := { e with seen := [] }

/-! ## Exposition -/

inductive FamilyType where
  | counter
  | gauge
  deriving DecidableEq

def FamilyType.word : FamilyType → String
  | .counter => "counter"
  | .gauge => "gauge"

structure Sample where
  labels : List (String × String)
  value : Binary64

structure Family where
  name : String
  help : String
  type : FamilyType
  samples : List Sample

def plainCounter (e : Exporter) (name help : String) (key : CounterKey) : Family :=
  ⟨"packcatalog_" ++ name ++ "_total", help, .counter, [⟨[], .ofInt (e.total key)⟩]⟩

def kindGauge (e : Exporter) (name help : String) (key : PackKind → GaugeKey) : Family :=
  ⟨"packcatalog_" ++ name, help, .gauge, [PackKind.variants, PackKind.symbols].filterMap fun kind =>
    (e.gauge (key kind)).map fun x => ⟨[("kind", kind.word)], x⟩⟩

def families (e : Exporter) : List Family :=
  [e.plainCounter "init_cycles" "Catalog initialization cycles attempted" .initCycles,
    e.plainCounter "init_failures" "Catalog initialization cycles that failed" .initFailures,
    e.plainCounter "packages_scanned" "Pack archives found on the search paths" .packagesScanned,
    e.plainCounter "packages_without_manifest"
      "Pack archives skipped because they carry no manifest" .packagesWithoutManifest,
    ⟨"packcatalog_resource_resolutions_total",
      "Resource lookups by the fallback step that answered them", .counter,
      (if e.labelled then Outcome.all else []).map fun o =>
        ⟨[("outcome", o.word)], .ofInt (e.total (.resolution o))⟩⟩,
    e.kindGauge "registered_names" "Distinct names currently registered" .names,
    e.kindGauge "registered_items" "Registered items (all versions) currently in the catalog"
      .items,
    ⟨"packcatalog_last_init_duration_ms",
      "Duration of the most recent initialization in milliseconds", .gauge,
      (e.gauge .lastDuration).toList.map fun x => ⟨[], x⟩⟩]

/-- The value of a sample, if it exists under this name with exactly these labels. -/
def sample? (e : Exporter) (name : String) (labels : List (String × String)) : Option Binary64 :=
  (e.families.find? fun f => f.name = name).bind fun f =>
    (f.samples.find? fun s => s.labels = labels).map Sample.value

def valueText (x : Binary64) : String :=
  match x with
  | .nan => "NaN"
  | .signed negative rank _ =>
    if rank = infinityRank then if negative then "-Inf" else "+Inf"
    else
      let text := (x.text .plain).toList
      let whole := text.takeWhile (· ≠ '.')
      if x.isPositive ∧ '.' ∈ text ∧ 6 < whole.length then
        let digits := whole.take 1 ++ '.' :: whole.drop 1 ++ text.drop (whole.length + 1)
        String.ofList (Text.dropEndWhile (fun c => c == '0' || c == '.') digits) ++ "e+0" ++
          Number.natText (whole.length - 1)
      else String.ofList text

def labelsText (labels : List (String × String)) : String :=
  if labels = [] then ""
  else
    "\x7b" ++ ",".intercalate (labels.map fun (name, value) => name ++ "=\"" ++ value ++ "\"") ++
      "\x7d"

def familyLines (f : Family) : List String :=
  ["# HELP " ++ f.name ++ " " ++ f.help, "# TYPE " ++ f.name ++ " " ++ f.type.word] ++
    f.samples.map fun s => f.name ++ labelsText s.labels ++ " " ++ valueText s.value

def exposition (e : Exporter) : List String := e.families.flatMap familyLines

end Exporter

end PackIndex
