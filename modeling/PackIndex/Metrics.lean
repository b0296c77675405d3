import PackIndex.Resource.Resolver

/-!
# Metrics

Counters of the catalog's work: building cycles, scanned packages, table sizes after the last
cycle, and resource look-ups by outcome.
-/

namespace PackIndex

structure OutcomeCounts where
  deconflicted : Int
  absolute : Int
  package : Int
  unresolved : Int
  deriving DecidableEq

namespace OutcomeCounts

def zero : OutcomeCounts := ⟨0, 0, 0, 0⟩

def get (c : OutcomeCounts) : Outcome → Int
  | .deconflicted => c.deconflicted
  | .absolute => c.absolute
  | .package => c.package
  | .unresolved => c.unresolved

def bump (c : OutcomeCounts) : Outcome → OutcomeCounts
  | .deconflicted => { c with deconflicted := c.deconflicted + 1 }
  | .absolute => { c with absolute := c.absolute + 1 }
  | .package => { c with package := c.package + 1 }
  | .unresolved => { c with unresolved := c.unresolved + 1 }

def total (c : OutcomeCounts) : Int := c.deconflicted + c.absolute + c.package + c.unresolved

theorem get_bump (c : OutcomeCounts) (o p : Outcome) :
    (c.bump o).get p = if p = o then c.get p + 1 else c.get p := by
  cases o <;> cases p <;> rfl

theorem total_bump (c : OutcomeCounts) (o : Outcome) : (c.bump o).total = c.total + 1 := by
  cases o <;> simp only [bump, total] <;> omega

end OutcomeCounts

/-- Sizes of the tables after a cycle, and the duplicates it passed over. -/
structure TableSizes where
  variantNames : Int
  variantItems : Int
  symbolPackNames : Int
  symbolPackItems : Int
  duplicatesSkipped : Int
  deriving DecidableEq

def TableSizes.none : TableSizes := ⟨0, 0, 0, 0, 0⟩

structure Metrics where
  initCycles : Int
  initFailures : Int
  packagesScanned : Int
  packagesWithoutManifest : Int
  duplicatesSkipped : Int
  variantNames : Int
  variantItems : Int
  symbolPackNames : Int
  symbolPackItems : Int
  /-- How long the last cycle took, in milliseconds, as it was given. -/
  lastDuration : Value
  resolutions : OutcomeCounts

namespace Metrics

def fresh : Metrics := ⟨0, 0, 0, 0, 0, 0, 0, 0, 0, .float .zero, .zero⟩

def recordScan (m : Metrics) (scanned withoutManifest : Int) : Metrics :=
  { m with
    packagesScanned := m.packagesScanned + scanned
    packagesWithoutManifest := m.packagesWithoutManifest + withoutManifest }

def recordCycle (m : Metrics) (succeeded : Bool) (duration : Value) (sizes : TableSizes) :
    Metrics :=
  { m with
    initCycles := m.initCycles + 1
    initFailures := m.initFailures + if succeeded then 0 else 1
    lastDuration := duration
    variantNames := sizes.variantNames
    variantItems := sizes.variantItems
    symbolPackNames := sizes.symbolPackNames
    symbolPackItems := sizes.symbolPackItems
    duplicatesSkipped := m.duplicatesSkipped + sizes.duplicatesSkipped }

def recordResolution (m : Metrics) (o : Outcome) : Metrics :=
  { m with resolutions := m.resolutions.bump o }

def unknownOutcome (given : Value) : String := "Unknown resolution outcome: " ++ given.quotedText

def toFields (m : Metrics) : Fields :=
  [("init_cycles", .int m.initCycles), ("init_failures", .int m.initFailures),
    ("packages_scanned", .int m.packagesScanned),
    ("packages_without_manifest", .int m.packagesWithoutManifest),
    ("duplicates_skipped", .int m.duplicatesSkipped), ("variant_names", .int m.variantNames),
    ("variant_items", .int m.variantItems), ("symbol_pack_names", .int m.symbolPackNames),
    ("symbol_pack_items", .int m.symbolPackItems), ("last_init_duration_ms", m.lastDuration),
    ("resolutions", .dict (Outcome.all.map fun o => (o.word, .int (m.resolutions.get o))))]

end Metrics

end PackIndex
