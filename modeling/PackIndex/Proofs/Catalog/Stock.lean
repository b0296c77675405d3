import PackIndex.Proofs.Catalog.Lifetime

/-!
# What the items of a catalog come from

Whatever reads the entries of packages, the tables of a catalog hold entries that a cycle was offered
in the name of their archives. So each item stands under its own name in lower case and names the
archive it comes from, and an item of a manifest has a positive version.
-/

namespace PackIndex

namespace ItemTable

variable {t u : ItemTable} {kept : List Submission}

/-- The same submissions are held by a table that has the same entries and treats them alike. -/
theorem Holds.of_sameEntries (h : t.Holds kept) (hsame : SameEntries t u) (hkind : u.kind = t.kind)
    (hallow : u.allowAliases = t.allowAliases) : u.Holds kept := by
  have hnames : u.names = t.names := by rw [names, names, hsame.groups]
  have hw := h.wellFormed
  refine ⟨⟨?_, ?_, ?_, ?_, ?_, ?_, ?_⟩, fun name => ?_, fun key name => ?_⟩
  · exact hnames ▸ hw.names_nodup
  · exact hsame.groups ▸ hw.groups
  · exact hsame.aliases ▸ hw.aliases_nodup
  · exact hsame.aliases ▸ hw.alias_ne_empty
  · rw [hsame.aliases, hnames]
    exact hw.alias_not_name
  · rw [hsame.aliases, hnames]
    exact hw.alias_leads
  · rw [hsame.aliases, hallow]
    exact hw.aliases_allowed
  · rw [itemsOf, hsame.groupNamed?, hkind]
    exact h.items name
  · rw [hsame.aliasOwner?, hallow]
    exact h.aliases key name

end ItemTable

namespace Catalog

variable {t : FileTree} {c d : Catalog} {kind : PackKind} {s : Submission}

/-- A table that holds entries offered in the name of their archives. -/
def Stocked (c : Catalog) (kind : PackKind) : Prop :=
  ∃ kept, (c.table kind).Holds kept ∧ ∀ s ∈ kept, s.packageName = s.source.name ∧
    (c.loader kind = .manifests → s.entry.version.isPositive = true)

theorem stocked_of_holds_nil (h : (c.table kind).Holds []) : c.Stocked kind :=
  ⟨[], h, fun _ hs => absurd hs List.not_mem_nil⟩

theorem packageName_of_offered (hs : s ∈ c.offered t kind) : s.packageName = s.source.name := by
  obtain ⟨found, -, l, -, entries, -, e, -, rfl⟩ := mem_offered_iff.mp hs
  rfl

theorem isPositive_of_offered (hloader : c.loader kind = .manifests) (hs : s ∈ c.offered t kind) :
    s.entry.version.isPositive = true := by
  obtain ⟨found, -, l, -, entries, hload, e, he, rfl⟩ := mem_offered_iff.mp hs
  simp only [loadEntries, hloader, result_mapError, load_result, mapError_eq_ok_iff] at hload
  exact (describes_of_load? hload he).isPositive

theorem stocked_create {config : CatalogConfig} {shared : Option SharedNamespace}
    {loader : PackKind → PackLoader} (h : create t config shared loader = .ok c)
    (kind : PackKind) : c.Stocked kind := by
  obtain ⟨ns, rfl, -⟩ := create_cases h
  cases kind with
  | variants => exact stocked_of_holds_nil (ItemTable.holds_empty .variants ns.isSome)
  | symbols => exact stocked_of_holds_nil (ItemTable.holds_empty .symbols ns.isSome)

theorem stocked_rebuild (t : FileTree) (c : Catalog) (kind : PackKind) :
    (c.rebuild t).1.Stocked kind := by
  have hloader := (rebuild_spec t c).1.loader
  rcases rebuild_cases t c with ⟨-, -, -, hok⟩ | ⟨left, e, -, hleft, -⟩
  · refine ⟨c.admitted t kind, holds_rebuild hok kind, fun s hs => ?_⟩
    have hoffered := offered_of_admitted hs
    exact ⟨packageName_of_offered hoffered,
      fun hmanifests => isPositive_of_offered (hloader ▸ hmanifests) hoffered⟩
  · have hclear : (left.failed e).table kind = (left.table kind).clear :=
      table_clearTables left kind
    exact stocked_of_holds_nil (hleft ▸ hclear ▸ ItemTable.holds_clear _)

theorem Stocked.ask (h : c.Stocked kind) (t : FileTree) (q : Query) :
    (c.ask t q).2.Stocked kind := by
  obtain ⟨kept, hholds, hkept⟩ := h
  have hstock := sameStock_ask t c q
  refine ⟨kept, hholds.of_sameEntries (hstock.entries kind) (hstock.plan.kinds kind)
    (hstock.plan.allowAliases kind), fun s hs => ?_⟩
  rw [hstock.plan.loader]
  exact hkept s hs

theorem Stocked.perform (h : c.Stocked kind) (t : FileTree) (call : Call) :
    (c.perform t call).2.Stocked kind := by
  cases call with
  | rebuild => exact stocked_rebuild t c kind
  | ask q => exact h.ask t q

namespace Stocked

variable (h : c.Stocked kind)
include h

theorem lower_name {name : String} (hname : name ∈ (c.table kind).names) :
    Text.lower name = name := by
  obtain ⟨kept, hholds, -⟩ := h
  obtain ⟨s, -, rfl⟩ := hholds.mem_names_iff.mp hname
  exact Text.lower_lower s.entry.name

theorem comparable {name : String}
    (hn : ∀ i ∈ (c.table kind).itemsOf name, i.version.isNaN = false) :
    Selection.Comparable Item.version ((c.table kind).itemsOf name) := by
  obtain ⟨kept, hholds, -⟩ := h
  exact ⟨hn, hholds.wellFormed.differ_itemsOf name⟩

variable {name : String} {i : Item} (hi : i ∈ (c.table kind).itemsOf name)
include hi

theorem lower_displayName : Text.lower i.displayName = name := by
  obtain ⟨kept, hholds, -⟩ := h
  obtain ⟨s, -, hkey, rfl⟩ := hholds.mem_itemsOf_iff.mp hi
  exact hkey

theorem packageName_eq : i.packageName = i.source.name := by
  obtain ⟨kept, hholds, hkept⟩ := h
  obtain ⟨s, hs, -, rfl⟩ := hholds.mem_itemsOf_iff.mp hi
  exact (hkept s hs).1

theorem isPositive (hloader : c.loader kind = .manifests) : i.version.isPositive = true := by
  obtain ⟨kept, hholds, hkept⟩ := h
  obtain ⟨s, hs, -, rfl⟩ := hholds.mem_itemsOf_iff.mp hi
  exact (hkept s hs).2 hloader

end Stocked

end Catalog

theorem GuardedCatalog.Reached.stocked {g : GuardedCatalog} (h : g.Reached) (kind : PackKind) :
    g.catalog.Stocked kind := by
  induction h with
  | created h => exact Catalog.stocked_create h kind
  | @called g g' result t thread call hg hcall ih =>
    rw [call?_of_free hg.lock_free] at hcall
    obtain ⟨-, rfl⟩ := Prod.mk.inj (Option.some.inj hcall)
    exact ih.perform t call

end PackIndex
