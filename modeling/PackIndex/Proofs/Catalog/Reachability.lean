import PackIndex.Catalog.Session
import PackIndex.Proofs.Catalog.Cycle
import PackIndex.Proofs.Manifest.Entries
import PackIndex.Proofs.Registry.Answers
import PackIndex.Proofs.Registry.Run
import PackIndex.Proofs.Version.Selector

/-!
# Everything admitted can be asked for

After a cycle that succeeds, every manifest entry that was admitted is the answer to its own name
and version, and for variants to each of its aliases. So the checks of manifests, the keys of names,
the mapping of aliases and the reading of selectors fit together: a version that a manifest may have
is never read as a sentinel, and a name never leads past its own group.
-/

namespace PackIndex

/-- The names that a submission is admitted under: its own and, for a variant, its aliases. -/
def Submission.Named (kind : PackKind) (s : Submission) (name : String) : Prop :=
  name = s.entry.name ∨
  kind = .variants ∧ ∃ word ∈ s.entry.aliases, Text.strip word ≠ "" ∧ name = Text.strip word

namespace Catalog

variable {t : FileTree} {c d : Catalog} {kind : PackKind} {s : Submission} {kept : List Submission}

/-! ### The life of a catalog -/

/-- Catalogs that read manifests, at any point of their life. -/
inductive Reached : Catalog → Prop
  | created {t : FileTree} {config : CatalogConfig} {shared : Option SharedNamespace} {c : Catalog}
      (h : create t config shared (fun _ => .manifests) = .ok c) : Reached c
  | rebuilt {c : Catalog} (t : FileTree) (h : Reached c) : Reached (c.rebuild t).1
  | listed {c : Catalog} (kind : PackKind) (h : Reached c) : Reached (c.latest kind).2
  | resolved {c : Catalog} (found : Traced ResolutionError Resolution) (h : Reached c) :
      Reached (c.counted found).2
  | drawn {c : Catalog} (map : Option MapStyle) (name : Option String) (version : Value)
      (h : Reached c) : Reached (c.symbolPack map name version).2

/-- A catalog that reads manifests, with a table for each kind and aliases of variants. -/
structure Furnished (c : Catalog) : Prop where
  loader : ∀ kind, c.loader kind = .manifests
  kinds : ∀ kind, (c.table kind).kind = kind
  allowAliases : c.variants.allowAliases = true

theorem Furnished.of_samePlan (h : c.Furnished) (hp : SamePlan c d) : d.Furnished where
  loader kind := by rw [hp.loader, h.loader]
  kinds kind := by rw [hp.kinds, h.kinds]
  allowAliases := (hp.allowAliases .variants).trans h.allowAliases

theorem furnished_ofNamespace (config : CatalogConfig) (shared : Option SharedNamespace) :
    (ofNamespace config shared fun _ => .manifests).Furnished :=
  ⟨fun _ => rfl, fun kind => by cases kind <;> rfl, rfl⟩

/-- A new catalog keeps the configuration, and the namespace if one is given. -/
theorem create_cases {config : CatalogConfig} {shared : Option SharedNamespace}
    {loader : PackKind → PackLoader} (h : create t config shared loader = .ok c) :
    ∃ ns, c = ofNamespace config ns loader ∧
      (ns = none → config.sharedNamespaceEnabled = false) := by
  unfold create at h
  split at h
  · next ns => exact ⟨some ns, (Except.ok.inj h).symm, nofun⟩
  · split at h
    · obtain ⟨ns, -, rfl⟩ := map_eq_ok_iff.mp h
      exact ⟨some ns, rfl, nofun⟩
    · next hdisabled =>
      exact ⟨none, (Except.ok.inj h).symm, fun _ => Bool.eq_false_iff.mpr hdisabled⟩

theorem samePlan_latest (c : Catalog) (kind : PackKind) : SamePlan c (c.latest kind).2 := by
  have htable := ItemTable.latest_snd_eq (c.table kind)
  unfold latest
  split
  · exact .refl c
  · simp only
    apply samePlan_setTable
    · rw [htable]
    · rw [htable]

theorem counted_snd (c : Catalog) (found : Traced ResolutionError Resolution) :
    (c.counted found).2 = c ∨ ∃ m, (c.counted found).2 = { c with metrics := m } := by
  unfold counted
  split
  · exact Or.inl rfl
  · split
    · exact Or.inl rfl
    · next r _ => exact Or.inr ⟨c.metrics.recordResolution r.outcome, rfl⟩

/-- Choosing a symbol pack changes no more than listing the symbol packs does. -/
theorem symbolPack_snd (c : Catalog) (map : Option MapStyle) (name : Option String)
    (version : Value) : (c.symbolPack map name version).2 = c ∨
      (c.symbolPack map name version).2 = (c.latest .symbols).2 := by
  unfold symbolPack
  split
  · exact Or.inl rfl
  · simp only
    split
    · exact Or.inl rfl
    · split
      · exact Or.inl rfl
      · split
        · exact Or.inl rfl
        · split <;> next hl => exact Or.inr (congrArg Prod.snd hl).symm

/-- What holds of new catalogs, and is kept by cycles, listings and counts, holds at any point. -/
theorem Reached.invariant {P : Catalog → Prop}
    (hcreated : ∀ config ns, (ns = none → config.sharedNamespaceEnabled = false) →
      P (ofNamespace config ns fun _ => .manifests))
    (hrebuilt : ∀ c t, Reached c → P c → P (c.rebuild t).1)
    (hlisted : ∀ c kind, P c → P (c.latest kind).2)
    (hcounted : ∀ c m, P c → P { c with metrics := m }) (h : Reached c) : P c := by
  induction h with
  | created h =>
    obtain ⟨ns, rfl, hnone⟩ := create_cases h
    exact hcreated _ ns hnone
  | rebuilt t h ih => exact hrebuilt _ t h ih
  | listed kind _ ih => exact hlisted _ kind ih
  | @resolved c found _ ih =>
    rcases counted_snd c found with heq | ⟨m, heq⟩
    · rw [heq]
      exact ih
    · rw [heq]
      exact hcounted c m ih
  | @drawn c map name version _ ih =>
    rcases symbolPack_snd c map name version with heq | heq
    · rw [heq]
      exact ih
    · rw [heq]
      exact hlisted c .symbols ih

theorem Reached.furnished (h : Reached c) : c.Furnished := by
  refine h.invariant ?_ ?_ ?_ ?_
  · exact fun config ns _ => furnished_ofNamespace config ns
  · exact fun c t _ ih => ih.of_samePlan (rebuild_spec t c).1
  · exact fun c kind ih => ih.of_samePlan (samePlan_latest c kind)
  · exact fun c m ih => ih.of_samePlan (samePlan_metrics c m)

theorem list_snd (c : Catalog) (kind : Value) :
    (c.list kind).2 = c ∨ ∃ listed, (c.list kind).2 = (c.latest listed).2 := by
  unfold list
  split
  · exact Or.inl rfl
  · exact Or.inl rfl
  · next listed _ _ => exact Or.inr ⟨listed, rfl⟩

theorem Reached.ask (h : Reached c) (t : FileTree) (q : Query) : Reached (c.ask t q).2 := by
  cases q with
  | list kind =>
    have hlist : (c.ask t (.list kind)).2 = (c.list kind).2 := rfl
    rw [hlist]
    rcases list_snd c kind with heq | ⟨listed, heq⟩
    · rw [heq]
      exact h
    · rw [heq]
      exact h.listed listed
  | resolve item ref => exact h.resolved (Resolver.resolveGiven t c.shared item ref)
  | resolveInPackage l ref => exact h.resolved (Resolver.resolveInGiven t c.shared l ref)
  | symbolPack map name version => exact h.drawn map name version
  | get | versions | hasVersion | aliases | summary => exact h

theorem Reached.perform (h : Reached c) (t : FileTree) (call : Call) :
    Reached (c.perform t call).2 := by
  cases call with
  | rebuild => exact h.rebuilt t
  | ask q => exact h.ask t q

theorem Reached.session (h : Reached c) (calls : List (FileTree × Call)) :
    Reached (c.session calls).2 := by
  induction calls generalizing c with
  | nil => exact h
  | cons call rest ih => exact ih (h.perform call.1 call.2)

/-! ### What is offered to a table -/

theorem load_result (kind : PackKind) (t : FileTree) (l : Location) (manifest : String) :
    (Manifest.load kind t l manifest).result = Manifest.load? kind t l manifest := by
  simp only [Manifest.load, Traced.result_bind, Traced.result_ofExcept]
  rcases Manifest.load? kind t l manifest with e | _ | entries <;> rfl

/-- The archive is one that a cycle looks into, and the entry is one of its manifest. -/
def Lists (t : FileTree) (c : Catalog) (kind : PackKind) (l : Location) (e : ManifestEntry) :
    Prop :=
  ∃ found, (c.locations t kind).result = .ok found ∧ l ∈ found ∧ ∃ entries,
    Manifest.load? kind t l (c.manifestName kind) = .ok (some entries) ∧ e ∈ entries

/-- What a furnished catalog offers to a table comes from the manifests of the table's kind. -/
theorem Furnished.mem_offered_iff (h : c.Furnished) : s ∈ c.offered t kind ↔
    s.packageName = s.source.name ∧ c.Lists t kind s.source s.entry := by
  simp only [Catalog.mem_offered_iff, loadEntries, h.loader, result_mapError, load_result,
    mapError_eq_ok_iff]
  constructor
  · rintro ⟨found, hfound, l, hl, entries, hload, e, he, rfl⟩
    exact ⟨rfl, found, hfound, hl, entries, hload, he⟩
  · rintro ⟨hpackage, found, hfound, hl, entries, hload, he⟩
    exact ⟨found, hfound, s.source, hl, entries, hload, s.entry, he, by rw [← hpackage]⟩

theorem describes_of_load? {l : Location} {manifest : String} {entries : List ManifestEntry}
    (h : Manifest.load? kind t l manifest = .ok (some entries)) {e : ManifestEntry}
    (he : e ∈ entries) : Manifest.Describes kind e := by
  unfold Manifest.load? at h
  split at h
  · cases h
  · cases h
  · split at h
    · cases h
    · split at h
      · cases h
      · next hfound =>
        obtain rfl := Option.some.inj (Except.ok.inj h)
        exact Manifest.describes_of_mem_entries hfound he

theorem Furnished.describes (h : c.Furnished) (hs : s ∈ c.offered t kind) :
    Manifest.Describes kind s.entry := by
  obtain ⟨-, -, -, -, entries, hload, he⟩ := h.mem_offered_iff.mp hs
  exact describes_of_load? hload he

/-! ### Asking for what was admitted -/

/-- What a cycle admits to a table. -/
def admitted (t : FileTree) (c : Catalog) (kind : PackKind) : List Submission :=
  (c.table kind).clear.admittedFrom (c.offered t kind)

theorem offered_of_admitted (hs : s ∈ c.admitted t kind) : s ∈ c.offered t kind :=
  (ItemTable.admittedFrom_sublist _ _).subset hs

theorem holds_rebuild (hok : (c.rebuild t).2.result = .ok ()) (kind : PackKind) :
    ((c.rebuild t).1.table kind).Holds (c.admitted t kind) := by
  obtain ⟨-, hbuilt⟩ := rebuild_spec t c
  obtain ⟨-, hsubmit⟩ := hbuilt hok
  exact ((ItemTable.holds_clear _).submitAll (hsubmit kind)).1

/-- An entry that is offered is admitted, or its version has been admitted from elsewhere. -/
theorem admitted_or_held (hok : (c.rebuild t).2.result = .ok ()) (hs : s ∈ c.offered t kind) :
    s ∈ c.admitted t kind ∨ (c.table kind).tolerateDuplicates = true ∧
      ∃ a ∈ c.admitted t kind, a.key = s.key ∧ a.entry.version.same s.entry.version = true := by
  obtain ⟨-, hbuilt⟩ := rebuild_spec t c
  obtain ⟨-, hsubmit⟩ := hbuilt hok
  exact (ItemTable.holds_clear _).admitted_or_held (hsubmit kind) hs

theorem Furnished.holder?_named (h : c.Furnished) (ht : (c.table kind).Holds kept)
    (hs : s ∈ kept) {name : String} (hname : s.Named kind name) :
    (c.table kind).holder? (Text.lower name) = some s.key := by
  rcases hname with rfl | ⟨rfl, word, hword, hne, rfl⟩
  · exact ht.holder?_key hs
  · exact ht.holder?_alias hs h.allowAliases hword hne

theorem kindOf_word (kind : PackKind) : kindOf (.str kind.word) = .ok kind := by
  simp only [kindOf, PackKind.ofWord?_word]

theorem requireReady_of_ready (hready : c.state = .ready) : c.requireReady = .ok () := if_pos hready

theorem get_of_ready (hready : c.state = .ready) {value : Value} {selector : Selector}
    (hvalue : Selector.ofValue value = .ok selector) (kind : PackKind) (name : String)
    (strict : Bool) : c.get (.str kind.word) (some name) value strict =
      .ok (((c.table kind).group? name).bind fun g => g.pick? strict selector) := by
  rw [get, hvalue, requireReady_of_ready hready, kindOf_word]
  rfl

/-- After a cycle that succeeds, an entry of a manifest has been admitted or is a second copy of a
version, and an admitted entry is the answer to its version under its name and its aliases. -/
theorem rebuild_reaches (hc : Reached c) (hok : (c.rebuild t).2.result = .ok ())
    (kind : PackKind) :
    (∀ l e, c.Lists t kind l e → ⟨e, l.name, l⟩ ∈ c.admitted t kind ∨
      (c.table kind).tolerateDuplicates = true ∧ ∃ a ∈ c.admitted t kind,
        a.key = Text.lower e.name ∧ a.entry.version.same e.version = true) ∧
    ∀ s ∈ c.admitted t kind, c.Lists t kind s.source s.entry ∧ Manifest.Describes kind s.entry ∧
      ∃ item : Item, item.displayName = s.entry.name ∧ item.version = s.entry.version ∧
        item.source = s.source ∧ item.packageName = s.source.name ∧
        item.payload = s.entry.payload ∧
        (∀ name, s.Named kind name →
          (c.rebuild t).1.get (.str kind.word) (some name) (.float s.entry.version) true =
            .ok (some item) ∧
          (c.rebuild t).1.hasVersion (.str kind.word) (some name) (.float s.entry.version) =
            .ok true) ∧
        ∀ other ∈ c.admitted t kind, other.item kind = item → other = s := by
  have hfurnished := hc.furnished
  obtain ⟨hplan, hbuilt⟩ := rebuild_spec t c
  obtain ⟨hready, -⟩ := hbuilt hok
  have hafter := hfurnished.of_samePlan hplan
  have hholds := holds_rebuild hok kind
  -- a version of a manifest is positive: it is no sentinel, and it is the same as itself
  have hpositive (s : Submission) (hs : s ∈ c.admitted t kind) :
      s.entry.version.isPositive = true :=
    (hfurnished.describes (offered_of_admitted hs)).isPositive
  have hnotNaN (s : Submission) (hs : s ∈ c.admitted t kind) : s.entry.version.isNaN = false :=
    Binary64.isNaN_of_isPositive (hpositive s hs)
  refine ⟨fun l e hl => admitted_or_held hok (hfurnished.mem_offered_iff.mpr ⟨rfl, hl⟩), ?_⟩
  intro s hs
  obtain ⟨hpackage, hlists⟩ := hfurnished.mem_offered_iff.mp (offered_of_admitted hs)
  refine ⟨hlists, hfurnished.describes (offered_of_admitted hs), s.item kind, rfl, rfl, rfl,
    hpackage, rfl, fun name hname => ?_, fun other ho heq => ?_⟩
  · have hget : (c.rebuild t).1.get (.str kind.word) (some name) (.float s.entry.version) true =
        .ok (some (s.item kind)) := by
      rw [get_of_ready hready (Selector.ofValue_float (hpositive s hs)) kind name true,
        hholds.pick?_exactly hs (hnotNaN s hs) (hafter.holder?_named hholds hs hname),
        hafter.kinds]
    exact ⟨hget, by rw [hasVersion, hget]; rfl⟩
  · rw [← hafter.kinds kind] at heq
    exact hholds.item_inj hs hnotNaN ho heq

/-- A variants manifest with one variant, `Fjord`, that is also known as `Old Fjord`. -/
def fjordManifest : String :=
  "\x7b\"variants\": [\x7b\"name\": \"Fjord\", \"version\": 2, \"aliases\": \"Old Fjord\"\x7d]\x7d"

def fjordTree : FileTree :=
  ⟨.dir [("NorthVariant.zip",
    .file (.archive ⟨[⟨"variants.json", fjordManifest.toUTF8.toList, none⟩]⟩))], []⟩

def deltaManifest : String := "\x7b\"variants\": [\x7b\"name\": \"Delta\", \"version\": 1\x7d]\x7d"

def deltaTree : FileTree :=
  ⟨.dir [("SouthVariant.zip",
    .file (.archive ⟨[⟨"variants.json", deltaManifest.toUTF8.toList, none⟩]⟩))], []⟩

def fjordCatalog : Catalog :=
  ofNamespace { CatalogConfig.default with searchPaths := [.ofParts []], requireSymbolPacks := false }
    none fun _ => .manifests

theorem reached_fjordCatalog : Reached fjordCatalog :=
  .created (show create fjordTree fjordCatalog.config none _ = .ok fjordCatalog from rfl)

theorem rebuild_reaches_fjord :
    Reached fjordCatalog ∧ (fjordCatalog.rebuild fjordTree).2.result = .ok () ∧
      ∃ item : Item, item.displayName = "Fjord" ∧
        ∀ name ∈ ["Fjord", "Old Fjord"],
          (fjordCatalog.rebuild fjordTree).1.get (.str "variants") (some name)
            (.float (.ofInt 2)) true = .ok (some item) := by
  have hc : Reached fjordCatalog :=
    .created (show create fjordTree fjordCatalog.config none _ = .ok fjordCatalog from rfl)
  have hok : (fjordCatalog.rebuild fjordTree).2.result = .ok () :=
    eq_ok_of_isOk (by decide +kernel)
  have hadmitted : (fjordCatalog.admitted fjordTree .variants).map (fun s =>
      (s.entry.name, s.entry.version, s.entry.aliases)) = [("Fjord", .ofInt 2, ["Old Fjord"])] := by
    decide +kernel
  obtain ⟨s, hs, heq⟩ := List.mem_map.mp (hadmitted ▸ List.mem_singleton_self _)
  simp only [Prod.mk.injEq] at heq
  obtain ⟨hname, hversion, haliases⟩ := heq
  obtain ⟨-, hall⟩ := rebuild_reaches hc hok .variants
  obtain ⟨-, -, item, hdisplay, -, -, -, -, hget, -⟩ := hall s hs
  refine ⟨hc, hok, item, hdisplay.trans hname, fun name hmem => ?_⟩
  have hnamed : s.Named .variants name := by
    simp only [List.mem_cons, List.not_mem_nil, or_false] at hmem
    rcases hmem with rfl | rfl
    · exact Or.inl hname.symm
    · exact Or.inr ⟨rfl, "Old Fjord", by simp [haliases], by decide, by decide⟩
  rw [← hversion]
  exact (hget name hnamed).1

end Catalog

end PackIndex
