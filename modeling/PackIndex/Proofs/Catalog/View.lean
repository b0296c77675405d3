import PackIndex.Catalog.Session
import PackIndex.Proofs.Registry.Answers
import PackIndex.Proofs.Result

/-!
# What answers are read off

Answers are read off the state of a catalog, its shared namespace, and the groups and aliases of its
tables. A listing may also come from memory, but as long as memory is empty or up to date it is the
listing of the groups. So catalogs that have these in common give the same answers.
-/

namespace PackIndex

namespace ItemTable

/-- Tables with the same entries; what they remember of listings may differ. -/
structure SameEntries (t u : ItemTable) : Prop where
  groups : u.groups = t.groups
  aliases : u.aliases = t.aliases

/-- A well-formed table whose memory of listings is empty or up to date. -/
structure UpToDate (t : ItemTable) : Prop where
  wellFormed : t.WellFormed
  remembers : t.Remembers

theorem UpToDate.latest {t : ItemTable} (h : t.UpToDate) : t.latest.2.UpToDate := by
  obtain ⟨-, -, -, hremembers⟩ := h.wellFormed.latest_eq h.remembers
  exact ⟨h.wellFormed.latest.1, hremembers⟩

namespace SameEntries

variable {t u : ItemTable} (h : SameEntries t u)
include h

theorem groupNamed? (key : String) : u.groupNamed? key = t.groupNamed? key := by
  rw [ItemTable.groupNamed?, ItemTable.groupNamed?, h.groups]

theorem aliasOwner? (key : String) : u.aliasOwner? key = t.aliasOwner? key := by
  rw [ItemTable.aliasOwner?, ItemTable.aliasOwner?, h.aliases]

theorem group? (name : String) : u.group? name = t.group? name := by
  simp only [ItemTable.group?, h.groupNamed?, h.aliasOwner?]

theorem size : u.size = t.size := by
  rw [ItemTable.size, ItemTable.size, h.groups]

theorem itemCount : u.itemCount = t.itemCount := by
  rw [ItemTable.itemCount, ItemTable.itemCount, h.groups]

theorem latest (ht : t.UpToDate) (hu : u.UpToDate) : u.latest.1 = t.latest.1 := by
  obtain ⟨items, hitems, hlisting, -⟩ := ht.wellFormed.latest_eq ht.remembers
  obtain ⟨items', hitems', hlisting', -⟩ := hu.wellFormed.latest_eq hu.remembers
  rw [h.groups, hitems, Except.ok.injEq] at hitems'
  rw [hlisting, hlisting', hitems']

end SameEntries

end ItemTable

namespace Catalog

variable {c d : Catalog}

/-! ### Answers alone -/

theorem latest_fst (c : Catalog) (kind : PackKind) : (c.latest kind).1 =
    c.requireReady >>= fun _ => (c.table kind).latest.1.mapError .registry := by
  unfold latest
  cases c.requireReady <;> rfl

theorem list_fst (c : Catalog) (kind : Value) :
    (c.list kind).1 = c.requireReady >>= fun _ => kindOf kind >>= fun kind => (c.latest kind).1 := by
  unfold list
  cases c.requireReady with
  | error e => rfl
  | ok => cases kindOf kind <;> rfl

theorem counted_result (c : Catalog) (found : Traced ResolutionError Resolution) :
    (c.counted found).1.result =
      c.requireReady >>= fun _ => (found.result.mapError .resolution).map Resolution.handle := by
  unfold counted
  cases c.requireReady with
  | error e => rfl
  | ok => cases found.result <;> rfl

theorem symbolPack_fst (c : Catalog) (map : MapStyle) (name : Option String) (version : Value) :
    (c.symbolPack (some map) name version).1 =
      ⟨(Selector.ofValue
        (if isNonPositiveNumber version then .sentinel .newest else version)).mapError .selector >>=
        fun selector => c.requireReady >>= fun _ =>
          match choosePack c.symbols name selector map.preferredPack with
          | some item => .ok item
          | none => (c.latest .symbols).1 >>= fun listing =>
            listing.head?.elim (.error .noSymbolPacks) .ok,
        if isNonPositiveNumber version then [.symbolVersionIgnored name version] else []⟩ := by
  simp only [symbolPack]
  cases Selector.ofValue (if isNonPositiveNumber version then .sentinel .newest else version) with
  | error e => rfl
  | ok selector =>
    cases c.requireReady with
    | error e => rfl
    | ok =>
      simp only [ok_bind, Except.mapError]
      cases choosePack c.symbols name selector map.preferredPack with
      | some item => rfl
      | none =>
        rcases c.latest .symbols with ⟨e | _ | ⟨item, items⟩, after⟩ <;> rfl

/-! ### The same view -/

/-- Catalogs that agree in all that answers are read off. -/
structure SameView (c d : Catalog) : Prop where
  state : d.state = c.state
  shared : d.shared = c.shared
  entries : ∀ kind, (c.table kind).SameEntries (d.table kind)

namespace SameView

variable (h : SameView c d) (hc : ∀ kind, (c.table kind).UpToDate)
  (hd : ∀ kind, (d.table kind).UpToDate)
include h

theorem requireReady : d.requireReady = c.requireReady := by
  rw [Catalog.requireReady, Catalog.requireReady, h.state]

theorem lookup (kind : PackKind) (name : Option String) (selector : Selector) (strict : Bool) :
    Catalog.lookup (d.table kind) name selector strict =
      Catalog.lookup (c.table kind) name selector strict := by
  cases name with
  | none => rfl
  | some name => simp only [Catalog.lookup, Option.bind_some, (h.entries kind).group?]

theorem get (kind : Value) (name : Option String) (selector : Value) (strict : Bool) :
    d.get kind name selector strict = c.get kind name selector strict := by
  simp only [Catalog.get, h.requireReady, h.lookup]

theorem versions (kind : Value) (name : Option String) :
    d.versions kind name = c.versions kind name := by
  have hof (kind : PackKind) (name : String) :
      versionsOf (d.table kind) name = versionsOf (c.table kind) name := by
    rw [versionsOf, versionsOf, (h.entries kind).group?]
  simp only [Catalog.versions, h.requireReady, hof]

theorem aliases : d.aliases = c.aliases := by
  have hvariants : d.variants.aliases = c.variants.aliases := (h.entries .variants).aliases
  rw [Catalog.aliases, Catalog.aliases, h.requireReady, hvariants]

theorem summary : d.summary = c.summary := by
  have hvariants : c.variants.SameEntries d.variants := h.entries .variants
  have hsymbols : c.symbols.SameEntries d.symbols := h.entries .symbols
  simp only [Catalog.summary, h.requireReady, hvariants.size, hvariants.itemCount,
    hvariants.aliases, hsymbols.size, hsymbols.itemCount]

theorem counted (found : Traced ResolutionError Resolution) :
    (d.counted found).1 = (c.counted found).1 := by
  simp only [Catalog.counted, h.requireReady]
  cases c.requireReady with
  | error e => rfl
  | ok => cases found.result <;> rfl

include hc hd

theorem latest (kind : PackKind) : (d.latest kind).1 = (c.latest kind).1 := by
  rw [latest_fst, latest_fst, h.requireReady, (h.entries kind).latest (hc kind) (hd kind)]

theorem list (kind : Value) : (d.list kind).1 = (c.list kind).1 := by
  simp only [list_fst, h.requireReady, h.latest hc hd]

theorem symbolPack (map : Option MapStyle) (name : Option String) (version : Value) :
    (d.symbolPack map name version).1 = (c.symbolPack map name version).1 := by
  have hchoose (selector : Selector) (preferred : Option String) :
      choosePack d.symbols name selector preferred =
        choosePack c.symbols name selector preferred := by
    have hlookup := h.lookup .symbols
    simp only [table] at hlookup
    simp only [choosePack, hlookup]
  cases map with
  | none => rfl
  | some map => simp only [symbolPack_fst, h.requireReady, hchoose, h.latest hc hd]

end SameView

/-- Catalogs with the same view give the same answers. -/
theorem SameView.ask (h : SameView c d) (hc : ∀ kind, (c.table kind).UpToDate)
    (hd : ∀ kind, (d.table kind).UpToDate) (t : FileTree) (q : Query) :
    (d.ask t q).1 = (c.ask t q).1 := by
  cases q with
  | list kind => simp only [Catalog.ask, h.list hc hd]
  | get kind name selector strict => simp only [Catalog.ask, h.get]
  | versions kind name => simp only [Catalog.ask, h.versions]
  | hasVersion kind name selector => simp only [Catalog.ask, Catalog.hasVersion, h.get]
  | aliases => simp only [Catalog.ask, h.aliases]
  | summary => simp only [Catalog.ask, h.summary]
  | resolve item ref => simp only [Catalog.ask, Catalog.resolve, h.shared, h.counted]
  | resolveInPackage l ref => simp only [Catalog.ask, Catalog.resolveInPackage, h.shared, h.counted]
  | symbolPack map name version => simp only [Catalog.ask, h.symbolPack hc hd]

end Catalog

end PackIndex
