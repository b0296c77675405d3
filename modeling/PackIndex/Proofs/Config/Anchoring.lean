import PackIndex.Config.File
import PackIndex.Proofs.Config.Fields
import PackIndex.Yaml.Reader

/-!
# Anchored paths

A path of a configuration file that is relative, even with its `~` replaced, is written out behind
the directory of the file, and all paths are read and expanded once more when the fields are
checked. What stands behind an absolute directory is absolute and means the same when it is read
again, so the paths of the configuration depend on the directory of the file and on no other.
-/

namespace PackIndex

/-! ### Fields that are set -/

namespace Fields

variable {key other : String} {fields : Fields}

theorem set_set_self (key : String) (v w : Value) (fields : Fields) :
    set key v (set key w fields) = set key v fields := by
  induction fields with
  | nil => simp [set]
  | cons f rest ih =>
    obtain ⟨k, old⟩ := f
    by_cases hk : k = key <;> simp [set, hk, ih]

theorem set_set_comm (hne : other ≠ key) (v w : Value) (hkey : ∃ old, get? key fields = some old) :
    set other v (set key w fields) = set key w (set other v fields) := by
  induction fields with
  | nil =>
    obtain ⟨old, ⟨⟩⟩ := hkey
  | cons f rest ih =>
    obtain ⟨k, old⟩ := f
    by_cases hk : k = key
    · have hother : k ≠ other := fun h => hne (h.symm.trans hk)
      simp [set, hk, hne.symm]
    · by_cases hother : k = other
      · simp [set, hother, hne]
      · have hrest : ∃ old, get? key rest = some old := by simpa [get?, hk] using hkey
        simp [set, hk, hother, ih hrest]

end Fields

namespace FilePath

variable {homes : Homes} {base p : FilePath} {s : String}

/-- The path that an entry of a file in the directory `base` stands for. -/
def anchored? (homes : Homes) (base : FilePath) (s : String) : Option FilePath :=
  ((ofString s).expandHome? homes).map fun p => if p.isAbsolute then p else base.join (ofString s)

theorem isAbsolute_of_anchored? (hbase : base.isAbsolute = true)
    (h : anchored? homes base s = some p) : p.isAbsolute = true := by
  obtain ⟨q, -, rfl⟩ := Option.map_eq_some_iff.mp h
  split
  · assumption
  · exact isAbsolute_join hbase _

end FilePath

namespace ConfigFile

variable {homes : Homes} {base : FilePath} {entries : List (Value × Yaml)} {name other s : String}
  {texts search shared : List String} {ps : List FilePath} {fields : Fields} {c : CatalogConfig}

/-! ### The entries of a document -/

theorem sameKey_str_iff {key : Value} : Yaml.sameKey key (.str name) = true ↔ key = .str name := by
  cases key <;> simp [Yaml.sameKey]

theorem node?_cons_self (node : Yaml) : node? name ((.str name, node) :: entries) = some node :=
  if_pos (sameKey_str_iff.mpr rfl)

theorem node?_cons_of_ne {key : Value} (h : key ≠ .str name) (node : Yaml) :
    node? name ((key, node) :: entries) = node? name entries :=
  if_neg (mt sameKey_str_iff.mp h)

theorem get?_namedFields (name : String) (entries : List (Value × Yaml)) :
    Fields.get? name (namedFields entries) = Yaml.toValue <$> node? name entries := by
  induction entries with
  | nil => rfl
  | cons e rest ih =>
    obtain ⟨key, node⟩ := e
    by_cases hkey : key = .str name
    · subst hkey
      rw [node?_cons_self, namedFields, Fields.get?, if_pos rfl]
      rfl
    · rw [node?_cons_of_ne hkey, ← ih]
      cases key with
      | str k => exact if_neg fun hk => hkey (congrArg Value.str hk)
      | _ => rfl

/-! ### The outcome for one field -/

theorem anchorField_eq_ok_iff {found : Fields} :
    anchorField homes base entries name fields = .ok found ↔
      node? name entries = none ∧ fields = found ∨ ∃ node v, node? name entries = some node ∧
        anchoredField homes base node = .ok v ∧ fields.set name v = found := by
  unfold anchorField
  cases node? name entries with
  | none => simp
  | some node => simp [map_eq_ok_iff]

theorem get?_anchorField {found : Fields}
    (h : anchorField homes base entries name fields = .ok found) (hne : other ≠ name) :
    Fields.get? other found = Fields.get? other fields := by
  rcases anchorField_eq_ok_iff.mp h with ⟨-, rfl⟩ | ⟨_, v, -, -, rfl⟩
  · rfl
  · exact Fields.get?_set_of_ne hne v fields

/-- An entry is read, written out and expanded to the path that it stands for. -/
theorem anchored?_eq_some_iff (hbase : base.isAbsolute = true) {p : FilePath} :
    FilePath.anchored? homes base s = some p ↔ ∃ v, anchoredPath homes base (.str s) = .ok v ∧
      CatalogConfig.expandedPath homes v = .ok p := by
  have hpath : CatalogConfig.pathOf (.str s) = .ok (.ofString s) := rfl
  unfold FilePath.anchored? anchoredPath
  rw [hpath]
  cases hq : (FilePath.ofString s).expandHome? homes with
  | none => simp [Except.bind, hq]
  | some q =>
    by_cases habsolute : q.isAbsolute = true
    · have hread : CatalogConfig.expandedPath homes (.str s) = .ok q :=
        CatalogConfig.expandedPath_eq_ok_iff.mpr ⟨_, rfl, hq⟩
      simp [Except.bind, hq, habsolute, hread]
    · have hread : CatalogConfig.expandedPath homes (.str (base.join (.ofString s)).text) =
          .ok (base.join (.ofString s)) := by
        refine CatalogConfig.expandedPath_eq_ok_iff.mpr ⟨_, rfl, ?_⟩
        rw [Value.plainText, FilePath.ofString_text]
        exact FilePath.expandHome?_of_isAbsolute (FilePath.isAbsolute_join hbase _)
      simp [Except.bind, hq, habsolute, hread]

theorem anchoredPaths_eq_mapM (homes : Homes) (base : FilePath) (vs : List Value) :
    anchoredPaths homes base vs = vs.mapM (anchoredPath homes base) := by
  induction vs with
  | nil => rfl
  | cons v vs ih =>
    rw [anchoredPaths, List.mapM_cons, ih]
    cases anchoredPath homes base v <;> rfl

/-- Entries that can be anchored are expanded to the paths that they stand for. -/
theorem forall₂_anchored?_iff (hbase : base.isAbsolute = true) :
    List.Forall₂ (fun s p => FilePath.anchored? homes base s = some p) texts ps ↔
      ∃ vs, anchoredPaths homes base (texts.map .str) = .ok vs ∧
        List.Forall₂ (fun v p => CatalogConfig.expandedPath homes v = .ok p) vs ps := by
  simp only [anchored?_eq_some_iff hbase, forall₂_exists_and_iff, anchoredPaths_eq_mapM,
    mapM_eq_ok_iff, List.forall₂_map_left_iff]

/-- What a field of paths may be: missing, nothing, one text, or a list of texts. -/
inductive Lists : List String → Option Yaml → Prop
  | absent : Lists [] none
  | null : Lists [] (some (.scalar .null))
  | one (s : String) : Lists [s] (some (.scalar (.str s)))
  | several (texts : List String) : Lists texts (some (.list (texts.map fun s => .scalar (.str s))))

def text? : Yaml → Option String
  | .scalar (.str s) => some s
  | _ => none

/-- The texts that a field of paths lists, if it is of such a kind. -/
def listedTexts? : Option Yaml → Option (List String)
  | none | some (.scalar .null) => some []
  | some (.scalar (.str s)) => some [s]
  | some (.list items) => items.mapM text?
  | some _ => none

def listedIn? (name : String) : Yaml → Option (List String)
  | .mapping entries => listedTexts? (node? name entries)
  | _ => none

theorem text?_eq_some_iff {node : Yaml} : text? node = some s ↔ node = .scalar (.str s) := by
  unfold text?
  split <;> simp_all

theorem eq_map_of_mapM {items : List Yaml} (h : items.mapM text? = some texts) :
    items = texts.map fun s => .scalar (.str s) := by
  induction items generalizing texts with
  | nil =>
    cases h
    rfl
  | cons item rest ih =>
    rw [List.mapM_cons] at h
    obtain ⟨s, hs, h⟩ := Option.bind_eq_some_iff.mp h
    obtain ⟨others, hothers, ⟨⟩⟩ := Option.bind_eq_some_iff.mp h
    rw [text?_eq_some_iff.mp hs, ih hothers, List.map_cons]

theorem lists_of_listedTexts? {node : Option Yaml} (h : listedTexts? node = some texts) :
    Lists texts node := by
  unfold listedTexts? at h
  split at h
  · cases h
    exact .absent
  · cases h
    exact .null
  · cases h
    exact .one _
  · rw [eq_map_of_mapM h]
    exact .several texts
  · cases h

theorem itemValues_texts (texts : List String) :
    Yaml.itemValues (texts.map fun s => .scalar (.str s)) = texts.map .str := by
  induction texts with
  | nil => rfl
  | cons s rest ih => rw [List.map_cons, Yaml.itemValues, ih, Yaml.toValue, List.map_cons]

theorem Lists.pathValues_toValue {node : Yaml} (h : Lists texts (some node)) :
    CatalogConfig.pathValues node.toValue = .ok (texts.map .str) := by
  cases h with
  | null => rfl
  | one s => rfl
  | several texts => rw [Yaml.toValue, itemValues_texts, CatalogConfig.pathValues]

theorem Lists.anchoredField_iff {node : Yaml} {vs : List Value} (h : Lists texts (some node)) :
    (∃ v, anchoredField homes base node = .ok v ∧ CatalogConfig.pathValues v = .ok vs) ↔
      anchoredPaths homes base (texts.map .str) = .ok vs := by
  have hmap (given : List Value) :
      (∃ v, (anchoredPaths homes base given).map Value.list = .ok v ∧
        CatalogConfig.pathValues v = .ok vs) ↔ anchoredPaths homes base given = .ok vs := by
    simp only [map_eq_ok_iff]
    constructor
    · rintro ⟨_, ⟨found, hfound, rfl⟩, ⟨⟩⟩
      exact hfound
    · intro hfound
      exact ⟨_, ⟨vs, hfound, rfl⟩, rfl⟩
  cases h with
  | null => simp [anchoredField, pathList?, Value.isTruthy, Yaml.toValue, anchoredPaths,
      CatalogConfig.pathValues]
  | one s => exact hmap _
  | several texts =>
    cases texts with
    | nil => simp [anchoredField, pathList?, Yaml.toValue, Yaml.itemValues, anchoredPaths,
        CatalogConfig.pathValues]
    | cons s rest =>
      have hlist : pathList? (.list ((s :: rest).map fun s => .scalar (.str s))) =
          .ok (some ((s :: rest).map .str)) := by
        rw [pathList?, itemValues_texts]
        rfl
      rw [anchoredField, hlist]
      exact hmap _

/-- What the check reads from an anchored field are the paths that its entries stand for. -/
theorem Lists.anchorField_iff (hbase : base.isAbsolute = true)
    (h : Lists texts (node? name entries))
    (hfields : Fields.get? name fields = Yaml.toValue <$> node? name entries) :
    (∃ found, anchorField homes base entries name fields = .ok found ∧
      CatalogConfig.pathsField homes found name = .ok ps) ↔
    List.Forall₂ (fun s p => FilePath.anchored? homes base s = some p) texts ps := by
  rw [forall₂_anchored?_iff hbase]
  simp only [anchorField_eq_ok_iff, CatalogConfig.pathsField_eq_ok_iff]
  cases hentry : node? name entries with
  | none =>
    rw [hentry] at h hfields
    cases h
    simp [hfields, anchoredPaths]
  | some node =>
    rw [hentry] at h
    simp only [← h.anchoredField_iff]
    constructor
    · rintro ⟨_, ⟨⟨⟩, -⟩ | ⟨_, v, ⟨⟩, hv, rfl⟩, hread⟩
      rw [Fields.get?_set_self] at hread
      obtain ⟨⟨⟩, -⟩ | ⟨_, vs, ⟨⟩, hvs, hps⟩ := hread
      exact ⟨vs, ⟨v, hv, hvs⟩, hps⟩
    · rintro ⟨vs, ⟨v, hv, hvs⟩, hps⟩
      exact ⟨_, Or.inr ⟨node, v, rfl, hv, rfl⟩,
        Or.inr ⟨v, vs, Fields.get?_set_self name v fields, hvs, hps⟩⟩

/-- Without its anchor a field is checked by expanding each of its entries. -/
theorem Lists.pathsField_iff (h : Lists texts (node? name entries)) :
    CatalogConfig.pathsField homes (namedFields entries) name = .ok ps ↔
    List.Forall₂ (fun s p => (FilePath.ofString s).expandHome? homes = some p) texts ps := by
  have hexpanded : List.Forall₂ (fun v p => CatalogConfig.expandedPath homes v = .ok p)
      (texts.map .str) ps ↔
      List.Forall₂ (fun s p => (FilePath.ofString s).expandHome? homes = some p) texts ps := by
    rw [List.forall₂_map_left_iff]
    simp [CatalogConfig.expandedPath_eq_ok_iff, CatalogConfig.pathOf, Value.plainText]
  rw [CatalogConfig.pathsField_eq_ok_iff, get?_namedFields, ← hexpanded]
  cases hentry : node? name entries with
  | none =>
    rw [hentry] at h
    cases h
    simp
  | some node =>
    rw [hentry] at h
    simp [h.pathValues_toValue]

/-! ### The outcome for a document -/

/-- A document is accepted exactly if the entries of its fields of paths can be anchored, and its
other fields pass their checks. -/
theorem ofEntries_eq_ok_iff (hbase : base.isAbsolute = true)
    (hsearch : Lists search (node? "search_paths" entries))
    (hshared : Lists shared (node? "shared_namespace" entries)) :
    ofEntries homes base entries = .ok c ↔
      List.Forall₂ (fun s p => FilePath.anchored? homes base s = some p) search c.searchPaths ∧
      List.Forall₂ (fun s p => FilePath.anchored? homes base s = some p) shared c.sharedNamespace ∧
      CatalogConfig.ChecksTo (namedFields entries) (entries.map (·.1)) c := by
  simp only [ofEntries, bind_eq_ok_iff, CatalogConfig.ofFields_eq_ok_iff]
  constructor
  · rintro ⟨first, hfirst, second, hsecond, hpaths, hothers, hchecks⟩
    refine ⟨(hsearch.anchorField_iff hbase (get?_namedFields _ _)).mp ⟨first, hfirst, ?_⟩,
      (hshared.anchorField_iff hbase ?_).mp ⟨second, hsecond, hothers⟩, ?_⟩
    · rw [← hpaths, CatalogConfig.pathsField_congr]
      exact (get?_anchorField hsecond (by decide)).symm
    · rw [get?_anchorField hfirst (by decide), get?_namedFields]
    · refine hchecks.congr fun name hne hne' => ?_
      rw [get?_anchorField hsecond hne', get?_anchorField hfirst hne]
  · rintro ⟨hpaths, hothers, hchecks⟩
    obtain ⟨first, hfirst, hpaths⟩ :=
      (hsearch.anchorField_iff hbase (get?_namedFields _ _)).mpr hpaths
    have hkept : Fields.get? "shared_namespace" first =
        Yaml.toValue <$> node? "shared_namespace" entries := by
      rw [get?_anchorField hfirst (by decide), get?_namedFields]
    obtain ⟨second, hsecond, hothers⟩ := (hshared.anchorField_iff hbase hkept).mpr hothers
    refine ⟨first, hfirst, second, hsecond, ?_, hothers, ?_⟩
    · rw [← hpaths, CatalogConfig.pathsField_congr]
      exact get?_anchorField hsecond (by decide)
    · refine hchecks.congr fun name hne hne' => ?_
      rw [get?_anchorField hsecond hne', get?_anchorField hfirst hne]

/-! ### One text in place of a list -/

theorem setKey_cons_self (node old : Yaml) : Yaml.setKey (.str name) node
    ((.str name, old) :: entries) = (.str name, node) :: entries :=
  if_pos (sameKey_str_iff.mpr rfl)

theorem setKey_cons_of_ne {key : Value} (h : key ≠ .str name) (node old : Yaml) :
    Yaml.setKey (.str name) node ((key, old) :: entries) =
      (key, old) :: Yaml.setKey (.str name) node entries :=
  if_neg (mt sameKey_str_iff.mp h)

theorem node?_setKey_self (node : Yaml) :
    node? name (Yaml.setKey (.str name) node entries) = some node := by
  induction entries with
  | nil => exact node?_cons_self node
  | cons e rest ih =>
    obtain ⟨key, old⟩ := e
    by_cases hkey : key = .str name
    · subst hkey
      rw [setKey_cons_self, node?_cons_self]
    · rw [setKey_cons_of_ne hkey, node?_cons_of_ne hkey, ih]

theorem node?_setKey_of_ne (h : other ≠ name) (node : Yaml) :
    node? other (Yaml.setKey (.str name) node entries) = node? other entries := by
  have hname : Value.str name ≠ .str other := fun heq => h (Value.str.inj heq).symm
  induction entries with
  | nil => exact node?_cons_of_ne hname node
  | cons e rest ih =>
    obtain ⟨key, old⟩ := e
    by_cases hkey : key = .str name
    · subst hkey
      rw [setKey_cons_self, node?_cons_of_ne hname, node?_cons_of_ne hname]
    · rw [setKey_cons_of_ne hkey, node?, node?, ih]

theorem namedFields_setKey (node : Yaml) : namedFields (Yaml.setKey (.str name) node entries) =
    (namedFields entries).set name node.toValue := by
  induction entries with
  | nil => rfl
  | cons e rest ih =>
    obtain ⟨key, old⟩ := e
    by_cases hkey : key = .str name
    · subst hkey
      rw [setKey_cons_self, namedFields, namedFields, Fields.set, if_pos rfl]
    · rw [setKey_cons_of_ne hkey]
      cases key with
      | str k =>
        rw [namedFields, namedFields, Fields.set, if_neg fun hk => hkey (congrArg Value.str hk), ih]
      | _ => exact ih

theorem keys_setKey {node old : Yaml} (h : node? name entries = some old) :
    (Yaml.setKey (.str name) node entries).map (·.1) = entries.map (·.1) := by
  induction entries with
  | nil => cases h
  | cons e rest ih =>
    obtain ⟨key, first⟩ := e
    by_cases hkey : key = .str name
    · subst hkey
      rw [setKey_cons_self, List.map_cons, List.map_cons]
    · rw [node?_cons_of_ne hkey] at h
      rw [setKey_cons_of_ne hkey, List.map_cons, List.map_cons, ih h]

theorem anchorField_single (h : node? name entries = some (.scalar (.str s))) (v : Value) :
    anchorField homes base (Yaml.setKey (.str name) (.list [.scalar (.str s)]) entries) name
      (fields.set name v) = anchorField homes base entries name fields := by
  have hnode : anchoredField homes base (.list [.scalar (.str s)]) =
      anchoredField homes base (.scalar (.str s)) := rfl
  unfold anchorField
  rw [node?_setKey_self, h]
  simp only [hnode, Fields.set_set_self]

theorem anchorField_setKey_of_ne (h : other ≠ name) (node : Yaml) :
    anchorField homes base (Yaml.setKey (.str name) node entries) other fields =
      anchorField homes base entries other fields := by
  rw [anchorField, node?_setKey_of_ne h, anchorField]

/-- Anchoring a field and setting another one that is there can change places. -/
theorem anchorField_set_of_ne (h : other ≠ name) (v : Value)
    (hname : ∃ old, Fields.get? name fields = some old) :
    anchorField homes base entries other (fields.set name v) =
      (anchorField homes base entries other fields).map (·.set name v) := by
  unfold anchorField
  cases node? other entries with
  | none => rfl
  | some node =>
    cases hnode : anchoredField homes base node with
    | error e => simp [hnode, Except.map]
    | ok w => simp [hnode, Except.map, Fields.set_set_comm h w v hname]

/-- A field of paths that is one text comes to the same as the list of that text. -/
theorem ofEntries_single (hname : name = "search_paths" ∨ name = "shared_namespace")
    (h : node? name entries = some (.scalar (.str s))) :
    ofEntries homes base (Yaml.setKey (.str name) (.list [.scalar (.str s)]) entries) =
      ofEntries homes base entries := by
  unfold ofEntries
  rw [namedFields_setKey, keys_setKey h]
  rcases hname with rfl | rfl
  · rw [anchorField_single h]
    simp only [anchorField_setKey_of_ne (show "shared_namespace" ≠ "search_paths" by decide)]
  · have hthere : ∃ old, Fields.get? "shared_namespace" (namedFields entries) = some old :=
      ⟨_, by rw [get?_namedFields, h]; rfl⟩
    rw [anchorField_setKey_of_ne (by decide), anchorField_set_of_ne (by decide) _ hthere]
    cases anchorField homes base entries "search_paths" (namedFields entries) with
    | error e => rfl
    | ok first => simp only [Except.map, ok_bind, anchorField_single h]

/-! ### The outcome for a file -/

section Load

variable {read : YamlReader} {t : FileTree} {file : FilePath}

/-- Whether a file can be opened, and the reader finds a mapping of these entries in it. -/
def Reads (read : YamlReader) (t : FileTree) (file : FilePath) (entries : List (Value × Yaml)) :
    Prop :=
  file.hasNul = false ∧
    ∃ content, t.readFile file = .ok content ∧ document read content = .ok (.mapping entries)

theorem load_of_reads (h : Reads read t file entries) :
    load read homes t file = (ofEntries homes file.parent entries).mapError .config := by
  obtain ⟨hnul, content, hcontent, hdocument⟩ := h
  simp [load, hnul, hcontent, hdocument, ofDocument]

theorem load_of_current (h : file.isAbsolute = true) (current : List String) :
    load read homes { t with current } file = load read homes t file := by
  have hread : FileTree.readFile { t with current } file = t.readFile file := by
    simp [FileTree.readFile, FileTree.node, FileTree.locate, h]
  rw [load, hread, load]

theorem exists_expanded
    (h : List.Forall₂ (fun s p => FilePath.anchored? homes base s = some p) texts ps) :
    ∃ plain, List.Forall₂ (fun s p => (FilePath.ofString s).expandHome? homes = some p)
      texts plain := by
  refine exists_forall₂_iff.mpr fun s hs => ?_
  obtain ⟨p, hp⟩ := exists_forall₂_iff.mp ⟨ps, h⟩ s hs
  obtain ⟨q, hq, -⟩ := Option.map_eq_some_iff.mp hp
  exact ⟨q, hq⟩

/-- What a configuration has from the entries of a file in the directory `base`: its paths are those
that the entries stand for, in their order, and all other fields are as they are without that
directory. -/
structure Anchored (homes : Homes) (base : FilePath) (entries : List (Value × Yaml))
    (search shared : List String) (c : CatalogConfig) : Prop where
  searchPaths : List.Forall₂ (fun s p => FilePath.anchored? homes base s = some p)
    search c.searchPaths
  sharedNamespace : List.Forall₂ (fun s p => FilePath.anchored? homes base s = some p)
    shared c.sharedNamespace
  others : ∃ plain plainShared,
    CatalogConfig.ofFields homes (namedFields entries) (entries.map (·.1)) =
      .ok { c with searchPaths := plain, sharedNamespace := plainShared }

/-- The fields of a document pass without its anchor if they pass with it, and differ in their paths
only. -/
theorem anchored_iff (hsearch : Lists search (node? "search_paths" entries))
    (hshared : Lists shared (node? "shared_namespace" entries)) :
    Anchored homes base entries search shared c ↔
      List.Forall₂ (fun s p => FilePath.anchored? homes base s = some p) search c.searchPaths ∧
      List.Forall₂ (fun s p => FilePath.anchored? homes base s = some p) shared c.sharedNamespace ∧
      CatalogConfig.ChecksTo (namedFields entries) (entries.map (·.1)) c := by
  constructor
  · rintro ⟨hpaths, hothers, plain, plainShared, h⟩
    obtain ⟨-, -, h⟩ := CatalogConfig.ofFields_eq_ok_iff.mp h
    exact ⟨hpaths, hothers, h.variantSuffixes, h.symbolSuffixes, h.variantManifest,
      h.symbolManifest, h.requireSymbolPacks, h.keys⟩
  · rintro ⟨hpaths, hothers, h⟩
    obtain ⟨plain, hplain⟩ := exists_expanded hpaths
    obtain ⟨plainShared, hplainShared⟩ := exists_expanded hothers
    refine ⟨hpaths, hothers, plain, plainShared, CatalogConfig.ofFields_eq_ok_iff.mpr
      ⟨hsearch.pathsField_iff.mpr hplain, hshared.pathsField_iff.mpr hplainShared, ?_⟩⟩
    exact ⟨h.variantSuffixes, h.symbolSuffixes, h.variantManifest, h.symbolManifest,
      h.requireSymbolPacks, h.keys⟩

theorem load_eq_ok_iff (habsolute : file.isAbsolute = true) (hreads : Reads read t file entries)
    (hsearch : Lists search (node? "search_paths" entries))
    (hshared : Lists shared (node? "shared_namespace" entries)) :
    load read homes t file = .ok c ↔ Anchored homes file.parent entries search shared c := by
  have hbase : file.parent.isAbsolute = true := habsolute
  rw [load_of_reads hreads, mapError_eq_ok_iff, ofEntries_eq_ok_iff hbase hsearch hshared,
    anchored_iff hsearch hshared]

theorem Anchored.isAbsolute (h : Anchored homes base entries search shared c)
    (hbase : base.isAbsolute = true) {p : FilePath} (hp : p ∈ c.searchPaths ++ c.sharedNamespace) :
    p.isAbsolute = true := by
  obtain ⟨s, hs⟩ := exists_forall₂_iff.mp
    ⟨_, (List.rel_append h.searchPaths h.sharedNamespace).flip⟩ p hp
  exact FilePath.isAbsolute_of_anchored? hbase hs

/-- What is known of loading a file with these entries. -/
structure LoadsAnchored (read : YamlReader) (homes : Homes) (t : FileTree) (file : FilePath)
    (entries : List (Value × Yaml)) (search shared : List String) : Prop where
  anchored : ∀ c, load read homes t file = .ok c ↔
    Anchored homes file.parent entries search shared c
  absolute : ∀ c, load read homes t file = .ok c →
    ∀ p ∈ c.searchPaths ++ c.sharedNamespace, p.isAbsolute = true
  /-- A field of paths that is one text is as good as the list of it. -/
  single : ∀ name s, name = "search_paths" ∨ name = "shared_namespace" →
    node? name entries = some (.scalar (.str s)) →
    ∀ other, Reads read other file
      (Yaml.setKey (.str name) (.list [.scalar (.str s)]) entries) →
        load read homes other file = load read homes t file
  current : ∀ current, load read homes { t with current } file = load read homes t file

/-- The paths of a configuration file at an absolute path are those of its entries, in their order,
whatever reads its document: an entry that is absolute once its `~` is replaced stands for that, and
any other for what it is in the directory of the file. All of them are absolute, and the current
directory changes nothing. -/
theorem load_anchors (homes : Homes) (habsolute : file.isAbsolute = true)
    (hreads : Reads read t file entries)
    (hsearch : Lists search (node? "search_paths" entries))
    (hshared : Lists shared (node? "shared_namespace" entries)) :
    LoadsAnchored read homes t file entries search shared where
  anchored _ := load_eq_ok_iff habsolute hreads hsearch hshared
  absolute _ h _ hp :=
    ((load_eq_ok_iff habsolute hreads hsearch hshared).mp h).isAbsolute habsolute hp
  single name s hname hsingle other hother := by
    rw [load_of_reads hother, load_of_reads hreads, ofEntries_single hname hsingle]
  current := load_of_current habsolute

/-- A file with a path beside it, one in the home directory, and one that is absolute. -/
theorem load_anchors_cfg :
    let homes : Homes := "/home/ada"
    let t : FileTree := ⟨.dir [("cfg", .dir [("packs.yaml", .file (.bytes
      (Utf8.encode "search_paths: [maps, ~/a]\nshared_namespace: /b.zip\n")))])], ["home", "ada"]⟩
    let file : FilePath := .ofString "/cfg/packs.yaml"
    file.isAbsolute = true ∧
    ∃ entries, Reads Yaml.read? t file entries ∧
      Lists ["maps", "~/a"] (node? "search_paths" entries) ∧
      Lists ["/b.zip"] (node? "shared_namespace" entries) ∧
      ∀ current, ∃ c, load Yaml.read? homes { t with current } file = .ok c ∧
        c.searchPaths = [.ofString "/cfg/maps", .ofString "/home/ada/a"] ∧
        c.sharedNamespace = [.ofString "/b.zip"] := by
  intro homes t file
  have habsolute : file.isAbsolute = true := by decide
  let content : FileContent := .bytes
    (Utf8.encode "search_paths: [maps, ~/a]\nshared_namespace: /b.zip\n")
  have hlisted : (document Yaml.read? content).toOption.map
      (fun doc => (listedIn? "search_paths" doc, listedIn? "shared_namespace" doc)) =
      some (some ["maps", "~/a"], some ["/b.zip"]) := by decide +kernel
  obtain ⟨doc, hdoc, hlisted⟩ := toOption_map_eq_some_iff.mp hlisted
  obtain ⟨entries, rfl⟩ : ∃ entries, doc = .mapping entries := by
    cases doc with
    | mapping entries => exact ⟨entries, rfl⟩
    | _ => cases hlisted
  obtain ⟨hsearch, hshared⟩ := Prod.mk.inj hlisted
  have hread : t.readFile file = .ok content := by rfl
  have hreads : Reads Yaml.read? t file entries := ⟨by decide, content, hread, hdoc⟩
  refine ⟨habsolute, entries, hreads, lists_of_listedTexts? hsearch, lists_of_listedTexts? hshared,
    fun current => ?_⟩
  have hloaded := load_anchors homes habsolute hreads (lists_of_listedTexts? hsearch)
    (lists_of_listedTexts? hshared)
  have hloads : (load Yaml.read? homes t file).isOk = true := by decide +kernel
  obtain ⟨c, hc⟩ := isOk_iff.mp hloads
  have hanchored := (hloaded.anchored c).mp hc
  have hsome : Function.Injective (List.map (some : FilePath → Option FilePath)) :=
    List.map_injective_iff.mpr fun _ _ => Option.some.inj
  refine ⟨c, (hloaded.current current).trans hc, ?_, ?_⟩
  · exact hsome ((forall₂_eq_some_iff.mp hanchored.searchPaths).symm.trans (by decide))
  · exact hsome ((forall₂_eq_some_iff.mp hanchored.sharedNamespace).symm.trans (by decide))

end Load

end ConfigFile

end PackIndex
