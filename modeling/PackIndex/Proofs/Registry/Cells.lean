import PackIndex.Proofs.Registry.Run

/-!
# Tables that share groups

In a running table a name and its aliases do not lead to equal groups but to one and the same, which
grows in place. Here every group has a cell, names and aliases lead to cells, and an alias counts as
an item's own if it leads to the item's cell. Read by name, such a table is an `ItemTable`, and every
step of the one is the same step of the other.
-/

namespace PackIndex

structure CellTable where
  kind : PackKind
  allowAliases : Bool
  tolerateDuplicates : Bool
  cells : List VersionGroup
  names : List (String × Nat)
  aliases : List (String × Nat)
  snapshot : List Item
  duplicatesSkipped : Nat

namespace CellTable

open ItemTable (aliasKey)

def fresh (kind : PackKind) (allowAliases tolerateDuplicates : Bool) : CellTable :=
  ⟨kind, allowAliases, tolerateDuplicates, [], [], [], [], 0⟩

def cell (c : CellTable) (r : Nat) : VersionGroup := c.cells.getD r (.empty "")

def setCell (c : CellTable) (r : Nat) (g : VersionGroup) : CellTable :=
  { c with cells := c.cells.set r g }

def owner? (c : CellTable) (key : String) : Option Nat :=
  (c.aliases.lookup key).or (c.names.lookup key)

def makeCell (c : CellTable) (key : String) : CellTable :=
  { c with cells := c.cells ++ [.empty key], names := c.names ++ [(key, c.cells.length)] }

def cellNamed (c : CellTable) (key : String) : Nat × CellTable :=
  match c.names.lookup key with
  | some r => (r, c)
  | none => (c.cells.length, c.makeCell key)

def mapAlias (c : CellTable) (r : Nat) (item : Item) (word : String) :
    Except RegistryError CellTable :=
  if aliasKey word = "" ∨ aliasKey word = (c.cell r).name then .ok c
  else
    match c.owner? (aliasKey word) with
    | none => .ok { c with aliases := c.aliases ++ [(aliasKey word, r)] }
    | some owner =>
      if owner = r then .ok c
      else
        match (c.cell owner).oldest? with
        | some other => .error (.aliasTaken c.kind (aliasKey word) item other)
        | none => .error (.emptyGroup (c.cell owner).name)

def mapAliases (r : Nat) (item : Item) : CellTable → List String → Option RegistryError × CellTable
  | c, [] => (none, c)
  | c, word :: rest =>
    match c.mapAlias r item word with
    | .ok c => mapAliases r item c rest
    | .error e => (some e, c)

def join (c : CellTable) (r : Nat) (s : Submission) : Admission × CellTable :=
  let item := s.item c.kind
  match (c.cell r).add? item with
  | some grown =>
    let c := c.setCell r grown
    if c.allowAliases then
      match mapAliases r item c s.entry.aliases with
      | (none, c) => (.admitted item, c)
      | (some e, c) => (.refused e, c)
    else (.admitted item, c)
  | none =>
    match (c.cell r).find? item.version with
    | none => (.refused (.refusedVersion item.version item.name), c)
    | some existing =>
      if c.tolerateDuplicates then
        (.skipped item, { c with duplicatesSkipped := c.duplicatesSkipped + 1 })
      else (.refused (.duplicateVersion c.kind item existing), c)

def submit (c : CellTable) (s : Submission) : Admission × CellTable :=
  match c.aliases.lookup s.key with
  | some other => (.refused (.nameIsAlias (s.item c.kind) (c.cell other).name), c)
  | none => (c.cellNamed s.key).2.join (c.cellNamed s.key).1 s

/-- The table read by name. -/
def view (c : CellTable) : ItemTable where
  kind := c.kind
  allowAliases := c.allowAliases
  tolerateDuplicates := c.tolerateDuplicates
  groups := c.names.map fun p => c.cell p.2
  aliases := c.aliases.map fun p => (p.1, (c.cell p.2).name)
  snapshot := c.snapshot
  duplicatesSkipped := c.duplicatesSkipped

def after (c : CellTable) : TableStep → CellTable
  | .submit s => (c.submit s).2
  | .clear => { c with names := [], aliases := [], snapshot := [], duplicatesSkipped := 0 }
  | .latest => { c with snapshot := c.view.latest.2.snapshot }

def run (c : CellTable) (steps : List TableStep) : CellTable := steps.foldl after c

/-- Every name has a cell of its own, and every alias leads to the cell of a name. -/
structure Sound (c : CellTable) : Prop where
  names_nodup : (c.names.map Prod.fst).Nodup
  cell_name : ∀ p ∈ c.names, p.2 < c.cells.length ∧ (c.cell p.2).name = p.1
  alias_shares : ∀ p ∈ c.aliases, ∃ name, (name, p.2) ∈ c.names

variable {c : CellTable} {r : Nat} {key name : String} {g : VersionGroup}

/-! ### Reading by name -/

theorem lookup_map_snd {α β : Type} (f : α → β) (l : List (String × α)) (key : String) :
    (l.map fun p => (p.1, f p.2)).lookup key = (l.lookup key).map f := by
  induction l with
  | nil => rfl
  | cons p l ih =>
    obtain ⟨k, x⟩ := p
    by_cases hk : key = k
    · simp [hk]
    · have hbeq : (key == k) = false := beq_false_of_ne hk
      simp [List.lookup_cons, hbeq, ih]

@[simp] theorem kind_view (c : CellTable) : c.view.kind = c.kind := rfl

@[simp] theorem allowAliases_view (c : CellTable) : c.view.allowAliases = c.allowAliases := rfl

@[simp] theorem tolerateDuplicates_view (c : CellTable) :
    c.view.tolerateDuplicates = c.tolerateDuplicates := rfl

theorem aliasOwner?_view (c : CellTable) (key : String) :
    c.view.aliasOwner? key = (c.aliases.lookup key).map fun r => (c.cell r).name :=
  lookup_map_snd (fun r => (c.cell r).name) c.aliases key

namespace Sound

variable (h : c.Sound)
include h

theorem names_view : c.view.names = c.names.map Prod.fst := by
  simp only [view, ItemTable.names, List.map_map]
  exact List.map_congr_left fun p hp => (h.cell_name p hp).2

theorem cell_unique {r' : Nat} (hr : (name, r) ∈ c.names) (hr' : (key, r') ∈ c.names) :
    (c.cell r).name = (c.cell r').name ↔ r = r' := by
  refine ⟨fun he => ?_, fun he => he ▸ rfl⟩
  rw [(h.cell_name _ hr).2, (h.cell_name _ hr').2] at he
  exact congrArg Prod.snd (List.inj_on_of_nodup_map h.names_nodup hr hr' he)

theorem groupNamed?_view (key : String) :
    c.view.groupNamed? key = (c.names.lookup key).map c.cell := by
  have hnodup : c.view.names.Nodup := h.names_view ▸ h.names_nodup
  cases hr : c.names.lookup key with
  | none =>
    apply (ItemTable.groupNamed?_eq_none_iff key).mpr
    rw [h.names_view]
    intro hmem
    obtain ⟨⟨k, r⟩, hp, rfl⟩ := List.mem_map.mp hmem
    rw [(lookup_eq_some_iff_mem h.names_nodup).mpr hp] at hr
    cases hr
  | some r =>
    have hp := (lookup_eq_some_iff_mem h.names_nodup).mp hr
    have hg := ItemTable.groupNamed?_of_mem hnodup (g := c.cell r) (List.mem_map_of_mem hp)
    rwa [(h.cell_name _ hp).2] at hg

theorem owner?_mem {owner : Nat} (ho : c.owner? key = some owner) :
    ∃ name, (name, owner) ∈ c.names := by
  unfold owner? at ho
  cases ha : c.aliases.lookup key with
  | some r =>
    obtain ⟨before, after, hsplit, -⟩ := List.lookup_eq_some_iff.mp ha
    obtain rfl : r = owner := by simpa [ha] using ho
    exact h.alias_shares (key, r) (by simp [hsplit])
  | none =>
    rw [ha, Option.none_or] at ho
    exact ⟨key, (lookup_eq_some_iff_mem h.names_nodup).mp ho⟩

theorem owner?_view (key : String) : c.view.owner? key = (c.owner? key).map c.cell := by
  unfold ItemTable.owner?
  rw [aliasOwner?_view]
  cases ha : c.aliases.lookup key with
  | some r =>
    have hown : c.owner? key = some r := by simp [owner?, ha]
    obtain ⟨name, hp⟩ := h.owner?_mem hown
    have hr := (lookup_eq_some_iff_mem h.names_nodup).mpr hp
    simp only [hown, Option.map_some, (h.cell_name _ hp).2, h.groupNamed?_view, hr]
  | none =>
    simp only [owner?, ha, Option.none_or, Option.map_none, h.groupNamed?_view]

end Sound

/-! ### Changing cells -/

section SetCell

variable (h : c.Sound) (hr : (g.name, r) ∈ c.names)
include h hr

theorem cell_setCell (r' : Nat) : (c.setCell r g).cell r' = if r' = r then g else c.cell r' := by
  have hlt := (h.cell_name _ hr).1
  simp only [cell, setCell, List.getD_eq_getElem?_getD, List.getElem?_set]
  by_cases hr' : r' = r
  · simp [hr', hlt]
  · simp [hr', Ne.symm hr']

theorem name_cell_setCell (r' : Nat) : ((c.setCell r g).cell r').name = (c.cell r').name := by
  rw [cell_setCell h hr]
  split
  · next he => rw [he, (h.cell_name _ hr).2]
  · rfl

theorem Sound.setCell : (c.setCell r g).Sound where
  names_nodup := h.names_nodup
  cell_name p hp := by
    rw [name_cell_setCell h hr]
    exact ⟨by simpa [CellTable.setCell] using (h.cell_name p hp).1, (h.cell_name p hp).2⟩
  alias_shares := h.alias_shares

/-- A group that grows in its cell is a group put in the place of its name. -/
theorem view_setCell : (c.setCell r g).view = c.view.putGroup g := by
  have hmem : g.name ∈ c.view.names := by
    rw [h.names_view]
    exact List.mem_map_of_mem hr
  have hgroups : (c.setCell r g).view.groups = (c.view.putGroup g).groups := by
    rw [ItemTable.putGroup_groups, if_pos hmem]
    simp only [view, List.map_map]
    apply List.map_congr_left
    intro p hp
    have hiff := h.cell_unique hp hr
    rw [(h.cell_name _ hr).2] at hiff
    simp only [Function.comp_apply, cell_setCell h hr, hiff]
  have haliases : (c.setCell r g).view.aliases = c.view.aliases := by
    simp only [view, name_cell_setCell h hr]
    rfl
  rw [ItemTable.putGroup_eq, ← hgroups, ← haliases]
  rfl

end SetCell

section MakeCell

variable (h : c.Sound) (hkey : key ∉ c.view.names)
include h

theorem cell_makeCell {r : Nat} (hr : (name, r) ∈ c.names) : (c.makeCell key).cell r = c.cell r := by
  have hlt : r < c.cells.length := (h.cell_name _ hr).1
  simp [cell, makeCell, List.getElem?_append_left hlt]

omit h in
theorem cell_makeCell_length (c : CellTable) (key : String) :
    (c.makeCell key).cell c.cells.length = .empty key := by
  simp [cell, makeCell]

include hkey

theorem Sound.makeCell : (c.makeCell key).Sound where
  names_nodup := by
    rw [h.names_view] at hkey
    simp only [CellTable.makeCell, List.map_append, List.map_cons, List.map_nil]
    refine List.nodup_append.mpr ⟨h.names_nodup, List.nodup_singleton _, ?_⟩
    rintro k hk _ hk' rfl
    exact hkey (List.mem_singleton.mp hk' ▸ hk)
  cell_name p hp := by
    rcases List.mem_append.mp hp with hp | hp
    · rw [cell_makeCell h hp]
      refine ⟨?_, (h.cell_name p hp).2⟩
      rw [CellTable.makeCell, List.length_append]
      exact Nat.lt_add_right _ (h.cell_name p hp).1
    · rw [List.mem_singleton.mp hp, cell_makeCell_length]
      exact ⟨by simp [CellTable.makeCell], rfl⟩
  alias_shares p hp := by
    obtain ⟨name, hname⟩ := h.alias_shares p hp
    exact ⟨name, List.mem_append_left _ hname⟩

theorem view_makeCell : (c.makeCell key).view = c.view.putGroup (.empty key) := by
  have hgroups : (c.makeCell key).view.groups = (c.view.putGroup (.empty key)).groups := by
    rw [ItemTable.putGroup_groups, if_neg (show (VersionGroup.empty key).name ∉ _ from hkey)]
    simp only [view, makeCell, List.map_append, List.map_cons, List.map_nil]
    congr 1
    · exact List.map_congr_left fun p hp => cell_makeCell h hp
    · exact congrArg (fun g => [g]) (cell_makeCell_length c key)
  have haliases : (c.makeCell key).view.aliases = c.view.aliases := by
    refine List.map_congr_left fun p hp => ?_
    obtain ⟨name, hname⟩ := h.alias_shares p hp
    rw [cell_makeCell h hname]
  rw [ItemTable.putGroup_eq, ← hgroups, ← haliases]
  rfl

end MakeCell

theorem cellNamed_spec (h : c.Sound) (key : String) :
    (c.cellNamed key).2.Sound ∧ (key, (c.cellNamed key).1) ∈ (c.cellNamed key).2.names ∧
      (c.cellNamed key).2.cell (c.cellNamed key).1 = ⟨key, c.view.itemsOf key⟩ ∧
      (c.cellNamed key).2.view = c.view.putGroup ⟨key, c.view.itemsOf key⟩ := by
  have hnodup : c.view.names.Nodup := h.names_view ▸ h.names_nodup
  have hview := h.groupNamed?_view key
  cases hr : c.names.lookup key with
  | some r =>
    have hp := (lookup_eq_some_iff_mem h.names_nodup).mp hr
    have hcell : c.cell r = ⟨key, c.view.itemsOf key⟩ := by
      rw [hr, Option.map_some] at hview
      rw [← ItemTable.groupNamed?_getD, hview, Option.getD_some]
    rw [hr, Option.map_some, hcell] at hview
    simp only [cellNamed, hr]
    exact ⟨h, hp, hcell, (ItemTable.putGroup_self hnodup hview).symm⟩
  | none =>
    rw [hr, Option.map_none] at hview
    have hnot := (ItemTable.groupNamed?_eq_none_iff key).mp hview
    have hempty : (⟨key, c.view.itemsOf key⟩ : VersionGroup) = .empty key := by
      rw [ItemTable.itemsOf_of_not_mem hnot, VersionGroup.empty]
    simp only [cellNamed, hr, hempty]
    exact ⟨h.makeCell hnot, List.mem_append_right _ (List.mem_singleton_self _),
      cell_makeCell_length c key, view_makeCell h hnot⟩

/-! ### Steps -/

section MapAliases

variable {item : Item} (h : c.Sound) (hr : (item.name, r) ∈ c.names)
include h hr

/-- That an alias leads to the item's cell and that it leads to the item's name are one. -/
theorem view_mapAlias (word : String) :
    (c.mapAlias r item word).map view = c.view.mapAlias item word ∧
      ∀ c', c.mapAlias r item word = .ok c' → c'.Sound ∧ c'.names = c.names := by
  have hname : (c.cell r).name = item.name := (h.cell_name _ hr).2
  simp only [mapAlias, ItemTable.mapAlias, hname, h.owner?_view]
  by_cases hskip : aliasKey word = "" ∨ aliasKey word = item.name
  · rw [if_pos hskip, if_pos hskip]
    refine ⟨rfl, ?_⟩
    rintro _ ⟨⟩
    exact ⟨h, rfl⟩
  · rw [if_neg hskip, if_neg hskip]
    cases ho : c.owner? (aliasKey word) with
    | none =>
      refine ⟨?_, ?_⟩
      · rw [← hname]
        simp only [Option.map_none, Except.map, view, List.map_append, List.map_cons, List.map_nil]
        rfl
      rintro _ ⟨⟩
      refine ⟨⟨h.names_nodup, h.cell_name, fun p hp => ?_⟩, rfl⟩
      rcases List.mem_append.mp hp with hp | hp
      · exact h.alias_shares p hp
      · exact ⟨item.name, by rwa [List.mem_singleton.mp hp]⟩
    | some owner =>
      obtain ⟨n, hn⟩ := h.owner?_mem ho
      have hiff := h.cell_unique hn hr
      rw [hname] at hiff
      simp only [Option.map_some, hiff]
      by_cases hown : owner = r
      · rw [if_pos hown, if_pos hown]
        refine ⟨rfl, ?_⟩
        rintro _ ⟨⟩
        exact ⟨h, rfl⟩
      · rw [if_neg hown, if_neg hown]
        cases (c.cell owner).oldest? with
        | none => exact ⟨rfl, by rintro _ ⟨⟩⟩
        | some other => exact ⟨rfl, by rintro _ ⟨⟩⟩

theorem view_mapAliases (words : List String) :
    (mapAliases r item c words).1 = (ItemTable.mapAliases item c.view words).1 ∧
      (mapAliases r item c words).2.view = (ItemTable.mapAliases item c.view words).2 ∧
      (mapAliases r item c words).2.Sound := by
  induction words generalizing c with
  | nil => exact ⟨rfl, rfl, h⟩
  | cons word words ih =>
    obtain ⟨hview, hsound⟩ := view_mapAlias h hr word
    simp only [mapAliases, ItemTable.mapAliases, ← hview]
    cases hm : c.mapAlias r item word with
    | error e => exact ⟨rfl, rfl, h⟩
    | ok c' =>
      obtain ⟨h', hnames⟩ := hsound c' hm
      exact ih h' (hnames ▸ hr)

end MapAliases

theorem view_join {t : ItemTable} {s : Submission} (h : c.Sound) (hr : (s.key, r) ∈ c.names)
    (hcell : c.cell r = ⟨s.key, t.itemsOf s.key⟩)
    (hview : c.view = t.putGroup ⟨s.key, t.itemsOf s.key⟩) (ha : t.aliasOwner? s.key = none) :
    (c.join r s).1 = (t.submit s).1 ∧ (c.join r s).2.view = (t.submit s).2 ∧
      (c.join r s).2.Sound := by
  have hkind : t.kind = c.kind := by rw [← kind_view, hview, ItemTable.kind_putGroup]
  simp only [join, ItemTable.submit, ItemTable.register, Submission.ofEntry_eq_item,
    Submission.item_name, Submission.item_version, ha, hcell, ItemTable.groupNamed?_getD, hkind]
  cases hadd : VersionGroup.add? ⟨s.key, t.itemsOf s.key⟩ (s.item c.kind) with
  | none =>
    simp only [← hview, tolerateDuplicates_view, kind_view]
    cases VersionGroup.find? ⟨s.key, t.itemsOf s.key⟩ s.entry.version with
    | none => exact ⟨rfl, rfl, h⟩
    | some existing =>
      cases c.tolerateDuplicates with
      | false => exact ⟨rfl, rfl, h⟩
      | true => exact ⟨rfl, rfl, ⟨h.1, h.2, h.3⟩⟩
  | some grown =>
    have hname : grown.name = s.key := VersionGroup.name_of_add? hadd
    have hr' : (grown.name, r) ∈ c.names := hname ▸ hr
    -- here the group has grown in its cell; there it has been put back twice under its name
    have hput : (c.setCell r grown).view = t.putGroup grown := by
      rw [view_setCell h hr', hview, ItemTable.putGroup_putGroup _ hname.symm]
    have hset := h.setCell hr'
    have hritem : ((s.item c.kind).name, r) ∈ (c.setCell r grown).names := hr
    obtain ⟨herror, hrest, hsound⟩ := view_mapAliases hset hritem s.entry.aliases
    simp only [← hput, allowAliases_view]
    cases (c.setCell r grown).allowAliases with
    | false => exact ⟨rfl, rfl, hset⟩
    | true =>
      rcases hd : mapAliases r (s.item c.kind) (c.setCell r grown) s.entry.aliases with ⟨error, d⟩
      rcases hu : ItemTable.mapAliases (s.item c.kind) (c.setCell r grown).view s.entry.aliases with
        ⟨error', u⟩
      rw [hd] at herror hrest hsound
      rw [hu] at herror hrest
      obtain rfl : error = error' := herror
      obtain rfl : d.view = u := hrest
      cases error with
      | none => exact ⟨rfl, rfl, hsound⟩
      | some _ => exact ⟨rfl, rfl, hsound⟩

/-- Submitting to shared groups is submitting to the table read by name. -/
theorem view_submit (h : c.Sound) (s : Submission) :
    (c.submit s).1 = (c.view.submit s).1 ∧ (c.submit s).2.view = (c.view.submit s).2 ∧
      (c.submit s).2.Sound := by
  have hview := aliasOwner?_view c s.key
  unfold submit
  cases ha : c.aliases.lookup s.key with
  | some other =>
    rw [ha] at hview
    rw [ItemTable.submit_of_alias hview]
    exact ⟨rfl, rfl, h⟩
  | none =>
    rw [ha] at hview
    obtain ⟨hd, hr, hcell, hput⟩ := cellNamed_spec h s.key
    exact view_join hd hr hcell hput hview

theorem view_after (h : c.Sound) (step : TableStep) :
    (c.after step).view = c.view.after step ∧ (c.after step).Sound := by
  cases step with
  | submit s => exact (view_submit h s).2
  | clear =>
    exact ⟨rfl, by simp [after], fun p hp => by simp [after] at hp, fun p hp => by simp [after] at hp⟩
  | latest =>
    refine ⟨?_, h.names_nodup, h.cell_name, h.alias_shares⟩
    rw [ItemTable.after, ItemTable.latest_snd_eq]
    rfl

/-- A run of shared groups is the same run of the table read by name. -/
theorem view_run (h : c.Sound) (steps : List TableStep) :
    (c.run steps).view = c.view.run steps ∧ (c.run steps).Sound := by
  induction steps generalizing c with
  | nil => exact ⟨rfl, h⟩
  | cons step steps ih =>
    obtain ⟨hview, hsound⟩ := view_after h step
    obtain ⟨hrest, hend⟩ := ih hsound
    exact ⟨hrest.trans (by rw [hview]; rfl), hend⟩

theorem sound_fresh (kind : PackKind) (allowAliases tolerateDuplicates : Bool) :
    (fresh kind allowAliases tolerateDuplicates).Sound := by
  constructor <;> simp [fresh]

/-- Whatever is submitted, cleared and listed, in whatever order and with whatever refusals on the
way, the table stays coherent, and every alias shares its group with a name. -/
theorem run_coherent (kind : PackKind) (allowAliases tolerateDuplicates : Bool)
    (steps : List TableStep) :
    ((ItemTable.fresh kind allowAliases tolerateDuplicates).run steps).Coherent ∧
      (allowAliases = false →
        ((ItemTable.fresh kind allowAliases tolerateDuplicates).run steps).aliases = []) ∧
      ((fresh kind allowAliases tolerateDuplicates).run steps).view =
        (ItemTable.fresh kind allowAliases tolerateDuplicates).run steps ∧
      ((fresh kind allowAliases tolerateDuplicates).run steps).Sound := by
  have hfresh := ItemTable.wellFormed_fresh kind allowAliases tolerateDuplicates
  have hrun := hfresh.run steps
  obtain ⟨hview, hsound⟩ := view_run (sound_fresh kind allowAliases tolerateDuplicates) steps
  refine ⟨hrun.coherent, fun hno => ?_, hview, hsound⟩
  exact hrun.aliases_allowed ((ItemTable.allowAliases_run hfresh steps).trans hno)

end CellTable

end PackIndex
