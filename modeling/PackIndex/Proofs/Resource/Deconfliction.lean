import PackIndex.Proofs.Result
import PackIndex.Proofs.Text.Pieces
import PackIndex.Proofs.Url.Member
import PackIndex.Resource.Resolver

/-!
# Which archive a reference leads to

On a shared namespace the archives that hold a member are tried in order, and the first whose member
URL shows the name of the item's package followed by `!` is taken. The right archive always shows
it, so there is an answer if the right archive is there. Another archive shows it as well if its
file name ends in the package's name, if a component of its path contains the marker, or if the name
of the member does; the answer is wrong exactly if such an archive comes first.
-/

namespace PackIndex

variable {t : FileTree} {ns : SharedNamespace} {member : String}

/-! ### Archives that hold a member -/

def Location.holds (t : FileTree) (member : String) (l : Location) : Bool :=
  (l.has t member).toOption.getD false

theorem Location.holds_iff (l : Location) :
    l.holds t member = true ↔ l.has t member = .ok true := by
  unfold Location.holds
  cases l.has t member <;> simp [Except.toOption]

def SharedNamespace.holders (t : FileTree) (member : String) (ns : SharedNamespace) :
    List Location := ns.locations.filter fun l => l.holds t member

theorem SharedNamespace.mem_holders_iff {l : Location} :
    l ∈ ns.holders t member ↔ l ∈ ns.locations ∧ l.has t member = .ok true := by
  rw [holders, List.mem_filter, Location.holds_iff]

theorem SharedNamespace.findIn_result {ε : Type} (locations : List Location) :
    (findIn t member locations : Traced ε (List ResourceHandle)).result =
      .ok ((locations.filter fun l => l.holds t member).map fun l => .ofMember l member) := by
  induction locations with
  | nil => rfl
  | cons l rest ih =>
    unfold findIn
    rw [List.filter_cons]
    rcases hl : l.has t member with e | found
    · simp only [Location.holds, hl, Traced.result_bind, ih]
      rfl
    · cases found with
      | false => simp only [Location.holds, hl, ih]; rfl
      | true => simp only [Location.holds, hl, Traced.result_bind, ih]; rfl

/-! ### Marked archives -/

/-- Whether the decoded path of a member's URL shows the name followed by `!`. -/
def Location.marked (name member : String) (l : Location) : Bool :=
  Text.contains (l.path.text ++ "!/" ++ Url.memberTail member) (name ++ "!")

/-- What makes an archive show the name of a package. -/
def Location.Shows (name member : String) (l : Location) : Prop :=
  Text.endsWith l.name name = true ∨
  (∃ part ∈ l.path.parts, Text.contains part (name ++ "!") = true) ∨
  Text.contains (Url.memberTail member) (name ++ "!") = true

instance (name member : String) (l : Location) : Decidable (l.Shows name member) :=
  inferInstanceAs (Decidable (_ ∨ _ ∨ _))

theorem Location.marked_iff_shows {name : String} (l : Location)
    (hname : '/' ∉ name.toList) : l.marked name member = true ↔ l.Shows name member := by
  have hlast : l.name.toList = (l.path.parts.map String.toList).getLast?.getD [] := by
    rw [Location.name, FilePath.name, List.getLast?_map]
    cases l.path.parts.getLast? <;> rfl
  have htail : '/' ∉ name.toList ++ ['!'] := by simpa using hname
  have htext : (l.path.text ++ "!/" ++ Url.memberTail member).toList =
      FilePath.rootFront l.path.root ++ '/' :: (['/'].intercalate (l.path.parts.map String.toList) ++
        '!' :: '/' :: (Url.memberTail member).toList) := by
    simp [FilePath.toList_text_of_isAbsolute l.absolute]
  have hfront : ¬ name.toList ++ ['!'] <:+: FilePath.rootFront l.path.root := by
    intro hinfix
    have hmark : '!' ∈ FilePath.rootFront l.path.root := hinfix.subset (by simp)
    cases hroot : l.path.root <;> simp [hroot, FilePath.rootFront] at hmark
  unfold Location.marked Location.Shows
  rw [Text.contains_iff, htext, String.toList_append]
  change name.toList ++ ['!'] <:+: _ ↔ _
  rw [Text.infix_append_cons_iff htail, Text.marked_infix_intercalate_iff hname (by decide),
    Text.endsWith_iff, hlast, Text.contains_iff, String.toList_append]
  simp [Text.contains_iff, hfront]

theorem Location.shows_self (l : Location) : l.Shows l.name member :=
  Or.inl ((Text.endsWith_iff _ _).mpr List.suffix_rfl)

/-! ### The first marked archive -/

theorem accepted_ofMember (accept : String → Bool) (locations : List Location) :
    Resolver.accepted accept (locations.map fun l => .ofMember l member) =
      .ok ((locations.filter fun l =>
        accept (l.path.text ++ "!/" ++ Url.memberTail member)).map fun l => .ofMember l member) := by
  induction locations with
  | nil => rfl
  | cons l rest ih =>
    rw [List.map_cons, Resolver.accepted, List.filter_cons]
    simp only [ResourceHandle.ofMember] at ih ⊢
    rw [Url.decodedPath_memberUrl, ih]
    simp only [Except.map]
    split <;> rfl

theorem deconflict_result {ref : String} {accept : String → Bool} {report : Bool}
    (hm : MemberPath.normalize? ref = some member) :
    (Resolver.deconflict t (some ns) ref accept report).result =
      .ok (((ns.holders t member).find? fun l =>
        accept (l.path.text ++ "!/" ++ Url.memberTail member)).map fun l => .ofMember l member) := by
  simp only [Resolver.deconflict, Traced.result_bind, SharedNamespace.findResources, hm,
    SharedNamespace.findIn_result]
  change (Resolver.accepted accept ((ns.holders t member).map _) >>= _) = _
  rw [accepted_ofMember, ← List.head?_filter]
  rcases (ns.holders t member).filter _ with _ | ⟨l, _ | ⟨next, rest⟩⟩
  · rfl
  · rfl
  · cases report <;> rfl

/-- The first that is marked is one that is right exactly if none is marked before the first that is
right. -/
theorem find?_iff_takeWhile {α : Type} {marked right : α → Bool} {l : List α} {x : α}
    (himp : ∀ y ∈ l, right y = true → marked y = true) (hx : l.find? marked = some x) :
    right x = true ↔ ∀ y ∈ l.takeWhile (!right ·), marked y = false := by
  induction l with
  | nil => cases hx
  | cons y rest ih =>
    rw [List.find?_cons] at hx
    rw [List.takeWhile_cons]
    cases hright : right y with
    | true =>
      rw [himp y List.mem_cons_self hright] at hx
      obtain rfl := Option.some.inj hx
      simp [hright]
    | false =>
      simp only [Bool.not_false, if_true, List.forall_mem_cons]
      cases hmarked : marked y with
      | true =>
        rw [hmarked] at hx
        obtain rfl := Option.some.inj hx
        simp [hright]
      | false =>
        rw [hmarked] at hx
        simpa using ih (fun z hz => himp z (List.mem_cons_of_mem _ hz)) hx

/-- If an archive with the name of the item's package holds the member, one of the archives that
hold it is taken. It has the name of the package exactly if no archive that shows the name holds the
member and comes before the first that has it. -/
theorem resolve_named_iff {item : Item} {ref : String}
    (hm : MemberPath.normalize? ref = some member) (hslash : '/' ∉ item.packageName.toList)
    (hright : ∃ l ∈ ns.locations, l.has t member = .ok true ∧ l.name = item.packageName) :
    ∃ l ∈ ns.locations, l.has t member = .ok true ∧
      (Resolver.resolve t (some ns) item ref).result =
        .ok ⟨.deconflicted, some (.ofMember l member)⟩ ∧
      (l.name = item.packageName ↔
        ∀ other ∈ (ns.holders t member).takeWhile fun l => l.name ≠ item.packageName,
          ¬ other.Shows item.packageName member) := by
  have hiff : ∀ l ∈ ns.holders t member,
      (l.marked item.packageName member = true ↔ l.Shows item.packageName member) :=
    fun l _ => l.marked_iff_shows hslash
  have himp : ∀ l ∈ ns.holders t member, decide (l.name = item.packageName) = true →
      l.marked item.packageName member = true := by
    intro l hl hname
    rw [hiff l hl, ← of_decide_eq_true hname]
    exact l.shows_self
  obtain ⟨right, hmem, hhas, hname⟩ := hright
  have hheld := SharedNamespace.mem_holders_iff.mpr ⟨hmem, hhas⟩
  -- an archive of the right name is marked, so the search cannot come back empty
  obtain ⟨l, hl⟩ : ∃ l, (ns.holders t member).find?
      (fun l => l.marked item.packageName member) = some l :=
    Option.isSome_iff_exists.mp
      (List.find?_isSome.mpr ⟨right, hheld, himp right hheld (decide_eq_true hname)⟩)
  obtain ⟨hmem, hhas⟩ := SharedNamespace.mem_holders_iff.mp (List.mem_of_find?_eq_some hl)
  refine ⟨l, hmem, hhas, ?_, ?_⟩
  · have hfound : (Resolver.deconflict t (some ns) ref
        (fun path => Text.contains path (item.packageName ++ "!")) true).result =
          .ok (some (.ofMember l member)) := by
      rw [deconflict_result hm]
      exact congrArg (fun found : Option Location =>
        Except.ok (found.map fun l => ResourceHandle.ofMember l member)) hl
    simp only [Resolver.resolve, Resolver.resolveWith, Traced.result_bind, hfound]
    rfl
  · rw [← decide_eq_true_iff (p := l.name = item.packageName), find?_iff_takeWhile himp hl]
    simp only [← decide_not]
    refine forall₂_congr fun other hother => ?_
    rw [← hiff other ((List.takeWhile_sublist _).subset hother), Bool.not_eq_true]

/-- Two archives of one directory that hold the same member. -/
def twoPackTree (first second : String) : FileTree :=
  ⟨.dir [("packs", .dir [(first, .file (.archive ⟨[⟨"map.svg", [1], none⟩]⟩)),
    (second, .file (.archive ⟨[⟨"map.svg", [2], none⟩]⟩))])], []⟩

def packPath (name : String) : FilePath := .ofParts ["packs", name]

def packAt (name : String) : Location := ⟨packPath name, rfl⟩

def packItem (name : String) : Item :=
  ⟨"standard", "Standard", .ofInt 1, .variants, packAt name, name, none⟩

theorem resolve_second_pack :
    ∃ l, l.name = "BetaVariant.zip" ∧
      (Resolver.resolve (twoPackTree "AlphaVariant.zip" "BetaVariant.zip")
        (some ⟨[packAt "AlphaVariant.zip", packAt "BetaVariant.zip"]⟩)
        (packItem "BetaVariant.zip") "map.svg").result =
          .ok ⟨.deconflicted, some (.ofMember l "map.svg")⟩ := by
  have hm : MemberPath.normalize? "map.svg" = some "map.svg" := rfl
  have hslash : '/' ∉ (packItem "BetaVariant.zip").packageName.toList := by decide
  have hright : ∃ l ∈ [packAt "AlphaVariant.zip", packAt "BetaVariant.zip"],
      l.has (twoPackTree "AlphaVariant.zip" "BetaVariant.zip") "map.svg" = .ok true ∧
        l.name = (packItem "BetaVariant.zip").packageName :=
    ⟨packAt "BetaVariant.zip", List.mem_cons_of_mem _ List.mem_cons_self, rfl, rfl⟩
  obtain ⟨l, -, -, hfound, hiff⟩ := resolve_named_iff hm hslash hright
  refine ⟨l, hiff.mpr ?_, hfound⟩
  decide +kernel

/-- A file name that ends in the name of the right archive is taken for it. -/
theorem resolve_longer_name :
    ¬ ∀ (t : FileTree) (ns : SharedNamespace) (paths : List FilePath) (item : Item)
      (ref member : String), SharedNamespace.ofPaths t paths = .ok ns →
      MemberPath.normalize? ref = some member →
      (∃ l ∈ ns.locations, l.has t member = .ok true ∧ l.name = item.packageName) →
      ∃ l, l.name = item.packageName ∧ (Resolver.resolve t (some ns) item ref).result =
        .ok ⟨.deconflicted, some (.ofMember l member)⟩ := by
  intro hall
  obtain ⟨l, hname, hfound⟩ := hall (twoPackTree "BigStandardVariant.zip" "StandardVariant.zip")
    ⟨[packAt "BigStandardVariant.zip", packAt "StandardVariant.zip"]⟩
    [packPath "BigStandardVariant.zip", packPath "StandardVariant.zip"]
    (packItem "StandardVariant.zip") "map.svg" "map.svg" rfl rfl
    ⟨packAt "StandardVariant.zip", List.mem_cons_of_mem _ List.mem_cons_self, rfl, rfl⟩
  have hother : (Resolver.resolve (twoPackTree "BigStandardVariant.zip" "StandardVariant.zip")
      (some ⟨[packAt "BigStandardVariant.zip", packAt "StandardVariant.zip"]⟩)
      (packItem "StandardVariant.zip") "map.svg").result =
        .ok ⟨.deconflicted, some (.ofMember (packAt "BigStandardVariant.zip") "map.svg")⟩ := rfl
  rw [hother] at hfound
  simp only [Except.ok.injEq, Resolution.mk.injEq, Option.some.injEq, ResourceHandle.ofMember,
    ResourceHandle.mk.injEq, Prod.mk.injEq, true_and, and_true] at hfound
  rw [← hfound.2] at hname
  exact absurd hname (by decide)

end PackIndex
