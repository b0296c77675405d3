import PackIndex.Log.Home
import PackIndex.Package.Location
import PackIndex.Proofs.Path.Home
import PackIndex.Proofs.Text.Replacement

/-!
# What shortening the home directory does

No text keeps an occurrence of the home directory, and in texts without `~` nothing else is lost.
But an occurrence need not be the home directory: a path is shortened to the way from there exactly
if the text of the home directory does not stand anywhere else in it.
-/

namespace PackIndex

namespace FilePath

variable {homes : Homes} {H p : FilePath} {parts rest : List String}

/-! ### Texts of paths as fronts of each other -/

/-- Components as they stand behind a directory. -/
def below (parts : List String) : List Char := parts.flatMap fun part => '/' :: part.toList

theorem below_append (parts rest : List String) :
    below (parts ++ rest) = below parts ++ below rest := List.flatMap_append

theorem below_eq (hne : parts ≠ []) : below parts = '/' :: ("/".intercalate parts).toList := by
  rw [String.toList_intercalate]
  induction parts with
  | nil => exact absurd rfl hne
  | cons part rest ih =>
    cases rest with
    | nil => simp [below]
    | cons next rest =>
      have hrest := ih (List.cons_ne_nil _ _)
      simp only [below, List.flatMap_cons, List.map_cons, List.intercalate_cons_cons] at hrest ⊢
      rw [hrest]
      simp

theorem toList_text (habsolute : p.isAbsolute = true) (hne : p.parts ≠ []) :
    p.text.toList = rootFront p.root ++ below p.parts := by
  rw [toList_text_of_isAbsolute habsolute, below_eq hne, String.toList_intercalate]
  rfl

theorem text_ne_empty (p : FilePath) : p.text.toList ≠ [] := by
  by_cases hempty : p.root = .none ∧ p.parts = []
  · rw [text, if_pos hempty]
    decide
  · rw [text, if_neg hempty, String.toList_append, Ne, List.append_eq_nil_iff, not_and]
    intro hroot
    cases hr : p.root with
    | none =>
      have hne : p.parts ≠ [] := fun hparts => hempty ⟨hr, hparts⟩
      obtain ⟨part, rest, hparts⟩ := List.exists_cons_of_ne_nil hne
      have hpart := (p.isPart part (hparts ▸ List.mem_cons_self)).nonempty
      rw [hparts, String.toList_intercalate, List.map_cons]
      cases rest with
      | nil => simpa using hpart
      | cons next rest => simp
    | slash => simp [hr, rootText] at hroot
    | doubleSlash => simp [hr, rootText] at hroot

/-- The text of a directory that is no root: slashes, and then a component. -/
theorem exists_text_of_isAbsolute (habsolute : H.isAbsolute = true) (hne : H.parts ≠ []) :
    ∃ c more, c ≠ '/' ∧
      (H.text.toList = '/' :: c :: more ∨ H.text.toList = '/' :: '/' :: c :: more) := by
  obtain ⟨part, rest, hcons⟩ := List.exists_cons_of_ne_nil hne
  have hpart := H.isPart part (hcons ▸ List.mem_cons_self)
  obtain ⟨c, cs, hcs⟩ := List.exists_cons_of_ne_nil (mt String.toList_eq_nil_iff.mp hpart.nonempty)
  have hc : c ≠ '/' := fun heq => hpart.noSlash (by rw [hcs, heq]; exact List.mem_cons_self)
  refine ⟨c, cs ++ below rest, hc, ?_⟩
  have htext : H.text.toList = rootFront H.root ++ '/' :: c :: (cs ++ below rest) := by
    rw [toList_text habsolute hne, hcons, below, List.flatMap_cons, hcs]
    rfl
  cases hroot : H.root with
  | doubleSlash => exact Or.inr (by rw [htext, hroot]; rfl)
  | _ => exact Or.inl (by rw [htext, hroot]; rfl)

/-! ### Paths seen from home -/

/-- Whether a path is the directory `H` or lies below it. -/
def IsWithin (H p : FilePath) : Prop := p.root = H.root ∧ H.parts <+: p.parts

instance : Decidable (IsWithin H p) := inferInstanceAs (Decidable (_ ∧ _))

/-- How a path is to be shown to the user whose home directory is `H`. -/
def fromHome (H p : FilePath) : String :=
  if p = H then "~"
  else if H.IsWithin p then "~/" ++ "/".intercalate (p.parts.drop H.parts.length)
  else p.text

theorem exists_of_isWithin (h : H.IsWithin p) : ∃ rest hrest, p = H.append rest hrest := by
  obtain ⟨hroot, rest, hrest⟩ := h
  have hparts : ∀ part ∈ rest, IsPart part := fun part hpart =>
    p.isPart part (hrest ▸ List.mem_append_right _ hpart)
  exact ⟨rest, hparts, FilePath.ext hroot hrest.symm⟩

theorem toList_fromHome_append (H : FilePath) (hrest : ∀ part ∈ rest, IsPart part) :
    (fromHome H (H.append rest hrest)).toList = '~' :: below rest := by
  unfold fromHome
  split
  · next hself =>
    have hrest : rest = [] := by simpa using congrArg FilePath.parts hself
    rw [hrest]
    rfl
  · next hne =>
    have hnil : rest ≠ [] := by
      rintro rfl
      exact hne (FilePath.ext rfl (List.append_nil _))
    rw [if_pos ⟨rfl, List.prefix_append _ _⟩, append_parts, List.drop_left, below_eq hnil,
      String.toList_append]
    rfl

theorem fromHome_of_not_isWithin (h : ¬ H.IsWithin p) : fromHome H p = p.text := by
  have hne : p ≠ H := by
    rintro rfl
    exact h ⟨rfl, List.prefix_rfl⟩
  rw [fromHome, if_neg hne, if_neg h]

end FilePath

namespace Home

open FilePath (IsPart below IsWithin fromHome)

variable {home dir : String} {H p : FilePath}

theorem marker?_of_directory? (h : directory? home = some dir) (hroot : dir ≠ "/") :
    marker? home = some dir := by
  rw [marker?, h]
  simpa using hroot

theorem directory?_ne_empty (h : directory? home = some dir) : dir.toList ≠ [] := by
  obtain ⟨H, -, rfl⟩ := Option.map_eq_some_iff.mp h
  exact H.text_ne_empty

theorem shorten_eq (h : marker? home = some dir) (text : String) :
    shorten home text = String.ofList (Text.replaceFrom dir.toList ['~'] 0 text.toList) := by
  unfold shorten
  rw [h]
  rfl

theorem shorten_of_not_infix (h : marker? home = some dir) {text : String}
    (hgone : ¬ dir.toList <:+: text.toList) : shorten home text = text := by
  rw [shorten_eq h, Text.replaceFrom_of_not_infix ['~'] hgone, String.ofList_toList]

/-- Shortening leaves no occurrence of the home directory, changes nothing when it is done again,
and can be undone where `~` meant nothing before. -/
theorem shorten_reversible (h : directory? home = some dir) (hroot : dir ≠ "/")
    (hmark : '~' ∉ dir.toList) (text : String) :
    ¬ dir.toList <:+: (shorten home text).toList ∧
      shorten home (shorten home text) = shorten home text ∧
      ('~' ∉ text.toList → Text.replace "~" dir (shorten home text) = text) := by
  have hne := directory?_ne_empty h
  have hmarker := marker?_of_directory? h hroot
  have hshort := shorten_eq hmarker text
  have hgone : ¬ dir.toList <:+: (shorten home text).toList := by
    rw [hshort, String.toList_ofList]
    exact Text.not_infix_replaceFrom hne hmark text.toList
  refine ⟨hgone, shorten_of_not_infix hmarker hgone, fun htext => ?_⟩
  rw [hshort, Text.replace, String.toList_ofList, String.toList_ofList,
    Text.replaceFrom_replaceFrom hne htext, String.ofList_toList]

theorem shorten_reversible_overlapping :
    directory? "/a/a" = some "/a/a" ∧ '~' ∉ "/a/a/a/a/a".toList ∧
      shorten "/a/a" "/a/a/a/a/a" = "~~/a" ∧ ¬ "/a/a".toList <:+: "~~/a".toList ∧
      shorten "/a/a" "~~/a" = "~~/a" ∧ Text.replace "~" "/a/a" "~~/a" = "/a/a/a/a/a" := by
  have hdir : directory? "/a/a" = some "/a/a" := by decide
  have htext : '~' ∉ "/a/a/a/a/a".toList := by decide
  have hshort : shorten "/a/a" "/a/a/a/a/a" = "~~/a" := by decide
  obtain ⟨hgone, hagain, hback⟩ :=
    shorten_reversible hdir (by decide) (by decide) "/a/a/a/a/a"
  rw [hshort] at hgone hagain hback
  exact ⟨hdir, htext, hshort, hgone, hagain, hback htext⟩

/-! ### Paths -/

/-- Where the home directory must not stand for a path to be shown right: behind the home directory
that the path begins with, or else anywhere in the text, `front` being what stands before the path. -/
def beyond (H p : FilePath) (front : String) : List Char :=
  if H.IsWithin p then below (p.parts.drop H.parts.length) else front.toList ++ p.text.toList

section Path

variable (hhome : (FilePath.ofString "~").expandHome? home = some H)
  (habsolute : H.isAbsolute = true) (hne : H.parts ≠ [])

include habsolute hne

/-- No home directory begins inside the start of a URI whose path begins with it. -/
theorem replaceFrom_front_home {front : String} (hfront : front = "" ∨ front = "file://")
    (rest : List Char) :
    Text.replaceFrom H.text.toList ['~'] 0 (front.toList ++ (H.text.toList ++ rest)) =
      front.toList ++ '~' :: Text.replaceFrom H.text.toList ['~'] 0 rest := by
  obtain ⟨c, more, hc, htext⟩ := FilePath.exists_text_of_isAbsolute habsolute hne
  have hnil : H.text.toList ≠ [] := by rcases htext with h | h <;> rw [h] <;> simp
  have hstart : ∀ d tail, d :: tail <:+ front.toList →
      ¬ H.text.toList <+: d :: (tail ++ (H.text.toList ++ rest)) := by
    intro d tail hd
    rcases hfront with rfl | rfl
    · simp at hd
    · have hsuffixes : d :: tail ∈ "file://".toList.tails := (List.mem_tails _ _).mpr hd
      rcases htext with h | h <;> rw [h] <;> simp at hsuffixes <;> grind
  rw [Text.replaceFrom_front _ hstart, Text.replaceFrom_append hnil, List.singleton_append]

include hhome

theorem marker?_of_home : marker? home = some H.text := by
  refine marker?_of_directory? (by rw [directory?, hhome]; rfl) fun hroot => ?_
  obtain ⟨c, more, -, htext | htext⟩ := FilePath.exists_text_of_isAbsolute habsolute hne
  all_goals
    rw [hroot] at htext
    exact absurd htext (by simp)

theorem shorten_front_iff {front : String} (hfront : front = "" ∨ front = "file://")
    (hp : p.isAbsolute = true) : shorten home (front ++ p.text) = front ++ fromHome H p ↔
      ¬ H.text.toList <:+: beyond H p front := by
  obtain ⟨c, more, -, htext⟩ := FilePath.exists_text_of_isAbsolute habsolute hne
  have hnil : H.text.toList ≠ [] := by rcases htext with h | h <;> rw [h] <;> simp
  have hhead : H.text.toList.head? ≠ some '~' := by rcases htext with h | h <;> rw [h] <;> simp
  rw [shorten_eq (marker?_of_home hhome habsolute hne), ← String.toList_inj, String.toList_ofList,
    String.toList_append, String.toList_append, beyond]
  by_cases hwithin : H.IsWithin p
  · obtain ⟨rest, hrest, rfl⟩ := FilePath.exists_of_isWithin hwithin
    have hparts : H.parts ++ rest ≠ [] := fun h => hne (List.append_eq_nil_iff.mp h).1
    have hfull : (H.append rest hrest).text.toList =
        H.text.toList ++ below rest := by
      rw [FilePath.toList_text hp hparts, FilePath.toList_text habsolute hne,
        FilePath.append_parts, FilePath.below_append, List.append_assoc]
      rfl
    rw [if_pos hwithin, FilePath.toList_fromHome_append, hfull,
      replaceFrom_front_home habsolute hne hfront, List.append_cancel_left_eq,
      List.cons.injEq, FilePath.append_parts, List.drop_left]
    exact (and_iff_right rfl).trans (Text.replaceFrom_eq_self_iff hnil hhead)
  · rw [if_neg hwithin, FilePath.fromHome_of_not_isWithin hwithin]
    exact Text.replaceFrom_eq_self_iff hnil hhead

/-- A path, and the path of a URI that holds it as it is, are shown as they are to be shown exactly if
the text of the home directory does not occur in them, apart from the front of a path in it. -/
theorem shorten_path_iff (l : Location) :
    (shorten home l.path.text = fromHome H l.path ↔ ¬ H.text.toList <:+: beyond H l.path "") ∧
      (Percent.encode l.path.text = l.path.text →
        (shorten home l.uri = "file://" ++ fromHome H l.path ↔
          ¬ H.text.toList <:+: beyond H l.path "file://")) := by
  refine ⟨?_, fun hplain => ?_⟩
  · have h := shorten_front_iff hhome habsolute hne (Or.inl rfl) l.absolute
    rwa [String.empty_append, String.empty_append] at h
  · rw [Location.uri, hplain]
    exact shorten_front_iff hhome habsolute hne (Or.inr rfl) l.absolute

end Path

theorem shorten_path_below :
    (FilePath.ofString "~").expandHome? "/home/al" = some (FilePath.ofString "/home/al") ∧
      fromHome (FilePath.ofString "/home/al") (FilePath.ofString "/home/al/packs/A.zip") =
        "~/packs/A.zip" ∧
      shorten "/home/al" (FilePath.ofString "/home/al/packs/A.zip").text = "~/packs/A.zip" ∧
      shorten "/home/al" (Location.mk (FilePath.ofString "/home/al/packs/A.zip") rfl).uri =
        "file://~/packs/A.zip" := by
  have hhome : (FilePath.ofString "~").expandHome? "/home/al" =
      some (FilePath.ofString "/home/al") := by decide
  have hshown : fromHome (FilePath.ofString "/home/al")
      (FilePath.ofString "/home/al/packs/A.zip") = "~/packs/A.zip" := by decide
  obtain ⟨htext, huri⟩ := shorten_path_iff hhome (by decide) (by decide)
    ⟨FilePath.ofString "/home/al/packs/A.zip", rfl⟩
  rw [hshown] at htext huri
  exact ⟨hhome, hshown, htext.mpr (by decide), (huri (by decide)).mpr (by decide)⟩

/-- A directory whose name only begins with that of the home directory is shown as another one. -/
theorem shorten_sibling :
    (FilePath.ofString "~").expandHome? "/home/al" = some (FilePath.ofString "/home/al") ∧
      fromHome (FilePath.ofString "/home/al") (FilePath.ofString "/home/alice/packs") =
        "/home/alice/packs" ∧
      shorten "/home/al" (FilePath.ofString "/home/alice/packs").text = "~ice/packs" := by
  decide

end Home

end PackIndex
