import PackIndex.Path.Basic
import PackIndex.Proofs.Text.Splitting

/-!
# Writing a path and reading it again

The components of a path hold no slash, so they are what the path's text is split into, behind the
empty pieces its root leaves. A path that was read from a text is what its own text is read as.
-/

namespace PackIndex.FilePath

variable {s part : String} {parts : List String}

/-- The components of a text whose pieces are parts behind some empty ones. -/
theorem components_of_pieces (count : Nat) (h : ∀ part ∈ parts, IsPart part)
    (hpieces : Text.splitChars '/' s.toList = List.replicate count [] ++ parts.map String.toList) :
    components s = parts := by
  have hempty : (List.replicate count ([] : List Char)).map String.ofList =
      List.replicate count "" := List.map_replicate
  have hparts : (parts.map String.toList).map String.ofList = parts := by simp
  rw [components, Text.split, hpieces, List.map_append, hempty, hparts, List.filter_append,
    List.filter_replicate_of_neg (by decide), List.nil_append, List.filter_eq_self]
  intro part hpart
  exact decide_eq_true ⟨(h part hpart).nonempty, (h part hpart).notDot⟩

theorem splitChars_join (hne : parts ≠ []) (h : ∀ part ∈ parts, IsPart part) :
    Text.splitChars '/' ("/".intercalate parts).toList = parts.map String.toList := by
  rw [String.toList_intercalate]
  refine Text.splitChars_intercalate (by simpa using hne) fun piece hpiece => ?_
  obtain ⟨part, hpart, rfl⟩ := List.mem_map.mp hpiece
  exact (h part hpart).noSlash

theorem head?_join (h : ∀ part ∈ parts, IsPart part) :
    ("/".intercalate parts).toList.head? ≠ some '/' := by
  cases parts with
  | nil => simp
  | cons part rest =>
    obtain ⟨hpart, -⟩ := List.forall_mem_cons.mp h
    obtain ⟨c, cs, hcs⟩ := List.exists_cons_of_ne_nil (mt String.toList_eq_nil_iff.mp hpart.nonempty)
    have hc : c ≠ '/' := fun heq => hpart.noSlash (by rw [hcs, heq]; exact List.mem_cons_self)
    have hstart : ("/".intercalate (part :: rest)).toList.head? = some c := by
      rw [String.toList_intercalate, List.map_cons, hcs]
      cases rest with
      | nil => rw [List.map_nil, List.intercalate_singleton, List.head?_cons]
      | cons next rest =>
        rw [List.map_cons, List.intercalate_cons_cons]
        rfl
    rw [hstart]
    simpa using hc

/-! ### Roots -/

section Root

variable {cs : List Char}

theorem rootOf_of_head?_ne (h : cs.head? ≠ some '/') : rootOf cs = .none := by
  cases cs with
  | nil => rfl
  | cons c cs =>
    have hc : c ≠ '/' := by simpa using h
    rw [rootOf]
    all_goals simp [hc]

theorem rootOf_slash (h : cs.head? ≠ some '/') : rootOf ('/' :: cs) = .slash := by
  cases cs with
  | nil => rfl
  | cons c cs =>
    have hc : c ≠ '/' := by simpa using h
    rw [rootOf]
    all_goals simp [hc]

theorem rootOf_doubleSlash (h : cs.head? ≠ some '/') : rootOf ('/' :: '/' :: cs) = .doubleSlash := by
  cases cs with
  | nil => rfl
  | cons c cs =>
    have hc : c ≠ '/' := by simpa using h
    rw [rootOf]
    simp [hc]

end Root

theorem ofString_rootText_append (root : PathRoot) (h : ∀ part ∈ parts, IsPart part) :
    ofString (rootText root ++ "/".intercalate parts) = ⟨root, parts, h⟩ := by
  -- no parts leave one more empty piece
  obtain ⟨count, hcount⟩ : ∃ count, Text.splitChars '/' ("/".intercalate parts).toList =
      List.replicate count [] ++ parts.map String.toList := by
    by_cases hne : parts = []
    · exact ⟨1, by rw [hne]; rfl⟩
    · exact ⟨0, splitChars_join hne h⟩
  have hhead := head?_join h
  cases root with
  | none =>
    have htext : (rootText .none ++ "/".intercalate parts).toList =
        ("/".intercalate parts).toList := by simp [rootText]
    refine FilePath.ext ?_ (components_of_pieces count h (htext ▸ hcount))
    exact (congrArg rootOf htext).trans (rootOf_of_head?_ne hhead)
  | slash =>
    have htext : (rootText .slash ++ "/".intercalate parts).toList =
        '/' :: ("/".intercalate parts).toList := by simp [rootText]
    refine FilePath.ext ((congrArg rootOf htext).trans (rootOf_slash hhead)) ?_
    refine components_of_pieces (count + 1) h ?_
    rw [htext, Text.splitChars, if_pos rfl, hcount]
    rfl
  | doubleSlash =>
    have htext : (rootText .doubleSlash ++ "/".intercalate parts).toList =
        '/' :: '/' :: ("/".intercalate parts).toList := by simp [rootText]
    refine FilePath.ext ((congrArg rootOf htext).trans (rootOf_doubleSlash hhead)) ?_
    refine components_of_pieces (count + 2) h ?_
    rw [htext, Text.splitChars, if_pos rfl, Text.splitChars, if_pos rfl, hcount]
    rfl

/-- A path is read back from its text. -/
theorem ofString_text (p : FilePath) : ofString p.text = p := by
  unfold text
  split
  · next hempty => exact FilePath.ext hempty.1.symm hempty.2.symm
  · exact ofString_rootText_append p.root p.isPart

def rootFront : PathRoot → List Char
  | .doubleSlash => ['/']
  | _ => []

theorem toList_text_of_isAbsolute {p : FilePath} (h : p.isAbsolute = true) :
    p.text.toList = rootFront p.root ++ '/' :: ['/'].intercalate (p.parts.map String.toList) := by
  have hroot : p.root ≠ .none := by simpa [isAbsolute] using h
  rw [text, if_neg fun hempty => hroot hempty.1, String.toList_append, String.toList_intercalate]
  cases hp : p.root with
  | none => exact absurd hp hroot
  | slash => rfl
  | doubleSlash => rfl

theorem text_of_isAbsolute {p : FilePath} (h : p.isAbsolute = true) :
    ∃ cs, p.text.toList = '/' :: cs := by
  rw [toList_text_of_isAbsolute h]
  cases p.root with
  | doubleSlash => exact ⟨_, rfl⟩
  | _ => exact ⟨_, rfl⟩

theorem name_suffix_text (p : FilePath) : p.name.toList <:+ p.text.toList := by
  have hname : p.name.toList = (p.parts.map String.toList).getLast?.getD [] := by
    rw [name, List.getLast?_map]
    cases p.parts.getLast? <;> rfl
  unfold text
  split
  · next hempty =>
    rw [hname, hempty.2]
    exact List.nil_suffix
  · rw [hname, String.toList_append, String.toList_intercalate]
    exact (Text.getLast?_suffix_intercalate '/' _).trans (List.suffix_append _ _)

end PackIndex.FilePath
