import Mathlib.Data.List.Nodup
import PackIndex.Package.Scan
import PackIndex.Proofs.Result

/-!
# What a scan finds

A scan finds one location for each candidate, in order: the path that the candidate resolves to. So
it finds a location twice exactly if two candidates resolve to one path, be it because a directory is
given twice, in two spellings or through a link.
-/

namespace PackIndex.Scan

variable {t : FileTree} {suffixes : List String} {dirs more : List FilePath} {dir : FilePath}
  {paths : List FilePath} {found : List Location}

def candidatesIn (t : FileTree) (suffixes : List String) (dir : FilePath) : List FilePath :=
  match t.list dir with
  | .ok names => candidates t suffixes dir names
  | .error _ => []

theorem ofPath_eq_ok_iff {p : FilePath} {l : Location} :
    Location.ofPath t p = .ok l ↔ t.resolve p = .ok l.path := by
  unfold Location.ofPath
  split
  · next h => simp [h]
  · next h => simp [h, Location.ext_iff]

theorem ofPath_eq_error_iff {p : FilePath} {e : ResolveError} :
    Location.ofPath t p = .error e ↔ t.resolve p = .error e := by
  unfold Location.ofPath
  split
  · next h => simp [h]
  · next h => simp [h]

theorem locations_ok_iff : locations t paths = .ok found ↔
    paths.map t.resolve = found.map fun l => .ok l.path := by
  induction paths generalizing found with
  | nil => rw [locations, Except.ok.injEq, List.map_nil, eq_comm, List.nil_eq, List.map_eq_nil_iff]
  | cons p rest ih =>
    rw [locations, List.map_cons]
    cases hp : Location.ofPath t p with
    | error e =>
      simp only [reduceCtorEq, false_iff]
      intro heq
      obtain ⟨l, others, rfl, hl, -⟩ := List.map_eq_cons_iff.mp heq.symm
      rw [ofPath_eq_ok_iff.mpr hl.symm] at hp
      cases hp
    | ok l =>
      simp only [map_eq_ok_iff, ih]
      constructor
      · rintro ⟨others, hothers, rfl⟩
        rw [List.map_cons, ofPath_eq_ok_iff.mp hp, hothers]
      · intro heq
        obtain ⟨l', others, rfl, hl', hothers⟩ := List.map_eq_cons_iff.mp heq.symm
        rw [ofPath_eq_ok_iff.mpr hl'.symm, Except.ok.injEq] at hp
        exact ⟨others, hothers.symm, by rw [hp]⟩

theorem directory_ok (h : (directory t suffixes dir).result = .ok found) :
    locations t (candidatesIn t suffixes dir) = .ok found := by
  unfold directory at h
  split at h
  · cases h
  · unfold candidatesIn
    split at h
    · next hlist =>
      obtain rfl := Except.ok.inj h
      rw [hlist]
      rfl
    · next hlist => rwa [hlist]

def foundOn (t : FileTree) (suffixes : List String) (dirs : List FilePath) :
    Except ScanError (List Location) :=
  (directories t suffixes (dirs.map some)).result

theorem foundOn_nil : foundOn t suffixes [] = .ok [] := rfl

theorem foundOn_cons_ok_iff : foundOn t suffixes (dir :: dirs) = .ok found ↔ ∃ here others,
    (directory t suffixes dir).result = .ok here ∧ foundOn t suffixes dirs = .ok others ∧
      found = here ++ others := by
  simp only [foundOn, List.map_cons, directories, Traced.result_bind, bind_eq_ok_iff]
  constructor
  · rintro ⟨here, hhere, others, hothers, ⟨⟩⟩
    exact ⟨here, others, hhere, hothers, rfl⟩
  · rintro ⟨here, others, hhere, hothers, rfl⟩
    exact ⟨here, hhere, others, hothers, rfl⟩

theorem foundOn_append_ok_iff : foundOn t suffixes (dirs ++ more) = .ok found ↔ ∃ first second,
    foundOn t suffixes dirs = .ok first ∧ foundOn t suffixes more = .ok second ∧
      found = first ++ second := by
  induction dirs generalizing found with
  | nil => simp [foundOn_nil]
  | cons dir rest ih =>
    simp only [List.cons_append, foundOn_cons_ok_iff, ih]
    constructor
    · rintro ⟨here, _, hhere, ⟨first, second, hfirst, hsecond, rfl⟩, rfl⟩
      exact ⟨here ++ first, second, ⟨here, first, hhere, hfirst, rfl⟩, hsecond,
        (List.append_assoc here first second).symm⟩
    · rintro ⟨_, second, ⟨here, first, hhere, hfirst, rfl⟩, hsecond, rfl⟩
      exact ⟨here, first ++ second, hhere, ⟨first, second, hfirst, hsecond, rfl⟩,
        List.append_assoc here first second⟩

/-- What is found in a directory on the list is among what is found on the list. -/
theorem directory_subset (hdir : dir ∈ dirs) (h : foundOn t suffixes dirs = .ok found) :
    ∃ here, (directory t suffixes dir).result = .ok here ∧ here ⊆ found := by
  obtain ⟨before, after, rfl⟩ := List.append_of_mem hdir
  obtain ⟨first, _, -, hrest, rfl⟩ := foundOn_append_ok_iff.mp h
  obtain ⟨here, others, hhere, -, rfl⟩ := foundOn_cons_ok_iff.mp hrest
  exact ⟨here, hhere, fun l hl => List.mem_append_right _ (List.mem_append_left _ hl)⟩

theorem foundOn_ok (h : foundOn t suffixes dirs = .ok found) :
    (dirs.flatMap (candidatesIn t suffixes)).map t.resolve = found.map fun l => .ok l.path := by
  induction dirs generalizing found with
  | nil =>
    obtain rfl := Except.ok.inj h
    rfl
  | cons dir rest ih =>
    obtain ⟨here, others, hhere, hothers, rfl⟩ := foundOn_cons_ok_iff.mp h
    rw [List.flatMap_cons, List.map_append, List.map_append,
      locations_ok_iff.mp (directory_ok hhere), ih hothers]

theorem nodup_foundOn_iff (h : foundOn t suffixes dirs = .ok found) :
    found.Nodup ↔ ((dirs.flatMap (candidatesIn t suffixes)).map t.resolve).Nodup := by
  rw [foundOn_ok h, List.nodup_map_iff]
  exact fun l l' hpath => Location.ext (Except.ok.inj hpath)

end PackIndex.Scan
