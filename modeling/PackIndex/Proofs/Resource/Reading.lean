import PackIndex.Proofs.Archive.Access
import PackIndex.Proofs.Resource.Failure
import PackIndex.Proofs.Url.Scheme

/-!
# Reading what was resolved

A handle into an archive is only given after the archive has been asked for the member. Until the
file tree changes the member can be read, and what is read is the last entry of its name. Without a
shared namespace a reference without a scheme leads to such an entry or to nothing, unless its host
part is malformed: then the look-up fails, also where nothing would have been found.
-/

namespace PackIndex.Resolver

variable {t : FileTree} {ns : Option SharedNamespace} {l : Location} {ref member stored : String}
  {accept : String → Bool} {report : Bool} {r : Resolution} {h : ResourceHandle}

/-- Whether the path of a handle's URL can be decoded and is accepted. -/
def shown (accept : String → Bool) (h : ResourceHandle) : Bool :=
  (Url.decodedPath h.url).toOption.any accept

theorem accepted_eq {found good : List ResourceHandle} (hgood : accepted accept found = .ok good) :
    good = found.filter (shown accept) := by
  induction found generalizing good with
  | nil => exact (Except.ok.inj hgood).symm
  | cons first rest ih =>
    rw [accepted] at hgood
    cases hpath : Url.decodedPath first.url with
    | error e =>
      rw [hpath] at hgood
      cases hgood
    | ok path =>
      rw [hpath] at hgood
      obtain ⟨others, hothers, rfl⟩ := map_eq_ok_iff.mp hgood
      have hfirst : shown accept first = accept path := by rw [shown, hpath]; rfl
      rw [List.filter_cons, hfirst, ih hothers]

theorem deconflict_head {s : SharedNamespace} {found : Option ResourceHandle}
    (hfound : (deconflict t (some s) ref accept report).result = .ok found) :
    ∃ handles, (s.findResources t ref : Traced Url.Error _).result = .ok handles ∧
      found = (handles.filter (shown accept)).head? := by
  simp only [deconflict, Traced.result_bind, bind_eq_ok_iff, Traced.result_ofExcept] at hfound
  obtain ⟨handles, hhandles, good, hgood, hfirst⟩ := hfound
  refine ⟨handles, hhandles, ?_⟩
  rw [← accepted_eq hgood]
  rcases good with _ | ⟨first, _ | ⟨second, rest⟩⟩
  · exact (Except.ok.inj hfirst).symm
  · exact (Except.ok.inj hfirst).symm
  · cases report <;> exact (Except.ok.inj hfirst).symm

theorem mem_of_findResources {s : SharedNamespace} {found : List ResourceHandle}
    (hfound : (s.findResources t ref : Traced Url.Error _).result = .ok found) (hmem : h ∈ found) :
    ∃ member l, MemberPath.normalize? ref = some member ∧ l.has t member = .ok true ∧
      h = .ofMember l member := by
  unfold SharedNamespace.findResources at hfound
  split at hfound
  · obtain rfl := Except.ok.inj hfound
    cases hmem
  · next member hm =>
    rw [SharedNamespace.findIn_result] at hfound
    obtain rfl := Except.ok.inj hfound
    obtain ⟨l, hl, rfl⟩ := List.mem_map.mp hmem
    exact ⟨member, l, hm, (Location.holds_iff l).mp (List.mem_filter.mp hl).2, rfl⟩

/-- Whatever the shared namespace is, its answer is a member that an archive holds. -/
theorem holds_of_deconflict (hfound : (deconflict t ns ref accept report).result = .ok (some h)) :
    ∃ member l, MemberPath.normalize? ref = some member ∧ l.has t member = .ok true ∧
      h = .ofMember l member := by
  cases ns with
  | none => cases hfound
  | some s =>
    obtain ⟨handles, hhandles, hhead⟩ := deconflict_head hfound
    have hmem : h ∈ handles.filter (shown accept) := List.mem_of_head? hhead.symm
    exact mem_of_findResources hhandles (List.mem_filter.mp hmem).1

theorem resolveMember_eq (t : FileTree) (l : Location) (ref : String) :
    (∃ member, MemberPath.normalize? ref = some member ∧ l.has t member = .ok true ∧
      (resolveMember t l ref).result = .ok ⟨.package, some (.ofMember l member)⟩) ∨
    ((∀ member, MemberPath.normalize? ref = some member → l.has t member ≠ .ok true) ∧
      (resolveMember t l ref).result = .ok ⟨.unresolved, none⟩) := by
  unfold resolveMember
  split
  · next hm => exact Or.inr ⟨fun member hmember => (by rw [hm] at hmember; cases hmember), rfl⟩
  · next member hm =>
    have hother (held : Except ArchiveError Bool) (hheld : l.has t member = held)
        (hne : held ≠ .ok true) : ∀ other, MemberPath.normalize? ref = some other →
          l.has t other ≠ .ok true := by
      intro other hother
      obtain rfl := Option.some.inj (hm.symm.trans hother)
      rwa [hheld]
    split
    · next e hheld => exact Or.inr ⟨hother _ hheld (by simp), rfl⟩
    · next hheld => exact Or.inl ⟨member, hm, hheld, rfl⟩
    · next hheld => exact Or.inr ⟨hother _ hheld (by simp), rfl⟩

theorem resolveMember_cases (t : FileTree) (l : Location) (ref : String) :
    ∃ r, (resolveMember t l ref).result = .ok r ∧
      ((∃ member, MemberPath.normalize? ref = some member ∧ l.has t member = .ok true ∧
          r.handle = some (.ofMember l member)) ∨
        (r.handle = none ∧
          ∀ member, MemberPath.normalize? ref = some member → l.has t member ≠ .ok true)) := by
  rcases resolveMember_eq t l ref with ⟨member, hm, hheld, hr⟩ | ⟨hnot, hr⟩
  · exact ⟨_, hr, Or.inl ⟨member, hm, hheld, rfl⟩⟩
  · exact ⟨_, hr, Or.inr ⟨rfl, hnot⟩⟩

theorem holds_of_resolveWith (hr : (resolveWith t ns l ref accept report).result = .ok r)
    (hh : r.handle = some h) (hurl : h.member ≠ none) :
    ∃ member l, MemberPath.normalize? ref = some member ∧ l.has t member = .ok true ∧
      h = .ofMember l member := by
  simp only [resolveWith, Traced.result_bind, bind_eq_ok_iff] at hr
  obtain ⟨found, hfound, hr⟩ := hr
  cases found with
  | some first =>
    obtain rfl := Except.ok.inj hr
    obtain rfl := Option.some.inj hh
    exact holds_of_deconflict hfound
  | none =>
    simp only [resolveLocal, Traced.result_bind, bind_eq_ok_iff, Traced.result_ofExcept] at hr
    obtain ⟨absolute, -, hr⟩ := hr
    cases absolute with
    | true =>
      obtain rfl := Except.ok.inj hr
      obtain rfl := Option.some.inj hh
      exact absurd rfl hurl
    | false =>
      obtain ⟨r', hr', hcases⟩ := resolveMember_cases t l ref
      obtain rfl := Except.ok.inj (hr'.symm.trans hr)
      rcases hcases with ⟨member, hm, hheld, hhandle⟩ | ⟨hhandle, -⟩
      · obtain rfl := Option.some.inj (hhandle.symm.trans hh)
        exact ⟨member, l, hm, hheld, rfl⟩
      · rw [hhandle] at hh
        cases hh

theorem read_of_has (hm : MemberPath.normalize? member = some stored)
    (hheld : l.has t member = .ok true) :
    ∃ a entry, t.openArchive l.path = .ok a ∧ a.IsLast stored entry ∧
      (entry.fault = none → (ResourceHandle.ofMember l member).read t = .ok entry.content) ∧
      ∀ fault, entry.fault = some fault → (ResourceHandle.ofMember l member).read t =
        .error (.archive (.member (.faulty stored fault))) := by
  obtain ⟨a, hopen, hnames⟩ := (Location.has_eq_ok_true_iff hm).mp hheld
  obtain ⟨entry, hlast⟩ := Archive.exists_isLast_of_mem_names hnames
  obtain ⟨hgood, hfaulty⟩ := Archive.read_of_isLast hlast
  have hread : (ResourceHandle.ofMember l member).read t =
      ((a.read stored).mapError .member).mapError .archive := by
    simp only [ResourceHandle.read, ResourceHandle.ofMember, Location.read_eq hm, hopen, ok_bind]
  refine ⟨a, entry, hopen, hlast, fun hfault => ?_, fun fault hfault => ?_⟩
  · rw [hread, hgood hfault]
    rfl
  · rw [hread, hfaulty fault hfault]
    rfl

/-- Why a package has nothing for a reference. -/
inductive Lacks (t : FileTree) (l : Location) (ref : String) : Prop
  | unnamed : MemberPath.normalize? ref = none → Lacks t l ref
  | unopenable {e : ArchiveError} : t.openArchive l.path = .error e → Lacks t l ref
  | absent {member stored : String} {a : Archive} : MemberPath.normalize? ref = some member →
      MemberPath.normalize? member = some stored → t.openArchive l.path = .ok a →
      stored ∉ a.names → Lacks t l ref

theorem not_held_iff :
    (∀ member, MemberPath.normalize? ref = some member → l.has t member ≠ .ok true) ↔
      Lacks t l ref := by
  constructor
  · intro hnot
    cases hm : MemberPath.normalize? ref with
    | none => exact .unnamed hm
    | some member =>
      obtain ⟨stored, hstored⟩ := MemberPath.normalize?_of_normalize? hm
      have habsent := mt (Location.has_eq_ok_true_iff hstored).mpr (hnot member hm)
      cases hopen : t.openArchive l.path with
      | error e => exact .unopenable hopen
      | ok a => exact .absent hm hstored hopen fun hmem => habsent ⟨a, hopen, hmem⟩
  · rintro hlacks member hm hheld
    obtain ⟨stored, hstored⟩ := MemberPath.normalize?_of_normalize? hm
    obtain ⟨a, hopen, hmem⟩ := (Location.has_eq_ok_true_iff hstored).mp hheld
    cases hlacks with
    | unnamed hnone => simp [hnone] at hm
    | unopenable hfails => simp [hopen] at hfails
    | absent hm' hstored' hopen' habsent =>
      obtain rfl := Option.some.inj (hm.symm.trans hm')
      obtain rfl := Option.some.inj (hstored.symm.trans hstored')
      obtain rfl := Except.ok.inj (hopen.symm.trans hopen')
      exact habsent hmem

/-- Without a shared namespace a reference that has no scheme and can be split is one into the
package. -/
theorem resolve_none_eq (item : Item) (hscheme : ¬ Url.HasScheme ref)
    (hhost : ¬ Url.MalformedHost (Url.hostOf ref)) :
    (resolve t none item ref).result = (resolveMember t item.source ref).result := by
  obtain ⟨absolute, habsolute⟩ : ∃ absolute, Url.isAbsolute ref = .ok absolute := by
    cases hsplit : Url.split ref with
    | error e => exact absurd (Url.split_eq_error_iff.mp ⟨e, hsplit⟩) hhost
    | ok parts => exact ⟨_, map_eq_ok_iff.mpr ⟨parts, hsplit, rfl⟩⟩
  obtain rfl : absolute = false :=
    Bool.eq_false_iff.mpr fun h => hscheme ((Url.isAbsolute_iff habsolute).mp h)
  simp only [resolve, resolveWith, deconflict, resolveLocal, Traced.result_bind,
    Traced.result_pure, Traced.result_ofExcept, ok_bind, habsolute]
  rfl

theorem resolve_none_error_iff {item : Item} :
    (∃ e, (resolve t none item ref).result = .error e) ↔ Url.MalformedHost (Url.hostOf ref) := by
  rw [← Url.split_eq_error_iff]
  refine exists_congr fun e => resolveWith_error_iff.trans (and_iff_left ?_)
  rintro ⟨s, hs, -⟩
  cases hs

/-- Without a shared namespace a reference without a scheme leads to nothing exactly if it can be
split and the package has nothing for it. -/
theorem resolve_none_iff {item : Item} (hscheme : ¬ Url.HasScheme ref) :
    (∃ r, (resolve t none item ref).result = .ok r ∧ r.handle = none) ↔
      ¬ Url.MalformedHost (Url.hostOf ref) ∧ Lacks t item.source ref := by
  by_cases hhost : Url.MalformedHost (Url.hostOf ref)
  · obtain ⟨e, he⟩ : ∃ e, (resolve t none item ref).result = .error e :=
      resolve_none_error_iff.mpr hhost
    simp [he, hhost]
  · obtain ⟨r, hr, hcases⟩ := resolveMember_cases t item.source ref
    rw [resolve_none_eq item hscheme hhost, hr, ← not_held_iff]
    simp only [Except.ok.injEq, exists_eq_left', hhost, not_false_eq_true, true_and]
    rcases hcases with ⟨member, hm, hheld, hhandle⟩ | ⟨hhandle, hnot⟩
    · exact iff_of_false (by simp [hhandle]) fun hnone => hnone member hm hheld
    · exact iff_of_true hhandle hnot

/-- A handle to what a reference names in an archive: to the last entry of the stored name, which is
read from the tree unless it is damaged. -/
structure Opens (t : FileTree) (ref : String) (h : ResourceHandle) (l : Location) (a : Archive)
    (member stored : String) (entry : Member) : Prop where
  named : MemberPath.normalize? ref = some member
  url : h.url = l.memberUrl member
  stored_as : MemberPath.normalize? member = some stored
  opened : t.openArchive l.path = .ok a
  last : a.IsLast stored entry
  read : entry.fault = none → h.read t = .ok entry.content
  read_faulty : ∀ fault, entry.fault = some fault →
    h.read t = .error (.archive (.member (.faulty stored fault)))

/-- A handle into an archive has the URL of the member that the reference names, and as long as the
tree stays the same it can be read. Without a shared namespace a reference without a scheme is not
resolved exactly if it can be split and the package has nothing for it; if it cannot be split the
look-up fails, whatever the package has. -/
theorem resolved_readable (t : FileTree) (item : Item) (ref : String) :
    (∀ ns r h l, (resolve t ns item ref).result = .ok r → r.handle = some h →
      h.location? = some l → ∃ a member stored entry, Opens t ref h l a member stored entry) ∧
    (¬ Url.HasScheme ref →
      ((∃ r, (resolve t none item ref).result = .ok r ∧ r.handle = none) ↔
        ¬ Url.MalformedHost (Url.hostOf ref) ∧ Lacks t item.source ref) ∧
      ((∃ e, (resolve t none item ref).result = .error e) ↔
        Url.MalformedHost (Url.hostOf ref))) := by
  refine ⟨fun ns r h l hr hh hl => ?_, fun hscheme =>
    ⟨resolve_none_iff hscheme, resolve_none_error_iff⟩⟩
  have hurl : h.member ≠ none := by
    intro hnone
    rw [ResourceHandle.location?, hnone] at hl
    cases hl
  obtain ⟨member, l', hm, hheld, rfl⟩ := holds_of_resolveWith hr hh hurl
  obtain rfl := Option.some.inj hl
  obtain ⟨stored, hstored⟩ := MemberPath.normalize?_of_normalize? hm
  obtain ⟨a, entry, hopen, hlast, hread, hfaulty⟩ := read_of_has hstored hheld
  exact ⟨a, member, stored, entry, hm, rfl, hstored, hopen, hlast, hread, hfaulty⟩

def repeatedTree : FileTree :=
  ⟨.dir [("packs", .dir [("AVariant.zip",
    .file (.archive ⟨[⟨"map.svg", [1], none⟩, ⟨"map.svg", [2], none⟩]⟩))])], []⟩

theorem resolved_readable_repeated :
    (∃ h, (resolve repeatedTree none (packItem "AVariant.zip") "//map.svg").result =
        .ok ⟨.package, some h⟩ ∧
      h.url = "file:///packs/AVariant.zip!////map.svg" ∧ h.read repeatedTree = .ok [2]) ∧
    ∃ r, (resolve repeatedTree none (packItem "AVariant.zip") "flag.svg").result = .ok r ∧
      r.handle = none := by
  obtain ⟨hreadable, -⟩ := resolved_readable repeatedTree (packItem "AVariant.zip") "//map.svg"
  obtain ⟨-, hmissing⟩ := resolved_readable repeatedTree (packItem "AVariant.zip") "flag.svg"
  constructor
  · have hr : (resolve repeatedTree none (packItem "AVariant.zip") "//map.svg").result =
        .ok ⟨.package, some (.ofMember (packAt "AVariant.zip") "///map.svg")⟩ := rfl
    obtain ⟨a, member, stored, entry, h⟩ := hreadable none _ _ (packAt "AVariant.zip") hr rfl rfl
    have hm : some "///map.svg" = some member := h.named
    obtain rfl := Option.some.inj hm
    have hstored : some "map.svg" = some stored := h.stored_as
    obtain rfl := Option.some.inj hstored
    have hopen : repeatedTree.openArchive (packPath "AVariant.zip") = .ok a := h.opened
    obtain rfl := Except.ok.inj hopen
    have hlast : some ⟨"map.svg", [2], none⟩ = some entry := Archive.find?_eq_some_iff.mpr h.last
    obtain rfl := Option.some.inj hlast
    exact ⟨_, hr, by rw [h.url]; rfl, h.read rfl⟩
  · have hscheme : ¬ Url.HasScheme "flag.svg" :=
      fun h => absurd ((Url.isAbsolute_iff (rfl : Url.isAbsolute "flag.svg" = .ok false)).mpr h)
        Bool.false_ne_true
    have hhost : ¬ Url.MalformedHost (Url.hostOf "flag.svg") := by
      rw [← Url.split_eq_error_iff]
      rintro ⟨e, he⟩
      cases he
    have hlacks : Lacks repeatedTree (packItem "AVariant.zip").source "flag.svg" :=
      .absent rfl rfl rfl (by decide)
    exact (hmissing hscheme).1.mpr ⟨hhost, hlacks⟩

/-- The archive can be opened and has no such entry, yet the look-up fails. -/
theorem resolve_unsplit :
    ¬ ∀ (t : FileTree) (item : Item) (ref : String), ¬ Url.HasScheme ref →
      Lacks t item.source ref → ∃ r, (resolve t none item ref).result = .ok r ∧ r.handle = none := by
  intro hall
  have hscheme : ¬ Url.HasScheme "//[no.svg" := by
    rintro ⟨c, word, rest, hcs, hletter, -⟩
    have hclean : Url.clean "//[no.svg".toList = "//[no.svg".toList := by decide
    rw [hclean] at hcs
    obtain rfl := (List.cons.inj hcs).1
    exact absurd hletter (by decide)
  obtain ⟨r, hr, -⟩ := hall repeatedTree (packItem "AVariant.zip") "//[no.svg" hscheme
    (.absent rfl rfl rfl (by decide))
  have hfails : (resolve repeatedTree none (packItem "AVariant.zip") "//[no.svg").result =
      .error .unbalancedBrackets := rfl
  rw [hfails] at hr
  cases hr

end PackIndex.Resolver
