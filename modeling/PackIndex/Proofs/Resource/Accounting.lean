import PackIndex.Catalog.Query
import PackIndex.Proofs.Resource.Failure
import PackIndex.Proofs.Resource.Reading
import PackIndex.Resource.Metered

/-!
# What a look-up is counted as

A look-up of a registered item ends in one of four ways: with the first archive on the shared
namespace that answers it, with the reference itself if that has a scheme, with a member of the
item's own package, or with nothing. Metrics count exactly that one, and nothing if the look-up
fails.
-/

namespace PackIndex

/-! ### Answers of the shared namespace -/

/-- Whether an archive can be opened, holds what a reference names, and shows a mark in the decoded
path of that member's URL. -/
def Location.Answers (t : FileTree) (ref mark : String) (l : Location) : Prop :=
  ∃ member path, MemberPath.normalize? ref = some member ∧ l.has t member = .ok true ∧
    Url.decodedPath (l.memberUrl member) = .ok path ∧ Text.contains path mark = true

namespace Resolver

variable {t : FileTree} {ns : Option SharedNamespace} {l : Location} {ref mark : String}
  {report : Bool} {accept : String → Bool}

/-- A namespace that answers takes the first of its archives that hold a member and show it. -/
theorem deconflict_eq {s : SharedNamespace} {member : String} {found : Option ResourceHandle}
    (hm : MemberPath.normalize? ref = some member)
    (h : (deconflict t (some s) ref accept report).result = .ok found) :
    found = (s.locations.find? fun l => l.holds t member && shown accept (.ofMember l member)).map
      fun l => .ofMember l member := by
  obtain ⟨handles, hhandles, rfl⟩ := deconflict_head h
  simp only [SharedNamespace.findResources, hm, SharedNamespace.findIn_result] at hhandles
  rw [← Except.ok.inj hhandles, List.head?_filter, List.find?_map, List.find?_filter]
  simp only [Function.comp_def, Bool.decide_and, Bool.decide_eq_true]

theorem answers_iff {member : String} (hm : MemberPath.normalize? ref = some member) :
    l.Answers t ref mark ↔ (l.holds t member &&
      shown (fun path => Text.contains path mark) (.ofMember l member)) = true := by
  rw [Bool.and_eq_true, Location.holds_iff]
  constructor
  · rintro ⟨other, path, hother, hheld, hpath, hmark⟩
    obtain rfl := Option.some.inj (hother.symm.trans hm)
    refine ⟨hheld, ?_⟩
    rw [shown, ResourceHandle.ofMember, hpath]
    exact hmark
  · rintro ⟨hheld, hshown⟩
    rw [shown, ResourceHandle.ofMember] at hshown
    cases hpath : Url.decodedPath (l.memberUrl member) with
    | error e =>
      rw [hpath] at hshown
      cases hshown
    | ok path =>
      rw [hpath] at hshown
      exact ⟨member, path, hm, hheld, hpath, hshown⟩

/-- Whether an archive of the shared namespace answers a reference. -/
def OnShared (t : FileTree) (ns : Option SharedNamespace) (ref mark : String) : Prop :=
  ∃ s ∈ ns, ∃ l ∈ s.locations, l.Answers t ref mark

/-- The first archive of the shared namespace that answers, and the member in it. -/
def FirstOnShared (t : FileTree) (ns : Option SharedNamespace) (ref mark : String)
    (handle : Option ResourceHandle) : Prop :=
  ∃ s ∈ ns, ∃ before l after member, s.locations = before ++ l :: after ∧
    l.Answers t ref mark ∧ (∀ other ∈ before, ¬ other.Answers t ref mark) ∧
    MemberPath.normalize? ref = some member ∧ handle = some (.ofMember l member)

theorem FirstOnShared.onShared {handle : Option ResourceHandle}
    (h : FirstOnShared t ns ref mark handle) : OnShared t ns ref mark ∧ handle ≠ none := by
  obtain ⟨s, hs, before, l, after, member, hsplit, hanswers, -, -, rfl⟩ := h
  exact ⟨⟨s, hs, l, by simp [hsplit], hanswers⟩, by simp⟩

theorem deconflict_cases {found : Option ResourceHandle}
    (h : (deconflict t ns ref (fun path => Text.contains path mark) report).result = .ok found) :
    FirstOnShared t ns ref mark found ∨ ¬ OnShared t ns ref mark ∧ found = none := by
  cases ns with
  | none => exact Or.inr ⟨by simp [OnShared], (Except.ok.inj h).symm⟩
  | some s =>
    cases hm : MemberPath.normalize? ref with
    | none =>
      rw [deconflict_of_unusable hm] at h
      exact Or.inr ⟨by simp [OnShared, Location.Answers, hm], (Except.ok.inj h).symm⟩
    | some member =>
      have hfound := deconflict_eq hm h
      cases hfirst : s.locations.find? fun l => l.holds t member &&
          shown (fun path => Text.contains path mark) (.ofMember l member) with
      | none =>
        rw [hfirst] at hfound
        refine Or.inr ⟨?_, hfound⟩
        rintro ⟨_, ⟨⟩, l, hl, hanswers⟩
        exact List.find?_eq_none.mp hfirst l hl ((answers_iff hm).mp hanswers)
      | some l =>
        rw [hfirst] at hfound
        obtain ⟨hl, before, after, hsplit, hbefore⟩ := List.find?_eq_some_iff_append.mp hfirst
        refine Or.inl ⟨s, rfl, before, l, after, member, hsplit, (answers_iff hm).mpr hl,
          fun other hother hanswers => ?_, hm, hfound⟩
        have hnot := hbefore other hother
        rw [(answers_iff hm).mp hanswers] at hnot
        cases hnot

/-! ### Outcomes -/

/-- Whether a package holds what a reference names. -/
def InPackage (t : FileTree) (l : Location) (ref : String) : Prop :=
  ∃ member, MemberPath.normalize? ref = some member ∧ l.has t member = .ok true

theorem resolve_cases {item : Item} {r : Resolution} (h : (resolve t ns item ref).result = .ok r) :
    (FirstOnShared t ns ref (item.packageName ++ "!") r.handle ∧ r.outcome = .deconflicted) ∨
    (¬ OnShared t ns ref (item.packageName ++ "!") ∧ Url.HasScheme ref ∧
      r = ⟨.absolute, some (.ofUrl ref)⟩) ∨
    (¬ OnShared t ns ref (item.packageName ++ "!") ∧ ¬ Url.HasScheme ref ∧
      ∃ member, MemberPath.normalize? ref = some member ∧ item.source.has t member = .ok true ∧
        r = ⟨.package, some (.ofMember item.source member)⟩) ∨
    (¬ OnShared t ns ref (item.packageName ++ "!") ∧ ¬ Url.HasScheme ref ∧
      ¬ InPackage t item.source ref ∧ r = ⟨.unresolved, none⟩) := by
  simp only [resolve, resolveWith, Traced.result_bind, bind_eq_ok_iff] at h
  obtain ⟨found, hfound, hr⟩ := h
  rcases deconflict_cases hfound with hfirst | ⟨hnot, rfl⟩
  · left
    cases found with
    | none => exact absurd rfl hfirst.onShared.2
    | some handle =>
      obtain rfl := Except.ok.inj hr
      exact ⟨hfirst, rfl⟩
  · right
    simp only [resolveLocal, Traced.result_bind, Traced.result_ofExcept, bind_eq_ok_iff] at hr
    obtain ⟨absolute, habsolute, hr⟩ := hr
    have hscheme := Url.isAbsolute_iff habsolute
    cases absolute with
    | true => exact Or.inl ⟨hnot, hscheme.mp rfl, (Except.ok.inj hr).symm⟩
    | false =>
      rw [if_neg Bool.false_ne_true] at hr
      have hrelative : ¬ Url.HasScheme ref := fun h => absurd (hscheme.mpr h) Bool.false_ne_true
      rcases resolveMember_eq t item.source ref with ⟨member, hm, hheld, hmember⟩ | ⟨hno, hmember⟩
      · have hr := Except.ok.inj (hr.symm.trans hmember)
        exact Or.inr (Or.inl ⟨hnot, hrelative, member, hm, hheld, hr⟩)
      · have hr := Except.ok.inj (hr.symm.trans hmember)
        refine Or.inr (Or.inr ⟨hnot, hrelative, ?_, hr⟩)
        rintro ⟨member, hm, hheld⟩
        exact hno member hm hheld

/-- The four ways in which a look-up of an item ends, and what is found in each. The first that
applies is taken. -/
structure Accounted (t : FileTree) (ns : Option SharedNamespace) (item : Item) (ref : String)
    (o : Outcome) (handle : Option ResourceHandle) : Prop where
  deconflicted_iff : o = .deconflicted ↔ OnShared t ns ref (item.packageName ++ "!")
  deconflicted : o = .deconflicted → FirstOnShared t ns ref (item.packageName ++ "!") handle
  absolute_iff : o = .absolute ↔
    ¬ OnShared t ns ref (item.packageName ++ "!") ∧ Url.HasScheme ref
  absolute : o = .absolute → handle = some ⟨ref, none⟩
  package_iff : o = .package ↔ ¬ OnShared t ns ref (item.packageName ++ "!") ∧
    ¬ Url.HasScheme ref ∧ InPackage t item.source ref
  package : o = .package → ∃ member, MemberPath.normalize? ref = some member ∧
    handle = some (.ofMember item.source member)
  unresolved_iff : o = .unresolved ↔ handle = none

theorem accounted_of_resolve {item : Item} {r : Resolution}
    (h : (resolve t ns item ref).result = .ok r) : Accounted t ns item ref r.outcome r.handle := by
  rcases resolve_cases h with ⟨hfirst, ho⟩ | ⟨hnot, hscheme, rfl⟩ |
    ⟨hnot, hscheme, member, hm, hheld, rfl⟩ | ⟨hnot, hscheme, hno, rfl⟩
  · obtain ⟨hshared, hne⟩ := hfirst.onShared
    constructor <;> simp [ho, hshared, hfirst, hne]
  · constructor <;> simp [hnot, hscheme, ResourceHandle.ofUrl]
  · have hin : InPackage t item.source ref := ⟨member, hm, hheld⟩
    constructor <;> simp [hnot, hscheme, hin, hm]
  · constructor <;> simp [hnot, hscheme, hno]

end Resolver

namespace MeteredResolver

variable {t : FileTree} {r : MeteredResolver}

theorem answer_of_error {found : Traced ResolutionError Resolution} {e : ResolutionError}
    (h : (r.answer found).1.result = .error e) : (r.answer found).2 = r := by
  unfold answer at h ⊢
  split at h
  · rfl
  · cases h

theorem answer_of_ok {found : Traced ResolutionError Resolution} {handle : Option ResourceHandle}
    (h : (r.answer found).1.result = .ok handle) : ∃ o,
      found.result = .ok ⟨o, handle⟩ ∧ (r.answer found).2 = r.record o := by
  unfold answer at h ⊢
  split at h
  · cases h
  · next resolution hfound =>
    obtain rfl := Except.ok.inj h
    exact ⟨resolution.outcome, hfound, rfl⟩

/-- A look-up that is answered adds one to the counter of the way in which it ended, and to nothing
else; a look-up that fails, or that nothing was given for, changes no counter. -/
theorem resolve_accounted (ns : Option SharedNamespace) (m : Metrics) (t : FileTree) :
    (∀ item? ref? e, (MeteredResolver.resolve t ⟨ns, some m⟩ item? ref?).1.result = .error e →
      (MeteredResolver.resolve t ⟨ns, some m⟩ item? ref?).2 = ⟨ns, some m⟩) ∧
    ∀ item ref handle,
      (MeteredResolver.resolve t ⟨ns, some m⟩ (some item) (some ref)).1.result = .ok handle →
      ∃ o counts,
        (MeteredResolver.resolve t ⟨ns, some m⟩ (some item) (some ref)).2 =
          ⟨ns, some { m with resolutions := counts }⟩ ∧
        (∀ p, counts.get p = if p = o then m.resolutions.get p + 1 else m.resolutions.get p) ∧
        Resolver.Accounted t ns item ref o handle := by
  refine ⟨fun item? ref? e h => answer_of_error h, fun item ref handle h => ?_⟩
  obtain ⟨o, hfound, hrecord⟩ := answer_of_ok h
  refine ⟨o, m.resolutions.bump o, hrecord, m.resolutions.get_bump o, ?_⟩
  exact Resolver.accounted_of_resolve (mapError_eq_ok_iff.mp hfound)

def betaNamespace : SharedNamespace :=
  ⟨[packAt "AlphaVariant.zip", packAt "BetaVariant.zip"]⟩

/-- The second archive on the namespace answers, and nothing but that is counted. -/
theorem resolve_accounted_beta : ∃ counts,
    (MeteredResolver.resolve (twoPackTree "AlphaVariant.zip" "BetaVariant.zip")
      ⟨some betaNamespace, some .fresh⟩ (some (packItem "BetaVariant.zip")) (some "map.svg")).2 =
        ⟨some betaNamespace, some { Metrics.fresh with resolutions := counts }⟩ ∧
    counts.get .deconflicted = 1 ∧ counts.get .package = 0 := by
  have hresult : (MeteredResolver.resolve (twoPackTree "AlphaVariant.zip" "BetaVariant.zip")
      ⟨some betaNamespace, some .fresh⟩ (some (packItem "BetaVariant.zip"))
      (some "map.svg")).1.result = .ok (some (.ofMember (packAt "BetaVariant.zip") "map.svg")) := rfl
  obtain ⟨o, counts, hcounts, hget, haccounted⟩ := (resolve_accounted (some betaNamespace) .fresh
    (twoPackTree "AlphaVariant.zip" "BetaVariant.zip")).2 _ _ _ hresult
  have hshared : Resolver.OnShared (twoPackTree "AlphaVariant.zip" "BetaVariant.zip")
      (some betaNamespace) "map.svg" ((packItem "BetaVariant.zip").packageName ++ "!") :=
    ⟨_, rfl, packAt "BetaVariant.zip", by simp [betaNamespace], "map.svg",
      "/packs/BetaVariant.zip!/map.svg", rfl, rfl, by decide +kernel, by decide +kernel⟩
  obtain rfl := haccounted.deconflicted_iff.mpr hshared
  refine ⟨counts, hcounts, ?_, ?_⟩
  · rw [hget]
    rfl
  · rw [hget]
    rfl

end MeteredResolver

end PackIndex
