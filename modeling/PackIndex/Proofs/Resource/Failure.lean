import PackIndex.Proofs.Resource.Deconfliction
import PackIndex.Proofs.Url.Host

/-!
# References that make the look-up fail

A reference leads to a resource or to nothing, whatever the archives are like. Only the reference
itself can make the look-up fail: it is split as a URL once the shared namespace has no answer, and
a malformed host part cannot be split.
-/

namespace PackIndex.Resolver

variable {t : FileTree} {ns : Option SharedNamespace} {l : Location} {ref mark : String}
  {report : Bool}

/-- Whether an archive of the shared namespace holds what a reference names and shows a mark in the
address of that member. -/
def Answered (t : FileTree) (ns : Option SharedNamespace) (ref mark : String) : Prop :=
  ∃ s ∈ ns, ∃ member ∈ MemberPath.normalize? ref, ∃ l ∈ s.locations, l.has t member = .ok true ∧
    Text.contains (l.path.text ++ "!/" ++ Url.memberTail member) mark = true

theorem deconflict_of_unusable {accept : String → Bool} (hm : MemberPath.normalize? ref = none) :
    (deconflict t ns ref accept report).result = .ok none := by
  cases ns with
  | none => rfl
  | some s =>
    simp only [deconflict, SharedNamespace.findResources, hm]
    rfl

theorem deconflict_ok (ns : Option SharedNamespace)
    (ref mark : String) (report : Bool) :
    ∃ found, (deconflict t ns ref (fun path => Text.contains path mark) report).result =
      .ok found ∧ (found = none ↔ ¬ Answered t ns ref mark) := by
  cases ns with
  | none => exact ⟨none, rfl, by simp [Answered]⟩
  | some s =>
    cases hm : MemberPath.normalize? ref with
    | none => exact ⟨none, deconflict_of_unusable hm, by simp [Answered, hm]⟩
    | some member =>
      refine ⟨_, deconflict_result hm, ?_⟩
      simp only [Option.map_eq_none_iff, List.find?_eq_none, SharedNamespace.mem_holders_iff,
        Answered, hm, Option.mem_def, Option.some.injEq, exists_eq_left', not_exists, not_and]
      exact forall_congr' fun _ => and_imp

theorem resolveLocal_error_iff {e : Url.Error} :
    (resolveLocal t l ref).result = .error e ↔ Url.split ref = .error e := by
  have hmember : ∃ r, (resolveMember t l ref).result = .ok r := by
    unfold resolveMember
    split
    · exact ⟨_, rfl⟩
    · split <;> exact ⟨_, rfl⟩
  obtain ⟨r, hr⟩ := hmember
  simp only [resolveLocal, Traced.result_bind, Traced.result_ofExcept, Url.isAbsolute,
    bind_eq_error_iff, map_eq_error_iff, or_iff_left_iff_imp]
  rintro ⟨absolute, -, habsolute⟩
  cases absolute with
  | true => cases habsolute
  | false =>
    change (resolveMember t l ref).result = _ at habsolute
    rw [hr] at habsolute
    cases habsolute

theorem resolveWith_error_iff {e : Url.Error} :
    (resolveWith t ns l ref (fun path => Text.contains path mark) report).result = .error e ↔
      Url.split ref = .error e ∧ ¬ Answered t ns ref mark := by
  obtain ⟨found, hfound, hiff⟩ := deconflict_ok (t := t) ns ref mark report
  rw [← hiff]
  simp only [resolveWith, Traced.result_bind, hfound, ok_bind]
  cases found with
  | none => simpa using resolveLocal_error_iff
  | some h => simp

theorem resolveWith_ok_iff :
    (∃ r, (resolveWith t ns l ref (fun path => Text.contains path mark) report).result = .ok r) ↔
      Answered t ns ref mark ∨ ¬ Url.MalformedHost (Url.hostOf ref) := by
  have hnot : (∃ r, (resolveWith t ns l ref (fun path => Text.contains path mark) report).result =
      .ok r) ↔ ¬ ∃ e, (resolveWith t ns l ref (fun path => Text.contains path mark) report).result =
        .error e := by
    cases (resolveWith t ns l ref (fun path => Text.contains path mark) report).result <;> simp
  rw [hnot, ← Url.split_eq_error_iff]
  simp only [resolveWith_error_iff, exists_and_right]
  tauto

/-- A reference leads to a resource or to nothing exactly if the shared namespace answers it or its
host part is well formed. What fails otherwise is the splitting of the reference.

Archives are opened as by `FileTree.openArchive`: those that are refused for their version or their
names, and paths with a zero character, are outside of this. -/
theorem resolves_iff (t : FileTree) (ns : Option SharedNamespace)
    (item : Item) (l : Location) (ref : String) :
    ((∃ r, (resolve t ns item ref).result = .ok r) ↔
      Answered t ns ref (item.packageName ++ "!") ∨ ¬ Url.MalformedHost (Url.hostOf ref)) ∧
    ((∃ r, (resolveInPackage t ns l ref).result = .ok r) ↔
      Answered t ns ref l.name ∨ ¬ Url.MalformedHost (Url.hostOf ref)) ∧
    ∀ e, ((resolve t ns item ref).result = .error e ∨ (resolveInPackage t ns l ref).result = .error e) →
      Url.split ref = .error e := by
  refine ⟨resolveWith_ok_iff, resolveWith_ok_iff, ?_⟩
  rintro e (hfailed | hfailed)
  · exact (resolveWith_error_iff.mp hfailed).1
  · exact (resolveWith_error_iff.mp hfailed).1

/-- An archive on the namespace answers a reference that could not be split. -/
theorem resolves_unclosed_bracket :
    let t : FileTree := ⟨.dir [("AVariant.zip", .file (.archive ⟨[⟨"[map.svg", [1], none⟩]⟩))], []⟩
    (∃ r, (resolve t (some ⟨[.ofParts ["AVariant.zip"]]⟩) (packItem "AVariant.zip")
      "//[map.svg").result = .ok r) ∧
    ¬ ∃ r, (resolve t none (packItem "AVariant.zip") "//[map.svg").result = .ok r := by
  intro t
  have hmalformed : Url.MalformedHost (Url.hostOf "//[map.svg") := .unbalanced (by decide)
  constructor
  · refine (resolves_iff t _ _ (.ofParts ["AVariant.zip"]) _).1.mpr (Or.inl ?_)
    exact ⟨_, rfl, "///[map.svg", rfl, _, List.mem_singleton_self _, rfl, by decide +kernel⟩
  · rw [(resolves_iff t none _ (.ofParts ["AVariant.zip"]) _).1]
    rintro (⟨s, hs, -⟩ | hwell)
    · cases hs
    · exact hwell hmalformed

/-- An opening bracket without a closing one behind two slashes. -/
theorem resolve_unclosed_bracket :
    ¬ ∀ (t : FileTree) (ns : Option SharedNamespace) (item : Item) (ref : String),
      ∃ r, (resolve t ns item ref).result = .ok r := by
  intro hall
  obtain ⟨r, hr⟩ := hall (twoPackTree "AVariant.zip" "BVariant.zip") none
    (packItem "AVariant.zip") "//[map.svg"
  have hfails : (resolve (twoPackTree "AVariant.zip" "BVariant.zip") none
      (packItem "AVariant.zip") "//[map.svg").result = .error .unbalancedBrackets := rfl
  rw [hfails] at hr
  cases hr

end PackIndex.Resolver
