import PackIndex.Proofs.Url.Host

/-!
# References with a scheme

A reference that can be split is absolute exactly if it begins with a scheme of two characters at
least. Whether it does so can be asked of every reference, also of one that cannot be split.
-/

namespace PackIndex

namespace Url

/-- What is dropped from it apart, a URL begins with a scheme of two characters at least. -/
def HasScheme (url : String) : Prop :=
  ∃ c word rest, clean url.toList = c :: (word ++ ':' :: rest) ∧ isLetter c = true ∧ word ≠ [] ∧
    ∀ d ∈ word, isSchemeChar d = true

/-- A scheme is cut off together with the colon behind it. -/
theorem cutScheme_cons {c : Char} {word : List Char} (hletter : isLetter c = true)
    (hchars : ∀ d ∈ word, isSchemeChar d = true) (rest : List Char) :
    cutScheme (c :: (word ++ ':' :: rest)) = ((c :: word).map Char.toLower, rest) := by
  have hchar : isSchemeChar c = true := by
    rw [isLetter] at hletter
    simp [isSchemeChar, Char.isAlphanum, hletter]
  have hall : (c :: word).all isSchemeChar = true := by
    rw [List.all_cons, hchar, Bool.true_and, List.all_eq_true]
    exact hchars
  have hcolon : ':' ∉ c :: word := fun hmem =>
    absurd (List.all_eq_true.mp hall ':' hmem) (by decide)
  have hcut : Text.cut? ':' (c :: (word ++ ':' :: rest)) = some (c :: word, rest) :=
    Text.cut?_eq_some_iff.mpr ⟨rfl, hcolon⟩
  rw [cutScheme, hcut]
  exact if_pos ⟨hletter, hall⟩

theorem long_cutScheme_iff (cs : List Char) : 1 < (cutScheme cs).1.length ↔
    ∃ c word rest, cs = c :: (word ++ ':' :: rest) ∧ isLetter c = true ∧ word ≠ [] ∧
      ∀ d ∈ word, isSchemeChar d = true := by
  constructor
  · intro h
    unfold cutScheme at h
    split at h
    · next c word rest hcut =>
      split at h
      · next hscheme =>
        obtain ⟨hletter, hchars⟩ := hscheme
        rw [List.all_cons, Bool.and_eq_true, List.all_eq_true] at hchars
        refine ⟨c, word, rest, (Text.cut?_eq_some_iff.mp hcut).1, hletter, ?_, hchars.2⟩
        rintro rfl
        simp at h
      · simp at h
    · simp at h
  · rintro ⟨c, word, rest, rfl, hletter, hne, hchars⟩
    rw [cutScheme_cons hletter hchars, List.length_map, List.length_cons]
    have hlength := List.length_pos_of_ne_nil hne
    omega

theorem scheme_of_split {url : String} {parts : Parts} (h : split url = .ok parts) :
    parts.scheme = String.ofList (cutScheme (clean url.toList)).1 := by
  obtain ⟨hbrackets, hhost⟩ := split_eq_ok_iff.mp ⟨parts, h⟩
  rw [hostOf] at hbrackets hhost
  simp only [split, hbrackets, hhost] at h
  rw [← Except.ok.inj h]

theorem isAbsolute_iff {ref : String} {absolute : Bool} (h : isAbsolute ref = .ok absolute) :
    absolute = true ↔ HasScheme ref := by
  obtain ⟨parts, hparts, rfl⟩ := map_eq_ok_iff.mp h
  rw [decide_eq_true_iff, scheme_of_split hparts, String.length_ofList]
  exact long_cutScheme_iff _

end Url

end PackIndex
