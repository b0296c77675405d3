import PackIndex.Package.Location
import PackIndex.Proofs.Path.Text
import PackIndex.Proofs.Text.Percent
import PackIndex.Url.Basic

/-!
# The URL of an archive member

The path of an archive stands percent-encoded in the URLs of its members, the name of a member as it
is. So the decoded path of such a URL is the path of the archive, the mark, and what reading the
member's name as a part of a URL leaves of it.
-/

namespace PackIndex.Url

variable {cs rest : List Char}

def unbroken (cs : List Char) : List Char := cs.filter fun c => c ≠ '\t' ∧ c ≠ '\r' ∧ c ≠ '\n'

/-- What reading a URL leaves of a member's name. -/
def memberTail (member : String) : String :=
  Percent.decode (String.ofList (pathOf (unbroken member.toList)))

theorem pathOf_append (h : ∀ c ∈ cs, c ≠ '#' ∧ c ≠ '?') (rest : List Char) :
    pathOf (cs ++ rest) = cs ++ pathOf rest := by
  unfold pathOf
  rw [List.takeWhile_append_of_pos fun c hc => decide_eq_true (h c hc).1,
    List.takeWhile_append_of_pos fun c hc => decide_eq_true (h c hc).2]

theorem cutScheme_file (rest : List Char) :
    cutScheme ("file:".toList ++ rest) = ("file".toList, rest) := by
  rfl

theorem cutHost_slash (rest : List Char) :
    cutHost ('/' :: '/' :: '/' :: rest) = ([], '/' :: rest) := by
  rfl

theorem encodeChars_safe {c : Char} (h : c ∈ Percent.encodeChars cs) :
    (c ≠ '#' ∧ c ≠ '?') ∧ c ≠ '\t' ∧ c ≠ '\r' ∧ c ≠ '\n' := by
  have hall (d : Char) (hd : Percent.isPlain d = false ∧ d ≠ '%') : c ≠ d := by
    rintro rfl
    rcases Percent.mem_encodeChars h with hplain | hc
    · rw [hd.1] at hplain
      cases hplain
    · exact hd.2 hc
  exact ⟨⟨hall _ (by decide), hall _ (by decide)⟩, hall _ (by decide), hall _ (by decide),
    hall _ (by decide)⟩

theorem clean_file (cs rest : List Char) :
    clean ("file://".toList ++ Percent.encodeChars cs ++ rest) =
      "file://".toList ++ Percent.encodeChars cs ++ unbroken rest := by
  have hkeep : unbroken (Percent.encodeChars cs) = Percent.encodeChars cs :=
    List.filter_eq_self.mpr fun c hc => decide_eq_true (encodeChars_safe hc).2
  have happend (as bs : List Char) : unbroken (as ++ bs) = unbroken as ++ unbroken bs :=
    List.filter_append as bs
  have hdrop : ("file://".toList ++ Percent.encodeChars cs ++ rest).dropWhile
      (fun c => decide (c.toNat ≤ 0x20)) = "file://".toList ++ Percent.encodeChars cs ++ rest := rfl
  change unbroken (_ : List Char) = _
  rw [hdrop, happend, happend, hkeep]
  rfl

/-- The path of a file URL, whatever stands behind it, starts with the encoded path. -/
theorem split_uri_append (l : Location) (rest : String) :
    split (l.uri ++ rest) = .ok ⟨"file", "", String.ofList
      (Percent.encodeChars l.path.text.toList ++ pathOf (unbroken rest.toList))⟩ := by
  have hurl : (l.uri ++ rest).toList = "file://".toList ++
      Percent.encodeChars l.path.text.toList ++ rest.toList := by
    simp [Location.uri, Percent.encode]
  have hslash (more : List Char) :
      ∃ cs, Percent.encodeChars l.path.text.toList ++ more = '/' :: cs := by
    obtain ⟨cs, hcs⟩ := FilePath.text_of_isAbsolute l.absolute
    rw [hcs]
    exact ⟨_, rfl⟩
  obtain ⟨cs, hcs⟩ := hslash (unbroken rest.toList)
  have hclean : clean (l.uri ++ rest).toList = "file:".toList ++ '/' :: '/' :: '/' :: cs := by
    rw [hurl, clean_file, List.append_assoc, ← hcs]
    rfl
  have hpath : pathOf ('/' :: cs) = Percent.encodeChars l.path.text.toList ++
      pathOf (unbroken rest.toList) := by
    rw [← hcs, pathOf_append fun c hc => (encodeChars_safe hc).1]
  have hbrackets : checkBrackets [] = .ok () := rfl
  have hhost : checkHost [] = .ok () := rfl
  simp only [split, hclean, cutScheme_file, cutHost_slash, hbrackets, hhost, hpath]
  rfl

/-- The decoded path is the path as it was, before what is left of the rest. -/
theorem decode_split_uri_append (l : Location) (rest : String) :
    Percent.decode (String.ofList
      (Percent.encodeChars l.path.text.toList ++ pathOf (unbroken rest.toList))) =
        l.path.text ++ memberTail rest := by
  simp only [Percent.decode, String.toList_ofList, Percent.decodeChars_encodeChars_append,
    memberTail]
  apply String.toList_inj.mp
  simp

theorem memberTail_mark (member : String) : memberTail ("!/" ++ member) = "!/" ++ memberTail member := by
  have hpath : pathOf (unbroken ("!/" ++ member).toList) =
      '!' :: '/' :: pathOf (unbroken member.toList) := by
    rw [String.toList_append]
    rfl
  simp only [memberTail, hpath, Percent.decode, String.toList_ofList]
  rw [Percent.decodeChars_cons_of_ne (by decide), Percent.decodeChars_cons_of_ne (by decide)]
  apply String.toList_inj.mp
  simp

/-- The URL of a member leads to the path of the archive, the mark, and the rest of the name. -/
theorem decodedPath_memberUrl (l : Location) (member : String) :
    decodedPath (l.memberUrl member) = .ok (l.path.text ++ "!/" ++ memberTail member) := by
  rw [decodedPath, Location.memberUrl, String.append_assoc, split_uri_append, Except.map,
    decode_split_uri_append, memberTail_mark, String.append_assoc]

end PackIndex.Url
