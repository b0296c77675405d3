import PackIndex.Proofs.Resource.Deconfliction

/-!
# Addresses of archives and members

A path stands in its URL with everything encoded but plain characters, so the URL leads to that file
and no other, and no `!` comes before the mark behind which the member is named. Decoding the path
of a member's URL gives the path of the archive and the mark before anything of the member. So an
archive always shows the name of its own package, and if it is on the shared namespace and holds the
member, the namespace answers.
-/

namespace PackIndex

variable {s s₁ s₂ m₁ m₂ member : String} {l l₁ l₂ : Location}

/-! ### The archive -/

theorem Url.split_uri (l : Location) : ∃ parts, Url.split l.uri = .ok parts ∧
    parts.scheme = "file" ∧ Percent.decode parts.path = l.path.text := by
  have hsplit := Url.split_uri_append l ""
  rw [String.append_empty] at hsplit
  refine ⟨_, hsplit, rfl, ?_⟩
  rw [Url.decode_split_uri_append]
  exact String.append_empty

theorem read_ofUrl_uri (hnul : l.path.hasNul = false) (t : FileTree) :
    (ResourceHandle.ofUrl l.uri).read t =
      ((t.readFile l.path).mapError .file).map FileContent.toBytes := by
  obtain ⟨parts, hsplit, hscheme, hpath⟩ := Url.split_uri l
  simp only [ResourceHandle.read, ResourceHandle.ofUrl, readUrl, hsplit, hscheme, if_true,
    readFileUrl, hpath, FilePath.ofString_text, hnul, Bool.false_eq_true, if_false]

/-- What the URLs of an archive and of its members lead to. -/
structure Location.Addressed (l : Location) : Prop where
  path : ∃ parts, Url.split l.uri = .ok parts ∧ Percent.decode parts.path = l.path.text
  read : l.path.hasNul = false → ∀ t, (ResourceHandle.ofUrl l.uri).read t =
    ((t.readFile l.path).mapError .file).map FileContent.toBytes
  member : ∀ member, ∃ tail,
    Url.decodedPath (l.memberUrl member) = .ok (l.path.text ++ "!/" ++ tail)

theorem Location.addressed (l : Location) : l.Addressed where
  path := by
    obtain ⟨parts, hsplit, -, hpath⟩ := Url.split_uri l
    exact ⟨parts, hsplit, hpath⟩
  read := read_ofUrl_uri
  member member := ⟨_, Url.decodedPath_memberUrl l member⟩

/-! ### The mark -/

theorem Percent.mark_notMem_encodeChars (cs : List Char) : '!' ∉ encodeChars cs := by
  intro hmem
  rcases mem_encodeChars hmem with hplain | hpercent
  · exact absurd hplain (by decide)
  · exact absurd hpercent (by decide)

theorem Location.cut?_memberUrl (l : Location) (member : String) :
    Text.cut? '!' (l.memberUrl member).toList =
      some (l.uri.toList, '/' :: member.toList) := by
  refine Text.cut?_eq_some_iff.mpr ⟨by simp [memberUrl], fun hmem => ?_⟩
  simp only [uri, String.toList_append, Percent.encode, String.toList_ofList, List.mem_append] at hmem
  rcases hmem with hscheme | hpath
  · exact absurd hscheme (by decide)
  · exact Percent.mark_notMem_encodeChars _ hpath

theorem Location.text_of_uri (h : l₁.uri = l₂.uri) : l₁.path.text = l₂.path.text := by
  have hencoded : Percent.encode l₁.path.text = Percent.encode l₂.path.text := by
    apply String.toList_inj.mp
    simpa [uri] using congrArg String.toList h
  rw [← Percent.decode_encode l₁.path.text, hencoded, Percent.decode_encode]

theorem Location.memberUrl_inj (h : l₁.memberUrl m₁ = l₂.memberUrl m₂) :
    l₁ = l₂ ∧ m₁ = m₂ := by
  have hcut := congrArg (Text.cut? '!' ·.toList) h
  simp only [cut?_memberUrl, Option.some.injEq, Prod.mk.injEq, List.cons.injEq, true_and,
    String.toList_inj] at hcut
  refine ⟨Location.ext ?_, hcut.2⟩
  rw [← FilePath.ofString_text l₁.path, text_of_uri hcut.1, FilePath.ofString_text]

/-! ### The item's own archive -/

theorem Location.marked_self (l : Location) (member : String) : l.marked l.name member = true := by
  obtain ⟨before, hbefore⟩ := l.path.name_suffix_text
  rw [marked, Text.contains_iff]
  refine ⟨before, '/' :: (Url.memberTail member).toList, ?_⟩
  simp [← hbefore, Location.name]

theorem deconflicted_of_holds {t : FileTree} {ns : SharedNamespace} {item : Item} {ref : String}
    (hpackage : item.packageName = item.source.name)
    (hmem : item.source ∈ ns.locations) (hm : MemberPath.normalize? ref = some member)
    (hhas : item.source.has t member = .ok true) :
    ∃ l ∈ ns.locations, l.has t member = .ok true ∧
      (Resolver.resolve t (some ns) item ref).result =
        .ok ⟨.deconflicted, some (.ofMember l member)⟩ := by
  have hheld := SharedNamespace.mem_holders_iff.mpr ⟨hmem, hhas⟩
  obtain ⟨l, hl⟩ : ∃ l, (ns.holders t member).find?
      (fun l => l.marked item.packageName member) = some l :=
    Option.isSome_iff_exists.mp
      (List.find?_isSome.mpr ⟨item.source, hheld, hpackage ▸ item.source.marked_self member⟩)
  obtain ⟨hmem, hhas⟩ := SharedNamespace.mem_holders_iff.mp (List.mem_of_find?_eq_some hl)
  refine ⟨l, hmem, hhas, ?_⟩
  have hfound : (Resolver.deconflict t (some ns) ref
      (fun path => Text.contains path (item.packageName ++ "!")) true).result =
        .ok (some (.ofMember l member)) := by
    rw [deconflict_result hm]
    exact congrArg (fun found : Option Location =>
      Except.ok (found.map fun l => ResourceHandle.ofMember l member)) hl
  simp only [Resolver.resolve, Resolver.resolveWith, Traced.result_bind, hfound]
  rfl

/-- The URL of an absolute path leads back to it, and the URL of a member to the archive and the mark
before all else; the URLs of two members differ. An item whose package is its archive is answered
from the shared namespace whenever the archive is on it and holds the member. -/
theorem addresses_lossless :
    (∀ l : Location, l.Addressed) ∧
    (∀ (l₁ l₂ : Location) (m₁ m₂ : String), l₁.memberUrl m₁ = l₂.memberUrl m₂ →
      l₁ = l₂ ∧ m₁ = m₂) ∧
    ∀ (t : FileTree) (ns : SharedNamespace) (item : Item) (ref member : String),
      item.packageName = item.source.name → item.source ∈ ns.locations →
      MemberPath.normalize? ref = some member → item.source.has t member = .ok true →
      ∃ l ∈ ns.locations, l.has t member = .ok true ∧
        (Resolver.resolve t (some ns) item ref).result =
          .ok ⟨.deconflicted, some (.ofMember l member)⟩ := by
  exact ⟨Location.addressed, fun _ _ _ _ => Location.memberUrl_inj,
    fun _ _ _ _ _ => deconflicted_of_holds⟩

/-- A mark in a file name, and in the name of a member. -/
theorem addresses_lossless_marked :
    Location.Addressed ⟨FilePath.ofString "/packs/tab\there #1!.zip", rfl⟩ ∧
    Location.memberUrl ⟨FilePath.ofString "/a.zip!/b", rfl⟩ "c" ≠
      Location.memberUrl ⟨FilePath.ofString "/a.zip", rfl⟩ "b!/c" ∧
    ∃ l, (Resolver.resolve (twoPackTree "AlphaVariant.zip" "BetaVariant.zip")
        (some ⟨[packAt "AlphaVariant.zip", packAt "BetaVariant.zip"]⟩)
        (packItem "BetaVariant.zip") "./map.svg").result =
          .ok ⟨.deconflicted, some (.ofMember l "map.svg")⟩ := by
  obtain ⟨haddressed, hinj, hdeconflicted⟩ := addresses_lossless
  refine ⟨haddressed _, fun hurl => ?_, ?_⟩
  · exact absurd (hinj _ _ _ _ hurl).2 (by decide)
  · obtain ⟨l, -, -, hfound⟩ := hdeconflicted (twoPackTree "AlphaVariant.zip" "BetaVariant.zip")
      ⟨[packAt "AlphaVariant.zip", packAt "BetaVariant.zip"]⟩ (packItem "BetaVariant.zip")
      "./map.svg" "map.svg" rfl (List.mem_cons_of_mem _ List.mem_cons_self) (by decide) rfl
    exact ⟨l, hfound⟩

end PackIndex
