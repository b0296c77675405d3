import PackIndex.Proofs.Manifest.Elements
import PackIndex.Proofs.Registry.Payload
import PackIndex.Proofs.Text.Splitting

/-!
# The two forms of aliases

A descriptor gives its aliases as a list of texts, or as one text with commas between them. The two
are trimmed in different places and by different classes of characters, and the joined form of no
alias is the text of one empty alias. A table sees none of this: it goes by the keys of aliases, and
these are the same.
-/

namespace PackIndex

namespace Checked

variable {α β γ δ : Type}

/-- Checks with related results, or with the same issues. -/
inductive Agree (r : α → β → Prop) : Checked α → Checked β → Prop where
  | ok {a : α} {b : β} (h : r a b) : Agree r (.ok a) (.ok b)
  | error (found : List Issue) : Agree r (.error found) (.error found)

namespace Agree

variable {r : α → β → Prop} {s : γ → δ → Prop} {x : Checked α} {y : Checked β}

theorem refl (x : Checked α) : Agree Eq x x := by
  cases x with
  | ok a => exact .ok rfl
  | error found => exact .error found

theorem imp {q : α → β → Prop} (h : Agree r x y) (hq : ∀ a b, r a b → q a b) : Agree q x y := by
  cases h with
  | ok h => exact .ok (hq _ _ h)
  | error found => exact .error found

theorem map {f : α → γ} {g : β → δ} (h : Agree r x y) (hs : ∀ a b, r a b → s (f a) (g b)) :
    Agree s (x.map f) (y.map g) := by
  cases h with
  | ok h => exact .ok (hs _ _ h)
  | error found => exact .error found

theorem within (h : Agree r x y) (p : Place) :
    Agree r (Checked.within p x) (Checked.within p y) := by
  cases h with
  | ok h => exact .ok h
  | error found => exact .error _

theorem apply {f : Checked (α → γ)} {g : Checked (β → δ)}
    (hf : Agree (fun f g => ∀ a b, r a b → s (f a) (g b)) f g) (hx : Agree r x y) :
    Agree s (Checked.apply f x) (Checked.apply g y) := by
  cases hf with
  | ok hf =>
    cases hx with
    | ok hx => exact .ok (hf _ _ hx)
    | error found => exact .error found
  | error found =>
    cases hx with
    | ok hx => exact .error found
    | error found' => exact .error (found ++ found')

theorem items {check : Value → Checked γ} {vs ws : List Value} {q : Value → Value → Prop}
    {s : γ → γ → Prop} (h : List.Forall₂ q vs ws)
    (hcheck : ∀ v w, q v w → Agree s (check v) (check w)) (n : Nat) :
    Agree (List.Forall₂ s) (Checked.items check n vs) (Checked.items check n ws) := by
  induction h generalizing n with
  | nil => exact .ok .nil
  | cons hhead _ ih =>
    have hfirst := (hcheck _ _ hhead).within (.index n)
    exact apply (apply (.ok fun _ _ ha _ _ hrest => .cons ha hrest) hfirst) (ih (n + 1))

end Agree

theorem required_set_of_ne {fields : Fields} {key name : String} (h : name ≠ key) (v : Value)
    (check : Value → Checked α) :
    required (Fields.set key v fields) name check = required fields name check := by
  rw [required, Fields.get?_set_of_ne h, required]

theorem optional_set_of_ne {fields : Fields} {key name : String} (h : name ≠ key) (v : Value)
    (default : α) (check : Value → Checked α) :
    optional (Fields.set key v fields) name default check = optional fields name default check := by
  rw [optional, Fields.get?_set_of_ne h, optional]

end Checked

/-! ### Keys of trimmed aliases -/

namespace ItemTable

theorem aliasKey_trim (word : String) :
    aliasKey (Text.trim Text.isWhiteSpace word) = aliasKey word := by
  rw [aliasKey, Text.strip, Text.trim_trim (fun _ => Text.isBlank_of_isWhiteSpace), aliasKey,
    Text.strip]

theorem aliasKey_strip (word : String) : aliasKey (Text.strip word) = aliasKey word := by
  rw [aliasKey, Text.strip, Text.strip, Text.trim_trim (fun _ => id), aliasKey, Text.strip]

end ItemTable

theorem usableKeys_map {f : String → String}
    (hf : ∀ word, ItemTable.aliasKey (f word) = ItemTable.aliasKey word) (name : String)
    (words : List String) : usableKeys name (words.map f) = usableKeys name words := by
  simp only [usableKeys, List.map_map, Function.comp_def, hf]

theorem usableKeys_filter_ne (name : String) (words : List String) :
    usableKeys name (words.filter (· ≠ "")) = usableKeys name words := by
  induction words with
  | nil => rfl
  | cons word rest ih =>
    by_cases hword : word = ""
    · subst hword
      rw [List.filter_cons_of_neg (by simp), ih]
      rfl
    · rw [List.filter_cons_of_pos (by simpa using hword)]
      simp only [usableKeys, List.map_cons, List.filter_cons] at ih ⊢
      rw [ih]

namespace Manifest

variable {fields : Fields} {words : List String} {xs ys : List Value}

theorem items_trimmed (words : List String) (n : Nat) :
    Checked.items Checked.trimmedString n (words.map .str) =
      .ok (words.map (Text.trim Text.isWhiteSpace)) := by
  rw [Checked.items_eq_ok_iff, List.forall₂_map_left_iff, List.forall₂_map_right_iff,
    List.forall₂_same]
  exact fun word _ => rfl

theorem aliases_list (words : List String) :
    aliases (.list (words.map .str)) = .ok (words.map (Text.trim Text.isWhiteSpace)) :=
  items_trimmed words 0

theorem split_intercalate (h : ∀ word ∈ words, ',' ∉ word.toList) :
    Text.split ',' (",".intercalate words) = if words = [] then [""] else words := by
  rw [Text.split, String.toList_intercalate]
  split
  · next hnil =>
    subst hnil
    rfl
  · next hne =>
    rw [show ",".toList = [','] from rfl, Text.splitChars_intercalate (by simpa using hne)
      (by simpa using h), List.map_map]
    simp [Function.comp_def]

theorem aliases_joined (h : ∀ word ∈ words, ',' ∉ word.toList) :
    ∃ read, aliases (.str (",".intercalate words)) = .ok read ∧
      ∀ name, usableKeys name read = usableKeys name words := by
  refine ⟨((Text.split ',' (",".intercalate words)).map Text.strip).map
    (Text.trim Text.isWhiteSpace), ?_, fun name => ?_⟩
  · rw [← items_trimmed _ 0, List.map_map]
    rfl
  · rw [usableKeys_map ItemTable.aliasKey_trim, usableKeys_map ItemTable.aliasKey_strip,
      split_intercalate h]
    split
    · next hnil =>
      subst hnil
      rfl
    · rfl

/-- A descriptor, and the same one or the one with its list of comma-free aliases joined. -/
inductive Respelled : Value → Value → Prop where
  | same (v : Value) : Respelled v v
  | joined {fields : Fields} {words : List String} :
      Fields.get? "aliases" fields = some (.list (words.map .str)) →
      (∀ word ∈ words, ',' ∉ word.toList) →
      Respelled (.dict fields)
        (.dict (Fields.set "aliases" (.str (",".intercalate words)) fields))

theorem variantEntry_sameKeys {d d' : VariantDescriptor} (hname : d.name = d'.name)
    (hversion : d.version = d'.version)
    (hkeys : ∀ name, usableKeys name d.aliases = usableKeys name d'.aliases) :
    ItemTable.SameKeys (variantEntry d) (variantEntry d') := by
  refine ⟨hname, hversion, fun name => ?_⟩
  rw [variantEntry, variantEntry, usableKeys_filter_ne, usableKeys_filter_ne, hkeys]

theorem variant_agrees {v w : Value} (h : Respelled v w) :
    Checked.Agree (fun d d' => ItemTable.SameKeys (variantEntry d) (variantEntry d'))
      (variant v) (variant w) := by
  cases h with
  | same =>
    refine (Checked.Agree.refl (variant v)).imp ?_
    rintro d _ rfl
    exact variantEntry_sameKeys rfl rfl fun _ => rfl
  | @joined fields words hlist hwords =>
    obtain ⟨read, hread, hkeys⟩ := aliases_joined hwords
    have haliases : Checked.Agree (fun a b => ∀ name, usableKeys name a = usableKeys name b)
        (Checked.optional fields "aliases" [] aliases)
        (Checked.optional (Fields.set "aliases" (.str (",".intercalate words)) fields)
          "aliases" [] aliases) := by
      simp only [Checked.optional, hlist, Fields.get?_set_self, aliases_list, hread]
      refine .ok fun name => ?_
      rw [usableKeys_map ItemTable.aliasKey_trim, hkeys]
    simp only [variant, Checked.model, Except.bind]
    simp (disch := decide) only [Checked.required_set_of_ne, Checked.optional_set_of_ne]
    refine .apply (.apply (.apply (.apply (.apply (.apply (.ok ?_) (.refl _)) (.refl _)) haliases)
      (.refl _)) (.refl _)) (.refl _)
    rintro name _ rfl version _ rfl as bs hsame description _ rfl isDefault _ rfl graphics _ rfl
    exact variantEntry_sameKeys rfl rfl hsame

/-- Descriptors with their aliases in either form are refused for the same reasons, or give entries
that leave any table with the same items, payloads aside, and the same aliases, and that fail
alike. -/
theorem respelled_admitted_alike {xs ys : List Value} (h : List.Forall₂ Respelled xs ys) :
    Checked.Agree (fun entries others => ∀ (t : ItemTable) packageName source,
        (t.admitEach packageName source entries).1.bare =
          (t.admitEach packageName source others).1.bare ∧
        (t.admitEach packageName source entries).2.mapError BuildError.bare =
          (t.admitEach packageName source others).2.mapError BuildError.bare)
      (variants (listing xs)) (variants (listing ys)) := by
  have hitems := Checked.Agree.items h (fun _ _ => variant_agrees) 0
  refine (hitems.within (.field "variants")).map fun ds ds' hds t packageName source => ?_
  refine ItemTable.admitEach_of_sameKeys ?_ packageName source t
  exact List.forall₂_map_left_iff.mpr (List.forall₂_map_right_iff.mpr hds)

/-- A variant with an alias between an information separator and a blank, and an empty one. -/
def listedVariant : Value :=
  .dict [("name", .str "Classic"), ("version", .str "3"),
    ("aliases", .list [.str "old", .str "\u001Cfirst ", .str ""])]

def joinedVariant : Value :=
  .dict [("name", .str "Classic"), ("version", .str "3"), ("aliases", .str "old,\u001Cfirst ,")]

theorem respelled_admitted_alike_separator :
    (variants (listing [listedVariant])).isOk = true ∧
    Checked.Agree (fun entries others => ∀ (t : ItemTable) packageName source,
        (t.admitEach packageName source entries).1.bare =
          (t.admitEach packageName source others).1.bare ∧
        (t.admitEach packageName source entries).2.mapError BuildError.bare =
          (t.admitEach packageName source others).2.mapError BuildError.bare)
      (variants (listing [listedVariant])) (variants (listing [joinedVariant])) := by
  have hjoined : ",".intercalate ["old", "\u001Cfirst ", ""] = "old,\u001Cfirst ," := by decide
  have hrespelled : Respelled listedVariant joinedVariant := by
    have h := @Respelled.joined [("name", .str "Classic"), ("version", .str "3"),
      ("aliases", .list [.str "old", .str "\u001Cfirst ", .str ""])] ["old", "\u001Cfirst ", ""]
      rfl (by decide)
    rw [hjoined] at h
    exact h
  exact ⟨by decide +kernel, respelled_admitted_alike (.cons hrespelled .nil)⟩

end Manifest

end PackIndex
