import PackIndex.Manifest.Descriptor
import PackIndex.Package.Kind
import PackIndex.Validation.Scalar

/-!
# Reading manifests

A variants manifest lists variants; a symbols manifest describes one pack. Texts lose the white
space around them, and aliases may also be given as one text with commas.
-/

namespace PackIndex.Manifest

def extraFields (known : List String) (fields : Fields) : Fields :=
  fields.filter fun (name, _) => !known.contains name

def mapGraphicFields : List String :=
  ["name", "uri", "default", "thumbnail_uri", "preferred_symbol_pack"]

def mapGraphic (v : Value) : Checked MapGraphic :=
  (Checked.model "MapGraphicDescriptor" v).bind fun fields =>
    let text := Checked.trimmedString
    let optionalText := Checked.optionalString text
    Checked.apply
      (Checked.apply
        (Checked.apply
          (Checked.apply
            (Checked.apply (.ok fun name uri isDefault thumbnail preferred =>
                ⟨name, uri, isDefault, thumbnail, preferred, extraFields mapGraphicFields fields⟩)
              (Checked.required fields "name" text))
            (Checked.required fields "uri" text))
          (Checked.optional fields "default" false Checked.bool))
        (Checked.optional fields "thumbnail_uri" none optionalText))
      (Checked.optional fields "preferred_symbol_pack" none optionalText)

/-- Aliases as they stand in a manifest: a text is split at its commas, nothing is no alias. -/
def splitAliases : Value → Value
  | .null => .tuple []
  | .str s => .tuple ((Text.split ',' s).map fun part => .str (Text.strip part))
  | v => v

def aliases (v : Value) : Checked (List String) :=
  Checked.sequence .notTuple Checked.trimmedString (splitAliases v)

def variantFields : List String :=
  ["name", "version", "aliases", "description", "default", "map_graphics"]

def variant (v : Value) : Checked VariantDescriptor :=
  (Checked.model "VariantDescriptor" v).bind fun fields =>
    Checked.apply
      (Checked.apply
        (Checked.apply
          (Checked.apply
            (Checked.apply
              (Checked.apply (.ok fun name version aliases description isDefault graphics =>
                  ⟨name, version, aliases, description, isDefault, graphics,
                    extraFields variantFields fields⟩)
                (Checked.required fields "name" Checked.trimmedNonEmpty))
              (Checked.required fields "version" Checked.positiveNumber))
            (Checked.optional fields "aliases" [] aliases))
          (Checked.optional fields "description" "" Checked.trimmedString))
        (Checked.optional fields "default" false Checked.bool))
      (Checked.optional fields "map_graphics" [] (Checked.sequence .notTuple mapGraphic))

def symbolPackFields : List String := ["name", "version", "description", "thumbnail_uri", "svg_uri"]

def symbolPack (v : Value) : Checked SymbolPackDescriptor :=
  (Checked.model "SymbolPackDescriptor" v).bind fun fields =>
    let optionalText := Checked.optionalString Checked.trimmedString
    Checked.apply
      (Checked.apply
        (Checked.apply
          (Checked.apply
            (Checked.apply (.ok fun name version description thumbnail svg =>
                ⟨name, version, description, thumbnail, svg, extraFields symbolPackFields fields⟩)
              (Checked.required fields "name" Checked.trimmedNonEmpty))
            (Checked.required fields "version" Checked.positiveNumber))
          (Checked.optional fields "description" "" Checked.trimmedString))
        (Checked.optional fields "thumbnail_uri" none optionalText))
      (Checked.optional fields "svg_uri" none optionalText)

/-- The entry of a variant; empty aliases are dropped. -/
def variantEntry (d : VariantDescriptor) : ManifestEntry :=
  ⟨d.name, d.version, d.aliases.filter (· ≠ ""), some (.variant d)⟩

def symbolPackEntry (d : SymbolPackDescriptor) : ManifestEntry :=
  ⟨d.name, d.version, [], some (.symbolPack d)⟩

def variants (v : Value) : Checked (List ManifestEntry) :=
  (Checked.model "VariantManifest" v).bind fun fields =>
    (Checked.required fields "variants" (Checked.sequence .notTuple variant)).map
      (List.map variantEntry)

def symbols (v : Value) : Checked (List ManifestEntry) :=
  (symbolPack v).map fun d => [symbolPackEntry d]

def entries : PackKind → Value → Checked (List ManifestEntry)
  | .variants => variants
  | .symbols => symbols

end PackIndex.Manifest
