import PackIndex.Version.Selector

/-!
# Descriptors

What manifests say about variants, their map graphics and symbol packs. Fields a manifest has
beyond the known ones are kept as they are.
-/

namespace PackIndex

structure MapGraphic where
  name : String
  uri : String
  isDefault : Bool
  thumbnailUri : Option String
  preferredSymbolPack : Option String
  extra : Fields

structure VariantDescriptor where
  name : String
  version : Version
  aliases : List String
  description : String
  isDefault : Bool
  mapGraphics : List MapGraphic
  extra : Fields

structure SymbolPackDescriptor where
  name : String
  version : Version
  description : String
  thumbnailUri : Option String
  svgUri : Option String
  extra : Fields

inductive Descriptor where
  | variant (d : VariantDescriptor)
  | symbolPack (d : SymbolPackDescriptor)

def optionalText : Option String → Value
  | some s => .str s
  | none => .null

def MapGraphic.toFields (g : MapGraphic) : Fields :=
  [("name", .str g.name), ("uri", .str g.uri), ("default", .bool g.isDefault),
    ("thumbnail_uri", optionalText g.thumbnailUri),
    ("preferred_symbol_pack", optionalText g.preferredSymbolPack)] ++ g.extra

namespace VariantDescriptor

/-- The map graphic marked as default, or else the first one. -/
def defaultMapGraphic? (d : VariantDescriptor) : Option MapGraphic :=
  match d.mapGraphics.find? MapGraphic.isDefault with
  | some g => some g
  | none => d.mapGraphics.head?

def toFields (d : VariantDescriptor) : Fields :=
  [("name", .str d.name), ("version", .float d.version),
    ("aliases", .list (d.aliases.map .str)), ("description", .str d.description),
    ("default", .bool d.isDefault),
    ("map_graphics", .list (d.mapGraphics.map fun g => .dict g.toFields))] ++ d.extra

end VariantDescriptor

def SymbolPackDescriptor.toFields (d : SymbolPackDescriptor) : Fields :=
  [("name", .str d.name), ("version", .float d.version), ("description", .str d.description),
    ("thumbnail_uri", optionalText d.thumbnailUri), ("svg_uri", optionalText d.svgUri)] ++ d.extra

def Descriptor.toFields : Descriptor → Fields
  | .variant d => d.toFields
  | .symbolPack d => d.toFields

/-- One named, versioned entry of a manifest. -/
structure ManifestEntry where
  name : String
  version : Version
  aliases : List String
  payload : Option Descriptor

end PackIndex
