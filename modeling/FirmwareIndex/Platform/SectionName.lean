import FirmwareIndex.Text.Basic

/-!
# Sections of a platform description

A platform description may use eighteen sections and no others. Ten of them hold settings of
platform configuration items. Names are recognized whatever the case of their letters.
-/

set_option autoImplicit false

namespace FirmwareIndex

/-- The sections of a platform description. -/
inductive SectionName where
  | defines
  | skuIds
  | libraryClasses
  | components
  | buildOptions
  | userExtensions
  | defaultStores
  | pcdsFeatureFlag
  | pcdsFixedAtBuild
  | pcdsPatchableInModule
  | pcdsDynamic
  | pcdsDynamicDefault
  | pcdsDynamicEx
  | pcdsDynamicExDefault
  | pcdsDynamicHii
  /-- Dynamic items shared by binaries and kept in variables. -/
  | pcdsDynamicExHii
  | pcdsDynamicVpd
  /-- Dynamic items shared by binaries and kept in a data region. -/
  | pcdsDynamicExVpd
deriving DecidableEq, Repr

namespace SectionName

/-- All sections. -/
def all : List SectionName :=
  [.defines, .skuIds, .libraryClasses, .components, .buildOptions, .userExtensions, .defaultStores,
   .pcdsFeatureFlag, .pcdsFixedAtBuild, .pcdsPatchableInModule, .pcdsDynamic, .pcdsDynamicDefault,
   .pcdsDynamicEx, .pcdsDynamicExDefault, .pcdsDynamicHii, .pcdsDynamicExHii, .pcdsDynamicVpd,
   .pcdsDynamicExVpd]

/-- The name as it is spelled in documents. -/
def name : SectionName → Text
  | .defines => "Defines"
  | .skuIds => "SkuIds"
  | .libraryClasses => "LibraryClasses"
  | .components => "Components"
  | .buildOptions => "BuildOptions"
  | .userExtensions => "UserExtensions"
  | .defaultStores => "DefaultStores"
  | .pcdsFeatureFlag => "PcdsFeatureFlag"
  | .pcdsFixedAtBuild => "PcdsFixedAtBuild"
  | .pcdsPatchableInModule => "PcdsPatchableInModule"
  | .pcdsDynamic => "PcdsDynamic"
  | .pcdsDynamicDefault => "PcdsDynamicDefault"
  | .pcdsDynamicEx => "PcdsDynamicEx"
  | .pcdsDynamicExDefault => "PcdsDynamicExDefault"
  | .pcdsDynamicHii => "PcdsDynamicHii"
  | .pcdsDynamicExHii => "PcdsDynamicExHii"
  | .pcdsDynamicVpd => "PcdsDynamicVpd"
  | .pcdsDynamicExVpd => "PcdsDynamicExVpd"

/-- The section with a name, apart from blanks around it and the case of its letters. -/
def ofText? (t : Text) : Option SectionName :=
  all.find? fun s => Text.sameName s.name (Text.trim t)

/-- Whether the section holds settings of configuration items. -/
def isPcd (s : SectionName) : Bool :=
  "Pcds".toList.isPrefixOf s.name

end SectionName

end FirmwareIndex
