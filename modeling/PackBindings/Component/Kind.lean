/-
  PackBindings.Component.Kind — the kinds of component a namespace can hold, and the
  binding each one gets.

  A kind has a directory below the namespace, an extension its files must have, and a
  shape: the class or function that its accessors call, with which arguments, and the
  suffix that tells its accessors from others of the same name. Scripts and tags of
  scripts are called in a context; all other kinds are values. `Kind.all` lists the
  kinds in the order in which bindings are generated.
-/

import PackBindings.Kotlin.ClassName

namespace PackBindings

open PackBindings.Kotlin (ClassName)

inductive Kind where
  | advancement | bannerPattern | chatType | damageType | dimension | dimensionType | enchantment
  | enchantmentProvider | function | instrument | itemModifier | jukeboxSong | lootTable
  | paintingVariant | predicate | recipe | structureTemplate | trimMaterial | trimPattern
  | wolfVariant | bannerPatternTag | blockTag | damageTypeTag | enchantmentTag | entityTypeTag
  | fluidTag | functionTag | gameEventTag | instrumentTag | itemTag | paintingVariantTag
  | pointOfInterestTypeTag | biomeTag | structureTag | biome | configuredCarver | configuredFeature
  | densityFunction | flatLevelGeneratorPreset | multiNoiseBiomeSourceParameterList | noise
  | noiseSettings | placedFeature | processorList | worldStructure | structureSet | templatePool
  | worldPreset
  deriving DecidableEq, Repr

/-- How files of a kind are read: scripts for what they use, all others for their names. -/
inductive Role where
  | script | scriptTag | resource
  deriving DecidableEq, Repr

/-- Where the value of an argument comes from. -/
inductive ArgumentSource where
  /-- The file name, after the path of its directory. -/
  | stem
  /-- The namespace constant of the unit. -/
  | owner
  /-- The full location of the component, with its namespace. -/
  | itself
  | fixed (text : String)
  deriving DecidableEq, Repr

structure Shape where
  /-- The class that is constructed or the function that is called. -/
  callee : ClassName
  result : ClassName
  /-- What has to be in context at the call. -/
  context : Option ClassName
  arguments : List (String × ArgumentSource)
  suffix : String
  deriving DecidableEq, Repr

namespace Kind

def all : List Kind :=
  [.advancement, .bannerPattern, .chatType, .damageType, .dimension, .dimensionType, .enchantment,
    .enchantmentProvider, .function, .instrument, .itemModifier, .jukeboxSong, .lootTable,
    .paintingVariant, .predicate, .recipe, .structureTemplate, .trimMaterial, .trimPattern,
    .wolfVariant, .bannerPatternTag, .blockTag, .damageTypeTag, .enchantmentTag, .entityTypeTag,
    .fluidTag, .functionTag, .gameEventTag, .instrumentTag, .itemTag, .paintingVariantTag,
    .pointOfInterestTypeTag, .biomeTag, .structureTag, .biome, .configuredCarver,
    .configuredFeature, .densityFunction, .flatLevelGeneratorPreset,
    .multiNoiseBiomeSourceParameterList, .noise, .noiseSettings, .placedFeature, .processorList,
    .worldStructure, .structureSet, .templatePool, .worldPreset]

/-- The directory of a kind, relative to its namespace. -/
def directory : Kind → String
  | .advancement => "advancement"
  | .bannerPattern => "banner_pattern"
  | .chatType => "chat_type"
  | .damageType => "damage_type"
  | .dimension => "dimension"
  | .dimensionType => "dimension_type"
  | .enchantment => "enchantment"
  | .enchantmentProvider => "enchantment_provider"
  | .function => "function"
  | .instrument => "instrument"
  | .itemModifier => "item_modifier"
  | .jukeboxSong => "jukebox_song"
  | .lootTable => "loot_table"
  | .paintingVariant => "painting_variant"
  | .predicate => "predicate"
  | .recipe => "recipe"
  | .structureTemplate => "structure"
  | .trimMaterial => "trim_material"
  | .trimPattern => "trim_pattern"
  | .wolfVariant => "wolf_variant"
  | .bannerPatternTag => "tags/banner_pattern"
  | .blockTag => "tags/block"
  | .damageTypeTag => "tags/damage_type"
  | .enchantmentTag => "tags/enchantment"
  | .entityTypeTag => "tags/entity_type"
  | .fluidTag => "tags/fluid"
  | .functionTag => "tags/function"
  | .gameEventTag => "tags/game_event"
  | .instrumentTag => "tags/instrument"
  | .itemTag => "tags/item"
  | .paintingVariantTag => "tags/painting_variant"
  | .pointOfInterestTypeTag => "tags/point_of_interest_type"
  | .biomeTag => "tags/worldgen/biome"
  | .structureTag => "tags/worldgen/structure"
  | .biome => "worldgen/biome"
  | .configuredCarver => "worldgen/configured_carver"
  | .configuredFeature => "worldgen/configured_feature"
  | .densityFunction => "worldgen/density_function"
  | .flatLevelGeneratorPreset => "worldgen/flat_level_generator_preset"
  | .multiNoiseBiomeSourceParameterList => "worldgen/multi_noise_biome_source_parameter_list"
  | .noise => "worldgen/noise"
  | .noiseSettings => "worldgen/noise_settings"
  | .placedFeature => "worldgen/placed_feature"
  | .processorList => "worldgen/processor_list"
  | .worldStructure => "worldgen/structure"
  | .structureSet => "worldgen/structure_set"
  | .templatePool => "worldgen/template_pool"
  | .worldPreset => "worldgen/world_preset"

def extension : Kind → String
  | .function => "mcfunction"
  | .structureTemplate => "nbt"
  | _ => "json"

def role : Kind → Role
  | .function => .script
  | .functionTag => .scriptTag
  | _ => .resource

/-! ## Shapes -/

def resources : String := "io.github.ayfri.kore.arguments.types.resources"
def tagged : String := "io.github.ayfri.kore.arguments.types.resources.tagged"
def worldgen : String := "io.github.ayfri.kore.arguments.types.resources.worldgen"
def commands : String := "io.github.ayfri.kore.commands"
def functions : String := "io.github.ayfri.kore.functions"

/-- A value that names its file in the argument `first` and its namespace in the next. -/
def argument (package name suffix first : String) : Shape :=
  ⟨⟨package, name⟩, ⟨package, name⟩, none, [(first, .stem), ("namespace", .owner)], suffix⟩

/-- A command that calls what the file names. -/
def call (suffix : String) (more : List (String × ArgumentSource)) : Shape :=
  ⟨⟨commands, "function"⟩, ⟨commands, "Command"⟩, some ⟨functions, "Function"⟩,
    [("name", .stem), ("namespace", .owner)] ++ more, suffix⟩

def shape : Kind → Shape
  | .advancement => argument resources "AdvancementArgument" "Advancement" "name"
  | .bannerPattern => argument resources "BannerPatternArgument" "BannerPattern" "name"
  | .chatType => argument resources "ChatTypeArgument" "ChatType" "name"
  | .damageType => argument resources "DamageTypeArgument" "DamageType" "name"
  | .dimension => argument resources "DimensionArgument" "Dimension" "dimension"
  | .dimensionType => argument worldgen "DimensionTypeArgument" "DimensionType" "name"
  | .enchantment => argument resources "EnchantmentArgument" "Enchantment" "enchantment"
  | .enchantmentProvider =>
    argument resources "EnchantmentProviderArgument" "EnchantmentProvider" "name"
  | .function => call "Function" []
  | .instrument => argument resources "InstrumentArgument" "Instrument" "name"
  | .itemModifier => argument resources "ItemModifierArgument" "ItemModifier" "name"
  | .jukeboxSong => argument resources "JukeboxSongArgument" "JukeboxSong" "name"
  | .lootTable => argument resources "LootTableArgument" "LootTable" "name"
  | .paintingVariant => argument resources "PaintingVariantArgument" "PaintingVariant" "name"
  | .predicate => argument resources "PredicateArgument" "Predicate" "name"
  | .recipe => argument resources "RecipeArgument" "Recipe" "name"
  | .structureTemplate =>
    { argument resources "StructureArgument" "StructureTemplate" "name" with arguments := [("name", .itself)] }
  | .trimMaterial => argument resources "TrimMaterialArgument" "TrimMaterial" "name"
  | .trimPattern => argument resources "TrimPatternArgument" "TrimPattern" "name"
  | .wolfVariant => argument resources "WolfVariantArgument" "WolfVariant" "name"
  | .bannerPatternTag => argument tagged "BannerPatternTagArgument" "BannerPatternTag" "name"
  | .blockTag => argument tagged "BlockTagArgument" "BlockTag" "name"
  | .damageTypeTag => argument tagged "DamageTypeTagArgument" "DamageTypeTag" "name"
  | .enchantmentTag => argument tagged "EnchantmentTagArgument" "EnchantmentTag" "name"
  | .entityTypeTag => argument tagged "EntityTypeTagArgument" "EntityTypeTag" "name"
  | .fluidTag => argument tagged "FluidTagArgument" "FluidTag" "name"
  | .functionTag => call "Tag" [("group", .fixed "true")]
  | .gameEventTag => argument tagged "GameEventTagArgument" "GameEventTag" "name"
  | .instrumentTag => argument tagged "InstrumentTagArgument" "InstrumentTag" "name"
  | .itemTag => argument tagged "ItemTagArgument" "ItemTag" "name"
  | .paintingVariantTag => argument tagged "PaintingVariantTagArgument" "PaintingVariantTag" "name"
  | .pointOfInterestTypeTag =>
    argument tagged "PointOfInterestTypeTagArgument" "PointOfInterestTypeTag" "name"
  | .biomeTag => argument tagged "BiomeTagArgument" "BiomeTag" "name"
  | .structureTag => argument tagged "StructureTagArgument" "StructureTag" "name"
  | .biome => argument worldgen "BiomeArgument" "Biome" "biome"
  | .configuredCarver => argument worldgen "ConfiguredCarverArgument" "ConfiguredCarver" "name"
  | .configuredFeature => argument worldgen "ConfiguredFeatureArgument" "ConfiguredFeature" "name"
  | .densityFunction => argument worldgen "DensityFunctionArgument" "DensityFunction" "name"
  | .flatLevelGeneratorPreset =>
    argument worldgen "FlatLevelGeneratorPresetArgument" "FlatLevelGeneratorPreset" "name"
  | .multiNoiseBiomeSourceParameterList =>
    argument worldgen "MultiNoiseBiomeSourceParameterListArgument" "ParameterList" "name"
  | .noise => argument worldgen "NoiseArgument" "Noise" "name"
  | .noiseSettings => argument worldgen "NoiseSettingsArgument" "NoiseSettings" "name"
  | .placedFeature => argument worldgen "PlacedFeatureArgument" "PlacedFeature" "name"
  | .processorList => argument worldgen "ProcessorListArgument" "ProcessorList" "name"
  | .worldStructure => argument worldgen "StructureArgument" "Structure" "name"
  | .structureSet => argument worldgen "StructureSetArgument" "StructureSet" "name"
  | .templatePool => argument worldgen "TemplatePoolArgument" "TemplatePool" "name"
  | .worldPreset => argument worldgen "WorldPresetArgument" "WorldPreset" "name"

end Kind

end PackBindings
