import Nobify.BuildModel.Artifact
import Nobify.Genex.Eval

/-!
# The evaluator of the queries

`bm_query_resolve_string_with_context` runs the generator-expression evaluator with callbacks into
the model: a target property is read from the fields of the target's record, or from its raw
properties, and a target file is the path of an artifact. The path of an artifact is itself named
by texts that are evaluated, each in a run of its own, and nothing in the source bounds that
nesting; here a bound is a parameter.
-/

namespace Nobify.BuildModel

/-! ## Target properties -/

/-- `bm_query_append_joined_items_with_flags`, and with no flag `bm_query_append_joined_items` and
`bm_query_append_joined_link_items`. -/
def joinedItems (items : List StringItem) (least most : Visibility) (requireSystem : Bool := false) :
    StringView :=
  let spec : PropertySpec := ⟨least, most, requireSystem⟩
  svJoinSemi ((items.filter spec.selects).map StringItem.value)

/-- `bm_query_join_push_sv` over a list. -/
def joinedTexts (texts : List StringView) : StringView := svJoinSemi (texts.filter (· ≠ []))

/-- `bm_find_raw_property`. -/
def findRawProperty (records : List RawPropertyRecord) (name : StringView) :
    Option RawPropertyRecord :=
  records.find? fun record => svEqCiQuery record.name name

/-- `bm_query_target_raw_property_value`, with `bm_query_append_joined_raw_record`. -/
def TargetRecord.rawPropertyValue (target : TargetRecord) (name : StringView) : StringView :=
  (findRawProperty target.rawProperties name).elim [] fun record => svJoinSemi record.items

/-- What is visible in a property, or in its interface form. -/
def Visibility.listed (visibility : Visibility) (interfaceOnly : Bool) : Bool :=
  if interfaceOnly then visibility ≠ .privateItem else visibility ≠ .interfaceItem

/-- The value of `SOURCES` and `INTERFACE_SOURCES`. -/
def TargetRecord.sourcesValue (target : TargetRecord) (interfaceOnly : Bool) : StringView :=
  joinedTexts ((target.sourceRecords.filter fun source =>
    source.kind = .regular && source.visibility.listed interfaceOnly).map
      TargetSourceRecord.rawPath)

/-- The value of `HEADER_SETS`, `CXX_MODULE_SETS` and their interface forms. -/
def TargetRecord.fileSetsValue (target : TargetRecord) (kind : FileSetKind)
    (interfaceOnly : Bool) : StringView :=
  joinedTexts ((target.fileSets.filter fun fileSet =>
    fileSet.kind = kind && fileSet.visibility.listed interfaceOnly).map FileSetRecord.name)

/-- The files or the base directories of the file sets of a kind and a name. -/
def TargetRecord.fileSetValue (target : TargetRecord) (kind : FileSetKind) (name : StringView)
    (texts : FileSetRecord → List StringView) : StringView :=
  joinedTexts ((target.fileSets.filter fun fileSet =>
    fileSet.kind = kind && svEqCiQuery fileSet.name name).flatMap texts)

/-- The properties of one file set: their names, and what stands for the set when the name has no
ending. -/
def fileSetProperties : List (String × FileSetKind × (FileSetRecord → List StringView) × String) :=
  [("HEADER_DIRS", .headers, FileSetRecord.baseDirs, "HEADERS"),
    ("HEADER_SET", .headers, FileSetRecord.rawFiles, "HEADERS"),
    ("CXX_MODULE_DIRS", .cxxModules, FileSetRecord.baseDirs, "CXX_MODULES"),
    ("CXX_MODULE_SET", .cxxModules, FileSetRecord.rawFiles, "CXX_MODULES")]

/-- The value of a property of one file set: `HEADER_SET`, or `HEADER_SET_` before a name. -/
def TargetRecord.fileSetPropertyValue (target : TargetRecord) (name : StringView) :
    Option StringView :=
  fileSetProperties.findSome? fun (base, kind, texts, plain) =>
    if svEqCiQuery name (sv base) then some (target.fileSetValue kind (sv plain) texts)
    else if (sv base ++ ['_']).isPrefixOf name then
      some (target.fileSetValue kind (name.drop (sv base ++ ['_']).length) texts)
    else none

/-- The item lists of a target by the names of their properties. -/
def TargetRecord.itemProperties (target : TargetRecord) : List (String × List StringItem) :=
  [("LINK_LIBRARIES", target.linkLibraries.map LinkItem.toStringItem),
    ("INCLUDE_DIRECTORIES", target.includeDirectories),
    ("COMPILE_DEFINITIONS", target.compileDefinitions),
    ("COMPILE_OPTIONS", target.compileOptions),
    ("COMPILE_FEATURES", target.compileFeatures),
    ("LINK_OPTIONS", target.linkOptions),
    ("LINK_DIRECTORIES", target.linkDirectories)]

/-- The value of an item property or of its interface form. -/
def TargetRecord.itemPropertyValue (target : TargetRecord) (name : StringView) :
    Option StringView :=
  if svEqCiQuery name (sv "INTERFACE_SYSTEM_INCLUDE_DIRECTORIES") then
    some (joinedItems target.includeDirectories .publicItem .interfaceItem true)
  else target.itemProperties.findSome? fun (base, items) =>
    if svEqCiQuery name (sv base) then some (joinedItems items .privateItem .publicItem)
    else if svEqCiQuery name (sv ("INTERFACE_" ++ base)) then
      some (joinedItems items .publicItem .interfaceItem)
    else none

/-- The artifact properties that the record of a target also has as fields. -/
def artifactFieldNames : List String :=
  ["OUTPUT_NAME", "PREFIX", "SUFFIX", "ARCHIVE_OUTPUT_DIRECTORY", "LIBRARY_OUTPUT_DIRECTORY",
    "RUNTIME_OUTPUT_DIRECTORY"]

/-- The value of an artifact property. A field of the record has the value that its artifact
property was last set to, and is empty before. -/
def TargetRecord.artifactPropertyValue (target : TargetRecord) (name : StringView) :
    Option StringView :=
  if artifactFieldNames.any (fun field => svEqCiQuery name (sv field)) then
    some ((findArtifactProperty target name).getD [])
  else if svEqCiQuery name (sv "EXPORT_NAME") then some (target.rawPropertyValue name)
  else findArtifactProperty target name

/-- The value of a flag. -/
def flagValue (flag : Bool) : StringView := if flag then sv "1" else sv "0"

/-- The values of the remaining fields of the record. -/
def TargetRecord.fieldValue (target : TargetRecord) (name : StringView) : StringView :=
  if svEqCiQuery name (sv "FOLDER") then target.folder
  else if svEqCiQuery name (sv "EXCLUDE_FROM_ALL") then flagValue target.excludeFromAll
  else if svEqCiQuery name (sv "WIN32_EXECUTABLE") then flagValue target.win32Executable
  else if svEqCiQuery name (sv "MACOSX_BUNDLE") then flagValue target.macosxBundle
  else []

/-- The value of a property that lists sources or file sets. -/
def TargetRecord.sourcePropertyValue (target : TargetRecord) (name : StringView) :
    Option StringView :=
  let named := fun (property : String) => svEqCiQuery name (sv property)
  if named "SOURCES" then some (target.sourcesValue false)
  else if named "INTERFACE_SOURCES" then some (target.sourcesValue true)
  else if named "HEADER_SETS" then some (target.fileSetsValue .headers false)
  else if named "INTERFACE_HEADER_SETS" then some (target.fileSetsValue .headers true)
  else if named "CXX_MODULE_SETS" then some (target.fileSetsValue .cxxModules false)
  else if named "INTERFACE_CXX_MODULE_SETS" then some (target.fileSetsValue .cxxModules true)
  else target.fileSetPropertyValue name

/-- `bm_query_target_modeled_property_value`. -/
def TargetRecord.modeledPropertyValue (target : TargetRecord) (name : StringView) : StringView :=
  ((target.sourcePropertyValue name).or <|
    (target.itemPropertyValue name).or (target.artifactPropertyValue name)).getD
      (target.fieldValue name)

/-- `bm_query_genex_target_property_cb`. -/
def genexTargetProperty (model : Model) (targetName name : StringView) : StringView :=
  match (findTargetByNameId model targetName).bind (model.targets[·]?) with
  | none => []
  | some target =>
    if target.modeledPropertyValue name ≠ [] then target.modeledPropertyValue name
    else target.rawPropertyValue name

/-! ## Target files -/

/-- `bm_query_make_absolute_from_cwd`, where no current directory makes it fail. -/
def makeAbsoluteFromCwd (cwd value : StringView) : Option StringView :=
  if value = [] then some []
  else if svIsAbsPathQuery value then some (normalizePath value)
  else if cwd = [] then none
  else some (pathRebase cwd value)

section Evaluator

variable (host : HostPlatform) (cwd : StringView)

/-- `bm_query_genex_target_file_common`. -/
def genexTargetFile (genexEval : GenexEval) (model : Model) (ctx : QueryContext)
    (linkerFile : Bool) (targetName : StringView) : StringView :=
  ((findTargetByNameId model targetName).bind fun id =>
    (targetEffectiveFile host genexEval model ctx id linkerFile).bind
      (makeAbsoluteFromCwd cwd)).getD []

/-- `bm_query_genex_current_target_name`. -/
def genexCurrentTargetName (model : Model) (ctx : QueryContext) : StringView :=
  (ctx.currentTargetId.bind (model.targets[·]?)).elim [] TargetRecord.name

/-- The context that `bm_query_resolve_string_with_context` evaluates in. -/
def genexContext (genexEval : GenexEval) (model : Model) (ctx : QueryContext) : Genex.Context where
  config := ctx.config
  currentTargetName := genexCurrentTargetName model ctx
  platformId := ctx.platformId
  compileLanguage := ctx.compileLanguage
  installPrefix := ctx.installPrefix
  readTargetProperty := some (genexTargetProperty model)
  readTargetFile := some (genexTargetFile host cwd genexEval model ctx false)
  readTargetLinkerFile := some (genexTargetFile host cwd genexEval model ctx true)
  linkOnlyActive := ctx.usageMode = .link
  buildInterfaceActive := ctx.buildInterfaceActive
  buildLocalInterfaceActive := ctx.buildLocalInterfaceActive
  installInterfaceActive := ctx.installInterfaceActive
  maxDepth := 128
  maxTargetPropertyDepth := 64

/-- The evaluator of `bm_query_resolve_string_with_context`, with a bound on how deep the names of
artifacts refer to each other. -/
def queryGenexEval : Nat → GenexEval
  | 0 => fun _ _ _ => none
  | nesting + 1 => fun model ctx raw =>
    (Genex.evalRoot (genexContext host cwd (queryGenexEval nesting) model ctx) raw).toOption

end Evaluator

end Nobify.BuildModel
