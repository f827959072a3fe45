import Nobify.BuildModel.Effective

/-!
# Artifacts and languages of a target

Where the files of a target lie in a context, and which language links it. A local artifact is
named by the artifact properties of its target, with a form for the configuration tried before
the plain one; an imported one by the record of the configuration that is selected. The link
language is `CXX` as soon as one source, or one linked target, needs it.
-/

namespace Nobify.BuildModel

/-- The platform that the program was compiled on, `_WIN32` and `__APPLE__`. -/
structure HostPlatform where
  isWindows : Bool := false
  isApple : Bool := false

/-- `BM_Target_Artifact_Role`. -/
inductive ArtifactRole where
  | runtime
  | linker
  deriving DecidableEq

/-- `BM_Target_Artifact_View`. -/
structure ArtifactView where
  emits : Bool := false
  path : StringView := []
  directory : StringView := []
  fileName : StringView := []
  filePrefix : StringView := []
  outputName : StringView := []
  fileSuffix : StringView := []

/-! ## Imported configurations -/

/-- `bm_find_imported_config_record`. -/
def findImportedConfigRecord (target : TargetRecord) (config : StringView) :
    Option ImportedConfigRecord :=
  target.importedConfigs.find? fun record => svEqCiQuery record.config config

/-- `bm_find_imported_config_map_record`. -/
def findImportedConfigMapRecord (target : TargetRecord) (config : StringView) :
    Option ImportedConfigMapRecord :=
  target.importedConfigMaps.find? fun record => svEqCiQuery record.config config

/-- `bm_select_imported_config_record`: the record of the configuration, of the first one that it
is mapped to, or of no configuration. -/
def selectImportedConfigRecord (target : TargetRecord) (activeConfig : StringView) :
    Option ImportedConfigRecord :=
  let active :=
    if activeConfig = [] then none
    else (findImportedConfigRecord target activeConfig).or
      ((findImportedConfigMapRecord target activeConfig).bind fun record =>
        record.mappedConfigs.findSome? (findImportedConfigRecord target))
  active.or (findImportedConfigRecord target [])

/-! ## Names of local artifacts -/

/-- `BM_Query_Artifact_Category`. -/
inductive ArtifactCategory where
  | archive
  | library
  | runtime

/-- `bm_query_target_kind_is_local_artifact`. -/
def TargetKind.isLocalArtifact : TargetKind → Bool
  | .executable | .staticLibrary | .sharedLibrary | .moduleLibrary => true
  | _ => false

/-- `bm_query_artifact_category`. -/
def artifactCategory (kind : TargetKind) (role : ArtifactRole) (isWindows : Bool) :
    ArtifactCategory :=
  match kind with
  | .executable => .runtime
  | .staticLibrary => .archive
  | .sharedLibrary | .moduleLibrary =>
    if isWindows then (if role = .linker then .archive else .runtime) else .library
  | _ => .runtime

/-- `bm_query_artifact_category_name`. -/
def ArtifactCategory.categoryName : ArtifactCategory → StringView
  | .archive => sv "ARCHIVE"
  | .library => sv "LIBRARY"
  | .runtime => sv "RUNTIME"

/-- The prefix of `bm_query_artifact_default_naming`. -/
def defaultArtifactPrefix (category : ArtifactCategory) (isWindows : Bool) : StringView :=
  match category with
  | .archive | .library => if isWindows then [] else sv "lib"
  | .runtime => []

/-- The suffix of `bm_query_artifact_default_naming`. -/
def defaultArtifactSuffix (kind : TargetKind) (category : ArtifactCategory)
    (isWindows isDarwin : Bool) : StringView :=
  match category with
  | .archive => if isWindows then sv ".lib" else sv ".a"
  | .library => if kind = .sharedLibrary ∧ isDarwin then sv ".dylib" else sv ".so"
  | .runtime =>
    if kind = .executable ∧ isWindows then sv ".exe"
    else if (kind = .sharedLibrary ∨ kind = .moduleLibrary) ∧ isWindows then sv ".dll"
    else []

/-- `bm_query_find_artifact_property`. -/
def findArtifactProperty (target : TargetRecord) (name : StringView) : Option StringView :=
  (target.artifactProperties.find? fun record => svEqCiQuery record.name name).map
    ArtifactPropertyRecord.value

/-- `bm_query_find_artifact_property_config_suffix`. -/
def findArtifactPropertyConfigSuffix (target : TargetRecord) (base config : StringView) :
    Option StringView :=
  if config = [] then none else findArtifactProperty target (base ++ '_' :: config)

/-- `bm_query_find_artifact_property_config_prefix`. -/
def findArtifactPropertyConfigPrefix (target : TargetRecord) (config base : StringView) :
    Option StringView :=
  if config = [] then none else findArtifactProperty target (config ++ '_' :: base)

/-- The output name of `bm_query_target_local_artifact_internal` before it is resolved. -/
def rawOutputName (target : TargetRecord) (category : ArtifactCategory) (config : StringView) :
    StringView :=
  let named := category.categoryName ++ sv "_OUTPUT_NAME"
  ((findArtifactPropertyConfigSuffix target named config).or <|
    (findArtifactProperty target named).or <|
    (findArtifactPropertyConfigSuffix target (sv "OUTPUT_NAME") config).or <|
    (findArtifactPropertyConfigPrefix target config (sv "OUTPUT_NAME")).or <|
    findArtifactProperty target (sv "OUTPUT_NAME")).getD target.name

/-- The directory of `bm_query_target_local_artifact_internal` before it is resolved. -/
def rawOutputDirectory (target : TargetRecord) (category : ArtifactCategory)
    (config : StringView) : StringView :=
  let named := category.categoryName ++ sv "_OUTPUT_DIRECTORY"
  ((findArtifactPropertyConfigSuffix target named config).or
    (findArtifactProperty target named)).getD []

/-! ## Paths of artifacts -/

/-- `bm_query_trim_current_dir_prefixes`. -/
def trimCurrentDirPrefixes : StringView → StringView
  | '.' :: separator :: rest =>
    if separator = '/' ∨ separator = '\\' then trimCurrentDirPrefixes rest
    else '.' :: separator :: rest
  | path => path

/-- `bm_query_path_has_prefix`. -/
def pathHasPrefix (path base : StringView) : Bool :=
  let path := trimCurrentDirPrefixes path
  let base := trimCurrentDirPrefixes base
  !base.isEmpty && base.isPrefixOf path &&
    match path.drop base.length with
    | [] => true
    | next :: _ => next == '/' || next == '\\'

/-- `bm_query_basename_sv`. -/
def basenameSv (path : StringView) : StringView :=
  (path.reverse.takeWhile fun char => char ≠ '/' && char ≠ '\\').reverse

section Artifacts

variable (host : HostPlatform) (genexEval : GenexEval) (model : Model)

/-- `bm_query_platform_is_windows`. -/
def platformIsWindows (ctx : QueryContext) : Bool :=
  svEqCiQuery ctx.platformId (sv "Windows") || host.isWindows

/-- `bm_query_platform_is_darwin`. -/
def platformIsDarwin (ctx : QueryContext) : Bool :=
  svEqCiQuery ctx.platformId (sv "Darwin") || host.isApple

/-- `bm_query_resolve_artifact_string`. -/
def resolveArtifactString (ctx : QueryContext) (id : TargetId) (raw : StringView) :
    Option StringView :=
  resolveString genexEval model { ctx with currentTargetId := ctx.currentTargetId.or (some id) } raw

/-- `bm_query_target_local_artifact_internal`, on a target that is no alias. -/
def localArtifact (ctx : QueryContext) (id : TargetId) (target : TargetRecord)
    (role : ArtifactRole) : Option ArtifactView :=
  if !target.kind.isLocalArtifact then some {}
  else do
    let owner := target.ownerDirectoryId.bind (model.directories[·]?)
    let binaryDir := owner.elim [] DirectoryRecord.binaryDir
    let sourceDir := owner.elim [] DirectoryRecord.sourceDir
    let isWindows := platformIsWindows host ctx
    let category := artifactCategory target.kind role isWindows
    let rawPrefix := (findArtifactProperty target (sv "PREFIX")).getD
      (defaultArtifactPrefix category isWindows)
    let rawSuffix := (findArtifactProperty target (sv "SUFFIX")).getD
      (defaultArtifactSuffix target.kind category isWindows (platformIsDarwin host ctx))
    let resolve := resolveArtifactString genexEval model ctx id
    let named ← resolve (rawOutputName target category ctx.config)
    let before ← resolve rawPrefix
    let after ← resolve rawSuffix
    let placed ← resolve (rawOutputDirectory target category ctx.config)
    let outputName := if named = [] then target.name else named
    let fileName := before ++ outputName ++ after
    let directory :=
      if placed = [] then binaryDir
      else if svIsAbsPathQuery placed || pathHasPrefix placed binaryDir ||
          pathHasPrefix placed sourceDir then placed
      else joinRelativePathQuery binaryDir placed
    let path := joinRelativePathQuery directory fileName
    return {
      emits := !path.isEmpty
      path, directory, fileName
      filePrefix := before
      outputName
      fileSuffix := after }

/-- The path of an imported artifact. -/
def ImportedConfigRecord.artifactPath (record : ImportedConfigRecord) (role : ArtifactRole) :
    StringView :=
  if role = .linker ∧ record.effectiveLinkerFile ≠ [] then record.effectiveLinkerFile
  else record.effectiveFile

/-- `bm_query_target_effective_artifact`. -/
def targetEffectiveArtifact (ctx : QueryContext) (id : TargetId) (role : ArtifactRole) :
    Option ArtifactView := do
  let resolvedId ← resolveAliasTargetId model (some id)
  let target ← model.targets[resolvedId]?
  if !target.imported then localArtifact host genexEval model ctx resolvedId target role
  else
    match selectImportedConfigRecord target ctx.config with
    | none => some {}
    | some record =>
      let path := record.artifactPath role
      some {
        emits := !path.isEmpty
        path
        directory := dirnameSv path
        fileName := basenameSv path }

/-- `bm_query_target_effective_file_internal`. -/
def targetEffectiveFile (ctx : QueryContext) (id : TargetId) (linkerFile : Bool) :
    Option StringView :=
  (targetEffectiveArtifact host genexEval model ctx id
    (if linkerFile then .linker else .runtime)).map ArtifactView.path

/-- `bm_query_target_imported_link_languages`. -/
def targetImportedLinkLanguages (ctx : QueryContext) (id : TargetId) : Option (List StringView) :=
  (resolveAliasTargetId model (some id)).bind fun resolvedId =>
    (model.targets[resolvedId]?).map fun target =>
      (selectImportedConfigRecord target ctx.config).elim [] ImportedConfigRecord.linkLanguages

end Artifacts

/-! ## Languages -/

/-- `bm_query_sv_ends_with_ci`. -/
def svEndsWithCi (text ending : StringView) : Bool :=
  ending.length ≤ text.length && svEqCiQuery (text.drop (text.length - ending.length)) ending

/-- `bm_query_source_path_is_header_like`. -/
def sourcePathIsHeaderLike (path : StringView) : Bool :=
  [sv ".h", sv ".hh", sv ".hpp", sv ".hxx", sv ".inl", sv ".inc"].any (svEndsWithCi path)

/-- `bm_query_source_language_from_path`. -/
def sourceLanguageFromPath (path : StringView) : StringView :=
  if svEndsWithCi path (sv ".c") then sv "C"
  else if [sv ".cc", sv ".cpp", sv ".cxx", sv ".c++"].any (svEndsWithCi path) then sv "CXX"
  else []

/-- `bm_query_target_source_record_effective_language`. -/
def TargetSourceRecord.effectiveLanguage (source : TargetSourceRecord) : StringView :=
  if source.visibility = .interfaceItem ∨ source.kind ≠ .regular ∨ source.headerFileOnly ∨
      sourcePathIsHeaderLike source.effectivePath then []
  else if svTrim source.language ≠ [] then
    if svEqCiQuery (svTrim source.language) (sv "C") then sv "C"
    else if svEqCiQuery (svTrim source.language) (sv "CXX") then sv "CXX"
    else []
  else sourceLanguageFromPath source.effectivePath

/-- `bm_query_link_language_is_cxx`. -/
def linkLanguageIsCxx (language : StringView) : Bool := svEqCiQuery (svTrim language) (sv "CXX")

/-- `bm_query_link_language_is_c`. -/
def linkLanguageIsC (language : StringView) : Bool := svEqCiQuery (svTrim language) (sv "C")

/-- `bm_query_target_link_item_target_id`. -/
def linkItemDependencyId (model : Model) (item : LinkItem) : Option TargetId :=
  resolveAliasTargetId model <| item.targetId.or <| findTargetByNameId model
        (if item.semantic.kind = .targetRef ∧ item.semantic.targetName ≠ [] then
          item.semantic.targetName
        else item.value)

/-- The loops of `bm_query_target_effective_link_language_impl` over languages: the first C++
language decides, and nothing after it is looked at. -/
def decideLinkLanguage {δ : Type} (languageOf : δ → Option StringView) :
    Bool → List δ → (Bool → Option StringView) → Option StringView
  | sawC, [], finish => finish sawC
  | sawC, entry :: rest, finish =>
    (languageOf entry).bind fun language =>
      if linkLanguageIsCxx language then some (sv "CXX")
      else decideLinkLanguage languageOf (sawC || linkLanguageIsC language) rest finish

/-- The language once every entry was looked at. -/
def lastLinkLanguage (sawC : Bool) : Option StringView := some (if sawC then sv "C" else [])

/-- `bm_query_target_effective_link_language_impl`; `visiting` lists the targets on the way here,
so `fuel` bounds the length of that way. -/
def effectiveLinkLanguageImpl (genexEval : GenexEval) (model : Model) :
    Nat → List TargetId → QueryContext → TargetId → Option StringView
  | 0, _, _, _ => none
  | fuel + 1, visiting, ctx, id => do
    let resolvedId ← resolveAliasTargetId model (some id)
    let target ← model.targets[resolvedId]?
    if resolvedId ∈ visiting then some []
    else
      let linkCtx := { ctx with
        currentTargetId := ctx.currentTargetId.or (some resolvedId)
        usageMode := .link
        compileLanguage := [] }
      if target.imported then
        let languages ← targetImportedLinkLanguages model linkCtx resolvedId
        decideLinkLanguage some false languages lastLinkLanguage
      else
        decideLinkLanguage (fun source => some source.effectiveLanguage) false
          target.sourceRecords fun sawC => do
            let items ← targetEffectiveLinkItems genexEval model linkCtx resolvedId
            decideLinkLanguage
              (effectiveLinkLanguageImpl genexEval model fuel (resolvedId :: visiting) linkCtx)
              sawC (items.filterMap (linkItemDependencyId model)) lastLinkLanguage

/-- `bm_query_target_effective_link_language`. A way without repetition is no longer than the
list of targets, and one more call finds the repetition. -/
def targetEffectiveLinkLanguage (genexEval : GenexEval) (model : Model) (ctx : QueryContext)
    (id : TargetId) : Option StringView :=
  effectiveLinkLanguageImpl genexEval model (model.targets.length + 1) [] ctx id

end Nobify.BuildModel
