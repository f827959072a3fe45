import Mathlib.Algebra.Group.Int.Defs
import Nobify.BuildModel.Session
import Nobify.Codegen.Context

/-!
# Arguments of compile and link commands

What `cg_emit_target_function` puts on the command lines of a target: its sources, the arguments
of a compile command, which the generator computes for each configuration, and the arguments of a
link command.
-/

namespace Nobify.Codegen

open BuildModel

/-! ## Text -/

/-- `cg_sv_contains`, of a needle that is not empty. -/
def svContains (text needle : StringView) : Bool := text.tails.any needle.isPrefixOf

/-- `cg_is_genex`. -/
def isGenex (text : StringView) : Bool := svContains text (sv "$<")

/-- `cg_is_link_file_like`. -/
def isLinkFileLike (text : StringView) : Bool :=
  [sv ".a", sv ".lib", sv ".dll", sv ".so", sv ".dylib", sv ".o", sv ".obj"].any
    fun ending => ending.isSuffixOf text

/-- `cg_is_bare_library_name`. -/
def isBareLibraryName (text : StringView) : Bool :=
  !text.isEmpty && text.all fun char => char.isAlphanum || char ∈ ['_', '+', '.', '-']

/-- `cg_parse_int_sv`: blanks, a sign and digits up to the end, as `strtol` reads them, cut down to
an `int`. -/
def parseIntSv (value : StringView) : Option Int :=
  if value = [] ∨ 32 ≤ value.length then none
  else
    let (negative, digits) := match value.dropWhile isSpace with
      | '-' :: digits => (true, digits)
      | '+' :: digits => (false, digits)
      | digits => (false, digits)
    if digits = [] ∨ digits.any (!·.isDigit) then none
    else
      let magnitude : Int := digits.foldl (fun number digit => number * 10 + (digit.toNat - 48)) 0
      let parsed := if negative then -magnitude else magnitude
      some (Int.bmod (max (-2 ^ 63) (min (2 ^ 63 - 1) parsed)) (2 ^ 32))

/-- `bm_sv_truthy_query`. -/
def svTruthyQuery (value : StringView) : Bool :=
  svTrim value ≠ [] && svTrim value ≠ sv "0" &&
    !([sv "FALSE", sv "OFF", sv "NO", sv "N"].any (svEqCiQuery (svTrim value)))

/-! ## Sources -/

/-- `CG_Source_Lang`. -/
inductive SourceLang where
  | c
  | cxx
  deriving DecidableEq

/-- `cg_compile_language_sv`. -/
def SourceLang.compileLanguage : SourceLang → StringView
  | .c => sv "C"
  | .cxx => sv "CXX"

/-- `CG_Source_Info`. -/
structure SourceInfo where
  path : StringView
  lang : SourceLang
  record : TargetSourceRecord

namespace Context

variable (ctx : Context)

/-! ## References to targets -/

end Context

/-- `CG_Resolved_Target_Ref`, with what the emission of link commands and the evaluator read. -/
structure ResolvedTargetRef where
  targetId : TargetId
  targetKind : TargetKind
  imported : Bool
  effectiveFile : StringView
  effectiveLinkerFile : StringView
  deriving DecidableEq

namespace ResolvedTargetRef

/-- The field `usage_only`. -/
def usageOnly (dep : ResolvedTargetRef) : Bool := dep.targetKind = .interfaceLibrary

/-- `cg_target_kind_is_linkable_artifact` of a local target. -/
def linkableArtifact (dep : ResolvedTargetRef) : Bool :=
  dep.targetKind = .staticLibrary || dep.targetKind = .sharedLibrary

/-- The linker file, or else the file itself. -/
def linkPath (dep : ResolvedTargetRef) : StringView :=
  if dep.effectiveLinkerFile ≠ [] then dep.effectiveLinkerFile else dep.effectiveFile

end ResolvedTargetRef

namespace Context

variable (ctx : Context)

/-- The part that `cg_resolve_link_item_ref` and `cg_resolve_target_ref` share. -/
def resolveTargetId (qctx : QueryContext) (id : TargetId) : Option ResolvedTargetRef := do
  let targetId ← resolveAliasTarget ctx.model.toModel id
  let info ← ctx.targets[targetId]?
  if info.imported then
    let file ←
      targetEffectiveFile ctx.host ctx.genexEval ctx.model.toModel qctx targetId false
    let linkerFile ←
      targetEffectiveFile ctx.host ctx.genexEval ctx.model.toModel qctx targetId true
    let _ ← targetImportedLinkLanguages ctx.model.toModel qctx targetId
    return ⟨targetId, info.kind, true, file, linkerFile⟩
  else
    let runtime ←
      targetEffectiveArtifact ctx.host ctx.genexEval ctx.model.toModel qctx targetId .runtime
    let linker ←
      targetEffectiveArtifact ctx.host ctx.genexEval ctx.model.toModel qctx targetId .linker
    let file := (ctx.rebaseArtifactView runtime).path
    let linkerFile := (ctx.rebaseArtifactView linker).path
    return ⟨targetId, info.kind, false, file, if linkerFile ≠ [] then linkerFile else file⟩

/-- `cg_resolve_target_ref`. -/
def resolveTargetRef (qctx : QueryContext) (item : StringView) : Option ResolvedTargetRef :=
  (findTargetByNameId ctx.model.toModel item).bind (ctx.resolveTargetId qctx)

/-- `cg_resolve_link_item_ref`. -/
def resolveLinkItemRef (qctx : QueryContext) (item : LinkItem) : Option ResolvedTargetRef :=
  match item.targetId with
  | some id => ctx.resolveTargetId qctx id
  | none => ctx.resolveTargetRef qctx item.value

/-! ## Properties of sources -/

/-- `cg_genex_target_file_cb` and `cg_genex_target_linker_file_cb`. -/
def genexTargetFile (qctx : QueryContext) (linkerFile : Bool) (targetName : StringView) :
    StringView :=
  (ctx.resolveTargetRef qctx targetName).elim [] fun dep =>
    let file := if linkerFile then dep.effectiveLinkerFile else dep.effectiveFile
    if file = [] then [] else ctx.rebasePathFromCwd file

/-- `cg_eval_string_for_config`, for compile usage. The callback for target properties reads what
the callback of the queries reads. -/
def evalStringForConfig (id : TargetId) (config compileLanguage raw : StringView) :
    Option StringView :=
  let qctx := ctx.makeQueryCtx (some id) .compile config compileLanguage
  (Genex.evalRoot {
    config
    currentTargetName := genexCurrentTargetName ctx.model.toModel qctx
    platformId := ctx.policy.platformId
    compileLanguage
    readTargetProperty := some (genexTargetProperty ctx.model.toModel)
    readTargetFile := some (ctx.genexTargetFile qctx false)
    readTargetLinkerFile := some (ctx.genexTargetFile qctx true)
    buildInterfaceActive := true
    buildLocalInterfaceActive := true
    maxDepth := 128
    maxTargetPropertyDepth := 64 } raw).toOption

/-- `cg_append_split_item`. -/
def splitItem (item : StringItem) (value : StringView) : List StringItem :=
  (((value.splitOn ';').map svTrim).filter (· ≠ [])).map fun piece => { item with value := piece }

/-- `cg_collect_source_compile_items`. -/
def sourceCompileItems (id : TargetId) (config : StringView) (lang : SourceLang)
    (items : List StringItem) : Option (List StringItem) :=
  (items.mapM fun item =>
    (if isGenex item.value then
        ctx.evalStringForConfig id config lang.compileLanguage item.value
      else some item.value).map (splitItem item)).map List.flatten

/-! ## Arguments of compile commands -/

/-- The argument of an include directory. -/
def includeArgs (item : StringItem) : List StringView :=
  let path := ctx.rebaseFromProvenance item.value item.filePath
  if ctx.policyIsWindows then [sv "/I" ++ path] else [sv "-I" ++ path]

/-- The arguments of an effective include directory: a system directory takes two. -/
def effectiveIncludeArgs (item : StringItem) : List StringView :=
  if !ctx.policyIsWindows && item.system then
    [sv "-isystem", ctx.rebaseFromProvenance item.value item.filePath]
  else ctx.includeArgs item

/-- The argument of a compile definition. -/
def definitionArgs (item : StringItem) : List StringView :=
  let flagged := (sv "-D").isPrefixOf item.value
  if ctx.policyIsWindows then [sv "/D" ++ if flagged then item.value.drop 2 else item.value]
  else if flagged then [item.value]
  else [sv "-D" ++ item.value]

/-- The argument of a compile option. -/
def optionArgs (item : StringItem) : List StringView :=
  if ctx.policyIsWindows && (sv "-std=").isPrefixOf item.value then [] else [item.value]

/-- `cg_collect_source_compile_args`. -/
def sourceCompileArgs (id : TargetId) (config : StringView) (source : SourceInfo) :
    Option (List StringView) := do
  let collect := ctx.sourceCompileItems id config source.lang
  let includes ← collect source.record.includeDirectories
  let definitions ← collect source.record.compileDefinitions
  let options ← collect source.record.compileOptions
  return includes.flatMap ctx.includeArgs ++ definitions.flatMap ctx.definitionArgs ++
    options.flatMap ctx.optionArgs

end Context

/-! ## Language standards -/

/-- `BM_Compile_Feature_Lang`, without the unknown one that no feature has. -/
inductive CompileFeatureLang where
  | c
  | cxx
  | cuda
  deriving DecidableEq

/-- `k_bm_compile_feature_info`. -/
def compileFeatureInfo : List (String × CompileFeatureLang × Int) :=
  [("c_std_90", .c, 90), ("c_std_99", .c, 99), ("c_std_11", .c, 11), ("c_std_17", .c, 17),
    ("c_std_23", .c, 23), ("c_function_prototypes", .c, 90), ("c_restrict", .c, 99),
    ("c_static_assert", .c, 11), ("c_variadic_macros", .c, 99),
    ("cxx_std_98", .cxx, 98), ("cxx_std_11", .cxx, 11), ("cxx_std_14", .cxx, 14),
    ("cxx_std_17", .cxx, 17), ("cxx_std_20", .cxx, 20), ("cxx_std_23", .cxx, 23),
    ("cxx_alias_templates", .cxx, 11), ("cxx_constexpr", .cxx, 11), ("cxx_decltype", .cxx, 11),
    ("cxx_final", .cxx, 11), ("cxx_generic_lambdas", .cxx, 14), ("cxx_lambdas", .cxx, 11),
    ("cxx_nullptr", .cxx, 11), ("cxx_range_for", .cxx, 11), ("cxx_rvalue_references", .cxx, 11),
    ("cxx_static_assert", .cxx, 11), ("cxx_variadic_templates", .cxx, 11),
    ("cuda_std_03", .cuda, 3), ("cuda_std_11", .cuda, 11), ("cuda_std_14", .cuda, 14),
    ("cuda_std_17", .cuda, 17), ("cuda_std_20", .cuda, 20)]

/-- `bm_compile_feature_lookup`. -/
def compileFeatureLookup (feature : StringView) : Option (CompileFeatureLang × Int) :=
  (compileFeatureInfo.find? fun entry => svEqCiQuery feature (sv entry.1)).map (·.2)

/-- The language of the features that matter for a source. -/
def SourceLang.featureLang : SourceLang → CompileFeatureLang
  | .c => .c
  | .cxx => .cxx

/-- The letters before the properties of a language. -/
def SourceLang.propertyStart : SourceLang → String
  | .c => "C"
  | .cxx => "CXX"

/-- `bm_query_target_raw_property_items`. -/
def rawPropertyItems (target : TargetRecord) (name : StringView) : List StringView :=
  (findRawProperty target.rawProperties name).elim [] RawPropertyRecord.items

/-- `cg_language_standard_flag`, of a standard that is positive. -/
def languageStandardFlag (lang : SourceLang) (standard : Int) (extensions : Bool) : StringView :=
  if lang = .c ∧ standard = 23 then if extensions then sv "gnu2x" else sv "c2x"
  else
    (match lang with
      | .c => if extensions then sv "gnu" else sv "c"
      | .cxx => if extensions then sv "gnu++" else sv "c++") ++ Nat.toDigits 10 standard.toNat

/-- The standard that `cg_collect_standard_arg` asks for: that of the target, or the largest number
among its features. -/
def requiredStandard (target : TargetRecord) (lang : SourceLang) (features : List StringView) :
    Int :=
  let direct := ((rawPropertyItems target (sv (lang.propertyStart ++ "_STANDARD"))).head?).getD []
  features.foldl (fun standard feature =>
    match compileFeatureLookup feature with
    | none => standard
    | some (featureLang, number) =>
      if featureLang = lang.featureLang then max standard number else standard)
    ((parseIntSv direct).getD 0)

/-- The extensions that `cg_collect_standard_arg` reads. -/
def usesExtensions (target : TargetRecord) (lang : SourceLang) : Bool :=
  match rawPropertyItems target (sv (lang.propertyStart ++ "_EXTENSIONS")) with
  | [] => true
  | first :: _ => svTruthyQuery first

namespace Context

variable (ctx : Context)

/-- `cg_collect_standard_arg`. -/
def standardArg (id : TargetId) (target : TargetRecord) (config : StringView)
    (lang : SourceLang) : Option (List StringView) :=
  (targetEffectiveValues ctx.genexEval ctx.model.toModel
    (ctx.makeQueryCtx (some id) .compile config lang.compileLanguage) id .compileFeatures).map
    fun features =>
      let standard := requiredStandard target lang features
      if standard ≤ 0 then []
      else [sv "-std=" ++ languageStandardFlag lang standard (usesExtensions target lang)]

/-- `cg_query_effective_items_cached`. -/
def effectiveItems (qctx : QueryContext) (id : TargetId) (kind : EffectiveKind) :
    Option (List StringItem) :=
  targetEffectiveItems ctx.genexEval ctx.model.toModel qctx id kind

/-- `cg_collect_compile_args`. -/
def compileArgs (id : TargetId) (target : TargetRecord) (config : StringView)
    (source : SourceInfo) : Option (List StringView) := do
  let qctx := ctx.makeQueryCtx (some id) .compile config source.lang.compileLanguage
  let includes ← ctx.effectiveItems qctx id .includeDirectories
  let definitions ← ctx.effectiveItems qctx id .compileDefinitions
  let options ← ctx.effectiveItems qctx id .compileOptions
  let standard ← ctx.standardArg id target config source.lang
  let own ← ctx.sourceCompileArgs id config source
  return (standard ++ includes.flatMap ctx.effectiveIncludeArgs ++
    definitions.flatMap ctx.definitionArgs ++ options.flatMap ctx.optionArgs ++ own).foldl
      pushUnique []

/-! ## Arguments of link commands -/

/-- The argument of a link item that refers to no target. -/
def plainLinkArg (item : LinkItem) : Option (List StringView) :=
  if (sv "-").isPrefixOf item.value then some [item.value]
  else if svContains item.value (sv "/") then
    some [ctx.rebaseFromProvenance item.value item.filePath]
  else if isLinkFileLike item.value then some [item.value]
  else if isBareLibraryName item.value then
    some [if ctx.policyIsWindows then item.value ++ sv ".lib" else sv "-l" ++ item.value]
  else none

/-- The argument of a link item that refers to a target. -/
def targetLinkArg (dep : ResolvedTargetRef) : Option (List StringView) :=
  if dep.usageOnly then some []
  else if dep.targetKind = .moduleLibrary then none
  else if dep.imported then
    if dep.targetKind = .executable ∨ dep.linkPath = [] then none
    else some [ctx.rebasePathFromCwd dep.linkPath]
  else if !dep.linkableArtifact then none
  else some [dep.linkPath]

/-- One round of `cg_collect_link_library_args`. -/
def linkLibraryArg (qctx : QueryContext) (item : LinkItem) : Option (List StringView) :=
  (ctx.resolveLinkItemRef qctx item).elim (ctx.plainLinkArg item) ctx.targetLinkArg

/-- `cg_collect_link_library_args`. The inputs that it also collects are used by no caller. -/
def linkLibraryArgs (id : TargetId) (config : StringView) : Option (List StringView) := do
  let qctx := ctx.makeQueryCtx (some id) .link config []
  let items ← targetEffectiveLinkItems ctx.genexEval ctx.model.toModel qctx id
  let args ← items.mapM (ctx.linkLibraryArg qctx)
  return args.flatten.foldl pushUnique []

end Context

end Nobify.Codegen
