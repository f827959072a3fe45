import Nobify.BuildModel.Artifact
import Nobify.Lib.Delimited
import Nobify.Lib.Memo

/-!
# Query sessions

A `BM_Query_Session` keeps the answers of queries in seven tables. The key of a query is a C
string that writes out the target, the query and every field of the context, after the context
was normalized. Texts stand after their lengths, so two keys agree only for the same query, and
every answer of a session is the answer of the query itself.
-/

namespace Nobify.BuildModel

open Lib (Table Delimited)
open List

variable {id : UInt32} {ctx : QueryEvalContext} {other slot : CacheSlot} {session : Session}

/-! ## Contexts as callers pass them -/

/-- `BM_TARGET_ID_INVALID`, the largest `uint32_t`. -/
def invalidTargetWord : UInt32 := 4294967295

/-- The target of a `BM_Target_Id`. -/
def targetOfWord (word : UInt32) : Option TargetId :=
  if word = invalidTargetWord then none else some word.toNat

/-- `BM_Query_Eval_Context` with the target id as a number; the default is the zeroed context. -/
structure QueryEvalContext where
  config : StringView := []
  platformId : StringView := []
  compileLanguage : StringView := []
  installPrefix : StringView := []
  currentTargetId : UInt32 := 0
  usageMode : UsageMode := .compile
  buildInterfaceActive : Bool := false
  buildLocalInterfaceActive : Bool := false
  installInterfaceActive : Bool := false
  deriving DecidableEq

/-- The context that a query reads. -/
def QueryEvalContext.toQueryContext (ctx : QueryEvalContext) : QueryContext where
  config := ctx.config
  platformId := ctx.platformId
  compileLanguage := ctx.compileLanguage
  installPrefix := ctx.installPrefix
  currentTargetId := targetOfWord ctx.currentTargetId
  usageMode := ctx.usageMode
  buildInterfaceActive := ctx.buildInterfaceActive
  buildLocalInterfaceActive := ctx.buildLocalInterfaceActive
  installInterfaceActive := ctx.installInterfaceActive

/-- `bm_default_query_eval_context`. -/
def defaultQueryEvalContext (currentTargetId : UInt32) (usageMode : UsageMode) : QueryEvalContext :=
  { currentTargetId, usageMode, buildInterfaceActive := true, buildLocalInterfaceActive := true }

/-- `bm_query_session_normalize_effective_ctx`; `none` is the null pointer. -/
def normalizeEffectiveCtx (id : UInt32) (usageMode : UsageMode) :
    Option QueryEvalContext → QueryEvalContext
  | none => defaultQueryEvalContext id usageMode
  | some ctx =>
    if ctx.currentTargetId = invalidTargetWord then { ctx with currentTargetId := id } else ctx

/-- `bm_query_session_normalize_generic_ctx`. -/
def normalizeGenericCtx (ctx : Option QueryEvalContext) : QueryEvalContext := ctx.getD {}

/-- The usage mode of the default context of a query kind. -/
def EffectiveKind.usageMode : EffectiveKind → UsageMode
  | .linkLibraries | .linkOptions | .linkDirectories => .link
  | _ => .compile

/-! ## Caches -/

/-- The seven tables of `BM_Query_Session`. -/
inductive CacheSlot where
  | effectiveItem
  | effectiveLinkItem
  | effectiveValue
  | targetFile
  | targetArtifact
  | importedLinkLang
  | effectiveLinkLang
  deriving DecidableEq

/-- The values of a table. -/
def CacheSlot.Value : CacheSlot → Type
  | .effectiveItem => List StringItem
  | .effectiveLinkItem => List LinkItem
  | .effectiveValue => List StringView
  | .targetFile => StringView
  | .targetArtifact => ArtifactView
  | .importedLinkLang => List StringView
  | .effectiveLinkLang => StringView

/-- What a query of a table says beside its target and its context. -/
def CacheSlot.Selector : CacheSlot → Type
  | .effectiveItem | .effectiveValue => EffectiveKind
  | .targetFile => Bool
  | .targetArtifact => ArtifactRole
  | .effectiveLinkItem | .importedLinkLang | .effectiveLinkLang => Unit

/-- A query with its context normalized. -/
structure Request (slot : CacheSlot) where
  id : UInt32
  selector : slot.Selector
  ctx : QueryEvalContext

/-! ## Keys -/

/-- `bm_query_session_key_append_u64`. -/
def keyU64 (value : Nat) : StringView := Nat.toDigits 10 value ++ ['|']

/-- `bm_query_session_key_append_sv`. -/
def keySv (value : StringView) : StringView :=
  Nat.toDigits 10 value.length ++ [':'] ++ value ++ ['|']

/-- The number of a usage mode. -/
def UsageMode.number : UsageMode → Nat
  | .compile => 0
  | .link => 1

/-- The number of a query kind. -/
def EffectiveKind.number : EffectiveKind → Nat
  | .includeDirectories => 0
  | .compileDefinitions => 1
  | .compileOptions => 2
  | .compileFeatures => 3
  | .linkLibraries => 4
  | .linkOptions => 5
  | .linkDirectories => 6

/-- The number of an artifact role. -/
def ArtifactRole.number : ArtifactRole → Nat
  | .runtime => 0
  | .linker => 1

/-- The end of every key: all fields of the context. -/
def keyContext (ctx : QueryEvalContext) : StringView :=
  keyU64 ctx.usageMode.number ++ (keyU64 ctx.currentTargetId.toNat ++
    (keyU64 ctx.buildInterfaceActive.toNat ++ (keyU64 ctx.buildLocalInterfaceActive.toNat ++
      (keyU64 ctx.installInterfaceActive.toNat ++ (keySv ctx.config ++ (keySv ctx.platformId ++
        (keySv ctx.compileLanguage ++ keySv ctx.installPrefix)))))))

/-- `bm_query_session_build_effective_key`. -/
def buildEffectiveKey (id : UInt32) (kind : EffectiveKind) (ctx : QueryEvalContext) : StringView :=
  sv "effective|" ++ (keyU64 id.toNat ++ (keyU64 kind.number ++ keyContext ctx))

/-- `bm_query_session_build_target_file_key`. -/
def buildTargetFileKey (id : UInt32) (linkerFile : Bool) (ctx : QueryEvalContext) : StringView :=
  sv "target_file|" ++ (keyU64 id.toNat ++ (keyU64 linkerFile.toNat ++ keyContext ctx))

/-- `bm_query_session_build_target_artifact_key`. -/
def buildTargetArtifactKey (id : UInt32) (role : ArtifactRole) (ctx : QueryEvalContext) :
    StringView :=
  sv "target_artifact|" ++ (keyU64 id.toNat ++ (keyU64 role.number ++ keyContext ctx))

/-- `bm_query_session_build_imported_lang_key`. -/
def buildImportedLangKey (id : UInt32) (ctx : QueryEvalContext) : StringView :=
  sv "imported_langs|" ++ (keyU64 id.toNat ++ keyContext ctx)

/-- `bm_query_session_build_effective_link_lang_key`. -/
def buildEffectiveLinkLangKey (id : UInt32) (ctx : QueryEvalContext) : StringView :=
  sv "effective_link_lang|" ++ (keyU64 id.toNat ++ keyContext ctx)

/-- What `stbds` compares of a key: the characters before the first NUL. -/
def cString (text : StringView) : StringView := text.takeWhile (· ≠ '\x00')

/-- The text that is built for a request. -/
def Request.keyText : {slot : CacheSlot} → Request slot → StringView
  | .effectiveItem, ⟨id, kind, ctx⟩ => buildEffectiveKey id kind ctx
  | .effectiveLinkItem, ⟨id, _, ctx⟩ => buildEffectiveKey id .linkLibraries ctx
  | .effectiveValue, ⟨id, kind, ctx⟩ => buildEffectiveKey id kind ctx
  | .targetFile, ⟨id, linkerFile, ctx⟩ => buildTargetFileKey id linkerFile ctx
  | .targetArtifact, ⟨id, role, ctx⟩ => buildTargetArtifactKey id role ctx
  | .importedLinkLang, ⟨id, _, ctx⟩ => buildImportedLangKey id ctx
  | .effectiveLinkLang, ⟨id, _, ctx⟩ => buildEffectiveLinkLangKey id ctx

/-- The key of a request. -/
def Request.key {slot : CacheSlot} (request : Request slot) : StringView :=
  cString request.keyText

/-! ## Sessions -/

/-- `BM_Query_Session`: its tables, and the counters of `BM_Query_Session_Stats`. -/
structure Session where
  caches : (slot : CacheSlot) → Table StringView slot.Value
  hits : CacheSlot → Nat
  misses : CacheSlot → Nat

namespace Session

/-- `bm_query_session_create`. -/
def create : Session where
  caches _ := Table.empty
  hits _ := 0
  misses _ := 0

/-- The counters of a table; link items are counted with the other items. -/
def counter : CacheSlot → CacheSlot
  | .effectiveLinkItem => .effectiveItem
  | slot => slot

/-- Count a hit if asked to. -/
def countHit (session : Session) (slot : CacheSlot) (countStats : Bool) : Session :=
  let counted := Function.update session.hits (counter slot) (session.hits (counter slot) + 1)
  if countStats then { session with hits := counted } else session

/-- Count a miss if asked to. -/
def countMiss (session : Session) (slot : CacheSlot) (countStats : Bool) : Session :=
  let counted := Function.update session.misses (counter slot) (session.misses (counter slot) + 1)
  if countStats then { session with misses := counted } else session

/-- `stbds_shput` on a table. -/
def put (session : Session) (slot : CacheSlot) (key : StringView) (value : slot.Value) : Session :=
  let written := (session.caches slot).put key value
  { session with caches := Function.update session.caches slot written }

/-- The shape of the seven functions `bm_query_session_..._cached`: answer from the table, or
compute, write the answer and read it back. A failed computation writes nothing. -/
def cached {slot : CacheSlot} (request : Request slot) (countStats : Bool)
    (compute : Session → Option slot.Value × Session) (session : Session) :
    Option slot.Value × Session :=
  match (session.caches slot).get? request.key with
  | some value => (some value, session.countHit slot countStats)
  | none =>
    let computed := compute (session.countMiss slot countStats)
    match computed.1 with
    | none => (none, computed.2)
    | some value =>
      let written := computed.2.put slot request.key value
      ((written.caches slot).get? request.key, written)

end Session

/-! ## The queries behind a session -/

section Queries

variable (host : HostPlatform) (genexEval : GenexEval) (model : Model)

/-- `bm_query_target_effective_values_common` and
`bm_query_target_effective_link_libraries_with_context`. -/
def targetEffectiveValues (ctx : QueryContext) (id : TargetId) (kind : EffectiveKind) :
    Option (List StringView) :=
  if kind = .linkLibraries then
    (targetEffectiveLinkItems genexEval model ctx id).map fun items => items.map (·.value)
  else (targetEffectiveItems genexEval model ctx id kind).map fun items => items.map (·.value)

/-- The query that a request stands for, without a session. -/
def uncached : {slot : CacheSlot} → Request slot → Option slot.Value
  | .effectiveItem, ⟨id, kind, ctx⟩ =>
    (targetOfWord id).bind fun id =>
      targetEffectiveItems genexEval model ctx.toQueryContext id kind
  | .effectiveLinkItem, ⟨id, _, ctx⟩ =>
    (targetOfWord id).bind fun id => targetEffectiveLinkItems genexEval model ctx.toQueryContext id
  | .effectiveValue, ⟨id, kind, ctx⟩ =>
    (targetOfWord id).bind fun id =>
      targetEffectiveValues genexEval model ctx.toQueryContext id kind
  | .targetFile, ⟨id, linkerFile, ctx⟩ =>
    (targetOfWord id).bind fun id =>
      targetEffectiveFile host genexEval model ctx.toQueryContext id linkerFile
  | .targetArtifact, ⟨id, role, ctx⟩ =>
    (targetOfWord id).bind fun id =>
      targetEffectiveArtifact host genexEval model ctx.toQueryContext id role
  | .importedLinkLang, ⟨id, _, ctx⟩ =>
    (targetOfWord id).bind fun id => targetImportedLinkLanguages model ctx.toQueryContext id
  | .effectiveLinkLang, ⟨id, _, ctx⟩ =>
    (targetOfWord id).bind fun id =>
      targetEffectiveLinkLanguage genexEval model ctx.toQueryContext id

namespace Session

/-- A computation that does not use the session. -/
def direct {slot : CacheSlot} (request : Request slot) (session : Session) :
    Option slot.Value × Session :=
  (uncached host genexEval model request, session)

/-- `bm_query_session_effective_items_cached`. -/
def effectiveItemsCached (id : UInt32) (ctx : Option QueryEvalContext) (kind : EffectiveKind)
    (countStats : Bool) : Session → Option (List StringItem) × Session :=
  let request : Request .effectiveItem := ⟨id, kind, normalizeEffectiveCtx id kind.usageMode ctx⟩
  cached request countStats (direct host genexEval model request)

/-- `bm_query_session_effective_link_items_cached`. -/
def effectiveLinkItemsCached (id : UInt32) (ctx : Option QueryEvalContext) (countStats : Bool) :
    Session → Option (List LinkItem) × Session :=
  let request : Request .effectiveLinkItem := ⟨id, (), normalizeEffectiveCtx id .link ctx⟩
  cached request countStats (direct host genexEval model request)

/-- The miss of `bm_query_session_effective_values_cached`: the values of the items, which go
through the session themselves. -/
def computeValues (id : UInt32) (kind : EffectiveKind) (normalized : QueryEvalContext)
    (session : Session) : Option (List StringView) × Session :=
  if kind = .linkLibraries then
    let items := effectiveLinkItemsCached host genexEval model id (some normalized) false session
    (items.1.map fun items => items.map (·.value), items.2)
  else
    let items := effectiveItemsCached host genexEval model id (some normalized) kind false session
    (items.1.map fun items => items.map (·.value), items.2)

/-- `bm_query_session_effective_values_cached`. -/
def effectiveValuesCached (id : UInt32) (ctx : Option QueryEvalContext) (kind : EffectiveKind)
    (countStats : Bool) : Session → Option (List StringView) × Session :=
  let normalized := normalizeEffectiveCtx id kind.usageMode ctx
  let request : Request .effectiveValue := ⟨id, kind, normalized⟩
  cached request countStats (computeValues host genexEval model id kind normalized)

/-- `bm_query_session_target_file_cached`. -/
def targetFileCached (id : UInt32) (ctx : Option QueryEvalContext) (linkerFile : Bool)
    (countStats : Bool) : Session → Option StringView × Session :=
  let request : Request .targetFile := ⟨id, linkerFile, normalizeGenericCtx ctx⟩
  cached request countStats (direct host genexEval model request)

/-- `bm_query_session_target_artifact_cached`. -/
def targetArtifactCached (id : UInt32) (role : ArtifactRole) (ctx : Option QueryEvalContext)
    (countStats : Bool) : Session → Option ArtifactView × Session :=
  let request : Request .targetArtifact := ⟨id, role, normalizeGenericCtx ctx⟩
  cached request countStats (direct host genexEval model request)

/-- `bm_query_session_imported_link_languages_cached`. -/
def importedLinkLanguagesCached (id : UInt32) (ctx : Option QueryEvalContext)
    (countStats : Bool) : Session → Option (List StringView) × Session :=
  let request : Request .importedLinkLang := ⟨id, (), normalizeGenericCtx ctx⟩
  cached request countStats (direct host genexEval model request)

/-- `bm_query_session_effective_link_language_cached`. -/
def effectiveLinkLanguageCached (id : UInt32) (ctx : Option QueryEvalContext)
    (countStats : Bool) : Session → Option StringView × Session :=
  let request : Request .effectiveLinkLang := ⟨id, (), normalizeEffectiveCtx id .link ctx⟩
  cached request countStats (direct host genexEval model request)

end Session

/-- A call of one of the public functions `bm_query_session_target_...`. -/
structure SessionQuery where
  slot : CacheSlot
  selector : slot.Selector
  id : UInt32
  ctx : Option QueryEvalContext

/-- The public functions: all of them count. -/
def Session.query : (query : SessionQuery) → Session → Option query.slot.Value × Session
  | ⟨.effectiveItem, kind, id, ctx⟩ =>
    effectiveItemsCached host genexEval model id ctx kind true
  | ⟨.effectiveLinkItem, _, id, ctx⟩ => effectiveLinkItemsCached host genexEval model id ctx true
  | ⟨.effectiveValue, kind, id, ctx⟩ =>
    effectiveValuesCached host genexEval model id ctx kind true
  | ⟨.targetFile, linkerFile, id, ctx⟩ =>
    targetFileCached host genexEval model id ctx linkerFile true
  | ⟨.targetArtifact, role, id, ctx⟩ => targetArtifactCached host genexEval model id role ctx true
  | ⟨.importedLinkLang, _, id, ctx⟩ =>
    importedLinkLanguagesCached host genexEval model id ctx true
  | ⟨.effectiveLinkLang, _, id, ctx⟩ =>
    effectiveLinkLanguageCached host genexEval model id ctx true

/-- The query that a call stands for, in its normalized context. -/
def SessionQuery.normalized : (query : SessionQuery) → Request query.slot
  | ⟨.effectiveItem, kind, id, ctx⟩ => ⟨id, kind, normalizeEffectiveCtx id kind.usageMode ctx⟩
  | ⟨.effectiveLinkItem, _, id, ctx⟩ => ⟨id, (), normalizeEffectiveCtx id .link ctx⟩
  | ⟨.effectiveValue, kind, id, ctx⟩ => ⟨id, kind, normalizeEffectiveCtx id kind.usageMode ctx⟩
  | ⟨.targetFile, linkerFile, id, ctx⟩ => ⟨id, linkerFile, normalizeGenericCtx ctx⟩
  | ⟨.targetArtifact, role, id, ctx⟩ => ⟨id, role, normalizeGenericCtx ctx⟩
  | ⟨.importedLinkLang, _, id, ctx⟩ => ⟨id, (), normalizeGenericCtx ctx⟩
  | ⟨.effectiveLinkLang, _, id, ctx⟩ => ⟨id, (), normalizeEffectiveCtx id .link ctx⟩

/-- A table and an answer from it. -/
abbrev SessionAnswer := (slot : CacheSlot) × slot.Value

/-- The answers of a sequence of calls, and the session after it. -/
def Session.run : List SessionQuery → Session → List (Option SessionAnswer) × Session
  | [], session => ([], session)
  | query :: rest, session =>
    let answered := Session.query host genexEval model query session
    let later := Session.run rest answered.2
    (answered.1.map (Sigma.mk query.slot) :: later.1, later.2)

end Queries

/-! ## Keys of different requests differ -/

/-- Numbers are delimited. -/
theorem delimited_keyU64 : Delimited keyU64 := Lib.delimited_toDigits (by decide)

/-- Texts are delimited, whatever they hold. -/
theorem delimited_keySv : Delimited keySv := Lib.delimited_counted (by decide) '|'

/-- Usage modes have different numbers. -/
theorem UsageMode.number_injective : Function.Injective UsageMode.number := by
  intro left right same
  cases left <;> cases right <;> first | rfl | cases same

/-- Flags have different numbers. -/
theorem boolNumber_injective : Function.Injective Bool.toNat := by decide

/-- Query kinds have different numbers. -/
theorem EffectiveKind.number_injective : Function.Injective EffectiveKind.number := by
  intro left right same
  cases left <;> cases right <;> first | rfl | cases same

/-- Artifact roles have different numbers. -/
theorem ArtifactRole.number_injective : Function.Injective ArtifactRole.number := by
  intro left right same
  cases left <;> cases right <;> first | rfl | cases same

/-- The fields of a context are delimited in a key, and none is left out. -/
theorem delimited_keyContext : Delimited keyContext := by
  intro left right rest other same
  simp only [keyContext, append_assoc] at same
  obtain ⟨usageMode, same⟩ := delimited_keyU64.comp UsageMode.number_injective same
  obtain ⟨currentTargetId, same⟩ := delimited_keyU64.comp (fun _ _ => UInt32.toNat.inj) same
  obtain ⟨buildInterface, same⟩ := delimited_keyU64.comp boolNumber_injective same
  obtain ⟨buildLocalInterface, same⟩ := delimited_keyU64.comp boolNumber_injective same
  obtain ⟨installInterface, same⟩ := delimited_keyU64.comp boolNumber_injective same
  obtain ⟨config, same⟩ := delimited_keySv same
  obtain ⟨platformId, same⟩ := delimited_keySv same
  obtain ⟨compileLanguage, same⟩ := delimited_keySv same
  obtain ⟨installPrefix, rests⟩ := delimited_keySv same
  refine ⟨?_, rests⟩
  cases left
  cases right
  simp only [QueryEvalContext.mk.injEq]
  exact ⟨config, platformId, compileLanguage, installPrefix, currentTargetId, usageMode,
    buildInterface, buildLocalInterface, installInterface⟩

variable {start : StringView} {id' : UInt32} {ctx' : QueryEvalContext}

/-- A key with a selector determines its target, its selector and its context. -/
theorem selected_key_inj {σ : Type} {number : σ → Nat} (injective : Function.Injective number)
    {selector selector' : σ}
    (same : start ++ (keyU64 id.toNat ++ (keyU64 (number selector) ++ keyContext ctx)) = start ++
      (keyU64 id'.toNat ++ (keyU64 (number selector') ++ keyContext ctx'))) :
    id = id' ∧ selector = selector' ∧ ctx = ctx' := by
  obtain ⟨ids, later⟩ := delimited_keyU64 (append_cancel_left same)
  obtain ⟨selectors, contexts⟩ := delimited_keyU64 later
  exact ⟨UInt32.toNat.inj ids, injective selectors, delimited_keyContext.injective contexts⟩

/-- A key without a selector determines its target and its context. -/
theorem plain_key_inj
    (same : start ++ (keyU64 id.toNat ++ keyContext ctx) = start ++ (keyU64 id'.toNat ++
      keyContext ctx')) : id = id' ∧ ctx = ctx' := by
  obtain ⟨ids, contexts⟩ := delimited_keyU64 (append_cancel_left same)
  exact ⟨UInt32.toNat.inj ids, delimited_keyContext.injective contexts⟩

/-- In one table, the text of a key determines the request. -/
theorem Request.keyText_injective (slot : CacheSlot) :
    Function.Injective (Request.keyText : Request slot → StringView) := by
  rintro ⟨id, selector, ctx⟩ ⟨id', selector', ctx'⟩ same
  cases slot with
  | effectiveItem =>
    obtain ⟨rfl, rfl, rfl⟩ := selected_key_inj EffectiveKind.number_injective same
    rfl
  | effectiveLinkItem =>
    obtain ⟨rfl, -, rfl⟩ := selected_key_inj EffectiveKind.number_injective same
    rfl
  | effectiveValue =>
    obtain ⟨rfl, rfl, rfl⟩ := selected_key_inj EffectiveKind.number_injective same
    rfl
  | targetFile =>
    obtain ⟨rfl, rfl, rfl⟩ := selected_key_inj boolNumber_injective same
    rfl
  | targetArtifact =>
    obtain ⟨rfl, rfl, rfl⟩ := selected_key_inj ArtifactRole.number_injective same
    rfl
  | importedLinkLang =>
    obtain ⟨rfl, rfl⟩ := plain_key_inj same
    rfl
  | effectiveLinkLang =>
    obtain ⟨rfl, rfl⟩ := plain_key_inj same
    rfl

/-! ## Texts without NUL -/

/-- The texts of a context hold no NUL. -/
structure QueryEvalContext.NulFree (ctx : QueryEvalContext) : Prop where
  config : '\x00' ∉ ctx.config
  platformId : '\x00' ∉ ctx.platformId
  compileLanguage : '\x00' ∉ ctx.compileLanguage
  installPrefix : '\x00' ∉ ctx.installPrefix

/-- No number holds a NUL. -/
theorem nul_notMem_keyU64 (value : Nat) : '\x00' ∉ keyU64 value := by
  have digits : '\x00' ∉ Nat.toDigits 10 value := Lib.notMem_toDigits (by decide) value
  simp [keyU64, digits]

/-- A text without NUL is written without NUL. -/
theorem nul_notMem_keySv {value : StringView} (free : '\x00' ∉ value) : '\x00' ∉ keySv value := by
  have digits : '\x00' ∉ Nat.toDigits 10 value.length := Lib.notMem_toDigits (by decide) _
  simp [keySv, digits, free]

/-- A context without NUL is written without NUL. -/
theorem nul_notMem_keyContext (free : ctx.NulFree) : '\x00' ∉ keyContext ctx := by
  simp only [keyContext, mem_append, nul_notMem_keyU64, nul_notMem_keySv free.config,
    nul_notMem_keySv free.platformId, nul_notMem_keySv free.compileLanguage,
    nul_notMem_keySv free.installPrefix, or_self, not_false_eq_true]

/-- The key of a request without NUL is its whole text. -/
theorem Request.key_eq_keyText {request : Request slot} (free : request.ctx.NulFree) :
    request.key = request.keyText := by
  have context := nul_notMem_keyContext free
  have whole : '\x00' ∉ request.keyText := by
    obtain ⟨id, selector, ctx⟩ := request
    cases slot <;>
      simp [Request.keyText, buildEffectiveKey, buildTargetFileKey, buildTargetArtifactKey,
        buildImportedLangKey, buildEffectiveLinkLangKey, nul_notMem_keyU64, context, sv]
  refine takeWhile_eq_self_iff.mpr fun char member => ?_
  have other : char ≠ '\x00' := fun same => whole (same ▸ member)
  simpa using other

/-- Requests without NUL that share a key in one table are the same request. -/
theorem Request.eq_of_key_eq {request other : Request slot} (free : request.ctx.NulFree)
    (free' : other.ctx.NulFree) (same : request.key = other.key) : request = other := by
  rw [Request.key_eq_keyText free, Request.key_eq_keyText free'] at same
  exact Request.keyText_injective slot same

/-! ## Sessions answer like the queries -/

/-- The context of a call, when there is one, holds no NUL. -/
def SessionQuery.NulFree (query : SessionQuery) : Prop := ∀ ctx ∈ query.ctx, ctx.NulFree

/-- Normalizing the context of an effective query adds no text. -/
theorem normalizeEffectiveCtx_nulFree {ctx : Option QueryEvalContext}
    (free : ∀ given ∈ ctx, given.NulFree) (id : UInt32) (usageMode : UsageMode) :
    (normalizeEffectiveCtx id usageMode ctx).NulFree := by
  cases ctx with
  | none => exact ⟨not_mem_nil, not_mem_nil, not_mem_nil, not_mem_nil⟩
  | some given =>
    have clean := free given rfl
    unfold normalizeEffectiveCtx
    simp only
    split
    · exact ⟨clean.config, clean.platformId, clean.compileLanguage, clean.installPrefix⟩
    · exact clean

/-- Normalizing the context of any other query adds no text. -/
theorem normalizeGenericCtx_nulFree {ctx : Option QueryEvalContext}
    (free : ∀ given ∈ ctx, given.NulFree) : (normalizeGenericCtx ctx).NulFree := by
  cases ctx with
  | none => exact ⟨not_mem_nil, not_mem_nil, not_mem_nil, not_mem_nil⟩
  | some given => exact free given rfl

/-- A normalized call without NUL. -/
theorem SessionQuery.NulFree.normalized {query : SessionQuery} (free : query.NulFree) :
    query.normalized.ctx.NulFree := by
  obtain ⟨slot, selector, id, ctx⟩ := query
  cases slot with
  | effectiveItem => exact normalizeEffectiveCtx_nulFree free _ _
  | effectiveLinkItem => exact normalizeEffectiveCtx_nulFree free _ _
  | effectiveValue => exact normalizeEffectiveCtx_nulFree free _ _
  | targetFile => exact normalizeGenericCtx_nulFree free
  | targetArtifact => exact normalizeGenericCtx_nulFree free
  | importedLinkLang => exact normalizeGenericCtx_nulFree free
  | effectiveLinkLang => exact normalizeEffectiveCtx_nulFree free _ _

/-- A context whose current target is valid, or is the one asked about, stays as it is. -/
theorem normalizeEffectiveCtx_of_settled
    (settled : ctx.currentTargetId = invalidTargetWord → ctx.currentTargetId = id)
    (usageMode : UsageMode) : normalizeEffectiveCtx id usageMode (some ctx) = ctx := by
  unfold normalizeEffectiveCtx
  simp only
  split
  · rename_i invalid
    rw [← settled invalid]
  · rfl

/-- A normalized context has a valid current target, or the one asked about. -/
theorem normalizeEffectiveCtx_settled (id : UInt32) (usageMode : UsageMode)
    (ctx : Option QueryEvalContext)
    (invalid : (normalizeEffectiveCtx id usageMode ctx).currentTargetId = invalidTargetWord) :
    (normalizeEffectiveCtx id usageMode ctx).currentTargetId = id := by
  cases ctx with
  | none => rfl
  | some given =>
    by_cases missing : given.currentTargetId = invalidTargetWord
    · simp [normalizeEffectiveCtx, missing]
    · simp [normalizeEffectiveCtx, missing] at invalid

namespace Session

variable (host : HostPlatform) (genexEval : GenexEval) (model : Model)

/-- Requests whose texts hold no NUL. -/
abbrev CleanRequest (slot : CacheSlot) := { request : Request slot // request.ctx.NulFree }

/-- Every entry holds the answer of each request with its key. -/
def Sound (session : Session) : Prop :=
  ∀ slot, (session.caches slot).Answers (fun request : CleanRequest slot => request.1.key)
    fun request => uncached host genexEval model request.1

/-- A new session holds no answers. -/
theorem create_sound : Sound host genexEval model create := fun _ => Table.Answers.empty _ _

/-- A step answers as the query does, keeps the tables true, and changes no entry. -/
structure Faithful {slot : CacheSlot} (request : Request slot)
    (step : Session → Option slot.Value × Session) : Prop where
  answer : ∀ session, Sound host genexEval model session →
    (step session).1 = uncached host genexEval model request
  sound : ∀ session, Sound host genexEval model session →
    Sound host genexEval model (step session).2
  keeps : ∀ (session : Session) (other : CacheSlot),
    (session.caches other).Keeps ((step session).2.caches other)

variable {host genexEval model}

/-- Counting a hit writes no table. -/
@[simp] theorem countHit_caches (session : Session) (slot : CacheSlot) (countStats : Bool) :
    (session.countHit slot countStats).caches = session.caches := by
  unfold countHit
  split <;> rfl

/-- Counting a miss writes no table. -/
@[simp] theorem countMiss_caches (session : Session) (slot : CacheSlot) (countStats : Bool) :
    (session.countMiss slot countStats).caches = session.caches := by
  unfold countMiss
  split <;> rfl

/-- A write changes its own table. -/
@[simp] theorem put_caches_self (session : Session) (slot : CacheSlot) (key : StringView)
    (value : slot.Value) :
    (session.put slot key value).caches slot = (session.caches slot).put key value :=
  Function.update_self _ _ _

/-- A write changes no other table. -/
theorem put_caches_of_ne (session : Session) (different : other ≠ slot) (key : StringView)
    (value : slot.Value) : (session.put slot key value).caches other = session.caches other :=
  Function.update_of_ne different _ _

/-- Sessions with the same tables are sound together. -/
theorem Sound.of_caches {other : Session} (sound : Sound host genexEval model session)
    (same : other.caches = session.caches) : Sound host genexEval model other := by
  intro slot
  rw [same]
  exact sound slot

/-- Writing the answer to a clean request keeps the tables true. -/
theorem Sound.put (sound : Sound host genexEval model session) {request : Request slot}
    (free : request.ctx.NulFree) {value : slot.Value}
    (answered : uncached host genexEval model request = some value) :
    Sound host genexEval model (session.put slot request.key value) := by
  intro other
  by_cases same : other = slot
  · subst same
    rw [put_caches_self]
    refine Table.Answers.put (sound other) ⟨request, free⟩ ?_ answered
    intro ⟨clash, clean⟩ shared
    obtain rfl := Request.eq_of_key_eq clean free shared
    rfl
  · rw [put_caches_of_ne session same]
    exact sound other

/-- A cached query answers as the query does, when what it computes on a miss does and leaves
its own table alone. -/
theorem cached_faithful {request : Request slot} (free : request.ctx.NulFree) (countStats : Bool)
    {compute : Session → Option slot.Value × Session}
    (computes : Faithful host genexEval model request compute)
    (apart : ∀ session, (compute session).2.caches slot = session.caches slot) :
    Faithful host genexEval model request (cached request countStats compute) := by
  refine ⟨?_, ?_, ?_⟩
  · intro session sound
    have missed := sound.of_caches (countMiss_caches session slot countStats)
    unfold cached
    cases found : (session.caches slot).get? request.key with
    | some value => exact (sound slot ⟨request, free⟩ value found).symm
    | none =>
      simp only
      rw [computes.answer _ missed]
      cases uncached host genexEval model request with
      | none => rfl
      | some value => simp [Table.get?_put]
  · intro session sound
    have missed := sound.of_caches (countMiss_caches session slot countStats)
    unfold cached
    cases (session.caches slot).get? request.key with
    | some value => exact sound.of_caches (countHit_caches session slot countStats)
    | none =>
      simp only
      rw [computes.answer _ missed]
      have after := computes.sound _ missed
      cases answered : uncached host genexEval model request with
      | none => exact after
      | some value => exact after.put free answered
  · intro session other
    unfold cached
    cases found : (session.caches slot).get? request.key with
    | some value =>
      simp only [countHit_caches]
      exact Table.Keeps.refl _
    | none =>
      simp only
      have kept := computes.keeps (session.countMiss slot countStats) other
      rw [countMiss_caches] at kept
      cases (compute (session.countMiss slot countStats)).1 with
      | none => exact kept
      | some value =>
        refine kept.trans ?_
        by_cases same : other = slot
        · subst same
          simp only [put_caches_self]
          refine Table.Keeps.put ?_ value
          rw [apart, countMiss_caches, found]
        · simp only [put_caches_of_ne _ same]
          exact Table.Keeps.refl _

/-- A computation that does not use the session. -/
theorem direct_faithful (request : Request slot) :
    Faithful host genexEval model request (direct host genexEval model request) :=
  ⟨fun _ _ => rfl, fun _ sound => sound, fun _ _ => Table.Keeps.refl _⟩

/-- A cached query that computes its answer without the session. -/
theorem cached_direct_faithful {request : Request slot} (free : request.ctx.NulFree)
    (countStats : Bool) :
    Faithful host genexEval model request
      (cached request countStats (direct host genexEval model request)) :=
  cached_faithful free countStats (direct_faithful request) fun _ => rfl

/-- A cached query that computes without the session writes only its own table. -/
theorem cached_direct_caches (different : other ≠ slot) (request : Request slot) (countStats : Bool)
    (session : Session) :
    (cached request countStats (direct host genexEval model request) session).2.caches other =
      session.caches other := by
  unfold cached direct
  cases (session.caches slot).get? request.key with
  | some value => simp
  | none =>
    simp only
    cases uncached host genexEval model request with
    | none => simp
    | some value => simp [put_caches_of_ne _ different]

/-- A query whose answer is read off the answer of another one. -/
theorem Faithful.map {request : Request slot} {target : Request other}
    {step : Session → Option slot.Value × Session}
    (faithful : Faithful host genexEval model request step) (project : slot.Value → other.Value)
    (maps : uncached host genexEval model target =
      (uncached host genexEval model request).map project) :
    Faithful host genexEval model target
      fun session => ((step session).1.map project, (step session).2) where
  answer session sound := by rw [faithful.answer session sound, maps]
  sound := faithful.sound
  keeps := faithful.keeps

/-- The values computed on a miss are those of the query. -/
theorem computeValues_faithful {kind : EffectiveKind} (free : ctx.NulFree)
    (settled : ctx.currentTargetId = invalidTargetWord → ctx.currentTargetId = id) :
    Faithful host genexEval model (⟨id, kind, ctx⟩ : Request .effectiveValue)
      (computeValues host genexEval model id kind ctx) := by
  by_cases link : kind = .linkLibraries
  · have items : Faithful host genexEval model (⟨id, (), ctx⟩ : Request .effectiveLinkItem)
        (effectiveLinkItemsCached host genexEval model id (some ctx) false) := by
      unfold effectiveLinkItemsCached
      rw [normalizeEffectiveCtx_of_settled settled]
      exact cached_direct_faithful free false
    have step : computeValues host genexEval model id kind ctx = _ :=
      funext fun session => if_pos link
    rw [step]
    refine items.map _ ?_
    simp only [uncached, targetEffectiveValues, if_pos link]
    cases targetOfWord id with
    | none => rfl
    | some target => rfl
  · have items : Faithful host genexEval model (⟨id, kind, ctx⟩ : Request .effectiveItem)
        (effectiveItemsCached host genexEval model id (some ctx) kind false) := by
      unfold effectiveItemsCached
      rw [normalizeEffectiveCtx_of_settled settled]
      exact cached_direct_faithful free false
    have step : computeValues host genexEval model id kind ctx = _ :=
      funext fun session => if_neg link
    rw [step]
    refine items.map _ ?_
    simp only [uncached, targetEffectiveValues, if_neg link]
    cases targetOfWord id with
    | none => rfl
    | some target => rfl

/-- Computing values leaves the table of values alone. -/
theorem computeValues_caches (id : UInt32) (kind : EffectiveKind) (ctx : QueryEvalContext)
    (session : Session) :
    (computeValues host genexEval model id kind ctx session).2.caches .effectiveValue =
      session.caches .effectiveValue := by
  unfold computeValues
  split
  · exact cached_direct_caches (by decide) _ _ _
  · exact cached_direct_caches (by decide) _ _ _

/-- Every public function answers as its query does. -/
theorem query_faithful {query : SessionQuery} (free : query.NulFree) :
    Faithful host genexEval model query.normalized (Session.query host genexEval model query) := by
  have clean := free.normalized
  obtain ⟨slot, selector, id, ctx⟩ := query
  cases slot with
  | effectiveItem => exact cached_direct_faithful clean true
  | effectiveLinkItem => exact cached_direct_faithful clean true
  | effectiveValue =>
    exact cached_faithful clean true
      (computeValues_faithful clean (normalizeEffectiveCtx_settled _ _ _))
      (computeValues_caches _ _ _)
  | targetFile => exact cached_direct_faithful clean true
  | targetArtifact => exact cached_direct_faithful clean true
  | importedLinkLang => exact cached_direct_faithful clean true
  | effectiveLinkLang => exact cached_direct_faithful clean true

/-- A run answers every call as its query does, and leaves the tables true. -/
theorem run_sound {queries : List SessionQuery} (free : ∀ query ∈ queries, query.NulFree)
    (sound : Sound host genexEval model session) :
    (run host genexEval model queries session).1 = queries.map (fun query =>
      (uncached host genexEval model query.normalized).map (Sigma.mk query.slot)) ∧
    Sound host genexEval model (run host genexEval model queries session).2 := by
  induction queries generalizing session with
  | nil => exact ⟨rfl, sound⟩
  | cons query rest ih =>
    have faithful : Faithful host genexEval model query.normalized
        (Session.query host genexEval model query) :=
      query_faithful (free query mem_cons_self)
    obtain ⟨answers, later⟩ := ih (fun other member => free other (mem_cons_of_mem _ member))
      (faithful.sound session sound)
    refine ⟨?_, later⟩
    rw [map_cons, ← answers, ← faithful.answer session sound]
    rfl

/-- A run changes no entry. -/
theorem run_keeps {queries : List SessionQuery} (free : ∀ query ∈ queries, query.NulFree)
    (session : Session) (slot : CacheSlot) :
    (session.caches slot).Keeps ((run host genexEval model queries session).2.caches slot) := by
  induction queries generalizing session with
  | nil => exact Table.Keeps.refl _
  | cons query rest ih =>
    have faithful : Faithful host genexEval model query.normalized
        (Session.query host genexEval model query) :=
      query_faithful (free query mem_cons_self)
    exact (faithful.keeps session slot).trans
      (ih (fun other member => free other (mem_cons_of_mem _ member)) _)

/-- A sequence of calls can be cut in two. -/
theorem run_append (earlier later : List SessionQuery) (session : Session) :
    (run host genexEval model (earlier ++ later) session).2 =
      (run host genexEval model later (run host genexEval model earlier session).2).2 := by
  induction earlier generalizing session with
  | nil => rfl
  | cons query rest ih => exact ih _

end Session

/-- In every sequence of calls of a session whose contexts hold no NUL, each answer is the one of
the query in its normalized context; two requests that share an entry of a table are the same
request; and an entry that stands after some of the calls stands unchanged after all of them. -/
theorem session_answers_as_queries (host : HostPlatform) (genexEval : GenexEval) (model : Model)
    (queries : List SessionQuery) (free : ∀ query ∈ queries, query.NulFree) :
    (Session.run host genexEval model queries Session.create).1 = queries.map (fun query =>
      (uncached host genexEval model query.normalized).map (Sigma.mk query.slot)) ∧
    (∀ (slot : CacheSlot) (request other : Request slot), request.ctx.NulFree →
      other.ctx.NulFree → request.key = other.key → request = other) ∧
    (∀ earlier later, queries = earlier ++ later → ∀ (slot : CacheSlot) key value,
      ((Session.run host genexEval model earlier Session.create).2.caches slot).get? key =
        some value →
      ((Session.run host genexEval model queries Session.create).2.caches slot).get? key =
        some value) := by
  refine ⟨?_, ?_, ?_⟩
  · exact (Session.run_sound free (Session.create_sound host genexEval model)).1
  · intro slot request other clean clean' same
    exact Request.eq_of_key_eq clean clean' same
  · intro earlier later split slot key value found
    subst split
    rw [Session.run_append]
    exact Session.run_keeps (fun query member => free query (mem_append_right _ member)) _
      slot key value found

/-- An executable whose name depends on the configuration. -/
def namedByConfig : Model where
  directories := [{ sourceDir := sv "/src", binaryDir := sv "/out" }]
  targets := [{
    name := sv "app"
    ownerDirectoryId := some 0
    kind := .executable
    artifactProperties := [⟨sv "OUTPUT_NAME_DEBUG", sv "appd"⟩] }]

/-- A call for the executable in a configuration. -/
def executableIn (config : StringView) : SessionQuery :=
  ⟨.targetFile, false, 0, some { config }⟩

/-- Asked for two configurations in turn, a session gives each its own file. -/
theorem session_answers_as_queries_configs :
    (∀ query ∈ [executableIn (sv "Debug"), executableIn (sv "Release"),
      executableIn (sv "Debug")], query.NulFree) ∧
    (Session.run {} plainGenexEval namedByConfig [executableIn (sv "Debug"),
      executableIn (sv "Release"), executableIn (sv "Debug")] Session.create).1 =
      [some ⟨.targetFile, sv "/out/appd"⟩, some ⟨.targetFile, sv "/out/app"⟩,
        some ⟨.targetFile, sv "/out/appd"⟩] := by
  have free : ∀ query ∈ [executableIn (sv "Debug"), executableIn (sv "Release"),
      executableIn (sv "Debug")], query.NulFree := by
    intro query member ctx given
    simp only [mem_cons, not_mem_nil, or_false] at member
    rcases member with rfl | rfl | rfl <;>
      exact (Option.some.inj given) ▸ ⟨by decide, by decide, by decide, by decide⟩
  refine ⟨free, ?_⟩
  rw [(session_answers_as_queries {} plainGenexEval namedByConfig _ free).1]
  rfl

end Nobify.BuildModel
