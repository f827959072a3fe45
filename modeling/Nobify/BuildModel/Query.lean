import Nobify.BuildModel.Types
import Nobify.BuildModel.Path
import Nobify.Genex.Parse

/-!
# Evaluating items in a query context

Item lists are evaluated before they are used: items whose conditions do not match the context
are dropped, a reference to a target property of the same family is replaced by the items of
that target, and every other item is resolved by the generator-expression evaluator and split
at its semicolons.

The evaluator itself is a parameter: `genexEval model ctx raw` is the value of `genex_eval` on a
non-empty text, or `none` when its status is not `GENEX_OK`. Every result holds for all such
functions.
-/

namespace Nobify.BuildModel

/-- `BM_Effective_Query_Kind`. -/
inductive EffectiveKind where
  | includeDirectories
  | compileDefinitions
  | compileOptions
  | compileFeatures
  | linkLibraries
  | linkOptions
  | linkDirectories
  deriving DecidableEq

/-- The evaluator of generator expressions in a model and a context. -/
abbrev GenexEval := Model → QueryContext → StringView → Option StringView

/-- Texts without generator expressions stand for themselves. -/
def plainGenexEval : GenexEval := fun _ _ raw => some raw

/-- `bm_sv_eq_ci_query`. -/
def svEqCiQuery (lhs rhs : StringView) : Bool := lhs.map Char.toLower == rhs.map Char.toLower

/-- `bm_find_target_by_name_id`. -/
def findTargetByNameId (model : Model) (name : StringView) : Option TargetId :=
  (model.targetNameIndex.find? (·.1 = name)).map (·.2)

/-- The loop of `bm_resolve_alias_target_id`. -/
def resolveAliasGo (model : Model) : Nat → TargetId → Option TargetId
  | 0, _ => none
  | remaining + 1, current =>
    match model.targets[current]? with
    | none => none
    | some target =>
      if target.isAlias then target.aliasOfId.bind (resolveAliasGo model remaining)
      else some current

/-- `bm_resolve_alias_target_id`. -/
def resolveAliasTargetId (model : Model) (id : Option TargetId) : Option TargetId :=
  id.bind (resolveAliasGo model model.targets.length)

/-- `bm_query_target_id_by_name_resolved`. -/
def targetIdByNameResolved (model : Model) (name : StringView) : Option TargetId :=
  resolveAliasTargetId model (findTargetByNameId model name)

/-! ## Conditions of items -/

/-- `bm_query_sv_in_ci_list`. -/
def svInCiList (items : List StringView) (needle : StringView) : Bool :=
  !(svTrim needle).isEmpty && items.any fun item => svEqCiQuery (svTrim item) (svTrim needle)

/-- The switch of `bm_query_semantic_matches_context` on the configuration filter. -/
def configMatches (semantic : LinkItemMetadata) (config : StringView) : Bool :=
  let isDebug := svEqCiQuery (svTrim config) (sv "Debug")
  match semantic.configFilter with
  | .all => true
  | .debugOnly => isDebug
  | .nondebugOnly => !isDebug
  | .matchList => svInCiList semantic.configurations config

/-- `bm_query_semantic_matches_context`. -/
def semanticMatchesContext (semantic : LinkItemMetadata) (ctx : QueryContext) : Bool :=
  !(semantic.interfaceFilter = .build && !ctx.buildInterfaceActive) &&
  !(semantic.interfaceFilter = .install && !ctx.installInterfaceActive) &&
  !(semantic.linkOnly && ctx.usageMode ≠ .link) &&
  configMatches semantic ctx.config &&
  (semantic.compileLanguages.isEmpty || svInCiList semantic.compileLanguages ctx.compileLanguage) &&
  (semantic.platformIds.isEmpty || svInCiList semantic.platformIds ctx.platformId)

/-! ## Splitting -/

/-- The pieces that `bm_append_split_values` and `bm_append_split_link_values` append. -/
def splitValues (value : StringView) : List StringView :=
  if value = [] then []
  else ((splitTopLevel ';' value).map svTrim).filter (· ≠ [])

/-! ## Properties of the same family -/

/-- `bm_query_property_effective_kind`. -/
def propertyEffectiveKind (propertyName : StringView) : Option EffectiveKind :=
  let named := fun (name : String) => svEqCiQuery propertyName (sv name)
  if named "INCLUDE_DIRECTORIES" || named "INTERFACE_INCLUDE_DIRECTORIES" ||
      named "INTERFACE_SYSTEM_INCLUDE_DIRECTORIES" then some .includeDirectories
  else if named "COMPILE_DEFINITIONS" || named "INTERFACE_COMPILE_DEFINITIONS" then
    some .compileDefinitions
  else if named "COMPILE_OPTIONS" || named "INTERFACE_COMPILE_OPTIONS" then some .compileOptions
  else if named "COMPILE_FEATURES" || named "INTERFACE_COMPILE_FEATURES" then some .compileFeatures
  else if named "LINK_LIBRARIES" || named "INTERFACE_LINK_LIBRARIES" then some .linkLibraries
  else if named "LINK_OPTIONS" || named "INTERFACE_LINK_OPTIONS" then some .linkOptions
  else if named "LINK_DIRECTORIES" || named "INTERFACE_LINK_DIRECTORIES" then some .linkDirectories
  else none

/-- The visibilities and the flag that `bm_query_same_family_property_spec` asks for. -/
structure PropertySpec where
  minVisibility : Visibility
  maxVisibility : Visibility
  requireSystem : Bool

/-- `bm_query_same_family_property_spec`. -/
def sameFamilyPropertySpec (propertyName : StringView) (currentKind : EffectiveKind) :
    Option PropertySpec :=
  if propertyEffectiveKind propertyName = some currentKind then
    some {
      minVisibility :=
        if (sv "INTERFACE_").isPrefixOf propertyName then .publicItem else .privateItem
      maxVisibility :=
        if (sv "INTERFACE_").isPrefixOf propertyName then .interfaceItem else .publicItem
      requireSystem := currentKind = .includeDirectories &&
        svEqCiQuery propertyName (sv "INTERFACE_SYSTEM_INCLUDE_DIRECTORIES") }
  else none

/-- The items that a property reference selects. -/
def PropertySpec.selects (spec : PropertySpec) (item : StringItem) : Bool :=
  spec.minVisibility.rank ≤ item.visibility.rank &&
    item.visibility.rank ≤ spec.maxVisibility.rank && (!spec.requireSystem || item.system)

/-- `bm_query_semantic_target_id`. -/
def semanticTargetId (model : Model) (ownerTargetId : TargetId) (ctx : QueryContext)
    (semantic : LinkItemMetadata) : Option TargetId :=
  match semantic.kind with
  | .targetPropertyImplicit =>
    resolveAliasTargetId model (some (ctx.currentTargetId.getD ownerTargetId))
  | .targetPropertyExplicit => resolveAliasTargetId model (findTargetByNameId model semantic.targetName)
  | _ => none

/-- `BM_Query_Target_Property_Frame`. -/
structure PropertyFrame where
  targetId : TargetId
  kind : EffectiveKind
  propertyName : StringView

/-- `bm_query_target_property_stack_contains`. -/
def propertyStackContains (stack : List PropertyFrame) (targetId : TargetId) (kind : EffectiveKind)
    (propertyName : StringView) : Bool :=
  stack.any fun frame =>
    frame.targetId = targetId && frame.kind = kind && svEqCiQuery frame.propertyName propertyName

/-- The capacity of `BM_Query_Target_Property_Stack`. -/
def propertyStackCapacity : Nat := 64

/-! ## Item spans -/

section Evaluation

variable (genexEval : GenexEval) (model : Model) (ctx : QueryContext)

/-- `bm_query_resolve_string_with_context`. -/
def resolveString (raw : StringView) : Option StringView :=
  if raw = [] then some [] else genexEval model ctx raw

/-- `bm_query_resolve_item_value`. -/
def resolveItemValue (fallback : StringView) (semantic : LinkItemMetadata) : Option StringView :=
  resolveString genexEval model ctx (if semantic.value ≠ [] then semantic.value else fallback)

/-- What the evaluation of string items and of link items differ in: the query kind, the list
of a target that a property reference selects from, and the copy of an item that is appended
for one piece of its value. -/
structure ItemFamily (ι : Type) where
  kind : EffectiveKind
  view : ι → StringItem
  source : TargetRecord → List ι
  piece : ι → StringView → ι

/-- One round of the loop of `bm_eval_item_span_impl` and `bm_eval_link_item_span_impl`, with the
expansion of property references given. -/
def evalItem {ι : Type} (family : ItemFamily ι)
    (expand : LinkItemMetadata → Option (List ι)) (item : ι) : Option (List ι) :=
  let view := family.view item
  if !semanticMatchesContext view.semantic ctx then some []
  else if (view.semantic.kind = .targetPropertyImplicit ∨
      view.semantic.kind = .targetPropertyExplicit) ∧
      propertyEffectiveKind view.semantic.propertyName = some family.kind then
    expand view.semantic
  else (resolveItemValue genexEval model ctx view.value view.semantic).map fun resolved =>
    (splitValues resolved).map (family.piece item)

/-- The loop over a span. -/
def evalItems {ι : Type} (family : ItemFamily ι)
    (expand : LinkItemMetadata → Option (List ι)) (items : List ι) : Option (List ι) :=
  (items.mapM (evalItem genexEval model ctx family expand)).map List.flatten

/-- `bm_query_expand_same_family_string_property` and
`bm_query_expand_same_family_link_property`, with the room left on the property stack. -/
def expandSameFamilyProperty {ι : Type} (family : ItemFamily ι) :
    Nat → List PropertyFrame → TargetId → LinkItemMetadata → Option (List ι)
  | room, stack, ownerTargetId, semantic =>
    (sameFamilyPropertySpec semantic.propertyName family.kind).bind fun spec =>
      match semanticTargetId model ownerTargetId ctx semantic with
      | none => some []
      | some targetId =>
        if propertyStackContains stack targetId family.kind semantic.propertyName then none
        else
          match room with
          | 0 => none
          | room + 1 =>
            let frame := ⟨targetId, family.kind, semantic.propertyName⟩
            let source := (model.targets[targetId]?).elim [] family.source
            evalItems genexEval model ctx family
              (expandSameFamilyProperty family room (frame :: stack) targetId)
              (source.filter fun item => spec.selects (family.view item))

/-- `bm_eval_item_span` and `bm_eval_link_item_span`. -/
def evalSpan {ι : Type} (family : ItemFamily ι) (ownerTargetId : TargetId) (items : List ι) :
    Option (List ι) :=
  evalItems genexEval model ctx family
    (expandSameFamilyProperty genexEval model ctx family propertyStackCapacity [] ownerTargetId)
    items

end Evaluation

/-- `bm_query_target_string_items_for_kind`. -/
def stringItemsForKind (kind : EffectiveKind) (target : TargetRecord) : List StringItem :=
  match kind with
  | .includeDirectories => target.includeDirectories
  | .compileDefinitions => target.compileDefinitions
  | .compileOptions => target.compileOptions
  | .compileFeatures => target.compileFeatures
  | .linkOptions => target.linkOptions
  | .linkDirectories => target.linkDirectories
  | .linkLibraries => []

/-- String items of one kind. -/
def stringFamily (kind : EffectiveKind) : ItemFamily StringItem where
  kind
  view := id
  source := stringItemsForKind kind
  piece item value := { item with value }

/-- The target of an evaluated link item: what freeze resolved, or else the target of that name
for an item that names one. -/
def linkItemTarget (model : Model) (item : LinkItem) : Option TargetId :=
  if item.semantic.kind = .targetRef ∧ item.targetId = none ∧ item.semantic.targetName ≠ [] then
    targetIdByNameResolved model item.semantic.targetName
  else item.targetId

/-- Link items. -/
def linkFamily (model : Model) : ItemFamily LinkItem where
  kind := .linkLibraries
  view := LinkItem.toStringItem
  source := TargetRecord.linkLibraries
  piece item value := { item with value, targetId := linkItemTarget model item }

/-- `bm_eval_item_span`. -/
def evalItemSpan (genexEval : GenexEval) (model : Model) (ctx : QueryContext)
    (ownerTargetId : TargetId) (kind : EffectiveKind) (items : List StringItem) :
    Option (List StringItem) :=
  evalSpan genexEval model ctx (stringFamily kind) ownerTargetId items

/-- `bm_eval_link_item_span`. -/
def evalLinkItemSpan (genexEval : GenexEval) (model : Model) (ctx : QueryContext)
    (ownerTargetId : TargetId) (items : List LinkItem) : Option (List LinkItem) :=
  evalSpan genexEval model ctx (linkFamily model) ownerTargetId items

end Nobify.BuildModel
