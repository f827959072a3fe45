import Nobify.BuildModel.Query
import Nobify.Lib.Walk

/-!
# Effective items of a target

An effective query starts from the items of the global state, of the directories from the top
down to the target's own, and of the target itself. It then walks the link graph from the
target's evaluated link items, with one visited array, and adds the items of each dependency
that are not private. The whole list is evaluated in the target's context and reduced to the
first item of each key.
-/

namespace Nobify.BuildModel

/-! ## Collecting -/

/-- `bm_collect_items` and `bm_collect_link_items`. -/
def collectItems {ι : Type} (view : ι → StringItem) (items : List ι) (publicOnly : Bool) : List ι :=
  items.filter fun item => !(publicOnly && (view item).visibility = .privateItem)

/-- The switches of `bm_collect_global_effective_items` and `bm_collect_directory_chain_items`. -/
def usageItemsForKind (kind : EffectiveKind) (items : UsageItems) : List StringItem :=
  match kind with
  | .includeDirectories => items.includeDirectories ++ items.systemIncludeDirectories
  | .compileDefinitions => items.compileDefinitions
  | .compileOptions => items.compileOptions
  | .compileFeatures => []
  | .linkLibraries => []
  | .linkOptions => items.linkOptions
  | .linkDirectories => items.linkDirectories

/-- The first loop of `bm_collect_directory_chain_items`: a directory and its parents, innermost
first. Parents come before their children, so the number of directories bounds the chain. -/
def directoryChainGo (model : Model) : Nat → Option DirectoryId → List DirectoryRecord
  | 0, _ => []
  | _ + 1, none => []
  | remaining + 1, some current =>
    match model.directories[current]? with
    | none => []
    | some directory => directory :: directoryChainGo model remaining directory.parentId

/-- The directories from the top down to the given one. -/
def directoryChain (model : Model) (ownerDirectoryId : Option DirectoryId) : List DirectoryRecord :=
  (directoryChainGo model model.directories.length ownerDirectoryId).reverse

/-- `bm_collect_global_effective_items` and `bm_collect_directory_chain_items`. -/
def ambientItems (model : Model) (kind : EffectiveKind) (target : TargetRecord) : List StringItem :=
  usageItemsForKind kind model.globalProperties ++
    (directoryChain model target.ownerDirectoryId).flatMap fun directory =>
      usageItemsForKind kind directory.toUsageItems

/-- `bm_collect_global_effective_link_items` and `bm_collect_directory_chain_link_items`. -/
def ambientLinkItems (model : Model) (target : TargetRecord) : List LinkItem :=
  model.globalProperties.linkLibraries ++
    (directoryChain model target.ownerDirectoryId).flatMap fun directory => directory.linkLibraries

/-- `bm_collect_target_items`. -/
def collectTargetItems (kind : EffectiveKind) (publicOnly : Bool) (target : TargetRecord) :
    List StringItem :=
  collectItems id (stringItemsForKind kind target) publicOnly

/-- `bm_collect_target_link_items`. -/
def collectTargetLinkItems (publicOnly : Bool) (target : TargetRecord) : List LinkItem :=
  collectItems LinkItem.toStringItem target.linkLibraries publicOnly

/-! ## The walk over link items -/

section Walks

variable (genexEval : GenexEval) (model : Model) (ctx : QueryContext)

/-- The dependencies of a target that a walk goes on to: the targets of its evaluated link
items, as in `bm_collect_dependency_usage_from_link_items`. -/
def linkEdges (id : TargetId) : Option (List TargetId) :=
  (model.targets[id]?).bind fun target =>
    (evalLinkItemSpan genexEval model ctx id target.linkLibraries).map fun evaluated =>
      evaluated.filterMap LinkItem.targetId

/-- What a walk collects at a target. -/
def collectAt {ι : Type} (collect : TargetRecord → List ι) (id : TargetId) : List ι :=
  (model.targets[id]?).elim [] collect

/-- `bm_collect_evaluated_root_link_library_seeds`. -/
def rootLinkLibrarySeeds (id : TargetId) (target : TargetRecord) : Option (List LinkItem) :=
  evalLinkItemSpan genexEval model ctx id
    (ambientLinkItems model target ++ collectTargetLinkItems false target)

/-- The walk of `bm_collect_dependency_interface` and `bm_collect_link_dependency_interface` from
the root's seeds, after the root was marked as visited. -/
def collectDependencies {ι : Type} (collect : TargetRecord → List ι) (id : TargetId)
    (seeds : List LinkItem) (rawItems : List ι) : Option (List ι) :=
  (Lib.walkFrom (linkEdges genexEval model ctx) (collectAt model collect) model.targets.length
    (seeds.filterMap LinkItem.targetId) ⟨[id], rawItems⟩).map Lib.Walk.out

end Walks

/-! ## Keys -/

/-- `bm_query_item_effective_path_key`. -/
def itemEffectivePathKey (item : StringItem) : StringView :=
  let value := svTrim item.value
  if value = [] then []
  else if !svIsAbsPathQuery value && item.filePath ≠ [] && dirnameSv item.filePath ≠ [] then
    normalizePath (joinRelativePathQuery (dirnameSv item.filePath) value)
  else normalizePath value

/-- `bm_query_effective_item_key`. -/
def effectiveItemKey (kind : EffectiveKind) (item : StringItem) : StringView :=
  let value := svTrim item.value
  match kind with
  | .includeDirectories => (if item.system then sv "S:" else sv "N:") ++ itemEffectivePathKey item
  | .linkDirectories =>
    match value with
    | '-' :: 'L' :: path => sv "-L" ++ itemEffectivePathKey { item with value := svTrim path }
    | _ => itemEffectivePathKey item
  | .compileFeatures => value.map Char.toLower
  | _ => value

/-- The loop of `bm_query_dedup_effective_items` and `bm_query_dedup_effective_link_items`. -/
def dedupByKey {ι : Type} (key : ι → StringView) : List StringView → List ι → List ι
  | _, [] => []
  | seenKeys, item :: rest =>
    if key item ∈ seenKeys then dedupByKey key seenKeys rest
    else item :: dedupByKey key (seenKeys ++ [key item]) rest

/-! ## Queries -/

section Queries

variable (genexEval : GenexEval) (model : Model) (ctx : QueryContext)

/-- The raw items of `bm_query_target_effective_items_common`. -/
def rawEffectiveItems (id : TargetId) (kind : EffectiveKind) : Option (List StringItem) :=
  (model.targets[id]?).bind fun target =>
    (rootLinkLibrarySeeds genexEval model ctx id target).bind fun seeds =>
      collectDependencies genexEval model ctx (collectTargetItems kind true) id seeds
        (ambientItems model kind target ++ collectTargetItems kind false target)

/-- `bm_query_target_effective_items_common`. -/
def targetEffectiveItems (id : TargetId) (kind : EffectiveKind) : Option (List StringItem) :=
  (rawEffectiveItems genexEval model ctx id kind).bind fun rawItems =>
    (evalItemSpan genexEval model ctx id kind rawItems).map (dedupByKey (effectiveItemKey kind) [])

/-- The raw items of `bm_query_target_effective_link_items_common`. -/
def rawEffectiveLinkItems (id : TargetId) : Option (List LinkItem) :=
  (model.targets[id]?).bind fun target =>
    (rootLinkLibrarySeeds genexEval model ctx id target).bind fun seeds =>
      collectDependencies genexEval model ctx (collectTargetLinkItems true) id seeds
        (ambientLinkItems model target ++ collectTargetLinkItems false target)

/-- `bm_query_target_effective_link_items_common`. -/
def targetEffectiveLinkItems (id : TargetId) : Option (List LinkItem) :=
  (rawEffectiveLinkItems genexEval model ctx id).bind fun rawItems =>
    (evalLinkItemSpan genexEval model ctx id rawItems).map
      (dedupByKey (fun item => effectiveItemKey .linkLibraries item.toStringItem) [])

end Queries

end Nobify.BuildModel
