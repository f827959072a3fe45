import Nobify.Evaluator.TargetUsage

/-!
# Usage requirements in the builder

The builder turns the events about one target into the item lists of its record. A list holds the
items of all visibilities; a property and its `INTERFACE_` form are two ranges of it. Setting a
property replaces the items of one visibility, without the system flag, and keeps the others.
-/

namespace Nobify.BuildModel

open Evaluator (CmakeVisibility UsageFamily UsageProperty PropertyOp ItemEntry PropSetEvent
  UsageEvent)

/-! ## Mutations -/

/-- `bm_visibility_from_event`. -/
def visibilityFromEvent : CmakeVisibility → Visibility
  | .publicItem => .publicItem
  | .interfaceItem => .interfaceItem
  | .privateItem => .privateItem
  | .unspecified => .privateItem

/-- `bm_apply_item_mutation` and `bm_apply_link_item_mutation`. -/
def applyItemMutation {ι : Type} (dest items : List ι) : PropertyOp → List ι
  | .set => items
  | .prependList => items ++ dest
  | .appendList => dest ++ items
  | .appendString => dest ++ items

/-- `bm_target_item_bucket_matches` and `bm_target_link_item_bucket_matches`. -/
def itemBucketMatches (item : StringItem) (visibility : Visibility) (system : Bool) : Bool :=
  item.visibility = visibility && item.system = system

/-- `bm_target_apply_promoted_item_mutation` and `bm_target_apply_promoted_link_item_mutation`. -/
def applyPromotedItemMutation {ι : Type} (view : ι → StringItem) (dest items : List ι)
    (op : PropertyOp) (visibility : Visibility) (system : Bool) : List ι :=
  if op ≠ .set then applyItemMutation dest items op
  else (dest.filter fun item => !itemBucketMatches (view item) visibility system) ++ items

/-! ## Events -/

/-- The item that `bm_target_append_item` makes of an entry. -/
def entryItem (entry : ItemEntry) (before system : Bool) : StringItem where
  value := entry.item
  visibility := visibilityFromEvent entry.visibility
  before
  system
  semantic := entry.semantic

/-- The visibility that `bm_target_promote_property_set` gives to the items of a property. -/
def promotedVisibility (property : UsageProperty) : Visibility :=
  if property.isInterface then .interfaceItem else .privateItem

/-- The items that `bm_target_promote_property_set` makes of the typed items. -/
def promotedItems (event : PropSetEvent) : List StringItem :=
  event.typedItems.map fun (value, semantic) =>
    { value, visibility := promotedVisibility event.property, semantic }

/-- A string item as an unresolved link item. -/
def unresolvedLinkItem (item : StringItem) : LinkItem where
  toStringItem := item
  targetId := none

/-- The mutation of `BEFORE` entries. -/
def entryMutation (entry : ItemEntry) : PropertyOp :=
  if entry.isBefore then .prependList else .appendList

/-- `bm_target_promote_property_set`; an event that is not promoted only leaves a raw property. -/
def promotePropertySet (event : PropSetEvent) (target : TargetRecord) : TargetRecord :=
  let items := promotedItems event
  let mutate := fun dest : List StringItem =>
    applyPromotedItemMutation id dest items event.op (promotedVisibility event.property) false
  if event.op = .appendString then target
  else
    match event.property.family with
    | .includeDirectories => { target with includeDirectories := mutate target.includeDirectories }
    | .compileDefinitions => { target with compileDefinitions := mutate target.compileDefinitions }
    | .compileOptions => { target with compileOptions := mutate target.compileOptions }
    | .linkOptions => { target with linkOptions := mutate target.linkOptions }
    | .linkDirectories => { target with linkDirectories := mutate target.linkDirectories }
    | .linkLibraries =>
      { target with
        linkLibraries := applyPromotedItemMutation LinkItem.toStringItem target.linkLibraries
          (items.map unresolvedLinkItem) event.op (promotedVisibility event.property) false }

/-- The cases of `bm_builder_handle_target_event` for usage requirements. -/
def handleTargetEvent (target : TargetRecord) : UsageEvent → TargetRecord
  | .propSet event => promotePropertySet event target
  | .item .linkLibraries entry =>
    { target with
      linkLibraries := applyItemMutation target.linkLibraries
        [unresolvedLinkItem (entryItem entry false false)] .appendList }
  | .item .linkOptions entry =>
    { target with
      linkOptions := applyItemMutation target.linkOptions
        [entryItem entry entry.isBefore false] (entryMutation entry) }
  | .item .linkDirectories entry =>
    { target with
      linkDirectories := applyItemMutation target.linkDirectories
        [entryItem entry false false] .appendList }
  | .item .includeDirectories entry =>
    { target with
      includeDirectories := applyItemMutation target.includeDirectories
        [entryItem entry entry.isBefore entry.isSystem] (entryMutation entry) }
  | .item .compileDefinitions entry =>
    { target with
      compileDefinitions := applyItemMutation target.compileDefinitions
        [entryItem entry false false] .appendList }
  | .item .compileOptions entry =>
    { target with
      compileOptions := applyItemMutation target.compileOptions
        [entryItem entry entry.isBefore false] (entryMutation entry) }

/-- The record after the events of a stream. -/
def buildTarget (target : TargetRecord) (stream : List UsageEvent) : TargetRecord :=
  stream.foldl handleTargetEvent target

/-! ## Modeled properties -/

/-- The item list that a family is kept in. -/
def usageItems (target : TargetRecord) : UsageFamily → List StringItem
  | .includeDirectories => target.includeDirectories
  | .compileDefinitions => target.compileDefinitions
  | .compileOptions => target.compileOptions
  | .linkOptions => target.linkOptions
  | .linkDirectories => target.linkDirectories
  | .linkLibraries => target.linkLibraries.map LinkItem.toStringItem

/-- The range of visibilities that `bm_query_target_modeled_property_value` passes for a
property. -/
def propertyShows (property : UsageProperty) (item : StringItem) : Bool :=
  if property.isInterface then
    Visibility.publicItem.rank ≤ item.visibility.rank &&
      item.visibility.rank ≤ Visibility.interfaceItem.rank
  else
    Visibility.privateItem.rank ≤ item.visibility.rank &&
      item.visibility.rank ≤ Visibility.publicItem.rank

/-- `bm_query_append_joined_items` and `bm_query_append_joined_link_items`. -/
def appendJoinedItems (items : List StringItem) : StringView :=
  svJoinSemi (items.map StringItem.value)

/-- `bm_query_target_modeled_property_value` on a property of the families. -/
def targetModeledPropertyValue (target : TargetRecord) (property : UsageProperty) : StringView :=
  appendJoinedItems ((usageItems target property.family).filter (propertyShows property))

end Nobify.BuildModel
