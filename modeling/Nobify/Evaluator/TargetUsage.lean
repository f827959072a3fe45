import Nobify.BuildModel.Types

/-!
# Usage requirements in the evaluator

The commands that write the usage properties of one target: the six `target_...` commands of the
usage families, `set_property(TARGET)` and `set_target_properties()`. Each writes the property
store of the evaluator, which keeps one text for a property and one for its `INTERFACE_` form, and
emits the events that the build model is made from.

A call that reports an error is rolled back as a whole: the store is restored and its events are
dropped. Such a call is `none` here.
-/

namespace Nobify.Evaluator

open BuildModel (LinkItemMetadata ConfigFilter)

/-! ## The property store -/

/-- `Cmake_Visibility`. -/
inductive CmakeVisibility where
  | unspecified
  | privateItem
  | publicItem
  | interfaceItem
  deriving DecidableEq

/-- The families of usage requirements that have a command of their own. -/
inductive UsageFamily where
  | includeDirectories
  | compileDefinitions
  | compileOptions
  | linkOptions
  | linkDirectories
  | linkLibraries
  deriving DecidableEq

/-- A property of a family, such as `LINK_OPTIONS`, or its `INTERFACE_` form. -/
structure UsageProperty where
  family : UsageFamily
  isInterface : Bool
  deriving DecidableEq

/-- `Cmake_Target_Property_Op`. -/
inductive PropertyOp where
  | set
  | appendList
  | appendString
  | prependList
  deriving DecidableEq

/-- `merge_property_value_temp`. -/
def mergePropertyValue (current incoming : StringView) (op : PropertyOp) : StringView :=
  if op = .set then incoming
  else if incoming = [] then current
  else if current = [] then incoming
  else
    match op with
    | .prependList => incoming ++ ';' :: current
    | .appendString => current ++ incoming
    | _ => current ++ ';' :: incoming

/-- The records of one target in `Eval_Property_Engine`; a property that was never written reads
as the empty text. -/
structure PropertyStore where
  values : UsageProperty → StringView := fun _ => []
  interfaceSystemIncludeDirectories : StringView := []

/-- `eval_property_write` on a property of the families. -/
def PropertyStore.write (store : PropertyStore) (property : UsageProperty) (value : StringView)
    (op : PropertyOp) : PropertyStore :=
  { store with
    values := fun other =>
      if other = property then mergePropertyValue (store.values property) value op
      else store.values other }

/-! ## Events -/

/-- `Target_Usage_Item_Entry`. -/
structure ItemEntry where
  visibility : CmakeVisibility
  item : StringView
  isBefore : Bool := false
  isSystem : Bool := false
  semantic : LinkItemMetadata := {}
  deriving DecidableEq

/-- `Event_Target_Prop_Set` with a key of the families: the value as it was written, and the typed
items it was split into. -/
structure PropSetEvent where
  property : UsageProperty
  value : StringView
  op : PropertyOp
  typedItems : List (StringView × LinkItemMetadata)

/-- `EVENT_TARGET_INCLUDE_DIRECTORIES` and its siblings, one for each entry, and
`EVENT_TARGET_PROP_SET`. -/
inductive UsageEvent where
  | item (family : UsageFamily) (entry : ItemEntry)
  | propSet (event : PropSetEvent)

/-! ## Parsing the arguments of the target commands -/

/-- What a call reads from the evaluator besides the store of its target. -/
structure CallEnv where
  /-- `eval_path_resolve_for_cmake_arg` in the current source directory. -/
  resolvePath : StringView → StringView
  /-- `eval_usage_item_semantics_from_raw` for an item of a property; `none` reports an error. -/
  semantics : UsageProperty → StringView → ConfigFilter → Option LinkItemMetadata
  /-- `eval_target_is_imported` of the target. -/
  imported : Bool := false
  /-- Whether a warning counts as an error, as `eval_compat_effective_severity` decides. -/
  warningIsError : Bool := false

/-- `target_usage_parse_visibility`. -/
def parseVisibility (token : StringView) : Option CmakeVisibility :=
  if svEqCi token (sv "PRIVATE") then some .privateItem
  else if svEqCi token (sv "PUBLIC") then some .publicItem
  else if svEqCi token (sv "INTERFACE") then some .interfaceItem
  else none

/-- `eval_normalize_compile_definition_item`. -/
def normalizeCompileDefinitionItem : StringView → StringView
  | '-' :: 'D' :: rest => rest
  | '-' :: 'd' :: rest => rest
  | item => item

/-- The normalisation that each command passes to `target_usage_parse_item_request`. -/
def normalizeItem (env : CallEnv) : UsageFamily → StringView → StringView
  | .includeDirectories, item => env.resolvePath item
  | .linkDirectories, item => env.resolvePath item
  | .compileDefinitions, item => normalizeCompileDefinitionItem item
  | _, item => item

/-- `allow_before` of `target_usage_parse_item_request` for each command. -/
def allowBefore : UsageFamily → Bool
  | .includeDirectories | .compileOptions | .linkOptions => true
  | _ => false

/-- `allow_system` and `allow_after`: only `target_include_directories()` takes these keywords. -/
def allowSystem : UsageFamily → Bool
  | .includeDirectories => true
  | _ => false

/-- The loop of `target_usage_parse_item_request`; every command that uses it requires a
visibility before the first item. -/
def parseItems (env : CallEnv) (family : UsageFamily) :
    CmakeVisibility → Bool → Bool → List StringView → Option (List ItemEntry)
  | _, _, _, [] => some []
  | visibility, isBefore, isSystem, arg :: rest =>
    if allowSystem family && svEqCi arg (sv "SYSTEM") then
      parseItems env family visibility isBefore true rest
    else if allowBefore family && svEqCi arg (sv "BEFORE") then
      parseItems env family visibility true isSystem rest
    else if allowSystem family && svEqCi arg (sv "AFTER") then
      parseItems env family visibility false isSystem rest
    else
      match parseVisibility arg with
      | some next => parseItems env family next isBefore isSystem rest
      | none =>
        if visibility = .unspecified then none
        else
          let item := normalizeItem env family arg
          (parseItems env family visibility isBefore isSystem rest).map fun entries =>
            if item = [] then entries else { visibility, item, isBefore, isSystem } :: entries

/-- `target_usage_require_interface_only_on_imported_items`. -/
def interfaceOnlyOnImported (env : CallEnv) (entries : List ItemEntry) : Bool :=
  !env.imported || entries.all (·.visibility = .interfaceItem)

/-- `target_usage_attach_item_semantics`. -/
def attachItemSemantics (env : CallEnv) (family : UsageFamily) (entries : List ItemEntry) :
    Option (List ItemEntry) :=
  entries.mapM fun entry =>
    (env.semantics ⟨family, false⟩ entry.item .all).map fun semantic => { entry with semantic }

/-- `eval_link_item_apply_config_filter_temp`. -/
def linkItemApplyConfigFilter (item : StringView) (filter : ConfigFilter) : StringView :=
  if item = [] then item
  else
    match filter with
    | .debugOnly => sv "$<$<CONFIG:Debug>:" ++ item ++ sv ">"
    | .nondebugOnly => sv "$<$<NOT:$<CONFIG:Debug>>:" ++ item ++ sv ">"
    | _ => item

/-- The keywords `debug`, `optimized` and `general`, with the filter of the item that follows. -/
def configKeyword (token : StringView) : Option ConfigFilter :=
  if svEqCi token (sv "DEBUG") then some .debugOnly
  else if svEqCi token (sv "OPTIMIZED") then some .nondebugOnly
  else if svEqCi token (sv "GENERAL") then some .all
  else none

/-- The loop of `target_link_libraries_parse_request`: the entries, and whether a keyword was left
without an item. -/
def parseLinkLibraries (env : CallEnv) :
    CmakeVisibility → Option ConfigFilter → List StringView → Option (List ItemEntry × Bool)
  | _, qualifier, [] => some ([], qualifier.isSome)
  | visibility, qualifier, arg :: rest =>
    match parseVisibility arg with
    | some next => parseLinkLibraries env next qualifier rest
    | none =>
      match configKeyword arg with
      | some filter => parseLinkLibraries env visibility (some filter) rest
      | none =>
        let filter := qualifier.getD .all
        (env.semantics ⟨.linkLibraries, false⟩ arg filter).bind fun semantic =>
          (parseLinkLibraries env visibility none rest).map fun (entries, trailing) =>
            let item := linkItemApplyConfigFilter arg filter
            (if item = [] then entries else { visibility, item, semantic } :: entries, trailing)

/-- The entries of a target command, when it goes through: parsing, and the checks before anything
is written. `target_link_libraries()` warns about a keyword without an item. -/
def requestEntries (env : CallEnv) (family : UsageFamily) (args : List StringView) :
    Option (List ItemEntry) :=
  if args = [] then none
  else if family = .linkLibraries then
    (parseLinkLibraries env .unspecified none args).bind fun (entries, trailing) =>
      if trailing && env.warningIsError then none else some entries
  else
    (parseItems env family .unspecified false false args).bind fun entries =>
      if interfaceOnlyOnImported env entries then attachItemSemantics env family entries else none

/-! ## Writing -/

/-- `target_usage_visibility_writes_direct`. -/
def writesDirect (visibility : CmakeVisibility) : Bool := visibility ≠ .interfaceItem

/-- `target_usage_visibility_writes_interface`. -/
def writesInterface (visibility : CmakeVisibility) : Bool :=
  visibility = .publicItem || visibility = .interfaceItem

/-- `target_usage_item_property_op`. -/
def itemPropertyOp (entry : ItemEntry) : PropertyOp :=
  if entry.isBefore then .prependList else .appendList

/-- One round of the first loop of `target_usage_apply_item_entries` and of
`target_usage_apply_include_directory_entries`. -/
def storeEntry (family : UsageFamily) (store : PropertyStore) (entry : ItemEntry) : PropertyStore :=
  let op := itemPropertyOp entry
  let direct := if writesDirect entry.visibility then store.write ⟨family, false⟩ entry.item op
    else store
  let both := if writesInterface entry.visibility then direct.write ⟨family, true⟩ entry.item op
    else direct
  if family = .includeDirectories ∧ writesInterface entry.visibility ∧ entry.isSystem then
    { both with interfaceSystemIncludeDirectories :=
        mergePropertyValue both.interfaceSystemIncludeDirectories entry.item op }
  else both

/-! ## Typed items of a written value -/

/-- `eval_sv_split_semicolon_genex_aware` from a position: the depth of generator expressions,
whether an odd number of backslashes stands right before, and the piece read so far. An empty last
piece is not pushed. -/
def splitSemicolonGo : Nat → Bool → StringView → StringView → List StringView
  | _, _, piece, [] => if piece = [] then [] else [piece]
  | depth, _, piece, '$' :: '<' :: rest =>
    splitSemicolonGo (depth + 1) false (piece ++ ['$', '<']) rest
  | depth, escaped, piece, char :: rest =>
    if char = '>' ∧ 0 < depth then
      splitSemicolonGo (depth - 1) false (piece ++ [char]) rest
    else if char = ';' ∧ depth = 0 ∧ escaped = false then
      piece :: splitSemicolonGo depth false [] rest
    else splitSemicolonGo depth (char = '\\' && !escaped) (piece ++ [char]) rest

/-- `eval_sv_split_semicolon_genex_aware`. -/
def splitSemicolonGenexAware (input : StringView) : List StringView :=
  splitSemicolonGo 0 false [] input

/-- Only nothing is split into nothing. -/
theorem splitSemicolonGo_eq_nil {depth : Nat} {escaped : Bool} {piece text : StringView}
    (empty : splitSemicolonGo depth escaped piece text = []) : piece = [] ∧ text = [] := by
  fun_induction splitSemicolonGo depth escaped piece text with
  | case1 => exact ⟨rfl, rfl⟩
  | case2 => cases empty
  | case3 depth escaped piece rest ih => exact absurd (ih empty).1 (by simp)
  | case4 depth escaped piece char rest _ _ ih => exact absurd (ih empty).1 (by simp)
  | case5 => cases empty
  | case6 depth escaped piece char rest _ _ _ ih => exact absurd (ih empty).1 (by simp)

/-- `eval_parse_link_libraries_items_semantics`. -/
def parseLinkLibrariesItemsSemantics (env : CallEnv) (property : UsageProperty) :
    ConfigFilter → List StringView → Option (List (StringView × LinkItemMetadata))
  | _, [] => some []
  | filter, raw :: rest =>
    let token := svTrim raw
    if token = [] then parseLinkLibrariesItemsSemantics env property filter rest
    else
      match configKeyword token with
      | some next => parseLinkLibrariesItemsSemantics env property next rest
      | none =>
        (env.semantics property token filter).bind fun semantic =>
          (parseLinkLibrariesItemsSemantics env property .all rest).map fun items =>
            (linkItemApplyConfigFilter token filter, semantic) :: items

/-- `eval_populate_target_prop_set_semantics`. -/
def populateTargetPropSetSemantics (env : CallEnv) (property : UsageProperty)
    (value : StringView) : Option (List (StringView × LinkItemMetadata)) :=
  if value = [] then some []
  else if property.family = .linkLibraries then
    parseLinkLibrariesItemsSemantics env property .all (splitSemicolonGenexAware value)
  else
    (splitSemicolonGenexAware value).mapM fun token =>
      (env.semantics property token .all).map fun semantic => (token, semantic)

/-! ## Calls -/

/-- The store of a target, and the events about its usage requirements in the stream. -/
structure UsageState where
  store : PropertyStore := {}
  stream : List UsageEvent := []

/-- `eval_property_write` and `eval_emit_target_prop_set`. -/
def writeAndEmit (env : CallEnv) (op : PropertyOp) (state : UsageState)
    (write : UsageProperty × StringView) : Option UsageState :=
  (populateTargetPropSetSemantics env write.1 write.2).map fun typedItems =>
    { store := state.store.write write.1 write.2 op
      stream := state.stream ++
        [.propSet { property := write.1, value := write.2, op, typedItems }] }

/-- Calls of one target. -/
inductive UsageCall where
  /-- A `target_...` command, with its arguments after the target. -/
  | targetItems (family : UsageFamily) (args : List StringView)
  /-- `set_property(TARGET t [APPEND] PROPERTY key values...)`. -/
  | setProperty (append : Bool) (property : UsageProperty) (values : List StringView)
  /-- `set_target_properties(t PROPERTIES key value ...)`, and whether a last key has no value. -/
  | setTargetProperties (pairs : List (UsageProperty × StringView)) (dangling : Bool)

/-- The handlers of the calls; `none` is a call that reports an error. -/
def handleCall (env : CallEnv) (state : UsageState) : UsageCall → Option UsageState
  | .targetItems family args =>
    (requestEntries env family args).map fun entries =>
      { store := entries.foldl (storeEntry family) state.store
        stream := state.stream ++ entries.map (.item family) }
  | .setProperty append property values =>
    writeAndEmit env (if append then .appendList else .set) state (property, svJoinSemi values)
  | .setTargetProperties pairs dangling =>
    if pairs = [] ∨ (dangling = true ∧ env.warningIsError = true) then none
    else pairs.foldlM (writeAndEmit env .set) state

/-- A call under its transaction: an error leaves everything as it was. -/
def runCall (state : UsageState) (call : CallEnv × UsageCall) : UsageState :=
  (handleCall call.1 state call.2).getD state

/-- A sequence of calls. -/
def runCalls (calls : List (CallEnv × UsageCall)) (state : UsageState) : UsageState :=
  calls.foldl runCall state

end Nobify.Evaluator
