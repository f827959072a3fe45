import Nobify.BuildModel.PropertyLaw

/-!
# Sequences of calls

Calls that go through keep the property store and the model of a target in step, and so does every
sequence of calls that sets a property only when it replaces all that the property shows and
writes only values that their typed items keep.
-/

namespace Nobify.BuildModel

open Evaluator
open Option (bind_eq_some_iff map_eq_some_iff)
open List

variable {env : CallEnv} {family : UsageFamily} {args : List StringView} {target : TargetRecord}
  {state : UsageState}

/-! ## Entries -/

/-- What the builder relies on in an entry: it has a text, and comes before the others only in a
family whose events say so. -/
structure WellFormedEntry (family : UsageFamily) (entry : ItemEntry) : Prop where
  filled : entry.item ≠ []
  plain : allowBefore family = false → entry.isBefore = false

variable {visibility : CmakeVisibility}

/-- Parsed items are well formed. -/
theorem parseItems_wellFormed {isBefore isSystem : Bool} {entries : List ItemEntry}
    (plain : allowBefore family = false → isBefore = false)
    (parsed : parseItems env family visibility isBefore isSystem args = some entries) :
    ∀ entry ∈ entries, WellFormedEntry family entry := by
  induction args generalizing visibility isBefore isSystem entries with
  | nil =>
    cases parsed
    simp
  | cons arg rest ih =>
    unfold parseItems at parsed
    split at parsed
    · exact ih plain parsed
    · split at parsed
      case isTrue before =>
        refine ih (fun without => ?_) parsed
        rw [without] at before
        cases before
      case isFalse =>
        split at parsed
        · exact ih (fun _ => rfl) parsed
        · cases shown : parseVisibility arg with
          | some next =>
            rw [shown] at parsed
            exact ih plain parsed
          | none =>
            rw [shown] at parsed
            by_cases missing : visibility = .unspecified
            · simp [missing] at parsed
            · simp only [if_neg missing] at parsed
              obtain ⟨others, known, same⟩ := map_eq_some_iff.mp parsed
              have tail := ih plain known
              by_cases empty : normalizeItem env family arg = []
              · rw [if_pos empty] at same
                rw [← same]
                exact tail
              · rw [if_neg empty] at same
                rw [← same]
                intro entry member
                rcases mem_cons.mp member with rfl | later
                · exact ⟨empty, plain⟩
                · exact tail entry later

/-- Semantics leave an entry well formed. -/
theorem attachItemSemantics_wellFormed {entries attached : List ItemEntry}
    (wellFormed : ∀ entry ∈ entries, WellFormedEntry family entry)
    (success : attachItemSemantics env family entries = some attached) :
    ∀ entry ∈ attached, WellFormedEntry family entry := by
  intro entry member
  obtain ⟨raw, listed, value⟩ := (Lib.mem_of_mapM_eq_some success).mp member
  obtain ⟨semantic, -, rfl⟩ := map_eq_some_iff.mp value
  exact ⟨(wellFormed raw listed).filled, (wellFormed raw listed).plain⟩

/-- Parsed link libraries are well formed. -/
theorem parseLinkLibraries_wellFormed {qualifier : Option ConfigFilter} {entries : List ItemEntry}
    {trailing : Bool}
    (parsed : parseLinkLibraries env visibility qualifier args = some (entries, trailing)) :
    ∀ entry ∈ entries, WellFormedEntry .linkLibraries entry := by
  induction args generalizing visibility qualifier entries trailing with
  | nil =>
    obtain ⟨rfl, -⟩ := Prod.mk.inj (Option.some.inj parsed)
    simp
  | cons arg rest ih =>
    unfold parseLinkLibraries at parsed
    cases shown : parseVisibility arg with
    | some next =>
      rw [shown] at parsed
      exact ih parsed
    | none =>
      rw [shown] at parsed
      cases keyword : configKeyword arg with
      | some filter =>
        rw [keyword] at parsed
        exact ih parsed
      | none =>
        rw [keyword] at parsed
        obtain ⟨semantic, -, later⟩ := bind_eq_some_iff.mp parsed
        obtain ⟨⟨others, last⟩, known, same⟩ := map_eq_some_iff.mp later
        have tail := ih known
        obtain ⟨entriesSame, -⟩ := Prod.mk.inj same
        by_cases empty : linkItemApplyConfigFilter arg (qualifier.getD .all) = []
        · rw [if_pos empty] at entriesSame
          rw [← entriesSame]
          exact tail
        · rw [if_neg empty] at entriesSame
          rw [← entriesSame]
          intro entry member
          rcases mem_cons.mp member with rfl | later
          · exact ⟨empty, fun _ => rfl⟩
          · exact tail entry later

/-- The entries of a command that goes through are well formed. -/
theorem requestEntries_wellFormed {entries : List ItemEntry}
    (success : requestEntries env family args = some entries) :
    ∀ entry ∈ entries, WellFormedEntry family entry := by
  unfold requestEntries at success
  split at success
  · cases success
  · split at success
    case isTrue link =>
      rw [link]
      obtain ⟨⟨parsedEntries, trailing⟩, parsed, rest⟩ := bind_eq_some_iff.mp success
      by_cases failing : (trailing && env.warningIsError) = true
      · simp [failing] at rest
      · simp only [failing, Bool.false_eq_true, if_false, Option.some.injEq] at rest
        rw [← rest]
        exact parseLinkLibraries_wellFormed parsed
    case isFalse =>
      obtain ⟨parsedEntries, parsed, rest⟩ := bind_eq_some_iff.mp success
      by_cases allowed : interfaceOnlyOnImported env parsedEntries = true
      · rw [if_pos allowed] at rest
        exact attachItemSemantics_wellFormed (parseItems_wellFormed (fun _ => rfl) parsed) rest
      · rw [if_neg allowed] at rest
        cases rest

/-! ## Calls -/

/-- Well-formed entries keep the store and the record in step. -/
theorem InStep.entries {entries : List ItemEntry}
    (wellFormed : ∀ entry ∈ entries, WellFormedEntry family entry) {store : PropertyStore}
    (inStep : InStep store target) :
    InStep (entries.foldl (storeEntry family) store)
      (buildTarget target (entries.map (.item family))) := by
  induction entries generalizing store target with
  | nil => exact inStep
  | cons entry rest ih =>
    obtain ⟨filled, plain⟩ := wellFormed entry mem_cons_self
    exact ih (fun other member => wellFormed other (mem_cons_of_mem _ member))
      (inStep.item filled plain)

/-- The state of a run in step with the record that its stream makes of a target. -/
def StateInStep (target : TargetRecord) (state : UsageState) : Prop :=
  InStep state.store (buildTarget target state.stream)

/-- One more event of the stream. -/
theorem buildTarget_concat (target : TargetRecord) (stream : List UsageEvent) (event : UsageEvent) :
    buildTarget target (stream ++ [event]) = handleTargetEvent (buildTarget target stream) event := by
  unfold buildTarget
  rw [foldl_append]
  rfl

variable (inStep : StateInStep target state)

include inStep in
/-- A kept value that is written keeps the run in step. -/
theorem StateInStep.write {op : PropertyOp} {next : UsageState} {write : UsageProperty × StringView}
    (listed : op = .set ∨ op = .appendList)
    (kept : KeepsValue write.1 write.2)
    (replaces : op = .set → Replaces (buildTarget target state.stream) write.1)
    (written : writeAndEmit env op state write = some next) : StateInStep target next := by
  obtain ⟨typedItems, populated, rfl⟩ := map_eq_some_iff.mp written
  obtain ⟨joined, solid⟩ := populateTargetPropSetSemantics_values kept populated
  let event : PropSetEvent := { property := write.1, value := write.2, op, typedItems }
  unfold StateInStep
  rw [buildTarget_concat]
  exact @InStep.propSet _ _ event inStep listed replaces joined solid

/-- Setting a property makes no other one show items it would not replace. -/
theorem Replaces.propSet {event : PropSetEvent} {property : UsageProperty} (set : event.op = .set)
    (replaces : Replaces target property) :
    Replaces (handleTargetEvent target (.propSet event)) property := by
  intro item member shown
  rw [usageItems_propSet _ _ _ (by rw [set]; decide)] at member
  by_cases sameFamily : property.family = event.property.family
  · rw [if_pos sameFamily] at member
    simp only [applyPromotedItemMutation, set, ne_eq, not_true_eq_false, if_false, id_eq,
      mem_append] at member
    rcases member with old | new
    · exact replaces item (mem_of_mem_filter old) shown
    · obtain ⟨typed, -, rfl⟩ := mem_map.mp new
      by_cases same : property = event.property
      · rw [same]
        simp [itemBucketMatches]
      · rw [propertyShows_other sameFamily same rfl] at shown
        cases shown
  · rw [if_neg sameFamily] at member
    exact replaces item member shown

include inStep

/-- Kept values that are set one after the other keep the run in step. -/
theorem StateInStep.setPairs {pairs : List (UsageProperty × StringView)} {next : UsageState}
    (meets : ∀ pair ∈ pairs, KeepsValue pair.1 pair.2 ∧
      Replaces (buildTarget target state.stream) pair.1)
    (written : pairs.foldlM (writeAndEmit env .set) state = some next) :
    StateInStep target next := by
  induction pairs generalizing state with
  | nil =>
    cases written
    exact inStep
  | cons pair rest ih =>
    rw [foldlM_cons] at written
    obtain ⟨middle, first, later⟩ := bind_eq_some_iff.mp written
    obtain ⟨kept, replaces⟩ := meets pair mem_cons_self
    have ahead := inStep.write (.inl rfl) kept (fun _ => replaces) first
    refine ih ahead (fun other member => ?_) later
    obtain ⟨otherKept, otherReplaces⟩ := meets other (mem_cons_of_mem _ member)
    refine ⟨otherKept, ?_⟩
    obtain ⟨typedItems, -, rfl⟩ := map_eq_some_iff.mp first
    rw [buildTarget_concat]
    exact otherReplaces.propSet rfl

/-- The condition under which a call keeps the two in step: a call that goes through writes only
values that their typed items keep, and sets a property only when it replaces all that the
property shows. Target commands are free. -/
def CallKeeps (target : TargetRecord) (state : UsageState) (call : CallEnv × UsageCall) : Prop :=
  (handleCall call.1 state call.2).isSome = true →
    match call.2 with
    | .targetItems _ _ => True
    | .setProperty append property values =>
      KeepsValue property (svJoinSemi values) ∧
        (append = false → Replaces (buildTarget target state.stream) property)
    | .setTargetProperties pairs _ =>
      ∀ pair ∈ pairs, KeepsValue pair.1 pair.2 ∧ Replaces (buildTarget target state.stream) pair.1

/-- A call that meets the condition keeps the run in step. -/
theorem StateInStep.call {call : CallEnv × UsageCall} (keeps : CallKeeps target state call) :
    StateInStep target (runCall state call) := by
  obtain ⟨env, call⟩ := call
  unfold runCall
  cases handled : handleCall env state call with
  | none => exact inStep
  | some next =>
    show StateInStep target next
    have condition := keeps (by rw [handled]; rfl)
    cases call with
    | targetItems family args =>
      obtain ⟨entries, parsed, rfl⟩ := map_eq_some_iff.mp handled
      have wellFormed := requestEntries_wellFormed parsed
      have built := InStep.entries wellFormed inStep
      unfold StateInStep buildTarget
      rw [foldl_append]
      exact built
    | setProperty append property values =>
      obtain ⟨kept, replaces⟩ := condition
      cases append with
      | true => exact inStep.write (.inr rfl) kept (fun set => by cases set) handled
      | false => exact inStep.write (.inl rfl) kept (fun _ => replaces rfl) handled
    | setTargetProperties pairs dangling =>
      by_cases failing : pairs = [] ∨ (dangling = true ∧ env.warningIsError = true)
      · simp [handleCall, failing] at handled
      · simp only [handleCall, if_neg failing] at handled
        exact StateInStep.setPairs inStep condition handled

/-! ## Runs -/

/-- Every call of a sequence meets the condition in the state it is made in. -/
def CallsKeep (target : TargetRecord) : UsageState → List (CallEnv × UsageCall) → Prop
  | _, [] => True
  | state, call :: rest =>
    CallKeeps target state call ∧ CallsKeep target (runCall state call) rest

/-- A run of such calls stays in step. -/
theorem StateInStep.run {calls : List (CallEnv × UsageCall)} (keep : CallsKeep target state calls) :
    StateInStep target (runCalls calls state) := by
  induction calls generalizing state with
  | nil => exact inStep
  | cons call rest ih => exact ih (inStep.call keep.1) keep.2

omit inStep

/-- The record of a target that was just declared, as `EVENT_TARGET_DECLARE` leaves it. -/
def declaredTarget (name : StringView) (kind : TargetKind) (imported : Bool) : TargetRecord where
  name
  kind
  imported

/-- For every sequence of calls on a target whose calls all meet the condition, the property store
of the evaluator holds for every property what the model of the emitted events gives for it. -/
theorem store_matches_modeled_property {name : StringView} {kind : TargetKind} {imported : Bool}
    {calls : List (CallEnv × UsageCall)}
    (keep : CallsKeep (declaredTarget name kind imported) {} calls) (property : UsageProperty) :
    (runCalls calls {}).store.values property = targetModeledPropertyValue
        (buildTarget (declaredTarget name kind imported) (runCalls calls {}).stream) property := by
  have start : StateInStep (declaredTarget name kind imported) {} := by
    have nothing : ∀ family, usageItems (declaredTarget name kind imported) family = [] := by
      intro family
      cases family <;> rfl
    refine ⟨fun property => ?_, fun property _ => ?_⟩
    · show [] = svJoinSemi (((usageItems (declaredTarget name kind imported)
        property.family).filter (propertyShows property)).map StringItem.value)
      rw [nothing]
      rfl
    · show ((usageItems (declaredTarget name kind imported)
        property.family).filter (propertyShows property)).map StringItem.value = []
      rw [nothing]
      rfl
  exact (start.run keep).values property

/-! ## Fixed sequences -/

instance (property : UsageProperty) (value : StringView) : Decidable (KeepsValue property value) :=
  inferInstanceAs (Decidable (_ ∧ _))

instance (target : TargetRecord) (property : UsageProperty) : Decidable (Replaces target property) :=
  inferInstanceAs (Decidable (∀ item ∈ usageItems target property.family, _ → _))

instance (target : TargetRecord) (state : UsageState) :
    (call : CallEnv × UsageCall) → Decidable (CallKeeps target state call)
  | (_, .targetItems _ _) => inferInstanceAs (Decidable (_ → True))
  | (_, .setProperty _ _ _) => inferInstanceAs (Decidable (_ → _ ∧ (_ → _)))
  | (_, .setTargetProperties pairs _) => inferInstanceAs (Decidable (_ → ∀ pair ∈ pairs, _ ∧ _))

/-- Whether a sequence of calls meets the condition can be computed. -/
instance decidableCallsKeep (target : TargetRecord) :
    (state : UsageState) → (calls : List (CallEnv × UsageCall)) →
      Decidable (CallsKeep target state calls)
  | _, [] => inferInstanceAs (Decidable True)
  | state, call :: rest =>
    @instDecidableAnd _ _ inferInstance (decidableCallsKeep target (runCall state call) rest)

/-- Paths and items without generator expressions, in the top directory. -/
def plainEnv : CallEnv where
  resolvePath := id
  semantics _ raw configFilter := some { value := raw, configFilter }

/-- A definition of the given visibility, and then a value set over it. -/
def definitionThenSet (visibility : String) : List (CallEnv × UsageCall) :=
  [(plainEnv, .targetItems .compileDefinitions [sv visibility, sv "A"]),
    (plainEnv, .setProperty false ⟨.compileDefinitions, false⟩ [sv "B", sv "C"])]

/-- A private definition is replaced on both sides. -/
theorem store_matches_modeled_property_private :
    CallsKeep (declaredTarget (sv "app") .executable false) {} (definitionThenSet "PRIVATE") ∧
      (runCalls (definitionThenSet "PRIVATE") {}).store.values ⟨.compileDefinitions, false⟩ =
        targetModeledPropertyValue (buildTarget (declaredTarget (sv "app") .executable false)
            (runCalls (definitionThenSet "PRIVATE") {}).stream) ⟨.compileDefinitions, false⟩ := by
  have keep : CallsKeep (declaredTarget (sv "app") .executable false) {}
      (definitionThenSet "PRIVATE") := by decide +kernel
  exact ⟨keep, store_matches_modeled_property keep _⟩

/-- A public definition is overwritten in the store and kept in the model. -/
theorem public_definition_survives_set :
    (runCalls (definitionThenSet "PUBLIC") {}).store.values ⟨.compileDefinitions, false⟩ =
        sv "B;C" ∧
      targetModeledPropertyValue (buildTarget (declaredTarget (sv "app") .executable false)
            (runCalls (definitionThenSet "PUBLIC") {}).stream) ⟨.compileDefinitions, false⟩ =
        sv "A;B;C" ∧
      (runCalls (definitionThenSet "PUBLIC") {}).store.values ⟨.compileDefinitions, false⟩ ≠
        targetModeledPropertyValue (buildTarget (declaredTarget (sv "app") .executable false)
            (runCalls (definitionThenSet "PUBLIC") {}).stream) ⟨.compileDefinitions, false⟩ := by
  decide +kernel

end Nobify.BuildModel
