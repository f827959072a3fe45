import Mathlib.Data.List.Nodup
import Nobify.BuildModel.BuilderEdit
import Nobify.Lib.Records
import Nobify.Lib.Replay

/-!
# What the builder keeps

The invariants that validation and freeze rely on: ids are positions, a parent directory comes
before its children, the directory stack is a chain of parents, the name index lists each target
once, and owners are directories. They follow from what one event can do to a draft, one case an
edit. A run of the builder ends with a draft exactly when every event was taken and the
directories were entered and left as matching brackets.
-/

namespace Nobify.BuildModel

open Nobify.Lib (replay Along Bracket Matched openKeys of_getElem?_modify of_getElem?_concat
  forall_mem_modify map_modify_of_eq)
open List

/-! ## The invariant -/

/-- What holds of every draft the builder makes. -/
structure Draft.WellFormed (draft : Draft) : Prop where
  /-- A directory is at the position of its id. -/
  directoryIds : ∀ (index : Nat) (directory : DirectoryRecord),
    draft.directories[index]? = some directory → directory.id = index
  /-- A parent was entered before. -/
  parents : ∀ directory ∈ draft.directories, ∀ parent, directory.parentId = some parent →
    parent < directory.id
  /-- A target is at the position of its id. -/
  targetIds : ∀ (index : Nat) (target : TargetRecord),
    draft.targets[index]? = some target → target.id = index
  /-- A step is at the position of its id. -/
  stepIds : ∀ (index : Nat) (step : BuildStepRecord),
    draft.buildSteps[index]? = some step → step.id = index
  /-- The index lists every target once, with its name and its id. -/
  nameIndex : draft.targetNameIndex = draft.targets.map fun target => (target.name, target.id)
  /-- No name is given twice. -/
  names : (draft.targets.map TargetRecord.name).Nodup
  /-- The owner of a target is a directory. -/
  targetOwners : ∀ target ∈ draft.targets,
    ∃ owner, target.ownerDirectoryId = some owner ∧ owner < draft.directories.length
  /-- The owner of a step is a directory. -/
  stepOwners : ∀ step ∈ draft.buildSteps,
    ∃ owner, step.ownerDirectoryId = some owner ∧ owner < draft.directories.length

/-- Each entry of the stack, innermost first, is a directory whose parent is the entry below. -/
def StackChain (directories : List DirectoryRecord) : List DirectoryId → Prop
  | [] => True
  | id :: below =>
    (∃ directory, directories[id]? = some directory ∧ directory.parentId = below.head?) ∧
      StackChain directories below

/-- The invariant of the builder. -/
structure Builder.WellFormed (builder : Builder) : Prop where
  draft : builder.draft.WellFormed
  stack : StackChain builder.draft.directories builder.directoryStack

/-! ## The invariant is kept -/

variable {before after : Draft}

/-- The invariant is about the core. -/
theorem Draft.WellFormed.congr (same : SameCore before after) (formed : before.WellFormed) :
    after.WellFormed where
  directoryIds := same.directories ▸ formed.directoryIds
  parents := same.directories ▸ formed.parents
  targetIds := same.targets ▸ formed.targetIds
  stepIds := same.buildSteps ▸ formed.stepIds
  nameIndex := by rw [same.targetNameIndex, same.targets, formed.nameIndex]
  names := same.targets ▸ formed.names
  targetOwners := by
    rw [same.targets, same.directories]
    exact formed.targetOwners
  stepOwners := by
    rw [same.buildSteps, same.directories]
    exact formed.stepOwners

variable {draft : Draft}

variable (formed : draft.WellFormed)

include formed

/-- A name is found where its target is. -/
theorem Draft.WellFormed.findTargetId {name : StringView} {id : TargetId}
    (found : draft.findTargetId name = some id) :
    ∃ target, draft.targets[id]? = some target ∧ target.name = name := by
  simp only [Draft.findTargetId, findInIndex, Option.map_eq_some_iff] at found
  obtain ⟨entry, first, rfl⟩ := found
  have named : entry.1 = name := by simpa using List.find?_some first
  have mem := mem_of_find?_eq_some first
  rw [formed.nameIndex, mem_map] at mem
  obtain ⟨target, mem, rfl⟩ := mem
  obtain ⟨position, here⟩ := List.getElem?_of_mem mem
  have same := formed.targetIds position target here
  refine ⟨target, ?_, named⟩
  rw [same]
  exact here

/-- The index of a well-formed draft names positions of targets. -/
theorem Draft.WellFormed.indexInRange : draft.IndexInRange := by
  intro name id found
  obtain ⟨target, here, _⟩ := formed.findTargetId found
  exact (List.getElem?_eq_some_iff.mp here).1

omit formed

/-- The directories of the stack are there. -/
theorem StackChain.inRange {directories : List DirectoryRecord} {stack : List DirectoryId}
    (chain : StackChain directories stack) : ∀ id ∈ stack, id < directories.length := by
  induction stack with
  | nil => simp
  | cons id below ih =>
    obtain ⟨⟨directory, here, _⟩, rest⟩ := chain
    intro other mem
    rcases mem_cons.mp mem with rfl | later
    · exact (List.getElem?_eq_some_iff.mp here).1
    · exact ih rest other later

/-- The innermost directory is there. -/
theorem StackChain.head {directories : List DirectoryRecord} {stack : List DirectoryId}
    (chain : StackChain directories stack) (active : stack.head?.isSome = true) :
    ∃ owner, stack.head? = some owner ∧ owner < directories.length := by
  cases stack with
  | nil => cases active
  | cons id below => exact ⟨id, rfl, chain.inRange id mem_cons_self⟩

/-- A chain stays one when every directory keeps its parent. -/
theorem StackChain.mono {before after : List DirectoryRecord} {stack : List DirectoryId}
    (kept : ∀ (id : DirectoryId) (directory : DirectoryRecord), before[id]? = some directory →
      ∃ changed, after[id]? = some changed ∧ changed.parentId = directory.parentId)
    (chain : StackChain before stack) : StackChain after stack := by
  induction stack with
  | nil => trivial
  | cons id below ih =>
    obtain ⟨⟨directory, here, parent⟩, rest⟩ := chain
    obtain ⟨changed, there, same⟩ := kept id directory here
    exact ⟨⟨changed, there, same.trans parent⟩, ih rest⟩

include formed

/-- Entering a directory keeps the invariant. -/
theorem Draft.WellFormed.enter {directory : DirectoryRecord}
    (id : directory.id = draft.directories.length)
    (parent : ∀ parent, directory.parentId = some parent → parent < draft.directories.length) :
    { draft with directories := draft.directories ++ [directory] }.WellFormed :=
  { formed with
    directoryIds index found here := by
      rcases of_getElem?_concat here with old | ⟨rfl, rfl⟩
      · exact formed.directoryIds index found old
      · exact id
    parents found mem above isParent := by
      rcases mem_append.mp mem with old | added
      · exact formed.parents found old above isParent
      · obtain rfl := mem_singleton.mp added
        rw [id]
        exact parent above isParent
    targetOwners target mem := by
      obtain ⟨owner, owned, bound⟩ := formed.targetOwners target mem
      exact ⟨owner, owned, Nat.lt_of_lt_of_le bound (by simp)⟩
    stepOwners step mem := by
      obtain ⟨owner, owned, bound⟩ := formed.stepOwners step mem
      exact ⟨owner, owned, Nat.lt_of_lt_of_le bound (by simp)⟩ }

/-- Changing a directory keeps the invariant. -/
theorem Draft.WellFormed.modifyDirectory {index : DirectoryId}
    {change : DirectoryRecord → DirectoryRecord}
    (edits : ∀ record, DirectoryEdit record (change record)) :
    { draft with directories := draft.directories.modify index change }.WellFormed :=
  { formed with
    directoryIds position found here := by
      obtain ⟨old, there, rfl | ⟨_, rfl⟩⟩ := of_getElem?_modify here
      · exact formed.directoryIds position found there
      · rw [(edits old).id]
        exact formed.directoryIds position old there
    parents := by
      refine forall_mem_modify formed.parents fun record _ before above isParent => ?_
      rw [(edits record).id]
      exact before above ((edits record).parentId ▸ isParent)
    targetOwners := by simpa using formed.targetOwners
    stepOwners := by simpa using formed.stepOwners }

/-- Appending a target of a new name keeps the invariant. -/
theorem Draft.WellFormed.newTarget {target : TargetRecord}
    (fresh : draft.findTargetId target.name = none) (id : target.id = draft.targets.length)
    (owned : ∃ owner, target.ownerDirectoryId = some owner ∧ owner < draft.directories.length) :
    { draft with
      targets := draft.targets ++ [target]
      targetNameIndex := draft.targetNameIndex ++ [(target.name, target.id)] }.WellFormed :=
  { formed with
    targetIds index found here := by
      rcases of_getElem?_concat here with old | ⟨rfl, rfl⟩
      · exact formed.targetIds index found old
      · exact id
    nameIndex := by simp [formed.nameIndex]
    names := by
      have absent : target.name ∉ draft.targets.map TargetRecord.name := by
        intro mem
        obtain ⟨other, known, same⟩ := mem_map.mp mem
        simp only [Draft.findTargetId, findInIndex, formed.nameIndex, Option.map_eq_none_iff,
          List.find?_eq_none, mem_map] at fresh
        exact fresh (other.name, other.id) ⟨other, known, rfl⟩ (by simpa using same)
      rw [map_append, map_singleton, ← concat_eq_append]
      exact List.Nodup.concat absent formed.names
    targetOwners found mem := by
      rcases mem_append.mp mem with old | added
      · exact formed.targetOwners found old
      · obtain rfl := mem_singleton.mp added
        exact owned }

/-- Changing a target keeps the invariant. -/
theorem Draft.WellFormed.modifyTarget {index : TargetId} {change : TargetRecord → TargetRecord}
    {owner : Option DirectoryId}
    (inRange : owner.isSome = true → ∃ id, owner = some id ∧ id < draft.directories.length)
    (edits : ∀ record, draft.targets[index]? = some record → TargetEdit owner record (change
      record)) :
    { draft with targets := draft.targets.modify index change }.WellFormed :=
  { formed with
    targetIds position found here := by
      obtain ⟨old, there, rfl | ⟨rfl, rfl⟩⟩ := of_getElem?_modify here
      · exact formed.targetIds position found there
      · rw [(edits old there).id]
        exact formed.targetIds position old there
    nameIndex := by
      rw [formed.nameIndex, map_modify_of_eq fun record here => ?_]
      rw [(edits record here).name, (edits record here).id]
    names := by
      rw [map_modify_of_eq fun record here => (edits record here).name]
      exact formed.names
    targetOwners := by
      refine forall_mem_modify formed.targetOwners fun record here before => ?_
      rcases (edits record here).ownerDirectoryId with same | ⟨active, moved⟩
      · rw [same]
        exact before
      · rw [moved]
        exact inRange active }

/-- Appending a step keeps the invariant. -/
theorem Draft.WellFormed.newStep {step : BuildStepRecord} (id : step.id = draft.buildSteps.length)
    (owned : ∃ owner, step.ownerDirectoryId = some owner ∧ owner < draft.directories.length) :
    { draft with buildSteps := draft.buildSteps ++ [step] }.WellFormed :=
  { formed with
    stepIds index found here := by
      rcases of_getElem?_concat here with old | ⟨rfl, rfl⟩
      · exact formed.stepIds index found old
      · exact id
    stepOwners found mem := by
      rcases mem_append.mp mem with old | added
      · exact formed.stepOwners found old
      · obtain rfl := mem_singleton.mp added
        exact owned }

/-- Changing a step keeps the invariant. -/
theorem Draft.WellFormed.modifyStep {index : BuildStepId}
    {change : BuildStepRecord → BuildStepRecord}
    (edits : ∀ record, StepEdit record (change record)) :
    { draft with buildSteps := draft.buildSteps.modify index change }.WellFormed :=
  { formed with
    stepIds position found here := by
      obtain ⟨old, there, rfl | ⟨_, rfl⟩⟩ := of_getElem?_modify here
      · exact formed.stepIds position found there
      · rw [(edits old).id]
        exact formed.stepIds position old there
    stepOwners := by
      refine forall_mem_modify formed.stepOwners fun record _ before => ?_
      rw [(edits record).ownerDirectoryId]
      exact before }

omit formed

variable {stack changedStack : List DirectoryId}

variable (edit : DraftEdit before stack after changedStack)

include edit

/-- An edit keeps every directory at its place, with its parent and its two paths. -/
theorem DraftEdit.directoryKept {id : DirectoryId} {directory : DirectoryRecord}
    (here : before.directories[id]? = some directory) :
    ∃ kept, after.directories[id]? = some kept ∧ kept.parentId = directory.parentId ∧
      kept.sourceDir = directory.sourceDir ∧ kept.binaryDir = directory.binaryDir := by
  cases edit with
  | enter added _ _ _ _ same =>
    have bound := (List.getElem?_eq_some_iff.mp here).1
    rw [same.directories]
    exact ⟨directory, by simp [List.getElem?_append_left bound, here], rfl, rfl, rfl⟩
  | directory index change edits same =>
    rw [same.directories]
    dsimp only
    rw [List.getElem?_modify, here]
    have edit := edits directory
    split
    · exact ⟨change directory, rfl, edit.parentId, edit.sourceDir, edit.binaryDir⟩
    · exact ⟨directory, rfl, rfl, rfl, rfl⟩
  | outside same | leave same | globalProperties _ _ same | newTarget _ _ _ _ _ _ _ same
  | target _ _ _ same | newStep _ _ _ _ _ _ same | step _ _ _ same =>
    rw [same.directories]
    exact ⟨directory, here, rfl, rfl, rfl⟩

/-- An edit keeps the chain of the stack. -/
theorem DraftEdit.chain (chain : StackChain before.directories stack) :
    StackChain after.directories changedStack := by
  have kept : StackChain after.directories stack := by
    refine chain.mono fun id directory here => ?_
    obtain ⟨changed, there, parent, _⟩ := edit.directoryKept here
    exact ⟨changed, there, parent⟩
  cases edit with
  | enter directory id parentId _ _ same =>
    refine ⟨⟨directory, ?_, parentId⟩, kept⟩
    rw [same.directories]
    simp [id]
  | leave same =>
    cases stack with
    | nil => trivial
    | cons id below => exact kept.2
  | _ => exact kept

/-- An edit keeps the invariant of the draft. -/
theorem DraftEdit.wellFormed (formed : before.WellFormed)
    (chain : StackChain before.directories stack) :
    after.WellFormed := by
  cases edit with
  | outside same | leave same => exact formed.congr same
  | enter directory id parentId ownerDirectoryId links same =>
    refine (formed.enter id fun parent above => ?_).congr same
    have top : stack.head? = some parent := parentId ▸ above
    exact chain.inRange parent (mem_of_mem_head? top)
  | directory index change edits same => exact (formed.modifyDirectory edits).congr same
  | globalProperties usage links same =>
    have changed : { before with globalProperties := usage }.WellFormed :=
      ⟨formed.directoryIds, formed.parents, formed.targetIds, formed.stepIds, formed.nameIndex,
        formed.names, formed.targetOwners, formed.stepOwners⟩
    exact changed.congr same
  | newTarget target fresh id owned links sources dependencies same =>
    obtain ⟨owner, top, bound⟩ := chain.head owned.1
    exact (formed.newTarget fresh id ⟨owner, owned.2.trans top, bound⟩).congr same
  | target index change edits same => exact (formed.modifyTarget chain.head edits).congr same
  | newStep step id owned ownerTarget dependencies resolved same =>
    obtain ⟨owner, top, bound⟩ := chain.head owned.1
    exact (formed.newStep id ⟨owner, owned.2.trans top, bound⟩).congr same
  | step index change edits same => exact (formed.modifyStep edits).congr same

omit edit

/-! ## Runs -/

/-- The builder after all events were applied, taken or not. -/
def Builder.feed (builder : Builder) (events : List BuildEvent) : Builder :=
  replay (fun event builder => (builder.applyEvent event).1) events builder

/-- Every event of the list is taken. -/
def Builder.Takes (builder : Builder) (events : List BuildEvent) : Prop :=
  Along (fun event builder => (Builder.applyEvent builder event).1)
    (fun event builder => (builder.applyEvent event).2 = true) events builder

/-- What an event is to the nesting of directories. -/
def BuildEvent.bracket (event : BuildEvent) : Bracket (StringView × StringView) :=
  match event.body with
  | .directory (.enter sourceDir binaryDir) => .opening (sourceDir, binaryDir)
  | .directory (.leave sourceDir binaryDir) => .closing (sourceDir, binaryDir)
  | _ => .plain

variable {builder : Builder} {event : BuildEvent}

/-- What an event that is taken does to the builder. -/
theorem applyEvent_taken (taken : (builder.applyEvent event).2 = true) :
    builder.hasFatalError = false ∧
      ((event.body.isBuildSemantic = false ∧ (builder.applyEvent event).1 = builder) ∨
        ∃ draft stack, handleEvent event.filePath { builder.draft with hasSemanticEntities := true }
            builder.directoryStack event.body = .ok (draft, stack) ∧
          (builder.applyEvent event).1 = { builder with draft, directoryStack := stack }) := by
  unfold Builder.applyEvent at taken ⊢
  cases fatal : builder.hasFatalError with
  | true => simp [fatal] at taken
  | false =>
    refine ⟨rfl, ?_⟩
    simp only [fatal, Bool.false_eq_true, ↓reduceIte] at taken ⊢
    cases semantic : event.body.isBuildSemantic with
    | false => simp
    | true =>
      simp only [semantic, Bool.not_true, Bool.false_eq_true, ↓reduceIte] at taken ⊢
      cases outcome : handleEvent event.filePath { builder.draft with hasSemanticEntities := true }
        builder.directoryStack event.body with
      | error error => simp [outcome] at taken
      | ok result => exact .inr ⟨result.1, result.2, rfl, rfl⟩

/-- An event that fails leaves a fatal error. -/
theorem applyEvent_failed (failed : (builder.applyEvent event).2 = false) :
    (builder.applyEvent event).1.hasFatalError = true := by
  unfold Builder.applyEvent at failed ⊢
  cases fatal : builder.hasFatalError with
  | true => simp [fatal]
  | false =>
    simp only [fatal, Bool.false_eq_true, ↓reduceIte] at failed ⊢
    cases semantic : event.body.isBuildSemantic with
    | false => simp [semantic] at failed
    | true =>
      simp only [semantic, Bool.not_true, Bool.false_eq_true, ↓reduceIte] at failed ⊢
      cases outcome : handleEvent event.filePath { builder.draft with hasSemanticEntities := true }
        builder.directoryStack event.body with
      | error error => rfl
      | ok result => simp [outcome] at failed

/-- A builder with a fatal error takes nothing and does not change. -/
theorem applyEvent_of_fatal (fatal : builder.hasFatalError = true) (event : BuildEvent) :
    builder.applyEvent event = (builder, false) := by
  simp [Builder.applyEvent, fatal]

/-- Nor does it change over a list of events. -/
theorem feed_of_fatal (fatal : builder.hasFatalError = true) (events : List BuildEvent) :
    builder.feed events = builder := by
  induction events with
  | nil => rfl
  | cons event rest ih =>
    have same := applyEvent_of_fatal fatal event
    simpa [Builder.feed, same] using ih

/-- An event that is taken keeps the invariant. -/
theorem Builder.WellFormed.applyEvent (formed : builder.WellFormed)
    (taken : (builder.applyEvent event).2 = true) :
    (builder.applyEvent event).1.WellFormed := by
  obtain ⟨_, ⟨_, same⟩ | ⟨draft, stack, handled, after⟩⟩ := applyEvent_taken taken
  · rw [same]
    exact formed
  · have same : SameCore builder.draft { builder.draft with hasSemanticEntities := true } :=
      ⟨rfl, rfl, rfl, rfl, rfl⟩
    have marked := formed.draft.congr same
    have edit := draftEdit_handleEvent marked.indexInRange handled
    rw [after]
    exact ⟨edit.wellFormed marked formed.stack, edit.chain formed.stack⟩

/-- A new builder is well formed. -/
theorem Builder.wellFormed_create : ({} : Builder).WellFormed :=
  ⟨⟨by simp, by simp, by simp, by simp, rfl, by simp, by simp, by simp⟩, trivial⟩

variable {events : List BuildEvent}

/-- The invariant holds after events that are all taken. -/
theorem Builder.wellFormed_feed (taken : Builder.Takes {} events) :
    (Builder.feed {} events).WellFormed :=
  Nobify.Lib.along_invariant _ (fun _ _ here formed => formed.applyEvent here) taken
    Builder.wellFormed_create

/-! ## Open directories -/

/-- The two paths of a directory. -/
def DirectoryRecord.frame (directory : DirectoryRecord) : StringView × StringView :=
  (directory.sourceDir, directory.binaryDir)

/-- The open directories have these paths, innermost first. -/
def FramesOpen (directories : List DirectoryRecord) (stack : List DirectoryId)
    (frames : List (StringView × StringView)) : Prop :=
  stack.map (fun id => directories[id]?.map DirectoryRecord.frame) = frames.map some

variable {frames : List (StringView × StringView)}

/-- Directories that keep their paths stay open with them. -/
theorem FramesOpen.mono {before after : List DirectoryRecord} {stack : List DirectoryId}
    (kept : ∀ (id : DirectoryId) (directory : DirectoryRecord), before[id]? = some directory → ∃
      changed, after[id]? = some changed ∧ changed.frame = directory.frame)
    (opened : FramesOpen before stack frames) : FramesOpen after stack frames := by
  induction stack generalizing frames with
  | nil => exact opened
  | cons id below ih =>
    cases frames with
    | nil => simp [FramesOpen] at opened
    | cons frame rest =>
      simp only [FramesOpen, map_cons, List.cons.injEq] at opened ⊢
      obtain ⟨directory, here, same⟩ := Option.map_eq_some_iff.mp opened.1
      obtain ⟨changed, there, kept⟩ := kept id directory here
      exact ⟨by simp [there, kept, same], ih opened.2⟩

/-- An event that is no bracket leaves the stack alone. -/
theorem handleEvent_plain {filePath : StringView} {draft changed : Draft}
    (plain : event.bracket = .plain)
    (handled : handleEvent filePath draft stack event.body = .ok (changed, changedStack)) :
    changedStack = stack := by
  unfold BuildEvent.bracket at plain
  cases body : event.body with
  | project event | other =>
    rw [body] at handled
    cases handled
    rfl
  | directory event =>
    rw [body] at handled plain
    cases event with
    | enter sourceDir binaryDir => cases plain
    | leave sourceDir binaryDir => cases plain
    | propertyMutate mutation =>
      obtain ⟨id, _, handled⟩ := of_activeDirectory_bind handled
      cases handled
      rfl
    | globalPropertyMutate mutation =>
      cases handled
      rfl
  | target event | buildGraph event | replay event | test event | installRuleAdd event
  | exportEvent event | package event =>
    rw [body] at handled
    exact (of_map_stack handled).2

/-- The opening bracket is the event that enters a directory. -/
theorem bracket_opening {frame : StringView × StringView} (opens : event.bracket = .opening frame) :
    event.body = .directory (.enter frame.1 frame.2) := by
  unfold BuildEvent.bracket at opens
  split at opens
  next sourceDir binaryDir shape =>
    cases opens
    exact shape
  all_goals cases opens

/-- The closing bracket is the event that leaves one. -/
theorem bracket_closing {frame : StringView × StringView}
    (closes : event.bracket = .closing frame) :
    event.body = .directory (.leave frame.1 frame.2) := by
  unfold BuildEvent.bracket at closes
  split at closes
  next => cases closes
  next sourceDir binaryDir shape =>
    cases closes
    exact shape
  next => cases closes

/-- An event that is taken moves the open directories as its bracket says. -/
theorem applyEvent_frames (formed : builder.WellFormed)
    (opened : FramesOpen builder.draft.directories builder.directoryStack frames)
    (taken : (builder.applyEvent event).2 = true) :
    ∃ next, (∀ rest, openKeys BuildEvent.bracket frames (event :: rest) =
        openKeys BuildEvent.bracket next rest) ∧
      FramesOpen (builder.applyEvent event).1.draft.directories
        (builder.applyEvent event).1.directoryStack next := by
  obtain ⟨_, ⟨semantic, same⟩ | ⟨draft, stack, handled, after⟩⟩ := applyEvent_taken taken
  · have plain : event.bracket = .plain := by
      unfold BuildEvent.bracket
      cases body : event.body with
      | other => rfl
      | _ => simp [body, BuildEventBody.isBuildSemantic] at semantic
    refine ⟨frames, fun rest => by simp [openKeys, plain], ?_⟩
    rw [same]
    exact opened
  have same : SameCore builder.draft { builder.draft with hasSemanticEntities := true } :=
    ⟨rfl, rfl, rfl, rfl, rfl⟩
  have edit := draftEdit_handleEvent (formed.draft.congr same).indexInRange handled
  have still : FramesOpen draft.directories builder.directoryStack frames := by
    refine opened.mono fun id directory here => ?_
    obtain ⟨changed, there, _, source, binary⟩ := edit.directoryKept here
    exact ⟨changed, there, by simp [DirectoryRecord.frame, source, binary]⟩
  rw [after]
  cases kind : event.bracket with
  | plain =>
    refine ⟨frames, fun rest => by simp [openKeys, kind], ?_⟩
    rw [handleEvent_plain kind handled]
    exact still
  | opening frame =>
    rw [bracket_opening kind] at handled
    cases handled
    refine ⟨frame :: frames, fun rest => by simp [openKeys, kind], ?_⟩
    simp only [FramesOpen, map_cons, List.cons.injEq]
    exact ⟨by simp [DirectoryRecord.frame], still⟩
  | closing frame =>
    rw [bracket_closing kind] at handled
    obtain ⟨id, top, handled⟩ := of_activeDirectory_bind handled
    cases shape : builder.directoryStack with
    | nil => simp [shape] at top
    | cons innermost below =>
      obtain rfl : innermost = id := by simpa [shape] using top
      cases here : builder.draft.directories[innermost]? with
      | none => simp [here, builderError] at handled
      | some current =>
        simp only [here] at handled
        split at handled
        next paths =>
          cases handled
          cases frames with
          | nil => simp [FramesOpen, shape] at opened
          | cons first outer =>
            simp only [FramesOpen, shape, map_cons, List.cons.injEq, here, Option.map_some,
              Option.some.injEq] at opened
            have closes : first = frame := by
              rw [← opened.1, DirectoryRecord.frame, paths.1, paths.2]
            refine ⟨outer, fun rest => by simp [openKeys, kind, closes], ?_⟩
            simpa [FramesOpen, shape] using opened.2
        next => cases handled

/-- After events that are all taken the open directories are the open brackets. -/
theorem feed_frames (formed : builder.WellFormed)
    (opened : FramesOpen builder.draft.directories builder.directoryStack frames)
    (taken : builder.Takes events) :
    ∃ last, openKeys BuildEvent.bracket frames events = some last ∧
      FramesOpen (builder.feed events).draft.directories (builder.feed events).directoryStack
        last := by
  induction events generalizing builder frames with
  | nil => exact ⟨frames, rfl, opened⟩
  | cons event rest ih =>
    obtain ⟨here, later⟩ := taken
    obtain ⟨next, moves, opened⟩ := applyEvent_frames formed opened here
    obtain ⟨last, found, open_⟩ := ih (formed.applyEvent here) opened later
    exact ⟨last, by rw [moves, found], open_⟩

/-- The stack is empty exactly when no bracket is open. -/
theorem stack_empty_iff (taken : Builder.Takes {} events) :
    (Builder.feed {} events).directoryStack = [] ↔ Matched BuildEvent.bracket events := by
  obtain ⟨last, found, opened⟩ := feed_frames Builder.wellFormed_create
    (show FramesOpen _ _ [] from rfl) taken
  have same : (Builder.feed {} events).directoryStack = [] ↔ last = [] := by
    constructor
    · intro empty
      rw [FramesOpen, empty] at opened
      simpa using opened
    · rintro rfl
      simpa [FramesOpen] using opened
  rw [same, ← Nobify.Lib.openKeys_eq_nil_iff, found, Option.some.injEq]

/-- The events are all taken exactly when no fatal error is left. -/
theorem takes_iff (events : List BuildEvent) (sound : builder.hasFatalError = false) :
    builder.Takes events ↔ (builder.feed events).hasFatalError = false := by
  induction events generalizing builder with
  | nil => exact ⟨fun _ => sound, fun _ => trivial⟩
  | cons event rest ih =>
    have unfolded : builder.Takes (event :: rest) ↔ (builder.applyEvent event).2 = true ∧
        (builder.applyEvent event).1.Takes rest := Iff.rfl
    rw [unfolded]
    cases taken : (builder.applyEvent event).2 with
    | true =>
      have still : (builder.applyEvent event).1.hasFatalError = false := by
        obtain ⟨none, ⟨_, same⟩ | ⟨draft, stack, _, after⟩⟩ := applyEvent_taken taken
        · rw [same]
          exact none
        · rw [after]
          exact none
      have later := ih still
      simpa [Builder.feed] using later
    | false =>
      have fatal := applyEvent_failed taken
      have stuck := feed_of_fatal fatal rest
      simp only [Builder.feed, Nobify.Lib.replay_cons, Bool.false_eq_true, false_and, false_iff]
      rw [show replay _ rest _ = (builder.applyEvent event).1 from stuck, fatal]
      simp

/-- What finalize returns. -/
theorem finalize_eq_some_iff : builder.finalize.2 = some draft ↔
      builder.hasFatalError = false ∧ builder.directoryStack = [] ∧ builder.draft = draft := by
  unfold Builder.finalize
  cases fatal : builder.hasFatalError with
  | true => simp
  | false =>
    by_cases empty : builder.directoryStack = []
    · simp [empty]
    · simp [empty]

/-- On every prefix of a stream whose events are all taken, ids are positions, parents come
first, the directory stack is a chain, the name index lists each target once, and owners are
directories. After a failure every later event is rejected. The draft is returned exactly when
no event fails and every directory entered is left with the same paths. -/
theorem builder_invariants (stream : List BuildEvent) :
    (∀ applied, applied <+: stream → Builder.Takes {} applied →
      (Builder.feed {} applied).WellFormed) ∧
    (∀ before failing between later, before ++ failing :: between ++ [later] <+: stream →
      ((Builder.feed {} before).applyEvent failing).2 = false →
      ((Builder.feed {} (before ++ failing :: between)).applyEvent later).2 = false) ∧
    (∀ draft, (Builder.feed {} stream).finalize.2 = some draft ↔
      draft = (Builder.feed {} stream).draft ∧ Builder.Takes {} stream ∧
        Matched BuildEvent.bracket stream) := by
  refine ⟨fun applied _ taken => Builder.wellFormed_feed taken, ?_, ?_⟩
  · intro before failing between later _ failed
    have fatal := applyEvent_failed failed
    have stuck : Builder.feed {} (before ++ failing :: between) =
        ((Builder.feed {} before).applyEvent failing).1 := by
      rw [Builder.feed, Nobify.Lib.replay_append, Nobify.Lib.replay_cons]
      exact feed_of_fatal fatal between
    rw [stuck, applyEvent_of_fatal fatal]
  · intro draft
    have clean : (Builder.feed {} stream).hasFatalError = false ↔ Builder.Takes {} stream :=
      (takes_iff stream rfl).symm
    rw [finalize_eq_some_iff, clean]
    constructor
    · rintro ⟨all, empty, same⟩
      exact ⟨same.symm, all, (stack_empty_iff all).mp empty⟩
    · rintro ⟨same, all, matched⟩
      exact ⟨all, (stack_empty_iff all).mpr matched, same.symm⟩

/-- A directory with a target that first comes up in a property event, and a step. -/
def placeholderStream : List BuildEvent :=
  [{ body := .directory (.enter (sv "/src") (sv "/bin")) },
    { body := .target (.propSet (sv "app") { key := sv "NOTE", value := sv "x", op := .set }) },
    { body := .target (.declare (sv "app") .executable false false []) },
    { body := .buildGraph (.stepDeclare { stepKey := sv "s", stepKind := .outputRule }) },
    { body := .directory (.leave (sv "/src") (sv "/bin")) }]

/-- The invariants on a stream that is taken as a whole. -/
theorem builder_invariants_placeholderStream : (Builder.feed {} placeholderStream).WellFormed ∧
      (Builder.feed {} placeholderStream).finalize.2 =
        some (Builder.feed {} placeholderStream).draft := by
  have invariants := builder_invariants placeholderStream
  have taken : Builder.Takes {} placeholderStream := by
    refine (takes_iff placeholderStream rfl).mpr ?_
    decide +kernel
  have closed : Matched BuildEvent.bracket placeholderStream :=
    Nobify.Lib.openKeys_eq_nil_iff.mp (by decide +kernel)
  exact ⟨invariants.1 _ (List.prefix_refl _) taken, (invariants.2.2 _).mpr ⟨rfl, taken, closed⟩⟩

end Nobify.BuildModel
