import Nobify.Daemon.Runs

/-!
# No change is lost

A changed path is recorded, moves into a batch with the other changes of its time, and is done with
for a module when a run of that module has completed that began later. Between two handlers a
session owes a module such a run as long as the pending changes select it, or it is in the rest of
the running batch, or its run is the one that is running.

The end of a cancelled run drops its batch. What the batch owed is lost unless the newer changes
select its modules again.
-/

namespace Nobify.Daemon

open Lib
open List

variable {acts log newer : List Act} {id : Nat} {after before server : Server} {answers : Answers}

/-! ## Runs in the log -/

/-- A changed path is recorded. -/
def Act.isRecord : Act → Bool
  | .recorded _ => true
  | _ => false

/-- A run starts or ends. -/
def Act.isRun : Act → Bool
  | .spawned _ _ => true
  | .finished _ => true
  | _ => false

/-- The newest start or end of a run in the log is the start of a run of the module. -/
def begun (id : Nat) (log : List Act) : Bool :=
  match log.find? Act.isRun with
  | some (.spawned _ request) => request.action == .runModule && request.moduleId == id
  | _ => false

/-- In the part of the log, a run of the module began and completed without being cancelled. -/
def ran (id : Nat) : List Act → Bool
  | [] => false
  | .finished false :: rest => begun id rest || ran id rest
  | _ :: rest => ran id rest

/-- Later actions that are no runs do not matter to the newest run. -/
theorem begun_append (plain : ∀ act ∈ acts, act.isRun = false) (id : Nat) (log : List Act) :
    begun id (acts ++ log) = begun id log := by
  have skipped : acts.find? Act.isRun = none := by
    rw [List.find?_eq_none]
    intro act mem
    rw [plain act mem]
    decide
  unfold begun
  rw [List.find?_append, skipped, Option.none_or]

/-- The newest run is the one that was just started. -/
@[simp] theorem begun_spawned (id pid : Nat) (request : RunnerRequest) (log : List Act) :
    begun id (.spawned pid request :: log) =
      (request.action == .runModule && request.moduleId == id) := rfl

/-- A run stays in the log. -/
theorem ran_append (acts : List Act) (done : ran id log = true) : ran id (acts ++ log) = true := by
  induction acts with
  | nil => exact done
  | cons act rest ih =>
    rw [cons_append]
    cases act with
    | finished cancelled =>
      cases cancelled with
      | false =>
        simp only [ran, ih, Bool.or_true]
      | true => exact ih
    | accepted fd => exact ih
    | sent fd message => exact ih
    | closed fd => exact ih
    | spawned pid request => exact ih
    | signalled pid signal => exact ih
    | reaped pid => exact ih
    | sessionStarted => exact ih
    | recorded path => exact ih

/-- Talking to clients records nothing and runs nothing. -/
theorem isTraffic_plain {act : Act} (traffic : act.isTraffic = true) :
    act.isRecord = false ∧ act.isRun = false := by
  cases act <;> first | exact ⟨rfl, rfl⟩ | cases traffic

/-! ## Modules of a session -/

/-- A module of the session: the selected one, or any that is eligible for automatic sessions. -/
def SessionModule (registry : Registry) (request : WatchRequest) (id : Nat) : Prop :=
  match request.mode with
  | .module => id = request.moduleId
  | .auto => ∃ module, registry.moduleDef id = some module ∧ module.watchAutoEligible = true

/-- A watch root of the module contains the path. -/
def RootContains (registry : Registry) (id : Nat) (path : StringView) : Prop :=
  ∃ module, registry.moduleDef id = some module ∧
    ∃ root ∈ module.watchRoots, watchPathMatchesRoot root path = true

/-- The changes select the module, or all modules are to be run again. -/
def selects (registry : Registry) (changedPaths : List StringView) (fallbackAll : Bool)
    (id : Nat) : Bool :=
  fallbackAll ||
    match registry.moduleDef id with
    | some module => watchModuleMatchesChangedPaths module changedPaths
    | none => false

/-- The pending changes of the session select the module. -/
def WatchSession.selects (registry : Registry) (watch : WatchSession) (id : Nat) : Bool :=
  Daemon.selects registry watch.changedPaths watch.rescanRequired id

/-- A changed path selects the modules with a root around it. -/
theorem selects_of_changed {registry : Registry} {watch : WatchSession} {path : StringView}
    (changed : path ∈ watch.changedPaths) (contains : RootContains registry id path) :
    watch.selects registry id = true := by
  obtain ⟨module, found, root, mem, inside⟩ := contains
  have hit : watchModuleMatchesChangedPaths module watch.changedPaths = true := by
    unfold watchModuleMatchesChangedPaths
    rw [any_eq_true]
    exact ⟨path, changed, any_eq_true.mpr ⟨root, mem, inside⟩⟩
  unfold WatchSession.selects Daemon.selects
  rw [found]
  simp [hit]

/-- More changes select more modules. -/
theorem selects_mono {registry : Registry} {before after : WatchSession}
    (changed : ∀ path ∈ before.changedPaths, path ∈ after.changedPaths)
    (rescan : before.rescanRequired = true → after.rescanRequired = true)
    (selected : before.selects registry id = true) : after.selects registry id = true := by
  unfold WatchSession.selects Daemon.selects at selected ⊢
  rcases Bool.or_eq_true_iff.mp selected with required | hit
  · rw [rescan required]
    rfl
  · cases found : registry.moduleDef id with
    | none =>
      rw [found] at hit
      cases hit
    | some module =>
      rw [found] at hit
      have more : watchModuleMatchesChangedPaths module after.changedPaths = true := by
        unfold watchModuleMatchesChangedPaths at hit ⊢
        obtain ⟨path, mem, inside⟩ := any_eq_true.mp hit
        exact any_eq_true.mpr ⟨path, changed path mem, inside⟩
      simp [more]

/-- Without pending changes no module is selected. -/
theorem selects_none {registry : Registry} {watch : WatchSession} (idle : watch.hasPending = false)
    (id : Nat) : watch.selects registry id = false := by
  unfold WatchSession.hasPending at idle
  obtain ⟨⟨_, paths⟩, rescan⟩ : (watch.rerunPending = false ∧ watch.changedPaths = []) ∧
      watch.rescanRequired = false := by simpa using idle
  unfold WatchSession.selects Daemon.selects watchModuleMatchesChangedPaths
  rw [paths, rescan]
  cases registry.moduleDef id <;> rfl

/-- Every module of the session that is selected is routed. -/
theorem mem_watchRoutedModules {registry : Registry} {request : WatchRequest}
    {changedPaths : List StringView} {fallbackAll : Bool} {modules : List Nat}
    (routed : watchRoutedModules registry request changedPaths fallbackAll = some modules)
    (session : SessionModule registry request id)
    (selected : selects registry changedPaths fallbackAll id = true) : id ∈ modules := by
  unfold watchRoutedModules at routed
  unfold SessionModule at session
  unfold selects at selected
  cases mode : request.mode with
  | module =>
    simp only [mode] at routed session
    subst session
    cases found : registry.moduleDef request.moduleId with
    | none =>
      rw [found] at routed
      cases routed
    | some module =>
      rw [found] at routed selected
      simp only [Option.map_some, selected, if_true, Option.some.injEq] at routed
      rw [← routed]
      exact mem_singleton_self _
  | auto =>
    simp only [mode, Option.some.injEq] at routed session
    obtain ⟨module, found, eligible⟩ := session
    rw [found] at selected
    rw [← routed]
    unfold watchCollectAutoModules
    rw [mem_filter, mem_range]
    constructor
    · exact (List.getElem?_eq_some_iff.mp found).1
    · rw [found]
      simpa [eligible] using selected

/-! ## What a session owes -/

section Owed

variable (registry : Registry)

/-- The module still has its run to come, or had it: the part of the log since a change holds a
run of it, or the pending changes select it, or it is in the rest of the running batch, or its run
is the running one and began since. -/
def Owed (server : Server) (newer : List Act) (id : Nat) : Prop :=
  ran id newer = true ∨ server.watch.selects registry id = true ∨ (server.worker.pid.isSome = true ∧
      (id ∈ server.watch.batchModules.drop server.watch.batchIndex ∨
        (server.watch.batchModules[server.watch.batchIndex - 1]? = some id ∧
          begun id newer = true)))

/-- What is owed between two runs: what the pending changes select, and what is left of a batch. -/
def Due (server : Server) (batch : List Nat) (newer : List Act) (id : Nat) : Prop :=
  ran id newer = true ∨ server.watch.selects registry id = true ∨ id ∈ batch

/-- The invariant: every module of the session with a root around a path that was recorded since
the session started is owed a run. -/
def Kept (server : Server) : Prop :=
  server.watch.active = true → ∀ newer path older,
    server.log = newer ++ .recorded path :: older → .sessionStarted ∉ newer →
      ∀ id, SessionModule registry server.watch.request id → RootContains registry id path →
        Owed registry server newer id

/-- A part of a handler in which nothing is recorded, and what was owed before stays owed. -/
structure Moves (pre post : List Act → Nat → Prop) (before after : Server) : Prop where
  active : after.watch.active = before.watch.active
  request : after.watch.request = before.watch.request
  log : ∃ acts, after.log = acts ++ before.log ∧ (∀ act ∈ acts, act.isRecord = false) ∧
    ∀ newer id, SessionModule registry before.watch.request id → pre newer id →
      post (acts ++ newer) id

variable {registry}

variable {pre mid post : List Act → Nat → Prop} {middle : Server}

/-- One part after the other. -/
theorem Moves.trans (first : Moves registry pre mid before middle)
    (second : Moves registry mid post middle after) :
    Moves registry pre post before after := by
  obtain ⟨firstActs, firstLog, firstPlain, firstMoves⟩ := first.log
  obtain ⟨secondActs, secondLog, secondPlain, secondMoves⟩ := second.log
  refine ⟨second.active.trans first.active, second.request.trans first.request,
    secondActs ++ firstActs, ?_, ?_, ?_⟩
  · rw [secondLog, firstLog, append_assoc]
  · intro act mem
    rcases mem_append.mp mem with mem | mem
    · exact secondPlain act mem
    · exact firstPlain act mem
  · intro newer id session owed
    rw [append_assoc]
    rw [first.request] at secondMoves
    exact secondMoves _ id session (firstMoves newer id session owed)

/-- Less may be owed before. -/
theorem Moves.weaken (moves : Moves registry mid post before after)
    (less : ∀ newer id, SessionModule registry before.watch.request id → pre newer id → mid newer
      id) : Moves registry pre post before after := by
  obtain ⟨acts, log, plain, kept⟩ := moves.log
  exact ⟨moves.active, moves.request, acts, log, plain,
    fun newer id session owed => kept newer id session (less newer id session owed)⟩

/-- Where an action does not occur in the first part of a list, it splits the second part. -/
theorem split_second {older : List Act} {act : Act} (whole : acts ++ log = newer ++ act :: older)
    (absent : act ∉ acts) : ∃ rest, newer = acts ++ rest ∧ log = rest ++ act :: older := by
  rcases append_eq_append_iff.mp whole with ⟨rest, newerEq, logEq⟩ | ⟨rest, actsEq, tail⟩
  · exact ⟨rest, newerEq, logEq⟩
  · cases rest with
    | nil =>
      refine ⟨[], ?_, ?_⟩
      · rw [actsEq]
        simp
      · simpa using tail.symm
    | cons head others =>
      rw [cons_append, List.cons.injEq] at tail
      exact absurd (by rw [actsEq, ← tail.1]; simp) absent

/-- Nothing is owed to a session that is not active. -/
theorem Kept.inactive (inactive : server.watch.active = false) : Kept registry server := by
  intro active
  rw [inactive] at active
  cases active

/-- What was owed stays owed. -/
theorem Kept.moves (kept : Kept registry before)
    (moves : Moves registry (Owed registry before) (Owed registry after) before after) :
    Kept registry after := by
  obtain ⟨acts, log, plain, owed⟩ := moves.log
  intro active newer path older split fresh id session contains
  rw [log] at split
  have absent : Act.recorded path ∉ acts := fun mem => by
    have recorded := plain _ mem
    cases recorded
  obtain ⟨rest, newerEq, here⟩ := split_second split absent
  rw [moves.active] at active
  rw [moves.request] at session
  rw [newerEq]
  apply owed rest id session
  apply kept active rest path older here ?_ id session contains
  intro mem
  exact fresh (by rw [newerEq]; exact mem_append_right _ mem)

/-- While the worker and the batch stay, what is owed only grows. -/
theorem Owed.grow (owed : Owed registry before newer id)
    (pid : after.worker.pid = before.worker.pid)
    (batch : after.watch.batchModules = before.watch.batchModules)
    (index : after.watch.batchIndex = before.watch.batchIndex)
    (selected : before.watch.selects registry id = true → after.watch.selects registry id = true)
    (plain : ∀ act ∈ acts, act.isRun = false) : Owed registry after (acts ++ newer) id := by
  rcases owed with done | pending | ⟨runs, rest | ⟨current, started⟩⟩
  · exact .inl (ran_append acts done)
  · exact .inr (.inl (selected pending))
  · refine .inr (.inr ⟨by rw [pid]; exact runs, .inl ?_⟩)
    rw [batch, index]
    exact rest
  · refine .inr (.inr ⟨by rw [pid]; exact runs, .inr ⟨?_, ?_⟩⟩)
    · rw [batch, index]
      exact current
    · rw [begun_append plain]
      exact started

/-! ## Starting what is owed -/

/-- The preflight succeeds and a worker is started. -/
structure Answers.Starts (answers : Answers) : Prop where
  preflight : answers.preflight.1 = true
  spawn : ∃ pid, answers.spawn = .started pid

instance (answers : Answers) : Decidable answers.Starts :=
  match spawn : answers.spawn with
  | .started pid =>
    if preflight : answers.preflight.1 = true then .isTrue ⟨preflight, pid, spawn⟩
    else .isFalse fun starts => preflight starts.preflight
  | .refused => .isFalse fun starts => by
    obtain ⟨_, started⟩ := starts.spawn
    rw [spawn] at started
    cases started
  | .failed _ => .isFalse fun starts => by
    obtain ⟨_, started⟩ := starts.spawn
    rw [spawn] at started
    cases started
  | .unwatched _ => .isFalse fun starts => by
    obtain ⟨_, started⟩ := starts.spawn
    rw [spawn] at started
    cases started

/-- A server that has started the worker of a request. -/
structure Launched (request : RunnerRequest) (before after : Server) : Prop where
  watch : after.watch = { before.watch with clientSource := after.watch.clientSource }
  pid : after.worker.pid.isSome = true
  log : ∃ pid acts, after.log = .spawned pid request :: (acts ++ before.log) ∧
    ∀ act ∈ acts, act.isTraffic = true

variable (starts : answers.Starts)

include starts

theorem watchRunModule_launched {request : RunnerRequest} {moduleName profileName : StringView}
    (ran : (watchRunModule server answers request moduleName profileName).1 = true) :
    Launched request server (watchRunModule server answers request moduleName profileName).2 := by
  obtain ⟨pid, started⟩ := starts.spawn
  have told := watchSendInfof_quiet { server with telemetry := answers.preflight.2 }
    (sv "[watch] running " ++ moduleName ++ sv " (" ++ profileName ++ sv ")\n")
  unfold watchRunModule at ran ⊢
  dsimp only at ran ⊢
  rw [starts.preflight] at ran ⊢
  rw [if_neg (by decide)] at ran ⊢
  revert ran told
  generalize watchSendInfof { server with telemetry := answers.preflight.2 } _ = announced
  intro ran told
  obtain ⟨acts, log, traffic⟩ := told.log
  split at ran
  · cases ran
  · rename_i sent
    rw [if_neg sent]
    have spawned : spawnWorker announced.2 answers request announced.2.watch.requestId =
        (true, { recordWorker announced.2 request announced.2.watch.requestId pid with
          worker.stdoutSource := true, worker.stderrSource := true,
          worker.pidfdSource := true }) := by
      unfold spawnWorker
      rw [started]
    rw [spawned, if_pos rfl]
    refine ⟨told.watch, rfl, pid, acts, ?_, traffic⟩
    exact congrArg (Act.spawned pid request :: ·) log

/-- A module that is taken off the batch has its worker started. -/
theorem watchStartModule_launched
    (started : (watchStartModule registry server answers id).1 = true) :
    ∃ request : RunnerRequest, request.action = .runModule ∧ request.moduleId = id ∧
      Launched request { server with watch.batchIndex := server.watch.batchIndex + 1 }
        (watchStartModule registry server answers id).2 := by
  unfold watchStartModule at started ⊢
  dsimp only at started ⊢
  split at started
  · cases started
  · rename_i module _
    split at started
    · cases started
    · exact ⟨watchMakeModuleRequest _ id module, rfl, rfl, watchRunModule_launched starts started⟩

omit starts

/-- Starting a module of the batch leaves the rest of the batch to come. -/
theorem watchStartModule_moves (starts : answers.Starts)
    (here : server.watch.batchModules[server.watch.batchIndex]? = some id)
    (started : (watchStartModule registry server answers id).1 = true) :
    Moves registry (Due registry server (server.watch.batchModules.drop server.watch.batchIndex))
      (Owed registry (watchStartModule registry server answers id).2) server
      (watchStartModule registry server answers id).2 := by
  obtain ⟨request, action, moduleId, launched⟩ := watchStartModule_launched starts started
  revert launched
  generalize (watchStartModule registry server answers id).2 = after
  intro launched
  obtain ⟨pid, acts, log, traffic⟩ := launched.log
  refine ⟨by rw [launched.watch], by rw [launched.watch], .spawned pid request :: acts, ?_, ?_, ?_⟩
  · exact log
  · intro act mem
    rcases mem_cons.mp mem with rfl | mem
    · rfl
    · exact (isTraffic_plain (traffic act mem)).1
  · intro newer other _ due
    rcases due with done | selected | rest
    · exact .inl (ran_append (.spawned pid request :: acts) done)
    · refine .inr (.inl ?_)
      rw [launched.watch]
      exact selected
    · refine .inr (.inr ⟨launched.pid, ?_⟩)
      rw [launched.watch]
      dsimp only
      obtain ⟨bound, head⟩ := List.getElem?_eq_some_iff.mp here
      rw [drop_eq_getElem_cons bound, head] at rest
      rcases mem_cons.mp rest with rfl | rest
      · refine .inr ⟨here, ?_⟩
        rw [cons_append, begun_spawned, action, moduleId]
        simp
      · exact .inl rest

include starts

/-- The selected modules become the batch, and its first module is started. -/
theorem watchBeginBatch_moves {modules : List Nat}
    (begun : (watchBeginBatch registry server answers modules).1 = true) :
    Moves registry (fun newer id => ran id newer = true ∨ id ∈ modules)
      (Owed registry (watchBeginBatch registry server answers modules).2) server
      (watchBeginBatch registry server answers modules).2 := by
  cases modules with
  | nil =>
    refine ⟨rfl, rfl, [], rfl, by simp, ?_⟩
    intro newer id _ due
    rcases due with done | impossible
    · exact .inl done
    · cases impossible
  | cons id rest =>
    have started := @watchStartModule_moves id { server with
      watch.batchModules := id :: rest, watch.batchIndex := 0, watch.batchIsBaseline := false,
      watch.changedPaths := [], watch.rescanRequired := false } answers registry starts rfl begun
    obtain ⟨acts, log, plain, owed⟩ := started.log
    refine ⟨started.active, started.request, acts, log, plain, ?_⟩
    intro newer other session due
    apply owed newer other session
    rcases due with done | mem
    · exact .inl done
    · exact .inr (.inr mem)

theorem watchRouteBatch_moves {fallbackAll : Bool}
    (routed : (watchRouteBatch registry server answers fallbackAll).1 = true) :
    Moves registry (fun newer id => ran id newer = true ∨
        selects registry server.watch.changedPaths fallbackAll id = true)
      (Owed registry (watchRouteBatch registry server answers fallbackAll).2) server
      (watchRouteBatch registry server answers fallbackAll).2 := by
  unfold watchRouteBatch at routed ⊢
  cases found : watchRoutedModules registry server.watch.request server.watch.changedPaths
      fallbackAll with
  | none =>
    rw [found] at routed
    cases routed
  | some modules =>
    rw [found] at routed
    dsimp only at routed ⊢
    have overview := watchSendBatchOverview_quiet registry
      { server with watch.rerunPending := false } modules fallbackAll
    revert routed overview
    generalize watchSendBatchOverview registry { server with watch.rerunPending := false } modules
      fallbackAll = announced
    intro routed overview
    split at routed
    · rename_i sent
      rw [if_pos sent]
      have begun := watchBeginBatch_moves starts routed
      obtain ⟨acts, log, plain, owed⟩ := begun.log
      obtain ⟨tolds, toldLog, traffic⟩ := overview.log
      have request : announced.2.watch.request = server.watch.request := by rw [overview.watch]
      refine ⟨begun.active.trans overview.active, begun.request.trans request, acts ++ tolds,
        ?_, ?_, ?_⟩
      · rw [log, toldLog, append_assoc]
      · intro act mem
        rcases mem_append.mp mem with mem | mem
        · exact plain act mem
        · exact (isTraffic_plain (traffic act mem)).1
      · intro newer id session due
        rw [append_assoc]
        rw [request] at owed
        apply owed _ id session
        rcases due with done | selected
        · exact .inl (ran_append tolds done)
        · exact .inr (mem_watchRoutedModules found session selected)
    · cases routed

/-- Handling the pending changes starts everything they select. -/
theorem watchHandlePendingBatch_moves
    (handled : (watchHandlePendingBatch registry server answers).1 = true) :
    Moves registry (Due registry server [])
      (Owed registry (watchHandlePendingBatch registry server answers).2) server
      (watchHandlePendingBatch registry server answers).2 := by
  have sorted : ∀ fallbackAll id,
      selects registry (watchSortChangedPaths server).watch.changedPaths fallbackAll id =
        selects registry server.watch.changedPaths fallbackAll id := by
    intro fallbackAll id
    have same : ∀ module, watchModuleMatchesChangedPaths module
        (watchSortChangedPaths server).watch.changedPaths =
        watchModuleMatchesChangedPaths module server.watch.changedPaths := by
      intro module
      unfold watchModuleMatchesChangedPaths watchSortChangedPaths
      rw [Bool.eq_iff_iff, any_eq_true, any_eq_true]
      simp only [mem_insertionSort]
    unfold selects
    cases registry.moduleDef id with
    | none => rfl
    | some module => simp only [same]
  unfold watchHandlePendingBatch at handled ⊢
  split at handled
  · cases handled
  · rename_i active
    rw [if_neg active]
    dsimp only at handled ⊢
    have rescan : (watchSortChangedPaths server).watch.rescanRequired =
        server.watch.rescanRequired := rfl
    split at handled
    · rename_i required
      rw [if_pos required]
      have scanned := registerRoots_scanned (watchSortChangedPaths server).watch answers.scan
      revert handled scanned
      generalize registerRoots (watchSortChangedPaths server).watch answers.scan = registered
      intro handled scanned
      split at handled
      · rename_i succeeded
        rw [if_pos succeeded]
        have moved := watchRouteBatch_moves starts handled
        have request : registered.2.request = server.watch.request := by rw [scanned.same]; rfl
        obtain ⟨acts, log, plain, owed⟩ := moved.log
        refine ⟨moved.active.trans scanned.active, moved.request.trans request, acts, log,
          plain, ?_⟩
        intro newer id session due
        rw [← request] at session
        apply owed newer id session
        rcases due with done | _ | impossible
        · exact .inl done
        · exact .inr rfl
        · cases impossible
      · cases handled
    · rename_i notRequired
      rw [if_neg notRequired]
      have moved := watchRouteBatch_moves starts handled
      obtain ⟨acts, log, plain, owed⟩ := moved.log
      refine ⟨moved.active, moved.request, acts, log, plain, ?_⟩
      intro newer id session due
      apply owed newer id session
      rcases due with done | selected | impossible
      · exact .inl done
      · refine .inr ?_
        rw [sorted]
        have notRescan : server.watch.rescanRequired = false := Bool.eq_false_iff.mpr notRequired
        unfold WatchSession.selects at selected
        rw [notRescan] at selected
        exact selected
      · cases impossible

omit starts

/-- What the pending changes select is owed. -/
theorem Due.owed (due : Due registry server [] newer id) : Owed registry server newer id := by
  rcases due with done | selected | impossible
  · exact .inl done
  · exact .inr (.inl selected)
  · cases impossible

/-! ## The end of a run -/

include starts in
/-- Going on after a run of a session starts the rest of its batch, or what is pending. -/
theorem watchContinue_moves {ok : Bool}
    (continued : (watchContinue registry server answers ok).1 = true)
    (stays : (watchContinue registry server answers ok).2.watch.active = true) :
    Moves registry (Due registry server (server.watch.batchModules.drop server.watch.batchIndex))
      (Owed registry (watchContinue registry server answers ok).2) server
      (watchContinue registry server answers ok).2 := by
  have inactive : (if (watchResetSession server).shuttingDown &&
      !(watchResetSession server).watch.active then
        eventExit (watchResetSession server) (if ok then 0 else 1)
      else watchResetSession server).watch.active = false := by
    split
    · have zero := watchResetSession_watch server
      exact congrArg WatchSession.active zero
    · rw [watchResetSession_watch]
      rfl
  unfold watchContinue at continued stays ⊢
  dsimp only at continued stays ⊢
  split at continued
  · rename_i ends
    rw [if_pos ends] at stays
    rw [inactive] at stays
    cases stays
  · rename_i goesOn
    rw [if_neg goesOn] at stays ⊢
    split at continued
    · rename_i more
      rw [if_pos more] at stays ⊢
      have here := List.getElem?_eq_getElem more
      unfold watchStartNextModule at continued stays ⊢
      split at continued
      · cases continued
      · rename_i active
        rw [if_neg active] at stays ⊢
        rw [here] at continued stays ⊢
        exact watchStartModule_moves starts here continued
    · rename_i noMore
      rw [if_neg noMore] at stays ⊢
      have empty : server.watch.batchModules.drop server.watch.batchIndex = [] :=
        drop_eq_nil_of_le (Nat.le_of_not_lt noMore)
      rw [empty]
      split at continued
      · rename_i pending
        rw [if_pos pending]
        exact watchHandlePendingBatch_moves starts continued
      · rename_i notPending
        rw [if_neg notPending] at stays ⊢
        split at continued
        · rename_i ends
          rw [if_pos ends, inactive] at stays
          cases stays
        · rename_i remains
          rw [if_neg remains] at stays ⊢
          have same : (if server.shuttingDown && !server.watch.active then
              eventExit server (if ok then 0 else 1) else server).watch = server.watch := by
            split <;> rfl
          have log : (if server.shuttingDown && !server.watch.active then
              eventExit server (if ok then 0 else 1) else server).log = server.log := by
            split <;> rfl
          refine ⟨by rw [same], by rw [same], [], log, by simp, ?_⟩
          intro newer id _ due
          rcases due with done | selected | impossible
          · exact .inl done
          · refine .inr (.inl ?_)
            rw [same]
            exact selected
          · cases impossible

/-- A run that ends without being cancelled is what its module was owed. -/
theorem resetReported_moves {told : Server} (quiet : Quiet server told) :
    Moves registry (Owed registry server)
      (Due registry (resetWorkerState { told with log := .finished false :: told.log } false)
        (server.watch.batchModules.drop server.watch.batchIndex))
      server (resetWorkerState { told with log := .finished false :: told.log } false) := by
  obtain ⟨acts, log, traffic⟩ := quiet.log
  refine ⟨quiet.active, ?_, .finished false :: acts, ?_, ?_, ?_⟩
  · show told.watch.request = server.watch.request
    rw [quiet.watch]
  · show Act.finished false :: told.log = _
    rw [log]
    rfl
  · intro act mem
    rcases mem_cons.mp mem with rfl | mem
    · rfl
    · exact (isTraffic_plain (traffic act mem)).1
  · intro newer id _ owed
    rcases owed with done | selected | ⟨_, rest | ⟨_, started⟩⟩
    · exact .inl (ran_append (.finished false :: acts) done)
    · refine .inr (.inl ?_)
      show told.watch.selects registry id = true
      rw [quiet.watch]
      exact selected
    · exact .inr (.inr rest)
    · refine .inl ?_
      have running : begun id (acts ++ newer) = true := by
        rw [begun_append (fun act mem => (isTraffic_plain (traffic act mem)).2)]
        exact started
      simp [ran, running]

include starts in
/-- After a reported run of a session its batch goes on. -/
theorem finishReportedRun_moves {result : RunnerResult} {attached : Bool}
    (finished : (finishReportedRun registry server answers result true attached).1 = true)
    (stays : (finishReportedRun registry server answers result true attached).2.watch.active = true) :
    Moves registry (Owed registry server)
      (Owed registry (finishReportedRun registry server answers result true attached).2) server
      (finishReportedRun registry server answers result true attached).2 := by
  have toldQuiet := sendRunResult_quiet server answers result attached
  unfold finishReportedRun at finished stays ⊢
  dsimp only at finished stays ⊢
  revert finished stays toldQuiet
  generalize sendRunResult server answers result attached = told
  intro finished stays toldQuiet
  rw [if_pos rfl] at finished stays ⊢
  have reset := @resetReported_moves server registry _ toldQuiet
  have batch : (resetWorkerState { told.2 with log := .finished false :: told.2.log }
      false).watch.batchModules.drop (resetWorkerState { told.2 with
        log := .finished false :: told.2.log } false).watch.batchIndex =
      server.watch.batchModules.drop server.watch.batchIndex := by
    rw [resetWorkerState_watch]
    show told.2.watch.batchModules.drop told.2.watch.batchIndex = _
    rw [toldQuiet.watch]
  rw [← batch] at reset
  exact (reset).trans (watchContinue_moves starts finished stays)

/-- What a cancelled run drops is selected again by the changes that cancelled it: the module of
the run and the rest of its batch. -/
def batchCovered (registry : Registry) (server : Server) : Bool :=
  (server.watch.batchModules.drop (server.watch.batchIndex - 1)).all (server.watch.selects registry)

/-- Resetting the worker closes at most the client connection. -/
theorem resetWorkerState_log (server : Server) (closeClientFd : Bool) :
    ∃ acts, (resetWorkerState server closeClientFd).log = acts ++ server.log ∧
      ∀ act ∈ acts, act.isTraffic = true := by
  cases closeClientFd with
  | false => exact ⟨[], rfl, by simp⟩
  | true => exact (closeClient_quiet server).log

/-- The changes that cancelled a run owe what it drops, if they select it. -/
theorem resetCancelled_moves {told : Server} (quiet : Quiet server told)
    (covered : batchCovered registry server = true) (closeClientFd : Bool) :
    Moves registry (Owed registry server)
      (Due registry (resetWorkerState { told with
        watch.cancelRequested := false, log := .finished true :: told.log } closeClientFd) [])
      server (resetWorkerState { told with
        watch.cancelRequested := false, log := .finished true :: told.log } closeClientFd) := by
  obtain ⟨acts, log, traffic⟩ := quiet.log
  obtain ⟨closes, resetLog, closesTraffic⟩ := resetWorkerState_log { told with
    watch.cancelRequested := false, log := .finished true :: told.log } closeClientFd
  have watch : (resetWorkerState { told with
      watch.cancelRequested := false, log := .finished true :: told.log } closeClientFd).watch =
      { told.watch with cancelRequested := false } := resetWorkerState_watch ..
  refine ⟨?_, ?_, closes ++ .finished true :: acts, ?_, ?_, ?_⟩
  · rw [watch]
    exact quiet.active
  · rw [watch, quiet.watch]
  · rw [resetLog, log, append_assoc]
    rfl
  · intro act mem
    rcases mem_append.mp mem with mem | mem
    · exact (isTraffic_plain (closesTraffic act mem)).1
    · rcases mem_cons.mp mem with rfl | mem
      · rfl
      · exact (isTraffic_plain (traffic act mem)).1
  · intro newer id _ owed
    have select : server.watch.selects registry id = true → (resetWorkerState { told with
        watch.cancelRequested := false, log := .finished true :: told.log }
        closeClientFd).watch.selects registry id = true := by
      intro selected
      rw [watch, quiet.watch]
      exact selected
    have drops : id ∈ server.watch.batchModules.drop (server.watch.batchIndex - 1) →
        server.watch.selects registry id = true := all_eq_true.mp covered id
    rcases owed with done | selected | ⟨_, rest | ⟨current, _⟩⟩
    · exact .inl (ran_append (closes ++ .finished true :: acts) done)
    · exact .inr (.inl (select selected))
    · have dropped := drop_subset_drop_left server.watch.batchModules
        (Nat.sub_le server.watch.batchIndex 1) rest
      exact .inr (.inl (select (drops dropped)))
    · have dropped : id ∈ server.watch.batchModules.drop (server.watch.batchIndex - 1) := by
        obtain ⟨bound, head⟩ := List.getElem?_eq_some_iff.mp current
        rw [drop_eq_getElem_cons bound, head]
        exact mem_cons_self
      exact .inr (.inl (select (drops dropped)))

include starts in
theorem finishCancelledRun_moves (active : server.watch.active = true)
    (covered : server.watch.closing = true ∨ batchCovered registry server = true)
    (finished : (finishCancelledRun registry server answers).1 = true)
    (stays : (finishCancelledRun registry server answers).2.watch.active = true) :
    Moves registry (Owed registry server)
      (Owed registry (finishCancelledRun registry server answers).2) server
      (finishCancelledRun registry server answers).2 := by
  have toldQuiet := watchSendInfof_quiet server
    (sv "[watch] stale run aborted after newer changes\n")
  unfold finishCancelledRun at finished stays ⊢
  dsimp only at finished stays ⊢
  rw [watchSendInfof_active active (by decide), if_neg (by decide)] at finished stays ⊢
  revert finished stays toldQuiet
  generalize (watchSendInfof server _).2 = told
  intro finished stays toldQuiet
  have closing : (resetWorkerState { told with
      watch.cancelRequested := false, log := .finished true :: told.log }
      told.watch.closing).watch.closing = server.watch.closing := by
    rw [resetWorkerState_watch]
    exact toldQuiet.closing
  split at finished
  · rename_i closes
    rw [if_pos closes] at stays
    have inactive : ∀ closed : Server, closed.watch = .zero →
        (if closed.shuttingDown then eventExit closed 0 else closed).watch.active = false := by
      intro closed zero
      split <;> exact congrArg WatchSession.active zero
    rw [inactive _ (watchResetSession_watch _)] at stays
    cases stays
  · rename_i open_
    rw [if_neg open_] at stays ⊢
    rw [closing] at open_
    have reset := resetCancelled_moves toldQuiet (covered.resolve_left open_) told.watch.closing
    split at finished
    · rename_i pending
      rw [if_pos pending]
      exact (reset).trans (watchHandlePendingBatch_moves starts finished)
    · rename_i notPending
      rw [if_neg notPending]
      obtain ⟨resetActs, resetLog, plain, due⟩ := reset.log
      exact ⟨reset.active, reset.request, resetActs, resetLog, plain,
        fun newer id session owed => (due newer id session owed).owed⟩

/-- A server whose session is not active stays so at the end of a run. -/
theorem finishActiveRun_inactive (inactive : server.watch.active = false) (answers : Answers) :
    (finishActiveRun registry server answers).2.watch.active = false := by
  unfold finishActiveRun
  split
  · exact inactive
  · rw [inactive, Bool.false_and, if_neg (by decide)]
    rcases finishCompletedRun_cases registry server answers with
      ⟨_, told, toldQuiet, same⟩ | ⟨_, _, still⟩
    · rw [same, inactive]
      have sentQuiet := sendRunResult_quiet told answers (runnerResult server.worker answers)
        server.client.isSome
      have toldInactive := sentQuiet.active.trans (toldQuiet.active.trans inactive)
      unfold finishReportedRun
      dsimp only
      rw [if_neg (by decide)]
      split
      · show (resetWorkerState _ _).watch.active = false
        rw [resetWorkerState_watch]
        exact toldInactive
      · rw [resetWorkerState_watch]
        exact toldInactive
    · exact still

/-- What happened does not touch what a session owes: no run starts or ends, no path is recorded. -/
structure Idles (before after : Server) : Prop where
  pid : after.worker.pid = before.worker.pid
  active : after.watch.active = before.watch.active
  request : after.watch.request = before.watch.request
  changedPaths : after.watch.changedPaths = before.watch.changedPaths
  rescanRequired : after.watch.rescanRequired = before.watch.rescanRequired
  batchModules : after.watch.batchModules = before.watch.batchModules
  batchIndex : after.watch.batchIndex = before.watch.batchIndex
  log : ∃ acts, after.log = acts ++ before.log ∧
    ∀ act ∈ acts, act.isRecord = false ∧ act.isRun = false

theorem Quiet.idles (quiet : Quiet before after) : Idles before after := by
  obtain ⟨acts, log, traffic⟩ := quiet.log
  exact ⟨by rw [quiet.worker], quiet.active, by rw [quiet.watch], by rw [quiet.watch],
    by rw [quiet.watch], by rw [quiet.watch], by rw [quiet.watch], acts, log,
    fun act mem => isTraffic_plain (traffic act mem)⟩

theorem Idles.moves (idles : Idles before after) :
    Moves registry (Owed registry before) (Owed registry after) before after := by
  obtain ⟨acts, log, plain⟩ := idles.log
  refine ⟨idles.active, idles.request, acts, log, fun act mem => (plain act mem).1, ?_⟩
  intro newer id _ owed
  refine owed.grow idles.pid idles.batchModules idles.batchIndex ?_
    (fun act mem => (plain act mem).2)
  intro selected
  unfold WatchSession.selects at selected ⊢
  rw [idles.changedPaths, idles.rescanRequired]
  exact selected

theorem Kept.idles (kept : Kept registry before) (idles : Idles before after) :
    Kept registry after := kept.moves idles.moves

theorem Kept.quiet (kept : Kept registry before) (quiet : Quiet before after) :
    Kept registry after := kept.idles quiet.idles

/-- A recorded path is among the changed paths, which owe its modules a run. -/
theorem Kept.noted (kept : Kept registry before) (noted : Noted before after) :
    Kept registry after := by
  obtain ⟨acts, log, records⟩ := noted.log
  intro active newer path older split fresh id session contains
  by_cases recent : Act.recorded path ∈ acts
  · obtain ⟨changed, mem, same⟩ := records _ recent
    cases same
    exact .inr (.inl (selects_of_changed mem contains))
  · rw [log] at split
    obtain ⟨rest, newerEq, here⟩ := split_second split recent
    have request : after.watch.request = before.watch.request := by rw [noted.same]
    rw [noted.active] at active
    rw [request] at session
    rw [newerEq]
    have owed := kept active rest path older here
      (fun mem => fresh (by rw [newerEq]; exact mem_append_right _ mem)) id session contains
    refine owed.grow (by rw [noted.worker]) (by rw [noted.same]) (by rw [noted.same])
      (selects_mono noted.changed noted.rescan) ?_
    intro act mem
    obtain ⟨_, _, rfl⟩ := records act mem
    rfl

include starts in
/-- The end of a run keeps what is owed, if a cancelled run's batch is covered. -/
theorem afterWorkerEvent_kept (kept : Kept registry server)
    (covered : server.worker.over = true → server.watch.active = true → server.watch.cancelRequested = true → server.watch.closing = true ∨ batchCovered registry server = true) :
    Kept registry (afterWorkerEvent registry server answers) := by
  have inactive := fun quiet : server.watch.active = false =>
    @finishActiveRun_inactive server registry quiet answers
  unfold afterWorkerEvent
  dsimp only
  split
  · apply Kept.inactive
    rw [watchResetSession_watch]
    rfl
  · rename_i notReset
    cases stays : (finishActiveRun registry server answers).2.watch.active with
    | false => exact .inactive stays
    | true =>
      have finished : (finishActiveRun registry server answers).1 = true := by
        rw [stays] at notReset
        simpa using notReset
      have active : server.watch.active = true := by
        by_contra notActive
        rw [inactive (Bool.eq_false_iff.mpr notActive)] at stays
        cases stays
      revert finished stays
      unfold finishActiveRun
      split
      · intro _ _
        exact kept
      · rename_i ended
        have ended : server.worker.over = true := by
          rw [Bool.not_eq_true', Bool.not_eq_false] at ended
          exact ended
        split
        · rename_i cancelled
          intro stays finished
          have cancelRequested := (Bool.and_eq_true_iff.mp cancelled).2
          exact kept.moves (finishCancelledRun_moves starts active
            (covered ended active cancelRequested) finished stays)
        · rcases finishCompletedRun_cases registry server answers with
            ⟨_, told, toldQuiet, same⟩ | ⟨_, _, still⟩
          · rw [same, active]
            intro stays finished
            have cleared : Kept registry (clearBufferedWorkerOutput server) := kept
            exact (cleared.quiet toldQuiet).moves (finishReportedRun_moves starts finished stays)
          · intro stays
            rw [still] at stays
            cases stays

/-! ## Handlers -/

/-- A server without its session owes nothing. -/
theorem watchResetSession_kept (server : Server) : Kept registry (watchResetSession server) := by
  apply Kept.inactive
  rw [watchResetSession_watch]
  rfl

theorem beginWorkerCancel_idles (server : Server) (answers : Answers)
    (markWatchCancel closingSession : Bool) :
    Idles server (beginWorkerCancel server answers markWatchCancel closingSession).2 := by
  unfold beginWorkerCancel
  split
  · exact (Quiet.refl server).idles
  · rename_i pid _
    dsimp only
    split
    · exact ⟨rfl, rfl, rfl, rfl, rfl, rfl, rfl, [.signalled pid .term], rfl, by
        simp [Act.isRecord, Act.isRun]⟩
    · split
      · exact ⟨rfl, rfl, rfl, rfl, rfl, rfl, rfl, [.signalled pid .term], rfl, by
          simp [Act.isRecord, Act.isRun]⟩
      · exact ⟨rfl, rfl, rfl, rfl, rfl, rfl, rfl,
          [.signalled pid .kill, .signalled pid .term], rfl, by simp [Act.isRecord, Act.isRun]⟩

theorem onKillTimer_idles (server : Server) : Idles server (onKillTimer server) := by
  unfold onKillTimer
  dsimp only
  split
  · exact ⟨rfl, rfl, rfl, rfl, rfl, rfl, rfl, [], rfl, by simp⟩
  · rename_i pid _
    exact ⟨rfl, rfl, rfl, rfl, rfl, rfl, rfl, [.signalled pid .kill], rfl, by
      simp [Act.isRecord, Act.isRun]⟩

theorem requestStop_idles (server : Server) (force : Bool) :
    Idles server (requestStop server force) :=
  ⟨rfl, rfl, rfl, rfl, rfl, rfl, rfl, [], rfl, by simp⟩

variable (kept : Kept registry server)

include kept

theorem eventExit_kept (code : Nat) : Kept registry (eventExit server code) :=
  kept.idles ⟨rfl, rfl, rfl, rfl, rfl, rfl, rfl, [], rfl, by simp⟩

theorem resetActiveSession_kept : Kept registry (resetActiveSession server) := by
  unfold resetActiveSession
  split
  · exact watchResetSession_kept server
  · exact kept

omit kept

/-- Starting a worker leaves the session as it is. -/
@[simp] theorem spawnWorker_watch (server : Server) (answers : Answers) (request : RunnerRequest)
    (requestId : Nat) : (spawnWorker server answers request requestId).2.watch = server.watch := by
  unfold spawnWorker
  split <;> rfl

/-- A foreground run is started without a session. -/
theorem startForegroundRun_inactive (inactive : server.watch.active = false) (answers : Answers)
    (fd requestId : Nat) (request : RunnerRequest) :
    (startForegroundRun server answers fd requestId request).2.watch.active = false := by
  unfold startForegroundRun
  dsimp only
  split
  · exact inactive
  · split
    · exact inactive
    · have spawned : (spawnWorker (send { server with
          telemetry := answers.preflight.2, client := some fd } fd (.ack requestId)).2 answers
          request requestId).2.watch.active = false := by
        rw [spawnWorker_watch]
        exact inactive
      split
      · exact spawned
      · have told := (sendStructuredError_quiet (spawnWorker (send { server with
          telemetry := answers.preflight.2, client := some fd } fd (.ack requestId)).2 answers
          request requestId).2 fd requestId .workerStartFailed
          (sv "daemon failed to start worker")).trans (closeClient_quiet _)
        exact told.active.trans spawned

include kept in
theorem handleRunRequest_kept (answers : Answers) (fd requestId : Nat)
    (decoded : Decoded RunnerRequest) :
    Kept registry (handleRunRequest server answers fd requestId decoded).2 := by
  unfold handleRunRequest
  split
  · exact kept.quiet (sendAdmissionError_quiet ..)
  · rename_i admitted
    obtain ⟨_, inactive, _⟩ := effectiveState_idle (not_not.mp admitted)
    cases decoded with
    | undecodable => exact kept.quiet (sendStructuredError_quiet ..)
    | refused => exact kept.quiet (sendStructuredError_quiet ..)
    | request request => exact .inactive (startForegroundRun_inactive inactive ..)

/-! ## Starting a session -/

/-- A part of a handler in which nothing is recorded. -/
def Silent (before after : Server) : Prop :=
  ∃ acts, after.log = acts ++ before.log ∧ ∀ act ∈ acts, act.isRecord = false

theorem Silent.trans (first : Silent before middle) (second : Silent middle after) :
    Silent before after := by
  obtain ⟨firstActs, firstLog, firstPlain⟩ := first
  obtain ⟨secondActs, secondLog, secondPlain⟩ := second
  refine ⟨secondActs ++ firstActs, ?_, ?_⟩
  · rw [secondLog, firstLog, append_assoc]
  · intro act mem
    rcases mem_append.mp mem with mem | mem
    · exact secondPlain act mem
    · exact firstPlain act mem

theorem Quiet.silent (quiet : Quiet before after) : Silent before after := by
  obtain ⟨acts, log, traffic⟩ := quiet.log
  exact ⟨acts, log, fun act mem => (isTraffic_plain (traffic act mem)).1⟩

/-- A session that has just started owes nothing. -/
theorem Kept.fresh {opened : Server} (started : opened.log = .sessionStarted :: log)
    (silent : Silent opened after) : Kept registry after := by
  obtain ⟨acts, afterLog, plain⟩ := silent
  intro _ newer path older split fresh
  rw [afterLog, started] at split
  have absent : Act.recorded path ∉ acts := fun mem => by
    have recorded := plain _ mem
    cases recorded
  obtain ⟨rest, newerEq, here⟩ := split_second split absent
  cases rest with
  | nil => cases here
  | cons head others =>
    rw [cons_append, List.cons.injEq] at here
    exact absurd (by rw [newerEq, ← here.1]; simp) fresh

theorem watchAnnounceSession_silent (server : Server) (request : WatchRequest) :
    Silent server (watchAnnounceSession registry server request).2 :=
  watchAnnounceSession_keeps (fun _ => (Quiet.refl _).silent) Silent.trans
    (fun _ _ => (watchSendInfof_quiet ..).silent) (fun _ _ => ⟨[], rfl, nofun⟩) ..

/-- Resetting a session closes at most the client connection. -/
theorem watchResetSession_silent (server : Server) : Silent server (watchResetSession server) := by
  simp only [watchResetSession]
  split
  · exact ⟨[], rfl, by simp⟩
  · exact (closeClient_quiet _).silent

include starts

theorem watchStartNextModule_silent
    (started : (watchStartNextModule registry server answers).1 = true) :
    Silent server (watchStartNextModule registry server answers).2 := by
  unfold watchStartNextModule at started ⊢
  split at started
  · cases started
  · rename_i active
    rw [if_neg active]
    cases here : server.watch.batchModules[server.watch.batchIndex]? with
    | some id =>
      rw [here] at started
      obtain ⟨acts, log, plain, _⟩ := (watchStartModule_moves starts here started).log
      exact ⟨acts, log, plain⟩
    | none =>
      rw [here] at started
      dsimp only at started ⊢
      split at started
      · rename_i exits
        rw [if_pos exits]
        have told := (watchSendInfof_quiet (watchClearBatch server)
          (sv "[watch] exiting after rerun\n")).silent
        exact told.trans (watchResetSession_silent _)
      · rename_i stays
        rw [if_neg stays]
        split at started
        · rename_i pending
          rw [if_pos pending]
          obtain ⟨acts, log, plain, _⟩ := (watchHandlePendingBatch_moves starts started).log
          exact ⟨acts, log, plain⟩
        · rename_i notPending
          rw [if_neg notPending]
          exact ⟨[], rfl, by simp⟩

/-- The baseline run is all that the start of a session starts. -/
theorem watchBeginSession_silent {requestId : Nat} {request : WatchRequest}
    (begun : (watchBeginSession registry server answers requestId request).1 = true) :
    Silent server (watchBeginSession registry server answers requestId request).2 := by
  have attached := (watchAttachClient_quiet server answers requestId).silent
  have announced := @watchAnnounceSession_silent registry
    (watchAttachClient server answers requestId) request
  unfold watchBeginSession at begun ⊢
  dsimp only at begun ⊢
  revert begun announced
  generalize watchAnnounceSession registry (watchAttachClient server answers requestId) request
    = told
  intro begun announced
  split at begun
  · cases begun
  · rename_i sent
    rw [if_neg sent]
    have listed := (watchAnnounceRoots_quiet told.2).silent
    revert begun listed
    generalize watchAnnounceRoots told.2 = last
    intro begun listed
    have sofar := (attached.trans announced).trans listed
    split at begun
    · cases begun
    · rename_i listedSent
      rw [if_neg listedSent]
      split at begun
      · rename_i moduleMode
        rw [if_pos moduleMode]
        exact sofar.trans (watchStartNextModule_silent starts begun)
      · rename_i autoMode
        rw [if_neg autoMode]
        exact sofar

include kept

/-- A session that has started owes nothing yet, and one that could not start is reset. -/
theorem watchStartSession_kept (fd requestId : Nat) (decoded : Decoded WatchRequest) :
    Kept registry (watchStartSession registry server answers fd requestId decoded).2 := by
  cases decoded with
  | undecodable => exact kept.quiet (sendStructuredError_quiet ..)
  | refused => exact watchResetSession_kept _
  | request request =>
    simp only [watchStartSession]
    split
    · rename_i started
      unfold watchTrySession at started ⊢
      cases roots : watchBuildRootSet registry request with
      | none =>
        rw [roots] at started
        cases started
      | some roots' =>
        rw [roots] at started
        dsimp only at started ⊢
        split at started
        · rename_i registered
          rw [if_pos registered]
          exact @Kept.fresh server.log _ registry _ rfl (watchBeginSession_silent starts started)
        · cases started
    · exact watchResetSession_kept _

theorem handleWatchRequest_kept (fd requestId : Nat) (decoded : Decoded WatchRequest) :
    Kept registry (handleWatchRequest registry server answers fd requestId decoded).2 := by
  unfold handleWatchRequest
  split
  · exact kept.quiet (sendAdmissionError_quiet ..)
  · exact watchStartSession_kept starts kept fd requestId decoded

omit kept

theorem kept_handlersKeep : HandlersKeep registry answers (Kept registry) where
  quiet quiet kept := kept.quiet quiet
  stop force kept := kept.idles (requestStop_idles _ force)
  cancel marks closes kept := kept.idles (beginWorkerCancel_idles _ answers marks closes)
  reset kept := resetActiveSession_kept kept
  exit kept := eventExit_kept kept 0
  accept fd kept := kept.idles
    ⟨rfl, rfl, rfl, rfl, rfl, rfl, rfl, [.accepted fd], rfl, by simp [Act.isRecord, Act.isRun]⟩
  close fd kept := kept.idles
    ⟨rfl, rfl, rfl, rfl, rfl, rfl, rfl, [.closed fd], rfl, by simp [Act.isRecord, Act.isRun]⟩
  run fd requestId decoded kept := handleRunRequest_kept kept answers fd requestId decoded
  watch fd requestId decoded kept := handleWatchRequest_kept starts kept fd requestId decoded

omit starts

/-! ## Events of a session -/

include kept

theorem forwardOutput_kept (stream : Stream) (data : List UInt8) :
    Kept registry (forwardOutput server stream data) := by
  unfold forwardOutput
  split
  · cases stream <;> exact kept.idles ⟨rfl, rfl, rfl, rfl, rfl, rfl, rfl, [], rfl, by simp⟩
  · split
    · exact kept
    · rename_i fd _
      have sent := kept.quiet (send_quiet server fd (.output server.currentRequestId stream data))
      dsimp only
      split
      · exact sent
      · exact sent.quiet (handleClientDisconnect_quiet _)

theorem watchCancelStaleRun_kept (answers : Answers) :
    Kept registry (watchCancelStaleRun server answers) := by
  have pending : Kept registry { server with watch.rerunPending := true } := kept.idles
    ⟨rfl, rfl, rfl, rfl, rfl, rfl, rfl, [], rfl, by simp⟩
  unfold watchCancelStaleRun
  dsimp only
  split
  · exact pending.idles (beginWorkerCancel_idles ..)
  · exact (pending.quiet (watchSendInfof_quiet ..)).idles (beginWorkerCancel_idles ..)

include starts in
/-- Without a worker only the pending changes owe runs, and they are handled. -/
theorem onWatchDebounce_kept : Kept registry (onWatchDebounce registry server answers) := by
  have fired : Kept registry { server with watch.debounceSource := false } := kept.idles
    ⟨rfl, rfl, rfl, rfl, rfl, rfl, rfl, [], rfl, by simp⟩
  unfold onWatchDebounce
  split
  · exact kept
  · dsimp only
    split
    · exact fired
    · split
      · exact watchCancelStaleRun_kept fired answers
      · rename_i noWorker
        split
        · rename_i handled
          have moves := watchHandlePendingBatch_moves starts handled
          apply fired.moves
          apply moves.weaken
          intro newer id _ owed
          rcases owed with done | selected | ⟨running, _⟩
          · exact .inl done
          · exact .inr (.inl selected)
          · exact absurd running noWorker
        · exact watchResetSession_kept _

/-- Marking an event of the worker keeps what is owed. -/
theorem workerEvent_kept {marked : Server} {event : Event}
    (worker : workerEvent server event = some marked) : Kept registry marked := by
  cases event with
  | workerPipe stream read =>
    cases read with
    | ended =>
      cases worker
      cases stream <;> exact kept.idles ⟨rfl, rfl, rfl, rfl, rfl, rfl, rfl, [], rfl, by simp⟩
    | bytes data => cases worker
    | interrupted => cases worker
  | workerPidfd status =>
    cases worker
    have reaped : Idles server (reapWorker server status) := by
      unfold reapWorker
      split
      · exact (Quiet.refl server).idles
      · exact (Quiet.refl server).idles
      · rename_i pid _ _
        exact ⟨rfl, rfl, rfl, rfl, rfl, rfl, rfl, [.reaped pid], rfl, by
          simp [Act.isRecord, Act.isRun]⟩
    exact (kept.idles reaped).idles ⟨rfl, rfl, rfl, rfl, rfl, rfl, rfl, [], rfl, by simp⟩
  | listener fd connection => cases worker
  | killTimer => cases worker
  | signal => cases worker
  | watchClient hangup => cases worker
  | watchDebounce => cases worker
  | watchInotify events readFailed => cases worker

include starts in
theorem handle_kept (event : Event) (other : workerEvent server event = none) :
    Kept registry (handle registry server answers event) := by
  cases event with
  | listener fd connection => exact (kept_handlersKeep starts).onListener kept fd connection
  | workerPipe stream read =>
    cases read with
    | bytes data => exact forwardOutput_kept kept stream data
    | interrupted => exact kept
    | ended => cases other
  | workerPidfd status => cases other
  | killTimer => exact kept.idles (onKillTimer_idles server)
  | signal => exact (kept_handlersKeep starts).onSignal kept
  | watchClient hangup =>
    simp only [handle, onWatchClient]
    split
    · exact kept.quiet (watchDetachClient_quiet server)
    · exact kept
  | watchDebounce => exact onWatchDebounce_kept starts kept
  | watchInotify events readFailed => exact kept.noted (onWatchInotify_noted ..)

omit kept

/-! ## Runs -/

/-- If the turn ends a cancelled run of a session that goes on, the changes that cancelled it select
again what the run and its batch leave undone. -/
def staleRunCovered (registry : Registry) (next : Step) (server : Server) : Bool :=
  !next.occurs server ||
    match workerEvent (next.start server) next.event with
    | none => true
    | some marked =>
      !(marked.worker.over && marked.watch.active && marked.watch.cancelRequested) ||
        marked.watch.closing || batchCovered registry marked

theorem turn_kept (next : Step) (server : Server)
    (allowed : next.answers.Starts ∧ staleRunCovered registry next server = true)
    (kept : Kept registry server) : Kept registry (turn registry next server) := by
  obtain ⟨starts, covered⟩ := allowed
  cases occurs : next.occurs server with
  | false =>
    rw [turn_idle occurs]
    exact kept
  | true =>
    rw [turn_occurs occurs]
    have started : Kept registry (next.start server) := kept
    unfold staleRunCovered at covered
    rw [occurs] at covered
    cases worker : workerEvent (next.start server) next.event with
    | none => exact handle_kept starts started next.event worker
    | some marked =>
      rw [handle_workerEvent worker]
      rw [worker] at covered
      apply afterWorkerEvent_kept starts (workerEvent_kept started worker)
      intro ended active cancelled
      dsimp only at covered
      rw [ended, active, cancelled] at covered
      simpa using covered

end Owed

/-- Nothing is under way in the session: no worker runs, no timer is armed, no batch is pending, and
no change is recorded. -/
structure WatchIdle (server : Server) : Prop where
  active : server.watch.active = true
  worker : server.worker.pid = none
  debounce : server.watch.debounceSource = false
  batch : server.watch.rerunPending = false ∧
    server.watch.batchModules.length ≤ server.watch.batchIndex
  changedPaths : server.watch.changedPaths = []
  rescan : server.watch.rescanRequired = false

/-- For every path that was recorded since the session started, every module of the session with a
watch root that contains it had a run that began later and completed without being cancelled. -/
def ChangesRun (registry : Registry) (server : Server) : Prop :=
  ∀ newer path older, server.log = newer ++ .recorded path :: older → .sessionStarted ∉ newer →
    ∀ id, SessionModule registry server.watch.request id → RootContains registry id path →
      ran id newer = true

/-- What a session without anything under way owes was run. -/
theorem Kept.changesRun {registry : Registry} (kept : Kept registry server)
    (idle : WatchIdle server) : ChangesRun registry server := by
  intro newer path older split fresh id session contains
  rcases kept idle.active newer path older split fresh id session contains with
    done | selected | ⟨running, _⟩
  · exact done
  · have pending : server.watch.hasPending = false := by
      unfold WatchSession.hasPending
      rw [idle.batch.1, idle.changedPaths, idle.rescan]
      rfl
    rw [selects_none pending] at selected
    cases selected
  · rw [idle.worker] at running
    cases running

/-- After any turns that leave no session, in every session in which starting a module always
succeeds and every cancelled run is covered by the changes that cancelled it, no change is lost:
whenever nothing is under way, every recorded change was run. -/
theorem session_runs_changes (registry : Registry) (earlier session : List Step)
    (outside : (replay (turn registry) earlier .initial).watch.active = false)
    (allowed : Along (turn registry)
      (fun next server => next.answers.Starts ∧ staleRunCovered registry next server = true)
      session (replay (turn registry) earlier .initial))
    (idle : WatchIdle (replay (turn registry) (earlier ++ session) .initial)) :
    ChangesRun registry (replay (turn registry) (earlier ++ session) .initial) := by
  rw [replay_append] at idle ⊢
  have kept : Kept registry (replay (turn registry) session
      (replay (turn registry) earlier .initial)) :=
    along_invariant (turn registry) turn_kept allowed (.inactive outside)
  exact kept.changesRun idle

/-! ## A run -/

/-- Two modules of the test runner with directories of their own. -/
def arenaLexer : Registry where
  modules :=
    [⟨sv "arena", 1, true, [sv "src_v2/arena", sv "test_v2/arena"]⟩,
      ⟨sv "lexer", 1, true, [sv "src_v2/lexer", sv "test_v2/lexer"]⟩]
  profiles := [sv "default", sv "fast"]

/-- A client starts an automatic session, and all roots are directories. -/
def openSession : Step where
  event := .listener 7 (.hello 1 (some (2, .watch (.request ⟨.auto, 0, 0, false, false⟩))))
  answers := { grantedAnswers 100 with
    scan := ⟨true, true, [.directory (.folder (.watched 1) .nil),
      .directory (.folder (.watched 2) .nil), .directory (.folder (.watched 3) .nil),
      .directory (.folder (.watched 4) .nil)]⟩ }

/-- A file of a watched directory changes, and the debounce timer fires. -/
def changeFile (wd : Nat) (name : StringView) (pid : Nat) : List Step :=
  [⟨.watchInotify [⟨some wd, name, false, false, false, .missing⟩] false, grantedAnswers pid⟩,
    ⟨.watchDebounce, grantedAnswers pid⟩]

/-- A worker ends, and the next one gets the process id. -/
def endWorker (status : WaitStatus) (pid : Nat) : List Step :=
  [⟨.workerPipe .stdout .ended, grantedAnswers pid⟩,
    ⟨.workerPipe .stderr .ended, grantedAnswers pid⟩,
    ⟨.workerPidfd status, grantedAnswers pid⟩]

/-- A file of `arena` changes, and the module is run. -/
def arenaSession : List Step :=
  openSession :: changeFile 2 (sv "a.c") 100 ++ endWorker (.exited 0) 101

/-- The change of `arenaSession` was run. -/
theorem session_runs_changes_arena :
    ChangesRun arenaLexer (replay (turn arenaLexer) ([] ++ arenaSession) .initial) :=
  session_runs_changes arenaLexer [] arenaSession rfl (by decide +kernel)
    ⟨by decide +kernel, by decide +kernel, by decide +kernel, by decide +kernel,
      by decide +kernel, by decide +kernel⟩

/-- A file of `arena` changes, and while the module runs a file of `lexer` does. -/
def staleSession : List Step :=
  openSession :: changeFile 2 (sv "a.c") 100 ++ changeFile 4 (sv "b.c") 101 ++
    endWorker (.signaled 15) 101 ++ endWorker (.exited 0) 102

/-- At the end of `staleSession` nothing is under way, and the cancelled run of `arena` was never
made up for. -/
theorem staleSession_loses_change : ¬ ∀ registry earlier session,
      (replay (turn registry) earlier .initial).watch.active = false →
      (∀ next ∈ session, next.answers.Starts) →
      WatchIdle (replay (turn registry) (earlier ++ session) .initial) →
      ChangesRun registry (replay (turn registry) (earlier ++ session) .initial) := by
  intro always
  have here := always arenaLexer [] staleSession rfl (by decide +kernel)
  generalize final_eq : replay (turn arenaLexer) ([] ++ staleSession) .initial = final at here
  have idle : final.watch.active = true ∧ final.worker.pid = none ∧
      final.watch.debounceSource = false ∧ (final.watch.rerunPending = false ∧
        final.watch.batchModules.length ≤ final.watch.batchIndex) ∧
      final.watch.changedPaths = [] ∧ final.watch.rescanRequired = false ∧
      final.watch.request = ⟨.auto, 0, 0, false, false⟩ := by
    rw [← final_eq]
    decide +kernel
  have log : ∃ path, path = Act.recorded (sv "test_v2/arena/a.c") ∧
      final.log = final.log.takeWhile (· ≠ path) ++ path :: (final.log.dropWhile (· ≠ path)).tail ∧
      .sessionStarted ∉ final.log.takeWhile (· ≠ path) ∧
      ran 0 (final.log.takeWhile (· ≠ path)) = false := by
    rw [← final_eq]
    refine ⟨_, rfl, ?_⟩
    decide +kernel
  obtain ⟨active, worker, debounce, batch, changedPaths, rescan, request⟩ := idle
  obtain ⟨_, rfl, split, fresh, never⟩ := log
  have session : SessionModule arenaLexer final.watch.request 0 := by
    rw [request]
    exact ⟨_, rfl, rfl⟩
  have contains : RootContains arenaLexer 0 (sv "test_v2/arena/a.c") :=
    ⟨_, rfl, sv "test_v2/arena", by decide, by decide⟩
  have made := here ⟨active, worker, debounce, batch, changedPaths, rescan⟩ _ _ _ split fresh 0
    session contains
  rw [never] at made
  cases made

end Nobify.Daemon
