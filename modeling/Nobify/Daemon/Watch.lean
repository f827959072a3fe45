import Mathlib.Data.Char
import Mathlib.Data.List.Lex
import Mathlib.Data.List.Sort
import Nobify.Daemon.Server

/-!
# Watch sessions

Changed paths are routed to the modules that have a watch root around them; the modules of one
change set form a batch that is run module by module. The handlers here are those of the inotify
descriptor, of the debounce timer and of the session's client.
-/

namespace Nobify.Daemon

/-! ## Routing -/

/-- `daemon_watch_path_matches_root`. -/
def watchPathMatchesRoot (root path : StringView) : Bool :=
  root == path || (root.isPrefixOf path && (path.drop root.length).head? == some '/')

/-- `daemon_watch_module_matches_changed_paths`. -/
def watchModuleMatchesChangedPaths (module : ModuleDef) (changedPaths : List StringView) : Bool :=
  changedPaths.any fun path => module.watchRoots.any fun root => watchPathMatchesRoot root path

/-- `daemon_watch_collect_auto_modules`. -/
def watchCollectAutoModules (registry : Registry) (changedPaths : List StringView)
    (fallbackAll : Bool) : List Nat :=
  (List.range registry.modules.length).filter fun id =>
    match registry.moduleDef id with
    | none => false
    | some module =>
      module.watchAutoEligible && (fallbackAll || watchModuleMatchesChangedPaths module changedPaths)

/-- The modules that `daemon_watch_handle_pending_batch` selects for a change set, or `none` when
the module of the session is unknown. -/
def watchRoutedModules (registry : Registry) (request : WatchRequest)
    (changedPaths : List StringView) (fallbackAll : Bool) : Option (List Nat) :=
  match request.mode with
  | .module =>
    (registry.moduleDef request.moduleId).map fun module =>
      if fallbackAll || watchModuleMatchesChangedPaths module changedPaths then [request.moduleId]
      else []
  | .auto => some (watchCollectAutoModules registry changedPaths fallbackAll)

/-- `daemon_watch_auto_eligible_module_count`. -/
def watchAutoEligibleModuleCount (registry : Registry) : Nat :=
  registry.modules.countP (·.watchAutoEligible)

/-- `Test_Daemon_Watch_Route_Kind`. -/
inductive WatchRouteKind where
  | match
  | broad
  | rescan
  | noMatch

/-- `daemon_watch_route_kind`. -/
def watchRouteKind (registry : Registry) (request : WatchRequest) (moduleCount : Nat)
    (fallbackAll : Bool) : WatchRouteKind :=
  if moduleCount = 0 then .noMatch
  else if fallbackAll then .rescan
  else if request.mode ≠ .auto then .match
  else
    let eligible := watchAutoEligibleModuleCount registry
    if 0 < eligible ∧ eligible ≤ moduleCount * 2 then .broad else .match

/-! ## Announcing a batch -/

/-- A number in decimal. -/
def decimal (number : Nat) : StringView := (toString number).toList

/-- The name of a module in a message. -/
def moduleLabel (registry : Registry) (id : Nat) : StringView :=
  match registry.moduleDef id with
  | some module => module.name
  | none => sv "<unknown>"

/-- At most eight entries and how many are left, as `daemon_watch_append_path_summary` and
`daemon_watch_append_module_summary` write them. -/
def summaryOf (entries : List StringView) : StringView :=
  if entries.isEmpty then sv "<none>"
  else
    List.intercalate (sv ", ") (entries.take 8) ++
      if 8 < entries.length then sv " (+" ++ decimal (entries.length - 8) ++ sv " more)" else []

/-- The text of `daemon_watch_send_selected_modules`. -/
def selectedModulesText (registry : Registry) (modules : List Nat) : StringView :=
  sv "[watch] modules:" ++ (if modules.isEmpty then [] else sv " ") ++
    List.intercalate (sv ", ") (modules.map (moduleLabel registry)) ++ sv "\n"

/-- The lines that `daemon_watch_send_batch_overview` sends to a verbose client before the modules
or the note that there are none. -/
def verboseOverview (changedPaths : List StringView) (fallbackAll : Bool) : List StringView :=
  (if fallbackAll then [sv "[watch] rescan fallback triggered\n"] else []) ++
    if changedPaths.isEmpty then []
    else
      sv "[watch] changed paths:\n" ::
        changedPaths.map fun path => sv "[watch]   " ++ path ++ sv "\n"

/-- The one message that `daemon_watch_send_batch_overview` sends to a compact client. -/
def sendCompactOverview (registry : Registry) (server : Server) (modules : List Nat)
    (fallbackAll : Bool) : Bool × Server :=
  match watchRouteKind registry server.watch.request modules.length fallbackAll with
  | .noMatch => watchSendInfof server (sv "[watch] no routed modules for change set\n")
  | .rescan =>
    watchSendInfof server (sv "[watch] rescan fallback: rerouting all eligible matches\n")
  | .broad =>
    watchSendInfof server (sv "[watch] broad reroute: " ++ decimal modules.length ++ sv "/" ++
        decimal (watchAutoEligibleModuleCount registry) ++ sv " modules\n")
  | .match =>
    watchSendText server
      (sv "[watch] rerun: " ++ summaryOf server.watch.changedPaths ++ sv " -> " ++
        summaryOf (modules.map (moduleLabel registry)) ++ sv "\n")

/-- `daemon_watch_send_batch_overview`. -/
def watchSendBatchOverview (registry : Registry) (server : Server) (modules : List Nat)
    (fallbackAll : Bool) : Bool × Server :=
  if watchIsVerbose server then
    let (sent, server) :=
      watchSendInfos server (verboseOverview server.watch.changedPaths fallbackAll)
    if !sent then (false, server)
    else if modules.isEmpty then
      watchSendInfof server (sv "[watch] no routed modules for change set\n")
    else watchSendText server (selectedModulesText registry modules)
  else sendCompactOverview registry server modules fallbackAll

/-! ## Running a batch -/

/-- `daemon_watch_profile_for_module`, for a module that is known. -/
def watchProfileForModule (watch : WatchSession) (module : ModuleDef) : Nat :=
  if watch.request.profileExplicit then watch.request.profileId else module.defaultLocalProfile

/-- `daemon_watch_make_module_request`, for a module that is known. -/
def watchMakeModuleRequest (watch : WatchSession) (id : Nat) (module : ModuleDef) : RunnerRequest where
  action := .runModule
  moduleId := id
  profileId := watchProfileForModule watch module
  verbose := watch.request.verbose

/-- The preflight, the announcement and the worker of one module in
`daemon_watch_start_next_module`. -/
def watchRunModule (server : Server) (answers : Answers) (request : RunnerRequest)
    (moduleName profileName : StringView) : Bool × Server :=
  let server := { server with telemetry := answers.preflight.2 }
  if !answers.preflight.1 then
    watchReportIssue (watchClearBatch server)
      (sv "daemon preflight failed; watch session remains active")
  else
    let (sent, server) := watchSendInfof server
      (sv "[watch] running " ++ moduleName ++ sv " (" ++ profileName ++ sv ")\n")
    if !sent then (false, server)
    else
      let (started, server) := spawnWorker server answers request server.watch.requestId
      if started then (true, server)
      else
        watchReportIssue (watchClearBatch server)
          (sv "watch failed to start worker; session remains active")

/-- The part of `daemon_watch_start_next_module` that takes a module off the batch. -/
def watchStartModule (registry : Registry) (server : Server) (answers : Answers) (id : Nat) :
    Bool × Server :=
  let server := { server with watch.batchIndex := server.watch.batchIndex + 1 }
  match registry.moduleDef id with
  | none => (false, server)
  | some module =>
    let request := watchMakeModuleRequest server.watch id module
    match registry.profileName request.profileId with
    | none => (false, server)
    | some profileName => watchRunModule server answers request module.name profileName

/-- The end of `daemon_watch_handle_pending_batch`: the selected modules become the batch and its
first module is started. -/
def watchBeginBatch (registry : Registry) (server : Server) (answers : Answers) :
    List Nat → Bool × Server
  | [] => (true, { server with watch.changedPaths := [], watch.rescanRequired := false })
  | id :: rest =>
    -- The call of `daemon_watch_start_next_module` finds the index 0 below the count.
    watchStartModule registry
      { server with
        watch.batchModules := id :: rest, watch.batchIndex := 0, watch.batchIsBaseline := false,
        watch.changedPaths := [], watch.rescanRequired := false }
      answers id

/-- `daemon_watch_sort_changed_paths`: `qsort` with `strcmp`. -/
def watchSortChangedPaths (server : Server) : Server :=
  { server with watch.changedPaths := server.watch.changedPaths.insertionSort (· ≤ ·) }

/-- `daemon_watch_handle_pending_batch` after the roots are registered again. -/
def watchRouteBatch (registry : Registry) (server : Server) (answers : Answers)
    (fallbackAll : Bool) : Bool × Server :=
  match watchRoutedModules registry server.watch.request server.watch.changedPaths fallbackAll with
  | none => (false, server)
  | some modules =>
    let server := { server with watch.rerunPending := false }
    let (sent, server) := watchSendBatchOverview registry server modules fallbackAll
    if sent then watchBeginBatch registry server answers modules else (false, server)

/-- `daemon_watch_handle_pending_batch`. -/
def watchHandlePendingBatch (registry : Registry) (server : Server) (answers : Answers) :
    Bool × Server :=
  if !server.watch.active then (false, server)
  else
    let server := watchSortChangedPaths server
    if server.watch.rescanRequired then
      let (registered, watch) := registerRoots server.watch answers.scan
      let server := { server with watch := watch }
      if registered then watchRouteBatch registry server answers true else (false, server)
    else watchRouteBatch registry server answers false

/-- There is something for `daemon_watch_handle_pending_batch` to do. -/
def WatchSession.hasPending (watch : WatchSession) : Bool :=
  watch.rerunPending || !watch.changedPaths.isEmpty || watch.rescanRequired

/-- `daemon_watch_start_next_module`. -/
def watchStartNextModule (registry : Registry) (server : Server) (answers : Answers) :
    Bool × Server :=
  if !server.watch.active then (false, server)
  else
    match server.watch.batchModules[server.watch.batchIndex]? with
    | some id => watchStartModule registry server answers id
    | none =>
      let completedRerunBatch := !server.watch.batchIsBaseline
      let server := watchClearBatch server
      if server.watch.exitAfterRerun && completedRerunBatch then
        (true, watchResetSession (watchSendInfof server (sv "[watch] exiting after rerun\n")).2)
      else if server.watch.hasPending then watchHandlePendingBatch registry server answers
      else (true, server)

/-! ## Handlers -/

/-- `daemon_watch_schedule_debounce`. -/
def watchScheduleDebounce (server : Server) (answers : Answers) : Bool × Server :=
  if server.watch.active then
    (answers.debounceTimer, { server with watch.debounceSource := answers.debounceTimer })
  else (false, server)

/-- `daemon_on_watch_client`; `hangup` is one of the hang-up events. -/
def onWatchClient (server : Server) (hangup : Bool) : Server :=
  if hangup then watchDetachClient server else server

/-- The branch of `daemon_on_watch_debounce` for a worker that still runs. -/
def watchCancelStaleRun (server : Server) (answers : Answers) : Server :=
  let server := { server with watch.rerunPending := true }
  let server :=
    if server.watch.cancelRequested then server
    else (watchSendInfof server (sv "[watch] canceling stale run after newer changes\n")).2
  (beginWorkerCancel server answers true false).2

/-- `daemon_on_watch_debounce`. -/
def onWatchDebounce (registry : Registry) (server : Server) (answers : Answers) : Server :=
  if !server.watch.active then server
  else
    let server := { server with watch.debounceSource := false }
    if server.watch.changedPaths.isEmpty && !server.watch.rescanRequired then server
    else if server.worker.pid.isSome then watchCancelStaleRun server answers
    else
      let (handled, server) := watchHandlePendingBatch registry server answers
      if handled then server else watchResetSession server

/-- One `struct inotify_event`, with the tests of its mask that the handler makes, and what is
found when a new directory is scanned. -/
structure InotifyEvent where
  /-- `wd`; `none` is -1. -/
  wd : Option Nat
  /-- `name`, empty when there is none. -/
  name : StringView
  /-- `IN_Q_OVERFLOW`. -/
  overflow : Bool
  /-- `IN_CREATE` or `IN_MOVED_TO`, with `IN_ISDIR`. -/
  newDirectory : Bool
  /-- `IN_MOVE_SELF`, `IN_DELETE_SELF` or `IN_IGNORED`. -/
  directoryGone : Bool
  /-- What `daemon_watch_add_directory_recursive` finds. -/
  tree : DirTree

/-- `daemon_file_paths_append_unique`: false for an empty path. -/
def appendUnique (paths : List StringView) (path : StringView) : Bool × List StringView :=
  if path.isEmpty then (false, paths)
  else if paths.contains path then (true, paths)
  else (true, paths ++ [path])

/-- The part of the inotify loop that follows the path of an event: new directories are watched,
those that are gone no longer, and the path is recorded. -/
def noteChangedPath (server : Server) (index : Nat) (fullPath : StringView)
    (event : InotifyEvent) : Bool × Server :=
  let watch := server.watch
  let watch :=
    if event.newDirectory then
      let (added, watch) := addDirectoryRecursive watch fullPath event.tree
      if added then watch else { watch with rescanRequired := true }
    else watch
  let watch :=
    if event.directoryGone then
      { watch with rescanRequired := true, watchedDirs := watch.watchedDirs.eraseIdx index }
    else watch
  let (appended, changedPaths) := appendUnique watch.changedPaths fullPath
  (appended, { server with
    watch := { watch with changedPaths := changedPaths }
    log := if appended then .recorded fullPath :: server.log else server.log })

/-- The body of the inotify loop: whether `changed` is set. -/
def noteInotifyEvent (server : Server) (event : InotifyEvent) : Bool × Server :=
  match server.watch.watchedDirs.findIdx? (fun entry => some entry.1 == event.wd) with
  | none => (false, { server with watch.rescanRequired := true })
  | some index =>
    let baseDir := ((server.watch.watchedDirs[index]?).map (·.2)).getD []
    if event.overflow then (true, { server with watch.rescanRequired := true })
    else if event.name.isEmpty then
      if pathCapacity ≤ baseDir.length then (false, server)
      else noteChangedPath server index baseDir event
    else
      let fullPath := baseDir ++ '/' :: event.name
      if pathCapacity ≤ fullPath.length then (true, { server with watch.rescanRequired := true })
      else noteChangedPath server index fullPath event

/-- The inotify loop over all events that are read. -/
def noteInotifyEvents (server : Server) : List InotifyEvent → Bool × Server
  | [] => (false, server)
  | event :: rest =>
    let (changed, server) := noteInotifyEvent server event
    let (later, server) := noteInotifyEvents server rest
    (changed || later, server)

/-- `daemon_on_watch_inotify`: the events of all reads, and whether the last read failed with an
error other than `EAGAIN` and `EINTR`. -/
def onWatchInotify (server : Server) (answers : Answers) (events : List InotifyEvent)
    (readFailed : Bool) : Server :=
  if !server.watch.active then server
  else
    let (changed, server) := noteInotifyEvents server events
    let server :=
      if readFailed then { server with watch.rescanRequired := true } else server
    if changed || server.watch.rescanRequired then (watchScheduleDebounce server answers).2
    else server

/-! ## Starting a session -/

/-- The roots of the modules, each once, as `daemon_file_paths_append_unique` collects them;
`none` when one is empty. -/
def appendRoots : List StringView → List StringView → Option (List StringView)
  | roots, [] => some roots
  | roots, root :: rest =>
    match appendUnique roots root with
    | (true, roots) => appendRoots roots rest
    | (false, _) => none

/-- `daemon_watch_build_root_set`. -/
def watchBuildRootSet (registry : Registry) (request : WatchRequest) : Option (List StringView) :=
  match request.mode with
  | .module =>
    (registry.moduleDef request.moduleId).bind fun module => appendRoots [] module.watchRoots
  | .auto =>
    appendRoots [] ((registry.modules.filter (·.watchAutoEligible)).flatMap (·.watchRoots))

/-- The session fields that `daemon_watch_start_session` sets. The fields that it does not set are
zero, since no session was active. -/
def watchOpenSession (server : Server) (answers : Answers) (fd requestId : Nat)
    (request : WatchRequest) (roots : List StringView) : Server :=
  { server with
    watch := { server.watch with
      active := true, request := request, requestId := requestId, inotifyFd := false,
      exitAfterRerun := answers.exitAfterRerun, roots := roots }
    client := some fd
    currentRequestId := requestId
    worker := { server.worker with request := none }
    state := .watching
    log := .sessionStarted :: server.log }

/-- Watching the client connection and acknowledging the request; where one of them fails, the
client is detached. -/
def watchAttachClient (server : Server) (answers : Answers) (requestId : Nat) : Server :=
  let server :=
    if answers.clientSource then { server with watch.clientSource := true }
    else watchDetachClient server
  match server.client with
  | none => server
  | some fd =>
    let (sent, server) := send server fd (.ack requestId)
    if sent then server else watchDetachClient server

/-- The messages at the start of a session, and the batch of the baseline run. -/
def watchAnnounceSession (registry : Registry) (server : Server) (request : WatchRequest) :
    Bool × Server :=
  let rootCount := decimal server.watch.roots.length
  match request.mode with
  | .auto =>
    watchSendInfof server (sv "[watch] auto session started (" ++ rootCount ++ sv " roots)\n")
  | .module =>
    match registry.moduleDef request.moduleId with
    | none => (false, server)
    | some module =>
      let (sent, server) := watchSendInfof server
        (sv "[watch] module session started for " ++ module.name ++ sv " (" ++ rootCount ++
          sv " roots)\n")
      if !sent then (false, server)
      else
        watchSendInfof
          { server with
            watch.batchModules := [request.moduleId], watch.batchIndex := 0,
            watch.batchIsBaseline := true }
          (sv "[watch] baseline run\n")

/-- The roots that a verbose client is told. -/
def watchAnnounceRoots (server : Server) : Bool × Server :=
  if watchIsVerbose server then
    watchSendInfos server (sv "[watch] roots:\n" ::
        server.watch.roots.map fun root => sv "[watch]   " ++ root ++ sv "\n")
  else (true, server)

/-- `daemon_watch_start_session` after the roots are registered. -/
def watchBeginSession (registry : Registry) (server : Server) (answers : Answers)
    (requestId : Nat) (request : WatchRequest) : Bool × Server :=
  let server := watchAttachClient server answers requestId
  let (sent, server) := watchAnnounceSession registry server request
  if !sent then (false, server)
  else
    let (sent, server) := watchAnnounceRoots server
    if !sent then (false, server)
    else if request.mode = .module then watchStartNextModule registry server answers
    else (true, server)

/-- The request in a `RUN_REQUEST` or `WATCH_REQUEST` message: it cannot be decoded, its arguments
are refused by the front door, or it is a request. -/
inductive Decoded (α : Type) where
  | undecodable
  | refused
  | request (value : α)

/-- The part of `daemon_watch_start_session` that `defer` undoes when it fails. -/
def watchTrySession (registry : Registry) (server : Server) (answers : Answers)
    (fd requestId : Nat) (request : WatchRequest) : Bool × Server :=
  match watchBuildRootSet registry request with
  | none => (false, server)
  | some roots =>
    let server := watchOpenSession server answers fd requestId request roots
    let (registered, watch) := registerRoots server.watch answers.scan
    let server := { server with watch := watch }
    if registered then watchBeginSession registry server answers requestId request
    else (false, server)

/-- `daemon_watch_start_session`. -/
def watchStartSession (registry : Registry) (server : Server) (answers : Answers)
    (fd requestId : Nat) : Decoded WatchRequest → Bool × Server
  | .undecodable =>
    sendStructuredError server fd requestId .malformedRequest (sv "failed to decode watch request")
  | .refused =>
    (false, watchResetSession (sendStructuredError server fd requestId .malformedRequest
        (sv "invalid watch request arguments")).2)
  | .request request =>
    let (started, server) := watchTrySession registry server answers fd requestId request
    if started then (true, server) else (false, watchResetSession server)

end Nobify.Daemon
