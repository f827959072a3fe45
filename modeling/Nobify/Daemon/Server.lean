import Nobify.Text

/-!
# The server of the test daemon

`Test_Daemon_Server` and the operations on it that no event handler is: sending to clients, the
watch session, the worker process, and the directories that the session watches.

What the system answers is data of the step: whether each send reaches its client, what `fork`,
`kill` and the event library return, what is on disk. The answers to the sends of one handler are
a list in the server, taken off one by one. What the handlers do to the world is kept in a log,
newest first: connections accepted, used and closed, workers started, signalled and reaped,
changed paths recorded.

The texts of `status_detail`, the metadata of status replies, the caches of preflight results and
times are only reported and are left out, as are the descriptors of the worker's pipes, each of
which is open exactly while its event source exists.
-/

namespace Nobify.Daemon

/-! ## Test runner data -/

/-- `Test_Runner_Module_Def`, with what the daemon reads. A module's id is its position in the
registry. -/
structure ModuleDef where
  name : StringView
  defaultLocalProfile : Nat
  watchAutoEligible : Bool
  watchRoots : List StringView

/-- The modules of the test runner and the names of its profiles, by position. -/
structure Registry where
  modules : List ModuleDef
  profiles : List StringView

/-- `test_runner_get_module_def`. -/
def Registry.moduleDef (registry : Registry) (id : Nat) : Option ModuleDef :=
  registry.modules[id]?

/-- `test_runner_get_profile_def`: the name of the profile. -/
def Registry.profileName (registry : Registry) (id : Nat) : Option StringView :=
  registry.profiles[id]?

/-- `Test_Runner_Action`. -/
inductive RunnerAction where
  | runModule
  | runAggregate
  | runTidyModule
  | runTidyAggregate
  | runTidySemantic
  | clean
  deriving DecidableEq

/-- `Test_Runner_Request`, with what the daemon reads. -/
structure RunnerRequest where
  action : RunnerAction
  moduleId : Nat
  profileId : Nat
  verbose : Bool
  deriving DecidableEq

/-- `Test_Runner_Watch_Mode`. -/
inductive WatchMode where
  | module
  | auto
  deriving DecidableEq

/-- `Test_Runner_Watch_Request`. -/
structure WatchRequest where
  mode : WatchMode
  moduleId : Nat
  profileId : Nat
  profileExplicit : Bool
  verbose : Bool
  deriving DecidableEq

/-- `Test_Runner_Result`, with what the daemon reads besides the texts it passes on. -/
structure RunnerResult where
  ok : Bool
  compileJobs : Nat
  objectsRebuilt : Nat
  objectsReused : Nat
  linkPerformed : Bool

/-! ## Protocol data -/

/-- `Test_Daemon_State`. -/
inductive DaemonState where
  | stopped
  | idle
  | busy
  | watching
  | draining
  | stopping
  deriving DecidableEq

/-- `Test_Daemon_Error_Code`. -/
inductive ErrorCode where
  | protocol
  | malformedRequest
  | unknownControl
  | busyForeground
  | busyWatch
  | stopping
  | preflightFailed
  | workerStartFailed
  | internal
  deriving DecidableEq

/-- `Test_Runner_Launcher_Kind`. -/
inductive LauncherKind where
  | none
  | ccache
  | sccache
  | custom

/-- `Test_Daemon_Launcher_Cache_Reason`. -/
inductive LauncherCacheReason where
  | hit
  | cold
  | path
  | override
  deriving DecidableEq

/-- `Test_Daemon_Preflight_Reason`. -/
inductive PreflightReason where
  | hit
  | cold
  | fingerprint
  | path
  | llvmTools
  | libFlags
  deriving DecidableEq

/-- `Test_Daemon_Request_Telemetry`. -/
structure Telemetry where
  launcherKind : LauncherKind
  launcherCacheReason : LauncherCacheReason
  preflightReason : PreflightReason

/-- The telemetry of `daemon_reset_request_telemetry`. -/
def coldTelemetry : Telemetry := ⟨.none, .cold, .cold⟩

/-- The two pipes of a worker. -/
inductive Stream where
  | stdout
  | stderr
  deriving DecidableEq

/-- A message to a client, with its request id. -/
inductive Message where
  | ack (requestId : Nat)
  | info (requestId : Nat) (text : StringView)
  | output (requestId : Nat) (stream : Stream) (bytes : List UInt8)
  | status (requestId : Nat) (state : DaemonState) (summary : StringView)
  | result (requestId : Nat) (state : DaemonState) (ok : Bool) (exitCode : Nat)
  | error (requestId : Nat) (code : ErrorCode) (state : DaemonState) (text : StringView)
  deriving DecidableEq

/-- The signals that the daemon sends. -/
inductive Signal where
  | term
  | kill
  deriving DecidableEq

/-- What a handler does to the world outside the server. -/
inductive Act where
  | accepted (fd : Nat)
  | sent (fd : Nat) (message : Message)
  | closed (fd : Nat)
  | spawned (pid : Nat) (request : RunnerRequest)
  | signalled (pid : Nat) (signal : Signal)
  | reaped (pid : Nat)
  | finished (cancelled : Bool)
  | sessionStarted
  | recorded (path : StringView)
  deriving DecidableEq

/-! ## The server -/

/-- The worker fields of `Test_Daemon_Server`: `worker_pid` is `none` for -1, and the request is
present exactly when `current_worker_request_valid`. A source is true while it is registered, the
kill timer while it has not fired. -/
structure Worker where
  pid : Option Nat
  exitCode : Nat
  exited : Bool
  stdoutClosed : Bool
  stderrClosed : Bool
  cancelRequested : Bool
  killEscalationSent : Bool
  request : Option RunnerRequest
  stdoutSource : Bool
  stderrSource : Bool
  pidfdSource : Bool
  killTimer : Bool

/-- `Test_Daemon_Watch_Session`. The batch is the first `batch_count` entries of `batch_modules`. -/
structure WatchSession where
  active : Bool
  rerunPending : Bool
  cancelRequested : Bool
  rescanRequired : Bool
  closing : Bool
  exitAfterRerun : Bool
  batchIsBaseline : Bool
  requestId : Nat
  inotifyFd : Bool
  inotifySource : Bool
  clientSource : Bool
  debounceSource : Bool
  request : WatchRequest
  roots : List StringView
  changedPaths : List StringView
  watchedDirs : List (Nat × StringView)
  batchModules : List Nat
  batchIndex : Nat

/-- The watch session that `daemon_watch_reset_session` leaves: everything zero. -/
def WatchSession.zero : WatchSession where
  active := false
  rerunPending := false
  cancelRequested := false
  rescanRequired := false
  closing := false
  exitAfterRerun := false
  batchIsBaseline := false
  requestId := 0
  inotifyFd := false
  inotifySource := false
  clientSource := false
  debounceSource := false
  request := ⟨.module, 0, 0, false, false⟩
  roots := []
  changedPaths := []
  watchedDirs := []
  batchModules := []
  batchIndex := 0

/-- `Test_Daemon_Server`. `exitRequested` is the code given to `sd_event_exit`. -/
structure Server where
  client : Option Nat
  worker : Worker
  watch : WatchSession
  shuttingDown : Bool
  forceStopRequested : Bool
  currentRequestId : Nat
  state : DaemonState
  telemetry : Telemetry
  bufferedStdout : List UInt8
  bufferedStderr : List UInt8
  exitRequested : Option Nat
  sends : List Bool
  log : List Act

/-- No worker, as `test_daemon_main` starts with. -/
def Worker.initial : Worker where
  pid := none
  exitCode := 0
  exited := false
  stdoutClosed := true
  stderrClosed := true
  cancelRequested := false
  killEscalationSent := false
  request := none
  stdoutSource := false
  stderrSource := false
  pidfdSource := false
  killTimer := false

/-- The server when `test_daemon_main` enters the event loop. -/
def Server.initial : Server where
  client := none
  worker := .initial
  watch := .zero
  shuttingDown := false
  forceStopRequested := false
  currentRequestId := 0
  state := .idle
  telemetry := coldTelemetry
  bufferedStdout := []
  bufferedStderr := []
  exitRequested := none
  sends := []
  log := []

/-! ## What the system answers -/

/-- How `inotify_add_watch` answers: a watch descriptor, no such directory, or another error. -/
inductive AddWatch where
  | watched (wd : Nat)
  | absent
  | refused

mutual

/-- What is found at a path when it is scanned for directories. -/
inductive DirTree where
  /-- `stat` reports `ENOENT`. -/
  | missing
  /-- `stat` fails in another way. -/
  | unreadable
  /-- No directory. -/
  | file (watch : AddWatch)
  /-- A directory that cannot be opened. -/
  | locked (watch : AddWatch)
  /-- A directory and its entries in the order of `readdir`. -/
  | folder (watch : AddWatch) (entries : DirEntries)

/-- Entries of a directory without `.` and `..`. -/
inductive DirEntries where
  | nil
  | cons (name : StringView) (tree : DirTree) (rest : DirEntries)

end

/-- What a watch root is: a directory, or something else, whose parent is watched. -/
inductive RootScan where
  | directory (tree : DirTree)
  | other (parent : AddWatch)

/-- What `daemon_watch_register_roots` finds: whether `inotify_init1` and the event source
succeed, and each root in order. -/
structure RootsScan where
  initialized : Bool
  registered : Bool
  roots : List RootScan

/-- How `daemon_spawn_worker` ends: before it made a pipe; without a watched process, of which the
pid is known when `fork` succeeded; with a process whose sources could not be registered; with a
running worker. -/
inductive Spawn where
  | refused
  | failed (forked : Option Nat)
  | unwatched (pid : Nat)
  | started (pid : Nat)

/-- What the system answers to one handler. Each of these is asked at most once in a handler,
except for the sends. -/
structure Answers where
  /-- Whether the sends of the handler succeed, in order; those beyond the list do. -/
  sends : List Bool
  /-- The result of `daemon_ensure_preflight` and the telemetry it leaves. -/
  preflight : Bool × Telemetry
  /-- How starting a worker ends. -/
  spawn : Spawn
  /-- Whether `kill` with `SIGTERM` succeeds or reports `ESRCH`. -/
  term : Bool
  /-- Whether the kill timer can be registered. -/
  killTimer : Bool
  /-- Whether the debounce timer can be registered. -/
  debounceTimer : Bool
  /-- Whether the client connection of a watch session can be watched. -/
  clientSource : Bool
  /-- What registering the watch roots finds. -/
  scan : RootsScan
  /-- The result file of the worker, if it can be read. -/
  resultFile : Option RunnerResult
  /-- Whether `test_daemon_result_from_runner` can copy the result. -/
  payloadFits : Bool
  /-- `NOB_TEST_WATCH_EXIT_AFTER_RERUN` is `1`. -/
  exitAfterRerun : Bool

/-! ## Clients -/

/-- `test_daemon_send_message` and its kin on an open connection. -/
def send (server : Server) (fd : Nat) (message : Message) : Bool × Server :=
  (server.sends.headD true,
    { server with sends := server.sends.tail, log := .sent fd message :: server.log })

/-- Sending to `current_client_fd`; on descriptor -1 it fails. -/
def sendClient (server : Server) (message : Message) : Bool × Server :=
  match server.client with
  | none => (false, server)
  | some fd => send server fd message

/-- `daemon_close_fd` on `current_client_fd`. -/
def closeClient (server : Server) : Server :=
  match server.client with
  | none => server
  | some fd => { server with client := none, log := .closed fd :: server.log }

/-- `daemon_watch_detach_client`. -/
def watchDetachClient (server : Server) : Server :=
  if server.watch.active then closeClient { server with watch.clientSource := false } else server

/-- `daemon_handle_client_disconnect`. -/
def handleClientDisconnect (server : Server) : Server :=
  if server.watch.active then watchDetachClient server else closeClient server

/-- `daemon_watch_send_text`, which only sends messages of type `INFO`. -/
def watchSendText (server : Server) (text : StringView) : Bool × Server :=
  match server.client with
  | none => (server.watch.active, server)
  | some fd =>
    let requestId := if server.watch.active then server.watch.requestId else server.currentRequestId
    let (sent, server) := send server fd (.info requestId text)
    if sent then (true, server)
    else if server.watch.active then (true, watchDetachClient server)
    else (false, handleClientDisconnect server)

/-- The bytes of the buffers of `daemon_watch_send_infof` and `daemon_watch_report_issue`. -/
def infoCapacity : Nat := 1024

/-- `daemon_watch_send_infof` of a formatted text. -/
def watchSendInfof (server : Server) (text : StringView) : Bool × Server :=
  if infoCapacity ≤ text.length then (false, server) else watchSendText server text

/-- `daemon_watch_send_infof` of several texts, up to the first that fails. -/
def watchSendInfos (server : Server) : List StringView → Bool × Server
  | [] => (true, server)
  | text :: rest =>
    let (sent, server) := watchSendInfof server text
    if sent then watchSendInfos server rest else (false, server)

/-- `daemon_watch_report_issue`. -/
def watchReportIssue (server : Server) (text : StringView) : Bool × Server :=
  if infoCapacity ≤ text.length then (false, server)
  else watchSendInfof server (sv "[watch] " ++ text ++ sv "\n")

/-- `daemon_watch_is_verbose`. -/
def watchIsVerbose (server : Server) : Bool := server.watch.active && server.watch.request.verbose

/-- `daemon_watch_is_compact`. -/
def watchIsCompact (server : Server) : Bool := server.watch.active && !server.watch.request.verbose

/-- `daemon_clear_buffered_worker_output`. -/
def clearBufferedWorkerOutput (server : Server) : Server :=
  { server with bufferedStdout := [], bufferedStderr := [] }

/-- `daemon_buffer_worker_output`. -/
def bufferWorkerOutput (server : Server) (stream : Stream) (bytes : List UInt8) : Server :=
  match stream with
  | .stdout => { server with bufferedStdout := server.bufferedStdout ++ bytes }
  | .stderr => { server with bufferedStderr := server.bufferedStderr ++ bytes }

/-- One of the sends of `daemon_flush_buffered_worker_output`, made when there is output. -/
def sendBuffered (server : Server) (stream : Stream) (bytes : List UInt8) : Bool × Server :=
  if bytes.isEmpty then (true, server)
  else sendClient server (.output server.currentRequestId stream bytes)

/-- The sends of `daemon_flush_buffered_worker_output`, the second only after the first. -/
def sendBufferedOutput (server : Server) : Bool × Server :=
  let (sent, server) := sendBuffered server .stderr server.bufferedStderr
  if sent then sendBuffered server .stdout server.bufferedStdout else (false, server)

/-- `daemon_flush_buffered_worker_output`. -/
def flushBufferedWorkerOutput (server : Server) : Bool × Server :=
  if server.watch.active && server.client.isNone then (true, clearBufferedWorkerOutput server)
  else
    let (sent, server) := sendBufferedOutput server
    (sent, clearBufferedWorkerOutput (if sent then server else handleClientDisconnect server))

/-- `daemon_effective_state`. -/
def effectiveState (server : Server) : DaemonState :=
  if server.shuttingDown then
    if server.worker.pid.isSome || server.watch.active then .draining else .stopping
  else if server.watch.active then .watching
  else if server.worker.pid.isSome then .busy
  else server.state

/-- `test_daemon_state_name`. -/
def stateName : DaemonState → StringView
  | .stopped => sv "stopped"
  | .idle => sv "idle"
  | .busy => sv "busy"
  | .watching => sv "watching"
  | .draining => sv "draining"
  | .stopping => sv "stopping"

/-- `daemon_send_status_result`. -/
def sendStatusResult (server : Server) (fd requestId : Nat) (summary : StringView) :
    Bool × Server :=
  send server fd (.status requestId (effectiveState server) summary)

/-- `daemon_send_structured_error`. -/
def sendStructuredError (server : Server) (fd requestId : Nat) (code : ErrorCode)
    (text : StringView) : Bool × Server :=
  send server fd (.error requestId code (effectiveState server) text)

/-! ## The worker and the session -/

/-- `sd_event_exit`. -/
def eventExit (server : Server) (code : Nat) : Server :=
  { server with exitRequested := some code }

/-- `daemon_watch_clear_batch`. -/
def watchClearBatch (server : Server) : Server :=
  { server with watch.batchModules := [], watch.batchIndex := 0, watch.batchIsBaseline := false }

/-- `daemon_watch_reset_session`. -/
def watchResetSession (server : Server) : Server :=
  let server := { clearBufferedWorkerOutput server with watch := .zero }
  if server.worker.pid.isSome then server
  else { closeClient server with currentRequestId := 0, state := .idle }

/-- `daemon_begin_worker_cancel`. -/
def beginWorkerCancel (server : Server) (answers : Answers)
    (markWatchCancel closingSession : Bool) : Bool × Server :=
  match server.worker.pid with
  | none => (true, server)
  | some pid =>
    let server := { server with
      watch.closing := server.watch.closing || closingSession
      watch.cancelRequested := server.watch.cancelRequested || markWatchCancel
      worker.cancelRequested := true
      log := .signalled pid .term :: server.log }
    if !answers.term then (false, server)
    else if answers.killTimer then (true, { server with worker.killTimer := true })
    else (true, { server with
      worker.killTimer := false
      worker.killEscalationSent := true
      log := .signalled pid .kill :: server.log })

/-- The worker fields after `daemon_reset_worker_state`. -/
def Worker.reset : Worker := { Worker.initial with exitCode := 1 }

/-- `daemon_reset_worker_state`. -/
def resetWorkerState (server : Server) (closeClientFd : Bool) : Server :=
  let server := if closeClientFd then closeClient server else server
  { clearBufferedWorkerOutput server with
    worker := .reset
    forceStopRequested := false
    currentRequestId :=
      if closeClientFd && !server.watch.active then 0 else server.currentRequestId
    state := if server.watch.active then .watching else .idle
    telemetry := coldTelemetry }

/-- The state that `daemon_spawn_worker` goes back to when it fails after its first pipe. -/
def spawnFailed (server : Server) (forked : Option Nat) : Server :=
  { server with
    worker := { server.worker with
      pid := none, request := none, stdoutSource := false, stderrSource := false,
      pidfdSource := false }
    state := if server.watch.active then .watching else .idle
    log := match forked with
      | some pid => .reaped pid :: .signalled pid .kill :: server.log
      | none => server.log }

/-- The server with a new worker process, before its sources are registered. -/
def recordWorker (server : Server) (request : RunnerRequest) (requestId pid : Nat) : Server :=
  { server with
    worker := { server.worker with
      pid := some pid, exitCode := 1, exited := false, stdoutClosed := false,
      stderrClosed := false, request := some request }
    currentRequestId := requestId
    state := .busy
    log := .spawned pid request :: server.log }

/-- `daemon_spawn_worker`. -/
def spawnWorker (server : Server) (answers : Answers) (request : RunnerRequest)
    (requestId : Nat) : Bool × Server :=
  match answers.spawn with
  | .refused => (false, server)
  | .failed none => (false, spawnFailed server none)
  | .failed (some pid) =>
    (false, spawnFailed { server with log := .spawned pid request :: server.log } (some pid))
  | .unwatched pid =>
    (false, spawnFailed (recordWorker server request requestId pid) (some pid))
  | .started pid =>
    let server := recordWorker server request requestId pid
    (true, { server with
      worker.stdoutSource := true, worker.stderrSource := true, worker.pidfdSource := true })

/-! ## Watched directories -/

/-- The bytes of a path buffer, `TEST_RUNNER_PATH_CAPACITY`. -/
def pathCapacity : Nat := 4096

/-- `daemon_watch_add_directory`. -/
def addDirectory (watch : WatchSession) (path : StringView) (answer : AddWatch) :
    Bool × WatchSession :=
  if !watch.inotifyFd then (false, watch)
  else if watch.watchedDirs.any (fun entry => entry.2 == path) then (true, watch)
  else
    match answer with
    | .watched wd => (true, { watch with watchedDirs := watch.watchedDirs ++ [(wd, path)] })
    | .absent => (true, { watch with rescanRequired := true })
    | .refused => (false, watch)

mutual

/-- `daemon_watch_add_directory_recursive`. -/
def addDirectoryRecursive (watch : WatchSession) (path : StringView) : DirTree → Bool × WatchSession
  | .missing => (true, { watch with rescanRequired := true })
  | .unreadable => (false, watch)
  | .file answer => addDirectory watch path answer
  | .locked answer => (false, (addDirectory watch path answer).2)
  | .folder answer entries =>
    let (added, watch) := addDirectory watch path answer
    if added then addEntries watch path entries else (false, watch)

/-- The loop over the entries of a directory: only its directories are added. -/
def addEntries (watch : WatchSession) (path : StringView) : DirEntries → Bool × WatchSession
  | .nil => (true, watch)
  | .cons name tree rest =>
    let child := path ++ '/' :: name
    if pathCapacity ≤ child.length then (false, watch)
    else
      match tree with
      | .locked answer => (false, (addDirectory watch child answer).2)
      | .folder answer entries =>
        let (added, watch) := addDirectoryRecursive watch child (.folder answer entries)
        if added then addEntries watch path rest else (false, watch)
      | _ => addEntries watch path rest

end

/-- `daemon_watch_parent_dir`. -/
def watchParentDir (path : StringView) : Option StringView :=
  let dir := ((path.reverse.dropWhile (· ≠ '/')).drop 1).reverse
  if dir.isEmpty then some (sv ".") else if pathCapacity ≤ dir.length then none else some dir

/-- Registering one watch root. -/
def registerRoot (watch : WatchSession) (root : StringView) : RootScan → Bool × WatchSession
  | .directory tree => addDirectoryRecursive watch root tree
  | .other parent =>
    match watchParentDir root with
    | none => (false, watch)
    | some dir => addDirectory watch dir parent

/-- The loop over the watch roots. -/
def registerEach (watch : WatchSession) : List StringView → List RootScan → Bool × WatchSession
  | [], _ => (true, watch)
  | root :: rest, scans =>
    let (added, watch) := registerRoot watch root (scans.headD (.other .absent))
    if added then registerEach watch rest scans.tail else (false, watch)

/-- `daemon_watch_register_roots`. -/
def registerRoots (watch : WatchSession) (scan : RootsScan) : Bool × WatchSession :=
  let watch := { watch with inotifySource := false, inotifyFd := false, watchedDirs := [] }
  if !scan.initialized then (false, watch)
  else if !scan.registered then (false, { watch with inotifyFd := true })
  else registerEach { watch with inotifyFd := true, inotifySource := true } watch.roots scan.roots

end Nobify.Daemon
