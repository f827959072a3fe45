import Nobify.Daemon.Watch

/-!
# The event loop of the test daemon

The handlers of the worker's pipes and process, of the kill timer, of signals and of the listening
socket, and the step of the event loop: an event of a registered source is handled, with the
answers that the system gives meanwhile. The loop ends when its exit is requested.

A worker's run is over when three events have been handled in any order: its exit and the end of
both its pipes. `daemon_finish_active_run` is called after each of them.
-/

namespace Nobify.Daemon

/-! ## The end of a run -/

/-- `test_runner_launcher_kind_name`. -/
def launcherKindName : LauncherKind → StringView
  | .none => sv "none"
  | .ccache => sv "ccache"
  | .sccache => sv "sccache"
  | .custom => sv "custom"

/-- `test_daemon_launcher_cache_reason_name`. -/
def launcherCacheReasonName : LauncherCacheReason → StringView
  | .hit => sv "hit"
  | .cold => sv "cold"
  | .path => sv "PATH"
  | .override => sv "override"

/-- `test_daemon_preflight_reason_name`. -/
def preflightReasonName : PreflightReason → StringView
  | .hit => sv "hit"
  | .cold => sv "cold"
  | .fingerprint => sv "fingerprint"
  | .path => sv "PATH"
  | .llvmTools => sv "LLVM_TOOLS"
  | .libFlags => sv "LIB_FLAGS"

/-- The text of `daemon_emit_fast_path_summary`. It fits its buffer: its names are short and its
numbers have at most ten digits. -/
def fastPathText (telemetry : Telemetry) (result : RunnerResult) : StringView :=
  sv "[daemon] fast-path: launcher=" ++ launcherKindName telemetry.launcherKind ++
    sv " launcher_cache=" ++ launcherCacheReasonName telemetry.launcherCacheReason ++
    sv " preflight=" ++ preflightReasonName telemetry.preflightReason ++
    sv " jobs=" ++ decimal result.compileJobs ++ sv " rebuilt=" ++ decimal result.objectsRebuilt ++
    sv " reused=" ++ decimal result.objectsReused ++ sv " linked=" ++
    (if result.linkPerformed then sv "yes" else sv "no") ++ sv "\n"

/-- `daemon_should_emit_fast_path_summary`. -/
def shouldEmitFastPathSummary (server : Server) (result : RunnerResult) (watchActive : Bool) :
    Bool :=
  !watchActive || watchIsVerbose server ||
    (server.telemetry.launcherCacheReason != .hit || server.telemetry.preflightReason != .hit ||
      0 < result.objectsRebuilt || result.linkPerformed || !result.ok)

/-- `daemon_emit_fast_path_summary`. -/
def emitFastPathSummary (server : Server) (result : RunnerResult) (watchActive : Bool) :
    Bool × Server :=
  if shouldEmitFastPathSummary server result watchActive then
    watchSendText server (fastPathText server.telemetry result)
  else (true, server)

/-- The result of the run: the result file, or what the exit code says. -/
def runnerResult (worker : Worker) (answers : Answers) : RunnerResult :=
  answers.resultFile.getD ⟨worker.exitCode == 0, 0, 0, 0, false⟩

/-- The branch of `daemon_finish_active_run` for a run of a watch session that was cancelled. -/
def finishCancelledRun (registry : Registry) (server : Server) (answers : Answers) :
    Bool × Server :=
  let (sent, server) :=
    watchSendInfof server (sv "[watch] stale run aborted after newer changes\n")
  if !sent then (false, watchResetSession server)
  else
    let server := { server with
      watch.cancelRequested := false, log := .finished true :: server.log }
    let server := resetWorkerState server server.watch.closing
    if server.watch.closing then
      let server := watchResetSession server
      (true, if server.shuttingDown then eventExit server 0 else server)
    else if server.watch.hasPending then watchHandlePendingBatch registry server answers
    else (true, server)

/-- Telling the client the result: whether the payload could be made. The client is the one that
was attached when the run ended. -/
def sendRunResult (server : Server) (answers : Answers) (result : RunnerResult)
    (attached : Bool) : Bool × Server :=
  if !answers.payloadFits then (false, server)
  else if !attached then (true, server)
  else
    let (sent, server) := sendClient server
      (.result server.currentRequestId (effectiveState server) result.ok server.worker.exitCode)
    (true, if sent then server else handleClientDisconnect server)

/-- What follows the end of a run of a watch session. -/
def watchContinue (registry : Registry) (server : Server) (answers : Answers) (ok : Bool) :
    Bool × Server :=
  let exitWhenDone (server : Server) : Bool × Server :=
    (ok, if server.shuttingDown && !server.watch.active then
      eventExit server (if ok then 0 else 1) else server)
  if !ok || server.watch.closing then exitWhenDone (watchResetSession server)
  else if server.watch.batchIndex < server.watch.batchModules.length then
    watchStartNextModule registry server answers
  else if server.watch.hasPending then watchHandlePendingBatch registry server answers
  else if server.watch.exitAfterRerun && !server.watch.batchIsBaseline then
    exitWhenDone (watchResetSession server)
  else exitWhenDone server

/-- The end of `daemon_finish_active_run`: the client is told the result, the worker's state is
reset, and the session goes on. -/
def finishReportedRun (registry : Registry) (server : Server) (answers : Answers)
    (result : RunnerResult) (watchActive attached : Bool) : Bool × Server :=
  let (ok, server) := sendRunResult server answers result attached
  let server := resetWorkerState { server with log := .finished false :: server.log } (!watchActive)
  if watchActive then watchContinue registry server answers ok
  else
    (ok, if server.shuttingDown then eventExit server (if ok then 0 else 1) else server)

/-- The buffered output of a failed run goes to a compact client, other output is dropped. -/
def settleBufferedOutput (server : Server) (result : RunnerResult) : Bool × Server :=
  if watchIsCompact server && !result.ok then flushBufferedWorkerOutput server
  else (true, clearBufferedWorkerOutput server)

/-- The part of `daemon_finish_active_run` for a run that was not cancelled. -/
def finishCompletedRun (registry : Registry) (server : Server) (answers : Answers) :
    Bool × Server :=
  let watchActive := server.watch.active
  let attached := server.client.isSome
  let result := runnerResult server.worker answers
  let (settled, server) := settleBufferedOutput server result
  if !settled then (false, watchResetSession server)
  else
    let (told, server) := emitFastPathSummary server result watchActive
    if !told then (false, if watchActive then watchResetSession server else server)
    else finishReportedRun registry server answers result watchActive attached

/-- `daemon_finish_active_run`. -/
def finishActiveRun (registry : Registry) (server : Server) (answers : Answers) : Bool × Server :=
  if !(server.worker.exited && server.worker.stdoutClosed && server.worker.stderrClosed) then
    (true, server)
  else if server.watch.active && server.watch.cancelRequested then
    finishCancelledRun registry server answers
  else finishCompletedRun registry server answers

/-- The end of the handlers of the worker's events. -/
def afterWorkerEvent (registry : Registry) (server : Server) (answers : Answers) : Server :=
  let (finished, server) := finishActiveRun registry server answers
  if !finished && server.watch.active then watchResetSession server else server

/-! ## The worker's events -/

/-- What `read` on a pipe returns: bytes, an interruption, or the end of the pipe or an error. -/
inductive PipeRead where
  | bytes (data : List UInt8)
  | interrupted
  | ended

/-- Output of the worker is buffered for a compact session and else sent to the client. -/
def forwardOutput (server : Server) (stream : Stream) (data : List UInt8) : Server :=
  if watchIsCompact server then bufferWorkerOutput server stream data
  else
    match server.client with
    | none => server
    | some fd =>
      let (sent, server) := send server fd (.output server.currentRequestId stream data)
      if sent then server else handleClientDisconnect server

/-- The pipe is closed and its source gone. -/
def closePipe (server : Server) : Stream → Server
  | .stdout => { server with worker.stdoutSource := false, worker.stdoutClosed := true }
  | .stderr => { server with worker.stderrSource := false, worker.stderrClosed := true }

/-- `daemon_on_worker_pipe`. -/
def onWorkerPipe (registry : Registry) (server : Server) (answers : Answers) (stream : Stream) :
    PipeRead → Server
  | .bytes data => forwardOutput server stream data
  | .interrupted => server
  | .ended => afterWorkerEvent registry (closePipe server stream) answers

/-- What `waitpid` reports: an exit code, a signal, another status, or an error. -/
inductive WaitStatus where
  | exited (code : Nat)
  | signaled (signal : Nat)
  | other
  | failed

/-- The exit code that `daemon_on_worker_pidfd` takes from `waitpid`. -/
def waitExitCode (worker : Worker) : WaitStatus → Nat
  | .exited code => code
  | .signaled signal => 128 + signal
  | .other => 1
  | .failed => worker.exitCode

/-- Reaping the worker. -/
def reapWorker (server : Server) (status : WaitStatus) : Server :=
  match server.worker.pid, status with
  | none, _ => server
  | some _, .failed => server
  | some pid, status =>
    { server with
      worker.exitCode := waitExitCode server.worker status, log := .reaped pid :: server.log }

/-- `daemon_on_worker_pidfd`. -/
def onWorkerPidfd (registry : Registry) (server : Server) (answers : Answers)
    (status : WaitStatus) : Server :=
  let server := reapWorker server status
  afterWorkerEvent registry
    { server with worker.exited := true, worker.pidfdSource := false } answers

/-- `daemon_on_kill_timer`. The timer fires once. -/
def onKillTimer (server : Server) : Server :=
  let server := { server with worker.killTimer := false }
  match server.worker.pid with
  | none => server
  | some pid =>
    { server with worker.killEscalationSent := true, log := .signalled pid .kill :: server.log }

/-- The session is reset when there is one. -/
def resetActiveSession (server : Server) : Server :=
  if server.watch.active then watchResetSession server else server

/-- The flags that a stop request or a signal sets. -/
def requestStop (server : Server) (force : Bool) : Server :=
  { server with
    shuttingDown := true
    forceStopRequested := force
    watch.closing := server.watch.closing || server.watch.active }

/-- `daemon_on_signal`. -/
def onSignal (server : Server) (answers : Answers) : Server :=
  let server := requestStop server false
  if server.worker.pid.isSome then
    (beginWorkerCancel server answers server.watch.active server.watch.active).2
  else
    eventExit (resetActiveSession server) 0

/-! ## Requests -/

/-- `Test_Daemon_Control_Command`, and any other value. -/
inductive ControlCommand where
  | ping
  | status
  | stop
  | stopForce
  | unknown
  deriving DecidableEq

/-- `daemon_watch_status_summary`. -/
def watchStatusSummary (server : Server) : StringView :=
  if server.watch.active && server.client.isSome then sv "watching (attached)"
  else sv "watching (detached)"

/-- The `STOP` command when the daemon is not shutting down yet. -/
def handleStop (server : Server) (fd requestId : Nat) : Bool × Server :=
  let server := requestStop server false
  let (sent, server) := sendStatusResult server fd requestId
    (if server.worker.pid.isSome || server.watch.active then sv "draining" else sv "stopping")
  if !sent then (false, server)
  else if server.worker.pid.isSome then (true, server)
  else (true, eventExit (resetActiveSession server) 0)

/-- The `STOP_FORCE` command when no forced stop was requested yet. -/
def handleStopForce (server : Server) (answers : Answers) (fd requestId : Nat) : Bool × Server :=
  let server := requestStop server true
  if server.worker.pid.isSome then
    let (cancelled, server) :=
      beginWorkerCancel server answers server.watch.active server.watch.active
    if cancelled then sendStatusResult server fd requestId (sv "force-stopping")
    else
      sendStructuredError server fd requestId .internal (sv "failed to cancel active daemon worker")
  else
    let server := resetActiveSession server
    let (sent, server) := sendStatusResult server fd requestId (sv "stopping")
    if sent then (true, eventExit server 0) else (false, server)

/-- `daemon_handle_control`. -/
def handleControl (server : Server) (answers : Answers) (fd requestId : Nat) :
    ControlCommand → Bool × Server
  | .ping => sendStatusResult server fd requestId (sv "pong")
  | .status =>
    sendStatusResult server fd requestId (if server.watch.active then watchStatusSummary server
        else stateName (effectiveState server))
  | .stop =>
    if server.shuttingDown then
      sendStatusResult server fd requestId (stateName (effectiveState server))
    else handleStop server fd requestId
  | .stopForce =>
    if server.shuttingDown && server.forceStopRequested then
      sendStatusResult server fd requestId (stateName (effectiveState server))
    else handleStopForce server answers fd requestId
  | .unknown =>
    sendStructuredError server fd requestId .unknownControl (sv "unknown daemon control command")

/-- `daemon_send_admission_error`. -/
def sendAdmissionError (server : Server) (fd requestId : Nat) : Bool × Server :=
  let state := effectiveState server
  if state = .draining ∨ state = .stopping then
    sendStructuredError server fd requestId .stopping (sv "daemon is draining or stopping")
  else if server.watch.active then
    sendStructuredError server fd requestId .busyWatch
      (sv "daemon is busy with an active watch session")
  else
    sendStructuredError server fd requestId .busyForeground
      (sv "daemon is busy with an active foreground run")

/-- `daemon_handle_run_request` for a request that the front door accepts. -/
def startForegroundRun (server : Server) (answers : Answers) (fd requestId : Nat)
    (request : RunnerRequest) : Bool × Server :=
  let server := { server with telemetry := answers.preflight.2 }
  if !answers.preflight.1 then
    (false, (sendStructuredError server fd requestId .preflightFailed
      (sv "daemon preflight failed")).2)
  else
    let (sent, server) := send { server with client := some fd } fd (.ack requestId)
    if !sent then (false, server)
    else
      let (started, server) := spawnWorker server answers request requestId
      if started then (true, server)
      else
        let (_, server) := sendStructuredError server fd requestId .workerStartFailed
          (sv "daemon failed to start worker")
        (false, closeClient server)

/-- `daemon_handle_run_request`. -/
def handleRunRequest (server : Server) (answers : Answers) (fd requestId : Nat)
    (decoded : Decoded RunnerRequest) : Bool × Server :=
  if effectiveState server ≠ .idle then sendAdmissionError server fd requestId
  else
    match decoded with
    | .undecodable =>
      sendStructuredError server fd requestId .malformedRequest (sv "failed to decode run request")
    | .refused =>
      (false, (sendStructuredError server fd requestId .malformedRequest
        (sv "invalid run request arguments")).2)
    | .request request => startForegroundRun server answers fd requestId request

/-- `daemon_handle_watch_request`. -/
def handleWatchRequest (registry : Registry) (server : Server) (answers : Answers)
    (fd requestId : Nat) (decoded : Decoded WatchRequest) : Bool × Server :=
  if effectiveState server ≠ .idle then sendAdmissionError server fd requestId
  else watchStartSession registry server answers fd requestId decoded

/-- The second message of a connection; a control request with a payload of the wrong size is
malformed. -/
inductive ClientRequest where
  | control (command : ControlCommand)
  | malformedControl
  | run (decoded : Decoded RunnerRequest)
  | watch (decoded : Decoded WatchRequest)
  | unsupported

/-- What the listener gets from a connection: nothing it can use (a foreign user, or no first
message), a first message that is no `HELLO`, or a `HELLO` and then perhaps a request. -/
inductive Connection where
  | unusable
  | noHello (requestId : Nat)
  | hello (requestId : Nat) (request : Option (Nat × ClientRequest))

/-- The request that a new connection makes after it was greeted. -/
def Connection.request : Connection → Option ClientRequest
  | .hello _ (some (_, request)) => some request
  | _ => none

/-- `daemon_on_listener` after `accept4` for a request: whether the server keeps the connection. -/
def handleClientRequest (registry : Registry) (server : Server) (answers : Answers)
    (fd requestId : Nat) : ClientRequest → Bool × Server
  | .control command => (false, (handleControl server answers fd requestId command).2)
  | .malformedControl =>
    (false, (sendStructuredError server fd requestId .malformedRequest
      (sv "malformed control request")).2)
  | .run decoded => handleRunRequest server answers fd requestId decoded
  | .watch decoded => handleWatchRequest registry server answers fd requestId decoded
  | .unsupported =>
    (false, (sendStructuredError server fd requestId .malformedRequest
      (sv "unsupported daemon message")).2)

/-- The messages of a new connection. -/
def handleConnection (registry : Registry) (server : Server) (answers : Answers) (fd : Nat) :
    Connection → Bool × Server
  | .unusable => (false, server)
  | .noHello requestId =>
    (false, (send server fd
      (.error requestId .protocol (effectiveState server) (sv "expected HELLO"))).2)
  | .hello requestId request =>
    let (sent, server) := send server fd (.ack requestId)
    match sent, request with
    | true, some (requestId, request) =>
      handleClientRequest registry server answers fd requestId request
    | _, _ => (false, server)

/-- `daemon_on_listener` for an accepted connection, which is closed unless the server keeps it. -/
def onListener (registry : Registry) (server : Server) (answers : Answers) (fd : Nat)
    (connection : Connection) : Server :=
  let (kept, server) := handleConnection registry
    { server with log := .accepted fd :: server.log } answers fd connection
  if kept then server else { server with log := .closed fd :: server.log }

/-! ## The event loop -/

/-- The events of the loop. -/
inductive Event where
  | listener (fd : Nat) (connection : Connection)
  | workerPipe (stream : Stream) (read : PipeRead)
  | workerPidfd (status : WaitStatus)
  | killTimer
  | signal
  | watchClient (hangup : Bool)
  | watchDebounce
  | watchInotify (events : List InotifyEvent) (readFailed : Bool)

/-- The source of the event is registered. The listener and the signals always are. -/
def Event.registered (server : Server) : Event → Bool
  | .listener _ _ => true
  | .workerPipe .stdout _ => server.worker.stdoutSource
  | .workerPipe .stderr _ => server.worker.stderrSource
  | .workerPidfd _ => server.worker.pidfdSource
  | .killTimer => server.worker.killTimer
  | .signal => true
  | .watchClient _ => server.watch.clientSource
  | .watchDebounce => server.watch.debounceSource
  | .watchInotify _ _ => server.watch.inotifySource

/-- The handler of an event. -/
def handle (registry : Registry) (server : Server) (answers : Answers) : Event → Server
  | .listener fd connection => onListener registry server answers fd connection
  | .workerPipe stream read => onWorkerPipe registry server answers stream read
  | .workerPidfd status => onWorkerPidfd registry server answers status
  | .killTimer => onKillTimer server
  | .signal => onSignal server answers
  | .watchClient hangup => onWatchClient server hangup
  | .watchDebounce => onWatchDebounce registry server answers
  | .watchInotify events readFailed => onWatchInotify server answers events readFailed

/-- An event and what the system answers while it is handled. -/
structure Step where
  event : Event
  answers : Answers

/-- One turn of the event loop, while its exit is not requested. -/
def step (registry : Registry) (server : Server) (turn : Step) : Option Server :=
  if server.exitRequested.isNone && turn.event.registered server then
    some (handle registry { server with sends := turn.answers.sends } turn.answers turn.event)
  else none

/-- `daemon_teardown`, after the loop: a worker that was not reaped is killed and reaped, and the
worker's state and the session are reset. -/
def teardown (server : Server) : Server :=
  let server :=
    match server.worker.pid with
    | none => server
    | some pid =>
      if server.worker.exited then server
      else { server with log := .reaped pid :: .signalled pid .kill :: server.log }
  watchResetSession (resetWorkerState server true)

end Nobify.Daemon
