import Nobify.Daemon.Effects
import Nobify.Lib.Replay

/-!
# The end of a worker

A worker's run ends with three events in any order, and the last of them resets the worker's state.
`Steady` is the invariant behind this: either no worker is recorded, or one is whose exit and pipe
closings are each either handled or still watched, and not all of them are handled. It fails when
`daemon_finish_active_run` returns early: for a foreground run whose client is gone or cannot be
told, and for a failed run of a compact session whose output cannot be flushed. Nothing calls it
again after that.
-/

namespace Nobify.Daemon

open Lib

variable {before server : Server}

/-! ## Workers -/

/-- No worker is recorded, and none is watched. -/
structure Worker.Idle (worker : Worker) : Prop where
  pid : worker.pid = none
  request : worker.request = none
  stdoutSource : worker.stdoutSource = false
  stderrSource : worker.stderrSource = false
  pidfdSource : worker.pidfdSource = false

/-- A worker is recorded, and what is not yet handled of it is watched. -/
structure Worker.Tracked (worker : Worker) : Prop where
  pid : worker.pid.isSome = true
  stdoutSource : worker.stdoutSource = !worker.stdoutClosed
  stderrSource : worker.stderrSource = !worker.stderrClosed
  pidfdSource : worker.pidfdSource = !worker.exited

/-- The exit of the worker and the closing of both its pipes have been handled. -/
def Worker.over (worker : Worker) : Bool :=
  worker.exited && worker.stdoutClosed && worker.stderrClosed

/-- An event of the worker is still watched. -/
def Worker.hasEvent (worker : Worker) : Bool :=
  worker.stdoutSource || worker.stderrSource || worker.pidfdSource

/-- No worker, or one that is not over. -/
def Worker.Sound (worker : Worker) : Prop :=
  worker.Idle ∨ (worker.Tracked ∧ worker.over = false)

/-- The state after `daemon_reset_worker_state` has no worker. -/
theorem Worker.reset_idle : Worker.reset.Idle := ⟨rfl, rfl, rfl, rfl, rfl⟩

/-- A tracked worker that is not over has an event to come. -/
theorem Worker.Tracked.hasEvent {worker : Worker} (tracked : worker.Tracked)
    (unfinished : worker.over = false) : worker.hasEvent = true := by
  have stdout := tracked.stdoutSource
  have stderr := tracked.stderrSource
  have pidfd := tracked.pidfdSource
  unfold Worker.over at unfinished
  unfold Worker.hasEvent
  rw [stdout, stderr, pidfd]
  revert unfinished
  cases worker.exited <;> cases worker.stdoutClosed <;> cases worker.stderrClosed <;> decide

/-! ## Steady servers -/

/-- Whatever runs will be finished, and a server without a worker is idle or watching. -/
structure Steady (server : Server) : Prop where
  worker : server.worker.Sound
  state : server.worker.pid = none → server.state = if server.watch.active then .watching else .idle

/-- `Steady` looks at the worker, the state and whether a session is active. -/
theorem Steady.congr {after : Server} (steady : Steady before)
    (worker : after.worker = before.worker) (state : after.state = before.state)
    (active : after.watch.active = before.watch.active) : Steady after := by
  constructor
  · rw [worker]
    exact steady.worker
  · rw [worker, state, active]
    exact steady.state

theorem Steady.quiet {after : Server} (steady : Steady before) (quiet : Quiet before after) :
    Steady after :=
  steady.congr quiet.worker quiet.state quiet.active

section

variable (server : Server)

@[simp] theorem closeClient_worker :
    (closeClient server).worker = server.worker := (closeClient_quiet server).worker

@[simp] theorem closeClient_watch :
    (closeClient server).watch = server.watch := by
  unfold closeClient
  split <;> rfl

@[simp] theorem closeClient_shuttingDown :
    (closeClient server).shuttingDown = server.shuttingDown :=
  (closeClient_quiet server).shuttingDown

@[simp] theorem closeClient_exitRequested :
    (closeClient server).exitRequested = server.exitRequested :=
  (closeClient_quiet server).exitRequested

/-! ### Resetting a session -/

@[simp] theorem watchResetSession_worker :
    (watchResetSession server).worker = server.worker := by
  simp only [watchResetSession]
  split
  · rfl
  · exact closeClient_worker _

@[simp] theorem watchResetSession_watch :
    (watchResetSession server).watch = .zero := by
  simp only [watchResetSession]
  split
  · rfl
  · exact closeClient_watch _

@[simp] theorem watchResetSession_shuttingDown :
    (watchResetSession server).shuttingDown = server.shuttingDown := by
  simp only [watchResetSession]
  split
  · rfl
  · exact closeClient_shuttingDown _

@[simp] theorem watchResetSession_exitRequested :
    (watchResetSession server).exitRequested = server.exitRequested := by
  simp only [watchResetSession]
  split
  · rfl
  · exact closeClient_exitRequested _

end

/-- Without a worker the server is idle after its session is reset. -/
theorem watchResetSession_state (idle : server.worker.pid = none) :
    (watchResetSession server).state = .idle := by
  have noPid : ({ clearBufferedWorkerOutput server with watch := .zero } : Server).worker.pid.isSome
      = false := by
    simp [clearBufferedWorkerOutput, idle]
  simp only [watchResetSession]
  rw [if_neg (by rw [noPid]; decide)]

/-- Resetting a session keeps the worker. -/
theorem watchResetSession_steady (sound : server.worker.Sound) :
    Steady (watchResetSession server) := by
  constructor
  · rw [watchResetSession_worker]
    exact sound
  · intro idle
    rw [watchResetSession_worker] at idle
    rw [watchResetSession_state idle, watchResetSession_watch]
    rfl

/-! ### Resetting the worker -/

@[simp] theorem resetWorkerState_watch (server : Server) (closeClientFd : Bool) :
    (resetWorkerState server closeClientFd).watch = server.watch := by
  cases closeClientFd with
  | false => rfl
  | true => exact closeClient_watch server

@[simp] theorem resetWorkerState_shuttingDown (server : Server) (closeClientFd : Bool) :
    (resetWorkerState server closeClientFd).shuttingDown = server.shuttingDown := by
  cases closeClientFd with
  | false => rfl
  | true => exact closeClient_shuttingDown server

/-- After its worker is reset a server is steady. -/
theorem resetWorkerState_steady (server : Server) (closeClientFd : Bool) :
    Steady (resetWorkerState server closeClientFd) := by
  constructor
  · exact .inl Worker.reset_idle
  · intro _
    cases closeClientFd <;> rfl

/-! ### Starting a worker -/

/-- A server that has gone on with its work: it is steady, and no one asked it to stop. -/
structure Onward (before after : Server) : Prop where
  steady : Steady after
  shuttingDown : after.shuttingDown = before.shuttingDown

theorem Onward.quiet {middle after : Server} (onward : Onward before middle)
    (quiet : Quiet middle after) : Onward before after :=
  ⟨onward.steady.quiet quiet, quiet.shuttingDown.trans onward.shuttingDown⟩

/-- What went on after a step that asked no one to stop. -/
theorem Onward.after {middle after : Server} (onward : Onward middle after)
    (same : middle.shuttingDown = before.shuttingDown) : Onward before after :=
  ⟨onward.steady, onward.shuttingDown.trans same⟩

/-- A server without a worker that is ready to start one. -/
structure Ready (server : Server) : Prop where
  idle : server.worker.Idle
  steady : Steady server

theorem Ready.quiet {after : Server} (ready : Ready before) (quiet : Quiet before after) :
    Ready after := by
  constructor
  · rw [quiet.worker]
    exact ready.idle
  · exact ready.steady.quiet quiet

/-- Changes of the session that keep it active or inactive do not matter. -/
theorem Ready.congr {after : Server} (ready : Ready before) (worker : after.worker = before.worker)
    (state : after.state = before.state) (active : after.watch.active = before.watch.active) :
    Ready after := by
  constructor
  · rw [worker]
    exact ready.idle
  · exact ready.steady.congr worker state active

theorem Ready.onward (ready : Ready server) : Onward server server :=
  ⟨ready.steady, rfl⟩

/-- A failed start leaves no worker. -/
theorem spawnFailed_onward (server : Server) (forked : Option Nat) :
    Onward server (spawnFailed server forked) :=
  ⟨⟨.inl ⟨rfl, rfl, rfl, rfl, rfl⟩, fun _ => rfl⟩, rfl⟩

/-- A started worker is watched, and none of its events is handled. -/
theorem spawnWorker_onward (ready : Ready server) (answers : Answers) (request : RunnerRequest)
    (requestId : Nat) : Onward server (spawnWorker server answers request requestId).2 := by
  unfold spawnWorker
  split
  · exact ready.onward
  · exact spawnFailed_onward server none
  · rename_i pid _
    have forked := spawnFailed_onward
      { server with log := .spawned pid request :: server.log } (some pid)
    exact forked.after rfl
  · rename_i pid _
    have recorded := spawnFailed_onward (recordWorker server request requestId pid) (some pid)
    exact recorded.after rfl
  · exact ⟨⟨.inr ⟨⟨rfl, rfl, rfl, rfl⟩, rfl⟩, fun impossible => by cases impossible⟩, rfl⟩

/-- Clearing the batch does not matter to the worker. -/
theorem watchClearBatch_onward (onward : Onward before server) :
    Onward before (watchClearBatch server) :=
  ⟨onward.steady.congr rfl rfl rfl, onward.shuttingDown⟩

theorem watchRunModule_onward (ready : Ready server) (answers : Answers) (request : RunnerRequest)
    (moduleName profileName : StringView) :
    Onward server (watchRunModule server answers request moduleName profileName).2 := by
  have checked : Ready { server with telemetry := answers.preflight.2 } := ready.congr rfl rfl rfl
  unfold watchRunModule
  dsimp only
  split
  · have cleared := watchClearBatch_onward checked.onward
    exact (cleared.quiet (watchReportIssue_quiet ..)).after rfl
  · have running := watchSendInfof_quiet { server with telemetry := answers.preflight.2 }
      (sv "[watch] running " ++ moduleName ++ sv " (" ++ profileName ++ sv ")\n")
    revert running
    generalize watchSendInfof { server with telemetry := answers.preflight.2 } _ = announced
    intro running
    have announcedReady := checked.quiet running
    split
    · exact announcedReady.onward.after running.shuttingDown
    · have spawned := spawnWorker_onward announcedReady answers request announced.2.watch.requestId
      have onward : Onward server _ := spawned.after running.shuttingDown
      split
      · exact onward
      · exact (watchClearBatch_onward onward).quiet (watchReportIssue_quiet ..)

section

variable (ready : Ready server) (registry : Registry) (answers : Answers)

include ready

theorem watchStartModule_onward (id : Nat) :
    Onward server (watchStartModule registry server answers id).2 := by
  have taken : Ready { server with watch.batchIndex := server.watch.batchIndex + 1 } :=
    ready.congr rfl rfl rfl
  unfold watchStartModule
  dsimp only
  split
  · exact taken.onward.after rfl
  · split
    · exact taken.onward.after rfl
    · exact (watchRunModule_onward taken ..).after rfl

theorem watchBeginBatch_onward (modules : List Nat) :
    Onward server (watchBeginBatch registry server answers modules).2 := by
  cases modules with
  | nil => exact ⟨ready.steady.congr rfl rfl rfl, rfl⟩
  | cons id rest =>
    have batched : Ready { server with
        watch.batchModules := id :: rest, watch.batchIndex := 0, watch.batchIsBaseline := false,
        watch.changedPaths := [], watch.rescanRequired := false } := ready.congr rfl rfl rfl
    exact (watchStartModule_onward batched registry answers id).after rfl

theorem watchRouteBatch_onward (fallbackAll : Bool) :
    Onward server (watchRouteBatch registry server answers fallbackAll).2 := by
  unfold watchRouteBatch
  split
  · exact ready.onward
  · rename_i modules _
    have cleared : Ready { server with watch.rerunPending := false } := ready.congr rfl rfl rfl
    have overview := watchSendBatchOverview_quiet registry
      { server with watch.rerunPending := false } modules fallbackAll
    have announced := cleared.quiet overview
    dsimp only
    split
    · exact (watchBeginBatch_onward announced registry answers modules).after overview.shuttingDown
    · exact announced.onward.after overview.shuttingDown

theorem watchHandlePendingBatch_onward :
    Onward server (watchHandlePendingBatch registry server answers).2 := by
  have sorted : Ready (watchSortChangedPaths server) := ready.congr rfl rfl rfl
  unfold watchHandlePendingBatch
  split
  · exact ready.onward
  · dsimp only
    split
    · have scanned := registerRoots_scanned (watchSortChangedPaths server).watch answers.scan
      have registered : Ready { watchSortChangedPaths server with
          watch := (registerRoots (watchSortChangedPaths server).watch answers.scan).2 } :=
        sorted.congr rfl rfl scanned.active
      split
      · exact (watchRouteBatch_onward registered registry answers true).after rfl
      · exact registered.onward.after rfl
    · exact (watchRouteBatch_onward sorted registry answers false).after rfl

theorem watchStartNextModule_onward :
    Onward server (watchStartNextModule registry server answers).2 := by
  unfold watchStartNextModule
  split
  · exact ready.onward
  · split
    · exact watchStartModule_onward ready ..
    · have cleared : Ready (watchClearBatch server) := ready.congr rfl rfl rfl
      have told := watchSendInfof_quiet (watchClearBatch server)
        (sv "[watch] exiting after rerun\n")
      dsimp only
      split
      · constructor
        · exact watchResetSession_steady (cleared.quiet told).steady.worker
        · rw [watchResetSession_shuttingDown]
          exact told.shuttingDown
      · split
        · exact (watchHandlePendingBatch_onward cleared registry answers).after rfl
        · exact cleared.onward.after rfl

/-! ### Starting a session -/

/-- A session is opened only without a worker. -/
theorem watchOpenSession_ready (fd requestId : Nat) (request : WatchRequest)
    (roots : List StringView) :
    Ready (watchOpenSession server answers fd requestId request roots) := by
  have idle : (watchOpenSession server answers fd requestId request roots).worker.Idle :=
    ⟨ready.idle.pid, rfl, ready.idle.stdoutSource, ready.idle.stderrSource, ready.idle.pidfdSource⟩
  exact ⟨idle, ⟨.inl idle, fun _ => rfl⟩⟩

/-- The announcement of a session starts nothing. -/
theorem watchAnnounceSession_ready (request : WatchRequest) :
    Ready (watchAnnounceSession registry server request).2 ∧
      (watchAnnounceSession registry server request).2.shuttingDown = server.shuttingDown := by
  have keeps := watchAnnounceSession_keeps
    (R := fun before after =>
      (Ready before → Ready after) ∧ after.shuttingDown = before.shuttingDown)
    (fun _ => ⟨id, rfl⟩)
    (fun first second => ⟨second.1 ∘ first.1, second.2.trans first.2⟩)
    (fun _ _ => ⟨fun ready => ready.quiet (watchSendInfof_quiet ..),
      (watchSendInfof_quiet ..).shuttingDown⟩)
    (fun _ _ => ⟨fun ready => ready.congr rfl rfl rfl, rfl⟩) registry server request
  exact ⟨keeps.1 ready, keeps.2⟩

theorem watchBeginSession_onward (requestId : Nat) (request : WatchRequest) :
    Onward server (watchBeginSession registry server answers requestId request).2 := by
  have attached := watchAttachClient_quiet server answers requestId
  obtain ⟨announced, announcedFlag⟩ :=
    watchAnnounceSession_ready (ready.quiet attached) registry request
  unfold watchBeginSession
  dsimp only
  revert announced announcedFlag
  generalize watchAnnounceSession registry (watchAttachClient server answers requestId) request
    = told
  intro announced announcedFlag
  have flag := announcedFlag.trans attached.shuttingDown
  split
  · exact announced.onward.after flag
  · have listed := watchAnnounceRoots_quiet told.2
    revert listed
    generalize watchAnnounceRoots told.2 = last
    intro listed
    have lastReady := announced.quiet listed
    have lastFlag := listed.shuttingDown.trans flag
    split
    · exact lastReady.onward.after lastFlag
    · split
      · exact (watchStartNextModule_onward lastReady registry answers).after lastFlag
      · exact lastReady.onward.after lastFlag

theorem watchTrySession_onward (fd requestId : Nat) (request : WatchRequest) :
    Onward server (watchTrySession registry server answers fd requestId request).2 := by
  unfold watchTrySession
  split
  · exact ready.onward
  · rename_i roots _
    have opened := watchOpenSession_ready ready answers fd requestId request roots
    dsimp only
    generalize hopen : watchOpenSession server answers fd requestId request roots = session
    have flag : session.shuttingDown = server.shuttingDown := by rw [← hopen]; rfl
    rw [hopen] at opened
    have scanned := registerRoots_scanned session.watch answers.scan
    have registered : Ready
        { session with watch := (registerRoots session.watch answers.scan).2 } :=
      opened.congr rfl rfl scanned.active
    split
    · exact (watchBeginSession_onward registered registry answers requestId request).after flag
    · exact registered.onward.after flag

end

/-- Resetting the session of a server that has gone on. -/
theorem watchResetSession_onward (onward : Onward before server) :
    Onward before (watchResetSession server) := by
  constructor
  · exact watchResetSession_steady onward.steady.worker
  · rw [watchResetSession_shuttingDown]
    exact onward.shuttingDown

theorem watchStartSession_onward (ready : Ready server) (registry : Registry) (answers : Answers)
    (fd requestId : Nat) (decoded : Decoded WatchRequest) :
    Onward server (watchStartSession registry server answers fd requestId decoded).2 := by
  cases decoded with
  | undecodable => exact ready.onward.quiet (sendStructuredError_quiet ..)
  | refused =>
    exact watchResetSession_onward (ready.onward.quiet (sendStructuredError_quiet ..))
  | request request =>
    have tried := watchTrySession_onward ready registry answers fd requestId request
    simp only [watchStartSession]
    split
    · exact tried
    · exact watchResetSession_onward tried

/-! ### Requests -/

/-- The daemon reports being idle only without a worker, a session or a request to stop. -/
theorem effectiveState_idle (idle : effectiveState server = .idle) :
    server.shuttingDown = false ∧ server.watch.active = false ∧ server.worker.pid = none := by
  unfold effectiveState at idle
  split at idle
  · split at idle <;> cases idle
  · rename_i notStopping
    split at idle
    · cases idle
    · rename_i notWatching
      split at idle
      · cases idle
      · rename_i noWorker
        exact ⟨by simpa using notStopping, by simpa using notWatching, by simpa using noWorker⟩

/-- A steady server without a worker is ready for one. -/
theorem Steady.ready (steady : Steady server) (noWorker : server.worker.pid = none) :
    Ready server := by
  rcases steady.worker with idle | ⟨tracked, _⟩
  · exact ⟨idle, steady⟩
  · have recorded := tracked.pid
    rw [noWorker] at recorded
    cases recorded

theorem startForegroundRun_onward (ready : Ready server) (answers : Answers) (fd requestId : Nat)
    (request : RunnerRequest) :
    Onward server (startForegroundRun server answers fd requestId request).2 := by
  have checked : Ready { server with telemetry := answers.preflight.2 } := ready.congr rfl rfl rfl
  unfold startForegroundRun
  dsimp only
  split
  · exact (checked.onward.quiet (sendStructuredError_quiet ..)).after rfl
  · have attached : Ready { server with
        telemetry := answers.preflight.2, client := some fd } := ready.congr rfl rfl rfl
    have acknowledged := send_quiet { server with
      telemetry := answers.preflight.2, client := some fd } fd (.ack requestId)
    have acknowledgedReady := attached.quiet acknowledged
    split
    · exact acknowledgedReady.onward.after rfl
    · have spawned := spawnWorker_onward acknowledgedReady answers request requestId
      have onward : Onward server _ := spawned.after acknowledged.shuttingDown
      split
      · exact onward
      · exact (onward.quiet (sendStructuredError_quiet ..)).quiet (closeClient_quiet _)

variable (steady : Steady server)

include steady

theorem handleRunRequest_onward (answers : Answers) (fd requestId : Nat)
    (decoded : Decoded RunnerRequest) :
    Onward server (handleRunRequest server answers fd requestId decoded).2 := by
  have here : Onward server server := ⟨steady, rfl⟩
  unfold handleRunRequest
  split
  · exact here.quiet (sendAdmissionError_quiet ..)
  · rename_i admitted
    obtain ⟨_, _, noWorker⟩ := effectiveState_idle (not_not.mp admitted)
    cases decoded with
    | undecodable => exact here.quiet (sendStructuredError_quiet ..)
    | refused => exact here.quiet (sendStructuredError_quiet ..)
    | request request => exact startForegroundRun_onward (steady.ready noWorker) ..

theorem handleWatchRequest_onward (registry : Registry) (answers : Answers) (fd requestId : Nat)
    (decoded : Decoded WatchRequest) :
    Onward server (handleWatchRequest registry server answers fd requestId decoded).2 := by
  unfold handleWatchRequest
  split
  · exact Onward.quiet ⟨steady, rfl⟩ (sendAdmissionError_quiet ..)
  · rename_i admitted
    obtain ⟨_, _, noWorker⟩ := effectiveState_idle (not_not.mp admitted)
    exact watchStartSession_onward (steady.ready noWorker) ..

omit steady

/-! ### Stopping -/

/-- The flags of a stop are no part of what is recorded and watched. -/
theorem Worker.Sound.flags {worker : Worker} (sound : worker.Sound)
    (cancelRequested killEscalationSent killTimer : Bool) :
    ({ worker with
      cancelRequested := cancelRequested, killEscalationSent := killEscalationSent,
      killTimer := killTimer } : Worker).Sound := by
  rcases sound with idle | ⟨tracked, unfinished⟩
  · exact .inl ⟨idle.pid, idle.request, idle.stdoutSource, idle.stderrSource, idle.pidfdSource⟩
  · exact .inr ⟨⟨tracked.pid, tracked.stdoutSource, tracked.stderrSource, tracked.pidfdSource⟩,
      unfinished⟩

include steady

/-- Asking the worker to stop keeps what is recorded and watched of it. -/
theorem beginWorkerCancel_steady (answers : Answers) (markWatchCancel closingSession : Bool) :
    Steady (beginWorkerCancel server answers markWatchCancel closingSession).2 := by
  have same := steady.worker.flags
  unfold beginWorkerCancel
  split
  · exact steady
  · dsimp only
    split
    · exact ⟨same .., steady.state⟩
    · split
      · exact ⟨same .., steady.state⟩
      · exact ⟨same .., steady.state⟩

/-- Nothing of the worker depends on the flags of a stop. -/
theorem requestStop_steady (force : Bool) :
    Steady (requestStop server force) := steady.congr rfl rfl rfl

/-- Resetting a session that may be active. -/
theorem resetActiveSession_steady : Steady (resetActiveSession server) := by
  unfold resetActiveSession
  split
  · exact watchResetSession_steady steady.worker
  · exact steady

theorem eventExit_steady (code : Nat) : Steady (eventExit server code) := steady.congr rfl rfl rfl

omit steady

/-- What a property of servers needs so that the handlers of signals and connections keep it. -/
structure HandlersKeep (registry : Registry) (answers : Answers) (holds : Server → Prop) :
    Prop where
  quiet : ∀ {before after}, Quiet before after → holds before → holds after
  stop : ∀ {server} force, holds server → holds (requestStop server force)
  cancel : ∀ {server} marks closes, holds server →
    holds (beginWorkerCancel server answers marks closes).2
  reset : ∀ {server}, holds server → holds (resetActiveSession server)
  exit : ∀ {server}, holds server → holds (eventExit server 0)
  accept : ∀ {server} fd, holds server → holds { server with log := .accepted fd :: server.log }
  close : ∀ {server} fd, holds server → holds { server with log := .closed fd :: server.log }
  run : ∀ {server} fd requestId decoded, holds server →
    holds (handleRunRequest server answers fd requestId decoded).2
  watch : ∀ {server} fd requestId decoded, holds server →
    holds (handleWatchRequest registry server answers fd requestId decoded).2

namespace HandlersKeep

variable {registry : Registry} {answers : Answers} {holds : Server → Prop}
  (keep : HandlersKeep registry answers holds) (here : holds server)

include keep here

theorem onSignal : holds (onSignal server answers) := by
  have stopping := keep.stop false here
  unfold Daemon.onSignal
  dsimp only
  split
  · exact keep.cancel _ _ stopping
  · exact keep.exit (keep.reset stopping)

theorem handleStop (fd requestId : Nat) : holds (handleStop server fd requestId).2 := by
  have stopping := keep.stop false here
  unfold Daemon.handleStop
  dsimp only
  generalize (if (requestStop server false).worker.pid.isSome ||
    (requestStop server false).watch.active then sv "draining" else sv "stopping") = summary
  have told := keep.quiet (sendStatusResult_quiet _ fd requestId summary) stopping
  split
  · exact told
  · split
    · exact told
    · exact keep.exit (keep.reset told)

theorem handleStopForce (fd requestId : Nat) :
    holds (handleStopForce server answers fd requestId).2 := by
  have stopping := keep.stop true here
  unfold Daemon.handleStopForce
  dsimp only
  split
  · have cancelled := keep.cancel (requestStop server true).watch.active
      (requestStop server true).watch.active stopping
    split
    · exact keep.quiet (sendStatusResult_quiet ..) cancelled
    · exact keep.quiet (sendStructuredError_quiet ..) cancelled
  · have reset := keep.reset stopping
    split
    · exact keep.exit (keep.quiet (sendStatusResult_quiet ..) reset)
    · exact keep.quiet (sendStatusResult_quiet ..) reset

theorem handleControl (fd requestId : Nat) (command : ControlCommand) :
    holds (handleControl server answers fd requestId command).2 := by
  cases command with
  | ping => exact keep.quiet (sendStatusResult_quiet ..) here
  | status => exact keep.quiet (sendStatusResult_quiet ..) here
  | unknown => exact keep.quiet (sendStructuredError_quiet ..) here
  | stop =>
    simp only [Daemon.handleControl]
    split
    · exact keep.quiet (sendStatusResult_quiet ..) here
    · exact keep.handleStop here fd requestId
  | stopForce =>
    simp only [Daemon.handleControl]
    split
    · exact keep.quiet (sendStatusResult_quiet ..) here
    · exact keep.handleStopForce here fd requestId

theorem handleClientRequest (fd requestId : Nat) (request : ClientRequest) :
    holds (handleClientRequest registry server answers fd requestId request).2 := by
  cases request with
  | control command => exact keep.handleControl here fd requestId command
  | malformedControl => exact keep.quiet (sendStructuredError_quiet ..) here
  | run decoded => exact keep.run fd requestId decoded here
  | watch decoded => exact keep.watch fd requestId decoded here
  | unsupported => exact keep.quiet (sendStructuredError_quiet ..) here

theorem onListener (fd : Nat) (connection : Connection) :
    holds (onListener registry server answers fd connection) := by
  have accepted := keep.accept fd here
  have handled : holds (handleConnection registry
      { server with log := .accepted fd :: server.log } answers fd connection).2 := by
    cases connection with
    | unusable => exact accepted
    | noHello requestId => exact keep.quiet (send_quiet ..) accepted
    | hello requestId request =>
      have greeted := keep.quiet (send_quiet _ fd (.ack requestId)) accepted
      simp only [handleConnection]
      split
      · exact keep.handleClientRequest greeted ..
      · exact greeted
  simp only [Daemon.onListener]
  split
  · exact handled
  · exact keep.close fd handled

end HandlersKeep

theorem steady_handlersKeep (registry : Registry) (answers : Answers) :
    HandlersKeep registry answers Steady where
  quiet quiet steady := steady.quiet quiet
  stop force steady := requestStop_steady steady force
  cancel marks closes steady := beginWorkerCancel_steady steady answers marks closes
  reset steady := resetActiveSession_steady steady
  exit steady := eventExit_steady steady 0
  accept _ steady := steady.congr rfl rfl rfl
  close _ steady := steady.congr rfl rfl rfl
  run fd requestId decoded steady :=
    (handleRunRequest_onward steady answers fd requestId decoded).steady
  watch fd requestId decoded steady :=
    (handleWatchRequest_onward steady registry answers fd requestId decoded).steady

theorem onKillTimer_steady (steady : Steady server) : Steady (onKillTimer server) := by
  have same := steady.worker.flags
  unfold onKillTimer
  dsimp only
  split
  · exact ⟨same .., steady.state⟩
  · exact ⟨same .., steady.state⟩

end Nobify.Daemon
