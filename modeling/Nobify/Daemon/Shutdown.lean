import Nobify.Daemon.Runs

/-!
# Shutting the daemon down

`STOP`, `STOP_FORCE` and signals set `shutting_down`; the loop's exit is requested at once when no
worker runs, and else at the end of its run. Between the worker's exit and the end of its pipes
neither a running worker nor a requested exit is there, only events to come. In a run in which
every ended run could be settled and every stop that found no worker was answered, a daemon that is
shutting down always has one of these events to come or has requested its exit.
-/

namespace Nobify.Daemon

open Lib

variable {server : Server}

/-- A server that was asked to stop admits nothing new to its session, and has a worker to wait for
or leaves the loop. -/
structure Stoppable (server : Server) : Prop where
  closing : server.shuttingDown = true → server.watch.active = true → server.watch.closing = true
  exits : server.shuttingDown = true →
    server.exitRequested.isSome = true ∨ server.worker.pid.isSome = true

namespace Stoppable

variable {before after : Server}

/-- What `Stoppable` looks at. -/
theorem congr (stoppable : Stoppable before) (shuttingDown : after.shuttingDown = before.shuttingDown)
    (exitRequested : after.exitRequested = before.exitRequested)
    (pid : after.worker.pid = before.worker.pid)
    (active : after.watch.active = before.watch.active)
    (closing : after.watch.closing = before.watch.closing) : Stoppable after := by
  constructor
  · rw [shuttingDown, active, closing]
    exact stoppable.closing
  · rw [shuttingDown, exitRequested, pid]
    exact stoppable.exits

theorem quiet (stoppable : Stoppable before) (quiet : Quiet before after) : Stoppable after :=
  stoppable.congr quiet.shuttingDown quiet.exitRequested (by rw [quiet.worker]) quiet.active
    quiet.closing

/-- A server that no one asked to stop. -/
theorem ofRunning (running : after.shuttingDown = false) : Stoppable after := by
  constructor
  · intro stopping
    rw [running] at stopping
    cases stopping
  · intro stopping
    rw [running] at stopping
    cases stopping

/-- A server that went on, and was not asked to stop before. -/
theorem onward (onward : Onward before after) (running : before.shuttingDown = false) :
    Stoppable after :=
  ofRunning (onward.shuttingDown.trans running)

/-- Without its session a server stays stoppable. -/
theorem reset (stoppable : Stoppable before) : Stoppable (watchResetSession before) := by
  constructor
  · intro _ active
    rw [watchResetSession_watch] at active
    cases active
  · rw [watchResetSession_shuttingDown, watchResetSession_exitRequested, watchResetSession_worker]
    exact stoppable.exits

end Stoppable

/-- Leaving the loop without a session. -/
theorem eventExit_stoppable (inactive : server.watch.active = false) (code : Nat) :
    Stoppable (eventExit server code) := by
  constructor
  · intro _ active
    have active : server.watch.active = true := active
    rw [inactive] at active
    cases active
  · intro _
    exact .inl rfl

/-! ## Stop requests -/

/-- After the flags of a stop are set, the session is closing. -/
theorem requestStop_closing (server : Server) (force : Bool)
    (active : (requestStop server force).watch.active = true) :
    (requestStop server force).watch.closing = true := by
  have same : server.watch.active = true := active
  simp [requestStop, same]

/-- With a worker, a server that is asked to stop waits for it. -/
theorem requestStop_stoppable (worker : server.worker.pid.isSome = true) (force : Bool) :
    Stoppable (requestStop server force) :=
  ⟨fun _ => requestStop_closing server force, fun _ => .inr worker⟩

/-- There is no session after it is reset. -/
theorem resetActiveSession_inactive (server : Server) :
    (resetActiveSession server).watch.active = false := by
  unfold resetActiveSession
  split
  · rw [watchResetSession_watch]
    rfl
  · rename_i inactive
    exact Bool.eq_false_iff.mpr inactive

theorem beginWorkerCancel_stoppable (stoppable : Stoppable server) (answers : Answers)
    (markWatchCancel closingSession : Bool) :
    Stoppable (beginWorkerCancel server answers markWatchCancel closingSession).2 := by
  have marked : server.shuttingDown = true → server.watch.active = true →
      (server.watch.closing || closingSession) = true := by
    intro stopping active
    rw [stoppable.closing stopping active]
    rfl
  unfold beginWorkerCancel
  split
  · exact stoppable
  · rename_i pid recorded
    have waits : server.worker.pid.isSome = true := by rw [recorded]; rfl
    dsimp only
    split
    · exact ⟨marked, fun _ => .inr waits⟩
    · split
      · exact ⟨marked, fun _ => .inr waits⟩
      · exact ⟨marked, fun _ => .inr waits⟩

theorem onSignal_stoppable (server : Server) (answers : Answers) :
    Stoppable (onSignal server answers) := by
  unfold onSignal
  dsimp only
  split
  · rename_i recorded
    have recorded : server.worker.pid.isSome = true := recorded
    exact beginWorkerCancel_stoppable (requestStop_stoppable recorded false) ..
  · exact eventExit_stoppable (resetActiveSession_inactive _) 0

/-- A `STOP` that is answered, or that finds a worker, stops the daemon. -/
theorem handleStop_stoppable (fd requestId : Nat)
    (answered : server.worker.pid.isSome = true ∨ server.sends.headD true = true) :
    Stoppable (handleStop server fd requestId).2 := by
  unfold handleStop
  dsimp only
  generalize (if (requestStop server false).worker.pid.isSome ||
    (requestStop server false).watch.active then sv "draining" else sv "stopping") = summary
  have told := sendStatusResult_quiet (requestStop server false) fd requestId summary
  have sent : (sendStatusResult (requestStop server false) fd requestId summary).1 =
      server.sends.headD true := rfl
  have worker : (sendStatusResult (requestStop server false) fd requestId summary).2.worker =
      server.worker := told.worker
  split
  · rename_i unsent
    rw [sent] at unsent
    have recorded : server.worker.pid.isSome = true := by
      rcases answered with recorded | answered
      · exact recorded
      · rw [answered] at unsent
        cases unsent
    exact (requestStop_stoppable recorded false).quiet told
  · split
    · rename_i recorded
      rw [worker] at recorded
      exact (requestStop_stoppable recorded false).quiet told
    · exact eventExit_stoppable (resetActiveSession_inactive _) 0

/-- A `STOP_FORCE` that is answered, or that finds a worker, stops the daemon. -/
theorem handleStopForce_stoppable (answers : Answers) (fd requestId : Nat)
    (answered : server.worker.pid.isSome = true ∨ server.sends.headD true = true) :
    Stoppable (handleStopForce server answers fd requestId).2 := by
  unfold handleStopForce
  dsimp only
  split
  · rename_i recorded
    have recorded : server.worker.pid.isSome = true := recorded
    have cancelled := beginWorkerCancel_stoppable (requestStop_stoppable recorded true) answers
      (requestStop server true).watch.active (requestStop server true).watch.active
    split
    · exact cancelled.quiet (sendStatusResult_quiet ..)
    · exact cancelled.quiet (sendStructuredError_quiet ..)
  · rename_i noWorker
    have sends : (resetActiveSession (requestStop server true)).sends = server.sends := by
      unfold resetActiveSession
      split
      · simp only [watchResetSession]
        split
        · rfl
        · unfold closeClient
          split <;> rfl
      · rfl
    have sent : (sendStatusResult (resetActiveSession (requestStop server true)) fd requestId
        (sv "stopping")).1 = true := by
      have first : server.sends.headD true = true := by
        rcases answered with recorded | answered
        · exact absurd recorded noWorker
        · exact answered
      rw [← sends] at first
      exact first
    have told := sendStatusResult_quiet (resetActiveSession (requestStop server true)) fd
      requestId (sv "stopping")
    rw [if_pos sent]
    exact eventExit_stoppable (told.active.trans (resetActiveSession_inactive _)) 0

/-! ## The end of a run -/

/-- Going on after a run of a session: nothing is started in a session that is closing. -/
theorem watchContinue_stoppable (ready : Ready server)
    (closing : server.shuttingDown = true → server.watch.closing = true) (registry : Registry)
    (answers : Answers) (ok : Bool) : Stoppable (watchContinue registry server answers ok).2 := by
  have exitWhenReset : Stoppable
      (if (watchResetSession server).shuttingDown && !(watchResetSession server).watch.active then
        eventExit (watchResetSession server) (if ok then 0 else 1) else watchResetSession server) := by
    rw [watchResetSession_watch]
    split
    · apply eventExit_stoppable
      rw [watchResetSession_watch]
      rfl
    · rename_i running
      apply Stoppable.ofRunning
      simpa [WatchSession.zero] using running
  unfold watchContinue
  dsimp only
  split
  · exact exitWhenReset
  · rename_i goesOn
    have running : server.shuttingDown = false := by
      by_contra stopping
      have stopping := (Bool.not_eq_false _).mp stopping
      rw [closing stopping] at goesOn
      simp at goesOn
    split
    · exact .onward (watchStartNextModule_onward ready registry answers) running
    · split
      · exact .onward (watchHandlePendingBatch_onward ready registry answers) running
      · split
        · exact exitWhenReset
        · rw [running]
          exact .ofRunning running

variable (stoppable : Stoppable server)

include stoppable

/-- The end of a reported run stops a server that was asked to stop. -/
theorem finishReportedRun_stoppable (registry : Registry) (answers : Answers)
    (result : RunnerResult) (attached : Bool) :
    Stoppable
      (finishReportedRun registry server answers result server.watch.active attached).2 := by
  have toldQuiet := sendRunResult_quiet server answers result attached
  unfold finishReportedRun
  dsimp only
  revert toldQuiet
  generalize sendRunResult server answers result attached = told
  intro toldQuiet
  have ready := resetWorkerState_ready { told.2 with log := .finished false :: told.2.log }
    (!server.watch.active)
  split
  · rename_i active
    apply watchContinue_stoppable ready
    rw [resetWorkerState_shuttingDown, resetWorkerState_watch]
    intro stopping
    have closing := stoppable.closing (toldQuiet.shuttingDown.symm.trans stopping) active
    exact toldQuiet.closing.trans closing
  · rename_i inactive
    split
    · apply eventExit_stoppable
      rw [resetWorkerState_watch]
      exact toldQuiet.active.trans (Bool.eq_false_iff.mpr inactive)
    · rename_i running
      exact .ofRunning (Bool.eq_false_iff.mpr running)

/-- The end of a cancelled run stops a server that was asked to stop. -/
theorem finishCancelledRun_stoppable (active : server.watch.active = true) (registry : Registry)
    (answers : Answers) :
    Stoppable (finishCancelledRun registry server answers).2 := by
  have toldQuiet := watchSendInfof_quiet server
    (sv "[watch] stale run aborted after newer changes\n")
  unfold finishCancelledRun
  dsimp only
  rw [watchSendInfof_active active (by decide), if_neg (by decide)]
  revert toldQuiet
  generalize (watchSendInfof server _).2 = told
  intro toldQuiet
  have ready := resetWorkerState_ready
    { told with watch.cancelRequested := false, log := .finished true :: told.log }
    told.watch.closing
  rw [resetWorkerState_watch]
  dsimp only
  split
  · rw [watchResetSession_shuttingDown]
    split
    · apply eventExit_stoppable
      rw [watchResetSession_watch]
      rfl
    · rename_i running
      apply Stoppable.ofRunning
      rw [watchResetSession_shuttingDown]
      exact Bool.eq_false_iff.mpr running
  · rename_i notClosing
    have running : told.shuttingDown = false := by
      by_contra stopping
      have stopping := (Bool.not_eq_false _).mp stopping
      have closing := stoppable.closing (toldQuiet.shuttingDown.symm.trans stopping) active
      exact notClosing (toldQuiet.closing.trans closing)
    have flag : (resetWorkerState { told with
        watch.cancelRequested := false, log := .finished true :: told.log }
        told.watch.closing).shuttingDown = false := by
      rw [resetWorkerState_shuttingDown]
      exact running
    split
    · exact .onward (watchHandlePendingBatch_onward ready registry answers) flag
    · exact .ofRunning flag

/-- After an event of the worker that is settled a server is stoppable. -/
theorem afterWorkerEvent_stoppable (registry : Registry) (answers : Answers)
    (settles : settlesRun server answers = true) :
    Stoppable (afterWorkerEvent registry server answers) := by
  have finished : Stoppable (finishActiveRun registry server answers).2 := by
    unfold finishActiveRun
    split
    · exact stoppable
    · rename_i ended
      have ended : server.worker.over = true := by
        rw [Bool.not_eq_true', Bool.not_eq_false] at ended
        exact ended
      split
      · rename_i cancelled
        have active := (Bool.and_eq_true_iff.mp cancelled).1
        exact finishCancelledRun_stoppable stoppable active registry answers
      · rename_i notCancelled
        rcases finishCompletedRun_cases registry server answers with
          ⟨_, told, toldQuiet, same⟩ | ⟨unreported, _⟩
        · have cleared : Stoppable (clearBufferedWorkerOutput server) :=
              stoppable.congr rfl rfl rfl rfl rfl
          have toldStoppable : Stoppable told := cleared.quiet toldQuiet
          have active : told.watch.active = server.watch.active := toldQuiet.active
          rw [same, ← active]
          exact finishReportedRun_stoppable toldStoppable ..
        · have notCancelled := Bool.eq_false_iff.mpr notCancelled
          rw [settlesRun, ended, notCancelled, unreported] at settles
          cases settles
  unfold afterWorkerEvent
  dsimp only
  split
  · exact finished.reset
  · exact finished

/-! ## Other events -/

theorem handleControl_stoppable (answers : Answers) (fd requestId : Nat) (command : ControlCommand)
    (answered : command = .stop ∨ command = .stopForce → server.worker.pid.isSome =
      true ∨ server.sends.headD true = true) :
    Stoppable (handleControl server answers fd requestId command).2 := by
  cases command with
  | ping => exact stoppable.quiet (sendStatusResult_quiet ..)
  | status => exact stoppable.quiet (sendStatusResult_quiet ..)
  | unknown => exact stoppable.quiet (sendStructuredError_quiet ..)
  | stop =>
    simp only [handleControl]
    split
    · exact stoppable.quiet (sendStatusResult_quiet ..)
    · exact handleStop_stoppable fd requestId (answered (.inl rfl))
  | stopForce =>
    simp only [handleControl]
    split
    · exact stoppable.quiet (sendStatusResult_quiet ..)
    · exact handleStopForce_stoppable answers fd requestId (answered (.inr rfl))

/-- Nothing is admitted by a server that was asked to stop. -/
theorem Stoppable.admission {handled : Server} (onward : Onward server handled)
    (refused : effectiveState server ≠ .idle → Quiet server handled) : Stoppable handled := by
  by_cases idle : effectiveState server = .idle
  · exact .onward onward (effectiveState_idle idle).1
  · exact stoppable.quiet (refused idle)

omit stoppable

theorem handleRunRequest_stoppable (steady : Steady server) (stoppable : Stoppable server)
    (answers : Answers) (fd requestId : Nat) (decoded : Decoded RunnerRequest) :
    Stoppable (handleRunRequest server answers fd requestId decoded).2 := by
  refine stoppable.admission (handleRunRequest_onward steady ..) fun busy => ?_
  unfold handleRunRequest
  rw [if_pos busy]
  exact sendAdmissionError_quiet ..

theorem handleWatchRequest_stoppable (steady : Steady server) (stoppable : Stoppable server)
    (registry : Registry) (answers : Answers) (fd requestId : Nat) (decoded :
      Decoded WatchRequest) :
    Stoppable (handleWatchRequest registry server answers fd requestId decoded).2 := by
  refine stoppable.admission (handleWatchRequest_onward steady ..) fun busy => ?_
  unfold handleWatchRequest
  rw [if_pos busy]
  exact sendAdmissionError_quiet ..

/-- A stop request that finds no worker gets its answer, or is not read at all. -/
def stopAnswered (next : Step) (server : Server) : Bool :=
  match next.event with
  | .listener _ connection =>
    match connection.request with
    | some (.control command) =>
      !(command = .stop || command = .stopForce) || server.worker.pid.isSome ||
        !next.answers.sends.headD true || next.answers.sends.tail.headD true
    | _ => true
  | _ => true

theorem onListener_stoppable (steady : Steady server) (stoppable : Stoppable server)
    (registry : Registry) (answers : Answers) (fd : Nat) (connection : Connection)
    (answered : ∀ command, connection.request = some (.control command) → command =
      .stop ∨ command = .stopForce → server.sends.headD true = true → server.worker.pid.isSome =
      true ∨ server.sends.tail.headD true = true) :
    Stoppable (onListener registry server answers fd connection) := by
  have acceptedSteady : Steady { server with log := .accepted fd :: server.log } :=
    steady.congr rfl rfl rfl
  have accepted : Stoppable { server with log := .accepted fd :: server.log } :=
    stoppable.congr rfl rfl rfl rfl rfl
  have handled : Stoppable (handleConnection registry
      { server with log := .accepted fd :: server.log } answers fd connection).2 := by
    cases connection with
    | unusable => exact accepted
    | noHello requestId => exact accepted.quiet (send_quiet ..)
    | hello greetingId request =>
      have greeting := send_quiet { server with log := .accepted fd :: server.log } fd
        (.ack greetingId)
      have greetedSteady := acceptedSteady.quiet greeting
      have greeted := accepted.quiet greeting
      simp only [handleConnection]
      split
      · rename_i requestId request sent
        cases request with
        | control command =>
          have first : server.sends.headD true = true := sent
          exact handleControl_stoppable greeted answers fd requestId command
            (fun stops => answered command rfl stops first)
        | malformedControl => exact greeted.quiet (sendStructuredError_quiet ..)
        | run decoded => exact handleRunRequest_stoppable greetedSteady greeted ..
        | watch decoded => exact handleWatchRequest_stoppable greetedSteady greeted ..
        | unsupported => exact greeted.quiet (sendStructuredError_quiet ..)
      · exact greeted
  simp only [onListener]
  split
  · exact handled
  · exact handled.congr rfl rfl rfl rfl rfl

include stoppable

theorem forwardOutput_stoppable (stream : Stream) (data : List UInt8) :
    Stoppable (forwardOutput server stream data) := by
  unfold forwardOutput
  split
  · cases stream <;> exact stoppable.congr rfl rfl rfl rfl rfl
  · split
    · exact stoppable
    · rename_i fd _
      have sent := stoppable.quiet (send_quiet server fd
        (.output server.currentRequestId stream data))
      dsimp only
      split
      · exact sent
      · exact sent.quiet (handleClientDisconnect_quiet _)

theorem onKillTimer_stoppable : Stoppable (onKillTimer server) := by
  unfold onKillTimer
  dsimp only
  split
  · exact stoppable.congr rfl rfl rfl rfl rfl
  · exact stoppable.congr rfl rfl rfl rfl rfl

theorem watchCancelStaleRun_stoppable (answers : Answers) :
    Stoppable (watchCancelStaleRun server answers) := by
  have pending : Stoppable { server with watch.rerunPending := true } :=
    stoppable.congr rfl rfl rfl rfl rfl
  unfold watchCancelStaleRun
  dsimp only
  split
  · exact beginWorkerCancel_stoppable pending ..
  · exact beginWorkerCancel_stoppable (pending.quiet (watchSendInfof_quiet ..)) ..

omit stoppable

/-- A batch is started only by a server that no one asked to stop. -/
theorem onWatchDebounce_stoppable (steady : Steady server) (stoppable : Stoppable server)
    (stays : server.exitRequested = none) (registry : Registry) (answers : Answers) :
    Stoppable (onWatchDebounce registry server answers) := by
  have firedSteady : Steady { server with watch.debounceSource := false } :=
    steady.congr rfl rfl rfl
  have fired : Stoppable { server with watch.debounceSource := false } :=
    stoppable.congr rfl rfl rfl rfl rfl
  unfold onWatchDebounce
  split
  · exact stoppable
  · dsimp only
    split
    · exact fired
    · split
      · exact watchCancelStaleRun_stoppable fired answers
      · rename_i noWorker
        have running : server.shuttingDown = false := by
          by_contra stopping
          rcases stoppable.exits ((Bool.not_eq_false _).mp stopping) with exits | recorded
          · rw [stays] at exits
            cases exits
          · exact noWorker recorded
        have ready := firedSteady.ready (by simpa using noWorker)
        have handled := watchHandlePendingBatch_onward ready registry answers
        split
        · exact .onward handled running
        · exact (Stoppable.onward handled running).reset

/-- Noting changes does not matter to a server that was asked to stop. -/
theorem Stoppable.noted {before after : Server} (stoppable : Stoppable before)
    (noted : Noted before after) : Stoppable after :=
  stoppable.congr noted.shuttingDown noted.exitRequested (by rw [noted.worker]) noted.active
    noted.closing

/-- An event that is none of the worker's keeps a server stoppable. -/
theorem handle_stoppable (steady : Steady server) (stoppable : Stoppable server)
    (stays : server.exitRequested = none) (registry : Registry) (next : Step)
    (sends : server.sends = next.answers.sends) (other : workerEvent server next.event = none)
    (answered : stopAnswered next server = true) :
    Stoppable (handle registry server next.answers next.event) := by
  unfold stopAnswered at answered
  cases event : next.event with
  | listener fd connection =>
    apply onListener_stoppable steady stoppable
    intro command request stops first
    rw [event] at answered
    simp only [request] at answered
    rw [sends] at first ⊢
    have stops : (command = .stop || command = .stopForce : Bool) = true := by simpa using stops
    rw [stops, first] at answered
    simpa using answered
  | workerPipe stream read =>
    cases read with
    | bytes data => exact forwardOutput_stoppable stoppable ..
    | interrupted => exact stoppable
    | ended =>
      rw [event] at other
      cases other
  | workerPidfd status =>
    rw [event] at other
    cases other
  | killTimer => exact onKillTimer_stoppable stoppable
  | signal => exact onSignal_stoppable server next.answers
  | watchClient hangup =>
    simp only [handle, onWatchClient]
    split
    · exact stoppable.quiet (watchDetachClient_quiet server)
    · exact stoppable
  | watchDebounce => exact onWatchDebounce_stoppable steady stoppable stays ..
  | watchInotify events readFailed => exact stoppable.noted (onWatchInotify_noted ..)

/-! ## Runs -/

/-- Marking an event of the worker keeps the session, whether the daemon is stopping, and which
worker is recorded. -/
theorem workerEvent_same {marked : Server} {event : Event}
    (worker : workerEvent server event = some marked) :
    marked.shuttingDown = server.shuttingDown ∧ marked.exitRequested = server.exitRequested ∧
      marked.worker.pid = server.worker.pid ∧ marked.watch = server.watch := by
  cases event with
  | workerPipe stream read =>
    cases read with
    | ended =>
      cases worker
      cases stream <;> exact ⟨rfl, rfl, rfl, rfl⟩
    | bytes data => cases worker
    | interrupted => cases worker
  | workerPidfd status =>
    cases worker
    have reaped : (reapWorker server status).shuttingDown = server.shuttingDown ∧
        (reapWorker server status).exitRequested = server.exitRequested ∧
        (reapWorker server status).worker.pid = server.worker.pid ∧
        (reapWorker server status).watch = server.watch := by
      unfold reapWorker
      split
      · exact ⟨rfl, rfl, rfl, rfl⟩
      · exact ⟨rfl, rfl, rfl, rfl⟩
      · exact ⟨rfl, rfl, rfl, rfl⟩
    exact reaped
  | listener fd connection => cases worker
  | killTimer => cases worker
  | signal => cases worker
  | watchClient hangup => cases worker
  | watchDebounce => cases worker
  | watchInotify events readFailed => cases worker

/-- Marking an event of the worker keeps what `Stoppable` looks at. -/
theorem workerEvent_stoppable {marked : Server} {event : Event} (stoppable : Stoppable server)
    (worker : workerEvent server event = some marked) : Stoppable marked := by
  obtain ⟨flag, exit, pid, watch⟩ := workerEvent_same worker
  exact stoppable.congr flag exit pid (by rw [watch]) (by rw [watch])

/-- A turn keeps a server steady and stoppable, if the run that it ends can be settled and the stop
that it handles is answered. -/
theorem turn_stoppable (registry : Registry) (next : Step) (server : Server)
    (allowed : runReported next server = true ∧ stopAnswered next server = true)
    (invariant : Steady server ∧ Stoppable server) :
    Steady (turn registry next server) ∧ Stoppable (turn registry next server) := by
  obtain ⟨steady, stoppable⟩ := invariant
  refine ⟨turn_steady registry next server steady allowed.1, ?_⟩
  cases occurs : next.occurs server with
  | false =>
    rw [turn_idle occurs]
    exact stoppable
  | true =>
    rw [turn_occurs occurs]
    obtain ⟨_, stays⟩ := occurs_registered occurs
    have startedSteady : Steady (next.start server) := steady.congr rfl rfl rfl
    have started : Stoppable (next.start server) := stoppable.congr rfl rfl rfl rfl rfl
    have reported := allowed.1
    unfold runReported at reported
    rw [occurs] at reported
    cases worker : workerEvent (next.start server) next.event with
    | none =>
      exact handle_stoppable startedSteady started stays registry next rfl worker allowed.2
    | some marked =>
      rw [handle_workerEvent worker]
      rw [worker] at reported
      exact afterWorkerEvent_stoppable (workerEvent_stoppable started worker) registry
        next.answers (by simpa using reported)

/-- In a run in which every ended run could be settled and every stop that found no worker was
answered, a daemon that is shutting down has an event of a recorded worker to come or has requested
the exit of its loop. -/
theorem shutdown_progress (registry : Registry) (turns : List Step) (allowed : Along (turn registry)
      (fun next server => runReported next server = true ∧ stopAnswered next server = true)
      turns .initial)
    (stopping : (replay (turn registry) turns .initial).shuttingDown = true) :
    ((replay (turn registry) turns .initial).worker.pid.isSome = true ∧
        (replay (turn registry) turns .initial).worker.hasEvent = true) ∨
      (replay (turn registry) turns .initial).exitRequested.isSome = true := by
  have start : Steady Server.initial ∧ Stoppable Server.initial :=
    ⟨initial_steady, .ofRunning rfl⟩
  obtain ⟨steady, stoppable⟩ :=
    along_invariant (turn registry) (turn_stoppable registry) allowed start
  rcases stoppable.exits stopping with exits | recorded
  · exact .inr exits
  · rcases steady.worker with idle | ⟨tracked, unfinished⟩
    · rw [idle.pid] at recorded
      cases recorded
    · exact .inl ⟨recorded, tracked.hasEvent unfinished⟩

/-- A run is started, the daemon is asked to stop, and the worker exits. -/
def stoppedRun : List Step :=
  [⟨.listener 7 (.hello 1 (some (2, .run (.request ⟨.runAggregate, 0, 1, false⟩)))),
      grantedAnswers 100⟩,
    ⟨.listener 8 (.hello 3 (some (4, .control .stop))), grantedAnswers 0⟩,
    ⟨.workerPidfd (.exited 0), grantedAnswers 0⟩]

/-- `stoppedRun` meets the conditions, and while its pipes are open the worker has events to
come. -/
theorem shutdown_progress_stoppedRun :
    ((replay (turn ⟨[], []⟩) stoppedRun .initial).worker.pid.isSome = true ∧
        (replay (turn ⟨[], []⟩) stoppedRun .initial).worker.hasEvent = true) ∨
      (replay (turn ⟨[], []⟩) stoppedRun .initial).exitRequested.isSome = true :=
  shutdown_progress ⟨[], []⟩ stoppedRun (by decide +kernel) (by decide +kernel)

/-- After the worker of `stoppedRun` was reaped neither does an unreaped worker run nor is the exit
of the loop requested, while the daemon is shutting down. -/
theorem stoppedRun_waits :
    ¬ ∀ registry turns, (replay (turn registry) turns .initial).shuttingDown = true →
      ((replay (turn registry) turns .initial).worker.pid.isSome = true ∧
          (replay (turn registry) turns .initial).worker.exited = false) ∨
        (replay (turn registry) turns .initial).exitRequested.isSome = true := by
  intro always
  have here := always ⟨[], []⟩ stoppedRun (by decide +kernel)
  revert here
  decide +kernel

end Nobify.Daemon
