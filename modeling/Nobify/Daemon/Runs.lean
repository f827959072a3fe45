import Nobify.Daemon.Completion

/-!
# Runs of the test daemon

What `daemon_finish_active_run` does when the worker is over, what each turn of the event loop does
to the invariant of the worker, and what follows for whole runs: the worker is always settled
exactly when every completed run could be reported.
-/

namespace Nobify.Daemon

open Lib

variable (registry : Registry)

variable {server : Server} {next : Step}

/-! ## The end of a run -/

/-- Dropping the buffered output commutes with talking to clients. -/
theorem Quiet.clear {before after : Server} (quiet : Quiet before after) :
    Quiet (clearBufferedWorkerOutput before) (clearBufferedWorkerOutput after) := by
  refine ⟨?_, quiet.client, quiet.log⟩
  rw [quiet.same]
  rfl

/-- After its worker is reset a server is ready for another one. -/
theorem resetWorkerState_ready (server : Server) (closeClientFd : Bool) :
    Ready (resetWorkerState server closeClientFd) :=
  ⟨Worker.reset_idle, resetWorkerState_steady ..⟩

/-- The end of a cancelled run leaves a steady server. -/
theorem finishCancelledRun_steady (active : server.watch.active = true) (registry : Registry)
    (answers : Answers) : Steady (finishCancelledRun registry server answers).2 := by
  have sent : (watchSendInfof server
      (sv "[watch] stale run aborted after newer changes\n")).1 = true :=
    watchSendInfof_active active (by decide)
  unfold finishCancelledRun
  dsimp only
  rw [sent]
  rw [if_neg (by decide)]
  generalize (watchSendInfof server _).2 = told
  have ready := resetWorkerState_ready
    { told with watch.cancelRequested := false, log := .finished true :: told.log }
    told.watch.closing
  split
  · have reset := watchResetSession_steady ready.steady.worker
    split
    · exact eventExit_steady reset 0
    · exact reset
  · split
    · exact (watchHandlePendingBatch_onward ready registry answers).steady
    · exact ready.steady

/-- What follows a run of a session leaves a steady server. -/
theorem watchContinue_steady (ready : Ready server) (registry : Registry) (answers : Answers)
    (ok : Bool) : Steady (watchContinue registry server answers ok).2 := by
  have exitWhenDone : ∀ {server : Server}, Steady server → Steady
      (if server.shuttingDown && !server.watch.active then
        eventExit server (if ok then 0 else 1) else server) := by
    intro server steady
    split
    · exact eventExit_steady steady _
    · exact steady
  have reset := watchResetSession_steady ready.steady.worker
  unfold watchContinue
  dsimp only
  split
  · exact exitWhenDone reset
  · split
    · exact (watchStartNextModule_onward ready registry answers).steady
    · split
      · exact (watchHandlePendingBatch_onward ready registry answers).steady
      · split
        · exact exitWhenDone reset
        · exact exitWhenDone ready.steady

/-- The end of a run that is reported leaves a steady server. -/
theorem finishReportedRun_steady (server : Server) (answers : Answers) (result : RunnerResult)
    (watchActive attached : Bool) :
    Steady (finishReportedRun registry server answers result watchActive attached).2 := by
  unfold finishReportedRun
  dsimp only
  generalize sendRunResult server answers result attached = told
  have ready := resetWorkerState_ready { told.2 with log := .finished false :: told.2.log }
    (!watchActive)
  split
  · exact watchContinue_steady ready ..
  · split
    · exact eventExit_steady ready.steady _
    · exact ready.steady

/-! ## Reporting a run -/

/-- The buffered output can be sent: the sends that it takes succeed. -/
def outputSent (server : Server) : Bool :=
  (server.bufferedStderr.isEmpty || server.sends.headD true) && (server.bufferedStdout.isEmpty ||
      (if server.bufferedStderr.isEmpty then server.sends else server.sends.tail).headD true)

/-- A run that was not cancelled can be reported: the output of a failed run of a compact session
reaches the client that is attached, and the client of a foreground run is there to be told. -/
def reportsRun (server : Server) (answers : Answers) : Bool :=
  if server.watch.active then
    server.watch.request.verbose || (runnerResult server.worker answers).ok ||
      server.client.isNone || outputSent server
  else server.client.isSome && server.sends.headD true

/-- With a client, the buffered output is sent when its sends succeed. -/
theorem sendBufferedOutput_sent {fd : Nat} (client : server.client = some fd) :
    (sendBufferedOutput server).1 = outputSent server := by
  unfold sendBufferedOutput sendBuffered outputSent
  cases server.bufferedStderr.isEmpty with
  | true =>
    cases stdout : server.bufferedStdout.isEmpty with
    | true => simp [stdout]
    | false => simp [stdout, sendClient, client, send]
  | false =>
    cases sends : server.sends with
    | nil =>
      cases stdout : server.bufferedStdout.isEmpty <;>
        simp [stdout, sendClient, client, send, sends]
    | cons first rest =>
      cases first with
      | false => simp [sendClient, client, send, sends]
      | true =>
        cases stdout : server.bufferedStdout.isEmpty <;>
          simp [stdout, sendClient, client, send, sends]

/-- Flushing the output of a session fails only with an attached client that a send misses. -/
theorem flushBufferedWorkerOutput_sent (active : server.watch.active = true) :
    (flushBufferedWorkerOutput server).1 = (server.client.isNone || outputSent server) := by
  unfold flushBufferedWorkerOutput
  cases client : server.client with
  | none => simp [active]
  | some fd =>
    have sent := sendBufferedOutput_sent client
    simp [sent]

theorem flushBufferedWorkerOutput_quiet (server : Server) :
    Quiet (clearBufferedWorkerOutput server) (flushBufferedWorkerOutput server).2 := by
  unfold flushBufferedWorkerOutput
  split
  · exact .refl _
  · have sent := sendBufferedOutput_quiet server
    dsimp only
    split
    · exact sent.clear
    · exact (sent.trans (handleClientDisconnect_quiet _)).clear

theorem settleBufferedOutput_quiet (server : Server) (result : RunnerResult) :
    Quiet (clearBufferedWorkerOutput server) (settleBufferedOutput server result).2 := by
  unfold settleBufferedOutput
  split
  · exact flushBufferedWorkerOutput_quiet server
  · exact .refl _

/-- A completed run is either reported, or the worker's state stays as it is. -/
theorem finishCompletedRun_cases (server : Server) (answers : Answers) :
    (reportsRun server answers = true ∧ ∃ told, Quiet (clearBufferedWorkerOutput server) told ∧
        finishCompletedRun registry server answers =
          finishReportedRun registry told answers (runnerResult server.worker answers)
            server.watch.active server.client.isSome) ∨
    (reportsRun server answers = false ∧
      (finishCompletedRun registry server answers).2.worker = server.worker ∧
      (finishCompletedRun registry server answers).2.watch.active = false) := by
  have settledQuiet := settleBufferedOutput_quiet server (runnerResult server.worker answers)
  have toldQuiet := settledQuiet.trans (emitFastPathSummary_quiet _
    (runnerResult server.worker answers) server.watch.active)
  cases active : server.watch.active with
  | true =>
    have settled : (settleBufferedOutput server (runnerResult server.worker answers)).1 =
        reportsRun server answers := by
      unfold settleBufferedOutput reportsRun watchIsCompact
      rw [active]
      cases verbose : server.watch.request.verbose with
      | true => simp
      | false =>
        cases ok : (runnerResult server.worker answers).ok with
        | true => simp
        | false => simp [flushBufferedWorkerOutput_sent active]
    have told : (emitFastPathSummary
        (settleBufferedOutput server (runnerResult server.worker answers)).2
        (runnerResult server.worker answers) true).1 = true := by
      unfold emitFastPathSummary
      split
      · exact watchSendText_active (settledQuiet.active.trans active) _
      · rfl
    unfold finishCompletedRun
    simp only [active, settled, told] at toldQuiet ⊢
    cases reports : reportsRun server answers with
    | true => exact .inl ⟨rfl, _, toldQuiet, rfl⟩
    | false =>
      refine .inr ⟨rfl, ?_, ?_⟩
      · simp only [Bool.not_false, if_true, watchResetSession_worker]
        exact settledQuiet.worker
      · simp only [Bool.not_false, if_true, watchResetSession_watch]
        rfl
  | false =>
    have settled : settleBufferedOutput server (runnerResult server.worker answers) =
        (true, clearBufferedWorkerOutput server) := by
      unfold settleBufferedOutput watchIsCompact
      rw [active]
      rfl
    have told : (emitFastPathSummary (clearBufferedWorkerOutput server)
        (runnerResult server.worker answers) false).1 = reportsRun server answers := by
      unfold emitFastPathSummary shouldEmitFastPathSummary watchSendText reportsRun
      simp only [active, clearBufferedWorkerOutput]
      cases server.client with
      | none => simp
      | some fd =>
        cases server.sends with
        | nil => simp [send]
        | cons first rest => cases first <;> simp [send, active]
    unfold finishCompletedRun
    simp only [active, settled, told] at toldQuiet ⊢
    cases reports : reportsRun server answers with
    | true => exact .inl ⟨rfl, _, toldQuiet, rfl⟩
    | false => exact .inr ⟨rfl, toldQuiet.worker, toldQuiet.active.trans active⟩

/-! ## The worker's events -/

/-- The worker is over and its end is handled to the last step: the run was cancelled by newer
changes, or it can be reported. -/
def settlesRun (server : Server) (answers : Answers) : Bool :=
  !server.worker.over || (server.watch.active && server.watch.cancelRequested) ||
    reportsRun server answers

/-- After an event of the worker the server is steady if the run can be settled. -/
theorem afterWorkerEvent_steady (tracked : server.worker.Tracked) (registry : Registry)
    (answers : Answers) (settles : settlesRun server answers = true) :
    Steady (afterWorkerEvent registry server answers) := by
  have finished : Steady (finishActiveRun registry server answers).2 := by
    unfold finishActiveRun
    split
    · rename_i unfinished
      have unfinished : server.worker.over = false := Bool.not_eq_true' _ |>.mp unfinished
      refine ⟨.inr ⟨tracked, unfinished⟩, ?_⟩
      intro noWorker
      have recorded := tracked.pid
      rw [noWorker] at recorded
      cases recorded
    · rename_i ended
      have ended : server.worker.over = true := by
        rw [Bool.not_eq_true', Bool.not_eq_false] at ended
        exact ended
      split
      · rename_i cancelled
        have active := (Bool.and_eq_true_iff.mp cancelled).1
        exact finishCancelledRun_steady active registry answers
      · rename_i notCancelled
        rcases finishCompletedRun_cases registry server answers with
          ⟨_, told, _, same⟩ | ⟨unreported, _⟩
        · rw [same]
          exact finishReportedRun_steady ..
        · have notCancelled := Bool.eq_false_iff.mpr notCancelled
          rw [settlesRun, ended, notCancelled, unreported] at settles
          cases settles
  unfold afterWorkerEvent
  dsimp only
  split
  · exact watchResetSession_steady finished.worker
  · exact finished

/-- A run that cannot be settled leaves the worker recorded, over and unwatched. -/
theorem afterWorkerEvent_stuck (answers : Answers) (unsettled : settlesRun server answers = false) :
    (afterWorkerEvent registry server answers).worker = server.worker := by
  simp only [settlesRun, Bool.or_eq_false_iff, Bool.not_eq_false'] at unsettled
  obtain ⟨⟨ended, notCancelled⟩, unreported⟩ := unsettled
  have finished : (finishActiveRun registry server answers).2.worker = server.worker := by
    unfold finishActiveRun
    unfold Worker.over at ended
    rw [if_neg (by rw [ended]; decide), if_neg (by rw [notCancelled]; decide)]
    rcases finishCompletedRun_cases registry server answers with ⟨reported, _⟩ | ⟨_, kept, _⟩
    · rw [unreported] at reported
      cases reported
    · exact kept
  unfold afterWorkerEvent
  dsimp only
  split
  · rw [watchResetSession_worker]
    exact finished
  · exact finished

/-! ## One turn -/

/-- The server after an event of the worker, before `daemon_finish_active_run` looks at it; no
other event ends a run. -/
def workerEvent (server : Server) : Event → Option Server
  | .workerPipe stream .ended => some (closePipe server stream)
  | .workerPidfd status =>
    some { reapWorker server status with worker.exited := true, worker.pidfdSource := false }
  | _ => none

/-- The event of a worker is handled by marking it and looking whether the worker is over. -/
theorem handle_workerEvent {marked : Server} {event : Event}
    (worker : workerEvent server event = some marked) (registry : Registry) (answers : Answers) :
    handle registry server answers event = afterWorkerEvent registry marked answers := by
  cases event with
  | workerPipe stream read =>
    cases read with
    | ended =>
      cases worker
      rfl
    | bytes data => cases worker
    | interrupted => cases worker
  | workerPidfd status =>
    cases worker
    rfl
  | listener fd connection => cases worker
  | killTimer => cases worker
  | signal => cases worker
  | watchClient hangup => cases worker
  | watchDebounce => cases worker
  | watchInotify events readFailed => cases worker

/-- Reaping a worker keeps what is watched of it. -/
theorem reapWorker_tracked (tracked : server.worker.Tracked) (status : WaitStatus) :
    (reapWorker server status).worker.Tracked := by
  unfold reapWorker
  split
  · exact tracked
  · exact tracked
  · exact ⟨tracked.pid, tracked.stdoutSource, tracked.stderrSource, tracked.pidfdSource⟩

variable (steady : Steady server)

include steady

/-- An event of the worker comes from a source that watches it, and the worker stays tracked. -/
theorem workerEvent_tracked {marked : Server} {event : Event}
    (registered : event.registered server = true) (worker : workerEvent server event = some marked) :
    marked.worker.Tracked := by
  have tracked : server.worker.Tracked := by
    rcases steady.worker with idle | ⟨tracked, _⟩
    · have unwatched : event.registered server = false := by
        cases event with
        | workerPipe stream read =>
          cases stream
          · exact idle.stdoutSource
          · exact idle.stderrSource
        | workerPidfd status => exact idle.pidfdSource
        | listener fd connection => cases worker
        | killTimer => cases worker
        | signal => cases worker
        | watchClient hangup => cases worker
        | watchDebounce => cases worker
        | watchInotify events readFailed => cases worker
      rw [unwatched] at registered
      cases registered
    · exact tracked
  cases event with
  | workerPipe stream read =>
    cases read with
    | ended =>
      cases worker
      cases stream
      · exact ⟨tracked.pid, rfl, tracked.stderrSource, tracked.pidfdSource⟩
      · exact ⟨tracked.pid, tracked.stdoutSource, rfl, tracked.pidfdSource⟩
    | bytes data => cases worker
    | interrupted => cases worker
  | workerPidfd status =>
    cases worker
    have reaped := reapWorker_tracked tracked status
    exact ⟨reaped.pid, reaped.stdoutSource, reaped.stderrSource, rfl⟩
  | listener fd connection => cases worker
  | killTimer => cases worker
  | signal => cases worker
  | watchClient hangup => cases worker
  | watchDebounce => cases worker
  | watchInotify events readFailed => cases worker

/-- Forwarding output does not touch the worker. -/
theorem forwardOutput_steady (stream : Stream) (data : List UInt8) :
    Steady (forwardOutput server stream data) := by
  unfold forwardOutput
  split
  · cases stream <;> exact steady.congr rfl rfl rfl
  · split
    · exact steady
    · rename_i fd _
      have sent := steady.quiet (send_quiet server fd (.output server.currentRequestId stream data))
      dsimp only
      split
      · exact sent
      · exact sent.quiet (handleClientDisconnect_quiet _)

/-- A newer change makes no worker, it only asks the running one to stop. -/
theorem watchCancelStaleRun_steady (answers : Answers) :
    Steady (watchCancelStaleRun server answers) := by
  have pending : Steady { server with watch.rerunPending := true } := steady.congr rfl rfl rfl
  unfold watchCancelStaleRun
  dsimp only
  split
  · exact beginWorkerCancel_steady pending ..
  · exact beginWorkerCancel_steady (pending.quiet (watchSendInfof_quiet ..)) ..

theorem onWatchDebounce_steady (registry : Registry) (answers : Answers) :
    Steady (onWatchDebounce registry server answers) := by
  have fired : Steady { server with watch.debounceSource := false } := steady.congr rfl rfl rfl
  unfold onWatchDebounce
  split
  · exact steady
  · dsimp only
    split
    · exact fired
    · split
      · exact watchCancelStaleRun_steady fired answers
      · rename_i noWorker
        have ready := fired.ready (by simpa using noWorker)
        have handled := (watchHandlePendingBatch_onward ready registry answers).steady
        split
        · exact handled
        · exact watchResetSession_steady handled.worker

omit steady

/-- Noting changes does not touch the worker. -/
theorem Steady.noted {before after : Server} (steady : Steady before)
    (noted : Noted before after) : Steady after :=
  steady.congr noted.worker noted.state noted.active

include steady

/-- An event that is none of the worker's keeps a server steady. -/
theorem handle_steady (registry : Registry) (answers : Answers) (event : Event)
    (other : workerEvent server event = none) :
    Steady (handle registry server answers event) := by
  cases event with
  | listener fd connection => exact (steady_handlersKeep ..).onListener steady ..
  | workerPipe stream read =>
    cases read with
    | bytes data => exact forwardOutput_steady steady ..
    | interrupted => exact steady
    | ended => cases other
  | workerPidfd status => cases other
  | killTimer => exact onKillTimer_steady steady
  | signal => exact (steady_handlersKeep registry answers).onSignal steady
  | watchClient hangup =>
    simp only [handle, onWatchClient]
    split
    · exact steady.quiet (watchDetachClient_quiet server)
    · exact steady
  | watchDebounce => exact onWatchDebounce_steady steady ..
  | watchInotify events readFailed => exact steady.noted (onWatchInotify_noted ..)

/-! ## Runs -/

/-- One turn of the event loop; an event of a source that is not registered does not occur. -/
def turn (registry : Registry) (turn : Step) (server : Server) : Server :=
  (step registry server turn).getD server

/-- The server that the handler of a turn is called with. -/
def Step.start (turn : Step) (server : Server) : Server :=
  { server with sends := turn.answers.sends }

/-- The event of the turn occurs. -/
def Step.occurs (turn : Step) (server : Server) : Bool :=
  server.exitRequested.isNone && turn.event.registered server

/-- If the turn ends the worker's run, the run can be settled. -/
def runReported (turn : Step) (server : Server) : Bool :=
  !turn.occurs server ||
    match workerEvent (turn.start server) turn.event with
    | none => true
    | some marked => settlesRun marked turn.answers

/-- A worker whose exit and closed pipes have been handled is not recorded any more, and the daemon
reports a worker only while an event of it is to come. -/
structure Settled (server : Server) : Prop where
  ended : server.worker.exited = true → server.worker.stdoutClosed = true →
    server.worker.stderrClosed = true → server.worker.pid = none ∧ server.worker.request = none
  reported : effectiveState server = .busy ∨
    (effectiveState server = .draining ∧ server.worker.pid.isSome = true) →
    server.worker.hasEvent = true

/-- A steady server is settled. -/
theorem Steady.settled : Settled server := by
  rcases steady.worker with idle | ⟨tracked, unfinished⟩
  · constructor
    · intro _ _ _
      exact ⟨idle.pid, idle.request⟩
    · intro reports
      have state := steady.state idle.pid
      unfold effectiveState at reports
      rw [idle.pid, state] at reports
      revert reports
      cases server.shuttingDown <;> cases server.watch.active <;> simp
  · constructor
    · intro exited stdout stderr
      unfold Worker.over at unfinished
      rw [exited, stdout, stderr] at unfinished
      cases unfinished
    · intro _
      exact tracked.hasEvent unfinished

omit steady

/-- The event of a turn that occurs is handled. -/
theorem turn_occurs {registry : Registry} (occurs : next.occurs server = true) :
    turn registry next server = handle registry (next.start server) next.answers next.event := by
  unfold turn step
  unfold Step.occurs at occurs
  rw [if_pos occurs]
  rfl

/-- Nothing happens in a turn whose event does not occur. -/
theorem turn_idle {registry : Registry} (idle : next.occurs server = false) :
    turn registry next server = server := by
  unfold turn step
  unfold Step.occurs at idle
  rw [idle]
  rfl

/-- An event that occurs has a registered source, and the exit of the loop is not requested. -/
theorem occurs_registered (occurs : next.occurs server = true) :
    next.event.registered (next.start server) = true ∧ server.exitRequested = none := by
  obtain ⟨running, registered⟩ := Bool.and_eq_true_iff.mp occurs
  have same : next.event.registered (next.start server) = next.event.registered server := by
    cases next.event with
    | workerPipe stream _ => cases stream <;> rfl
    | _ => rfl
  exact ⟨same.trans registered, Option.isNone_iff_eq_none.mp running⟩

/-- A turn that ends no run, or one that can be settled, keeps a server steady. -/
theorem turn_steady (next : Step) (server : Server) (steady : Steady server)
    (reported : runReported next server = true) : Steady (turn registry next server) := by
  cases occurs : next.occurs server with
  | false =>
    rw [turn_idle occurs]
    exact steady
  | true =>
    rw [turn_occurs occurs]
    have started : Steady (next.start server) := steady.congr rfl rfl rfl
    have registered := (occurs_registered occurs).1
    unfold runReported at reported
    rw [occurs] at reported
    cases worker : workerEvent (next.start server) next.event with
    | none => exact handle_steady started registry next.answers next.event worker
    | some marked =>
      rw [handle_workerEvent worker]
      rw [worker] at reported
      exact afterWorkerEvent_steady (workerEvent_tracked started registered worker) registry
        next.answers (by simpa using reported)

/-- A settled server after a turn shows that the run it ended, if any, could be settled. -/
theorem runReported_of_settled (next : Step) (server : Server) (steady : Steady server)
    (settled : Settled (turn registry next server)) : runReported next server = true := by
  by_contra unreported
  have unreported := Bool.eq_false_iff.mpr unreported
  unfold runReported at unreported
  obtain ⟨occurs, unsettled⟩ := Bool.or_eq_false_iff.mp unreported
  have occurs : next.occurs server = true := by simpa using occurs
  rw [turn_occurs occurs] at settled
  have started : Steady (next.start server) := steady.congr rfl rfl rfl
  have registered := (occurs_registered occurs).1
  cases worker : workerEvent (next.start server) next.event with
  | none =>
    rw [worker] at unsettled
    cases unsettled
  | some marked =>
    rw [worker] at unsettled
    rw [handle_workerEvent worker] at settled
    have stuck := afterWorkerEvent_stuck registry next.answers unsettled
    have tracked := workerEvent_tracked started registered worker
    have ended : marked.worker.over = true := by
      by_contra unfinished
      have unfinished := Bool.eq_false_iff.mpr unfinished
      dsimp only at unsettled
      rw [settlesRun, unfinished] at unsettled
      cases unsettled
    obtain ⟨⟨exited, stdout⟩, stderr⟩ : (marked.worker.exited = true ∧
        marked.worker.stdoutClosed = true) ∧ marked.worker.stderrClosed = true := by
      simpa [Worker.over] using ended
    have released := settled.ended (by rw [stuck]; exact exited) (by rw [stuck]; exact stdout)
      (by rw [stuck]; exact stderr)
    have recorded := tracked.pid
    rw [← stuck, released.1] at recorded
    cases recorded

/-- The server is steady when the event loop starts. -/
theorem initial_steady : Steady Server.initial :=
  ⟨.inl ⟨rfl, rfl, rfl, rfl, rfl⟩, fun _ => rfl⟩

/-- The worker is settled after every turn of a run exactly when every run that ended could be
settled: cancelled by newer changes, or reported to its client. -/
theorem settled_iff_runReported (registry : Registry) (turns : List Step) :
    (∀ done, done <+: turns → Settled (replay (turn registry) done .initial)) ↔
      Along (turn registry) (fun next server => runReported next server = true) turns .initial :=
  (along_iff_prefixes (turn registry) (turn_steady registry) (fun _ => Steady.settled)
    (runReported_of_settled registry) turns initial_steady).symm

/-- Everything that is asked succeeds, and a started worker gets the process id. -/
def grantedAnswers (pid : Nat) : Answers where
  sends := []
  preflight := (true, coldTelemetry)
  spawn := .started pid
  term := true
  killTimer := true
  debounceTimer := true
  clientSource := true
  scan := ⟨true, true, []⟩
  resultFile := none
  payloadFits := true
  exitAfterRerun := false

/-- A client asks for a run and goes away; a send of the run's output fails. The run ends. -/
def lostClientRun : List Step :=
  [⟨.listener 7 (.hello 1 (some (2, .run (.request ⟨.runAggregate, 0, 1, false⟩)))),
      grantedAnswers 100⟩,
    ⟨.workerPipe .stdout (.bytes [46]), { grantedAnswers 0 with sends := [false] }⟩,
    ⟨.workerPipe .stdout .ended, grantedAnswers 0⟩,
    ⟨.workerPipe .stderr .ended, grantedAnswers 0⟩,
    ⟨.workerPidfd (.exited 0), grantedAnswers 0⟩]

/-- After a run without its client the exit and both pipes have been handled, and the worker is
still recorded: the daemon is busy for good. -/
theorem lostClientRun_unsettled : ¬ Settled (replay (turn ⟨[], []⟩) lostClientRun .initial) := by
  intro settled
  have recorded := (settled.ended (by decide +kernel) (by decide +kernel) (by decide +kernel)).1
  have kept : (replay (turn ⟨[], []⟩) lostClientRun .initial).worker.pid = some 100 := by
    decide +kernel
  rw [kept] at recorded
  cases recorded

end Nobify.Daemon
