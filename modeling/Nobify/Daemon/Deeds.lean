import Mathlib.Logic.Relation
import Nobify.Daemon.Runs

/-!
# What handlers do to connections and processes

The handlers use connections and processes on many paths, but in few ways. `View` is the part of
the server that these depend on, `Deed` lists the ways, and each handler is a chain of deeds. What
every deed keeps is then kept by every handler.

Which deeds a handler may perform depends on when it is called: only the listener takes over a
connection, and whether a worker may be started or signalled is a question of the state before.
`Leave` says what is permitted.
-/

namespace Nobify.Daemon

open Option

variable {server : Server} {fd : Nat}

/-! ## Deeds -/

/-- The part of the server that connections and processes depend on. -/
structure View where
  client : Option Nat
  pid : Option Nat
  exited : Bool
  /-- The source of the worker's pidfd is registered. -/
  watched : Bool
  active : Bool
  closing : Bool
  shuttingDown : Bool
  log : List Act

def Server.view (server : Server) : View where
  client := server.client
  pid := server.worker.pid
  exited := server.worker.exited
  watched := server.worker.pidfdSource
  active := server.watch.active
  closing := server.watch.closing
  shuttingDown := server.shuttingDown
  log := server.log

/-- An action that uses neither a connection nor a process. -/
def Act.isNote : Act → Bool
  | .finished _ | .sessionStarted | .recorded _ => true
  | _ => false

/-- What a handler may do. -/
structure Leave where
  /-- It may send on this descriptor, also when it is not the client's. -/
  uses : Nat → Prop
  /-- It may take connections over and close them. -/
  listens : Prop
  /-- It may ask the daemon to stop. -/
  stops : Prop
  /-- It may start a worker, given whether the daemon was asked to stop. -/
  spawns : Bool → Prop
  /-- It may signal the worker, given whether its exit was handled. -/
  warns : Bool → Prop
  /-- The worker's exit may be handled without reaping it. -/
  loses : Prop
  /-- It may forget a worker whose exit was handled. -/
  ends : Prop

/-- The ways in which handlers change the view. -/
inductive Deed (leave : Leave) (view : View) : View → Prop where
  | sends {fd : Nat} (message : Message) (known : leave.uses fd ∨ view.client = some fd) :
      Deed leave view { view with log := .sent fd message :: view.log }
  | drops {fd : Nat} (known : view.client = some fd) :
      Deed leave view { view with client := none, log := .closed fd :: view.log }
  | notes {act : Act} (plain : act.isNote = true) :
      Deed leave view { view with log := act :: view.log }
  | accepts (fd : Nat) (listens : leave.listens) :
      Deed leave view { view with log := .accepted fd :: view.log }
  | hangsUp (fd : Nat) (listens : leave.listens) :
      Deed leave view { view with log := .closed fd :: view.log }
  | attaches (fd : Nat) (listens : leave.listens) : Deed leave view { view with client := some fd }
  | opens (listens : leave.listens) (idle : view.pid = none)
      (running : view.shuttingDown = false) : Deed leave view { view with active := true }
  | marksClosing : Deed leave view { view with closing := true }
  | stops (may : leave.stops) :
      Deed leave view { view with shuttingDown := true, closing := view.closing || view.active }
  | endsSession (left : view.pid.isSome = true ∨ view.client = none) :
      Deed leave view { view with active := false, closing := false }
  | starts (pid : Nat) (request : RunnerRequest) (idle : view.pid = none)
      (may : leave.spawns view.shuttingDown) :
      Deed leave view { view with
        pid := some pid, exited := false, watched := true, log := .spawned pid request :: view.log }
  | startsInVain (pid : Nat) (request : RunnerRequest) (exited : Bool) (idle : view.pid = none)
      (may : leave.spawns view.shuttingDown) :
      Deed leave view { view with
        pid := none, exited := exited, watched := false,
        log := .reaped pid :: .signalled pid .kill :: .spawned pid request :: view.log }
  | unwatches (idle : view.pid = none) : Deed leave view { view with watched := false }
  | signals {pid : Nat} (signal : Signal) (known : view.pid = some pid)
      (may : leave.warns view.exited) :
      Deed leave view { view with log := .signalled pid signal :: view.log }
  | reaps {pid : Nat} (known : view.pid = some pid) (watched : view.watched = true) :
      Deed leave view { view with
        exited := true, watched := false, log := .reaped pid :: view.log }
  | loses (lost : leave.loses ∨ view.pid = none) :
      Deed leave view { view with exited := true, watched := false }
  | endsWorker (ends : leave.ends) (exited : view.exited = true)
      (left : view.client = none ∨ view.active = true) :
      Deed leave view { view with pid := none, exited := false, watched := false }

/-- A chain of permitted deeds leads from one server to the other. -/
def Does (leave : Leave) (before after : Server) : Prop :=
  Relation.ReflTransGen (Deed leave) before.view after.view

section Does

variable {leave : Leave} {before middle after : Server}

theorem Does.refl (server : Server) : Does leave server server := Relation.ReflTransGen.refl

theorem Does.trans (first : Does leave before middle) (second : Does leave middle after) :
    Does leave before after := Relation.ReflTransGen.trans first second

/-- One deed. -/
theorem Does.of (deed : Deed leave before.view after.view) : Does leave before after :=
  Relation.ReflTransGen.single deed

/-- Changes beyond the view. -/
theorem Does.same (same : after.view = before.view) : Does leave before after := by
  unfold Does
  rw [same]

/-- What every deed keeps is kept by a chain of them. -/
theorem Does.keeps {holds : View → Prop}
    (each : ∀ view next, Deed leave view next → holds view → holds next)
    (does : Does leave before after) (start : holds before.view) : holds after.view := by
  unfold Does at does
  generalize after.view = last at does ⊢
  induction does with
  | refl => exact start
  | tail _ deed ih => exact each _ _ deed ih

/-- Whether the daemon is stopping changes only where that is permitted. -/
theorem Deed.shuttingDown {view next : View} (calm : ¬ leave.stops) (deed : Deed leave view next) :
    next.shuttingDown = view.shuttingDown := by
  cases deed with
  | stops may => exact absurd may calm
  | _ => rfl

theorem Does.shuttingDown (calm : ¬ leave.stops) (does : Does leave before after) :
    after.shuttingDown = before.shuttingDown := by
  have each : ∀ view next, Deed leave view next → view.shuttingDown = before.shuttingDown →
      next.shuttingDown = before.shuttingDown :=
    fun _ _ deed same => (deed.shuttingDown calm).trans same
  exact does.keeps each rfl

end Does

/-! ## Talking to clients -/

section Walk

variable {leave : Leave}

theorem send_does (message : Message) (known : leave.uses fd ∨ server.client = some fd) :
    Does leave server (send server fd message).2 := Does.of (.sends message known)

section

variable (server : Server)

theorem sendClient_does (message : Message) : Does leave server (sendClient server message).2 := by
  unfold sendClient
  split
  · exact .refl server
  · rename_i fd client
    exact send_does message (Or.inr client)

theorem closeClient_does : Does leave server (closeClient server) := by
  unfold closeClient
  split
  · exact .refl server
  · rename_i fd client
    exact Does.of (.drops client)

theorem watchDetachClient_does : Does leave server (watchDetachClient server) := by
  unfold watchDetachClient
  split
  · have unwatched : Does leave server { server with watch.clientSource := false } := Does.same rfl
    exact unwatched.trans (closeClient_does _)
  · exact .refl server

theorem handleClientDisconnect_does : Does leave server (handleClientDisconnect server) := by
  unfold handleClientDisconnect
  split
  · exact watchDetachClient_does server
  · exact closeClient_does server

theorem watchSendText_does (text : StringView) :
    Does leave server (watchSendText server text).2 := by
  unfold watchSendText
  split
  · exact .refl server
  · rename_i fd client
    dsimp only
    generalize (if server.watch.active = true then server.watch.requestId
      else server.currentRequestId) = requestId
    have sent : Does leave server (send server fd (.info requestId text)).2 :=
      send_does _ (Or.inr client)
    split
    · exact sent
    · split
      · exact sent.trans (watchDetachClient_does _)
      · exact sent.trans (handleClientDisconnect_does _)

theorem watchSendInfof_does (text : StringView) :
    Does leave server (watchSendInfof server text).2 := by
  unfold watchSendInfof
  split
  · exact .refl server
  · exact watchSendText_does server text

theorem watchSendInfos_does (texts : List StringView) :
    Does leave server (watchSendInfos server texts).2 := by
  induction texts generalizing server with
  | nil => exact .refl server
  | cons text rest ih =>
    have first : Does leave server (watchSendInfof server text).2 := watchSendInfof_does ..
    simp only [watchSendInfos]
    split
    · exact first.trans (ih _)
    · exact first

theorem watchReportIssue_does (text : StringView) :
    Does leave server (watchReportIssue server text).2 := by
  unfold watchReportIssue
  split
  · exact .refl server
  · exact watchSendInfof_does ..

theorem sendBuffered_does (stream : Stream) (bytes : List UInt8) :
    Does leave server (sendBuffered server stream bytes).2 := by
  unfold sendBuffered
  split
  · exact .refl server
  · exact sendClient_does ..

theorem sendBufferedOutput_does : Does leave server (sendBufferedOutput server).2 := by
  have first : Does leave server (sendBuffered server .stderr server.bufferedStderr).2 :=
    sendBuffered_does ..
  simp only [sendBufferedOutput]
  split
  · exact first.trans (sendBuffered_does ..)
  · exact first

theorem clearBufferedWorkerOutput_does :
    Does leave server (clearBufferedWorkerOutput server) := Does.same rfl

theorem flushBufferedWorkerOutput_does :
    Does leave server (flushBufferedWorkerOutput server).2 := by
  have sent : Does leave server (sendBufferedOutput server).2 := sendBufferedOutput_does server
  unfold flushBufferedWorkerOutput
  split
  · exact clearBufferedWorkerOutput_does server
  · dsimp only
    split
    · exact sent.trans (clearBufferedWorkerOutput_does _)
    · exact (sent.trans (handleClientDisconnect_does _)).trans (clearBufferedWorkerOutput_does _)

theorem settleBufferedOutput_does (result : RunnerResult) :
    Does leave server (settleBufferedOutput server result).2 := by
  unfold settleBufferedOutput
  split
  · exact flushBufferedWorkerOutput_does server
  · exact clearBufferedWorkerOutput_does server

end

theorem sendCompactOverview_does (registry : Registry) (server : Server) (modules : List Nat)
    (fallbackAll : Bool) :
    Does leave server (sendCompactOverview registry server modules fallbackAll).2 := by
  unfold sendCompactOverview
  split
  · exact watchSendInfof_does ..
  · exact watchSendInfof_does ..
  · exact watchSendInfof_does ..
  · exact watchSendText_does ..

theorem watchSendBatchOverview_does (registry : Registry) (server : Server) (modules : List Nat)
    (fallbackAll : Bool) :
    Does leave server (watchSendBatchOverview registry server modules fallbackAll).2 := by
  unfold watchSendBatchOverview
  split
  · have lines : Does leave server (watchSendInfos server
        (verboseOverview server.watch.changedPaths fallbackAll)).2 := watchSendInfos_does ..
    dsimp only
    split
    · exact lines
    · split
      · exact lines.trans (watchSendInfof_does ..)
      · exact lines.trans (watchSendText_does ..)
  · exact sendCompactOverview_does ..

theorem emitFastPathSummary_does (server : Server) (result : RunnerResult) (watchActive : Bool) :
    Does leave server (emitFastPathSummary server result watchActive).2 := by
  unfold emitFastPathSummary
  split
  · exact watchSendText_does ..
  · exact .refl server

theorem sendRunResult_does (server : Server) (answers : Answers) (result : RunnerResult)
    (attached : Bool) : Does leave server (sendRunResult server answers result attached).2 := by
  unfold sendRunResult
  split
  · exact .refl server
  · split
    · exact .refl server
    · have sent : Does leave server (sendClient server (.result server.currentRequestId
          (effectiveState server) result.ok server.worker.exitCode)).2 := sendClient_does ..
      dsimp only
      split
      · exact sent
      · exact sent.trans (handleClientDisconnect_does _)

theorem watchAttachClient_does (server : Server) (answers : Answers) (requestId : Nat) :
    Does leave server (watchAttachClient server answers requestId) := by
  have watched : Does leave server
      (if answers.clientSource then { server with watch.clientSource := true }
        else watchDetachClient server) := by
    split
    · exact Does.same rfl
    · exact watchDetachClient_does server
  unfold watchAttachClient
  dsimp only
  revert watched
  generalize (if answers.clientSource = true then _ else _ : Server) = attached
  intro watched
  split
  · exact watched
  · rename_i fd client
    have sent : Does leave attached (send attached fd (.ack requestId)).2 :=
      send_does _ (Or.inr client)
    split
    · exact watched.trans sent
    · exact watched.trans (sent.trans (watchDetachClient_does _))

theorem watchAnnounceRoots_does (server : Server) :
    Does leave server (watchAnnounceRoots server).2 := by
  unfold watchAnnounceRoots
  split
  · exact watchSendInfos_does ..
  · exact .refl server

theorem sendAdmissionError_does (known : leave.uses fd) (requestId : Nat) :
    Does leave server (sendAdmissionError server fd requestId).2 := by
  unfold sendAdmissionError
  dsimp only
  split
  · exact send_does _ (Or.inl known)
  · split
    · exact send_does _ (Or.inl known)
    · exact send_does _ (Or.inl known)

/-- Noting changes uses no connection and no process. -/
theorem Noted.does {before after : Server} (noted : Noted before after) :
    Does leave before after := by
  obtain ⟨acts, log, recorded⟩ := noted.log
  have view : after.view = { before.view with log := acts ++ before.log } := by
    rw [noted.same]
    show View.mk .. = View.mk ..
    rw [log]
    rfl
  unfold Does
  rw [view]
  clear view log
  induction acts with
  | nil => exact Relation.ReflTransGen.refl
  | cons act acts ih =>
    have plain : act.isNote = true := by
      obtain ⟨path, _, same⟩ := recorded act List.mem_cons_self
      rw [same]
      rfl
    exact (ih fun other mem => recorded other (List.mem_cons_of_mem _ mem)).tail (.notes plain)

/-! ## The session and the worker -/

/-- A session ends together with its client, unless a worker keeps the connection. -/
theorem watchResetSession_does (server : Server) :
    Does leave server (watchResetSession server) := by
  simp only [watchResetSession]
  split
  · rename_i worker
    exact Does.of (.endsSession (Or.inl worker))
  · have dropped : Does leave server (closeClient server) := closeClient_does server
    refine dropped.trans ?_
    have ended := @Deed.endsSession leave (closeClient server).view
      (Or.inr (closeClient_client server))
    have view : { closeClient { clearBufferedWorkerOutput server with watch := .zero } with
        currentRequestId := 0, state := .idle : Server }.view =
        { (closeClient server).view with active := false, closing := false } := by
      unfold closeClient clearBufferedWorkerOutput
      cases client : server.client with
      | none =>
        show View.mk none _ _ _ _ _ _ _ = View.mk server.client _ _ _ _ _ _ _
        rw [client]
        rfl
      | some fd => rfl
    unfold Does
    rw [view]
    exact Relation.ReflTransGen.single ended

theorem resetActiveSession_does (server : Server) :
    Does leave server (resetActiveSession server) := by
  unfold resetActiveSession
  split
  · exact watchResetSession_does server
  · exact .refl server

/-- A worker whose exit was handled is forgotten; its client is closed or belongs to a session. -/
theorem resetWorkerState_does {closeClientFd : Bool} (ends : leave.ends)
    (exited : server.worker.exited = true)
    (left : closeClientFd = true ∨ server.watch.active = true) :
    Does leave server (resetWorkerState server closeClientFd) := by
  cases closeClientFd with
  | false =>
    have active : server.watch.active = true := left.resolve_left Bool.false_ne_true
    exact Does.of (.endsWorker ends exited (Or.inr active))
  | true =>
    have dropped : Does leave server (closeClient server) := closeClient_does server
    have gone : (closeClient server).view.exited = true := by
      show (closeClient server).worker.exited = true
      rw [closeClient_worker]
      exact exited
    have ended : Does leave (closeClient server) (resetWorkerState server true) :=
      Does.of (.endsWorker ends gone (Or.inl (closeClient_client server)))
    exact dropped.trans ended

variable (idle : server.worker.pid = none) (may : leave.spawns server.shuttingDown)

include idle may

/-- A worker is started where none is recorded. -/
theorem spawnWorker_does (answers : Answers) (request : RunnerRequest) (requestId : Nat) :
    Does leave server (spawnWorker server answers request requestId).2 := by
  unfold spawnWorker
  split
  · exact .refl server
  · have view : (spawnFailed server none).view = { server.view with watched := false } := by
      show View.mk _ none _ _ _ _ _ _ = View.mk _ server.worker.pid _ _ _ _ _ _
      rw [idle]
      rfl
    unfold Does
    dsimp only
    rw [view]
    exact Relation.ReflTransGen.single (.unwatches idle)
  · rename_i pid _
    exact Does.of (.startsInVain pid request server.worker.exited idle may)
  · rename_i pid _
    exact Does.of (.startsInVain pid request false idle may)
  · rename_i pid _
    exact Does.of (.starts pid request idle may)

theorem watchRunModule_does (answers : Answers) (request : RunnerRequest)
    (moduleName profileName : StringView) :
    Does leave server (watchRunModule server answers request moduleName profileName).2 := by
  have checked : Does leave server { server with telemetry := answers.preflight.2 } :=
    Does.same rfl
  unfold watchRunModule
  dsimp only
  split
  · have cleared : Does leave server
        (watchClearBatch { server with telemetry := answers.preflight.2 }) := Does.same rfl
    exact cleared.trans (watchReportIssue_does ..)
  · have quiet := watchSendInfof_quiet { server with telemetry := answers.preflight.2 }
      (sv "[watch] running " ++ moduleName ++ sv " (" ++ profileName ++ sv ")\n")
    have running : Does leave server (watchSendInfof
        { server with telemetry := answers.preflight.2 }
        (sv "[watch] running " ++ moduleName ++ sv " (" ++ profileName ++ sv ")\n")).2 :=
      checked.trans (watchSendInfof_does ..)
    revert quiet running
    generalize watchSendInfof { server with telemetry := answers.preflight.2 } _ = announced
    intro quiet running
    split
    · exact running
    · have spawned : Does leave announced.2
          (spawnWorker announced.2 answers request announced.2.watch.requestId).2 :=
        spawnWorker_does (by rw [quiet.worker]; exact idle)
          (by rw [quiet.shuttingDown]; exact may) answers request _
      split
      · exact running.trans spawned
      · have cleared : Does leave
            (spawnWorker announced.2 answers request announced.2.watch.requestId).2
            (watchClearBatch
              (spawnWorker announced.2 answers request announced.2.watch.requestId).2) :=
          Does.same rfl
        exact ((running.trans spawned).trans cleared).trans (watchReportIssue_does ..)

variable (registry : Registry) (answers : Answers)

theorem watchStartModule_does (id : Nat) :
    Does leave server (watchStartModule registry server answers id).2 := by
  have taken : Does leave server
      { server with watch.batchIndex := server.watch.batchIndex + 1 } := Does.same rfl
  unfold watchStartModule
  dsimp only
  split
  · exact taken
  · split
    · exact taken
    · refine taken.trans (watchRunModule_does ?_ ?_ ..)
      · exact idle
      · exact may

theorem watchBeginBatch_does (modules : List Nat) :
    Does leave server (watchBeginBatch registry server answers modules).2 := by
  cases modules with
  | nil => exact Does.same rfl
  | cons id rest =>
    have batched : Does leave server { server with
        watch.batchModules := id :: rest, watch.batchIndex := 0, watch.batchIsBaseline := false,
        watch.changedPaths := [], watch.rescanRequired := false } := Does.same rfl
    refine batched.trans (watchStartModule_does ?_ ?_ registry answers id)
    · exact idle
    · exact may

theorem watchRouteBatch_does (fallbackAll : Bool) :
    Does leave server (watchRouteBatch registry server answers fallbackAll).2 := by
  unfold watchRouteBatch
  split
  · exact .refl server
  · rename_i modules _
    have cleared : Does leave server { server with watch.rerunPending := false } := Does.same rfl
    have quiet := watchSendBatchOverview_quiet registry
      { server with watch.rerunPending := false } modules fallbackAll
    have overview : Does leave server (watchSendBatchOverview registry
        { server with watch.rerunPending := false } modules fallbackAll).2 :=
      cleared.trans (watchSendBatchOverview_does ..)
    dsimp only
    split
    · exact overview.trans (watchBeginBatch_does (by rw [quiet.worker]; exact idle)
        (by rw [quiet.shuttingDown]; exact may) registry answers modules)
    · exact overview

theorem watchHandlePendingBatch_does :
    Does leave server (watchHandlePendingBatch registry server answers).2 := by
  have sorted : Does leave server (watchSortChangedPaths server) := Does.same rfl
  unfold watchHandlePendingBatch
  split
  · exact .refl server
  · dsimp only
    split
    · have scanned := registerRoots_scanned (watchSortChangedPaths server).watch answers.scan
      have registered : Does leave server { watchSortChangedPaths server with
          watch := (registerRoots (watchSortChangedPaths server).watch answers.scan).2 } :=
        sorted.trans scanned.noted.does
      split
      · refine registered.trans (watchRouteBatch_does ?_ ?_ ..)
        · exact idle
        · exact may
      · exact registered
    · refine sorted.trans (watchRouteBatch_does ?_ ?_ ..)
      · exact idle
      · exact may

theorem watchStartNextModule_does :
    Does leave server (watchStartNextModule registry server answers).2 := by
  have cleared : Does leave server (watchClearBatch server) := Does.same rfl
  unfold watchStartNextModule
  split
  · exact .refl server
  · split
    · exact watchStartModule_does idle may ..
    · dsimp only
      split
      · have told : Does leave (watchClearBatch server)
            (watchSendInfof (watchClearBatch server) (sv "[watch] exiting after rerun\n")).2 :=
          watchSendInfof_does ..
        exact (cleared.trans told).trans (watchResetSession_does _)
      · split
        · refine cleared.trans (watchHandlePendingBatch_does ?_ ?_ ..)
          · exact idle
          · exact may
        · exact cleared

omit may idle

/-! ## Starting a session -/

/-- The announcement of a session keeps the worker and whether the daemon is stopping. -/
theorem watchAnnounceSession_does (registry : Registry) (server : Server) (request : WatchRequest) :
    Does leave server (watchAnnounceSession registry server request).2 ∧
      (watchAnnounceSession registry server request).2.worker = server.worker ∧
      (watchAnnounceSession registry server request).2.shuttingDown = server.shuttingDown := by
  apply watchAnnounceSession_keeps (R := fun before after => Does leave before after ∧
    after.worker = before.worker ∧ after.shuttingDown = before.shuttingDown)
  · exact fun _ => ⟨.refl _, rfl, rfl⟩
  · exact fun first second =>
      ⟨first.1.trans second.1, second.2.1.trans first.2.1, second.2.2.trans first.2.2⟩
  · intro server text
    have told := watchSendInfof_quiet server text
    exact ⟨watchSendInfof_does .., told.worker, told.shuttingDown⟩
  · exact fun _ _ => ⟨Does.same rfl, rfl, rfl⟩

include idle

include may in
theorem watchBeginSession_does (registry : Registry) (answers : Answers) (requestId : Nat)
    (request : WatchRequest) :
    Does leave server (watchBeginSession registry server answers requestId request).2 := by
  have attached : Does leave server (watchAttachClient server answers requestId) :=
    watchAttachClient_does ..
  have quiet := watchAttachClient_quiet server answers requestId
  obtain ⟨does, worker, flag⟩ := @watchAnnounceSession_does leave registry
    (watchAttachClient server answers requestId) request
  unfold watchBeginSession
  dsimp only
  revert does worker flag
  generalize watchAnnounceSession registry (watchAttachClient server answers requestId) request
    = told
  intro does worker flag
  have announced := attached.trans does
  split
  · exact announced
  · have listed : Does leave told.2 (watchAnnounceRoots told.2).2 := watchAnnounceRoots_does _
    have listedQuiet := watchAnnounceRoots_quiet told.2
    revert listed listedQuiet
    generalize watchAnnounceRoots told.2 = last
    intro listed listedQuiet
    have all := announced.trans listed
    split
    · exact all
    · split
      · exact all.trans (watchStartNextModule_does
          (by rw [listedQuiet.worker, worker, quiet.worker]; exact idle)
          (by rw [listedQuiet.shuttingDown, flag, quiet.shuttingDown]; exact may) ..)
      · exact all

omit idle

variable (listens : leave.listens)

include listens

/-- A session is opened by the listener, while no worker is recorded. -/
theorem watchOpenSession_does (idle : server.worker.pid = none)
    (running : server.shuttingDown = false) (answers : Answers) (fd requestId : Nat)
    (request : WatchRequest) (roots : List StringView) :
    Does leave server (watchOpenSession server answers fd requestId request roots) := by
  have attached : Does leave server { server with client := some fd } :=
    Does.of (.attaches fd listens)
  have opened : Does leave { server with client := some fd }
      { server with client := some fd, watch.active := true } :=
    Does.of (.opens listens idle running)
  have noted : Does leave { server with client := some fd, watch.active := true }
      (watchOpenSession server answers fd requestId request roots) := Does.of (.notes rfl)
  exact (attached.trans opened).trans noted

theorem watchTrySession_does (idle : server.worker.pid = none)
    (running : server.shuttingDown = false) (may : leave.spawns server.shuttingDown)
    (registry : Registry) (answers : Answers) (fd requestId : Nat) (request : WatchRequest) :
    Does leave server (watchTrySession registry server answers fd requestId request).2 := by
  unfold watchTrySession
  split
  · exact .refl server
  · rename_i roots _
    have opened : Does leave server (watchOpenSession server answers fd requestId request roots) :=
      watchOpenSession_does listens idle running ..
    dsimp only
    generalize shape : watchOpenSession server answers fd requestId request roots = session
    rw [shape] at opened
    have noWorker : session.worker.pid = none := by
      rw [← shape]
      exact idle
    have flag : leave.spawns session.shuttingDown := by
      rw [← shape]
      exact may
    have registered : Does leave server
        { session with watch := (registerRoots session.watch answers.scan).2 } :=
      opened.trans (registerRoots_scanned session.watch answers.scan).noted.does
    split
    · refine registered.trans (watchBeginSession_does ?_ ?_ ..)
      · exact noWorker
      · exact flag
    · exact registered

theorem watchStartSession_does (known : leave.uses fd) (idle : server.worker.pid = none)
    (running : server.shuttingDown = false)
    (may : leave.spawns server.shuttingDown) (registry : Registry) (answers : Answers)
    (requestId : Nat) (decoded : Decoded WatchRequest) :
    Does leave server (watchStartSession registry server answers fd requestId decoded).2 := by
  cases decoded with
  | undecodable => exact send_does _ (Or.inl known)
  | refused =>
    have told : Does leave server (sendStructuredError server fd requestId .malformedRequest
        (sv "invalid watch request arguments")).2 := send_does _ (Or.inl known)
    exact told.trans (watchResetSession_does _)
  | request request =>
    have tried : Does leave server
        (watchTrySession registry server answers fd requestId request).2 :=
      watchTrySession_does listens idle running may ..
    simp only [watchStartSession]
    split
    · exact tried
    · exact tried.trans (watchResetSession_does _)

omit listens

/-! ## The end of a run -/

theorem eventExit_does (server : Server) (code : Nat) : Does leave server (eventExit server code) :=
  Does.same rfl

/-- A cancelled run of a session: the session goes on unless it is closing. -/
theorem finishCancelledRun_does (ends : leave.ends) (exited : server.worker.exited = true)
    (active : server.watch.active = true)
    (goesOn : server.watch.closing = false → leave.spawns server.shuttingDown) (registry : Registry)
    (answers : Answers) : Does leave server (finishCancelledRun registry server answers).2 := by
  have quiet := watchSendInfof_quiet server (sv "[watch] stale run aborted after newer changes\n")
  have does : Does leave server (watchSendInfof server
      (sv "[watch] stale run aborted after newer changes\n")).2 := watchSendInfof_does ..
  unfold finishCancelledRun
  dsimp only
  revert quiet does
  generalize watchSendInfof server _ = told
  intro quiet does
  split
  · exact (does).trans (watchResetSession_does _)
  · have finished : Does leave told.2 { told.2 with
        watch.cancelRequested := false, log := .finished true :: told.2.log } :=
      Does.of (.notes rfl)
    have reset : Does leave { told.2 with
        watch.cancelRequested := false, log := .finished true :: told.2.log }
        (resetWorkerState { told.2 with
          watch.cancelRequested := false, log := .finished true :: told.2.log }
          told.2.watch.closing) :=
      resetWorkerState_does ends (by show told.2.worker.exited = true; rw [quiet.worker]; exact exited)
        (Or.inr (quiet.active.trans active))
    have all := (does.trans finished).trans reset
    rw [resetWorkerState_watch]
    split
    · split
      · exact (all.trans (watchResetSession_does _)).trans (eventExit_does _ 0)
      · exact all.trans (watchResetSession_does _)
    · rename_i going
      have open' : server.watch.closing = false := by
        rw [← quiet.closing]
        exact Bool.eq_false_iff.mpr going
      split
      · refine all.trans (watchHandlePendingBatch_does rfl ?_ ..)
        rw [resetWorkerState_shuttingDown]
        show leave.spawns told.2.shuttingDown
        rw [quiet.shuttingDown]
        exact goesOn open'
      · exact all

include idle in
theorem watchContinue_does
    (goesOn : server.watch.closing = false → leave.spawns server.shuttingDown) (registry : Registry)
    (answers : Answers) (ok : Bool) :
    Does leave server (watchContinue registry server answers ok).2 := by
  have exitWhenDone : ∀ next : Server, Does leave server next → Does leave server
      (if next.shuttingDown && !next.watch.active then eventExit next (if ok then 0 else 1)
        else next) := by
    intro next does
    split
    · exact (does).trans (eventExit_does _ _)
    · exact does
  unfold watchContinue
  dsimp only
  split
  · exact exitWhenDone _ (watchResetSession_does server)
  · rename_i going
    have open' : server.watch.closing = false := by
      rw [Bool.or_eq_true, not_or] at going
      exact Bool.eq_false_iff.mpr going.2
    split
    · exact watchStartNextModule_does idle (goesOn open') ..
    · split
      · exact watchHandlePendingBatch_does idle (goesOn open') ..
      · split
        · exact exitWhenDone _ (watchResetSession_does server)
        · exact exitWhenDone _ (.refl server)

/-- An open session may start a worker. -/
def Leave.GoesOn (leave : Leave) (server : Server) : Prop :=
  server.watch.active = true → server.watch.closing = false → leave.spawns server.shuttingDown

theorem finishReportedRun_does (ends : leave.ends) (exited : server.worker.exited = true)
    (goesOn : leave.GoesOn server) (registry : Registry) (answers : Answers)
    (result : RunnerResult) (attached : Bool) :
    Does leave server
      (finishReportedRun registry server answers result server.watch.active attached).2 := by
  have quiet := sendRunResult_quiet server answers result attached
  have does : Does leave server (sendRunResult server answers result attached).2 :=
    sendRunResult_does ..
  unfold finishReportedRun
  dsimp only
  revert quiet does
  generalize sendRunResult server answers result attached = told
  intro quiet does
  have finished : Does leave told.2 { told.2 with log := .finished false :: told.2.log } :=
    Does.of (.notes rfl)
  have left : (!server.watch.active) = true ∨ told.2.watch.active = true := by
    rw [quiet.active]
    cases server.watch.active with
    | true => exact Or.inr rfl
    | false => exact Or.inl rfl
  have reset : Does leave { told.2 with log := .finished false :: told.2.log }
      (resetWorkerState { told.2 with log := .finished false :: told.2.log }
        (!server.watch.active)) :=
    resetWorkerState_does ends (by show told.2.worker.exited = true; rw [quiet.worker]; exact exited)
      left
  have all := (does.trans finished).trans reset
  split
  · rename_i active
    refine all.trans (watchContinue_does rfl ?_ ..)
    intro open'
    rw [resetWorkerState_watch] at open'
    rw [resetWorkerState_shuttingDown]
    show leave.spawns told.2.shuttingDown
    rw [quiet.shuttingDown]
    exact goesOn active (quiet.closing.symm.trans open')
  · split
    · exact all.trans (eventExit_does _ _)
    · exact all

theorem finishCompletedRun_does (ends : leave.ends) (exited : server.worker.exited = true)
    (goesOn : leave.GoesOn server) (registry : Registry) (answers : Answers) :
    Does leave server (finishCompletedRun registry server answers).2 := by
  have settledQuiet := settleBufferedOutput_quiet server (runnerResult server.worker answers)
  have settledDoes : Does leave server
      (settleBufferedOutput server (runnerResult server.worker answers)).2 :=
    settleBufferedOutput_does ..
  unfold finishCompletedRun
  dsimp only
  revert settledQuiet settledDoes
  generalize settleBufferedOutput server (runnerResult server.worker answers) = settled
  intro settledQuiet settledDoes
  split
  · exact settledDoes.trans (watchResetSession_does _)
  · have toldQuiet := settledQuiet.trans (emitFastPathSummary_quiet settled.2
      (runnerResult server.worker answers) server.watch.active)
    have toldDoes := settledDoes.trans (@emitFastPathSummary_does leave settled.2
      (runnerResult server.worker answers) server.watch.active)
    revert toldQuiet toldDoes
    generalize emitFastPathSummary settled.2 _ _ = told
    intro toldQuiet toldDoes
    split
    · split
      · exact toldDoes.trans (watchResetSession_does _)
      · exact toldDoes
    · have worker : told.2.worker = server.worker := toldQuiet.worker
      have active : told.2.watch.active = server.watch.active := toldQuiet.active
      have closing : told.2.watch.closing = server.watch.closing := toldQuiet.closing
      have flag : told.2.shuttingDown = server.shuttingDown := toldQuiet.shuttingDown
      unfold Leave.GoesOn at goesOn
      rw [← active] at goesOn ⊢
      refine toldDoes.trans (finishReportedRun_does ends ?_ ?_ ..)
      · rw [worker]
        exact exited
      · intro going open'
        rw [flag]
        exact goesOn going (closing.symm.trans open')

/-- What follows an event of the worker. -/
theorem afterWorkerEvent_does (ends : leave.ends) (goesOn : leave.GoesOn server)
    (registry : Registry) (answers : Answers) :
    Does leave server (afterWorkerEvent registry server answers) := by
  have finished : Does leave server (finishActiveRun registry server answers).2 := by
    unfold finishActiveRun
    split
    · exact .refl server
    · rename_i ended
      have exited : server.worker.exited = true := by
        rw [Bool.not_eq_true', Bool.not_eq_false, Bool.and_eq_true, Bool.and_eq_true] at ended
        exact ended.1.1
      split
      · rename_i cancelled
        rw [Bool.and_eq_true] at cancelled
        exact finishCancelledRun_does ends exited cancelled.1 (goesOn cancelled.1) ..
      · exact finishCompletedRun_does ends exited goesOn ..
  unfold afterWorkerEvent
  dsimp only
  split
  · exact finished.trans (watchResetSession_does _)
  · exact finished

/-! ## Events of the worker -/

theorem forwardOutput_does (server : Server) (stream : Stream) (data : List UInt8) :
    Does leave server (forwardOutput server stream data) := by
  unfold forwardOutput
  split
  · cases stream with
    | stdout => exact Does.same rfl
    | stderr => exact Does.same rfl
  · split
    · exact .refl server
    · rename_i fd client
      have sent : Does leave server
          (send server fd (.output server.currentRequestId stream data)).2 :=
        send_does _ (Or.inr client)
      dsimp only
      split
      · exact sent
      · exact sent.trans (handleClientDisconnect_does _)

theorem closePipe_does (server : Server) (stream : Stream) :
    Does leave server (closePipe server stream) := by
  cases stream with
  | stdout => exact Does.same rfl
  | stderr => exact Does.same rfl

theorem onWorkerPipe_ended_does (ends : leave.ends) (goesOn : leave.GoesOn server)
    (registry : Registry) (answers : Answers) (stream : Stream) :
    Does leave server (onWorkerPipe registry server answers stream .ended) := by
  have goesOn' : leave.GoesOn (closePipe server stream) := by
    cases stream with
    | stdout => exact goesOn
    | stderr => exact goesOn
  exact (closePipe_does server stream).trans (afterWorkerEvent_does ends goesOn' registry answers)

/-- The exit of a watched worker is reaped, unless `waitpid` fails. -/
theorem onWorkerPidfd_does (ends : leave.ends) (watched : server.worker.pidfdSource = true)
    (goesOn : leave.GoesOn server) (registry : Registry) (answers : Answers) {status : WaitStatus}
    (lost : status = .failed → leave.loses) :
    Does leave server (onWorkerPidfd registry server answers status) := by
  have marked : Does leave server
      { reapWorker server status with worker.exited := true, worker.pidfdSource := false } := by
    unfold reapWorker
    cases known : server.worker.pid with
    | none => exact Does.of (.loses (Or.inr known))
    | some pid =>
      cases status with
      | failed => exact Does.of (.loses (Or.inl (lost rfl)))
      | exited | signaled | other => exact Does.of (.reaps known watched)
  have same : ∀ {P : WatchSession → Bool → Prop}, P server.watch server.shuttingDown →
        P (reapWorker server status).watch (reapWorker server status).shuttingDown := by
    intro P here
    unfold reapWorker
    split
    · exact here
    · exact here
    · exact here
  have goesOn' : leave.GoesOn (reapWorker server status) :=
    @same (fun watch flag => watch.active = true → watch.closing = false → leave.spawns flag) goesOn
  refine marked.trans (afterWorkerEvent_does ends ?_ registry answers)
  exact goesOn'

/-! ## Stopping -/

variable (warns : server.worker.pid.isSome = true → leave.warns server.worker.exited)

include warns in
/-- Where a worker is recorded it is signalled. -/
theorem beginWorkerCancel_does
    (answers : Answers)
    (markWatchCancel closingSession : Bool) :
    Does leave server (beginWorkerCancel server answers markWatchCancel closingSession).2 := by
  unfold beginWorkerCancel
  split
  · exact .refl server
  · rename_i pid known
    have may : leave.warns server.worker.exited := warns (by rw [known]; rfl)
    have marked : Does leave server { server with
        watch.closing := server.watch.closing || closingSession } := by
      cases closingSession with
      | false => exact Does.same (by simp only [Bool.or_false])
      | true => exact Does.of (by simp only [Bool.or_true]; exact Deed.marksClosing)
    have warned : Does leave { server with
        watch.closing := server.watch.closing || closingSession }
        { server with
          watch.closing := server.watch.closing || closingSession
          watch.cancelRequested := server.watch.cancelRequested || markWatchCancel
          worker.cancelRequested := true
          log := .signalled pid .term :: server.log } := Does.of (.signals .term known may)
    have all := marked.trans warned
    dsimp only
    split
    · exact all
    · split
      · exact all.trans (Does.same rfl)
      · exact all.trans (Does.of (.signals .kill known may))

theorem requestStop_does (stops : leave.stops) (force : Bool) :
    Does leave server (requestStop server force) := Does.of (.stops stops)

variable (known : leave.uses fd)

include known

theorem handleStop_does (stops : leave.stops) (requestId : Nat) :
    Does leave server (handleStop server fd requestId).2 := by
  have stopping : Does leave server (requestStop server false) := requestStop_does stops false
  unfold handleStop
  dsimp only
  generalize (if (requestStop server false).worker.pid.isSome ||
    (requestStop server false).watch.active then sv "draining" else sv "stopping") = summary
  have told : Does leave (requestStop server false)
      (sendStatusResult (requestStop server false) fd requestId summary).2 :=
    send_does _ (Or.inl known)
  have both := stopping.trans told
  split
  · exact both
  · split
    · exact both
    · exact (both.trans (resetActiveSession_does _)).trans (eventExit_does _ 0)

theorem handleStopForce_does (stops : leave.stops)
    (warns : server.worker.pid.isSome = true → leave.warns server.worker.exited) (answers : Answers)
    (requestId : Nat) : Does leave server (handleStopForce server answers fd requestId).2 := by
  have stopping : Does leave server (requestStop server true) := requestStop_does stops true
  unfold handleStopForce
  dsimp only
  split
  · have cancelled : Does leave server (beginWorkerCancel (requestStop server true) answers
        (requestStop server true).watch.active (requestStop server true).watch.active).2 :=
      stopping.trans (beginWorkerCancel_does (by exact warns) ..)
    split
    · exact cancelled.trans (send_does _ (Or.inl known))
    · exact cancelled.trans (send_does _ (Or.inl known))
  · have reset : Does leave server (resetActiveSession (requestStop server true)) :=
      stopping.trans (resetActiveSession_does _)
    have told := (reset).trans (send_does (.status requestId
      (effectiveState (resetActiveSession (requestStop server true))) (sv "stopping"))
      (Or.inl known))
    split
    · exact told.trans (eventExit_does _ 0)
    · exact told

theorem handleControl_does (stops : leave.stops) (command : ControlCommand)
    (warns : command = .stopForce → (server.shuttingDown && server.forceStopRequested) = false →
      server.worker.pid.isSome = true → leave.warns server.worker.exited)
    (answers : Answers) (requestId : Nat) :
    Does leave server (handleControl server answers fd requestId command).2 := by
  cases command with
  | ping => exact send_does _ (Or.inl known)
  | status => exact send_does _ (Or.inl known)
  | unknown => exact send_does _ (Or.inl known)
  | stop =>
    simp only [handleControl]
    split
    · exact send_does _ (Or.inl known)
    · exact handleStop_does known stops requestId
  | stopForce =>
    simp only [handleControl]
    split
    · exact send_does _ (Or.inl known)
    · rename_i first
      exact handleStopForce_does known stops (warns rfl (Bool.eq_false_iff.mpr first)) ..

omit known

include warns in
theorem onKillTimer_does : Does leave server (onKillTimer server) := by
  unfold onKillTimer
  dsimp only
  split
  · exact Does.same rfl
  · rename_i pid known
    exact Does.of (.signals .kill known (warns (by rw [known]; rfl)))

theorem onSignal_does (stops : leave.stops)
    (warns : server.worker.pid.isSome = true → leave.warns server.worker.exited) (answers : Answers) :
    Does leave server (onSignal server answers) := by
  have stopping : Does leave server (requestStop server false) := requestStop_does stops false
  unfold onSignal
  dsimp only
  split
  · exact stopping.trans (beginWorkerCancel_does (by exact warns) ..)
  · exact (stopping.trans (resetActiveSession_does _)).trans (eventExit_does _ 0)

/-! ## Events of a session -/

include warns in
theorem watchCancelStaleRun_does
    (answers : Answers) :
    Does leave server (watchCancelStaleRun server answers) := by
  have pending : Does leave server { server with watch.rerunPending := true } := Does.same rfl
  unfold watchCancelStaleRun
  dsimp only
  split
  · exact pending.trans (beginWorkerCancel_does (by exact warns) ..)
  · have quiet := watchSendInfof_quiet { server with watch.rerunPending := true }
      (sv "[watch] canceling stale run after newer changes\n")
    have told : Does leave server (watchSendInfof { server with watch.rerunPending := true }
        (sv "[watch] canceling stale run after newer changes\n")).2 :=
      pending.trans (watchSendInfof_does ..)
    refine told.trans (beginWorkerCancel_does ?_ ..)
    rw [quiet.worker]
    exact warns

/-- The timer starts a batch where no worker is recorded, and stops the worker where one is. -/
theorem onWatchDebounce_does (spawns : server.watch.active = true → server.worker.pid = none →
      leave.spawns server.shuttingDown)
    (warns : server.watch.active = true →
      (server.watch.changedPaths.isEmpty && !server.watch.rescanRequired) = false →
      server.worker.pid.isSome = true → leave.warns server.worker.exited)
    (registry : Registry) (answers : Answers) :
    Does leave server (onWatchDebounce registry server answers) := by
  have fired : Does leave server { server with watch.debounceSource := false } := Does.same rfl
  unfold onWatchDebounce
  split
  · exact .refl server
  · rename_i active
    have active : server.watch.active = true := by
      rw [Bool.not_eq_true', Bool.not_eq_false] at active
      exact active
    dsimp only
    split
    · exact fired
    · rename_i changes
      split
      · refine fired.trans (watchCancelStaleRun_does ?_ answers)
        exact warns active (Bool.eq_false_iff.mpr changes)
      · rename_i noWorker
        have idle : server.worker.pid = none := not_isSome_iff_eq_none.mp noWorker
        have handled : Does leave server (watchHandlePendingBatch registry
            { server with watch.debounceSource := false } answers).2 := by
          refine fired.trans (watchHandlePendingBatch_does ?_ ?_ ..)
          · exact idle
          · exact spawns active idle
        split
        · exact handled
        · exact handled.trans (watchResetSession_does _)

/-! ## Connections -/

/-- When a worker may be started: for a session that is not closing or has no worker, and else
while the daemon was not asked to stop. -/
def Server.MayRun (server : Server) : Prop :=
  if server.watch.active then server.watch.closing = false ∨ server.worker.pid = none
  else server.shuttingDown = false

/-- An idle daemon may start a worker. -/
theorem effectiveState_mayRun (idle : effectiveState server = .idle) : server.MayRun := by
  obtain ⟨running, inactive, _⟩ := effectiveState_idle idle
  unfold Server.MayRun
  rw [inactive]
  exact running

include listens known

/-- The listener admits a run while no worker is recorded. -/
theorem startForegroundRun_does (idle : server.worker.pid = none)
    (may : leave.spawns server.shuttingDown) (answers : Answers)
    (requestId : Nat) (request : RunnerRequest) :
    Does leave server (startForegroundRun server answers fd requestId request).2 := by
  have checked : Does leave server { server with telemetry := answers.preflight.2 } :=
    Does.same rfl
  unfold startForegroundRun
  dsimp only
  split
  · exact checked.trans (send_does _ (Or.inl known))
  · have attached : Does leave server { server with
        telemetry := answers.preflight.2, client := some fd } :=
      checked.trans (Does.of (.attaches fd listens))
    have acknowledged : Does leave server (send { server with
        telemetry := answers.preflight.2, client := some fd } fd (.ack requestId)).2 :=
      attached.trans (send_does _ (Or.inr rfl))
    split
    · exact acknowledged
    · have spawned : Does leave server (spawnWorker (send { server with
          telemetry := answers.preflight.2, client := some fd } fd (.ack requestId)).2
            answers request requestId).2 := by
        refine acknowledged.trans (spawnWorker_does ?_ ?_ ..)
        · exact idle
        · exact may
      split
      · exact spawned
      · exact (spawned.trans (send_does _ (Or.inl known))).trans (closeClient_does _)

theorem handleRunRequest_does (spawns : server.MayRun → leave.spawns server.shuttingDown)
    (answers : Answers)
    (requestId : Nat) (decoded : Decoded RunnerRequest) :
    Does leave server (handleRunRequest server answers fd requestId decoded).2 := by
  unfold handleRunRequest
  split
  · exact sendAdmissionError_does known requestId
  · rename_i admitted
    obtain ⟨_, _, noWorker⟩ := effectiveState_idle (not_not.mp admitted)
    have may : leave.spawns server.shuttingDown :=
      spawns (effectiveState_mayRun (not_not.mp admitted))
    cases decoded with
    | undecodable => exact send_does _ (Or.inl known)
    | refused => exact send_does _ (Or.inl known)
    | request request => exact startForegroundRun_does listens known noWorker may ..

theorem handleWatchRequest_does (spawns : server.MayRun → leave.spawns server.shuttingDown)
    (registry : Registry)
    (answers : Answers) (requestId : Nat) (decoded : Decoded WatchRequest) :
    Does leave server (handleWatchRequest registry server answers fd requestId decoded).2 := by
  unfold handleWatchRequest
  split
  · exact sendAdmissionError_does known requestId
  · rename_i admitted
    obtain ⟨running, _, noWorker⟩ := effectiveState_idle (not_not.mp admitted)
    have may : leave.spawns server.shuttingDown :=
      spawns (effectiveState_mayRun (not_not.mp admitted))
    exact watchStartSession_does listens known noWorker running may ..

/-- What a connection's request does, once it was greeted. -/
theorem handleClientRequest_does (request : ClientRequest)
    (stops : ∀ command, request = .control command → leave.stops)
    (spawns : (∀ command, request ≠ .control command) → server.MayRun →
      leave.spawns server.shuttingDown)
    (warns : request = .control .stopForce → (server.shuttingDown && server.forceStopRequested) =
      false → server.worker.pid.isSome = true → leave.warns server.worker.exited)
    (registry : Registry) (answers : Answers) (requestId : Nat) :
    Does leave server (handleClientRequest registry server answers fd requestId request).2 := by
  cases request with
  | control command =>
    refine handleControl_does known (stops command rfl) command ?_ ..
    intro force
    exact warns (by rw [force])
  | malformedControl => exact send_does _ (Or.inl known)
  | unsupported => exact send_does _ (Or.inl known)
  | run decoded => exact handleRunRequest_does listens known (spawns nofun) ..
  | watch decoded => exact handleWatchRequest_does listens known (spawns nofun) ..

omit known listens

/-- The server that has accepted and greeted a connection. -/
def greet (server : Server) (fd greetingId : Nat) : Server :=
  (send { server with log := .accepted fd :: server.log } fd (.ack greetingId)).2

/-- A connection that the server does not keep is closed. -/
def hangUp (fd : Nat) (kept : Bool) (server : Server) : Server :=
  if kept then server else { server with log := .closed fd :: server.log }

/-- The request of a connection is handled once it was greeted. -/
theorem onListener_request (greeted : server.sends.headD true = true) (registry : Registry)
    (answers : Answers) (fd greetingId requestId : Nat) (request : ClientRequest) :
    onListener registry server answers fd (.hello greetingId (some (requestId, request))) =
      hangUp fd
        (handleClientRequest registry (greet server fd greetingId) answers fd requestId request).1
        (handleClientRequest registry (greet server fd greetingId) answers fd requestId
          request).2 := by
  simp only [onListener, handleConnection, send, greeted]
  rfl

/-- A connection that cannot be greeted is closed. -/
theorem onListener_ungreeted (lost : server.sends.headD true = false) (registry : Registry)
    (answers : Answers) (fd greetingId : Nat) (request : Option (Nat × ClientRequest)) :
    onListener registry server answers fd (.hello greetingId request) =
      hangUp fd false (greet server fd greetingId) := by
  simp only [onListener, handleConnection, send, lost]
  rfl

/-- What a new connection does. -/
theorem onListener_does (listens : leave.listens) (known : leave.uses fd) (connection : Connection)
    (stops : ∀ command, connection.request = some (.control command) → leave.stops)
    (spawns : (∀ command, connection.request ≠ some (.control command)) → server.MayRun →
      leave.spawns server.shuttingDown)
    (warns : connection.request = some (.control .stopForce) → server.sends.headD true = true →
      (server.shuttingDown && server.forceStopRequested) = false → server.worker.pid.isSome = true →
      leave.warns server.worker.exited)
    (registry : Registry) (answers : Answers) :
    Does leave server (onListener registry server answers fd connection) := by
  have accepted : Does leave server { server with log := .accepted fd :: server.log } :=
    Does.of (.accepts fd listens)
  have handled : Does leave server (handleConnection registry
      { server with log := .accepted fd :: server.log } answers fd connection).2 := by
    cases connection with
    | unusable => exact accepted
    | noHello requestId => exact accepted.trans (send_does _ (Or.inl known))
    | hello greetingId request =>
      have greeted : Does leave server (send { server with log := .accepted fd :: server.log } fd
          (.ack greetingId)).2 := accepted.trans (send_does _ (Or.inl known))
      simp only [handleConnection]
      split
      · rename_i requestId request sent
        refine greeted.trans (handleClientRequest_does listens known request ?_ ?_ ?_ ..)
        · intro command control
          exact stops command (by rw [control]; rfl)
        · intro other may
          refine spawns ?_ may
          intro command control
          exact other command (some.inj control)
        · intro force
          exact warns (by rw [force]; rfl) sent
      · exact greeted
  simp only [onListener]
  split
  · exact handled
  · exact handled.trans (Does.of (.hangsUp fd listens))

/-! ## Events -/

/-- The event is a control request or a signal, which may ask the daemon to stop. -/
def Event.isControl : Event → Bool
  | .listener _ connection =>
    match connection.request with
    | some (.control _) => true
    | _ => false
  | .signal => true
  | _ => false

/-- The handler signals a worker that is recorded: at the kill timer, at a signal, at a first
`STOP_FORCE`, and at newer changes of a session. -/
def Step.warnsWorker (next : Step) (server : Server) : Bool :=
  match next.event with
  | .killTimer => true
  | .signal => true
  | .listener _ connection =>
    match connection.request with
    | some (.control .stopForce) =>
      next.answers.sends.headD true && !(server.shuttingDown && server.forceStopRequested)
    | _ => false
  | .watchDebounce =>
    server.watch.active && !(server.watch.changedPaths.isEmpty && !server.watch.rescanRequired)
  | _ => false

/-- What has to be allowed when the event of a turn arrives. -/
structure Permits (leave : Leave) (next : Step) (server : Server) : Prop where
  listens : ∀ fd connection, next.event = .listener fd connection → leave.listens ∧ leave.uses fd :=
    by exact fun _ _ _ => ⟨trivial, trivial⟩
  stops : next.event.isControl = true → leave.stops := by exact fun _ => trivial
  spawns : next.event.isControl = false → server.MayRun → leave.spawns server.shuttingDown :=
    by exact fun _ _ => trivial
  warns : next.warnsWorker server = true → server.worker.pid.isSome = true →
    leave.warns server.worker.exited := by exact fun _ _ => trivial
  lost : next.event = .workerPidfd .failed → leave.loses := by exact fun _ => trivial
  ends : (workerEvent server next.event).isSome = true → leave.ends := by exact fun _ => trivial

/-- What the handler of an event does. -/
theorem handle_does (registry : Registry) (next : Step) (sends : server.sends = next.answers.sends)
    (registered : next.event.registered server = true) (permits : Permits leave next server) :
    Does leave server (handle registry server next.answers next.event) := by
  obtain ⟨listens, stops, spawns, warns, lost, ends⟩ := permits
  obtain ⟨event, answers⟩ := next
  dsimp only at sends registered listens stops spawns lost ends ⊢
  have goesOn : event.isControl = false → server.watch.active = true →
      server.watch.closing = false → leave.spawns server.shuttingDown := by
    intro other active going
    refine spawns other ?_
    unfold Server.MayRun
    rw [if_pos active]
    exact Or.inl going
  cases event with
  | listener fd connection =>
    obtain ⟨mayListen, mayUse⟩ := listens fd connection rfl
    refine onListener_does mayListen mayUse connection ?_ ?_ ?_ registry answers
    · intro command control
      refine stops ?_
      simp only [Event.isControl, control]
    · intro other
      refine spawns ?_
      unfold Event.isControl
      dsimp only
      split
      · rename_i command control
        exact absurd control (other command)
      · rfl
    · intro force greeted first
      refine warns ?_
      simp only [Step.warnsWorker, force, ← sends, greeted, first]
      rfl
  | workerPipe stream read =>
    cases read with
    | bytes data => exact forwardOutput_does ..
    | interrupted => exact .refl server
    | ended => exact onWorkerPipe_ended_does (ends rfl) (goesOn rfl) ..
  | workerPidfd status =>
    refine onWorkerPidfd_does (ends rfl) registered (goesOn rfl) registry answers ?_
    intro failed
    exact lost (by rw [failed])
  | killTimer => exact onKillTimer_does (warns rfl)
  | signal => exact onSignal_does (stops rfl) (warns rfl) answers
  | watchClient hangup =>
    simp only [handle, onWatchClient]
    split
    · exact watchDetachClient_does server
    · exact .refl server
  | watchDebounce =>
    refine onWatchDebounce_does ?_ ?_ registry answers
    · intro active idle
      refine spawns rfl ?_
      unfold Server.MayRun
      rw [if_pos active]
      exact Or.inr idle
    · intro active changes
      refine warns ?_
      unfold Step.warnsWorker
      rw [active, changes]
      rfl
  | watchInotify events readFailed => exact (onWatchInotify_noted ..).does

end Walk

end Nobify.Daemon
