import Nobify.Daemon.Deeds
import Nobify.Daemon.Shutdown
import Nobify.Daemon.Changes

/-!
# The worker process

The processes that were started and not reaped are read off the log. In a run in which no stop
request leaves a session behind, there is at most the worker that the server records, and none is
started once the daemon is stopping; `daemon_teardown` leaves none. In a run in which the worker is
not signalled between its exit and the end of its run, every signal goes to a process that was not
reaped.
-/

namespace Nobify.Daemon

open Lib
open Option (any_some map_some)
open List Option

variable {act : Act} {log : List Act} {pids : List Nat} {next view : View} {leave : Leave}

/-! ## Processes of a log -/

/-- The processes that were started and not reaped, latest first, after a log with its newest action
first; `none` when one was reaped that was not among them. -/
def unreaped : List Act → Option (List Nat)
  | [] => some []
  | .spawned pid _ :: older => (unreaped older).map (pid :: ·)
  | .reaped pid :: older =>
    (unreaped older).bind fun pids => if pid ∈ pids then some (pids.erase pid) else none
  | _ :: older => unreaped older

/-- At every moment of the log at most one process was not reaped. -/
def oneAtATime : List Act → Bool
  | [] => true
  | act :: older =>
    (unreaped (act :: older)).any (fun pids => pids.length ≤ 1) && oneAtATime older

/-- Every signal went to a process that was started before and not reaped. -/
def signalsLive : List Act → Bool
  | [] => true
  | .signalled pid _ :: older =>
    (unreaped older).any (fun pids => pids.contains pid) && signalsLive older
  | _ :: older => signalsLive older

/-- The processes that were started. -/
def started (log : List Act) : List Nat :=
  log.filterMap fun
    | .spawned pid _ => some pid
    | _ => none

/-- An action that uses no process changes none. -/
theorem unreaped_note (plain : act.isNote = true) (log : List Act) :
    unreaped (act :: log) = unreaped log := by
  cases act with
  | finished _ | sessionStarted | recorded _ => rfl
  | accepted _ | sent _ _ | closed _ | spawned _ _ | signalled _ _ | reaped _ => cases plain

theorem signalsLive_note (plain : act.isNote = true) (log : List Act) :
    signalsLive (act :: log) = signalsLive log := by
  cases act with
  | finished _ | sessionStarted | recorded _ => rfl
  | accepted _ | sent _ _ | closed _ | spawned _ _ | signalled _ _ | reaped _ => cases plain

theorem started_note (plain : act.isNote = true) (log : List Act) :
    started (act :: log) = started log := by
  cases act with
  | finished _ | sessionStarted | recorded _ => rfl
  | accepted _ | sent _ _ | closed _ | spawned _ _ | signalled _ _ | reaped _ => cases plain

/-- Reaping a process that was started. -/
theorem unreaped_reaped {pid : Nat} (known : unreaped log = some pids) (mem : pid ∈ pids) :
    unreaped (.reaped pid :: log) = some (pids.erase pid) := by
  simp only [unreaped, known, bind_some, if_pos mem]

/-- A process that is started, killed and reaped changes nothing. -/
theorem unreaped_inVain (known : unreaped log = some pids) (pid : Nat) (request : RunnerRequest) :
    unreaped (.reaped pid :: .signalled pid .kill :: .spawned pid request :: log) = some pids := by
  have spawned : unreaped (.signalled pid .kill :: .spawned pid request :: log) =
      some (pid :: pids) := by
    simp only [unreaped, known, map_some]
  rw [unreaped_reaped spawned mem_cons_self, erase_cons_head]

/-! ## One worker -/

/-- The worker that the server records and has not seen exit is the one process that was not
reaped. -/
structure WorkerKept (view : View) : Prop where
  single : oneAtATime view.log = true
  left : unreaped view.log = some (if view.exited then [] else view.pid.toList)
  running : view.watched = true → view.exited = false

namespace WorkerKept

/-- Without a worker there is no process. -/
theorem none_left (kept : WorkerKept view) (idle : view.pid = none) :
    unreaped view.log = some [] := by
  rw [kept.left, idle]
  cases view.exited <;> rfl

/-- An action that leaves at most one process. -/
theorem single_cons (kept : WorkerKept view) (left : unreaped (act :: view.log) = some pids)
    (few : pids.length ≤ 1) : oneAtATime (act :: view.log) = true := by
  unfold oneAtATime
  rw [left, kept.single]
  simp only [any_some, few, decide_true, Bool.and_self]

/-- An action that changes no process. -/
theorem single_same (kept : WorkerKept view) (same : unreaped (act :: view.log) = unreaped view.log)
    : oneAtATime (act :: view.log) = true := by
  apply kept.single_cons (same.trans kept.left)
  cases view.exited with
  | true => exact Nat.zero_le 1
  | false =>
    cases view.pid with
    | none => exact Nat.zero_le 1
    | some pid => exact Nat.le_refl 1

/-- Every deed keeps it, unless an exit is lost. -/
theorem deed (sure : ¬ leave.loses) (deed : Deed leave view next) (kept : WorkerKept view) :
    WorkerKept next := by
  cases deed with
  | sends message _ => exact ⟨kept.single_same rfl, kept.left, kept.running⟩
  | drops _ => exact ⟨kept.single_same rfl, kept.left, kept.running⟩
  | notes plain =>
    have same := unreaped_note plain view.log
    exact ⟨kept.single_same same, same.trans kept.left, kept.running⟩
  | accepts _ _ => exact ⟨kept.single_same rfl, kept.left, kept.running⟩
  | hangsUp _ _ => exact ⟨kept.single_same rfl, kept.left, kept.running⟩
  | attaches _ _ => exact ⟨kept.single, kept.left, kept.running⟩
  | opens _ _ _ => exact ⟨kept.single, kept.left, kept.running⟩
  | marksClosing => exact ⟨kept.single, kept.left, kept.running⟩
  | stops _ => exact ⟨kept.single, kept.left, kept.running⟩
  | endsSession _ => exact ⟨kept.single, kept.left, kept.running⟩
  | signals _ _ _ => exact ⟨kept.single_same rfl, kept.left, kept.running⟩
  | starts pid request idle _ =>
    have spawned : unreaped (.spawned pid request :: view.log) = some [pid] := by
      simp only [unreaped, kept.none_left idle, map_some]
    exact ⟨kept.single_cons spawned (Nat.le_refl 1), spawned, fun _ => rfl⟩
  | startsInVain pid request exited idle _ =>
    have spawned : unreaped (.spawned pid request :: view.log) = some [pid] := by
      simp only [unreaped, kept.none_left idle, map_some]
    have ended := unreaped_inVain (kept.none_left idle) pid request
    refine ⟨?_, ?_, nofun⟩
    · simp only [oneAtATime, ended, spawned, kept.single]
      simp only [unreaped, kept.none_left idle]
      rfl
    · rw [ended]
      cases exited <;> rfl
  | unwatches idle => exact ⟨kept.single, kept.left, nofun⟩
  | @reaps pid known watched =>
    have here : unreaped view.log = some [pid] := by
      rw [kept.left, kept.running watched, known]
      rfl
    have reaped : unreaped (.reaped pid :: view.log) = some [] := by
      rw [unreaped_reaped here mem_cons_self, erase_cons_head]
    exact ⟨kept.single_cons reaped (Nat.zero_le 1), reaped, nofun⟩
  | loses lost => exact ⟨kept.single, kept.none_left (lost.resolve_left sure), nofun⟩
  | endsWorker _ exited _ =>
    refine ⟨kept.single, ?_, nofun⟩
    rw [kept.left, exited]
    rfl

end WorkerKept

/-! ## Signals -/

/-- A worker whose exit was not handled was not reaped, and all signals were sent to such. -/
structure WorkerLive (view : View) : Prop where
  live : signalsLive view.log = true
  left : ∃ pids, unreaped view.log = some pids ∧
    (view.exited = false → ∀ pid, view.pid = some pid → pid ∈ pids)
  running : view.watched = true → view.exited = false

/-- A signal to a process that was not reaped. -/
theorem signalsLive_signalled {pid : Nat} (known : unreaped log = some pids) (mem : pid ∈ pids)
    (signal : Signal) : signalsLive (.signalled pid signal :: log) = signalsLive log := by
  have here : pids.contains pid = true := contains_iff_mem.mpr mem
  simp only [signalsLive, known, any_some, here, Bool.true_and]

/-- Every deed keeps it, if no worker is signalled whose exit was handled. -/
theorem WorkerLive.deed (careful : ∀ exited, leave.warns exited → exited = false)
    (deed : Deed leave view next) (kept : WorkerLive view) : WorkerLive next := by
  obtain ⟨live, ⟨pids, known, mem⟩, running⟩ := kept
  cases deed with
  | sends message _ => exact ⟨live, ⟨pids, known, mem⟩, running⟩
  | drops _ => exact ⟨live, ⟨pids, known, mem⟩, running⟩
  | notes plain =>
    exact ⟨(signalsLive_note plain _).trans live,
      ⟨pids, (unreaped_note plain _).trans known, mem⟩, running⟩
  | accepts _ _ => exact ⟨live, ⟨pids, known, mem⟩, running⟩
  | hangsUp _ _ => exact ⟨live, ⟨pids, known, mem⟩, running⟩
  | attaches _ _ => exact ⟨live, ⟨pids, known, mem⟩, running⟩
  | opens _ _ _ => exact ⟨live, ⟨pids, known, mem⟩, running⟩
  | marksClosing => exact ⟨live, ⟨pids, known, mem⟩, running⟩
  | stops _ => exact ⟨live, ⟨pids, known, mem⟩, running⟩
  | endsSession _ => exact ⟨live, ⟨pids, known, mem⟩, running⟩
  | @signals pid signal here may =>
    have present := mem (careful _ may) pid here
    exact ⟨(signalsLive_signalled known present signal).trans live, ⟨pids, known, mem⟩, running⟩
  | starts pid request idle _ =>
    have spawned : unreaped (.spawned pid request :: view.log) = some (pid :: pids) := by
      simp only [unreaped, known, map_some]
    refine ⟨live, ⟨pid :: pids, spawned, ?_⟩, fun _ => rfl⟩
    intro _ other same
    rw [some.inj same]
    exact mem_cons_self
  | startsInVain pid request exited idle _ =>
    have spawned : unreaped (.spawned pid request :: view.log) = some (pid :: pids) := by
      simp only [unreaped, known, map_some]
    exact ⟨(signalsLive_signalled spawned mem_cons_self .kill).trans live,
      ⟨pids, unreaped_inVain known pid request, nofun⟩, nofun⟩
  | unwatches idle => exact ⟨live, ⟨pids, known, mem⟩, nofun⟩
  | @reaps pid here watched =>
    have present := mem (running watched) pid here
    exact ⟨live, ⟨pids.erase pid, unreaped_reaped known present, nofun⟩, nofun⟩
  | loses lost => exact ⟨live, ⟨pids, known, nofun⟩, nofun⟩
  | endsWorker _ exited _ => exact ⟨live, ⟨pids, known, nofun⟩, nofun⟩

/-! ## Sessions of a stopping daemon -/

/-- A daemon that was asked to stop; a session that is left is closing and waits for its worker. -/
structure Draining (view : View) : Prop where
  stopping : view.shuttingDown = true
  session : view.active = true → view.closing = true ∧ view.pid.isSome = true

/-- Deeds that do not forget the worker keep it so. -/
theorem Draining.deed (keeps : ¬ leave.ends) (deed : Deed leave view next)
    (draining : Draining view) : Draining next := by
  obtain ⟨stopping, session⟩ := draining
  cases deed with
  | sends message _ => exact ⟨stopping, session⟩
  | drops _ => exact ⟨stopping, session⟩
  | notes plain => exact ⟨stopping, session⟩
  | accepts _ _ => exact ⟨stopping, session⟩
  | hangsUp _ _ => exact ⟨stopping, session⟩
  | attaches _ _ => exact ⟨stopping, session⟩
  | opens _ _ running =>
    rw [stopping] at running
    cases running
  | marksClosing => exact ⟨stopping, fun active => ⟨rfl, (session active).2⟩⟩
  | stops _ =>
    refine ⟨rfl, ?_⟩
    intro active
    obtain ⟨closing, recorded⟩ := session active
    exact ⟨Bool.or_eq_true_iff.mpr (Or.inl closing), recorded⟩
  | endsSession _ => exact ⟨stopping, nofun⟩
  | signals _ _ _ => exact ⟨stopping, session⟩
  | starts pid request idle _ =>
    exact ⟨stopping, fun active => ⟨(session active).1, rfl⟩⟩
  | startsInVain pid request exited idle _ =>
    refine ⟨stopping, ?_⟩
    intro active
    have recorded := (session active).2
    rw [idle] at recorded
    cases recorded
  | unwatches idle => exact ⟨stopping, session⟩
  | reaps known watched => exact ⟨stopping, session⟩
  | loses lost => exact ⟨stopping, session⟩
  | endsWorker ends _ _ => exact absurd ends keeps

/-- If the daemon was asked to stop, a session that is left is closing and waits for its worker. -/
def Drains (server : Server) : Prop := server.shuttingDown = true → Draining server.view

namespace Drains

variable {server : Server}

theorem ofRunning (running : server.shuttingDown = false) : Drains server := by
  intro stopping
  rw [running] at stopping
  cases stopping

theorem ofInactive (inactive : server.watch.active = false) : Drains server := by
  intro stopping
  refine ⟨stopping, ?_⟩
  intro active
  have active : server.watch.active = true := active
  rw [inactive] at active
  cases active

end Drains

/-- Everything is permitted but forgetting the worker. -/
def Leave.keepsWorker : Leave where
  uses _ := True
  listens := True
  stops := True
  spawns _ := True
  warns _ := True
  loses := True
  ends := False

/-- A daemon that is stopping stays so. -/
theorem Draining.does {before after : Server} (draining : Draining before.view)
    (does : Does .keepsWorker before after) : Drains after :=
  fun _ => does.keeps (fun _ _ => Draining.deed id) draining

/-- After a stop request with a worker the rest of the handler keeps the session waiting. -/
theorem requestStop_draining {server : Server} (recorded : server.worker.pid.isSome = true)
    (force : Bool) : Draining (requestStop server force).view := by
  refine ⟨rfl, ?_⟩
  intro active
  exact ⟨requestStop_closing server force active, recorded⟩

theorem onSignal_drains (server : Server) (answers : Answers) :
    Drains (onSignal server answers) := by
  unfold onSignal
  dsimp only
  split
  · rename_i recorded
    have draining := @requestStop_draining server recorded false
    exact draining.does (beginWorkerCancel_does (fun _ => trivial) ..)
  · exact .ofInactive (resetActiveSession_inactive _)

theorem handleStop_drains {server : Server} (fd requestId : Nat)
    (answered : server.watch.active = true → server.worker.pid = none →
      server.sends.headD true = true) : Drains (handleStop server fd requestId).2 := by
  unfold handleStop
  dsimp only
  generalize (if (requestStop server false).worker.pid.isSome ||
    (requestStop server false).watch.active then sv "draining" else sv "stopping") = summary
  have told : Does .keepsWorker (requestStop server false)
      (sendStatusResult (requestStop server false) fd requestId summary).2 :=
    send_does _ (Or.inl trivial)
  cases recorded : server.worker.pid with
  | some pid =>
    have waits : server.worker.pid.isSome = true := by rw [recorded]; rfl
    have draining := requestStop_draining waits false
    split
    · exact draining.does told
    · split
      · exact draining.does told
      · rename_i idle
        exact absurd waits idle
  | none =>
    split
    · rename_i unsent
      apply Drains.ofInactive
      show server.watch.active = false
      rw [← Bool.not_eq_true]
      intro active
      have sent : server.sends.headD true = true := answered active recorded
      have unsent : (!server.sends.headD true) = true := unsent
      rw [sent] at unsent
      cases unsent
    · split
      · rename_i waits
        have waits : server.worker.pid.isSome = true := waits
        rw [recorded] at waits
        cases waits
      · exact .ofInactive (resetActiveSession_inactive _)

theorem handleStopForce_drains (server : Server) (answers : Answers) (fd requestId : Nat) :
    Drains (handleStopForce server answers fd requestId).2 := by
  unfold handleStopForce
  dsimp only
  split
  · rename_i recorded
    have draining := @requestStop_draining server recorded true
    have cancelled : Does .keepsWorker (requestStop server true)
        (beginWorkerCancel (requestStop server true) answers
          (requestStop server true).watch.active (requestStop server true).watch.active).2 :=
      beginWorkerCancel_does (fun _ => trivial) ..
    split
    · exact draining.does (cancelled.trans (send_does _ (Or.inl trivial)))
    · exact draining.does (cancelled.trans (send_does _ (Or.inl trivial)))
  · have inactive := resetActiveSession_inactive (requestStop server true)
    split
    · exact .ofInactive inactive
    · exact .ofInactive inactive

/-- A control request keeps no session without a worker, if a first `STOP` is answered. -/
theorem handleControl_drains {server : Server} (running : server.shuttingDown = false)
    (answers : Answers) (fd requestId : Nat) (command : ControlCommand)
    (answered : command = .stop → server.watch.active = true → server.worker.pid = none →
      server.sends.headD true = true) :
    Drains (handleControl server answers fd requestId command).2 := by
  cases command with
  | ping => exact .ofRunning running
  | status => exact .ofRunning running
  | unknown => exact .ofRunning running
  | stop =>
    simp only [handleControl, running]
    exact handleStop_drains fd requestId (answered rfl)
  | stopForce =>
    simp only [handleControl, running, Bool.false_and, Bool.false_eq_true, if_false]
    exact handleStopForce_drains server answers fd requestId

/-! ## The end of a run of a stopping daemon -/

/-- There is no session after it is reset. -/
theorem watchResetSession_inactive (server : Server) :
    (watchResetSession server).watch.active = false := by
  rw [watchResetSession_watch]
  rfl

/-- A session that is closing ends with its run. -/
theorem watchContinue_closing {server : Server} (closing : server.watch.closing = true)
    (registry : Registry) (answers : Answers) (ok : Bool) :
    (watchContinue registry server answers ok).2.watch.active = false := by
  have reset := watchResetSession_inactive server
  unfold watchContinue
  dsimp only
  rw [if_pos (by rw [closing, Bool.or_true])]
  split
  · exact reset
  · exact reset

/-- When the run of a session that is closing is over, so is the session. -/
theorem finishActiveRun_closing {server : Server} (active : server.watch.active = true)
    (closing : server.watch.closing = true) (registry : Registry) (answers : Answers) :
    (finishActiveRun registry server answers).2 = server ∨
      (finishActiveRun registry server answers).2.watch.active = false := by
  unfold finishActiveRun
  split
  · exact Or.inl rfl
  · right
    split
    · have quiet := watchSendInfof_quiet server
        (sv "[watch] stale run aborted after newer changes\n")
      unfold finishCancelledRun
      dsimp only
      revert quiet
      generalize watchSendInfof server _ = told
      intro quiet
      have marked : told.2.watch.closing = true := quiet.closing.trans closing
      rw [resetWorkerState_watch, if_pos marked]
      generalize resetWorkerState _ _ = reset
      split
      · exact watchResetSession_inactive _
      · dsimp only
        split
        · exact watchResetSession_inactive reset
        · exact watchResetSession_inactive reset
    · rcases finishCompletedRun_cases registry server answers with
        ⟨_, told, quiet, same⟩ | ⟨_, _, ended⟩
      · have sentQuiet := sendRunResult_quiet told answers
          (runnerResult server.worker answers) server.client.isSome
        have marked := (sentQuiet.closing.trans quiet.closing).trans closing
        rw [same]
        unfold finishReportedRun
        dsimp only
        rw [if_pos active]
        apply watchContinue_closing
        rw [resetWorkerState_watch]
        exact marked
      · exact ended

/-- No deed opens a session of a daemon that was asked to stop. -/
theorem Deed.stopped (deed : Deed leave view next)
    (stopped : view.shuttingDown = true ∧ view.active = false) :
    next.shuttingDown = true ∧ next.active = false := by
  cases deed with
  | opens _ _ running =>
    rw [stopped.1] at running
    cases running
  | stops _ => exact ⟨rfl, stopped.2⟩
  | endsSession _ => exact ⟨stopped.1, rfl⟩
  | _ => exact stopped

/-- Everything is permitted but stopping the daemon. -/
def Leave.calm : Leave where
  uses _ := True
  listens := True
  stops := False
  spawns _ := True
  warns _ := True
  loses := True
  ends := True

/-- After an event of the worker a session is over or waits for the worker. -/
theorem afterWorkerEvent_drains {server : Server} (drains : Drains server) (registry : Registry)
    (answers : Answers) : Drains (afterWorkerEvent registry server answers) := by
  have does : Does .calm server (afterWorkerEvent registry server answers) :=
    afterWorkerEvent_does trivial (fun _ _ => trivial) ..
  cases stopping : server.shuttingDown with
  | false => exact .ofRunning ((does.shuttingDown id).trans stopping)
  | true =>
    cases active : server.watch.active with
    | false =>
      have stopped := does.keeps (fun _ _ deed => deed.stopped) ⟨stopping, active⟩
      exact .ofInactive stopped.2
    | true =>
      have closing := ((drains stopping).session active).1
      unfold afterWorkerEvent
      dsimp only
      split
      · exact .ofInactive (watchResetSession_inactive _)
      · rcases finishActiveRun_closing active closing registry answers with same | ended
        · rw [same]
          exact drains
        · exact .ofInactive ended

/-! ## Turns -/

/-- A first `STOP` that finds a session without a worker is answered, or not read at all. Without
the answer the session would stay. -/
def stopEndsSession (next : Step) (server : Server) : Bool :=
  match next.event with
  | .listener _ connection =>
    match connection.request with
    | some (.control .stop) =>
      server.shuttingDown || !server.watch.active || server.worker.pid.isSome ||
        !next.answers.sends.headD true || next.answers.sends.tail.headD true
    | _ => true
  | _ => true

/-- What a new connection that makes a control request leaves. -/
theorem onListener_control_drains {server : Server} (running : server.shuttingDown = false)
    (registry : Registry) (answers : Answers) (fd : Nat) {connection : Connection}
    {command : ControlCommand} (control : connection.request = some (.control command))
    (answered : command = .stop → server.watch.active = true → server.worker.pid = none →
      server.sends.headD true = true → server.sends.tail.headD true = true) :
    Drains (onListener registry server answers fd connection) := by
  cases connection with
  | unusable => cases control
  | noHello requestId => cases control
  | hello greetingId request =>
    cases request with
    | none => cases control
    | some asked =>
      obtain ⟨requestId, request⟩ := asked
      obtain rfl : request = .control command := some.inj control
      cases greeted : server.sends.headD true with
      | false =>
        rw [onListener_ungreeted greeted]
        exact .ofRunning running
      | true =>
        rw [onListener_request greeted]
        have handled : Drains (handleControl (greet server fd greetingId) answers fd requestId
            command).2 := by
          apply handleControl_drains
          · exact running
          · intro stop active idle
            exact answered stop active idle greeted
        intro stopping
        obtain ⟨_, session⟩ := handled stopping
        exact ⟨stopping, session⟩

/-- A turn leaves no session without a worker to a daemon that is stopping. -/
theorem turn_drains (registry : Registry) (next : Step) (server : Server)
    (ends : stopEndsSession next server = true) (drains : Drains server) :
    Drains (turn registry next server) := by
  cases occurs : next.occurs server with
  | false =>
    rw [turn_idle occurs]
    exact drains
  | true =>
    rw [turn_occurs occurs]
    obtain ⟨registered, _⟩ := occurs_registered occurs
    have started : Drains (next.start server) := drains
    cases worker : workerEvent (next.start server) next.event with
    | some marked =>
      rw [handle_workerEvent worker]
      apply afterWorkerEvent_drains
      obtain ⟨flag, _, pid, watch⟩ := workerEvent_same worker
      intro stopping
      obtain ⟨_, session⟩ := started (flag.symm.trans stopping)
      refine ⟨stopping, ?_⟩
      show marked.watch.active = true →
        marked.watch.closing = true ∧ marked.worker.pid.isSome = true
      rw [watch, pid]
      exact session
    | none =>
      cases stopping : server.shuttingDown with
      | true =>
        have draining : Draining (next.start server).view := drains stopping
        refine draining.does (handle_does registry next rfl registered { ends := ?_ })
        rw [worker]
        exact nofun
      | false =>
        cases control : next.event.isControl with
        | false =>
          have does : Does .calm (next.start server)
              (handle registry (next.start server) next.answers next.event) := by
            refine handle_does registry next rfl registered { stops := ?_ }
            rw [control]
            exact nofun
          exact .ofRunning ((does.shuttingDown id).trans stopping)
        | true =>
          obtain ⟨event, answers⟩ := next
          cases event with
          | signal => exact onSignal_drains _ answers
          | listener fd connection =>
            unfold Event.isControl at control
            dsimp only at control
            split at control
            · rename_i command asks
              have answered : command = .stop → server.watch.active = true →
                  server.worker.pid = none → answers.sends.headD true = true →
                    answers.sends.tail.headD true = true := by
                intro stop active idle greeted
                rw [stop] at asks
                simp only [stopEndsSession, asks, stopping, active, idle, greeted] at ends
                exact ends
              have running : (Step.start ⟨.listener fd connection, answers⟩ server).shuttingDown =
                  false := stopping
              exact onListener_control_drains running registry answers fd asks answered
            · cases control
          | workerPipe stream read => cases control
          | workerPidfd status => cases control
          | killTimer => cases control
          | watchClient hangup => cases control
          | watchDebounce => cases control
          | watchInotify events readFailed => cases control

/-- The exit of a worker is reaped: `waitpid` does not fail. -/
def reapsExit (next : Step) : Bool :=
  match next.event with
  | .workerPidfd .failed => false
  | _ => true

theorem turn_workerKept (registry : Registry) (next : Step) (server : Server)
    (sure : reapsExit next = true) (kept : WorkerKept server.view) :
    WorkerKept (turn registry next server).view := by
  cases occurs : next.occurs server with
  | false =>
    rw [turn_idle occurs]
    exact kept
  | true =>
    rw [turn_occurs occurs]
    obtain ⟨registered, _⟩ := occurs_registered occurs
    have does : Does { Leave.keepsWorker with loses := False, ends := True } (next.start server)
        (handle registry (next.start server) next.answers next.event) := by
      refine handle_does registry next rfl registered { lost := ?_ }
      intro failed
      unfold reapsExit at sure
      rw [failed] at sure
      cases sure
    exact does.keeps (fun _ _ => WorkerKept.deed id) kept

/-- Where nothing may be started nothing is. -/
theorem Deed.started (deed : Deed leave view next) (none : ¬ leave.spawns view.shuttingDown) :
    started next.log = started view.log := by
  cases deed with
  | starts _ _ _ may => exact absurd may none
  | startsInVain _ _ _ _ may => exact absurd may none
  | notes plain => exact started_note plain _
  | _ => rfl

/-- Only control requests may stop the daemon, and only other events may start a worker, and not
when the daemon is stopping. -/
def Leave.draining (control : Bool) : Leave where
  uses _ := True
  listens := True
  stops := control = true
  spawns flag := control = false ∧ flag = false
  warns _ := True
  loses := True
  ends := True

/-- A turn after which the daemon is stopping starts no worker. -/
theorem turn_started (registry : Registry) (next : Step) (server : Server)
    (drains : Drains server) (stopping : (turn registry next server).shuttingDown = true) :
    started (turn registry next server).log = started server.log := by
  cases occurs : next.occurs server with
  | false => rw [turn_idle occurs]
  | true =>
    rw [turn_occurs occurs] at stopping ⊢
    obtain ⟨registered, _⟩ := occurs_registered occurs
    have does : Does (.draining next.event.isControl) (next.start server)
        (handle registry (next.start server) next.answers next.event) := by
      refine handle_does registry next rfl registered { stops := id, spawns := ?_ }
      intro other may
      refine ⟨other, ?_⟩
      unfold Server.MayRun at may
      rw [← Bool.not_eq_true]
      intro asked
      obtain ⟨_, session⟩ := drains asked
      split at may
      · rename_i active
        obtain ⟨closing, recorded⟩ := session active
        rcases may with going | idle
        · have going : server.watch.closing = false := going
          have closing : server.watch.closing = true := closing
          rw [closing] at going
          cases going
        · have idle : server.worker.pid = none := idle
          have recorded : server.worker.pid.isSome = true := recorded
          rw [idle] at recorded
          cases recorded
      · have may : server.shuttingDown = false := may
        have asked : server.shuttingDown = true := asked
        rw [asked] at may
        cases may
    -- A control request starts nothing; any other event leaves the flag, and starts nothing under it.
    cases control : next.event.isControl with
    | true =>
      rw [control] at does
      have each : ∀ view after, Deed (.draining true) view after →
          started view.log = started server.log → started after.log = started server.log :=
        fun _ _ deed same => (deed.started fun may => Bool.noConfusion may.1).trans same
      exact does.keeps each rfl
    | false =>
      rw [control] at does
      have asked : server.shuttingDown = true := (does.shuttingDown Bool.false_ne_true).symm.trans stopping
      have each : ∀ view after, Deed (.draining false) view after →
          view.shuttingDown = true ∧ started view.log = started server.log →
            after.shuttingDown = true ∧ started after.log = started server.log := by
        intro view after deed ⟨flag, same⟩
        have kept : started after.log = started view.log := by
          apply deed.started
          rw [flag]
          exact fun may => Bool.noConfusion may.2
        exact ⟨(deed.shuttingDown Bool.false_ne_true).trans flag, kept.trans same⟩
      exact (does.keeps each ⟨asked, rfl⟩).2

/-! ## Teardown -/

/-- The resets of `daemon_teardown` close the client and do nothing else to the world. -/
theorem reset_log (server : Server) :
    (watchResetSession (resetWorkerState server true)).log = (closeClient server).log := by
  cases client : server.client with
  | none => simp [watchResetSession, resetWorkerState, closeClient, clearBufferedWorkerOutput,
      client, Worker.reset, Worker.initial]
  | some fd => simp [watchResetSession, resetWorkerState, closeClient, clearBufferedWorkerOutput,
      client, Worker.reset, Worker.initial]

theorem closeClient_unreaped (server : Server) :
    unreaped (closeClient server).log = unreaped server.log := by
  unfold closeClient
  split
  · rfl
  · rfl

theorem closeClient_signalsLive (server : Server) :
    signalsLive (closeClient server).log = signalsLive server.log := by
  unfold closeClient
  split
  · rfl
  · rfl

/-- `daemon_teardown` leaves no process behind. -/
theorem teardown_unreaped {server : Server} (kept : WorkerKept server.view) :
    unreaped (teardown server).log = some [] := by
  have left : unreaped server.log =
      some (if server.worker.exited then [] else server.worker.pid.toList) := kept.left
  unfold teardown
  dsimp only
  rw [reset_log, closeClient_unreaped]
  split
  · rename_i idle
    exact kept.none_left idle
  · rename_i pid known
    split
    · rename_i exited
      rw [left, exited]
      rfl
    · rename_i running
      rw [known, if_neg running] at left
      have killed : unreaped (.signalled pid .kill :: server.log) = some [pid] := left
      show unreaped (.reaped pid :: .signalled pid .kill :: server.log) = some []
      rw [unreaped_reaped killed mem_cons_self, erase_cons_head]

/-- `daemon_teardown` signals no process that was reaped. -/
theorem teardown_signalsLive {server : Server} (kept : WorkerLive server.view) :
    signalsLive (teardown server).log = true := by
  obtain ⟨live, ⟨pids, known, mem⟩, _⟩ := kept
  unfold teardown
  dsimp only
  rw [reset_log, closeClient_signalsLive]
  split
  · exact live
  · rename_i pid here
    split
    · exact live
    · rename_i running
      have present := mem (Bool.eq_false_iff.mpr running) pid here
      exact (signalsLive_signalled known present .kill).trans live

/-! ## Runs -/

/-- What holds of the worker processes between two turns. Every process is reaped at most once
before, and exactly once when `daemon_teardown` ends the daemon here. -/
structure OneWorker (server : Server) : Prop where
  single : oneAtATime server.log = true
  recorded : ∃ pids, unreaped server.log = some pids ∧
    ∀ pid, pid ∈ pids ↔ server.worker.pid = some pid ∧ server.worker.exited = false
  ended : unreaped (teardown server).log = some []
  runAdmitted : ∀ sends answers fd greetingId requestId decoded,
    handleRunRequest (greet { server with sends := sends } fd greetingId) answers fd requestId
        decoded ≠
      sendAdmissionError (greet { server with sends := sends } fd greetingId) fd requestId →
    unreaped server.log = some [] ∧ server.worker.pid = none ∧ server.watch.active = false
  watchAdmitted : ∀ registry sends answers fd greetingId requestId decoded,
    handleWatchRequest registry (greet { server with sends := sends } fd greetingId) answers fd
        requestId decoded ≠
      sendAdmissionError (greet { server with sends := sends } fd greetingId) fd requestId →
    unreaped server.log = some [] ∧ server.worker.pid = none ∧ server.watch.active = false

/-- The worker that is kept is the one process. -/
theorem WorkerKept.oneWorker {server : Server} (kept : WorkerKept server.view) :
    OneWorker server := by
  have admitted : effectiveState server = .idle →
      unreaped server.log = some [] ∧ server.worker.pid = none ∧ server.watch.active = false := by
    intro idle
    obtain ⟨_, inactive, noWorker⟩ := effectiveState_idle idle
    exact ⟨kept.none_left noWorker, noWorker, inactive⟩
  refine ⟨kept.single, ⟨_, kept.left, ?_⟩, teardown_unreaped kept, ?_, ?_⟩
  · intro pid
    show pid ∈ (if server.worker.exited = true then [] else server.worker.pid.toList) ↔ _
    cases server.worker.exited with
    | true => simp
    | false =>
      cases server.worker.pid with
      | none => simp
      | some other => simp [eq_comm]
  · intro sends answers fd greetingId requestId decoded handled
    apply admitted
    by_contra busy
    apply handled
    exact if_pos busy
  · intro registry sends answers fd greetingId requestId decoded handled
    apply admitted
    by_contra busy
    apply handled
    exact if_pos busy

/-- In a run in which exits are reaped and no unanswered `STOP` leaves a session without a worker
behind, there is only the worker that the server records, and a turn after which the daemon is
stopping starts none. -/
theorem one_worker (registry : Registry) (turns : List Step) (allowed : Along (turn registry)
      (fun next server => reapsExit next = true ∧ stopEndsSession next server = true)
      turns .initial) :
    (∀ done, done <+: turns → OneWorker (replay (turn registry) done .initial)) ∧
      ∀ done next, done ++ [next] <+: turns →
        (replay (turn registry) (done ++ [next]) .initial).shuttingDown = true →
          started (replay (turn registry) (done ++ [next]) .initial).log =
            started (replay (turn registry) done .initial).log := by
  have invariant : ∀ done, done <+: turns → WorkerKept (replay (turn registry) done .initial).view ∧
        Drains (replay (turn registry) done .initial) := by
    intro done initial
    obtain ⟨rest, rfl⟩ := initial
    obtain ⟨met, _⟩ := (along_append (turn registry) _ done rest .initial).mp allowed
    have step : ∀ next server, reapsExit next = true ∧ stopEndsSession next server = true →
          WorkerKept server.view ∧ Drains server →
            WorkerKept (turn registry next server).view ∧ Drains (turn registry next server) :=
      fun next server ⟨sure, ends⟩ ⟨kept, drains⟩ =>
        ⟨turn_workerKept registry next server sure kept, turn_drains registry next server ends drains⟩
    exact along_invariant (turn registry) step met ⟨⟨rfl, rfl, nofun⟩, nofun⟩
  constructor
  · intro done initial
    exact (invariant done initial).1.oneWorker
  · intro done next initial stopping
    have before : done <+: turns := (List.prefix_append done [next]).trans initial
    rw [replay_append] at stopping ⊢
    exact turn_started registry next _ (invariant done before).2 stopping

/-- A change of `arena` is run, and its worker is reaped. -/
theorem one_worker_arenaSession :
    (∀ done, done <+: arenaSession → OneWorker (replay (turn arenaLexer) done .initial)) ∧
      ∀ done next, done ++ [next] <+: arenaSession →
        (replay (turn arenaLexer) (done ++ [next]) .initial).shuttingDown = true →
          started (replay (turn arenaLexer) (done ++ [next]) .initial).log =
            started (replay (turn arenaLexer) done .initial).log :=
  one_worker arenaLexer arenaSession (by decide +kernel)

/-- A session is open, and the client of a `STOP` request goes away before the answer. -/
def lostStop : List Step :=
  [openSession, ⟨.listener 8 (.hello 3 (some (4, .control .stop))),
      { grantedAnswers 0 with sends := [true, false] }⟩]

/-- After `lostStop` the session is still there, and the next change of a file starts a worker. -/
theorem lostStop_starts_worker : ¬ ∀ registry turns, (∀ next ∈ turns, reapsExit next = true) →
      ∀ done next, done ++ [next] <+: turns →
        (replay (turn registry) (done ++ [next]) .initial).shuttingDown = true →
          started (replay (turn registry) (done ++ [next]) .initial).log =
            started (replay (turn registry) done .initial).log := by
  intro always
  have same := always arenaLexer (lostStop ++ changeFile 2 (sv "a.c") 100) (by decide)
    (lostStop ++ (changeFile 2 (sv "a.c") 100).dropLast) ⟨.watchDebounce, grantedAnswers 100⟩
    ⟨[], rfl⟩ (by decide +kernel)
  revert same
  decide +kernel

/-- The handler signals no worker whose exit was handled. -/
def signalsRunning (next : Step) (server : Server) : Bool :=
  !(next.warnsWorker server && server.worker.pid.isSome && server.worker.exited)

theorem turn_workerLive (registry : Registry) (next : Step) (server : Server)
    (careful : signalsRunning next server = true) (kept : WorkerLive server.view) :
    WorkerLive (turn registry next server).view := by
  cases occurs : next.occurs server with
  | false =>
    rw [turn_idle occurs]
    exact kept
  | true =>
    rw [turn_occurs occurs]
    obtain ⟨registered, _⟩ := occurs_registered occurs
    have does : Does { Leave.keepsWorker with warns := (· = false), ends := True }
        (next.start server) (handle registry (next.start server) next.answers next.event) := by
      refine handle_does registry next rfl registered { warns := ?_ }
      intro warned recorded
      have warned : next.warnsWorker server = true := warned
      have recorded : server.worker.pid.isSome = true := recorded
      unfold signalsRunning at careful
      rw [warned, recorded] at careful
      show server.worker.exited = false
      simpa using careful
    exact does.keeps (fun _ _ => WorkerLive.deed fun _ same => same) kept

/-- In a run in which no worker is signalled between its exit and the end of its run, every signal
goes to a process that was not reaped, also that of `daemon_teardown`. -/
theorem signals_live (registry : Registry) (turns : List Step) (allowed : Along (turn registry)
      (fun next server => signalsRunning next server = true) turns .initial) :
    ∀ done, done <+: turns → signalsLive (replay (turn registry) done .initial).log = true ∧
        signalsLive (teardown (replay (turn registry) done .initial)).log = true := by
  intro done initial
  obtain ⟨rest, rfl⟩ := initial
  obtain ⟨met, _⟩ := (along_append (turn registry) _ done rest .initial).mp allowed
  have kept := along_invariant (turn registry) (turn_workerLive registry) met
    ⟨rfl, ⟨[], rfl, nofun⟩, nofun⟩
  exact ⟨kept.live, teardown_signalsLive kept⟩

/-- A foreground run is stopped by a signal, and its worker exits. -/
def signalledRun : List Step :=
  [⟨.listener 7 (.hello 1 (some (2, .run (.request ⟨.runAggregate, 0, 1, false⟩)))),
      grantedAnswers 100⟩,
    ⟨.signal, grantedAnswers 0⟩,
    ⟨.workerPidfd (.signaled 15), grantedAnswers 0⟩]

/-- The worker of `signalledRun` was running when it was signalled. -/
theorem signals_live_signalledRun :
    signalsLive (replay (turn ⟨[], []⟩) signalledRun .initial).log = true ∧
      signalsLive (teardown (replay (turn ⟨[], []⟩) signalledRun .initial)).log = true :=
  signals_live ⟨[], []⟩ signalledRun (by decide +kernel) signalledRun (List.prefix_refl _)

/-- While the pipes of the worker of `signalledRun` are open, the kill timer fires: the process was
reaped. -/
theorem signalledRun_kills_reaped :
    ¬ ∀ registry turns, signalsLive (replay (turn registry) turns .initial).log = true := by
  intro always
  have live := always ⟨[], []⟩ (signalledRun ++ [⟨.killTimer, grantedAnswers 0⟩])
  revert live
  decide +kernel

end Nobify.Daemon
