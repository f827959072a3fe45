import Nobify.Daemon.Processes

/-!
# Connections

The connections that are open are read off the log. The listener gives a connection away by its
result: a connection that the server keeps is `current_client_fd`, any other is closed. In a run in
which no request is refused and told so, and every admitted request is acknowledged and started, the
only open connection between two turns is `current_client_fd`, and `daemon_teardown` closes it.
-/

namespace Nobify.Daemon

open Lib
open List
open Option (any_eq_true bind_some map_some)

variable {log : List Act} {fds : List Nat} {fd : Nat} {after server : Server}
  {request : WatchRequest} {roots : List StringView} {registry : Registry} {answers : Answers}

/-! ## Connections of a log -/

/-- The open connections, latest first, after a log with its newest action first; `none` when one
was used or closed that was not open. -/
def openFds : List Act → Option (List Nat)
  | [] => some []
  | .accepted fd :: older => (openFds older).map (fd :: ·)
  | .sent fd _ :: older => (openFds older).bind fun fds => if fd ∈ fds then some fds else none
  | .closed fd :: older =>
    (openFds older).bind fun fds => if fd ∈ fds then some (fds.erase fd) else none
  | _ :: older => openFds older

theorem openFds_note {act : Act} (plain : act.isNote = true) (log : List Act) :
    openFds (act :: log) = openFds log := by
  cases act with
  | finished _ | sessionStarted | recorded _ => rfl
  | accepted _ | sent _ _ | closed _ | spawned _ _ | signalled _ _ | reaped _ => cases plain

theorem openFds_sent (known : openFds log = some fds) (mem : fd ∈ fds) (message : Message) :
    openFds (.sent fd message :: log) = some fds := by
  simp only [openFds, known, bind_some, if_pos mem]

theorem openFds_closed (known : openFds log = some fds) (mem : fd ∈ fds) :
    openFds (.closed fd :: log) = some (fds.erase fd) := by
  simp only [openFds, known, bind_some, if_pos mem]

/-- A descriptor was closed as often as it was accepted, but for the connection that is open. -/
theorem openFds_count (known : openFds log = some fds) (fd : Nat) :
    log.count (.closed fd) + fds.count fd = log.count (.accepted fd) := by
  induction log generalizing fds with
  | nil =>
    obtain rfl : [] = fds := Option.some.inj known
    rfl
  | cons act older ih =>
    simp only [count_cons, beq_iff_eq]
    cases act with
    | accepted other =>
      obtain ⟨before, older_known, rfl⟩ := Option.map_eq_some_iff.mp known
      have earlier := ih older_known
      rw [count_cons]
      simp only [Act.accepted.injEq, reduceCtorEq, if_false, beq_iff_eq]
      omega
    | closed other =>
      obtain ⟨before, older_known, here⟩ := Option.bind_eq_some_iff.mp known
      have earlier := ih older_known
      split at here
      · rename_i mem
        cases here
        simp only [Act.closed.injEq, reduceCtorEq, if_false]
        by_cases same : other = fd
        · rw [same] at mem
          have positive := count_pos_iff.mpr mem
          rw [if_pos same, same, count_erase_self]
          omega
        · rw [if_neg same, count_erase_of_ne (Ne.symm same)]
          exact earlier
      · cases here
    | sent other message =>
      obtain ⟨before, older_known, here⟩ := Option.bind_eq_some_iff.mp known
      split at here
      · cases here
        exact ih older_known
      · cases here
    | spawned _ _ | signalled _ _ | reaped _ | finished _ | sessionStarted | recorded _ =>
      exact ih known

/-! ## Holding a connection -/

/-- The open connections are the client and perhaps one that the listener holds; the client belongs
to a worker or to a session. -/
structure Held (held : Option Nat) (view : View) : Prop where
  fds : openFds view.log = some (held.toList ++ view.client.toList)
  owner : view.client.isSome = true → view.pid.isSome = true ∨ view.active = true

namespace Held

variable {held : Option Nat} {view : View}

/-- Without a worker and a session there is no client. -/
theorem no_client (kept : Held held view) (idle : view.pid = none)
    (inactive : view.active = false) : view.client = none := by
  cases client : view.client with
  | none => rfl
  | some fd =>
    rcases kept.owner (by rw [client]; rfl) with recorded | active
    · rw [idle] at recorded
      cases recorded
    · rw [inactive] at active
      cases active

/-- Every deed keeps it, as long as only the held connection is used besides the client. -/
theorem deed {leave : Leave} (sits : ¬ leave.listens)
    (uses : ∀ fd, leave.uses fd → held = some fd) {next : View} (deed : Deed leave view next)
    (kept : Held held view) : Held held next := by
  obtain ⟨fds, owner⟩ := kept
  cases deed with
  | @sends fd message known =>
    refine ⟨openFds_sent fds ?_ message, owner⟩
    rcases known with used | client
    · rw [uses fd used]
      exact mem_cons_self
    · rw [client]
      exact mem_append_right _ mem_cons_self
  | @drops fd client =>
    rw [client] at fds
    have mem : fd ∈ held.toList ++ (some fd).toList :=
      mem_append_right _ mem_cons_self
    refine ⟨?_, nofun⟩
    rw [openFds_closed fds mem]
    cases held with
    | none =>
      show some ([fd].erase fd) = some []
      rw [erase_cons_head]
    | some other =>
      show some ([other, fd].erase fd) = some [other]
      by_cases same : other = fd
      · rw [same, erase_cons_head]
      · rw [erase_cons_tail (by simpa using same), erase_cons_head]
  | notes plain => exact ⟨(openFds_note plain _).trans fds, owner⟩
  | accepts _ listens => exact absurd listens sits
  | hangsUp _ listens => exact absurd listens sits
  | attaches _ listens => exact absurd listens sits
  | opens listens _ _ => exact absurd listens sits
  | marksClosing => exact ⟨fds, owner⟩
  | stops _ => exact ⟨fds, owner⟩
  | endsSession left =>
    refine ⟨fds, ?_⟩
    intro client
    rcases left with recorded | none
    · exact Or.inl recorded
    · have client : view.client.isSome = true := client
      rw [none] at client
      cases client
  | starts pid request idle _ => exact ⟨fds, fun _ => Or.inl rfl⟩
  | startsInVain pid request exited idle _ =>
    refine ⟨fds, ?_⟩
    intro client
    rcases owner client with recorded | active
    · rw [idle] at recorded
      cases recorded
    · exact Or.inr active
  | unwatches idle => exact ⟨fds, owner⟩
  | signals _ _ _ => exact ⟨fds, owner⟩
  | reaps _ _ => exact ⟨fds, owner⟩
  | loses _ => exact ⟨fds, owner⟩
  | endsWorker _ _ left =>
    refine ⟨fds, ?_⟩
    intro client
    rcases left with none | active
    · have client : view.client.isSome = true := client
      rw [none] at client
      cases client
    · exact Or.inr active

/-- Everything is permitted but listening, and only the held connection may be used. -/
def leave (held : Option Nat) : Leave where
  uses fd := held = some fd
  listens := False
  stops := True
  spawns _ := True
  warns _ := True
  loses := True
  ends := True

theorem does {before : Server} (kept : Held held before.view)
    (does : Does (leave held) before after) : Held held after.view :=
  does.keeps (fun _ _ => deed id (fun _ => id)) kept

end Held

/-- What a request leaves: the listener still holds a connection that the server does not keep. -/
def Handled (fd : Nat) (result : Bool × Server) : Prop :=
  Held (if result.1 then none else some fd) result.2.view

/-- The connection that the listener holds is closed unless the server keeps it. -/
theorem Handled.hangUp {result : Bool × Server} (handled : Handled fd result) :
    Held none (hangUp fd result.1 result.2).view := by
  unfold Handled at handled
  unfold Daemon.hangUp
  split
  · rename_i kept
    rw [kept] at handled
    exact handled
  · rename_i left
    rw [if_neg left] at handled
    refine ⟨?_, handled.owner⟩
    have closed := openFds_closed handled.fds mem_cons_self
    rw [Option.toList_some, singleton_append, erase_cons_head] at closed
    exact closed

variable (held : Held (some fd) server.view)

include held

/-- A request that the server does not keep. -/
theorem Handled.refused
    (does : Does (Held.leave (some fd)) server after) : Handled fd (false, after) :=
  held.does does

/-- A request that is only answered is not kept when the answer is lost. -/
theorem Handled.unanswered {message : Message} (lost : server.sends.headD true = false) :
    Handled fd (send server fd message) := by
  unfold Handled
  rw [show (send server fd message).1 = false from lost]
  exact held.does (send_does message (Or.inl rfl))

omit held

/-- The open connections once a new one was greeted. -/
theorem greet_held (held : Held none server.view) (fd greetingId : Nat) :
    Held (some fd) (greet server fd greetingId).view := by
  refine ⟨?_, held.owner⟩
  have accepted : openFds (.accepted fd :: server.log) = some (fd :: server.client.toList) := by
    have known : openFds server.log = some server.client.toList := held.fds
    simp only [openFds, known, map_some]
  exact openFds_sent accepted mem_cons_self _

/-! ## Requests for a run -/

include held in
/-- A run that is started keeps its client. -/
theorem startForegroundRun_handled (noClient : server.client = none) (answers : Answers)
    (requestId : Nat)
    (request : RunnerRequest)
    (starts : answers.preflight.1 = true → server.sends.headD true = true ∧ ∃ pid, answers.spawn =
      .started pid) : Handled fd (startForegroundRun server answers fd requestId request) := by
  unfold startForegroundRun
  dsimp only
  split
  · have checked : Does (Held.leave (some fd)) server
        { server with telemetry := answers.preflight.2 } := Does.same rfl
    exact .refused held (checked.trans (send_does _ (Or.inl rfl)))
  · rename_i passed
    obtain ⟨sent, pid, spawn⟩ := starts (by simpa using passed)
    have fds : openFds server.log = some [fd] := by
      have known : openFds server.log = some ((some fd).toList ++ server.client.toList) := held.fds
      rw [noClient] at known
      exact known
    simp only [send, sent, spawnWorker, spawn, recordWorker]
    have acknowledged := openFds_sent fds mem_cons_self (.ack requestId)
    exact ⟨acknowledged, fun _ => Or.inl rfl⟩

/-! ## Starting a session -/

/-- The text fits the buffer of `daemon_watch_send_infof`. -/
def infoFits (text : StringView) : Bool := text.length < infoCapacity

/-- The announcement of the session fits its buffer; a session of one module has a module. -/
def announcementFits (registry : Registry) (request : WatchRequest) (roots : List StringView) :
    Bool :=
  match request.mode with
  | .auto =>
    infoFits (sv "[watch] auto session started (" ++ decimal roots.length ++ sv " roots)\n")
  | .module =>
    (registry.moduleDef request.moduleId).any fun module =>
      infoFits (sv "[watch] module session started for " ++ module.name ++ sv " (" ++
        decimal roots.length ++ sv " roots)\n")

/-- The roots that a verbose client is told fit their buffers. -/
def rootsFit (request : WatchRequest) (roots : List StringView) : Bool :=
  !request.verbose || roots.all fun root => infoFits (sv "[watch]   " ++ root ++ sv "\n")

/-- The module of a session for one module has a profile, and if the preflight passes, the
announcement of its run fits its buffer. -/
def baselineFits (registry : Registry) (answers : Answers) (watch : WatchSession)
    (request : WatchRequest) : Bool :=
  request.mode != .module || (registry.moduleDef request.moduleId).any fun module =>
      (registry.profileName
        (watchMakeModuleRequest watch request.moduleId module).profileId).any fun profileName =>
          !answers.preflight.1 ||
            infoFits (sv "[watch] running " ++ module.name ++ sv " (" ++ profileName ++ sv ")\n")

/-- A session starts: its roots can be watched, and what it tells its client fits the buffers. -/
def sessionStarts (registry : Registry) (server : Server) (answers : Answers) (fd requestId : Nat)
    (request : WatchRequest) (roots : List StringView) : Bool :=
  let session := watchOpenSession server answers fd requestId request roots
  (registerRoots session.watch answers.scan).1 && announcementFits registry request roots &&
    rootsFit request roots && baselineFits registry answers session.watch request

theorem watchSendInfos_active (active : server.watch.active = true) {texts : List StringView}
    (fit : ∀ text ∈ texts, infoFits text = true) : (watchSendInfos server texts).1 = true := by
  induction texts generalizing server with
  | nil => rfl
  | cons text rest ih =>
    have here : text.length < infoCapacity :=
      of_decide_eq_true (fit text mem_cons_self)
    simp only [watchSendInfos]
    rw [if_pos (watchSendInfof_active active here)]
    exact ih ((watchSendInfof_quiet server text).active.trans active)
      fun other mem => fit other (mem_cons_of_mem _ mem)

theorem watchReportIssue_active (active : server.watch.active = true) {text : StringView}
    (short : text.length < 1000) : (watchReportIssue server text).1 = true := by
  unfold watchReportIssue
  have capacity : infoCapacity = 1024 := rfl
  rw [if_neg (by omega)]
  apply watchSendInfof_active active
  have opening : (sv "[watch] ").length = 8 := by decide
  have closing : (sv "\n").length = 1 := by decide
  rw [length_append, length_append, opening, closing]
  omega

/-- What a session that is about to start knows. -/
structure Starting (request : WatchRequest) (roots : List StringView) (watch : WatchSession) :
    Prop where
  active : watch.active = true
  request : watch.request = request
  roots : watch.roots = roots

theorem Starting.quiet {before : Server} (starting : Starting request roots before.watch)
    (quiet : Quiet before after) : Starting request roots after.watch := by
  rw [quiet.watch]
  exact ⟨starting.active, starting.request, starting.roots⟩

variable (starting : Starting request roots server.watch)

include starting

/-- Announcing a session whose texts fit succeeds, and a session for one module gets its batch. -/
theorem watchAnnounceSession_starts (fits : announcementFits registry request roots = true) :
    (watchAnnounceSession registry server request).1 = true ∧
      Starting request roots (watchAnnounceSession registry server request).2.watch ∧
      (request.mode = .module →
        (watchAnnounceSession registry server request).2.watch.batchModules = [request.moduleId] ∧
          (watchAnnounceSession registry server request).2.watch.batchIndex = 0) := by
  rw [← starting.roots] at fits
  unfold announcementFits at fits
  unfold watchAnnounceSession
  dsimp only
  split
  · rename_i auto
    rw [auto] at fits ⊢
    exact ⟨watchSendInfof_active starting.active (of_decide_eq_true fits),
      starting.quiet (watchSendInfof_quiet ..), nofun⟩
  · rename_i isModule
    rw [isModule] at fits
    obtain ⟨module, known, fits⟩ := (any_eq_true _ _).mp fits
    have told := watchSendInfof_active starting.active (of_decide_eq_true fits)
    have quiet := watchSendInfof_quiet server
      (sv "[watch] module session started for " ++ module.name ++ sv " (" ++
        decimal server.watch.roots.length ++ sv " roots)\n")
    rw [known]
    dsimp only
    rw [told, if_neg (by decide)]
    revert quiet
    generalize (watchSendInfof server _).2 = announced
    intro quiet
    have going := starting.quiet quiet
    have batched : Starting request roots { announced with
        watch.batchModules := [request.moduleId], watch.batchIndex := 0,
        watch.batchIsBaseline := true }.watch := ⟨going.active, going.request, going.roots⟩
    have last := watchSendInfof_quiet { announced with
        watch.batchModules := [request.moduleId], watch.batchIndex := 0,
        watch.batchIsBaseline := true } (sv "[watch] baseline run\n")
    refine ⟨watchSendInfof_active batched.active (by decide), batched.quiet last, ?_⟩
    intro _
    rw [last.watch]
    exact ⟨rfl, rfl⟩

theorem watchAnnounceRoots_starts (fit : rootsFit request roots = true) :
    (watchAnnounceRoots server).1 = true := by
  unfold rootsFit at fit
  rw [← starting.request, ← starting.roots] at fit
  unfold watchAnnounceRoots watchIsVerbose
  split
  · rename_i verbose
    rw [(Bool.and_eq_true_iff.mp verbose).2, Bool.not_true, Bool.false_or] at fit
    apply watchSendInfos_active starting.active
    intro text mem
    rcases mem_cons.mp mem with rfl | mem
    · decide
    · obtain ⟨root, root_mem, rfl⟩ := mem_map.mp mem
      exact all_eq_true.mp fit root root_mem
  · rfl

omit starting

/-- The baseline run of a session goes on also when its worker does not start. -/
theorem watchRunModule_starts (active : server.watch.active = true) (answers : Answers)
    (request : RunnerRequest) {moduleName profileName : StringView}
    (fits : answers.preflight.1 = true → infoFits (sv "[watch] running " ++ moduleName ++ sv " (" ++
      profileName ++ sv ")\n") = true) :
    (watchRunModule server answers request moduleName profileName).1 = true := by
  unfold watchRunModule
  dsimp only
  split
  · apply watchReportIssue_active
    · exact active
    · decide
  · rename_i passed
    have fits := of_decide_eq_true (fits (by simpa using passed))
    have going : ({ server with telemetry := answers.preflight.2 } : Server).watch.active = true :=
      active
    have quiet := watchSendInfof_quiet { server with telemetry := answers.preflight.2 }
      (sv "[watch] running " ++ moduleName ++ sv " (" ++ profileName ++ sv ")\n")
    rw [watchSendInfof_active going fits, if_neg (by decide)]
    revert quiet
    generalize (watchSendInfof { server with telemetry := answers.preflight.2 } _).2 = announced
    intro quiet
    have still : (watchClearBatch
        (spawnWorker announced answers request announced.watch.requestId).2).watch.active =
          true := by
      show (spawnWorker announced answers request announced.watch.requestId).2.watch.active = true
      rw [spawnWorker_watch]
      exact quiet.active.trans active
    split
    · rfl
    · exact watchReportIssue_active still (by decide)

include starting

/-- The module of a session for one module is run. -/
theorem watchStartModule_starts (isModule : request.mode = .module) {watch : WatchSession}
    (same : watch.request = request)
    (baseline : baselineFits registry answers watch request = true) :
    (watchStartModule registry server answers request.moduleId).1 = true := by
  unfold baselineFits at baseline
  rw [isModule, bne_self_eq_false, Bool.false_or] at baseline
  obtain ⟨module, known, baseline⟩ := (any_eq_true _ _).mp baseline
  obtain ⟨profileName, profile, baseline⟩ := (any_eq_true _ _).mp baseline
  have sameRequest : watchMakeModuleRequest watch request.moduleId module =
      watchMakeModuleRequest { server.watch with batchIndex := server.watch.batchIndex + 1 }
        request.moduleId module := by
    unfold watchMakeModuleRequest watchProfileForModule
    dsimp only
    rw [same, starting.request]
  rw [sameRequest] at profile
  unfold watchStartModule
  dsimp only
  rw [known]
  dsimp only
  rw [profile]
  apply watchRunModule_starts
  · exact starting.active
  · intro passed
    rw [passed, Bool.not_true, Bool.false_or] at baseline
    exact baseline

theorem watchBeginSession_starts (announced : announcementFits registry request roots = true)
    (listed : rootsFit request roots = true) {watch : WatchSession} (same : watch.request = request)
    (baseline : baselineFits registry answers watch request = true) (requestId : Nat) :
    (watchBeginSession registry server answers requestId request).1 = true := by
  have attached := starting.quiet (watchAttachClient_quiet server answers requestId)
  obtain ⟨told, going, batch⟩ := watchAnnounceSession_starts attached announced
  unfold watchBeginSession
  dsimp only
  rw [told, if_neg (by decide)]
  revert going batch
  generalize (watchAnnounceSession registry
    (watchAttachClient server answers requestId) request).2 = session
  intro going batch
  have listedQuiet := watchAnnounceRoots_quiet session
  rw [watchAnnounceRoots_starts going listed, if_neg (by decide)]
  split
  · rename_i isModule
    obtain ⟨modules, index⟩ := batch isModule
    have last := going.quiet listedQuiet
    have lastModules : (watchAnnounceRoots session).2.watch.batchModules = [request.moduleId] := by
      rw [listedQuiet.watch]
      exact modules
    have lastIndex : (watchAnnounceRoots session).2.watch.batchIndex = 0 := by
      rw [listedQuiet.watch]
      exact index
    unfold watchStartNextModule
    rw [last.active, if_neg (by decide), lastModules, lastIndex]
    exact watchStartModule_starts last isModule same baseline
  · rfl

omit starting

include held

/-- A session that starts keeps its client, also when it is detached meanwhile. -/
theorem watchTrySession_handled (noClient : server.client = none) (idle : server.worker.pid = none)
    {requestId : Nat}
    (built : watchBuildRootSet registry request = some roots)
    (starts : sessionStarts registry server answers fd requestId request roots = true) :
    (watchTrySession registry server answers fd requestId request).1 = true ∧
      Held none (watchTrySession registry server answers fd requestId request).2.view := by
  have opened : Held none (watchOpenSession server answers fd requestId request roots).view := by
    have known : openFds server.log = some ((some fd).toList ++ server.client.toList) := held.fds
    rw [noClient] at known
    exact ⟨known, fun _ => Or.inr rfl⟩
  have starting : Starting request roots
      (watchOpenSession server answers fd requestId request roots).watch := ⟨rfl, rfl, rfl⟩
  unfold sessionStarts at starts
  unfold watchTrySession
  rw [built]
  dsimp only at starts ⊢
  have noWorker : (watchOpenSession server answers fd requestId request roots).worker.pid = none :=
    idle
  revert opened starting noWorker starts
  generalize watchOpenSession server answers fd requestId request roots = session
  intro starts opened starting noWorker
  rw [Bool.and_eq_true, Bool.and_eq_true, Bool.and_eq_true] at starts
  obtain ⟨⟨⟨registered, announced⟩, listed⟩, baseline⟩ := starts
  rw [if_pos registered]
  have scanned := registerRoots_scanned session.watch answers.scan
  have registering : Starting request roots (registerRoots session.watch answers.scan).2 := by
    rw [scanned.same]
    exact ⟨starting.active, starting.request, starting.roots⟩
  constructor
  · exact watchBeginSession_starts registering announced listed starting.request baseline requestId
  · have does : Does (Held.leave none) session (watchBeginSession registry
        { session with watch := (registerRoots session.watch answers.scan).2 } answers requestId
        request).2 := by
      refine scanned.noted.does.trans (watchBeginSession_does ?_ trivial ..)
      exact noWorker
    exact opened.does does

/-! ## Requests -/

/-- The request is not told that it is refused by a handler that returns the success of the answer,
and where it is admitted, it is acknowledged and started. -/
def requestSettled (registry : Registry) (server : Server) (answers : Answers) (fd requestId : Nat)
    (answered : Bool) : ClientRequest → Bool
  | .control _ => true
  | .malformedControl => true
  | .unsupported => true
  | .run decoded =>
    if effectiveState server ≠ .idle then !answered
    else
      match decoded with
      | .undecodable => !answered
      | .refused => true
      | .request _ =>
        !answers.preflight.1 || answered && match answers.spawn with
            | .started _ => true
            | _ => false
  | .watch decoded =>
    if effectiveState server ≠ .idle then !answered
    else
      match decoded with
      | .undecodable => !answered
      | .refused => true
      | .request request =>
        match watchBuildRootSet registry request with
        | none => true
        | some roots => sessionStarts registry server answers fd requestId request roots

theorem sendAdmissionError_handled (lost : server.sends.headD true = false) (requestId : Nat) :
    Handled fd (sendAdmissionError server fd requestId) := by
  unfold sendAdmissionError
  dsimp only
  split
  · exact .unanswered held lost
  · split
    · exact .unanswered held lost
    · exact .unanswered held lost

section

variable (registry : Registry) (answers : Answers) (requestId : Nat)

theorem handleRunRequest_handled (decoded : Decoded RunnerRequest)
    (settled : requestSettled registry server answers fd requestId (server.sends.headD true) (.run decoded) = true) :
    Handled fd (handleRunRequest server answers fd requestId decoded) := by
  unfold requestSettled at settled
  dsimp only at settled
  unfold handleRunRequest
  split
  · rename_i busy
    rw [if_pos busy] at settled
    exact sendAdmissionError_handled held (Bool.not_eq_true' _ |>.mp settled) requestId
  · rename_i admitted
    rw [if_neg admitted] at settled
    obtain ⟨_, inactive, idle⟩ := effectiveState_idle (not_not.mp admitted)
    have noClient : server.client = none := held.no_client idle inactive
    cases decoded with
    | undecodable => exact .unanswered held (Bool.not_eq_true' _ |>.mp settled)
    | refused => exact .refused held (send_does _ (Or.inl rfl))
    | request request =>
      apply startForegroundRun_handled held noClient
      intro passed
      dsimp only at settled
      rw [passed, Bool.not_true, Bool.false_or, Bool.and_eq_true] at settled
      obtain ⟨answered, spawned⟩ := settled
      refine ⟨answered, ?_⟩
      split at spawned
      · rename_i pid spawn
        exact ⟨pid, spawn⟩
      · cases spawned

theorem handleWatchRequest_handled (decoded : Decoded WatchRequest)
    (settled : requestSettled registry server answers fd requestId (server.sends.headD true) (.watch decoded) = true) :
    Handled fd (handleWatchRequest registry server answers fd requestId decoded) := by
  unfold requestSettled at settled
  dsimp only at settled
  unfold handleWatchRequest
  split
  · rename_i busy
    rw [if_pos busy] at settled
    exact sendAdmissionError_handled held (Bool.not_eq_true' _ |>.mp settled) requestId
  · rename_i admitted
    rw [if_neg admitted] at settled
    obtain ⟨_, inactive, idle⟩ := effectiveState_idle (not_not.mp admitted)
    have noClient : server.client = none := held.no_client idle inactive
    cases decoded with
    | undecodable => exact .unanswered held (Bool.not_eq_true' _ |>.mp settled)
    | refused =>
      have told : Does (Held.leave (some fd)) server
          (sendStructuredError server fd requestId .malformedRequest
            (sv "invalid watch request arguments")).2 := send_does _ (Or.inl rfl)
      exact .refused held (told.trans (watchResetSession_does _))
    | request request =>
      dsimp only at settled
      cases built : watchBuildRootSet registry request with
      | none =>
        have failed : watchTrySession registry server answers fd requestId request =
            (false, server) := by
          unfold watchTrySession
          rw [built]
        unfold watchStartSession
        dsimp only
        rw [failed]
        exact .refused held (watchResetSession_does server)
      | some roots =>
        rw [built] at settled
        obtain ⟨started, kept⟩ := watchTrySession_handled held noClient idle built settled
        unfold watchStartSession
        dsimp only
        rw [started]
        exact kept

/-- What a request leaves, once its connection was greeted. -/
theorem handleClientRequest_handled (request : ClientRequest)
    (settled : requestSettled registry server answers fd requestId (server.sends.headD true) request = true) :
    Handled fd (handleClientRequest registry server answers fd requestId request) := by
  cases request with
  | control command =>
    exact .refused held
      (handleControl_does rfl trivial command (fun _ _ _ => trivial) answers requestId)
  | malformedControl => exact .refused held (send_does _ (Or.inl rfl))
  | unsupported => exact .refused held (send_does _ (Or.inl rfl))
  | run decoded => exact handleRunRequest_handled held registry answers requestId decoded settled
  | watch decoded =>
    exact handleWatchRequest_handled held registry answers requestId decoded settled

end

omit held

/-! ## Turns -/

/-- The request of a new connection is settled, if its connection is greeted. -/
def connectionSettled (registry : Registry) (next : Step) (server : Server) : Bool :=
  match next.event with
  | .listener fd (.hello _ (some (requestId, request))) =>
    !next.answers.sends.headD true || requestSettled registry server next.answers fd requestId
        (next.answers.sends.tail.headD true) request
  | _ => true

/-- The open connections after a new one was handled. -/
theorem onListener_held (held : Held none server.view) (registry : Registry) (answers : Answers)
    (fd : Nat) (connection : Connection)
    (settled : ∀ greetingId requestId request, connection = .hello greetingId (some (requestId,
      request)) → server.sends.headD true = true →
      requestSettled registry (greet server fd greetingId) answers fd requestId (server.sends.tail.headD true) request = true) :
    Held none (onListener registry server answers fd connection).view := by
  have accepted : openFds (.accepted fd :: server.log) = some (fd :: server.client.toList) := by
    have known : openFds server.log = some server.client.toList := held.fds
    simp only [openFds, known, map_some]
  cases connection with
  | unusable =>
    have kept : Handled fd (false, { server with log := .accepted fd :: server.log }) :=
      ⟨accepted, held.owner⟩
    exact kept.hangUp
  | noHello requestId =>
    have kept : Handled fd (false, (send { server with log := .accepted fd :: server.log } fd
        (.error requestId .protocol (effectiveState server) (sv "expected HELLO"))).2) :=
      ⟨openFds_sent accepted mem_cons_self _, held.owner⟩
    exact kept.hangUp
  | hello greetingId request =>
    have greeted := greet_held held fd greetingId
    cases answered : server.sends.headD true with
    | false =>
      rw [onListener_ungreeted answered]
      have kept : Handled fd (false, greet server fd greetingId) := greeted
      exact kept.hangUp
    | true =>
      cases request with
      | none =>
        have kept : Handled fd (false, greet server fd greetingId) := greeted
        simp only [onListener, handleConnection, send, answered]
        exact kept.hangUp
      | some asked =>
        obtain ⟨requestId, request⟩ := asked
        rw [onListener_request answered]
        have kept := handleClientRequest_handled greeted registry answers requestId request
          (settled greetingId requestId request rfl answered)
        exact kept.hangUp

/-- What decides whether a request is settled is the same before the connection is greeted. -/
theorem requestSettled_greet (registry : Registry) (server : Server) (sends : List Bool)
    (answers : Answers) (fd greetingId requestId : Nat) (answered : Bool)
    (request : ClientRequest) :
    requestSettled registry (greet { server with sends := sends } fd greetingId) answers fd
        requestId answered request =
      requestSettled registry server answers fd requestId answered request := by
  cases request with
  | control command => rfl
  | malformedControl => rfl
  | unsupported => rfl
  | run decoded => rfl
  | watch decoded => rfl

/-- A turn keeps the open connections, if the request that it handles is settled. -/
theorem turn_held (registry : Registry) (next : Step) (server : Server)
    (settled : connectionSettled registry next server = true) (held : Held none server.view) :
    Held none (turn registry next server).view := by
  cases occurs : next.occurs server with
  | false =>
    rw [turn_idle occurs]
    exact held
  | true =>
    rw [turn_occurs occurs]
    obtain ⟨registered, _⟩ := occurs_registered occurs
    have started : Held none (next.start server).view := held
    by_cases listens : ∃ fd connection, next.event = .listener fd connection
    · obtain ⟨fd, connection, event⟩ := listens
      unfold connectionSettled at settled
      rw [event] at settled ⊢
      apply onListener_held started
      intro greetingId requestId request shape greeted
      have greeted : next.answers.sends.headD true = true := greeted
      rw [shape] at settled
      dsimp only at settled
      rw [greeted, Bool.not_true, Bool.false_or] at settled
      unfold Step.start
      rw [requestSettled_greet]
      exact settled
    · have does : Does (Held.leave none) (next.start server)
          (handle registry (next.start server) next.answers next.event) := by
        refine handle_does registry next rfl registered { listens := ?_ }
        intro fd connection event
        exact absurd ⟨fd, connection, event⟩ listens
      exact started.does does

/-! ## Runs -/

/-- `daemon_teardown` closes the client. -/
theorem teardown_closes (held : Held none server.view) :
    openFds (teardown server).log = some [] := by
  have closed : ∀ log, openFds log = some server.client.toList →
      openFds (closeClient { server with log := log }).log = some [] := by
    intro log known
    unfold closeClient
    split
    · rename_i none
      have none : server.client = .none := none
      rw [none] at known
      exact known
    · rename_i fd client
      have client : server.client = some fd := client
      rw [client] at known
      have mem : fd ∈ (some fd).toList := mem_cons_self
      rw [openFds_closed known mem]
      show some ([fd].erase fd) = some []
      rw [erase_cons_head]
  unfold teardown
  dsimp only
  rw [reset_log]
  split
  · exact closed server.log held.fds
  · rename_i pid _
    split
    · exact closed server.log held.fds
    · exact closed (.reaped pid :: .signalled pid .kill :: server.log) held.fds

/-- What holds of the connections between two turns: only `current_client_fd` is open, no other was
used or closed before, and when `daemon_teardown` ends the daemon here, each was closed once. -/
structure ConnectionsOwned (server : Server) : Prop where
  owned : openFds server.log = some server.client.toList
  ended : openFds (teardown server).log = some []
  once : ∀ fd, (teardown server).log.count (.closed fd) = (teardown server).log.count (.accepted fd)

/-- In a run in which every request is settled, the connections are owned between any two turns. -/
theorem connections_owned (registry : Registry) (turns : List Step) (settled : Along (turn registry)
      (fun next server => connectionSettled registry next server = true) turns .initial) :
    ∀ done, done <+: turns → ConnectionsOwned (replay (turn registry) done .initial) := by
  intro done initial
  obtain ⟨rest, rfl⟩ := initial
  obtain ⟨met, _⟩ := (along_append (turn registry) _ done rest .initial).mp settled
  have held := along_invariant (turn registry) (turn_held registry) met ⟨rfl, nofun⟩
  have ended := teardown_closes held
  exact ⟨held.fds, ended, fun fd => openFds_count ended fd⟩

/-- The connection of `arenaSession` is the session's client. -/
theorem connections_owned_arenaSession :
    ConnectionsOwned (replay (turn arenaLexer) arenaSession .initial) :=
  connections_owned arenaLexer arenaSession (by decide +kernel) arenaSession (List.prefix_refl _)

/-- A second client asks for a run while one is under way, and is told that the daemon is busy. -/
def busyRun : List Step :=
  [⟨.listener 7 (.hello 1 (some (2, .run (.request ⟨.runAggregate, 0, 1, false⟩)))),
      grantedAnswers 100⟩,
    ⟨.listener 8 (.hello 3 (some (4, .run (.request ⟨.runAggregate, 0, 1, false⟩)))),
      grantedAnswers 0⟩]

/-- The connection of the second client of `busyRun` stays open and no one has it. -/
theorem busyRun_leaks : ¬ ∀ registry turns, openFds (replay (turn registry) turns .initial).log =
      some (replay (turn registry) turns .initial).client.toList := by
  intro always
  have owned := always ⟨[], []⟩ busyRun
  revert owned
  decide +kernel

end Nobify.Daemon
