import Nobify.Daemon.Events

/-!
# What the operations of the daemon change

Most of what a handler does is talking to a client, which may turn out to be gone. `Quiet` says
that nothing else happened: the server is as before but for its client, the source that watches
the client, the answers that were used up and the log.
-/

namespace Nobify.Daemon

open List

variable (server : Server) (fd : Nat) (answers : Answers) (requestId : Nat) (text : StringView)

/-! ## Talking to clients -/

/-- An action on a client connection. -/
def Act.isTraffic : Act → Bool
  | .sent _ _ => true
  | .closed _ => true
  | _ => false

/-- The server after some talking to its clients. -/
structure Quiet (before after : Server) : Prop where
  /-- Nothing else changed. -/
  same : after = { before with
    client := after.client, sends := after.sends, log := after.log,
    watch.clientSource := after.watch.clientSource }
  /-- A client is lost, never gained. -/
  client : after.client = before.client ∨ after.client = none
  /-- Only connections were used. -/
  log : ∃ acts, after.log = acts ++ before.log ∧ ∀ act ∈ acts, act.isTraffic = true

namespace Quiet

variable {before middle after : Server}

/-- Doing nothing is quiet. -/
theorem refl : Quiet server server := ⟨rfl, .inl rfl, [], rfl, by simp⟩

/-- One quiet operation after the other. -/
theorem trans (first : Quiet before middle) (second : Quiet middle after) : Quiet before after := by
  obtain ⟨firstActs, firstLog, firstOnly⟩ := first.log
  obtain ⟨secondActs, secondLog, secondOnly⟩ := second.log
  have same := second.same
  rw [first.same] at same
  have client : after.client = before.client ∨ after.client = none := by
    rcases second.client with kept | lost
    · rw [kept]
      exact first.client
    · exact .inr lost
  refine ⟨same, client, secondActs ++ firstActs, ?_, ?_⟩
  · rw [secondLog, firstLog, append_assoc]
  · intro act mem
    rcases mem_append.mp mem with mem | mem
    · exact secondOnly act mem
    · exact firstOnly act mem

variable (quiet : Quiet before after)

include quiet

theorem worker : after.worker = before.worker := by rw [quiet.same]

theorem shuttingDown : after.shuttingDown = before.shuttingDown := by
  rw [quiet.same]

theorem exitRequested : after.exitRequested = before.exitRequested := by
  rw [quiet.same]

theorem state : after.state = before.state := by rw [quiet.same]

theorem watch : after.watch = { before.watch with clientSource := after.watch.clientSource } := by
  rw [quiet.same]

theorem active : after.watch.active = before.watch.active := by
  rw [quiet.watch]

theorem closing : after.watch.closing = before.watch.closing := by
  rw [quiet.watch]

end Quiet

/-- Sending uses the connection and an answer. -/
theorem send_quiet (message : Message) : Quiet server (send server fd message).2 :=
  ⟨rfl, .inl rfl, [.sent fd message], rfl, by simp [Act.isTraffic]⟩

/-- Sending to the current client is quiet. -/
theorem sendClient_quiet (message : Message) : Quiet server (sendClient server message).2 := by
  unfold sendClient
  split
  · exact .refl server
  · exact send_quiet ..

/-- Closing the client connection is quiet. -/
theorem closeClient_quiet : Quiet server (closeClient server) := by
  unfold closeClient
  split
  · exact .refl server
  · exact ⟨rfl, .inr rfl, [.closed _], rfl, by simp [Act.isTraffic]⟩

/-- The client is gone after its connection is closed. -/
@[simp] theorem closeClient_client : (closeClient server).client = none := by
  unfold closeClient
  split
  · assumption
  · rfl

/-- No longer watching the client is quiet. -/
theorem clientSource_quiet (source : Bool) :
    Quiet server { server with watch.clientSource := source } :=
  ⟨rfl, .inl rfl, [], rfl, by simp⟩

/-- Detaching the client of a session is quiet. -/
theorem watchDetachClient_quiet : Quiet server (watchDetachClient server) := by
  unfold watchDetachClient
  split
  · exact (clientSource_quiet server false).trans (closeClient_quiet _)
  · exact .refl server

/-- A lost client is a quiet event. -/
theorem handleClientDisconnect_quiet : Quiet server (handleClientDisconnect server) := by
  unfold handleClientDisconnect
  split
  · exact watchDetachClient_quiet server
  · exact closeClient_quiet server

/-- Telling the client a text is quiet. -/
theorem watchSendText_quiet : Quiet server (watchSendText server text).2 := by
  unfold watchSendText
  split
  · exact .refl server
  · rename_i fd _
    dsimp only
    generalize (if server.watch.active = true then server.watch.requestId
      else server.currentRequestId) = requestId
    have sent := send_quiet server fd (.info requestId text)
    split
    · exact sent
    · split
      · exact sent.trans (watchDetachClient_quiet _)
      · exact sent.trans (handleClientDisconnect_quiet _)

/-- In a session telling the client a text never fails: a lost client is detached. -/
theorem watchSendText_active {server : Server} (active : server.watch.active = true)
    (text : StringView) : (watchSendText server text).1 = true := by
  unfold watchSendText
  split
  · exact active
  · simp only [send, active, if_true]
    split <;> rfl

theorem watchSendInfof_quiet : Quiet server (watchSendInfof server text).2 := by
  unfold watchSendInfof
  split
  · exact .refl server
  · exact watchSendText_quiet server text

/-- What telling the client and setting the batch keep, the announcement of a session keeps. -/
theorem watchAnnounceSession_keeps {R : Server → Server → Prop} (refl : ∀ server, R server server)
    (trans : ∀ {before middle after}, R before middle → R middle after → R before after)
    (tells : ∀ server text, R server (watchSendInfof server text).2)
    (batch : ∀ server modules, R server { server with
      watch.batchModules := modules, watch.batchIndex := 0, watch.batchIsBaseline := true })
    (registry : Registry) (server : Server) (request : WatchRequest) :
    R server (watchAnnounceSession registry server request).2 := by
  unfold watchAnnounceSession
  dsimp only
  split
  · exact tells ..
  · split
    · exact refl server
    · split
      · exact tells ..
      · exact trans (trans (tells ..) (batch ..)) (tells ..)

/-- In a session a text that fits the buffer is always sent. -/
theorem watchSendInfof_active {server : Server} (active : server.watch.active = true)
    {text : StringView} (fits : text.length < infoCapacity) :
    (watchSendInfof server text).1 = true := by
  unfold watchSendInfof
  rw [if_neg (by omega)]
  exact watchSendText_active active text

theorem watchSendInfos_quiet (texts : List StringView) :
    Quiet server (watchSendInfos server texts).2 := by
  induction texts generalizing server with
  | nil => exact .refl server
  | cons text rest ih =>
    have first := watchSendInfof_quiet server text
    simp only [watchSendInfos]
    split
    · exact first.trans (ih _)
    · exact first

theorem watchReportIssue_quiet : Quiet server (watchReportIssue server text).2 := by
  unfold watchReportIssue
  split
  · exact .refl server
  · exact watchSendInfof_quiet server _

theorem sendBuffered_quiet (stream : Stream) (bytes : List UInt8) :
    Quiet server (sendBuffered server stream bytes).2 := by
  unfold sendBuffered
  split
  · exact .refl server
  · exact sendClient_quiet ..

theorem sendBufferedOutput_quiet : Quiet server (sendBufferedOutput server).2 := by
  have first := sendBuffered_quiet server .stderr server.bufferedStderr
  simp only [sendBufferedOutput]
  split
  · exact first.trans (sendBuffered_quiet ..)
  · exact first

theorem sendStatusResult_quiet (summary : StringView) :
    Quiet server (sendStatusResult server fd requestId summary).2 := send_quiet ..

theorem sendStructuredError_quiet (code : ErrorCode) (text : StringView) :
    Quiet server (sendStructuredError server fd requestId code text).2 :=
  send_quiet ..

theorem sendAdmissionError_quiet : Quiet server (sendAdmissionError server fd requestId).2 := by
  unfold sendAdmissionError
  dsimp only
  split
  · exact sendStructuredError_quiet ..
  · split <;> exact sendStructuredError_quiet ..

theorem sendCompactOverview_quiet (registry : Registry) (server : Server) (modules : List Nat)
    (fallbackAll : Bool) :
    Quiet server (sendCompactOverview registry server modules fallbackAll).2 := by
  unfold sendCompactOverview
  split
  · exact watchSendInfof_quiet ..
  · exact watchSendInfof_quiet ..
  · exact watchSendInfof_quiet ..
  · exact watchSendText_quiet ..

theorem watchSendBatchOverview_quiet (registry : Registry) (server : Server) (modules : List Nat)
    (fallbackAll : Bool) :
    Quiet server (watchSendBatchOverview registry server modules fallbackAll).2 := by
  unfold watchSendBatchOverview
  split
  · have lines := watchSendInfos_quiet server
      (verboseOverview server.watch.changedPaths fallbackAll)
    dsimp only
    split
    · exact lines
    · split
      · exact lines.trans (watchSendInfof_quiet ..)
      · exact lines.trans (watchSendText_quiet ..)
  · exact sendCompactOverview_quiet ..

/-- The summary of a run is a text to the client. -/
theorem emitFastPathSummary_quiet (result : RunnerResult) (watchActive : Bool) :
    Quiet server (emitFastPathSummary server result watchActive).2 := by
  unfold emitFastPathSummary
  split
  · exact watchSendText_quiet ..
  · exact .refl server

/-- Sending the result of a run is quiet. -/
theorem sendRunResult_quiet (result : RunnerResult) (attached : Bool) :
    Quiet server (sendRunResult server answers result attached).2 := by
  unfold sendRunResult
  split
  · exact .refl server
  · split
    · exact .refl server
    · have sent := sendClient_quiet server
        (.result server.currentRequestId (effectiveState server) result.ok server.worker.exitCode)
      dsimp only
      split
      · exact sent
      · exact sent.trans (handleClientDisconnect_quiet _)

/-- Attaching the client of a new session is quiet. -/
theorem watchAttachClient_quiet : Quiet server (watchAttachClient server answers requestId) := by
  have watched : Quiet server
      (if answers.clientSource then { server with watch.clientSource := true }
        else watchDetachClient server) := by
    split
    · exact clientSource_quiet server true
    · exact watchDetachClient_quiet server
  unfold watchAttachClient
  dsimp only
  revert watched
  generalize (if answers.clientSource = true then _ else _ : Server) = attached
  intro watched
  split
  · exact watched
  · rename_i fd _
    have sent := send_quiet attached fd (.ack requestId)
    split
    · exact watched.trans sent
    · exact watched.trans (sent.trans (watchDetachClient_quiet _))

theorem watchAnnounceRoots_quiet : Quiet server (watchAnnounceRoots server).2 := by
  unfold watchAnnounceRoots
  split
  · exact watchSendInfos_quiet ..
  · exact .refl server

/-! ## Watching directories -/

/-- The session after some directories were scanned: only what is watched changed, and a scan may
ask for another one. -/
structure Scanned (before after : WatchSession) : Prop where
  /-- Nothing else changed. -/
  same : after = { before with
    inotifyFd := after.inotifyFd, inotifySource := after.inotifySource,
    watchedDirs := after.watchedDirs, rescanRequired := after.rescanRequired }
  /-- A required scan stays required. -/
  rescan : before.rescanRequired = true → after.rescanRequired = true

namespace Scanned

variable {before middle after : WatchSession}

theorem refl (watch : WatchSession) : Scanned watch watch := ⟨rfl, id⟩

theorem trans (first : Scanned before middle) (second : Scanned middle after) :
    Scanned before after := by
  have same := second.same
  rw [first.same] at same
  exact ⟨same, fun required => second.rescan (first.rescan required)⟩

theorem active (scanned : Scanned before after) : after.active = before.active := by
  rw [scanned.same]

end Scanned

theorem addDirectory_scanned (watch : WatchSession) (path : StringView) (answer : AddWatch) :
    Scanned watch (addDirectory watch path answer).2 := by
  unfold addDirectory
  split
  · exact .refl watch
  · split
    · exact .refl watch
    · cases answer with
      | watched wd => exact ⟨rfl, id⟩
      | absent => exact ⟨rfl, fun _ => rfl⟩
      | refused => exact .refl watch

mutual

/-- Scanning a directory tree, by recursion on the tree. -/
theorem addDirectoryRecursive_scanned (watch : WatchSession) (path : StringView) :
    ∀ tree, Scanned watch (addDirectoryRecursive watch path tree).2
  | .missing => by
    simp only [addDirectoryRecursive]
    exact ⟨rfl, fun _ => rfl⟩
  | .unreadable => by
    simp only [addDirectoryRecursive]
    exact .refl watch
  | .file answer => by
    simp only [addDirectoryRecursive]
    exact addDirectory_scanned watch path answer
  | .locked answer => by
    simp only [addDirectoryRecursive]
    exact addDirectory_scanned watch path answer
  | .folder answer entries => by
    have added := addDirectory_scanned watch path answer
    simp only [addDirectoryRecursive]
    split
    · exact added.trans (addEntries_scanned _ path entries)
    · exact added

/-- Scanning the entries of a directory, by recursion on the entries. -/
theorem addEntries_scanned (watch : WatchSession) (path : StringView) :
    ∀ entries, Scanned watch (addEntries watch path entries).2
  | .nil => by
    simp only [addEntries]
    exact .refl watch
  | .cons name tree rest => by
    have others := fun watch => addEntries_scanned watch path rest
    cases tree with
    | missing | unreadable | file answer =>
      simp only [addEntries]
      split
      · exact .refl watch
      · exact others watch
    | locked answer =>
      simp only [addEntries]
      split
      · exact .refl watch
      · exact addDirectory_scanned ..
    | folder answer entries =>
      have child := addDirectoryRecursive_scanned watch (path ++ '/' :: name)
        (.folder answer entries)
      simp only [addEntries]
      split
      · exact .refl watch
      · split
        · exact child.trans (others _)
        · exact child

end

theorem registerRoot_scanned (watch : WatchSession) (root : StringView) (scan : RootScan) :
    Scanned watch (registerRoot watch root scan).2 := by
  cases scan with
  | directory tree => exact addDirectoryRecursive_scanned ..
  | other parent =>
    simp only [registerRoot]
    split
    · exact .refl watch
    · exact addDirectory_scanned ..

theorem registerEach_scanned (watch : WatchSession) (roots : List StringView)
    (scans : List RootScan) : Scanned watch (registerEach watch roots scans).2 := by
  induction roots generalizing watch scans with
  | nil => exact .refl watch
  | cons root rest ih =>
    have first := registerRoot_scanned watch root (scans.headD (.other .absent))
    simp only [registerEach]
    split
    · exact first.trans (ih _ _)
    · exact first

/-- Registering the roots changes only what is watched. -/
theorem registerRoots_scanned (watch : WatchSession) (scan : RootsScan) :
    Scanned watch (registerRoots watch scan).2 := by
  have opened : Scanned watch { watch with
      inotifySource := true, inotifyFd := true, watchedDirs := [] } := ⟨rfl, id⟩
  unfold registerRoots
  dsimp only
  split
  · exact ⟨rfl, id⟩
  · split
    · exact ⟨rfl, id⟩
    · exact opened.trans (registerEach_scanned ..)

/-! ## Noting changes -/

/-- The server after some changes were noted: paths are recorded, each of them among the changed
paths of the session, and nothing that was noted before is forgotten. -/
structure Noted (before after : Server) : Prop where
  /-- Nothing else changed. -/
  same : after = { before with
    watch := { before.watch with
      inotifyFd := after.watch.inotifyFd, inotifySource := after.watch.inotifySource,
      debounceSource := after.watch.debounceSource, watchedDirs := after.watch.watchedDirs,
      rescanRequired := after.watch.rescanRequired, changedPaths := after.watch.changedPaths }
    log := after.log }
  /-- A required scan stays required. -/
  rescan : before.watch.rescanRequired = true → after.watch.rescanRequired = true
  /-- No changed path is lost. -/
  changed : ∀ path ∈ before.watch.changedPaths, path ∈ after.watch.changedPaths
  /-- What is recorded is a changed path. -/
  log : ∃ acts, after.log = acts ++ before.log ∧
    ∀ act ∈ acts, ∃ path ∈ after.watch.changedPaths, act = .recorded path

namespace Noted

variable {before middle after : Server}

theorem refl : Noted server server :=
  ⟨rfl, id, fun _ mem => mem, [], rfl, by simp⟩

theorem trans (first : Noted before middle) (second : Noted middle after) : Noted before after := by
  obtain ⟨firstActs, firstLog, firstOnly⟩ := first.log
  obtain ⟨secondActs, secondLog, secondOnly⟩ := second.log
  have same := second.same
  rw [first.same] at same
  refine ⟨same, fun required => second.rescan (first.rescan required),
    fun path mem => second.changed path (first.changed path mem), secondActs ++ firstActs, ?_, ?_⟩
  · rw [secondLog, firstLog, append_assoc]
  · intro act mem
    rcases mem_append.mp mem with mem | mem
    · exact secondOnly act mem
    · obtain ⟨path, noted, same⟩ := firstOnly act mem
      exact ⟨path, second.changed path noted, same⟩

variable (noted : Noted before after)

include noted

theorem worker : after.worker = before.worker := by rw [noted.same]

theorem state : after.state = before.state := by rw [noted.same]

theorem shuttingDown : after.shuttingDown = before.shuttingDown := by
  rw [noted.same]

theorem exitRequested : after.exitRequested = before.exitRequested := by
  rw [noted.same]

theorem active : after.watch.active = before.watch.active := by
  rw [noted.same]

theorem closing : after.watch.closing = before.watch.closing := by
  rw [noted.same]

end Noted

/-- A scan that is asked for. -/
theorem rescan_noted : Noted server { server with watch.rescanRequired := true } :=
  ⟨rfl, fun _ => rfl, fun _ mem => mem, [], rfl, by simp⟩

/-- Scanning directories notes nothing. -/
theorem Scanned.noted {server : Server} {watch : WatchSession}
    (scanned : Scanned server.watch watch) : Noted server { server with watch := watch } := by
  refine ⟨?_, scanned.rescan, ?_, [], rfl, by simp⟩
  · rw [scanned.same]
  · intro path mem
    rw [scanned.same]
    exact mem

/-- A path that is appended is among the paths, and so are the others. -/
theorem appendUnique_spec (paths : List StringView) (path : StringView) :
    (∀ other ∈ paths, other ∈ (appendUnique paths path).2) ∧
      ((appendUnique paths path).1 = true → path ∈ (appendUnique paths path).2) := by
  unfold appendUnique
  split
  · exact ⟨fun _ mem => mem, by simp⟩
  · split
    · rename_i present
      exact ⟨fun _ mem => mem, fun _ => by simpa using present⟩
    · exact ⟨fun other mem => mem_append_left _ mem, fun _ => by simp⟩

/-- Recording a path notes it. -/
theorem appendUnique_noted (path : StringView) :
    Noted server { server with
      watch := { server.watch with
        changedPaths := (appendUnique server.watch.changedPaths path).2 }
      log := if (appendUnique server.watch.changedPaths path).1 then .recorded path :: server.log
        else server.log } := by
  obtain ⟨kept, present⟩ := appendUnique_spec server.watch.changedPaths path
  refine ⟨rfl, id, kept, ?_⟩
  cases appended : (appendUnique server.watch.changedPaths path).1 with
  | true =>
    refine ⟨[.recorded path], rfl, ?_⟩
    intro act mem
    exact ⟨path, present appended, mem_singleton.mp mem⟩
  | false => exact ⟨[], rfl, by simp⟩

theorem noteChangedPath_noted (index : Nat) (fullPath : StringView) (event : InotifyEvent) :
    Noted server (noteChangedPath server index fullPath event).2 := by
  have scanned := addDirectoryRecursive_scanned server.watch fullPath event.tree
  unfold noteChangedPath
  dsimp only
  generalize same : (if event.newDirectory = true then _ else _ : WatchSession) = watch
  have added : Noted server { server with watch := watch } := by
    rw [← same]
    split
    · split
      · exact scanned.noted
      · exact scanned.noted.trans (rescan_noted _)
    · exact .refl server
  have removed : Noted { server with watch := watch } { server with watch :=
      if event.directoryGone then
        { watch with rescanRequired := true, watchedDirs := watch.watchedDirs.eraseIdx index }
      else watch } := by
    split
    · exact ⟨rfl, fun _ => rfl, fun _ mem => mem, [], rfl, by simp⟩
    · exact .refl _
  exact (added.trans removed).trans (appendUnique_noted _ fullPath)

theorem noteInotifyEvent_noted (event : InotifyEvent) :
    Noted server (noteInotifyEvent server event).2 := by
  unfold noteInotifyEvent
  split
  · exact rescan_noted server
  · dsimp only
    split
    · exact rescan_noted server
    · split
      · split
        · exact .refl server
        · exact noteChangedPath_noted ..
      · split
        · exact rescan_noted server
        · exact noteChangedPath_noted ..

theorem noteInotifyEvents_noted (events : List InotifyEvent) :
    Noted server (noteInotifyEvents server events).2 := by
  induction events generalizing server with
  | nil => exact .refl server
  | cons event rest ih => exact (noteInotifyEvent_noted server event).trans (ih _)

theorem watchScheduleDebounce_noted : Noted server (watchScheduleDebounce server answers).2 := by
  unfold watchScheduleDebounce
  split
  · exact ⟨rfl, id, fun _ mem => mem, [], rfl, by simp⟩
  · exact .refl server

/-- The handler of the inotify descriptor only notes changes. -/
theorem onWatchInotify_noted (events : List InotifyEvent) (readFailed : Bool) :
    Noted server (onWatchInotify server answers events readFailed) := by
  have noted := noteInotifyEvents_noted server events
  have failed : Noted server (if readFailed then
      { (noteInotifyEvents server events).2 with watch.rescanRequired := true }
      else (noteInotifyEvents server events).2) := by
    split
    · exact noted.trans (rescan_noted _)
    · exact noted
  unfold onWatchInotify
  split
  · exact .refl server
  · dsimp only
    revert failed
    generalize (if readFailed = true then _ else _ : Server) = marked
    intro failed
    split
    · exact failed.trans (watchScheduleDebounce_noted ..)
    · exact failed

end Nobify.Daemon
