import Nsl.Proxy.Serving
import Nsl.Run.Session

/-! # One run of a static server

  `nsl serve` is an app of its own: it binds a port, registers a route to that
  port under its own pid, and accepts connections until SIGINT or SIGTERM
  comes. The handlers of the signals are installed when the accept loop first
  runs. When the loop is left the listener is closed, and then the route is
  removed.

  Signals, failures and the calls of other processes can come at any time.

  - `step`: one step of the server, a signal, or a call of another process.
  - `Inv`: what every state of a run keeps.
  - `listed_is_served`: a route that stands in the file leads to the open
    listener until the loop is left, and what the server leaves behind.
  - `server_stays_reachable`: until then the requests for it are answered.

  Unix only. What is printed is left out, and so are the connections.
-/

open Rust Framework

namespace Nsl.ServeApp

/-! ### States -/

inductive Signal where
  | interrupt
  | terminate
deriving DecidableEq

/-- Where `serve_app` stands. -/
inductive Phase where
  /-- before it listens: the directory, the hostname, the proxy, a free port -/
  | starting
  | bound
  | registered
  | accepting
  /-- a signal has come, and the loop is not left yet -/
  | leaving
  | stopping
  | ended (ok : Bool)
  /-- by a signal that is not handled, or by SIGKILL -/
  | killed (sig : Option Signal)
deriving DecidableEq

structure State where
  phase : Phase
  /-- the port of the listener, while it is open -/
  listener : Option UInt16
  /-- the signals that do not end the process -/
  handled : List Signal
  /-- the removal has returned `Ok` -/
  removed : Bool
  file : RoutesFile

/-- What `serve_app` knows before it has a port. -/
structure Server where
  hostname : Str
  mount : MountPath
  strip_prefix : Bool
  app_force : Bool
  pid : UInt32
  /-- what `build_owner` records -/
  owner : RouteOwner

/-- A static server does not look at the Host header, so `change_origin` is
    never set. -/
def Server.registration (server : Server) (port : UInt16) : Registration where
  hostname := server.hostname
  port := port
  pid := server.pid
  owner := some server.owner
  force := server.app_force
  change_origin := false
  mount := server.mount
  strip_prefix := server.strip_prefix

/-- The route of the server on a port. -/
def Server.route (server : Server) (port : UInt16) : RouteMapping :=
  (server.registration port).stored

def Server.removal (server : Server) : Call :=
  .remove_route_for_pid server.hostname (path_filter server.mount.path) server.pid

/-! ### Steps -/

inductive Action where
  /-- one of the steps before the listener fails, or binding it does -/
  | fail
  | bind (port : UInt16)
  | add_route_with_owner (os : Os)
  /-- `shutdown_signal` is polled for the first time -/
  | install_handlers (interrupt terminate : Bool)
  | leave
  | remove_route_for_pid (os : Os)
  | signal (sig : Signal)
  /-- SIGKILL -/
  | kill
  /-- a call of another process -/
  | other (os : Os) (call : Call)

def Phase.over : Phase → Bool
  | .ended _ => true
  | .killed _ => true
  | _ => false

def State.signal (s : State) (sig : Signal) : State :=
  if s.phase.over then s
  else if sig ∈ s.handled then
    match s.phase with
    | .accepting => { s with phase := .leaving }
    -- nobody looks at it
    | _ => s
  else { s with phase := .killed (some sig), listener := none }

def step (server : Server) (s : State) : Action → Option State
  | .fail =>
    match s.phase with
    | .starting => some { s with phase := .ended false }
    | _ => none
  | .bind port =>
    match s.phase with
    | .starting => some { s with phase := .bound, listener := some port }
    | _ => none
  | .add_route_with_owner os =>
    match s.phase, s.listener with
    | .bound, some port =>
      match run os (.add_route_with_owner (server.registration port)) s.file with
      | (.error _, file) => some { s with phase := .ended false, listener := none, file := file }
      | (.ok (), file) => some { s with phase := .registered, file := file }
    | _, _ => none
  | .install_handlers interrupt terminate =>
    match s.phase with
    | .registered =>
      if interrupt && terminate then
        some { s with phase := .accepting, handled := [.interrupt, .terminate] }
      -- `shutdown_signal` returns, and so does the loop
      else
        some { s with
          phase := .stopping
          listener := none
          handled := if interrupt then [.interrupt] else [] }
    | _ => none
  | .leave =>
    match s.phase with
    | .leaving => some { s with phase := .stopping, listener := none }
    | _ => none
  | .remove_route_for_pid os =>
    match s.phase with
    | .stopping =>
      match run os server.removal s.file with
      | (.ok (), file) => some { s with phase := .ended true, removed := true, file := file }
      -- the error is ignored
      | (.error _, file) => some { s with phase := .ended true, file := file }
    | _ => none
  | .signal sig => some (s.signal sig)
  | .kill => if s.phase.over then none else some { s with phase := .killed none, listener := none }
  | .other os call => some { s with file := (run os call s.file).2 }

/-- A server that is about to start, with any routes in the file. -/
def start (file : RoutesFile) : State where
  phase := .starting
  listener := none
  handled := []
  removed := false
  file := file

/-- No route in the file has the pid of the server. -/
def Unlisted (server : Server) (file : RoutesFile) : Prop :=
  ∀ r ∈ file.routes, r.pid ≠ server.pid

/-- The routes in the file do not have the pid of the server when it starts. -/
def system (server : Server) : System State Action where
  init s := ∃ file, s = start file ∧ Unlisted server file
  step := step server

/-! ### The law -/

/-- The loop has not been left. -/
def Phase.running : Phase → Bool
  | .starting | .bound | .registered | .accepting | .leaving => true
  | _ => false

/-- No other process registers a route under the pid of the server. -/
def Ordinary (server : Server) (_ : State) (a : Action) (_ : State) : Prop :=
  match a with
  | .other _ call => ∀ reg, call = .add_route_with_owner reg → reg.pid ≠ server.pid
  | _ => True

structure Lawful (server : Server) (s : State) : Prop where
  /-- a route that stands in the file leads to the open listener -/
  served : s.phase.running = true → ∀ r ∈ s.file.routes, r.pid = server.pid →
    ∃ port, s.listener = some port ∧ r = server.route port
  /-- a server that fails has left nothing -/
  failed : s.phase = .ended false → Unlisted server s.file
  /-- nor has one whose removal could be written -/
  removed : s.removed = true → ¬ ['/', '/'] <:+ server.mount.path → Unlisted server s.file
  /-- a signal that ends the process on the spot came before its handler -/
  killed : ∀ sig, s.phase = .killed (some sig) → sig ∉ s.handled

/-! ### The file -/

/-- A call that fails has written nothing, or half of it. -/
theorem run_error_file {os : Os} {call : Call} {file file' : RoutesFile} {e : NSLError}
    (h : run os call file = (.error e, file')) : file' = file ∨ file' = .malformed := by
  unfold run at h
  split at h
  · cases h
    exact .inl rfl
  · split at h
    · cases h
      exact .inl rfl
    · unfold save_routes at h
      split at h <;> cases h
      · exact .inl rfl
      · exact .inr rfl

theorem Unlisted.run_error {server : Server} {os : Os} {call : Call} {file file' : RoutesFile}
    {e : NSLError} (h : Unlisted server file) (hrun : run os call file = (.error e, file')) :
    Unlisted server file' := by
  rcases run_error_file hrun with rfl | rfl
  · exact h
  · intro r hr
    cases hr

/-- The calls of others do not list the server. -/
theorem Unlisted.other {server : Server} {os : Os} {call : Call} {file : RoutesFile}
    (h : Unlisted server file)
    (hother : ∀ reg, call = .add_route_with_owner reg → reg.pid ≠ server.pid) :
    Unlisted server (run os call file).2 := by
  intro r hr
  rcases Session.mem_run_cases hr with hr | ⟨reg, hcall, hpid⟩
  · exact h r hr
  · rw [hpid]
    exact hother reg hcall

/-- The registration lists the one route of the server. -/
theorem mem_add_route {server : Server} {port : UInt16} {os : Os} {file file' : RoutesFile}
    (h : Unlisted server file)
    (hrun : run os (.add_route_with_owner (server.registration port)) file = (.ok (), file')) :
    ∀ r ∈ file'.routes, r.pid = server.pid → r = server.route port := by
  rw [Serving.add_route_file hrun]
  intro r hr hpid
  rcases List.mem_append.mp hr with hr | hr
  · exact absurd hpid (h r (List.mem_of_mem_filter (List.mem_of_mem_filter hr)))
  · exact List.mem_singleton.mp hr

/-- The removal takes every route off that has been registered by the server. -/
theorem removal_unlists {server : Server} {os : Os} {file file' : RoutesFile}
    (hslashes : ¬ ['/', '/'] <:+ server.mount.path)
    (hown : ∀ r ∈ file.routes, r.pid = server.pid → ∃ port, r = server.route port)
    (hrun : run os server.removal file = (.ok (), file')) : Unlisted server file' := by
  have hgone : ∀ r ∈ file'.routes, ¬ Session.OfSession (server.registration 0) server.pid r :=
    Session.removal_removes hslashes hrun
  intro r hr hpid
  have hold : r ∈ file.routes := by
    have hr' : r ∈ (run os server.removal file).2.routes := by
      rw [hrun]
      exact hr
    rcases Session.mem_run_cases hr' with hold | ⟨reg, hcall, _⟩
    · exact hold
    · cases hcall
  obtain ⟨port, rfl⟩ := hown r hold hpid
  exact hgone _ hr ⟨rfl, rfl, rfl⟩

/-! ### The invariant -/

/-- Before the registration, and after one that has failed. -/
def Phase.unlisted : Phase → Bool
  | .starting | .bound | .ended false => true
  | _ => false

structure Inv (server : Server) (s : State) : Prop where
  unlisted : s.phase.unlisted = true → Unlisted server s.file
  own : ∀ r ∈ s.file.routes, r.pid = server.pid →
    ∃ port, r = server.route port ∧ (s.phase.running = true → s.listener = some port)
  removed : s.removed = true → s.phase = .ended true ∧
    (¬ ['/', '/'] <:+ server.mount.path → Unlisted server s.file)
  killed : ∀ sig, s.phase = .killed (some sig) → sig ∉ s.handled

variable {server : Server}

theorem inv_start {file : RoutesFile} (h : Unlisted server file) : Inv server (start file) where
  unlisted _ := h
  own r hr hpid := absurd hpid (h r hr)
  removed hremoved := by cases hremoved
  killed := nofun

theorem Inv.not_removed {s : State} (h : Inv server s) (hphase : s.phase ≠ .ended true) :
    s.removed = false := by
  cases hremoved : s.removed with
  | false => rfl
  | true => exact absurd (h.removed hremoved).1 hphase

/-- A step that leaves the file and the routes of the server as they are. -/
theorem Inv.moves {s : State} (h : Inv server s) (phase : Phase) (listener : Option UInt16)
    (handled : List Signal) (hphase : s.phase ≠ .ended true)
    (hunlisted : phase.unlisted = true → s.phase.unlisted = true)
    (hrunning : phase.running = true →
      s.phase.unlisted = true ∨ s.phase.running = true ∧ listener = s.listener)
    (hkilled : ∀ sig, phase = .killed (some sig) → sig ∉ handled) :
    Inv server { s with phase := phase, listener := listener, handled := handled } where
  unlisted hphase' := h.unlisted (hunlisted hphase')
  own r hr hpid := by
    obtain ⟨port, hroute, hlistener⟩ := h.own r hr hpid
    refine ⟨port, hroute, fun hphase' => ?_⟩
    rcases hrunning hphase' with hbefore | ⟨hbefore, rfl⟩
    · exact absurd hpid (h.unlisted hbefore r hr)
    · exact hlistener hbefore
  removed hremoved := by rw [h.not_removed hphase] at hremoved; cases hremoved
  killed := hkilled

theorem Inv.signal {s : State} (h : Inv server s) (sig : Signal) : Inv server (s.signal sig) := by
  unfold State.signal
  split
  · exact h
  · next hover =>
    have hphase : s.phase ≠ .ended true := by
      rintro heq
      rw [heq] at hover
      exact hover rfl
    split
    · split
      · next haccepting =>
        exact h.moves .leaving s.listener s.handled hphase nofun
          (fun _ => .inr ⟨by rw [haccepting]; rfl, rfl⟩) nofun
      · exact h
    · next hhandled =>
      refine h.moves (.killed (some sig)) none s.handled hphase nofun nofun ?_
      intro sig' heq
      cases heq
      exact hhandled

theorem Inv.add_route {s s' : State} {os : Os} (h : Inv server s)
    (hstep : step server s (.add_route_with_owner os) = some s') : Inv server s' := by
  simp only [ServeApp.step] at hstep
  split at hstep
  · next _ _ port hphase hlistener =>
    have hnone : Unlisted server s.file := h.unlisted (by rw [hphase]; rfl)
    have hnot := h.not_removed (by simp [hphase])
    split at hstep
    · next file hrun =>
      cases hstep
      have hafter := hnone.run_error hrun
      refine ⟨fun _ => hafter, fun r hr hpid => absurd hpid (hafter r hr), ?_, nofun⟩
      intro hremoved
      rw [hnot] at hremoved
      cases hremoved
    · next file hrun =>
      cases hstep
      refine ⟨nofun, fun r hr hpid => ?_, ?_, nofun⟩
      · exact ⟨port, mem_add_route hnone hrun r hr hpid, fun _ => hlistener⟩
      · intro hremoved
        rw [hnot] at hremoved
        cases hremoved
  · cases hstep

theorem Inv.remove_route {s s' : State} {os : Os} (h : Inv server s)
    (hstep : step server s (.remove_route_for_pid os) = some s') : Inv server s' := by
  have hkept : ∀ r ∈ (run os server.removal s.file).2.routes, r ∈ s.file.routes := by
    intro r hr
    rcases Session.mem_run_cases hr with hold | ⟨reg, hcall, _⟩
    · exact hold
    · cases hcall
  have hown : ∀ r ∈ s.file.routes, r.pid = server.pid → ∃ port, r = server.route port := by
    intro r hr hpid
    obtain ⟨port, hroute, _⟩ := h.own r hr hpid
    exact ⟨port, hroute⟩
  simp only [ServeApp.step] at hstep
  split at hstep
  · next hphase =>
    split at hstep
    · next file hrun =>
      cases hstep
      refine ⟨nofun, fun r hr hpid => ?_, fun _ => ⟨rfl, fun hslashes => ?_⟩, nofun⟩
      · obtain ⟨port, hroute⟩ := hown r (hkept r (by rw [hrun]; exact hr)) hpid
        exact ⟨port, hroute, nofun⟩
      · exact removal_unlists hslashes hown hrun
    · next file hrun =>
      cases hstep
      refine ⟨nofun, fun r hr hpid => ?_, fun hremoved => ?_, nofun⟩
      · obtain ⟨port, hroute⟩ := hown r (hkept r (by rw [hrun]; exact hr)) hpid
        exact ⟨port, hroute, nofun⟩
      · rw [h.not_removed (by simp [hphase])] at hremoved
        cases hremoved
  · cases hstep

/-- A call of another process lists nothing under the pid of the server. -/
theorem Inv.other {s : State} {os : Os} {call : Call} (h : Inv server s)
    (hother : ∀ reg, call = .add_route_with_owner reg → reg.pid ≠ server.pid) :
    Inv server { s with file := (run os call s.file).2 } where
  unlisted hphase := (h.unlisted hphase).other hother
  own r hr hpid := by
    rcases Session.mem_run_cases hr with hold | ⟨reg, hcall, hregpid⟩
    · exact h.own r hold hpid
    · exact absurd (hregpid.symm.trans hpid) (hother reg hcall)
  removed hremoved := by
    obtain ⟨hphase, hnone⟩ := h.removed hremoved
    exact ⟨hphase, fun hslashes => (hnone hslashes).other hother⟩
  killed := h.killed

theorem Inv.step {s s' : State} {a : Action} (h : Inv server s)
    (hstep : step server s a = some s') (hordinary : Ordinary server s a s') : Inv server s' := by
  cases a with
  | fail =>
    simp only [ServeApp.step] at hstep
    split at hstep
    · next hphase =>
      cases hstep
      exact h.moves (.ended false) s.listener s.handled (by simp [hphase])
        (fun _ => by rw [hphase]; rfl) nofun nofun
    · cases hstep
  | bind port =>
    simp only [ServeApp.step] at hstep
    split at hstep
    · next hphase =>
      cases hstep
      have hbefore : s.phase.unlisted = true := by rw [hphase]; rfl
      exact h.moves .bound (some port) s.handled (by simp [hphase]) (fun _ => hbefore)
        (fun _ => .inl hbefore) nofun
    · cases hstep
  | add_route_with_owner os => exact h.add_route hstep
  | install_handlers interrupt terminate =>
    simp only [ServeApp.step] at hstep
    split at hstep
    · next hphase =>
      split at hstep
      · cases hstep
        exact h.moves .accepting s.listener _ (by simp [hphase]) nofun
          (fun _ => .inr ⟨by rw [hphase]; rfl, rfl⟩) nofun
      · cases hstep
        exact h.moves .stopping none _ (by simp [hphase]) nofun nofun nofun
    · cases hstep
  | leave =>
    simp only [ServeApp.step] at hstep
    split at hstep
    · next hphase =>
      cases hstep
      exact h.moves .stopping none s.handled (by simp [hphase]) nofun nofun nofun
    · cases hstep
  | remove_route_for_pid os => exact h.remove_route hstep
  | signal sig =>
    cases hstep
    exact h.signal sig
  | kill =>
    simp only [ServeApp.step] at hstep
    split at hstep
    · cases hstep
    · next hover =>
      cases hstep
      refine h.moves (.killed none) none s.handled ?_ nofun nofun nofun
      rintro heq
      rw [heq] at hover
      exact hover rfl
  | other os call =>
    cases hstep
    exact h.other hordinary

/-! ### Whole runs -/

theorem inv_of_steps {s s' : State} {acts : List Action} (hinit : (system server).init s)
    (hrun : (system server).Steps (Ordinary server) s acts s') : Inv server s' := by
  obtain ⟨file, rfl, hfile⟩ := hinit
  exact hrun.invariant (inv_start hfile) fun _ _ _ h hstep hordinary => h.step hstep hordinary

/-- A site, its directory in the root of the file system. -/
def site : Server where
  hostname := "site.localhost".toList
  mount := .of_name "site".toList
  strip_prefix := false
  app_force := false
  pid := 9
  owner := ⟨9, "linux".toList, "/".toList, ["nsl".toList, "serve".toList, "/site".toList], some 9,
    some 100⟩

def to_the_loop : List Action :=
  [.bind 4001, .add_route_with_owner .calm, .install_handlers true true]

/-- When the loop is left the listener is closed, and the route is still
    listed. -/
example : (((system site).replay System.anyStep (start .absent)
    (to_the_loop ++ [.signal .terminate, .leave])).map fun s =>
      (s.phase, s.listener, s.file.routes.length)) = some (.stopping, none, 1) := by
  decide

/-! ### Its requests -/

/-- After the registration, until the loop is left. -/
def Phase.listed : Phase → Bool
  | .registered | .accepting | .leaving => true
  | _ => false

/-- A call of another process that spares the route of the server, and
    registers nothing under its pid. -/
def Spared (server : Server) (s : State) (a : Action) (s' : State) : Prop :=
  Ordinary server s a s' ∧
    match a with
    | .other os call => ∀ port, s.listener = some port →
      Serving.Spares (server.route port) s.file (os, call) s'.file
    | _ => True

/-- The route of the server is in the file as long as it has not left its
    loop. -/
def Listed (server : Server) (s : State) : Prop :=
  s.phase.listed = true → ∃ port, s.listener = some port ∧ server.route port ∈ s.file.routes

/-- A step that does not change the file, and lists nothing new. -/
theorem Listed.moves {s s' : State} (h : Listed server s)
    (hphase : s'.phase.listed = true → s.phase.listed = true ∧ s'.listener = s.listener)
    (hfile : s'.file = s.file) : Listed server s' := by
  intro hlisted
  obtain ⟨hbefore, hlistener⟩ := hphase hlisted
  rw [hlistener, hfile]
  exact h hbefore

theorem Listed.signal {s : State} (h : Listed server s) (sig : Signal) :
    Listed server (s.signal sig) := by
  unfold State.signal
  split
  · exact h
  · split
    · split
      · next haccepting => exact h.moves (fun _ => ⟨by rw [haccepting]; rfl, rfl⟩) rfl
      · exact h
    · exact h.moves nofun rfl

theorem Listed.step {s s' : State} {a : Action} (h : Listed server s)
    (hstep : step server s a = some s') (hspared : Spared server s a s') : Listed server s' := by
  cases a with
  | fail =>
    simp only [ServeApp.step] at hstep
    split at hstep <;> cases hstep
    exact h.moves nofun rfl
  | bind port =>
    simp only [ServeApp.step] at hstep
    split at hstep <;> cases hstep
    exact h.moves nofun rfl
  | add_route_with_owner os =>
    simp only [ServeApp.step] at hstep
    split at hstep
    · next _ _ port _ hlistener =>
      split at hstep
      · cases hstep
        nofun
      · next file hrun =>
        cases hstep
        refine fun _ => ⟨port, hlistener, ?_⟩
        rw [Serving.add_route_file hrun]
        exact List.mem_append_right _ List.mem_cons_self
    · cases hstep
  | install_handlers interrupt terminate =>
    simp only [ServeApp.step] at hstep
    split at hstep
    · next hphase =>
      split at hstep <;> cases hstep
      · exact h.moves (fun _ => ⟨by rw [hphase]; rfl, rfl⟩) rfl
      · exact h.moves nofun rfl
    · cases hstep
  | leave =>
    simp only [ServeApp.step] at hstep
    split at hstep <;> cases hstep
    exact h.moves nofun rfl
  | remove_route_for_pid os =>
    simp only [ServeApp.step] at hstep
    split at hstep
    · split at hstep <;> cases hstep <;> nofun
    · cases hstep
  | signal sig =>
    cases hstep
    exact h.signal sig
  | kill =>
    simp only [ServeApp.step] at hstep
    split at hstep <;> cases hstep
    exact h.moves nofun rfl
  | other os call =>
    cases hstep
    intro hlisted
    obtain ⟨port, hlistener, hmem⟩ := h hlisted
    obtain ⟨hdrops, hloads, hwrite⟩ := hspared.2 port hlistener
    exact ⟨port, hlistener, Serving.mem_run hmem hdrops hloads hwrite⟩

/-- **A static server stays reachable** until its loop is left: a request for
    its host and below its mount goes to a live route that it is for, and where
    that is the route of the server, the listener on its port is open. The proxy
    has loaded the file. -/
theorem server_stays_reachable (server : Server) {s s' : State} {acts : List Action}
    (hinit : (system server).init s) (hrun : (system server).Steps (Spared server) s acts s')
    (hphase : s'.phase.listed = true) {alive : UInt32 → Bool} {uri_ok : Str → Bool}
    {proxy : Proxy} (halive : alive server.pid = true)
    (hcache : proxy.routes = Poller.load_routes_from_disk alive s'.file) :
    ∃ port, s'.listener = some port ∧
      ∀ req, Serving.Received req → Serving.Admitted proxy req →
        Serving.IsFor proxy req (server.route port) →
        ∃ route ∈ s'.file.routes, Serving.counts alive route = true ∧
          Serving.IsFor proxy req route ∧
          Serving.GoesTo uri_ok req route (handle_request uri_ok proxy req) ∧
          (route.pid = server.pid → route = server.route port) := by
  have hordinary : (system server).Steps (Ordinary server) s acts s' :=
    hrun.mono_of_invariant (I := fun _ => True) trivial fun _ _ _ _ _ hguard => ⟨trivial, hguard.1⟩
  have hinv := inv_of_steps hinit hordinary
  have hlisted : Listed server s' := by
    obtain ⟨file, rfl, _⟩ := hinit
    exact hrun.invariant nofun fun _ _ _ h hstep hspared => h.step hstep hspared
  obtain ⟨port, hlistener, hmem⟩ := hlisted hphase
  refine ⟨port, hlistener, fun req hreceived hadmitted hfor => ?_⟩
  have hcounts : Serving.counts alive (server.route port) = true :=
    Serving.counts_iff.mpr (.inr halive)
  have hcached : server.route port ∈ proxy.routes := by
    rw [hcache]
    exact Serving.mem_cache.mpr ⟨hmem, hcounts⟩
  obtain ⟨route, hfind, hgoes, hserves, _⟩ :=
    Serving.goesTo_longest uri_ok hreceived hadmitted hcached hfor
  obtain ⟨hfile, hcounted⟩ := Serving.mem_cache.mp (hcache ▸ find_route_mem hfind)
  refine ⟨route, hfile, hcounted, hserves, hgoes, fun hpid => ?_⟩
  have hrunning : s'.phase.running = true := by
    cases hp : s'.phase <;> rw [hp] at hphase <;> first | rfl | cases hphase
  obtain ⟨port', hroute, hlistener'⟩ := hinv.own route hfile hpid
  rw [hlistener] at hlistener'
  cases hlistener' hrunning
  exact hroute

def site_request : Request :=
  { Serving.shop_request "/" with headers := [⟨HOST, Http.bytes "site.localhost".toList⟩] }

/-- The site accepts connections, another app registers, and a browser asks. -/
theorem site_stays_reachable :
    ∃ s : State, s.phase = .accepting ∧ ∃ port, s.listener = some port ∧
      ∃ route ∈ s.file.routes, Serving.counts (fun _ => true) route = true ∧
        Serving.IsFor (Serving.shop_proxy s.file.routes) site_request route ∧
        Serving.GoesTo (fun _ => true) site_request route
          (handle_request (fun _ => true) (Serving.shop_proxy s.file.routes) site_request) ∧
        (route.pid = site.pid → route = site.route port) := by
  have hspares : ∀ s s' : State, s.listener = some 4001 →
      Spared site s (.other .calm (.add_route_with_owner Serving.shop)) s' := by
    intro s s' hlistener
    refine ⟨fun reg hcall => by cases hcall; decide, fun port hport => ?_⟩
    rw [hlistener] at hport
    cases hport
    exact ⟨by decide, by decide, by decide⟩
  have hrun : (system site).Steps (Spared site) (start .absent)
      (to_the_loop ++ [.other .calm (.add_route_with_owner Serving.shop)]) _ :=
    .cons rfl ⟨trivial, trivial⟩ (.cons rfl ⟨trivial, trivial⟩ (.cons rfl ⟨trivial, trivial⟩
      (.cons rfl (hspares _ _ rfl) .nil)))
  have hfile : Unlisted site .absent := fun r hr => absurd hr List.not_mem_nil
  have hmatches : hostname_matches "site.localhost".toList "site.localhost".toList
      ["localhost".toList] = true := by
    decide
  obtain ⟨port, hlistener, hgoes⟩ :=
    server_stays_reachable site ⟨.absent, rfl, hfile⟩ hrun rfl rfl
      (show (Serving.shop_proxy _).routes = Poller.load_routes_from_disk (fun _ => true) _ from rfl)
  exact ⟨_, rfl, port, hlistener, hgoes site_request ⟨.slash [], nofun⟩
    ⟨show "site.localhost".toList ≠ [] by decide, show (0 : UInt32) < 5 by decide⟩ ⟨hmatches, rfl⟩⟩

end Nsl.ServeApp
