import Nsl.Routes.Unregister

/-! # One run of an app

  `nsl run` spawns the app, registers its route, waits until the app accepts
  connections, installs its signal handlers, and then waits for the app or for
  a signal. A signal is passed on as SIGTERM. At the end the route is removed,
  and nsl exits with the code of the app.

  Signals can come at any time. Where no handler is installed for it, a signal
  ends nsl on the spot. What other processes do to the routes goes on all the
  while.

  - `step`: one step of nsl, of the app, of a signal, or of another process.
  - `Inv`: what every state of a run keeps.
  - `session_end`: how nsl ends, what becomes of the app, and of its route.

  Unix only. The route is removed by a call that may fail, which is ignored.
-/

open Rust Framework

namespace Nsl.Session

/-! ### Exit codes -/

/-- How a process has ended: with a code, or by a signal. -/
structure ExitStatus where
  code : Option Int
  signal : Option Int
deriving DecidableEq

def exit_code_from_status (status : ExitStatus) : Option Int :=
  match status.code with
  | some code => if code ≠ 0 then some code else none
  | none =>
    match status.signal with
    | some sig => some (128 + sig)
    | none => some 1

/-- Where `spawn_command` returns an error from. -/
inductive Failure where
  | spawn
  /-- `on_child_spawned` -/
  | registration
  | readiness
  | handlers
  | wait
deriving DecidableEq

/-- What `spawn_command` returns. -/
inductive Result where
  | code (code : Int)
  | error (cause : Failure)
deriving DecidableEq

/-! ### States -/

inductive Signal where
  | SIGINT
  | SIGTERM
  | SIGKILL
deriving DecidableEq

/-- Where `run_app` stands. -/
inductive Phase where
  | spawning
  | spawned
  | waiting_ready
  | ready
  | running
  | stopping
  | cleanup (result : Result)
  | ended (result : Result)
  | killed (signal : Signal)
deriving DecidableEq

structure State where
  phase : Phase
  child : Option UInt32
  exited : Option ExitStatus
  /-- nsl has sent SIGTERM to the child -/
  terminated : Bool
  sigint : Bool
  sigterm : Bool
  /-- 0 until the route is registered -/
  registered_child_pid : UInt32
  /-- what the removal has returned, once it has been called -/
  remove_result : Option (Except NSLError Unit)
  file : RoutesFile

/-- A handler is installed for the signal. -/
def State.handles (s : State) : Signal → Bool
  | .SIGINT => s.sigint
  | .SIGTERM => s.sigterm
  | .SIGKILL => false

inductive Action where
  /-- the child, unless spawning it fails -/
  | spawn (child : Option UInt32)
  /-- `on_child_spawned`, with the owner unless `build_route_owner` fails -/
  | on_child_spawned (owner : Option RouteOwner) (os : Os)
  | wait_for_app (ok : Bool)
  /-- SIGINT first, and SIGTERM only then -/
  | install_handlers (sigint sigterm : Bool)
  /-- `child.wait()` returns -/
  | wait_child (ok : Bool)
  | remove_route (os : Os)
  | child_exit (status : ExitStatus)
  | signal (signal : Signal)
  /-- a call of another process -/
  | other (os : Os) (call : Call)

/-- The registration of the child; `template` has what the command line
    gives. -/
def registration (template : Registration) (child : UInt32) (owner : RouteOwner) : Registration :=
  { template with pid := child, owner := some owner }

def removal (template : Registration) (child : UInt32) : Call :=
  .remove_route_for_pid template.hostname (template.mount.path |> path_filter) child

def State.signal (s : State) (sig : Signal) : State :=
  match s.phase with
  | .ended _ | .killed _ => s
  | .running =>
    if s.handles sig then { s with phase := .stopping, terminated := true }
    else { s with phase := .killed sig }
  -- a handler takes the signal, and nobody looks at it
  | _ => if s.handles sig then s else { s with phase := .killed sig }

def step (template : Registration) (s : State) : Action → Option State
  | .spawn child =>
    match s.phase, child with
    | .spawning, none => some { s with phase := .cleanup (.error .spawn) }
    | .spawning, some pid =>
      if pid = 0 then none else some { s with phase := .spawned, child := some pid }
    | _, _ => none
  | .on_child_spawned owner os =>
    match s.phase, s.child, owner with
    | .spawned, some _, none =>
      some { s with phase := .cleanup (.error .registration), terminated := true }
    | .spawned, some pid, some owner =>
      match run os (.add_route_with_owner (registration template pid owner)) s.file with
      | (.error _, file) =>
        some { s with phase := .cleanup (.error .registration), terminated := true, file := file }
      | (.ok (), file) =>
        some { s with phase := .waiting_ready, registered_child_pid := pid, file := file }
    | _, _, _ => none
  | .wait_for_app ok =>
    match s.phase with
    | .waiting_ready =>
      if ok then some { s with phase := .ready }
      else some { s with phase := .cleanup (.error .readiness), terminated := true }
    | _ => none
  | .install_handlers sigint sigterm =>
    match s.phase with
    | .ready =>
      if sigint && sigterm then some { s with phase := .running, sigint := true, sigterm := true }
      -- the child is left to itself
      else some { s with phase := .cleanup (.error .handlers), sigint := sigint }
    | _ => none
  | .wait_child ok =>
    if s.phase = .running ∨ s.phase = .stopping then
      match ok, s.exited with
      | true, some status =>
        some { s with phase := .cleanup (.code ((exit_code_from_status status).getD 0)) }
      | true, none => none
      | false, _ => some { s with phase := .cleanup (.error .wait) }
    else none
  | .remove_route os =>
    match s.phase with
    | .cleanup result =>
      if s.registered_child_pid ≠ 0 then
        let (remove_result, file) := run os (removal template s.registered_child_pid) s.file
        -- an error is ignored
        some { s with phase := .ended result, remove_result := some remove_result, file := file }
      else some { s with phase := .ended result }
    | _ => none
  | .child_exit status =>
    if s.child.isSome ∧ s.exited = none then some { s with exited := some status } else none
  | .signal sig => some (s.signal sig)
  | .other os call => some { s with file := (run os call s.file).2 }

/-- A run that is about to spawn its app, with any routes in the file. -/
def start (file : RoutesFile) : State where
  phase := .spawning
  child := none
  exited := none
  terminated := false
  sigint := false
  sigterm := false
  registered_child_pid := 0
  remove_result := none
  file := file

def system (template : Registration) : System State Action where
  init s := ∃ file, s = start file
  step := step template

/-! ### The law -/

/-- A route of this run: the child is registered under its hostname and
    path. -/
def OfSession (template : Registration) (pid : UInt32) (r : RouteMapping) : Prop :=
  r.hostname = template.hostname ∧ r.path_prefix = normalize_path_prefix template.mount.path ∧
    r.pid = pid

/-- No other process registers a route for the child. -/
def Alone (s : State) (a : Action) (_ : State) : Prop :=
  match a with
  | .other _ call => ∀ reg, call = .add_route_with_owner reg → s.child ≠ some reg.pid
  | _ => True

/-- What becomes of the child when `spawn_command` fails: it was not there, or it
    has been told to end, or it is left to itself. -/
def Failure.Leaves (s : State) : Failure → Prop
  | .spawn => s.child = none
  | .registration | .readiness => s.child.isSome ∧ s.terminated = true
  | .handlers => s.child.isSome ∧ s.terminated = false
  | .wait => s.child.isSome

/-- How a run ends. -/
structure EndsWell (template : Registration) (s : State) : Prop where
  /-- with the code of the child, once it is gone -/
  code : ∀ c, s.phase = .ended (.code c) →
    ∃ status, s.exited = some status ∧ c = (exit_code_from_status status).getD 0
  error : ∀ cause, s.phase = .ended (.error cause) → cause.Leaves s
  /-- by a signal, only where no handler is installed for it -/
  killed : ∀ sig, s.phase = .killed sig → s.handles sig = false
  /-- with the removal called for what has been registered -/
  called : ∀ result, s.phase = .ended result → s.registered_child_pid ≠ 0 →
    s.remove_result.isSome
  /-- with the route removed, if the removal can be written -/
  removed : s.remove_result = some (.ok ()) → ¬ ['/', '/'] <:+ template.mount.path →
    ∀ r ∈ s.file.routes, ¬ OfSession template s.registered_child_pid r

/-! ### The file -/

/-- After a call, a route is an old one or that of a registration. -/
theorem mem_run_cases {os : Os} {call : Call} {file : RoutesFile} {r : RouteMapping}
    (hr : r ∈ (run os call file).2.routes) :
    r ∈ file.routes ∨ ∃ reg, call = .add_route_with_owner reg ∧ r.pid = reg.pid := by
  rcases run_cases os call file with heq | heq | ⟨routes', hupdate, heq⟩
  · rw [heq] at hr
    exact .inl hr
  · rw [heq] at hr
    cases hr
  · rw [heq] at hr
    obtain ⟨routes, hload, hbody⟩ := update_ok hupdate
    obtain ⟨keep, new, rfl, _, hnew⟩ := body_ok hbody
    rcases List.mem_append.mp hr with hr | hr
    · exact .inl ((load_routes_sublist hload).subset (List.mem_of_mem_filter hr))
    · rcases hnew with rfl | ⟨reg, hcall, _, rfl⟩
      · cases hr
      · rw [List.mem_singleton.mp hr]
        exact .inr ⟨reg, hcall, rfl⟩

/-- What the removal leaves. -/
theorem removal_removes {template : Registration} {os : Os} {pid : UInt32}
    {file after : RoutesFile} (hslashes : ¬ ['/', '/'] <:+ template.mount.path)
    (hrun : run os (removal template pid) file = (.ok (), after)) :
    ∀ r ∈ after.routes, ¬ OfSession template pid r := by
  obtain ⟨routes, _, routes', hbody, rfl⟩ := run_ok hrun
  intro r hr ⟨hhost, hprefix, hpid⟩
  unfold removal path_filter at hbody
  split at hbody
  · cases hbody
    have hkept := (List.mem_filter.mp hr).2
    simp [hhost, hpid] at hkept
  · cases hbody
    have hkept := (List.mem_filter.mp hr).2
    have hkey : has_key template.hostname (template.mount.path |> normalize_path_prefix) r =
        true := by
      rw [has_key_iff, hprefix]
      exact ⟨hhost, (normalize_normalize_iff template.mount.shape).mpr hslashes⟩
    simp [hkey, hpid] at hkept

/-! ### The invariant -/

/-- The phases before the handlers are installed. -/
def Phase.early : Phase → Bool
  | .spawning | .spawned | .waiting_ready | .ready => true
  | _ => false

/-- The phases in which nsl has a child to look after. -/
def Phase.attended : Phase → Bool
  | .spawned | .waiting_ready | .ready | .running | .stopping => true
  | _ => false

/-- The phases after `spawn_command` has returned. -/
def Phase.result : Phase → Option Result
  | .cleanup result | .ended result => some result
  | _ => none

structure Inv (template : Registration) (s : State) : Prop where
  code : ∀ c, s.phase.result = some (.code c) →
    ∃ status, s.exited = some status ∧ c = (exit_code_from_status status).getD 0
  error : ∀ cause, s.phase.result = some (.error cause) → cause.Leaves s
  early : s.phase.early = true →
    s.sigint = false ∧ s.sigterm = false ∧ s.terminated = false
  killed : ∀ sig, s.phase = .killed sig → s.handles sig = false
  unspawned : s.phase = .spawning → s.child = none
  attended : s.phase.attended = true → s.child.isSome
  registered : s.registered_child_pid ≠ 0 → s.child = some s.registered_child_pid
  called : ∀ result, s.phase = .ended result → s.registered_child_pid ≠ 0 →
    s.remove_result.isSome
  removed : s.remove_result = some (.ok ()) → s.registered_child_pid ≠ 0 ∧
    (¬ ['/', '/'] <:+ template.mount.path →
      ∀ r ∈ s.file.routes, ¬ OfSession template s.registered_child_pid r)
  uncalled : s.remove_result.isSome → ∃ result, s.phase = .ended result

theorem inv_start (template : Registration) (file : RoutesFile) : Inv template (start file) where
  code _ h := by cases h
  error _ h := by cases h
  early _ := ⟨rfl, rfl, rfl⟩
  killed _ h := by cases h
  unspawned _ := rfl
  attended h := by cases h
  registered h := absurd rfl h
  called _ h := by cases h
  removed h := by cases h
  uncalled h := by cases h

variable {template : Registration}

/-- The removal has been called only where the run has ended. -/
theorem Inv.not_called {s : State} (h : Inv template s)
    (hphase : ∀ result, s.phase ≠ .ended result) : s.remove_result = none := by
  cases hresult : s.remove_result with
  | none => rfl
  | some _ =>
    obtain ⟨result, hended⟩ := h.uncalled (by rw [hresult]; rfl)
    exact absurd hended (hphase result)

/-- A step to a phase in which `spawn_command` is not done. -/
theorem Inv.moves {s : State} (h : Inv template s) (phase : Phase)
    (hphase : ∀ result, s.phase ≠ .ended result) (hresult : phase.result = none)
    (hearly : phase.early = true → s.phase.early = true)
    (hkilled : ∀ sig, phase = .killed sig → s.handles sig = false)
    (hspawning : phase ≠ .spawning)
    (hattended : phase.attended = true → s.phase.attended = true) :
    Inv template { s with phase := phase } where
  code c hc := by rw [hresult] at hc; cases hc
  error cause hc := by rw [hresult] at hc; cases hc
  early hc := h.early (hearly hc)
  killed := hkilled
  unspawned hc := absurd hc hspawning
  attended hc := h.attended (hattended hc)
  registered := h.registered
  called _ hc := by rw [show phase = _ from hc] at hresult; cases hresult
  removed hremoved := by rw [h.not_called hphase] at hremoved; cases hremoved
  uncalled hcalled := by rw [h.not_called hphase] at hcalled; cases hcalled

/-- `spawn_command` returns, with a code or with an error. -/
theorem Inv.returns {s : State} (h : Inv template s) (hphase : ∀ result, s.phase ≠ .ended result)
    (result : Result) (terminated sigint : Bool) (file : RoutesFile)
    (hcode : ∀ c, result = .code c →
      ∃ status, s.exited = some status ∧ c = (exit_code_from_status status).getD 0)
    (herror : ∀ cause, result = .error cause →
      cause.Leaves { s with terminated := terminated }) :
    Inv template { s with
      phase := .cleanup result, terminated := terminated, sigint := sigint, file := file } where
  code c hc := hcode c (Option.some.inj hc)
  error cause hc := by
    have hleaves := herror cause (Option.some.inj hc)
    cases cause <;> exact hleaves
  early hc := by cases hc
  killed _ hc := by cases hc
  unspawned hc := by cases hc
  attended hc := by cases hc
  registered := h.registered
  called _ hc := by cases hc
  removed hremoved := by rw [h.not_called hphase] at hremoved; cases hremoved
  uncalled hcalled := by rw [h.not_called hphase] at hcalled; cases hcalled

/-- A signal without a handler. -/
theorem Inv.dies {s : State} {sig : Signal} (h : Inv template s)
    (hphase : ∀ result, s.phase ≠ .ended result) (hhandles : s.handles sig = false) :
    Inv template { s with phase := .killed sig } := by
  refine h.moves (.killed sig) hphase rfl nofun ?_ nofun nofun
  rintro _ ⟨⟩
  exact hhandles

theorem Inv.signal {s : State} (h : Inv template s) (sig : Signal) :
    Inv template (s.signal sig) := by
  unfold State.signal
  split
  · exact h
  · exact h
  · next hphase =>
    split
    · have hmoves := h.moves .stopping (by simp [hphase]) rfl nofun nofun nofun
        (fun _ => by rw [hphase]; rfl)
      exact ⟨hmoves.code, (fun _ hc => by cases hc), (fun hc => by cases hc), hmoves.killed,
        hmoves.unspawned, hmoves.attended, hmoves.registered, hmoves.called, hmoves.removed,
        hmoves.uncalled⟩
    · next hhandles => exact h.dies (by simp [hphase]) (Bool.eq_false_iff.mpr hhandles)
  · next hended hkilled hrunning =>
    split
    · exact h
    · next hhandles => exact h.dies hended (Bool.eq_false_iff.mpr hhandles)

theorem Inv.remove_route {s s' : State} {os : Os} {result : Result} (h : Inv template s)
    (hphase : s.phase = .cleanup result) (hstep : step template s (.remove_route os) = some s') :
    Inv template s' := by
  have hnot := h.not_called (by simp [hphase])
  have hresult : s.phase.result = some result := by rw [hphase]; rfl
  -- what a step to the end keeps, whatever becomes of the removal
  have hends : ∀ file remove_result, (s.registered_child_pid ≠ 0 → remove_result.isSome) →
      (remove_result = some (.ok ()) → s.registered_child_pid ≠ 0 ∧
        (¬ ['/', '/'] <:+ template.mount.path →
          ∀ r ∈ RoutesFile.routes file, ¬ OfSession template s.registered_child_pid r)) →
      Inv template
        { s with phase := .ended result, remove_result := remove_result, file := file } := by
    intro file remove_result hcalled hremoved
    refine ⟨fun c hc => h.code c (hresult.trans hc), fun cause hc => ?_, (fun hc => by cases hc),
      (fun _ hc => by cases hc), (fun hc => by cases hc), (fun hc => by cases hc), h.registered,
      fun _ _ => hcalled, hremoved, fun _ => ⟨result, rfl⟩⟩
    have hleaves := h.error cause (hresult.trans hc)
    cases cause <;> exact hleaves
  unfold Session.step at hstep
  simp only [hphase] at hstep
  split at hstep
  · next hregistered =>
    cases hrun : run os (removal template s.registered_child_pid) s.file with
    | mk remove_result file =>
      rw [hrun] at hstep
      cases hstep
      refine hends file (some remove_result) (fun _ => rfl) fun hremoved => ⟨hregistered, ?_⟩
      intro hslashes
      rw [Option.some.inj hremoved] at hrun
      exact removal_removes hslashes hrun
  · next hregistered =>
    cases hstep
    refine hends s.file s.remove_result (fun hpid => absurd hpid hregistered) fun hremoved => ?_
    rw [hnot] at hremoved
    cases hremoved

/-- A call of another process registers nothing for the child. -/
theorem Inv.other {s : State} {os : Os} {call : Call} (h : Inv template s)
    (hother : ∀ reg, call = .add_route_with_owner reg → s.child ≠ some reg.pid) :
    Inv template { s with file := (run os call s.file).2 } where
  code := h.code
  error cause hc := by
    have hleaves := h.error cause hc
    cases cause <;> exact hleaves
  early := h.early
  killed sig hc := by
    have hhandles := h.killed sig hc
    cases sig <;> exact hhandles
  unspawned := h.unspawned
  attended := h.attended
  registered := h.registered
  called := h.called
  removed hremoved := by
    obtain ⟨hpid, hnone⟩ := h.removed hremoved
    refine ⟨hpid, fun hslashes r hr hof => ?_⟩
    rcases mem_run_cases hr with hr | ⟨reg, hcall, hregpid⟩
    · exact hnone hslashes r hr hof
    · have hchild := h.registered hpid
      rw [← hof.2.2, hregpid] at hchild
      exact hother reg hcall hchild
  uncalled := h.uncalled

theorem Inv.spawn {s s' : State} {child : Option UInt32} (h : Inv template s)
    (hstep : step template s (.spawn child) = some s') : Inv template s' := by
  unfold Session.step at hstep
  dsimp only at hstep
  split at hstep
  · next hphase =>
    cases hstep
    refine h.returns (by simp [hphase]) (.error .spawn) s.terminated s.sigint s.file nofun ?_
    rintro _ ⟨⟩
    exact h.unspawned hphase
  · next pid hphase =>
    split at hstep
    · cases hstep
    · cases hstep
      have hnot := h.not_called (by simp [hphase])
      refine ⟨nofun, nofun, fun _ => h.early (by rw [hphase]; rfl), nofun, nofun, fun _ => rfl,
        ?_, nofun, ?_, ?_⟩
      · -- nothing is registered before there is a child
        intro hregistered
        have hchild := h.registered hregistered
        rw [h.unspawned hphase] at hchild
        cases hchild
      all_goals
        intro hremoved
        rw [hnot] at hremoved
        cases hremoved
  · cases hstep

theorem Inv.on_child_spawned {s s' : State} {owner : Option RouteOwner} {os : Os}
    (h : Inv template s) (hstep : step template s (.on_child_spawned owner os) = some s') :
    Inv template s' := by
  -- where the registration fails, the child is told to end
  have hfails : s.phase = .spawned → ∀ file, Inv template
      { s with phase := .cleanup (.error .registration), terminated := true, file := file } := by
    intro hphase file
    refine h.returns (by simp [hphase]) (.error .registration) true s.sigint file nofun ?_
    rintro _ ⟨⟩
    exact ⟨h.attended (by rw [hphase]; rfl), rfl⟩
  unfold Session.step at hstep
  dsimp only at hstep
  split at hstep
  · next hphase _ =>
    cases hstep
    exact hfails hphase s.file
  · next _ pid owner hphase hchild =>
    have hnot := h.not_called (by simp [hphase])
    split at hstep
    · next file _ =>
      cases hstep
      exact hfails hphase file
    · next file _ =>
      cases hstep
      refine ⟨nofun, nofun, fun _ => h.early (by rw [hphase]; rfl), nofun, nofun,
        fun _ => h.attended (by rw [hphase]; rfl), fun _ => hchild, nofun, ?_, ?_⟩
      all_goals
        intro hremoved
        rw [hnot] at hremoved
        cases hremoved
  · cases hstep

theorem Inv.wait_for_app {s s' : State} {ok : Bool} (h : Inv template s)
    (hstep : step template s (.wait_for_app ok) = some s') : Inv template s' := by
  unfold Session.step at hstep
  dsimp only at hstep
  split at hstep
  · next hphase =>
    cases ok with
    | true =>
      cases hstep
      exact h.moves .ready (by simp [hphase]) rfl (fun _ => by rw [hphase]; rfl) nofun nofun
        (fun _ => by rw [hphase]; rfl)
    | false =>
      cases hstep
      refine h.returns (by simp [hphase]) (.error .readiness) true s.sigint s.file nofun ?_
      rintro _ ⟨⟩
      exact ⟨h.attended (by rw [hphase]; rfl), rfl⟩
  · cases hstep

theorem Inv.install_handlers {s s' : State} {sigint sigterm : Bool} (h : Inv template s)
    (hstep : step template s (.install_handlers sigint sigterm) = some s') :
    Inv template s' := by
  unfold Session.step at hstep
  dsimp only at hstep
  split at hstep
  · next hphase =>
    have hchild := h.attended (by rw [hphase]; rfl)
    have hearly := h.early (by rw [hphase]; rfl)
    split at hstep
    · cases hstep
      have hmoves := h.moves .running (by simp [hphase]) rfl nofun nofun nofun
        (fun _ => by rw [hphase]; rfl)
      exact ⟨hmoves.code, nofun, nofun, nofun, hmoves.unspawned, hmoves.attended,
        hmoves.registered, hmoves.called, hmoves.removed, hmoves.uncalled⟩
    · cases hstep
      -- the child runs on, and has not been told to end
      refine h.returns (by simp [hphase]) (.error .handlers) s.terminated sigint s.file nofun ?_
      rintro _ ⟨⟩
      exact ⟨hchild, hearly.2.2⟩
  · cases hstep

theorem Inv.wait_child {s s' : State} {ok : Bool} (h : Inv template s)
    (hstep : step template s (.wait_child ok) = some s') : Inv template s' := by
  unfold Session.step at hstep
  dsimp only at hstep
  split at hstep
  swap
  · cases hstep
  · next hphase =>
    have hnot : ∀ result, s.phase ≠ .ended result := by
      rcases hphase with hphase | hphase <;> simp [hphase]
    have hchild : s.child.isSome := by
      rcases hphase with hphase | hphase <;> exact h.attended (by rw [hphase]; rfl)
    split at hstep
    · next _ _ status hexited =>
      cases hstep
      refine h.returns hnot _ s.terminated s.sigint s.file ?_ nofun
      rintro c ⟨⟩
      exact ⟨status, hexited, rfl⟩
    · cases hstep
    · cases hstep
      refine h.returns hnot (.error .wait) s.terminated s.sigint s.file nofun ?_
      rintro _ ⟨⟩
      exact hchild

theorem Inv.child_exit {s s' : State} {status : ExitStatus} (h : Inv template s)
    (hstep : step template s (.child_exit status) = some s') : Inv template s' := by
  unfold Session.step at hstep
  dsimp only at hstep
  split at hstep
  · next hrunning =>
    cases hstep
    refine ⟨fun c hc => ?_, fun cause hc => ?_, h.early, fun sig hc => ?_, h.unspawned, h.attended,
      h.registered, h.called, h.removed, h.uncalled⟩
    · -- a code is that of a child that is gone
      obtain ⟨_, hexited, _⟩ := h.code c hc
      rw [hrunning.2] at hexited
      cases hexited
    · have hleaves := h.error cause hc
      cases cause <;> exact hleaves
    · have hhandles := h.killed sig hc
      cases sig <;> exact hhandles
  · cases hstep

theorem Inv.step {s s' : State} {a : Action} (h : Inv template s)
    (hstep : step template s a = some s') (halone : Alone s a s') : Inv template s' := by
  cases a with
  | spawn child => exact h.spawn hstep
  | on_child_spawned owner os => exact h.on_child_spawned hstep
  | wait_for_app ok => exact h.wait_for_app hstep
  | install_handlers sigint sigterm => exact h.install_handlers hstep
  | wait_child ok => exact h.wait_child hstep
  | remove_route os =>
    cases hphase : s.phase with
    | cleanup result => exact h.remove_route hphase hstep
    | _ =>
      unfold Session.step at hstep
      simp [hphase] at hstep
  | child_exit status => exact h.child_exit hstep
  | signal sig =>
    cases hstep
    exact h.signal sig
  | other os call =>
    cases hstep
    exact h.other halone

/-! ### Whole runs -/

/-- An app that exits with the code 3, and an owner as it is recorded. -/
def app : Registration := .plain "app.localhost" "app" 0

def app_owner : RouteOwner := ⟨7, "linux".toList, "/app".toList, [], some 7, some 100⟩

def to_the_handlers : List Action :=
  [.spawn (some 7), .on_child_spawned (some app_owner) .calm, .wait_for_app true]

/-- Where a handler cannot be installed, nsl ends and the app runs on. -/
example : (((system app).replay System.anyStep (start .absent)
    (to_the_handlers ++ [.install_handlers true false, .remove_route .calm])).map fun s =>
      (s.phase, s.exited, s.terminated, s.file.routes.length)) =
        some (.ended (.error .handlers), none, false, 0) := by
  decide

/-- Ctrl+C while the app is starting: nsl is gone, the app is still there, and
    so is its route. -/
example : (((system app).replay System.anyStep (start .absent)
    (to_the_handlers.take 2 ++ [.signal .SIGINT])).map fun s =>
      (s.phase, s.exited, s.terminated, s.file.routes.length)) =
        some (.killed .SIGINT, none, false, 1) := by
  decide

end Nsl.Session
