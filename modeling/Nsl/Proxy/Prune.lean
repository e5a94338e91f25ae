import Nsl.Proxy.FindRoute
import Nsl.Proxy.Poller

/-! # Dead processes and the route cache

  A process that exits changes no file. The poller loads `routes.json` only
  when its time has changed, and only a load looks whether processes are alive:
  the routes of a process that is killed stay in the cache until somebody
  writes the file.

  The daemon is that of `Nsl.Proxy.Poller`. Here processes also exit, and the
  file may change in any way, its time included. Which processes were dead when
  a round began, and when the last round that is over began, are ghosts.

  - `Pruned`: the cache has forgotten every process that was dead when a round
    that is over began.
  - `pruned_iff`: the runs in which it always has.
-/

open Rust Framework

namespace Nsl.Prune

open Poller (load_routes_from_disk)

structure State where
  daemon : Poller.State
  /-- the pids that were dead when the last round began, and are still free -/
  begun : UInt32 → Bool
  /-- the same of the last round that is over -/
  passed : UInt32 → Bool

inductive Action where
  /-- the next step of the daemon -/
  | daemon
  /-- `routes.json` changes -/
  | write (file : RoutesFile) (mtime : Nat)
  /-- a process starts -/
  | start (pid : UInt32)
  | exit (pid : UInt32)

def daemon_step (s : State) : State :=
  let daemon := Poller.daemon_step s.daemon
  let begun := if s.daemon.phase = .idle then fun pid => !s.daemon.is_process_alive pid
    else s.begun
  { daemon := daemon
    begun := begun
    -- start-up ends like a round, but is none
    passed := if daemon.phase = .idle ∧ s.daemon.phase ≠ .spawned then begun else s.passed }

def step (s : State) : Action → State
  | .daemon => daemon_step s
  | .write file t => { s with daemon := { s.daemon with file := file, mtime := t } }
  | .start pid =>
    { daemon := { s.daemon with
        is_process_alive := fun p => p == pid || s.daemon.is_process_alive p }
      begun := fun p => p != pid && s.begun p
      passed := fun p => p != pid && s.passed p }
  | .exit pid =>
    { s with daemon := { s.daemon with
        is_process_alive := fun p => p != pid && s.daemon.is_process_alive p } }

/-- The daemon about to start, on any file. -/
def boot (file : RoutesFile) (mtime : Nat) (is_process_alive : UInt32 → Bool) : State where
  daemon := Poller.boot file mtime is_process_alive
  begun _ := false
  passed _ := false

def system : System State Action where
  init s := ∃ file mtime alive, s = boot file mtime alive
  step s a := some (step s a)

/-! ### Forgotten processes -/

/-- No dynamic route is that of one of these processes. -/
def Spares (routes : List RouteMapping) (dead : UInt32 → Bool) : Prop :=
  ∀ r ∈ routes, r.pid ≠ 0 → dead r.pid = false

instance (routes : List RouteMapping) (dead : UInt32 → Bool) : Decidable (Spares routes dead) :=
  inferInstanceAs (Decidable (∀ r ∈ routes, _))

/-- The cache has no route of a process that was dead when a round that is over
    began, and so no request is sent to one. -/
structure Pruned (s : State) : Prop where
  cache : Spares s.daemon.cache s.passed
  selected : ∀ host path domains r, find_route host path s.daemon.cache domains = some r →
    r.pid ≠ 0 → s.passed r.pid = false

/-- The condition on one step: a round that begins while the cache has a route
    of a dead process finds the time of the file changed. -/
def Noticed (s : State) (a : Action) (_ : State) : Prop :=
  match a with
  | .daemon => s.daemon.phase = .idle → s.daemon.file_mtime ≠ s.daemon.last_mtime ∨
      Spares s.daemon.cache fun pid => !s.daemon.is_process_alive pid
  | _ => True

theorem Spares.mono {routes : List RouteMapping} {dead dead' : UInt32 → Bool}
    (h : Spares routes dead) (hle : ∀ pid, dead' pid = true → dead pid = true) :
    Spares routes dead' := by
  intro r hr hpid
  rw [← Bool.not_eq_true]
  intro hdead
  have := h r hr hpid
  rw [hle _ hdead] at this
  cases this

/-- A load drops the routes of dead processes. -/
theorem spares_on_disk (s : Poller.State) :
    Spares s.on_disk fun pid => !s.is_process_alive pid := by
  intro r hr hpid
  unfold Poller.State.on_disk load_routes_from_disk at hr
  cases hload : load_routes s.is_process_alive s.file with
  | error e =>
    rw [hload] at hr
    cases hr
  | ok routes =>
    rw [hload] at hr
    simp only [load_routes_ok hload, List.mem_filter] at hr
    simpa [hpid] using hr.2

theorem pruned_of_cache {s : State} (h : Spares s.daemon.cache s.passed) : Pruned s := by
  refine ⟨h, ?_⟩
  intro host path domains r hroute hpid
  exact h r (find_route_mem hroute) hpid

/-! ### Rounds -/

structure Inv (s : State) : Prop where
  dead : ∀ pid, s.begun pid = true → s.daemon.is_process_alive pid = false
  passed : ∀ pid, s.passed pid = true → s.begun pid = true
  /-- what a round has loaded has no route of a process that was dead when it
      began -/
  round : ∀ current routes, s.daemon.phase.round s.daemon.cache = some (current, routes) →
    Spares routes s.begun
  cache : Spares s.daemon.cache s.passed

theorem inv_boot (file : RoutesFile) (mtime : Nat) (alive : UInt32 → Bool) :
    Inv (boot file mtime alive) where
  dead pid h := by cases h
  passed pid h := by cases h
  round current routes h := by cases h
  cache r h := by cases h

/-- The pids that were dead when a round began are still dead: a start takes
    its pid away. -/
theorem Inv.spares_on_disk {s : State} (h : Inv s) : Spares s.daemon.on_disk s.begun := by
  apply (Prune.spares_on_disk s.daemon).mono
  intro pid hpid
  simp [h.dead pid hpid]

theorem Inv.daemon {s : State} (h : Inv s) (hnoticed : Noticed s .daemon (step s .daemon)) :
    Inv (daemon_step s) := by
  -- no round holds loaded routes in these phases
  have hnone : ∀ (r : Option (Option Nat × List RouteMapping)) (dead : UInt32 → Bool), r = none →
      ∀ current routes, r = some (current, routes) → Spares routes dead := by
    intro r dead hr current routes hround
    rw [hr] at hround
    cases hround
  unfold daemon_step Poller.daemon_step
  cases hphase : s.daemon.phase with
  | starting => exact ⟨h.dead, h.passed, hnone _ _ rfl, h.spares_on_disk.mono h.passed⟩
  | loaded => exact ⟨h.dead, h.passed, hnone _ _ rfl, h.cache⟩
  | spawned => exact ⟨h.dead, h.passed, hnone _ _ rfl, h.cache⟩
  | idle =>
    by_cases hsame : s.daemon.file_mtime = s.daemon.last_mtime
    · -- the round does nothing, and so it must have nothing to do
      have hspares := (hnoticed hphase).resolve_left (fun hne => hne hsame)
      simp only [hsame, ne_eq, not_true, if_false, hphase]
      refine ⟨fun pid hpid => by simpa using hpid, fun pid hpid => hpid, ?_, hspares⟩
      exact hnone _ _ (by rw [hphase]; rfl)
    · simp only [hsame, ne_eq, not_false_iff, if_true]
      refine ⟨fun pid hpid => by simpa using hpid, ?_, hnone _ _ rfl, h.cache⟩
      intro pid hpid
      simpa using h.dead pid (h.passed pid hpid)
  | reloading current =>
    refine ⟨h.dead, h.passed, ?_, h.cache⟩
    intro current' routes hround
    cases hround
    exact h.spares_on_disk
  | storing current routes =>
    have hloaded := h.round current routes (by rw [hphase]; rfl)
    refine ⟨h.dead, h.passed, ?_, hloaded.mono h.passed⟩
    intro current' routes' hround
    cases hround
    exact hloaded
  | marking current =>
    have hloaded := h.round current s.daemon.cache (by rw [hphase]; rfl)
    exact ⟨h.dead, fun pid hpid => hpid, hnone _ _ rfl, hloaded⟩

theorem Inv.start {s : State} (h : Inv s) (pid : UInt32) : Inv (step s (.start pid)) := by
  have hbegun : ∀ p, (p != pid && s.begun p) = true → s.begun p = true := by simp
  have hpassed : ∀ p, (p != pid && s.passed p) = true → s.passed p = true := by simp
  refine ⟨?_, ?_, ?_, h.cache.mono hpassed⟩
  · intro p hp
    obtain ⟨hne, hp⟩ := Bool.and_eq_true _ _ ▸ hp
    simp [step, h.dead p hp, bne_iff_ne.mp hne]
  · intro p hp
    simp only [step, Bool.and_eq_true] at hp ⊢
    exact ⟨hp.1, h.passed p hp.2⟩
  · intro current routes hround
    exact (h.round current routes hround).mono hbegun

theorem Inv.exit {s : State} (h : Inv s) (pid : UInt32) : Inv (step s (.exit pid)) := by
  refine ⟨?_, h.passed, h.round, h.cache⟩
  intro p hp
  simp [step, h.dead p hp]

theorem Inv.step {s : State} {a : Action} (h : Inv s) (hnoticed : Noticed s a (step s a)) :
    Inv (step s a) := by
  cases a with
  | daemon => exact h.daemon hnoticed
  | write file t => exact ⟨h.dead, h.passed, h.round, h.cache⟩
  | start pid => exact h.start pid
  | exit pid => exact h.exit pid

/-- A round that breaks the condition is over at once, and leaves the route of
    a dead process in the cache. -/
theorem noticed_of_pruned {s : State} {a : Action} (h : Pruned (step s a)) :
    Noticed s a (step s a) := by
  cases a with
  | daemon =>
    intro hphase
    by_cases hsame : s.daemon.file_mtime = s.daemon.last_mtime
    · right
      have hcache := h.cache
      unfold step daemon_step Poller.daemon_step at hcache
      simpa [hphase, hsame] using hcache
    · exact .inl hsame
  | _ => trivial

/-- **Dead processes are forgotten** in every state of a run exactly when every
    round that begins while the cache has a route of one finds the time of the
    file changed. -/
theorem pruned_iff (file : RoutesFile) (mtime : Nat) (alive : UInt32 → Bool)
    (acts : List Action) (s : State) :
    system.Steps (fun _ _ s' => Pruned s') (boot file mtime alive) acts s ↔
      system.Steps Noticed (boot file mtime alive) acts s := by
  constructor
  · intro hrun
    apply hrun.mono_of_invariant (I := fun _ => True) trivial
    intro s₁ a s₂ _ hstep hpruned
    cases hstep
    exact ⟨trivial, noticed_of_pruned hpruned⟩
  · intro hrun
    apply hrun.mono_of_invariant (I := Inv) (inv_boot file mtime alive)
    intro s₁ a s₂ hinv hstep hnoticed
    cases hstep
    have hinv' := hinv.step hnoticed
    exact ⟨hinv', pruned_of_cache hinv'.cache⟩

/-- The app with pid 7 is killed, and no file changes: every later round leaves
    its route in the cache. -/
theorem killed_app_stays :
    ∃ s, system.Steps System.anyStep (boot (.holds Poller.app_routes) 0 fun pid => pid == 7)
        [.daemon, .daemon, .daemon, .exit 7, .daemon] s ∧
      s.passed 7 = true ∧ s.daemon.cache = Poller.app_routes ∧ ¬ Pruned s := by
  refine ⟨_, .cons rfl trivial (.cons rfl trivial (.cons rfl trivial (.cons rfl trivial
    (.cons rfl trivial .nil)))), rfl, rfl, ?_⟩
  intro h
  have hcache := h.cache
  revert hcache
  decide

end Nsl.Prune
