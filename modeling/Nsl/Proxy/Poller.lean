import Nsl.Framework.System
import Nsl.Routes.Store

/-! # The route poller

  The daemon keeps the routes in a cache. It loads them once at start-up, then
  spawns a poller that records the modification time of `routes.json` and, in
  each round, loads the file again when that time has changed. CLI processes
  replace the file at any moment, each time with a modification time that was
  never there before.

  A round looks at the time before it loads, so that a change during the round
  shows in the next one. Start-up loads before it looks at the time: a write
  between the two is taken for loaded.

  - `cache_current`: while the file the poller records the time of is the one
    that was loaded, the cache is current whenever the poller thinks so.
  - `record_iff`: and otherwise it is not.
-/

open Framework

namespace Nsl.Poller

/-- Load routes from disk via the store, returning an empty list on error. -/
def load_routes_from_disk (is_process_alive : UInt32 → Bool) (file : RoutesFile) :
    List RouteMapping :=
  match load_routes is_process_alive file with
  | .ok routes => routes
  | .error _ => []

/-! ### The daemon and the file -/

/-- Where the daemon stands. A round that found a change carries the time it
    saw, and then the routes it loaded. -/
inductive Phase where
  | starting
  | loaded
  | spawned
  | idle
  | reloading (current_mtime : Option Nat)
  | storing (current_mtime : Option Nat) (new_routes : List RouteMapping)
  | marking (current_mtime : Option Nat)
deriving DecidableEq

/-- `used` is a ghost: every modification time the file has had. -/
structure State where
  file : RoutesFile
  mtime : Nat
  used : List Nat
  is_process_alive : UInt32 → Bool
  phase : Phase
  cache : List RouteMapping
  last_mtime : Option Nat

inductive Action where
  /-- the next step of the daemon -/
  | daemon
  /-- a CLI process replaces the file -/
  | write (routes : List RouteMapping) (mtime : Nat)
  /-- a process starts -/
  | start (pid : UInt32)

/-- Get the mtime of a file, returning `none` if the file doesn't exist. -/
def State.file_mtime (s : State) : Option Nat :=
  match s.file with
  | .absent => none
  | _ => some s.mtime

/-- What a load of the file gives now. -/
def State.on_disk (s : State) : List RouteMapping :=
  load_routes_from_disk s.is_process_alive s.file

/-- A start-up step, or a step of a poll round. -/
def daemon_step (s : State) : State :=
  match s.phase with
  -- start-up: load, spawn the poller, and only then look at the time
  | .starting => { s with cache := s.on_disk, phase := .loaded }
  | .loaded => { s with phase := .spawned }
  | .spawned => { s with last_mtime := s.file_mtime, phase := .idle }
  -- a round: look at the time, and only then load
  | .idle =>
    if s.file_mtime ≠ s.last_mtime then { s with phase := .reloading s.file_mtime } else s
  | .reloading current => { s with phase := .storing current s.on_disk }
  | .storing current routes => { s with cache := routes, phase := .marking current }
  | .marking current => { s with last_mtime := current, phase := .idle }

def step (s : State) : Action → Option State
  | .daemon => some (daemon_step s)
  | .write routes t =>
    if t ∈ s.used then none
    else some { s with file := .holds routes, mtime := t, used := t :: s.used }
  | .start pid =>
    some { s with is_process_alive := fun p => p == pid || s.is_process_alive p }

/-- The daemon about to start, on any file. -/
def boot (file : RoutesFile) (mtime : Nat) (is_process_alive : UInt32 → Bool) : State where
  file := file
  mtime := mtime
  used := [mtime]
  is_process_alive := is_process_alive
  phase := .starting
  cache := []
  last_mtime := none

def system : System State Action where
  init s := ∃ file mtime alive, s = boot file mtime alive
  step := step

/-! ### Freshness -/

/-- If the next round would do nothing, then the cache is what a load of the
    file gives. -/
def Current (s : State) : Prop :=
  s.phase = .idle → s.last_mtime = s.file_mtime → s.cache = s.on_disk

/-- The condition on one step: when the poller records the time of the file,
    the cache is what a load of that file gives; and a process that starts does
    not take the pid of a dead process that a route in the file names. -/
def Settled (s : State) (a : Action) (_ : State) : Prop :=
  match a with
  | .daemon => s.phase = .spawned → s.cache = s.on_disk
  | .write _ _ => True
  | .start pid => ∀ r ∈ s.file.routes, r.pid = pid → r.pid = 0 ∨ s.is_process_alive pid = true

/-- The time that the round in progress will record, with the routes it will
    then have stored. -/
def Phase.round (cache : List RouteMapping) : Phase → Option (Option Nat × List RouteMapping)
  | .storing current routes => some (current, routes)
  | .marking current => some (current, cache)
  | _ => none

/-- The times the poller remembers. -/
def State.remembers (s : State) (t : Nat) : Prop :=
  s.last_mtime = some t ∨
  match s.phase with
  | .reloading current | .storing current _ | .marking current => current = some t
  | _ => False

structure Inv (s : State) : Prop where
  current : Current s
  /-- a round whose time is still that of the file has loaded that file -/
  round : ∀ current routes, s.phase.round s.cache = some (current, routes) →
    current = s.file_mtime → routes = s.on_disk
  used : s.mtime ∈ s.used
  remembered : ∀ t, s.remembers t → t ∈ s.used

theorem inv_boot (file : RoutesFile) (mtime : Nat) (alive : UInt32 → Bool) :
    Inv (boot file mtime alive) where
  current h := by cases h
  round current routes h := by cases h
  used := List.mem_singleton_self _
  remembered t h := by
    rcases h with h | h <;> cases h

theorem file_mtime_mem {s : State} (h : Inv s) {t : Nat} (ht : s.file_mtime = some t) :
    t ∈ s.used := by
  unfold State.file_mtime at ht
  split at ht
  · cases ht
  · cases ht
    exact h.used

theorem Inv.daemon {s : State} (h : Inv s) (hsettled : s.phase = .spawned → s.cache = s.on_disk) :
    Inv (daemon_step s) := by
  unfold daemon_step
  cases hphase : s.phase with
  | starting =>
    refine ⟨nofun, nofun, h.used, ?_⟩
    intro t ht
    rcases ht with ht | ht
    · exact h.remembered t (.inl ht)
    · cases ht
  | loaded =>
    refine ⟨nofun, nofun, h.used, ?_⟩
    intro t ht
    rcases ht with ht | ht
    · exact h.remembered t (.inl ht)
    · cases ht
  | spawned =>
    -- the one place where the condition is needed
    refine ⟨fun _ _ => hsettled hphase, nofun, h.used, ?_⟩
    intro t ht
    rcases ht with ht | ht
    · exact file_mtime_mem h ht
    · cases ht
  | idle =>
    by_cases hsame : s.file_mtime = s.last_mtime
    · simp only [hsame, ne_eq, not_true, if_false]
      exact h
    · simp only [hsame, ne_eq, not_false_iff, if_true]
      refine ⟨nofun, nofun, h.used, ?_⟩
      intro t ht
      rcases ht with ht | ht
      · exact h.remembered t (.inl ht)
      · exact file_mtime_mem h ht
  | reloading current =>
    refine ⟨nofun, ?_, h.used, ?_⟩
    · -- the load is later than the look at the time
      intro current' routes hr _
      cases hr
      rfl
    · intro t ht
      apply h.remembered t
      simpa [State.remembers, hphase] using ht
  | storing current routes =>
    refine ⟨nofun, ?_, h.used, ?_⟩
    · intro current' routes' hr hcur
      cases hr
      exact h.round current routes (by rw [hphase]; rfl) hcur
    · intro t ht
      apply h.remembered t
      simpa [State.remembers, hphase] using ht
  | marking current =>
    refine ⟨?_, nofun, h.used, ?_⟩
    · intro _ hcur
      exact h.round current s.cache (by rw [hphase]; rfl) hcur
    · intro t ht
      rcases ht with ht | ht
      · apply h.remembered t
        simpa [State.remembers, hphase] using .inr ht
      · cases ht

theorem step_write_some {s s' : State} {routes : List RouteMapping} {t : Nat}
    (h : step s (.write routes t) = some s') :
    t ∉ s.used ∧ s' = { s with file := .holds routes, mtime := t, used := t :: s.used } := by
  simp only [step] at h
  split at h
  · cases h
  · next hnew => exact ⟨hnew, (Option.some.inj h).symm⟩

/-- A write gives the file a time that the poller does not remember. -/
theorem Inv.write {s : State} (h : Inv s) {routes : List RouteMapping} {t : Nat}
    (hnew : t ∉ s.used) :
    Inv { s with file := .holds routes, mtime := t, used := t :: s.used } := by
  refine ⟨?_, ?_, List.mem_cons_self, fun u hu => List.mem_cons_of_mem _ (h.remembered u hu)⟩
  · -- the next round will see the new time
    intro _ hlast
    exact absurd (h.remembered t (.inl hlast)) hnew
  · intro current new_routes hround hcur
    -- the round in progress carries a time from before the write
    have hrem : s.remembers t := by
      refine .inr ?_
      cases hphase : s.phase with
      | storing c r =>
        simp only [hphase, Phase.round, Option.some.injEq, Prod.mk.injEq] at hround
        simpa [hround.1, State.file_mtime] using hcur
      | marking c =>
        simp only [hphase, Phase.round, Option.some.injEq, Prod.mk.injEq] at hround
        simpa [hround.1, State.file_mtime] using hcur
      | _ => simp [hphase, Phase.round] at hround
    exact absurd (h.remembered t hrem) hnew

/-- A process that starts changes what a load gives only where the file names
    its pid as that of a dead process. -/
theorem on_disk_start {s : State} {pid : UInt32}
    (h : ∀ r ∈ s.file.routes, r.pid = pid → r.pid = 0 ∨ s.is_process_alive pid = true) :
    ({ s with is_process_alive := fun p => p == pid || s.is_process_alive p } : State).on_disk =
      s.on_disk := by
  unfold State.on_disk load_routes_from_disk
  cases hfile : s.file with
  | absent => rfl
  | malformed => rfl
  | holds routes =>
    show (routes.filter fun r => r.pid == 0 || (r.pid == pid || s.is_process_alive r.pid)) =
      routes.filter fun r => r.pid == 0 || s.is_process_alive r.pid
    apply List.filter_congr
    intro r hr
    by_cases hpid : r.pid = pid
    · rcases h r (by rwa [hfile]) hpid with hzero | halive
      · simp [hzero]
      · simp [hpid, halive]
    · have hne : (r.pid == pid) = false := beq_eq_false_iff_ne.mpr hpid
      simp only [hne, Bool.false_or]

theorem Inv.start {s : State} (h : Inv s) {pid : UInt32}
    (hpid : ∀ r ∈ s.file.routes, r.pid = pid → r.pid = 0 ∨ s.is_process_alive pid = true) :
    Inv { s with is_process_alive := fun p => p == pid || s.is_process_alive p } := by
  refine ⟨?_, ?_, h.used, h.remembered⟩
  · intro hphase hlast
    rw [on_disk_start hpid]
    exact h.current hphase hlast
  · intro current routes hround hcur
    rw [on_disk_start hpid]
    exact h.round current routes hround hcur

theorem Inv.step {s s' : State} {a : Action} (h : Inv s) (hstep : step s a = some s')
    (hsettled : Settled s a s') : Inv s' := by
  cases a with
  | daemon =>
    cases hstep
    exact h.daemon hsettled
  | write routes t =>
    obtain ⟨hnew, rfl⟩ := step_write_some hstep
    exact h.write hnew
  | start pid =>
    cases hstep
    exact h.start hsettled

/-- **No route change is missed for good**: in a run whose steps all meet the
    condition, the cache is what a load of the file gives whenever the next
    round would do nothing. -/
theorem cache_current {file : RoutesFile} {mtime : Nat} {alive : UInt32 → Bool}
    {acts : List Action} {s : State}
    (hrun : system.Steps Settled (boot file mtime alive) acts s) : Current s := by
  have hinv : Inv s :=
    hrun.invariant (inv_boot file mtime alive) (fun _ _ _ h hstep hg => h.step hstep hg)
  exact hinv.current

/-- The condition is what it takes: once the poller has recorded the time, the
    cache is current exactly when the condition held. -/
theorem record_iff {s : State} (h : s.phase = .spawned) :
    Current (daemon_step s) ↔ s.cache = s.on_disk := by
  have hstep : daemon_step s = { s with last_mtime := s.file_mtime, phase := .idle } := by
    unfold daemon_step
    rw [h]
  rw [hstep]
  exact ⟨fun hcur => hcur rfl rfl, fun heq _ _ => heq⟩

/-! ### Writes during start-up -/

/-- No write falls between the initial load and the record of the time. -/
def NoWriteAtStart (s : State) (a : Action) (s' : State) : Prop :=
  match a with
  | .daemon => True
  | .write _ _ => s.phase ≠ .loaded ∧ s.phase ≠ .spawned
  | .start _ => Settled s a s'

/-- Where no write falls between the initial load and the record of the time,
    the condition is met. -/
theorem settled_of_no_write {file : RoutesFile} {mtime : Nat} {alive : UInt32 → Bool}
    {acts : List Action} {s : State}
    (hrun : system.Steps NoWriteAtStart (boot file mtime alive) acts s) :
    system.Steps Settled (boot file mtime alive) acts s := by
  apply hrun.mono_of_invariant
    (I := fun s => s.phase = .loaded ∨ s.phase = .spawned → s.cache = s.on_disk)
  · intro h
    rcases h with h | h <;> cases h
  · intro s₁ a s₂ hinv hstep hguard
    cases a with
    | daemon =>
      refine ⟨?_, fun hphase => hinv (.inr hphase)⟩
      cases hstep
      unfold daemon_step
      cases hphase : s₁.phase with
      | starting => exact fun _ => rfl
      | loaded => exact fun _ => hinv (.inl hphase)
      | idle =>
        by_cases hsame : s₁.file_mtime = s₁.last_mtime
        · simp [hsame, hphase]
        · simp [hsame]
      | _ => simp
    | write routes t =>
      refine ⟨?_, trivial⟩
      obtain ⟨_, rfl⟩ := step_write_some hstep
      intro h
      rcases h with h | h
      · exact absurd h hguard.1
      · exact absurd h hguard.2
    | start pid =>
      refine ⟨?_, hguard⟩
      cases hstep
      intro h
      rw [on_disk_start hguard]
      exact hinv h

/-! ### Two runs -/

instance (s : State) (a : Action) (s' : State) : Decidable (Settled s a s') :=
  match a with
  | .daemon => inferInstanceAs (Decidable (_ → _))
  | .write _ _ => isTrue trivial
  | .start _ => inferInstanceAs (Decidable (∀ r ∈ s.file.routes, _))

/-- The routes of one app. -/
def app_routes : List RouteMapping :=
  [(Registration.plain "app.localhost" "app" 7).route "/".toList]

/-- A write after start-up reaches the cache in the next round. -/
theorem cache_current_after_round :
    ∃ s, s.phase = .idle ∧ s.last_mtime = s.file_mtime ∧ s.cache = app_routes ∧ Current s := by
  obtain ⟨s, hrun, hphase, hlast, hcache⟩ := System.exists_steps_of_replay system Settled
    (boot .absent 0 fun _ => false)
    [.daemon, .daemon, .daemon, .start 7, .write app_routes 1,
      .daemon, .daemon, .daemon, .daemon]
    (fun s => s.phase = .idle ∧ s.last_mtime = s.file_mtime ∧ s.cache = app_routes) (by decide)
  exact ⟨s, hphase, hlast, hcache, cache_current hrun⟩

/-- A write between the initial load and the record of the time: the next round
    would do nothing, and the cache has not seen the write. -/
theorem startup_write_missed :
    ∃ s, system.Steps System.anyStep (boot (.holds []) 0 fun _ => true)
      [.daemon, .daemon, .write app_routes 1, .daemon] s ∧ ¬ Current s := by
  refine ⟨_, .cons rfl trivial (.cons rfl trivial (.cons rfl trivial (.cons rfl trivial .nil))), ?_⟩
  intro hcur
  have hcache := hcur rfl rfl
  revert hcache
  decide

end Nsl.Poller
