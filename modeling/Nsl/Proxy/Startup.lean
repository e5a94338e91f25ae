import Nsl.Framework.DirLock
import Nsl.Rust.Text

/-! # Starting the daemon under the startup lock

  Any number of processes that want a daemon: each takes the startup lock, asks
  whether a proxy answers, spawns a daemon if none does and waits for it to
  answer, and releases the lock. The steps interleave freely, and a process may
  crash at any of them. Whether a proxy answers is up to the daemons.

  - `one_start_at_a_time`: while no stale removal hits a live holder, a process
    spawns a daemon only when nobody else is inside the lock.
  - `harmless_of_judged`: when a stale removal cannot hit a live holder.
  - `spawned_inside_another`: two waiters, one stale lock, and a daemon that is
    spawned while another process is inside.
-/

open Rust Framework

namespace Nsl

def STARTUP_LOCK_MAX_RETRIES : Nat := 50

/-- In nanoseconds. -/
def STARTUP_LOCK_STALE_THRESHOLD : Nat := 15000000000

/-- How often `wait_for_proxy` asks whether the daemon answers. -/
def STARTUP_CHECKS : Nat := 20

namespace Startup

variable {ι : Type u}

/-! ### The processes -/

/-- How far `ensure_proxy_running` has come inside the lock. -/
inductive Stage where
  | waiting
  /-- no proxy answers -/
  | starting
  /-- `wait_for_proxy`, with so many checks left -/
  | spawned (left : Nat)
  | returned (result : Except Str Bool)
deriving DecidableEq

/-- The call is about to return, and drops its guard. -/
def Stage.finished : Stage → Bool
  | returned _ => true
  | _ => false

structure State (ι : Type u) where
  lock : DirLock.State ι
  stage : ι → Stage

/-- What is done inside the lock. -/
inductive Work where
  /-- `is_proxy_running`, and the answer -/
  | probe (running : Bool)
  /-- `spawn_proxy_daemon_process`, and the error that it fails with -/
  | spawn (error : Option Str)
  /-- one check of `wait_for_proxy`, and the answer -/
  | wait (running : Bool)

inductive Action (ι : Type u) where
  | lock (a : DirLock.Action ι)
  | work (i : ι) (w : Work)

def start : State ι where
  lock := DirLock.start STARTUP_LOCK_MAX_RETRIES
  stage _ := .waiting

/-- A live process is between a successful `acquire_startup_lock` and the drop
    of its guard. -/
def State.inside (s : State ι) (i : ι) : Prop := (s.lock.phase i).holds = true

/-- The guard is dropped when the call returns. -/
def State.may_take (s : State ι) : DirLock.Action ι → Bool
  | .release i => (s.stage i).finished
  | _ => true

/-! ### The steps -/

variable [DecidableEq ι]

def State.to_stage (s : State ι) (i : ι) (st : Stage) : State ι :=
  { s with stage := DirLock.setLocal s.stage i st }

/-- The next stage of a process that is inside. -/
def next (state_dir : Str) : Stage → Work → Option Stage
  | .waiting, .probe running => some (if running then .returned (.ok false) else .starting)
  | .starting, .spawn none => some (.spawned STARTUP_CHECKS)
  | .starting, .spawn (some e) => some (.returned (.error e))
  | .spawned (n + 1), .wait running =>
    if running then some (.returned (.ok true))
    else if n = 0 then
      some (.returned (.error ("proxy failed to start. Check logs at ".toList ++ state_dir ++
        "/proxy.log".toList)))
    else some (.spawned n)
  | _, _ => none

def step (state_dir : Str) (s : State ι) : Action ι → Option (State ι)
  | .lock a =>
    if s.may_take a then
      (DirLock.step STARTUP_LOCK_STALE_THRESHOLD s.lock a).map fun lock => { s with lock := lock }
    else none
  | .work i w =>
    if (s.lock.phase i).holds then (next state_dir (s.stage i) w).map (s.to_stage i) else none

/-- The processes of one state directory and port. -/
def system (state_dir : Str) : System (State ι) (Action ι) where
  init s := s = start
  step := step state_dir

/-! ### The conditions on a step -/

/-- A stale removal does not take the lock from a live process inside it. -/
def Harmless (s : State ι) (a : Action ι) (_ : State ι) : Prop :=
  match a with
  | .lock b => DirLock.SparesHolder s.lock b
  | .work _ _ => True

/-- Nobody is inside past the threshold, and a stale removal removes the
    directory that was judged stale. -/
def Punctual (s : State ι) (a : Action ι) (s' : State ι) : Prop :=
  DirLock.Punctual STARTUP_LOCK_STALE_THRESHOLD s'.lock ∧
  match a with
  | .lock b => DirLock.RemovesJudged s.lock b
  | .work _ _ => True

/-- Only the processes in `crashes` crash, and every other process releases the
    lock within the threshold. -/
def OnTime (crashes : ι → Bool) (_ : State ι) (a : Action ι) (s' : State ι) : Prop :=
  (match a with
    | .lock (.crash i) => crashes i
    | _ => true) = true ∧
  ∀ i, crashes i = false → ∀ t ∈ (s'.lock.phase i).since,
    s'.lock.now ≤ t + STARTUP_LOCK_STALE_THRESHOLD

/-! ### What a step can do -/

/-- A step of the lock; or work of a process that is inside. -/
theorem step_cases {state_dir : Str} {s s' : State ι} {a : Action ι}
    (h : step state_dir s a = some s') :
    (∃ b lock, a = .lock b ∧ DirLock.step STARTUP_LOCK_STALE_THRESHOLD s.lock b = some lock ∧
      s' = { s with lock := lock }) ∨
    (∃ i w st, a = .work i w ∧ s.inside i ∧ next state_dir (s.stage i) w = some st ∧
      s' = s.to_stage i st) := by
  cases a with
  | lock b =>
    simp only [step] at h
    split at h
    · obtain ⟨lock, hlock, rfl⟩ := Option.map_eq_some_iff.mp h
      exact .inl ⟨b, lock, rfl, hlock, rfl⟩
    · cases h
  | work i w =>
    simp only [step] at h
    split at h
    · next hi =>
      obtain ⟨st, hst, rfl⟩ := Option.map_eq_some_iff.mp h
      exact .inr ⟨i, w, st, rfl, hi, hst, rfl⟩
    · cases h

/-- The lock stays guarded. -/
theorem guarded_step {state_dir : Str} {s s' : State ι} {a : Action ι}
    (h : DirLock.Guarded s.lock) (hstep : step state_dir s a = some s')
    (hharmless : Harmless s a s') : DirLock.Guarded s'.lock := by
  rcases step_cases hstep with ⟨b, lock, rfl, hlock, rfl⟩ | ⟨i, w, st, rfl, _, _, rfl⟩
  · exact h.step hlock hharmless
  · exact h

/-! ### One start at a time -/

/-- **At most one daemon start at a time**: in a run of any number of processes
    whose steps are all harmless, a process that spawns a daemon is the only one
    between a successful acquisition of the lock and its release. -/
theorem one_start_at_a_time (state_dir : Str) {acts : List (Action ι)} {s s' : State ι} {i : ι}
    {error : Option Str} (hrun : (system state_dir).Steps Harmless start acts s)
    (hspawn : step state_dir s (.work i (.spawn error)) = some s') :
    ∀ j, s.inside j → j = i := by
  have hguarded : DirLock.Guarded s.lock :=
    hrun.invariant (DirLock.guarded_start STARTUP_LOCK_MAX_RETRIES)
      (fun _ _ _ h hstep hg => guarded_step h hstep hg)
  have hi : s.inside i := by
    rcases step_cases hspawn with ⟨b, lock, ha, _, _⟩ | ⟨k, w, st, ha, hk, _, _⟩
    · cases ha
    · cases ha
      exact hk
  exact fun j hj => hguarded.unique hj hi

/-- Where nobody is inside past the threshold, the only harm comes from a stale
    removal of a directory that is not the one that was judged. -/
theorem harmless_of_judged (state_dir : Str) {acts : List (Action ι)} {s : State ι}
    (hrun : (system state_dir).Steps Punctual start acts s) :
    (system state_dir).Steps Harmless start acts s := by
  apply hrun.mono_of_invariant
    (I := fun s => DirLock.Prompt STARTUP_LOCK_STALE_THRESHOLD s.lock)
  · exact DirLock.prompt_start STARTUP_LOCK_STALE_THRESHOLD STARTUP_LOCK_MAX_RETRIES
  · intro s₁ a s₂ hprompt hstep hguard
    obtain ⟨hpunctual, hremoves⟩ := hguard
    rcases step_cases hstep with ⟨b, lock, rfl, hlock, rfl⟩ | ⟨i, w, st, rfl, _, _, rfl⟩
    · exact hprompt.step hpunctual hlock hremoves
    · exact ⟨hprompt, trivial⟩

/-! ### Runs of three processes -/

instance (s s' : State ι) : (a : Action ι) → Decidable (Harmless s a s')
  | .lock b => inferInstanceAs (Decidable (DirLock.SparesHolder s.lock b))
  | .work _ _ => isTrue trivial

instance {n : Nat} (crashes : Fin n → Bool) (s : State (Fin n)) (a : Action (Fin n))
    (s' : State (Fin n)) : Decidable (OnTime crashes s a s') :=
  inferInstanceAs (Decidable (_ ∧ _))

instance (s : State ι) (i : ι) : Decidable (s.inside i) :=
  inferInstanceAs (Decidable ((s.lock.phase i).holds = true))

/-- A process takes the lock and crashes; time passes. -/
def crash_inside (i : ι) : List (Action ι) :=
  [.lock (.create i), .lock (.crash i), .lock (.tick (STARTUP_LOCK_STALE_THRESHOLD + 1))]

/-- A waiter removes a stale lock, and takes its own. -/
def reclaim (i : ι) : List (Action ι) :=
  [.lock (.create i), .lock (.stat i), .lock (.remove i), .lock (.create i)]

/-- Both waiters find the lock stale before either removes it. The second one
    then removes the lock that the first one has just taken. -/
def both_judge_stale (i j : ι) : List (Action ι) :=
  [.lock (.create i), .lock (.create j), .lock (.stat i), .lock (.stat j),
    .lock (.remove i), .lock (.create i), .lock (.remove j), .lock (.create j)]

/-- Neither finds a proxy, and both spawn a daemon. -/
def both_spawn (i j : ι) : List (Action ι) :=
  [.work i (.probe false), .work j (.probe false), .work i (.spawn none), .work j (.spawn none)]

def home : Str := "/home/dev/.nsl".toList

/-- The second process removes the stale lock, finds no proxy and spawns a
    daemon. -/
theorem one_start_after_crash :
    ∃ s : State (Fin 3), (step home s (.work 1 (.spawn none))).isSome = true ∧ s.inside 1 ∧
      ∀ j, s.inside j → j = 1 := by
  obtain ⟨s, hrun, hspawn, hinside⟩ := System.exists_steps_of_replay (system home) Harmless start
    (crash_inside 0 ++ reclaim 1 ++
      [.lock (.create 2), .lock (.stat 2), .work 1 (.probe false)])
    (fun s : State (Fin 3) =>
      (step home s (.work 1 (.spawn none))).isSome = true ∧ s.inside 1)
    (by decide)
  obtain ⟨s', hs'⟩ := Option.isSome_iff_exists.mp hspawn
  exact ⟨s, hspawn, hinside, one_start_at_a_time home hrun hs'⟩

/-- Though every process that does not crash releases the lock at once, two
    processes are inside the lock together, and each spawns a daemon while the
    other is there. -/
theorem spawned_inside_another :
    ∃ s₁ s₂ : State (Fin 3),
      (system home).Steps (OnTime (· == 0)) start (crash_inside 0 ++ both_judge_stale 1 2) s₁ ∧
      s₁.inside 1 ∧ s₁.inside 2 ∧
      (system home).Steps (OnTime (· == 0)) s₁ (both_spawn 1 2) s₂ ∧
      (s₂.inside 1 ∧ s₂.stage 1 = .spawned STARTUP_CHECKS) ∧
      (s₂.inside 2 ∧ s₂.stage 2 = .spawned STARTUP_CHECKS) := by
  obtain ⟨s₁, hrun₁, h₁, h₂, hspawn⟩ := System.exists_steps_of_replay (system home)
    (OnTime (· == 0)) start (crash_inside 0 ++ both_judge_stale 1 2)
    (fun s : State (Fin 3) => s.inside 1 ∧ s.inside 2 ∧
      ((system home).replay (OnTime (· == 0)) s (both_spawn 1 2)).any (fun s₂ =>
        decide ((s₂.inside 1 ∧ s₂.stage 1 = .spawned STARTUP_CHECKS) ∧
          (s₂.inside 2 ∧ s₂.stage 2 = .spawned STARTUP_CHECKS))) = true)
    (by decide)
  obtain ⟨s₂, hrun₂, hboth⟩ := System.exists_steps_of_replay _ _ _ _
    (fun s₂ : State (Fin 3) => (s₂.inside 1 ∧ s₂.stage 1 = .spawned STARTUP_CHECKS) ∧
      (s₂.inside 2 ∧ s₂.stage 2 = .spawned STARTUP_CHECKS)) hspawn
  exact ⟨s₁, s₂, hrun₁, h₁, h₂, hrun₂, hboth⟩

end Startup

end Nsl
