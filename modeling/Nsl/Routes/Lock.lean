import Nsl.Framework.DirLock
import Nsl.Routes.Store

/-! # Route calls under the file lock

  Any number of processes, each running one call of the store: it takes the
  lock, reads the file and computes the new list, writes it unless the call
  fails, and releases the lock. The steps interleave freely, and a process may
  crash at any of them.

  A waiter that has judged a lock stale removes whatever directory then stands
  at the path. If that is the fresh lock of another process, both go on to read
  and write, and one of the updates is lost.

  - `no_lost_update`: while no stale removal hits a live holder, and no process
    crashes between its write and its return, at most one process is inside
    the lock, and the file ends as the calls that returned make it one by one.
  - `harmless_of_judged`: when a stale removal cannot hit a live holder.
  - `update_lost`: two waiters, one stale lock, one lost route.
-/

open Framework

namespace Nsl

/-- How long (in nanoseconds) before a lock directory is considered stale. -/
def STALE_LOCK_THRESHOLD : Nat := 10000000000

/-- Maximum number of retries when acquiring the file lock. -/
def LOCK_MAX_RETRIES : Nat := 20

namespace LockedStore

variable {ι : Type u}

/-! ### The processes -/

/-- How far a call has come inside the lock. -/
inductive Stage where
  | waiting
  | updating (routes : List RouteMapping)
  | wrote
  | stopped (e : NSLError)
deriving DecidableEq

/-- The call is about to return, and drops its guard. -/
def Stage.finished : Stage → Bool
  | wrote | stopped _ => true
  | _ => false

/-- The state the processes share. `written` is a ghost: the processes that
    have written the file, in the order of their writes. -/
structure State (ι : Type u) where
  lock : DirLock.State ι
  file : RoutesFile
  stage : ι → Stage
  written : List ι

inductive Action (ι : Type u) where
  | lock (a : DirLock.Action ι)
  /-- read `routes.json` and compute the new list -/
  | read (i : ι)
  /-- write `routes.json` -/
  | write (i : ι)

def start (file : RoutesFile) : State ι where
  lock := DirLock.start LOCK_MAX_RETRIES
  file := file
  stage _ := .waiting
  written := []

/-- A live process is between a successful `acquire_lock` and the drop of its
    guard. -/
def State.inside (s : State ι) (i : ι) : Prop := (s.lock.phase i).holds = true

/-- The call of the process returned `Ok`. -/
def State.returned_ok (s : State ι) (i : ι) : Prop :=
  s.lock.phase i = .released ∧ s.stage i = .wrote

/-- Every process has returned or crashed. -/
def State.ended (s : State ι) : Prop := ∀ i, (s.lock.phase i).ended = true

/-- A call to which neither the lock nor the write was refused. -/
def undisturbed (os : Os) : Os := { os with acquire_lock := .ok (), write := .done }

/-- The calls one after another. -/
def serial (calls : ι → Os × Call) (file : RoutesFile) (order : List ι) : RoutesFile :=
  order.foldl (fun f i => (run (undisturbed (calls i).1) (calls i).2 f).2) file

theorem serial_concat (calls : ι → Os × Call) (file : RoutesFile) (order : List ι) (i : ι) :
    serial calls file (order ++ [i]) =
      (run (undisturbed (calls i).1) (calls i).2 (serial calls file order)).2 := by
  simp [serial]

theorem run_undisturbed {os : Os} {call : Call} {file : RoutesFile} {routes : List RouteMapping}
    (h : call.update os file = .ok routes) :
    (run (undisturbed os) call file).2 = .holds routes := by
  have h' : call.update (undisturbed os) file = .ok routes := by
    cases call <;> exact h
  unfold run
  rw [show (undisturbed os).acquire_lock = .ok () from rfl, h']
  rfl

/-! ### The invariant -/

/-- A stale removal does not take the lock from a live process inside it. -/
def State.spares_inside (s : State ι) : Action ι → Prop
  | .lock b => DirLock.SparesHolder s.lock b
  | _ => True

/-- A process does not crash between its write and its return. -/
def State.keeps_writer (s : State ι) : Action ι → Prop
  | .lock (.crash i) => s.stage i ≠ .wrote
  | _ => True

/-- The condition on one step. -/
def Harmless (s : State ι) (a : Action ι) (_ : State ι) : Prop :=
  s.spares_inside a ∧ s.keeps_writer a

instance (s : State ι) : (a : Action ι) → Decidable (s.spares_inside a)
  | .lock b => inferInstanceAs (Decidable (DirLock.SparesHolder s.lock b))
  | .read _ | .write _ => isTrue trivial

instance (s : State ι) : (a : Action ι) → Decidable (s.keeps_writer a)
  | .lock (.crash i) => inferInstanceAs (Decidable (s.stage i ≠ .wrote))
  | .lock (.create _) | .lock (.refuse _) | .lock (.stat _) | .lock (.remove _)
  | .lock (.release _) | .lock (.tick _) | .read _ | .write _ => isTrue trivial

instance (s : State ι) (a : Action ι) (s' : State ι) : Decidable (Harmless s a s') :=
  inferInstanceAs (Decidable (_ ∧ _))

structure Inv (calls : ι → Os × Call) (file : RoutesFile) (s : State ι) : Prop where
  guarded : DirLock.Guarded s.lock
  serial : s.file = serial calls file s.written
  nodup : s.written.Nodup
  written : ∀ i, i ∈ s.written ↔ s.stage i = .wrote
  /-- a process that never had the lock has not begun -/
  fresh : ∀ i, (s.lock.phase i).early = true → s.stage i = .waiting
  /-- what the holder is about to write was computed from the present file -/
  current : ∀ i routes, s.inside i → s.stage i = .updating routes →
    (calls i).2.update (calls i).1 s.file = .ok routes
  /-- a process that has written holds the lock or has returned -/
  returns : ∀ i, s.stage i = .wrote → s.inside i ∨ s.lock.phase i = .released

theorem inv_start (calls : ι → Os × Call) (file : RoutesFile) : Inv calls file (start file) where
  guarded := DirLock.guarded_start LOCK_MAX_RETRIES
  serial := rfl
  nodup := List.nodup_nil
  written i := by simp [start]
  fresh i _ := rfl
  current i routes _ hstage := by cases hstage
  returns i hstage := by cases hstage

/-! ### The steps -/

variable [DecidableEq ι]

/-- A step of the lock, and nothing else. -/
def lock_step (s : State ι) (a : DirLock.Action ι) : Option (State ι) :=
  match DirLock.step STALE_LOCK_THRESHOLD s.lock a with
  | some lock => some { s with lock := lock }
  | none => none

def step (calls : ι → Os × Call) (s : State ι) : Action ι → Option (State ι)
  | .lock (.release i) => if (s.stage i).finished then lock_step s (.release i) else none
  | .lock a => lock_step s a
  | .read i =>
    if (s.lock.phase i).holds ∧ s.stage i = .waiting then
      match (calls i).2.update (calls i).1 s.file with
      | .ok routes => some { s with stage := DirLock.setLocal s.stage i (.updating routes) }
      | .error e => some { s with stage := DirLock.setLocal s.stage i (.stopped e) }
    else none
  | .write i =>
    match s.stage i with
    | .updating routes =>
      if (s.lock.phase i).holds then
        some { s with
          file := .holds routes
          stage := DirLock.setLocal s.stage i .wrote
          written := s.written ++ [i] }
      else none
    | _ => none

/-- The processes running `calls`, on any file. -/
def system (calls : ι → Os × Call) : System (State ι) (Action ι) where
  init s := ∃ file, s = start file
  step := step calls

/-! ### What a step can do -/

theorem lock_step_some {s s' : State ι} {a : DirLock.Action ι} (h : lock_step s a = some s') :
    ∃ lock, DirLock.step STALE_LOCK_THRESHOLD s.lock a = some lock ∧
      s' = { s with lock := lock } := by
  unfold lock_step at h
  cases hlock : DirLock.step STALE_LOCK_THRESHOLD s.lock a with
  | none => simp [hlock] at h
  | some lock => exact ⟨lock, rfl, by simpa [hlock] using h.symm⟩

/-- A step of the lock; a read by the holder, which finds what to write or the
    error to stop with; or a write by the holder. -/
theorem step_cases {calls : ι → Os × Call} {s s' : State ι} {a : Action ι}
    (h : step calls s a = some s') :
    (∃ b lock, a = .lock b ∧ DirLock.step STALE_LOCK_THRESHOLD s.lock b = some lock ∧
      s' = { s with lock := lock }) ∨
    (∃ i stage, a = .read i ∧ s.inside i ∧ s.stage i = .waiting ∧ stage ≠ .wrote ∧
      (∀ routes, stage = .updating routes →
        (calls i).2.update (calls i).1 s.file = .ok routes) ∧
      s' = { s with stage := DirLock.setLocal s.stage i stage }) ∨
    (∃ i routes, a = .write i ∧ s.inside i ∧ s.stage i = .updating routes ∧
      s' = { s with
        file := .holds routes
        stage := DirLock.setLocal s.stage i .wrote
        written := s.written ++ [i] }) := by
  cases a with
  | lock b =>
    have hlock : lock_step s b = some s' := by
      cases b with
      | release i =>
        simp only [step] at h
        split at h
        · exact h
        · cases h
      | _ => exact h
    obtain ⟨lock, hstep, hs'⟩ := lock_step_some hlock
    exact .inl ⟨b, lock, rfl, hstep, hs'⟩
  | read i =>
    simp only [step] at h
    split at h
    · next hi =>
      refine .inr (.inl ?_)
      split at h
      · next routes hupdate =>
        refine ⟨i, .updating routes, rfl, hi.1, hi.2, by simp, ?_, (Option.some.inj h).symm⟩
        intro routes' hroutes
        cases hroutes
        exact hupdate
      · next e hupdate =>
        refine ⟨i, .stopped e, rfl, hi.1, hi.2, by simp, ?_, (Option.some.inj h).symm⟩
        intro routes' hroutes
        cases hroutes
    · cases h
  | write i =>
    simp only [step] at h
    split at h
    · next routes hstage =>
      split at h
      · next hi => exact .inr (.inr ⟨i, routes, rfl, hi, hstage, (Option.some.inj h).symm⟩)
      · cases h
    · cases h

/-! ### The invariant over a step -/

theorem Inv.lock_step {calls : ι → Os × Call} {file : RoutesFile} {s : State ι}
    {b : DirLock.Action ι} {lock : DirLock.State ι} (h : Inv calls file s)
    (hstep : DirLock.step STALE_LOCK_THRESHOLD s.lock b = some lock)
    (hharmless : s.spares_inside (.lock b) ∧ s.keeps_writer (.lock b)) :
    Inv calls file { s with lock := lock } where
  guarded := h.guarded.step hstep hharmless.1
  serial := h.serial
  nodup := h.nodup
  written := h.written
  fresh i hi := h.fresh i (DirLock.early_of_step hstep hi)
  current i routes hi hstage := by
    rcases DirLock.holds_of_step hstep hi with hi | hi
    · exact h.current i routes hi hstage
    · -- a process that has just taken the lock has not read yet
      have hstage' : s.stage i = .updating routes := hstage
      rw [h.fresh i hi] at hstage'
      cases hstage'
  returns i hstage := by
    rcases DirLock.phase_of_step hstep i with heq | ⟨hi, _⟩ | ⟨_, _, heq⟩ | ⟨rfl, _, _⟩
    · have hi := h.returns i hstage
      unfold State.inside at hi ⊢
      rwa [heq]
    · have hstage' : s.stage i = .wrote := hstage
      rw [h.fresh i hi] at hstage'
      cases hstage'
    · exact .inr heq
    · exact absurd hstage hharmless.2

theorem Inv.read {calls : ι → Os × Call} {file : RoutesFile} {s : State ι} {i : ι} {stage : Stage}
    (h : Inv calls file s) (hi : s.inside i) (hwaiting : s.stage i = .waiting)
    (hwrote : stage ≠ .wrote)
    (hupdate : ∀ routes, stage = .updating routes →
      (calls i).2.update (calls i).1 s.file = .ok routes) :
    Inv calls file { s with stage := DirLock.setLocal s.stage i stage } where
  guarded := h.guarded
  serial := h.serial
  nodup := h.nodup
  written j := by
    rw [h.written j]
    by_cases hji : j = i
    · simp [hji, hwaiting, hwrote]
    · simp [hji]
  fresh j hj := by
    have hji : j ≠ i := by
      rintro rfl
      have := DirLock.Phase.holds_eq_false_of_early hj
      rw [hi] at this
      cases this
    simpa [hji] using h.fresh j hj
  current j routes hj hstage := by
    -- only the reader is inside the lock
    have hji : j = i := h.guarded.unique hj hi
    subst hji
    exact hupdate routes (by simpa using hstage)
  returns j hstage := by
    by_cases hji : j = i
    · exact .inl (hji ▸ hi)
    · exact h.returns j (by simpa [hji] using hstage)

theorem Inv.write {calls : ι → Os × Call} {file : RoutesFile} {s : State ι} {i : ι}
    {routes : List RouteMapping} (h : Inv calls file s) (hi : s.inside i)
    (hstage : s.stage i = .updating routes) :
    Inv calls file { s with
      file := .holds routes
      stage := DirLock.setLocal s.stage i .wrote
      written := s.written ++ [i] } where
  guarded := h.guarded
  serial := by
    -- the list was computed from the file as it still is
    rw [serial_concat, ← h.serial, run_undisturbed (h.current i routes hi hstage)]
  nodup := by
    have hnot : i ∉ s.written := by
      rw [h.written i, hstage]
      simp
    rw [List.nodup_append]
    refine ⟨h.nodup, by simp, ?_⟩
    intro j hj k hk
    rw [List.mem_singleton.mp hk]
    exact fun heq => hnot (heq ▸ hj)
  written j := by
    rw [List.mem_append, h.written j, List.mem_singleton]
    by_cases hji : j = i
    · simp [hji]
    · simp [hji]
  fresh j hj := by
    have hji : j ≠ i := by
      rintro rfl
      have := DirLock.Phase.holds_eq_false_of_early hj
      rw [hi] at this
      cases this
    simpa [hji] using h.fresh j hj
  current j routes' hj hstage' := by
    -- nobody else is inside, and the writer is done
    have hji : j = i := h.guarded.unique hj hi
    simp [hji] at hstage'
  returns j hstage' := by
    by_cases hji : j = i
    · exact .inl (hji ▸ hi)
    · exact h.returns j (by simpa [hji] using hstage')

theorem Inv.step {calls : ι → Os × Call} {file : RoutesFile} {s s' : State ι} {a : Action ι}
    (h : Inv calls file s) (hstep : step calls s a = some s') (hharmless : Harmless s a s') :
    Inv calls file s' := by
  rcases step_cases hstep with ⟨b, lock, rfl, hlock, rfl⟩ |
    ⟨i, stage, rfl, hi, hwaiting, hwrote, hupdate, rfl⟩ | ⟨i, routes, rfl, hi, hstage, rfl⟩
  · exact h.lock_step hlock hharmless
  · exact h.read hi hwaiting hwrote hupdate
  · exact h.write hi hstage

/-! ### No lost update -/

/-- **No lost route update**: in a run of any number of processes whose steps
    are all harmless, at most one process is inside the lock; and when all have
    returned or crashed, the file is what the calls that returned `Ok` make of
    it one after another, in some order. -/
theorem no_lost_update (calls : ι → Os × Call) (file : RoutesFile) {acts : List (Action ι)}
    {s : State ι} (hrun : (system calls).Steps Harmless (start file) acts s) :
    (∀ i j, s.inside i → s.inside j → i = j) ∧
    (s.ended → ∃ order : List ι, order.Nodup ∧ (∀ i, i ∈ order ↔ s.returned_ok i) ∧
      s.file = serial calls file order) := by
  have hinv : Inv calls file s :=
    hrun.invariant (inv_start calls file) (fun _ _ _ h hstep hg => h.step hstep hg)
  refine ⟨fun i j => hinv.guarded.unique, ?_⟩
  intro hended
  -- the order of the writes
  refine ⟨s.written, hinv.nodup, ?_, hinv.serial⟩
  intro i
  rw [hinv.written i]
  refine ⟨?_, fun h => h.2⟩
  intro hstage
  refine ⟨?_, hstage⟩
  rcases hinv.returns i hstage with hi | hi
  · have hout := DirLock.Phase.holds_eq_false_of_ended (hended i)
    unfold State.inside at hi
    rw [hout] at hi
    cases hi
  · exact hi

/-- A stale removal removes the directory that was judged stale. -/
def State.removes_judged (s : State ι) : Action ι → Prop
  | .lock b => DirLock.RemovesJudged s.lock b
  | _ => True

/-- Nobody holds the lock past the threshold, a stale removal removes the
    directory that was judged stale, and a process does not crash between its
    write and its return. -/
def Punctual (s : State ι) (a : Action ι) (s' : State ι) : Prop :=
  DirLock.Punctual STALE_LOCK_THRESHOLD s'.lock ∧ s.removes_judged a ∧ s.keeps_writer a

/-- Where nobody holds the lock past the threshold, the only harm comes from a
    stale removal of a directory that is not the one that was judged. -/
theorem harmless_of_judged (calls : ι → Os × Call) (file : RoutesFile) {acts : List (Action ι)}
    {s : State ι} (hrun : (system calls).Steps Punctual (start file) acts s) :
    (system calls).Steps Harmless (start file) acts s := by
  apply hrun.mono_of_invariant (I := fun s => DirLock.Prompt STALE_LOCK_THRESHOLD s.lock)
  · exact DirLock.prompt_start STALE_LOCK_THRESHOLD LOCK_MAX_RETRIES
  · intro s₁ a s₂ hprompt hstep hguard
    obtain ⟨hpunctual, hremoves, hcrash⟩ := hguard
    rcases step_cases hstep with ⟨b, lock, rfl, hlock, rfl⟩ |
      ⟨i, stage, rfl, _, _, _, _, rfl⟩ | ⟨i, routes, rfl, _, _, rfl⟩
    · obtain ⟨hprompt', hspares⟩ := hprompt.step hpunctual hlock hremoves
      exact ⟨hprompt', hspares, hcrash⟩
    · exact ⟨hprompt, trivial, trivial⟩
    · exact ⟨hprompt, trivial, trivial⟩

/-! ### Runs of three processes -/

/-- Three processes that register different paths of one hostname. -/
def shop_calls (i : Fin 3) : Os × Call :=
  (.calm, .add_route_with_owner
    (.plain "shop.localhost" (["shop", "shop:/api", "shop:/docs"].get i) 7))

/-- The first process takes the lock and crashes; time passes. -/
def crash_inside : List (Action (Fin 3)) :=
  [.lock (.create 0), .lock (.crash 0), .lock (.tick (STALE_LOCK_THRESHOLD + 1))]

instance (s : State (Fin 3)) : Decidable s.ended :=
  inferInstanceAs (Decidable (∀ i, (s.lock.phase i).ended = true))

instance (s : State ι) (i : ι) : Decidable (s.inside i) :=
  inferInstanceAs (Decidable ((s.lock.phase i).holds = true))

instance (s : State ι) (i : ι) : Decidable (s.returned_ok i) :=
  inferInstanceAs (Decidable (_ ∧ _))

/-- The second process removes the stale lock and registers its route; the
    third one comes later. -/
theorem no_lost_update_after_crash :
    ∃ s : State (Fin 3), s.ended ∧ s.returned_ok 1 ∧ s.returned_ok 2 ∧
      ∃ order : List (Fin 3), order.Nodup ∧ (∀ i, i ∈ order ↔ s.returned_ok i) ∧
        s.file = serial shop_calls .absent order := by
  obtain ⟨s, hrun, hended, h₁, h₂⟩ := System.exists_steps_of_replay (system shop_calls) Harmless
    (start .absent)
    (crash_inside ++ [.lock (.create 1), .lock (.stat 1), .lock (.remove 1),
      .lock (.create 1), .read 1, .write 1, .lock (.release 1),
      .lock (.create 2), .read 2, .write 2, .lock (.release 2)])
    (fun s => s.ended ∧ s.returned_ok 1 ∧ s.returned_ok 2) (by decide)
  exact ⟨s, hended, h₁, h₂, (no_lost_update shop_calls .absent hrun).2 hended⟩

/-- Only the processes in `crashes` crash, and every other process releases the
    lock within the threshold. -/
def OnTime (crashes : ι → Bool) (_ : State ι) (a : Action ι) (s' : State ι) : Prop :=
  (match a with
    | .lock (.crash i) => crashes i
    | _ => true) = true ∧
  ∀ i, crashes i = false → ∀ t ∈ (s'.lock.phase i).since, s'.lock.now ≤ t + STALE_LOCK_THRESHOLD

instance {n : Nat} (crashes : Fin n → Bool) (s : State (Fin n)) (a : Action (Fin n))
    (s' : State (Fin n)) : Decidable (OnTime crashes s a s') :=
  inferInstanceAs (Decidable (_ ∧ _))

/-- Both waiters find the lock stale before either removes it. The second one
    then removes the lock that the first one has just taken. -/
def both_judge_stale : List (Action (Fin 3)) :=
  crash_inside ++ [.lock (.create 1), .lock (.create 2), .lock (.stat 1), .lock (.stat 2),
    .lock (.remove 1), .lock (.create 1), .lock (.remove 2), .lock (.create 2)]

/-- Both register their routes, each on the file it has read. -/
def both_write : List (Action (Fin 3)) :=
  [.read 1, .read 2, .write 1, .write 2, .lock (.release 1), .lock (.release 2)]

/-- Though every process that does not crash releases the lock at once, two
    processes are inside the lock together, and the file they leave is not what
    the calls that returned `Ok` make of it in any order. -/
theorem update_lost :
    ∃ s₁ s₂ : State (Fin 3),
      (system shop_calls).Steps (OnTime (· == 0)) (start .absent) both_judge_stale s₁ ∧
      s₁.inside 1 ∧ s₁.inside 2 ∧
      (system shop_calls).Steps (OnTime (· == 0)) s₁ both_write s₂ ∧ s₂.ended ∧
      ∀ order : List (Fin 3), order.Nodup → (∀ i, i ∈ order ↔ s₂.returned_ok i) →
        s₂.file ≠ serial shop_calls .absent order := by
  obtain ⟨s₁, hrun₁, h₁, h₂, hlost⟩ := System.exists_steps_of_replay (system shop_calls)
    (OnTime (· == 0)) (start .absent) both_judge_stale
    (fun s => s.inside 1 ∧ s.inside 2 ∧
      ((system shop_calls).replay (OnTime (· == 0)) s both_write).any (fun s₂ =>
        decide (s₂.ended ∧ (∀ i, s₂.returned_ok i ↔ i ≠ 0) ∧ s₂.file.routes.length = 1)) = true)
    (by decide)
  obtain ⟨s₂, hrun₂, hended, hok, hlen⟩ := System.exists_steps_of_replay _ _ _ _
    (fun s₂ : State (Fin 3) =>
      s₂.ended ∧ (∀ i, s₂.returned_ok i ↔ i ≠ 0) ∧ s₂.file.routes.length = 1) hlost
  refine ⟨s₁, s₂, hrun₁, h₁, h₂, hrun₂, hended, ?_⟩
  intro order hnodup hmem heq
  -- in either order the calls of the two processes leave two routes
  have hperm : order.Perm [1, 2] := by
    rw [List.perm_ext_iff_of_nodup hnodup (by decide)]
    intro i
    rw [hmem, hok]
    revert i
    decide
  obtain ⟨i, j, rfl⟩ := List.length_eq_two.mp hperm.length_eq
  have hij : i ≠ j := by simpa using hnodup
  have hi : i ≠ 0 := (hok i).mp ((hmem i).mp (by simp))
  have hj : j ≠ 0 := (hok j).mp ((hmem j).mp (by simp))
  have htwo : ∀ i j : Fin 3, i ≠ 0 → j ≠ 0 → i ≠ j →
      (serial shop_calls .absent [i, j]).routes.length = 2 := by decide
  have := htwo i j hi hj hij
  rw [← heq, hlen] at this
  omega

end LockedStore

end Nsl
