import Nsl.Framework.DirLock
import Nsl.Routes.Store

/-! # Ports of concurrent runs

  Any number of `nsl run` processes without a pinned port: each looks for a free
  port by binding it and letting it go again, spawns its child, registers a
  route to the port, and leaves it to the child to bind the port at some later
  time, or never. The steps interleave freely, other programs bind and close
  ports as they like, and a run may die at any step.

  - `allocated_ports_exclusive`: while the port of a live run is bound whenever
    another run probes it, no two live runs have registered routes to one port.
  - `port_registered_twice`: two runs probe a port before either child binds it.
-/

open Rust Framework Framework.DirLock

namespace Nsl

/-- How many random ports `find_free_port` tries. -/
def RANDOM_ATTEMPTS : Nat := 10

/-- A random port of the range; there is none when the number of its ports
    overflows to zero, and the remainder panics. -/
def random_port (range : UInt16 × UInt16) (rand : UInt16) : Option UInt16 :=
  let width := range.2 - range.1 + 1
  if width = 0 then none else some (range.1 + rand % width)

namespace Ports

variable {ι : Type u}

/-! ### The runs -/

/-- How far a run has come. -/
inductive Stage where
  | idle
  /-- so many random attempts are left -/
  | probing (left : Nat)
  /-- the sequential fallback, with the next port -/
  | scanning (port : Nat)
  | allocated (port : UInt16)
  | spawned (port : UInt16) (child : UInt32)
  | registered (route : RouteMapping)
  | ended
deriving DecidableEq

/-- The port that `find_free_port` has given to the run. -/
def Stage.port : Stage → Option UInt16
  | allocated port | spawned port _ => some port
  | registered route => some route.port
  | _ => none

/-- Who has a port bound. -/
inductive Holder (ι : Type u) where
  | child (i : ι)
  | other
deriving DecidableEq

structure State (ι : Type u) where
  file : RoutesFile
  bound : UInt16 → Option (Holder ι)
  stage : ι → Stage

def start (file : RoutesFile) : State ι where
  file := file
  bound _ := none
  stage _ := .idle

/-- The configuration of a run, and what it registers once it has a port and a
    child. -/
structure Setup (ι : Type u) where
  range : ι → UInt16 × UInt16
  reg : ι → Registration

inductive Action (ι : Type u) where
  /-- `ensure_proxy_running` returns -/
  | begin (i : ι)
  /-- a random port; the bind may also be refused for another reason -/
  | probe (i : ι) (rand : UInt16) (refused : Bool)
  | scan (i : ι) (refused : Bool)
  | spawn (i : ι) (child : UInt32)
  /-- `add_route_with_owner` -/
  | register (i : ι) (os : Os)
  /-- the child is gone, and the run removes its route -/
  | finish (i : ι) (os : Os)
  | crash (i : ι)
  | bind (holder : Holder ι) (port : UInt16)
  | close (port : UInt16)

/-- The registration of a run that has a port and a child. -/
def Setup.registration (setup : Setup ι) (i : ι) (port : UInt16) (child : UInt32) : Registration :=
  { setup.reg i with port := port, pid := child }

/-- The removal of the route when the child is gone. -/
def Setup.removal (setup : Setup ι) (i : ι) (route : RouteMapping) : Call :=
  let path := (setup.reg i).mount.path
  .remove_route_for_pid route.hostname (if path = ['/'] then none else some path) route.pid

/-- Which run tries to bind which port; a bind that is refused for a reason of
    its own finds nothing. -/
def probes (setup : Setup ι) (s : State ι) : Action ι → Option (ι × UInt16)
  | .probe i rand false =>
    match s.stage i with
    | .probing (_ + 1) => (random_port (setup.range i) rand).map fun port => (i, port)
    | _ => none
  | .scan i false =>
    match s.stage i with
    | .scanning port =>
      if port ≤ (setup.range i).2.toNat then some (i, UInt16.ofNat port) else none
    | _ => none
  | _ => none

/-! ### The steps -/

section
variable [DecidableEq ι]

def State.to_stage (s : State ι) (i : ι) (st : Stage) : State ι :=
  { s with stage := setLocal s.stage i st }

/-- Bind a port and let it go: the run has it if nobody else has. -/
def State.try_port (s : State ι) (i : ι) (port : UInt16) (refused : Bool) (failed : Stage) :
    State ι :=
  if s.bound port = none ∧ refused = false then s.to_stage i (.allocated port)
  else s.to_stage i failed

def step (setup : Setup ι) (s : State ι) : Action ι → Option (State ι)
  | .begin i => if s.stage i = .idle then some (s.to_stage i (.probing RANDOM_ATTEMPTS)) else none
  | .probe i rand refused =>
    match s.stage i with
    | .probing (n + 1) =>
      match random_port (setup.range i) rand with
      | none => some (s.to_stage i .ended)
      | some port =>
        some (s.try_port i port refused
          (if n = 0 then .scanning (setup.range i).1.toNat else .probing n))
    | _ => none
  | .scan i refused =>
    match s.stage i with
    | .scanning port =>
      if port ≤ (setup.range i).2.toNat then
        some (s.try_port i (UInt16.ofNat port) refused (.scanning (port + 1)))
      -- no free port found in the range
      else some (s.to_stage i .ended)
    | _ => none
  | .spawn i child =>
    match s.stage i with
    | .allocated port => some (s.to_stage i (.spawned port child))
    | _ => none
  | .register i os =>
    match s.stage i with
    | .spawned port child =>
      let reg := setup.registration i port child
      match run os (.add_route_with_owner reg) s.file with
      -- the child is killed
      | (.error _, file) => some { s.to_stage i .ended with file := file }
      | (.ok (), file) =>
        some { s.to_stage i (.registered (reg.route (reg.mount.path |> normalize_path_prefix))) with
          file := file }
    | _ => none
  | .finish i os =>
    match s.stage i with
    | .registered route =>
      some { s.to_stage i .ended with file := (run os (setup.removal i route) s.file).2 }
    | _ => none
  | .crash i => if s.stage i = .ended then none else some (s.to_stage i .ended)
  | .bind holder port =>
    if s.bound port = none then some { s with bound := setLocal s.bound port (some holder) }
    else none
  | .close port => some { s with bound := setLocal s.bound port none }

/-- The runs of one machine, on any file. -/
def system (setup : Setup ι) : System (State ι) (Action ι) where
  init s := ∃ file, s = start file
  step := step setup

end

/-! ### The condition on a step -/

/-- A port that another run was given is bound. -/
def State.held (s : State ι) (i : ι) (port : UInt16) : Prop :=
  ∀ j, j ≠ i → (s.stage j).port = some port → s.bound port ≠ none

/-- A port that a live run was given is bound whenever another run probes it. -/
def Held (setup : Setup ι) (s : State ι) (a : Action ι) (_ : State ι) : Prop :=
  match probes setup s a with
  | some (i, port) => s.held i port
  | none => True

/-- No two runs have one port. -/
def Exclusive (s : State ι) : Prop :=
  ∀ i j port, (s.stage i).port = some port → (s.stage j).port = some port → i = j

/-! ### What a step can do -/

variable [DecidableEq ι]

/-- A run that goes on keeps its port or loses it. -/
theorem port_to_stage {s : State ι} {i j : ι} {st : Stage} {port : UInt16}
    (hst : st.port = none ∨ st.port = (s.stage i).port)
    (h : ((s.to_stage i st).stage j).port = some port) : (s.stage j).port = some port := by
  by_cases hj : j = i
  · have hport : st.port = some port := by simpa [State.to_stage, hj] using h
    rcases hst with hnone | hsame
    · rw [hnone] at hport
      cases hport
    · rw [hj, ← hsame, hport]
  · simpa [State.to_stage, hj] using h

theorem port_try_port {s : State ι} {i j : ι} {p port : UInt16} {refused : Bool} {failed : Stage}
    (hfailed : failed.port = none)
    (h : ((s.try_port i p refused failed).stage j).port = some port) :
    (s.stage j).port = some port ∨ refused = false ∧ (i, p) = (j, port) ∧ s.bound port = none := by
  unfold State.try_port at h
  split at h
  · next hfree =>
    by_cases hj : j = i
    · obtain rfl : p = port := by simpa [State.to_stage, hj, Stage.port] using h
      exact .inr ⟨hfree.2, by rw [hj], hfree.1⟩
    · exact .inl (by simpa [State.to_stage, hj] using h)
  · exact .inl (port_to_stage (.inl hfailed) h)

/-- A run that has a port after a step had it before, or has just probed it when
    nobody held it. -/
theorem port_of_step {setup : Setup ι} {s s' : State ι} {a : Action ι} {j : ι} {port : UInt16}
    (hstep : step setup s a = some s') (hj : (s'.stage j).port = some port) :
    (s.stage j).port = some port ∨
      (probes setup s a = some (j, port) ∧ s.bound port = none) := by
  cases a with
  | begin i =>
    simp only [step] at hstep
    split at hstep
    · cases hstep
      exact .inl (port_to_stage (.inl rfl) hj)
    · cases hstep
  | probe i rand refused =>
    simp only [step] at hstep
    split at hstep
    · next n hi =>
      split at hstep
      · cases hstep
        exact .inl (port_to_stage (.inl rfl) hj)
      · next p hp =>
        cases hstep
        have hfailed : (if n = 0 then Stage.scanning (setup.range i).1.toNat
            else .probing n).port = none := by
          split <;> rfl
        refine (port_try_port hfailed hj).imp_right ?_
        rintro ⟨rfl, hpair, hfree⟩
        refine ⟨?_, hfree⟩
        rw [← hpair]
        simp only [probes, hi, hp, Option.map_some]
    · cases hstep
  | scan i refused =>
    simp only [step] at hstep
    split at hstep
    · next p hi =>
      split at hstep
      · next hp =>
        cases hstep
        refine (port_try_port rfl hj).imp_right ?_
        rintro ⟨rfl, hpair, hfree⟩
        refine ⟨?_, hfree⟩
        rw [← hpair]
        simp only [probes, hi, hp, if_true]
      · cases hstep
        exact .inl (port_to_stage (.inl rfl) hj)
    · cases hstep
  | spawn i child =>
    simp only [step] at hstep
    split at hstep
    · next p hi =>
      cases hstep
      exact .inl (port_to_stage (.inr (by rw [hi]; rfl)) hj)
    · cases hstep
  | register i os =>
    simp only [step] at hstep
    split at hstep
    · next p child hi =>
      split at hstep
      · cases hstep
        exact .inl (port_to_stage (.inl rfl) hj)
      · cases hstep
        -- the route has the port that the run was given
        exact .inl (port_to_stage (.inr (by rw [hi]; rfl)) hj)
    · cases hstep
  | finish i os =>
    simp only [step] at hstep
    split at hstep
    · cases hstep
      exact .inl (port_to_stage (.inl rfl) hj)
    · cases hstep
  | crash i =>
    simp only [step] at hstep
    split at hstep
    · cases hstep
    · cases hstep
      exact .inl (port_to_stage (.inl rfl) hj)
  | bind holder p =>
    simp only [step] at hstep
    split at hstep
    · cases hstep
      exact .inl hj
    · cases hstep
  | close p =>
    cases hstep
    exact .inl hj

/-! ### The invariant over a step -/

theorem Exclusive.step {setup : Setup ι} {s s' : State ι} {a : Action ι} (h : Exclusive s)
    (hstep : step setup s a = some s') (hheld : Held setup s a s') : Exclusive s' := by
  -- a run that has just probed the port, and another one that had it already
  have hfresh : ∀ i j port, probes setup s a = some (i, port) → s.bound port = none →
      (s.stage j).port = some port → i = j := by
    intro i j port hprobes hfree hj
    by_contra hij
    unfold Held at hheld
    rw [hprobes] at hheld
    exact hheld j (Ne.symm hij) hj hfree
  intro i j port hi hj
  rcases port_of_step hstep hi with hi | ⟨hprobes, hfree⟩
  · rcases port_of_step hstep hj with hj | ⟨hprobes, hfree⟩
    · exact h i j port hi hj
    · exact (hfresh j i port hprobes hfree hi).symm
  · rcases port_of_step hstep hj with hj | ⟨hprobes', _⟩
    · exact hfresh i j port hprobes hfree hj
    · -- a step probes for one run only
      rw [hprobes] at hprobes'
      exact (Prod.mk.inj (Option.some.inj hprobes')).1

/-! ### Exclusive ports -/

/-- **Allocated app ports are exclusive**: in every interleaving of any number
    of runs in which the port of a live run is bound whenever another run probes
    it, no two live runs have registered routes with one port. -/
theorem allocated_ports_exclusive (setup : Setup ι) (file : RoutesFile) {acts : List (Action ι)}
    {s : State ι} (hrun : (system setup).Steps (Held setup) (start file) acts s) {i j : ι}
    {R R' : RouteMapping} (hi : s.stage i = .registered R) (hj : s.stage j = .registered R')
    (hport : R.port = R'.port) : i = j := by
  have hexclusive : Exclusive s :=
    hrun.invariant (I := Exclusive) (fun _ _ _ h => by cases h)
      (fun _ _ _ h hstep hg => h.step hstep hg)
  exact hexclusive i j R.port (by rw [hi]; rfl) (by rw [hj, hport]; rfl)

/-! ### Two launches -/

/-- Two apps with the default range of ports. -/
def shop_and_blog : Setup (Fin 2) where
  range _ := (20000, 29999)
  reg i := .plain (["shop.localhost", "blog.localhost"].get i) "app" 0

instance {n : Nat} (s : State (Fin n)) (i : Fin n) (port : UInt16) : Decidable (s.held i port) :=
  inferInstanceAs (Decidable (∀ j, j ≠ i → (s.stage j).port = some port → s.bound port ≠ none))

instance {n : Nat} (setup : Setup (Fin n)) (s : State (Fin n)) (a : Action (Fin n))
    (s' : State (Fin n)) : Decidable (Held setup s a s') :=
  match h : probes setup s a with
  | some (i, port) => decidable_of_iff (s.held i port) (by rw [Held, h])
  | none => isTrue (by rw [Held, h]; trivial)

/-- The route of an app with a port and a child. -/
def app_route (i : Fin 2) (port : UInt16) (child : UInt32) : RouteMapping :=
  (shop_and_blog.registration i port child).route "/".toList

/-- The first child binds its port before the second run probes it. -/
theorem ports_differ_when_bound :
    ∃ s : State (Fin 2), s.stage 0 = .registered (app_route 0 20005 7) ∧
      s.stage 1 = .registered (app_route 1 20006 8) ∧
      (app_route 0 20005 7).port ≠ (app_route 1 20006 8).port := by
  obtain ⟨s, hrun, h₀, h₁⟩ := System.exists_steps_of_replay (system shop_and_blog)
    (Held shop_and_blog) (start .absent)
    [.begin 0, .probe 0 5 false, .spawn 0 7, .register 0 .calm, .bind (.child 0) 20005,
      .begin 1, .probe 1 5 false, .probe 1 6 false, .spawn 1 8, .register 1 .calm]
    (fun s => s.stage 0 = .registered (app_route 0 20005 7) ∧
      s.stage 1 = .registered (app_route 1 20006 8))
    (by decide +kernel)
  refine ⟨s, h₀, h₁, ?_⟩
  intro hport
  exact absurd (allocated_ports_exclusive shop_and_blog .absent hrun h₀ h₁ hport) (by decide)

/-- Both runs probe the port before either child binds it, and both register a
    route to it. -/
theorem port_registered_twice :
    ∃ s : State (Fin 2),
      (system shop_and_blog).Steps System.anyStep (start .absent)
        [.begin 0, .begin 1, .probe 0 5 false, .probe 1 5 false, .spawn 0 7, .spawn 1 8,
          .register 0 .calm, .register 1 .calm] s ∧
      s.stage 0 = .registered (app_route 0 20005 7) ∧
      s.stage 1 = .registered (app_route 1 20005 8) ∧
      s.file = .holds [app_route 0 20005 7, app_route 1 20005 8] := by
  exact System.exists_steps_of_replay _ _ _ _ _ (by decide +kernel)

end Ports

end Nsl
