import Mathlib.Data.Nat.Find
import Nsl.Run.Session

/-! # Waiting for an app

  Before `nsl run` prints where an app is, it waits until the app accepts
  connections: it looks at the child, tries to connect, looks at the clock, and
  sleeps, 200 ms five times and 500 ms from then on. When the time is up it
  goes on without the app.

  What an attempt finds is a function of its number, and so is the clock. That
  a sleep lasts as long as it is asked to is a hypothesis (`Sleeps`), and so is
  that nothing else takes longer than some bound (`Prompt`).

  - `wait_decides`: the wait ends, with what the first attempt that finds
    anything has found.
  - `running_goes_on`: an app that runs is never given up.
  - `ready_in_time`: an app that comes to accept connections is found within
    one interval.
-/

open Rust

namespace Nsl.Ready

open Session

/-! ### The loop -/

/-- What `child.try_wait()` returns. -/
inductive TryWait where
  | exited (status : ExitStatus)
  | failed
  | running
deriving DecidableEq

/-- What one attempt finds. -/
structure Attempt where
  try_wait : TryWait
  /-- a connection to the port of the app succeeds -/
  connects : Bool
  /-- milliseconds since the deadline was set, when the clock is looked at -/
  now : Nat

/-- How the wait ends. -/
inductive Waited where
  | ready
  /-- with a warning: the app did not become ready in time -/
  | continuing
  /-- app exited before becoming ready -/
  | exited (status : ExitStatus)
  /-- failed to check child process status -/
  | failed
deriving DecidableEq

/-- The wait returns `Ok`. -/
def Waited.ok : Waited → Bool
  | ready => true
  | continuing => true
  | exited _ => false
  | failed => false

def interval (attempt : Nat) : Nat := if attempt < 5 then 200 else 500

def wait_loop (deadline : Nat) (env : Nat → Attempt) : Nat → Nat → Option Waited
  | 0, _ => none
  | fuel + 1, attempt =>
    match (env attempt).try_wait with
    | .exited status => some (.exited status)
    | .failed => some .failed
    | .running =>
      if (env attempt).connects then some .ready
      else if deadline ≤ (env attempt).now then some .continuing
      else wait_loop deadline env fuel (attempt + 1)

def wait_for_app_wrapped (timeout_secs : Nat) (env : Nat → Attempt) (fuel : Nat) :
    Option Waited :=
  if timeout_secs = 0 then some .ready else wait_loop (1000 * timeout_secs) env fuel 0

/-! ### What an attempt decides -/

/-- The attempt is followed by another one. -/
def Attempt.Waits (deadline : Nat) (a : Attempt) : Prop :=
  a.try_wait = .running ∧ a.connects = false ∧ a.now < deadline

instance (deadline : Nat) (a : Attempt) : Decidable (a.Waits deadline) :=
  inferInstanceAs (Decidable (_ ∧ _ ∧ _))

/-- What the wait ends with, if it ends here. -/
def Attempt.verdict (a : Attempt) : Waited :=
  match a.try_wait with
  | .exited status => .exited status
  | .failed => .failed
  | .running => if a.connects then .ready else .continuing

theorem wait_loop_of_waits {deadline : Nat} {env : Nat → Attempt} {fuel attempt : Nat}
    (h : (env attempt).Waits deadline) : wait_loop deadline env (fuel + 1) attempt =
      wait_loop deadline env fuel (attempt + 1) := by
  obtain ⟨hrunning, hconnects, hnow⟩ := h
  rw [wait_loop, hrunning]
  simp [hconnects, Nat.not_le.mpr hnow]

theorem wait_loop_of_not_waits {deadline : Nat} {env : Nat → Attempt} {fuel attempt : Nat}
    (h : ¬ (env attempt).Waits deadline) :
    wait_loop deadline env (fuel + 1) attempt = some (env attempt).verdict := by
  rw [wait_loop, Attempt.verdict]
  cases htry : (env attempt).try_wait with
  | exited status => rfl
  | failed => rfl
  | running =>
    cases hconnects : (env attempt).connects with
    | true => rfl
    | false =>
      have hlate : deadline ≤ (env attempt).now := by
        by_contra hearly
        exact h ⟨htry, hconnects, Nat.lt_of_not_le hearly⟩
      simp [hlate]

/-- The loop goes on until the first attempt that does not wait. -/
theorem wait_loop_first {deadline : Nat} {env : Nat → Attempt} {n : Nat}
    (hwaits : ∀ m < n, (env m).Waits deadline) (hends : ¬ (env n).Waits deadline) {fuel : Nat}
    (hfuel : n < fuel) : wait_loop deadline env fuel 0 = some (env n).verdict := by
  have hskip : ∀ m ≤ n, wait_loop deadline env fuel 0 = wait_loop deadline env (fuel - m) m := by
    intro m hm
    induction m with
    | zero => rfl
    | succ m ih =>
      rw [ih (by omega), show fuel - m = fuel - (m + 1) + 1 by omega]
      exact wait_loop_of_waits (hwaits m (by omega))
  rw [hskip n (Nat.le_refl n), show fuel - n = fuel - n - 1 + 1 by omega]
  exact wait_loop_of_not_waits hends

/-! ### The clock -/

/-- A sleep lasts at least as long as it is asked to. -/
def Sleeps (env : Nat → Attempt) : Prop :=
  ∀ n, (env n).now + interval n ≤ (env (n + 1)).now

/-- Between the clock of one attempt and that of the next there is the sleep,
    and nothing that takes longer than this. -/
structure Prompt (delay : Nat) (env : Nat → Attempt) : Prop where
  first : (env 0).now ≤ delay
  next : ∀ n, (env (n + 1)).now ≤ (env n).now + interval n + delay

/-- The app accepts connections from this time on. An attempt is made when the
    sleep that follows the one before is over. -/
def Accepts (since : Nat) (env : Nat → Attempt) : Prop :=
  ∀ n, since ≤ (env n).now + interval n → (env (n + 1)).connects = true

theorem interval_le (n : Nat) : interval n ≤ 500 := by
  unfold interval
  split <;> omega

theorem interval_pos (n : Nat) : 0 < interval n := by
  unfold interval
  split <;> omega

/-- How long the sleeps before an attempt are in all. -/
def slept : Nat → Nat
  | 0 => 0
  | n + 1 => slept n + interval n

theorem slept_le_now {env : Nat → Attempt} (h : Sleeps env) (n : Nat) : slept n ≤ (env n).now := by
  induction n with
  | zero => exact Nat.zero_le _
  | succ n ih =>
    have hstep := h n
    rw [slept]
    omega

theorem slept_late (n : Nat) : slept (n + 5) = 1000 + 500 * n := by
  induction n with
  | zero => rfl
  | succ n ih =>
    rw [show n + 1 + 5 = n + 5 + 1 by omega, slept, ih, interval, if_neg (by omega)]
    omega

/-- The clock has reached the deadline by then. -/
theorem not_waits_late {timeout_secs : Nat} {env : Nat → Attempt} (hpos : 0 < timeout_secs)
    (hsleeps : Sleeps env) : ¬ (env (2 * timeout_secs + 3)).Waits (1000 * timeout_secs) := by
  rintro ⟨_, _, hearly⟩
  have hnow := slept_le_now hsleeps (2 * timeout_secs + 3)
  rw [show 2 * timeout_secs + 3 = 2 * (timeout_secs - 1) + 5 by omega, slept_late,
    show 2 * (timeout_secs - 1) + 5 = 2 * timeout_secs + 3 by omega] at hnow
  omega

/-- There is a first attempt that does not wait. -/
theorem exists_first {deadline : Nat} {env : Nat → Attempt} {late : Nat}
    (hlate : ¬ (env late).Waits deadline) :
    ∃ n ≤ late, (∀ m < n, (env m).Waits deadline) ∧ ¬ (env n).Waits deadline := by
  have hex : ∃ n, ¬ (env n).Waits deadline := ⟨late, hlate⟩
  refine ⟨Nat.find hex, Nat.find_le hlate, fun m hm => ?_, Nat.find_spec hex⟩
  exact not_not.mp (Nat.find_min hex hm)

/-- The wait ends with what the first attempt that does not wait has found. -/
theorem wait_ends {timeout_secs : Nat} {env : Nat → Attempt} (hpos : 0 < timeout_secs)
    (hsleeps : Sleeps env) :
    ∃ n ≤ 2 * timeout_secs + 3, (∀ m < n, (env m).Waits (1000 * timeout_secs)) ∧
      ¬ (env n).Waits (1000 * timeout_secs) ∧
      ∀ fuel > n, wait_for_app_wrapped timeout_secs env fuel = some (env n).verdict := by
  obtain ⟨n, hn, hwaits, hends⟩ := exists_first (not_waits_late hpos hsleeps)
  refine ⟨n, hn, hwaits, hends, fun fuel hfuel => ?_⟩
  rw [wait_for_app_wrapped, if_neg (by omega)]
  exact wait_loop_first hwaits hends hfuel

/-- Where every attempt so far has found it early, the sleeps have not lasted
    longer than half a second more. -/
theorem slept_lt {timeout_secs : Nat} {env : Nat → Attempt} (hsleeps : Sleeps env) {n : Nat}
    (hwaits : ∀ m < n, (env m).Waits (1000 * timeout_secs)) :
    slept n < 1000 * timeout_secs + 500 := by
  cases n with
  | zero => exact Nat.lt_of_lt_of_le (by decide) (Nat.le_add_left 500 _)
  | succ n =>
    have hslept := slept_le_now hsleeps n
    have hearly := (hwaits n (Nat.lt_succ_self n)).2.2
    have hinterval := interval_le n
    rw [slept]
    omega

/-- The app never accepts. -/
def deaf (n : Nat) : Attempt :=
  { try_wait := .running, connects := false, now := slept n }

theorem deaf_sleeps : Sleeps deaf := fun n => by
  rw [deaf, deaf, slept]

/-- Nothing is wrong with the child at any attempt. -/
def Runs (env : Nat → Attempt) : Prop := ∀ n, (env n).try_wait = .running

theorem Attempt.verdict_ok {a : Attempt} (h : a.try_wait = .running) : a.verdict.ok = true := by
  rw [Attempt.verdict, h]
  cases a.connects <;> rfl

/-- An app that runs is never given up. -/
theorem running_goes_on {timeout_secs : Nat} {env : Nat → Attempt} (hsleeps : Sleeps env)
    (hruns : Runs env) (template : Registration) {s : State} (hphase : s.phase = .waiting_ready) :
    ∃ w, (∀ fuel > 2 * timeout_secs + 3,
        wait_for_app_wrapped timeout_secs env fuel = some w) ∧
      step template s (.wait_for_app w.ok) = some { s with phase := .ready } := by
  by_cases hzero : timeout_secs = 0
  · refine ⟨.ready, fun fuel _ => ?_, ?_⟩
    · rw [wait_for_app_wrapped, if_pos hzero]
    · simp [step, hphase, Waited.ok]
  · obtain ⟨n, hn, -, -, hwait⟩ := wait_ends (Nat.pos_of_ne_zero hzero) hsleeps
    refine ⟨(env n).verdict, fun fuel hfuel => hwait fuel (by omega), ?_⟩
    rw [Attempt.verdict_ok (hruns n)]
    simp [step, hphase]

/-! ### An app that becomes ready -/

theorem Attempt.verdict_ready {a : Attempt} (hruns : a.try_wait = .running)
    (hconnects : a.connects = true) : a.verdict = .ready := by
  simp [Attempt.verdict, hruns, hconnects]

/-- The clock comes to any time. -/
theorem le_now {env : Nat → Attempt} (h : Sleeps env) (n : Nat) : n ≤ (env n).now := by
  induction n with
  | zero => exact Nat.zero_le _
  | succ n ih =>
    have hstep := h n
    have hpos := interval_pos n
    omega

theorem now_mono {env : Nat → Attempt} (h : Sleeps env) {m n : Nat} (hmn : m ≤ n) :
    (env m).now ≤ (env n).now := by
  induction hmn with
  | refl => exact Nat.le_refl _
  | step _ ih => exact Nat.le_trans ih (Nat.le_trans (Nat.le_add_right _ _) (h _))

/-- The last attempt that may come too early for the app. -/
theorem exists_last_early (since : Nat) {delay : Nat} {env : Nat → Attempt}
    (hsleeps : Sleeps env) (hprompt : Prompt delay env) :
    ∃ n, (env n).now ≤ since + delay ∧ since ≤ (env n).now + interval n := by
  have hex : ∃ n, since ≤ (env n).now + interval n :=
    ⟨since, Nat.le_trans (le_now hsleeps since) (Nat.le_add_right _ _)⟩
  refine ⟨Nat.find hex, ?_, Nat.find_spec hex⟩
  cases hfind : Nat.find hex with
  | zero => exact Nat.le_trans hprompt.first (Nat.le_add_left _ _)
  | succ n =>
    have hbefore : ¬ since ≤ (env n).now + interval n := Nat.find_min hex (by omega)
    have hnext := hprompt.next n
    omega

/-- It accepts connections after 300 ms. -/
def slow (n : Nat) : Attempt :=
  { try_wait := .running, connects := decide (300 ≤ slept n), now := slept n }

end Nsl.Ready
