import Nsl.Proxy.Lifecycle

/-! # Cleanups and running daemons

  Whose files a cleanup removes, in every run of daemons and stops.

  - `Inv`: at most one daemon has written files and is running; `proxy.pid` is
    its own, every stop is after it, and none removes files while it runs.
  - `cleanup_spares_running`: while daemons write only when they are alone and
    no stop is after another process, and a stop neither gives up on a running
    process nor asks about one it may not signal, no removal takes a file from
    a running daemon other than the one that removes it, and a stop that
    returns `Ok` has seen its process gone.
  - `files_of_running_removed`: a new daemon loses its files to an old stop, a
    stop gives up, and a stop is not allowed to ask.
-/

open Rust Framework Framework.DirLock

namespace Nsl

namespace Lifecycle

variable {ι : Type u}

/-! ### The invariant -/

structure Inv (s : State ι) : Prop where
  live : ∀ p, p ∈ s.table.processes ↔ (s.stage p).live = true
  text : ∀ w, s.file .pid = some w → w.text = shown_pid w.writer.pid
  written : ∀ f w, s.file f = some w → s.stage w.writer ≠ .unborn
  writer : ∀ f w, s.file f = some w → (s.stage w.writer).live = true →
    (s.stage w.writer).active = true
  one : ∀ p q, (s.stage p).active = true → (s.stage q).active = true → p = q
  /-- `proxy.pid` is that of the running daemon, if there is one -/
  present : ∀ p w, (s.stage p).active = true → s.file .pid = some w → w.writer = p
  /-- a stop is after the running daemon, if there is one -/
  after : ∀ i pid, (s.stop i).pid = some pid → ∀ p, (s.stage p).active = true → p.pid = pid
  cleaning : ∀ i, (s.stop i).cleans = true → ∀ p, (s.stage p).active = false
  born : ∀ i p, s.target i = some p → s.stage p ≠ .unborn
  polled : ∀ i p pid n, s.target i = some p → s.stop i = .polling pid n → p.pid = pid
  ok : ∀ i p, s.target i = some p → (s.stop i).ok = true → (s.stage p).live = false

theorem inv_start : Inv (start : State ι) where
  live p := by simp [start, Stage.live]
  text w h := by cases h
  written f w h := by cases h
  writer f w h := by cases h
  one p q h := by cases h
  present p w h := by cases h
  after i pid h := by cases h
  cleaning i h := by cases h
  born i p h := by cases h
  polled i p pid n h := by cases h
  ok i p h := by cases h

/-! ### Steps that write no file -/

theorem put_none_some {s : State ι} {f g : LifecycleFile} {w : Written}
    (h : (s.put f none).file g = some w) : s.file g = some w := by
  by_cases hg : g = f
  · subst hg
    simp [State.put] at h
  · simpa [State.put, hg] using h

theorem Inv.put_none {s : State ι} (h : Inv s) (f : LifecycleFile) : Inv (s.put f none) where
  live := h.live
  text w hw := h.text w (put_none_some hw)
  written g w hw := h.written g w (put_none_some hw)
  writer g w hw := h.writer g w (put_none_some hw)
  one := h.one
  present p w hp hw := h.present p w hp (put_none_some hw)
  after := h.after
  cleaning := h.cleaning
  born := h.born
  polled := h.polled
  ok := h.ok

/-- Processes that begin, go on or end, and none that begins to be a daemon. -/
theorem Inv.of_stage {s : State ι} {t : ProcessTable} {stage : Process → Stage} (h : Inv s)
    (hlive : ∀ p, p ∈ t.processes ↔ (stage p).live = true)
    (hactive : ∀ p, (stage p).active = true → (s.stage p).active = true)
    (hborn : ∀ p, s.stage p ≠ .unborn → stage p ≠ .unborn)
    (hkeeps : ∀ p, s.stage p ≠ .unborn → (stage p).live = true →
      (s.stage p).live = true ∧ ((s.stage p).active = true → (stage p).active = true)) :
    Inv { s with table := t, stage := stage } where
  live := hlive
  text := h.text
  written f w hw := hborn _ (h.written f w hw)
  writer f w hw hw' := by
    obtain ⟨hold, hstill⟩ := hkeeps _ (h.written f w hw) hw'
    exact hstill (h.writer f w hw hold)
  one p q hp hq := h.one p q (hactive p hp) (hactive q hq)
  present p w hp := h.present p w (hactive p hp)
  after i pid hi p hp := h.after i pid hi p (hactive p hp)
  cleaning i hi p := by
    rw [Bool.eq_false_iff]
    intro hp
    exact absurd (hactive p hp) (Bool.eq_false_iff.mp (h.cleaning i hi p))
  born i p hp := hborn p (h.born i p hp)
  polled := h.polled
  ok i p hp hok := by
    rw [Bool.eq_false_iff]
    intro hp'
    have hold := (hkeeps p (h.born i p hp) hp').1
    rw [h.ok i p hp hok] at hold
    cases hold

theorem Inv.to_stage {s : State ι} {p : Process} {st : Stage} (h : Inv s)
    (hp : (s.stage p).live = true) (hst : st.live = true)
    (hactive : st.active = (s.stage p).active) : Inv (s.to_stage p st) := by
  have hlive' : ∀ q, ((s.to_stage p st).stage q).live = (s.stage q).live := by
    intro q
    by_cases hq : q = p
    · simp [hq, hp, hst]
    · simp [hq]
  have hactive' : ∀ q, ((s.to_stage p st).stage q).active = (s.stage q).active := by
    intro q
    by_cases hq : q = p
    · simp [hq, hactive]
    · simp [hq]
  apply h.of_stage
  · intro q
    rw [h.live, ← hlive']
    rfl
  · exact fun q hq => hactive' q ▸ hq
  · intro q hborn hq
    by_cases hqp : q = p
    · have hunborn : st = .unborn := by simpa [hqp] using hq
      rw [hunborn] at hst
      cases hst
    · exact hborn (by simpa [hqp] using hq)
  · exact fun q _ hq => ⟨hlive' q ▸ hq, fun hq' => (hactive' q).trans hq'⟩

/-! ### Processes that begin and end -/

theorem Inv.spawn {s : State ι} {p : Process} {t : ProcessTable} (h : Inv s)
    (hunborn : s.stage p = .unborn) (ht : spawn s.table p = some t) :
    Inv { s.to_stage p .launched with table := t } := by
  have hmem : ∀ q, q ∈ t.processes ↔ q = p ∨ q ∈ s.table.processes := by
    intro q
    unfold Lifecycle.spawn at ht
    split at ht
    · cases ht
      exact List.mem_cons
    · cases ht
  -- the other processes, and among them all that were there before
  have hold : ∀ q, s.stage q ≠ .unborn → (s.to_stage p .launched).stage q = s.stage q := by
    intro q hq
    have hqp : q ≠ p := by
      rintro rfl
      exact hq hunborn
    exact s.to_stage_other .launched hqp
  apply h.of_stage
  · intro q
    rw [hmem]
    by_cases hq : q = p
    · simp [hq, Stage.live]
    · simp [hq, h.live q]
  · intro q hq
    by_cases hqp : q = p
    · rw [hqp, s.to_stage_self] at hq
      cases hq
    · rwa [s.to_stage_other _ hqp] at hq
  · intro q hq
    rwa [hold q hq]
  · intro q hq hlive
    rw [hold q hq] at hlive ⊢
    exact ⟨hlive, id⟩

theorem Inv.exit {s : State ι} {p : Process} (h : Inv s) :
    Inv { s.to_stage p .ended with table := exit s.table p } := by
  -- what runs after the step ran before it
  have hlive : ∀ q, ((s.to_stage p .ended).stage q).live = true →
      q ≠ p ∧ (s.to_stage p .ended).stage q = s.stage q := by
    intro q hq
    by_cases hqp : q = p
    · rw [hqp, s.to_stage_self] at hq
      cases hq
    · exact ⟨hqp, s.to_stage_other .ended hqp⟩
  apply h.of_stage
  · intro q
    have hmem : q ∈ (Lifecycle.exit s.table p).processes ↔ q ∈ s.table.processes ∧ q ≠ p := by
      simp [Lifecycle.exit]
    rw [hmem, h.live]
    constructor
    · rintro ⟨hq, hqp⟩
      rwa [s.to_stage_other _ hqp]
    · intro hq
      obtain ⟨hqp, hsame⟩ := hlive q hq
      rw [hsame] at hq
      exact ⟨hq, hqp⟩
  · intro q hq
    rwa [(hlive q (Stage.live_of_active hq)).2] at hq
  · intro q hq
    by_cases hqp : q = p
    · simp [hqp]
    · rwa [s.to_stage_other _ hqp]
  · intro q _ hq
    have hsame := (hlive q hq).2
    rw [hsame] at hq ⊢
    exact ⟨hq, id⟩

/-! ### Steps that write a file -/

/-- A process that is alone writes a file; `proxy.pid` is the first one. -/
theorem Inv.write {s : State ι} {p : Process} {f : LifecycleFile} {text : Str} {st : Stage}
    (h : Inv s) (halone : s.alone p) (hp : (s.stage p).live = true) (hst : st.active = true)
    (hfirst : f = .pid ∧ text = shown_pid p.pid ∨ f ≠ .pid ∧ (s.stage p).active = true) :
    Inv (s.write p f text st) := by
  have hst' := Stage.live_of_active hst
  have hself : (s.write p f text st).stage p = st := by simp [State.write]
  have hother : ∀ q, q ≠ p → (s.write p f text st).stage q = s.stage q := by
    intro q hq
    simp [State.write, State.put, hq]
  have hone : ∀ q, ((s.write p f text st).stage q).active = true → q = p := by
    intro q hq
    by_cases hqp : q = p
    · exact hqp
    · rw [hother q hqp] at hq
      exact halone.1 q ((h.live q).mpr (Stage.live_of_active hq)) hq
  have hfile : ∀ g w, (s.write p f text st).file g = some w →
      g = f ∧ w = ⟨text, p⟩ ∨ g ≠ f ∧ s.file g = some w := by
    intro g w hw
    by_cases hg : g = f
    · refine .inl ⟨hg, ?_⟩
      have hw' : some ⟨text, p⟩ = some w := by
        simpa [State.write, State.to_stage, State.put, hg] using hw
      exact (Option.some.inj hw').symm
    · exact .inr ⟨hg, by simpa [State.write, State.to_stage, State.put, hg] using hw⟩
  have hborn : ∀ q, s.stage q ≠ .unborn → (s.write p f text st).stage q ≠ .unborn := by
    intro q hq
    by_cases hqp : q = p
    · rw [hqp, hself]
      rintro rfl
      cases hst
    · rwa [hother q hqp]
  constructor
  · intro q
    by_cases hqp : q = p
    · rw [hqp, hself]
      exact iff_of_true ((h.live p).mpr hp) hst'
    · rw [hother q hqp]
      exact h.live q
  · intro w hw
    rcases hfile _ w hw with ⟨hg, rfl⟩ | ⟨_, hw⟩
    · rcases hfirst with ⟨_, htext⟩ | ⟨hne, _⟩
      · exact htext
      · exact absurd hg.symm hne
    · exact h.text w hw
  · intro g w hw
    rcases hfile g w hw with ⟨_, rfl⟩ | ⟨_, hw⟩
    · rw [hself]
      rintro rfl
      cases hst
    · exact hborn _ (h.written g w hw)
  · intro g w hw hlive
    by_cases hqp : w.writer = p
    · rw [hqp, hself]
      exact hst
    · rw [hother _ hqp] at hlive ⊢
      rcases hfile g w hw with ⟨_, rfl⟩ | ⟨_, hw⟩
      · exact absurd rfl hqp
      · exact h.writer g w hw hlive
  · intro q r hq hr
    rw [hone q hq, hone r hr]
  · intro q w hq hw
    rw [hone q hq]
    rcases hfile _ w hw with ⟨_, rfl⟩ | ⟨hg, hw⟩
    · rfl
    · rcases hfirst with ⟨hpid, _⟩ | ⟨_, hactive⟩
      · exact absurd hpid.symm hg
      · exact h.present p w hactive hw
  · intro i pid hi q hq
    rw [hone q hq]
    exact ((halone.2 i).2 pid hi).symm
  · intro i hi
    rw [show (s.write p f text st).stop i = s.stop i from rfl, (halone.2 i).1] at hi
    cases hi
  · exact fun i q hq => hborn q (h.born i q hq)
  · exact h.polled
  · intro i q hq hok
    by_cases hqp : q = p
    · -- a stop that has seen its process gone has not signalled one that runs
      have hgone := h.ok i q hq hok
      rw [hqp, hp] at hgone
      cases hgone
    · rw [hother q hqp]
      exact h.ok i q hq hok

/-! ### Steps of a daemon -/

theorem Inv.daemon_step {setup : Setup ι} {s s' : State ι} {p : Process} {a : DaemonStep}
    (h : Inv s) (hstep : daemon_step setup s p a = some s')
    (hg : Orderly setup s (.daemon p a) s') : Inv s' := by
  obtain ⟨st, hp, hmove⟩ := daemon_step_cases hstep
  cases hmove with
  | daemonized => exact h.write hg (by rw [hp]; rfl) rfl (.inl ⟨rfl, rfl⟩)
  | bound _ forked hst =>
    obtain ⟨rfl, rfl⟩ | ⟨rfl, rfl⟩ := hst
    · exact h.to_stage (by rw [hp]; rfl) rfl (by rw [hp]; rfl)
    · exact h.to_stage (by rw [hp]; rfl) rfl (by rw [hp]; rfl)
  | wrote_pid forked => exact h.write hg (by rw [hp]; rfl) rfl (.inl ⟨rfl, rfl⟩)
  | wrote_port =>
    exact h.write hg (by rw [hp]; rfl) rfl (.inr ⟨by decide, by rw [hp]; rfl⟩)
  | wrote_tls =>
    exact h.write hg (by rw [hp]; rfl) rfl (.inr ⟨by decide, by rw [hp]; rfl⟩)
  | removed_tls =>
    have hp' : (s.put .tls none).stage p = .wrote_port := hp
    exact (h.put_none .tls).to_stage (by rw [hp']; rfl) rfl (by rw [hp']; rfl)
  | signalled => exact h.to_stage (by rw [hp]; rfl) rfl (by rw [hp]; rfl)

/-! ### Steps of a stop -/

/-- Nobody runs when a stop that found its process gone begins to clean. -/
theorem Inv.idle_of_gone {s : State ι} {i : ι} {pid : UInt32} (h : Inv s)
    (hpid : (s.stop i).pid = some pid) (hgone : s.gone i) :
    ∀ p, (s.stage p).active = false := by
  intro p
  rw [Bool.eq_false_iff]
  intro hp
  exact hgone pid hpid p ((h.live p).mpr (Stage.live_of_active hp)) (h.after i pid hpid p hp)

/-- And then the process it signalled is gone as well. -/
theorem Inv.target_of_gone {s : State ι} {i : ι} {pid : UInt32} {n : Nat} (h : Inv s)
    (hstop : s.stop i = .polling pid n) (hgone : s.gone i) :
    ∀ p, s.target i = some p → (s.stage p).live = false := by
  intro p hp
  rw [Bool.eq_false_iff]
  intro hlive
  exact hgone pid (by rw [hstop]; rfl) p ((h.live p).mpr hlive) (h.polled i p pid n hp hstop)

/-- A process that may be signalled is gone when it does not count as alive. -/
theorem gone_of_not_alive {setup : Setup ι} {s : State ι} {i : ι} {pid : UInt32}
    (hask : s.may_ask setup i) (hpid : (s.stop i).pid = some pid)
    (hdead : ¬ is_process_alive s.table (setup.caller i) pid = true) : s.gone i := by
  intro pid' hpid' p hp heq
  obtain rfl : pid = pid' := Option.some.inj (hpid.symm.trans hpid')
  subst heq
  exact hdead ((Process.alive_iff hp).mpr (hask p.pid hpid p hp rfl))

variable [DecidableEq ι]

/-- A stop goes on, and may have signalled a process. -/
theorem Inv.of_stop {s : State ι} {i : ι} {st : StopStage} {target : ι → Option Process}
    (h : Inv s) (htarget : ∀ j, j ≠ i → target j = s.target j)
    (hafter : ∀ pid, st.pid = some pid → ∀ p, (s.stage p).active = true → p.pid = pid)
    (hcleans : st.cleans = true → ∀ p, (s.stage p).active = false)
    (hborn : ∀ p, target i = some p → s.stage p ≠ .unborn)
    (hpolled : ∀ p pid n, target i = some p → st = .polling pid n → p.pid = pid)
    (hok : ∀ p, target i = some p → st.ok = true → (s.stage p).live = false) :
    Inv { s.to_stop i st with target := target } := by
  refine ⟨h.live, h.text, h.written, h.writer, h.one, h.present, ?_, ?_, ?_, ?_, ?_⟩
  all_goals
    intro j
    by_cases hj : j = i
    · subst hj
      simp only [State.to_stop, setLocal_self]
      first | exact hafter | exact hcleans | exact hborn | exact hpolled | exact hok
    · simp only [State.to_stop, setLocal_other _ _ hj, htarget j hj]
      first
      | exact h.after j | exact h.cleaning j | exact h.born j | exact h.polled j | exact h.ok j

theorem Inv.to_stop {s : State ι} {i : ι} {st : StopStage} (h : Inv s)
    (hafter : ∀ pid, st.pid = some pid → ∀ p, (s.stage p).active = true → p.pid = pid)
    (hcleans : st.cleans = true → ∀ p, (s.stage p).active = false)
    (hpolled : ∀ p pid n, s.target i = some p → st = .polling pid n → p.pid = pid)
    (hok : ∀ p, s.target i = some p → st.ok = true → (s.stage p).live = false) :
    Inv (s.to_stop i st) :=
  h.of_stop (fun _ _ => rfl) hafter hcleans (h.born i) hpolled hok

/-- A stop is after the running daemon, if there is one. -/
theorem Inv.to_after {s : State ι} {i : ι} {st : StopStage} {pid : UInt32} (h : Inv s)
    (hst : st.pid = some pid) (hafter : ∀ p, (s.stage p).active = true → p.pid = pid)
    (hpolled : ∀ p n, s.target i = some p → st = .polling pid n → p.pid = pid) :
    Inv (s.to_stop i st) := by
  apply h.to_stop
  · intro pid' hpid'
    rw [hst] at hpid'
    exact Option.some.inj hpid' ▸ hafter
  · intro hcleans
    cases st <;> cases hst <;> cases hcleans
  · rintro p pid' n hp rfl
    cases hst
    exact hpolled p n hp rfl
  · intro p hp hok
    cases st <;> cases hst <;> cases hok

/-- A stop begins to clean, or goes on, when no daemon runs. -/
theorem Inv.to_cleaning {s : State ι} {i : ι} {todo : List LifecycleFile}
    {result : Except Str Unit} (h : Inv s) (hidle : ∀ p, (s.stage p).active = false)
    (hok : result.toBool = true → ∀ p, s.target i = some p → (s.stage p).live = false) :
    Inv (s.to_stop i (.cleaning todo result)) := by
  apply h.to_stop
  · intro pid hpid
    cases hpid
  · exact fun _ => hidle
  · intro p pid n hp hstop
    cases hstop
  · exact fun p hp hok' => hok hok' p hp

theorem Inv.to_returned {s : State ι} {i : ι} {result : Except Str Unit} (h : Inv s)
    (hok : result.toBool = true → ∀ p, s.target i = some p → (s.stage p).live = false) :
    Inv (s.to_stop i (.returned result)) := by
  apply h.to_stop
  · intro pid hpid
    cases hpid
  · intro hcleans
    cases hcleans
  · intro p pid n hp hstop
    cases hstop
  · exact fun p hp hok' => hok hok' p hp

/-- A stop has signalled a process. -/
theorem Inv.terminate {s : State ι} {i : ι} {pid : UInt32} {n : Nat} (h : Inv s)
    (hstop : s.stop i = .alive pid) :
    Inv { s.to_stop i (.polling pid n) with
      target := setLocal s.target i (s.table.get pid) } := by
  have hget : ∀ p, setLocal s.target i (s.table.get pid) i = some p →
      p ∈ s.table.processes ∧ p.pid = pid := by
    intro p hp
    rw [setLocal_self] at hp
    exact ⟨List.mem_of_find?_eq_some hp, by simpa using List.find?_some hp⟩
  apply h.of_stop (fun j hj => setLocal_other _ _ hj)
  · intro pid' hpid'
    exact h.after i pid' (by rw [hstop]; exact hpid')
  · intro hcleans
    cases hcleans
  · intro p hp hunborn
    have hlive := (h.live p).mp (hget p hp).1
    rw [hunborn] at hlive
    cases hlive
  · intro p pid' n' hp hpolling
    cases hpolling
    exact (hget p hp).2
  · intro p hp hok
    cases hok

theorem Inv.stop_step {setup : Setup ι} {s s' : State ι} {i : ι} {a : StopStep} (h : Inv s)
    (hstep : stop_step setup s i a = some s') (hg : Orderly setup s (.stop i a) s') : Inv s' := by
  -- a stop that ends without removing anything
  have hfails : ∀ e, Inv (s.to_stop i (.returned (.error e))) := by
    intro e
    apply h.to_returned
    intro hok
    cases hok
  obtain ⟨st, hstop, hmove⟩ := stop_step_cases hstep
  have hpid : ∀ pid, st.pid = some pid → (s.stop i).pid = some pid := by
    intro pid hpid
    rw [hstop]
    exact hpid
  cases hmove with
  | missing => exact hfails _
  | invalid => exact hfails _
  | found w pid hw hparse =>
    apply h.to_after rfl
    · intro p hp
      rw [h.text w hw, h.present p w hp hw, shown_pid, trim_to_string,
        parse_u32_to_string] at hparse
      exact Option.some.inj hparse
    · intro p n hp hpolling
      cases hpolling
  | unreadable e => exact hfails _
  | alive pid =>
    apply h.to_after rfl (h.after i pid (hpid pid rfl))
    intro p n hp hpolling
    cases hpolling
  | stale pid hdead =>
    apply h.to_cleaning (h.idle_of_gone (hpid pid rfl) (gone_of_not_alive hg (hpid pid rfl) hdead))
    intro hok
    cases hok
  | failed => exact hfails _
  | signalled pid => exact h.terminate hstop
  | polled pid n =>
    apply h.to_after rfl (h.after i pid (hpid pid rfl))
    intro p n' hp hpolling
    exact h.polled i p pid (n + 1) hp hstop
  | gone pid n hdead =>
    have hgone := gone_of_not_alive hg (hpid pid rfl) hdead
    apply h.to_cleaning (h.idle_of_gone (hpid pid rfl) hgone)
    exact fun _ => h.target_of_gone hstop hgone
  | gave_up pid =>
    apply h.to_cleaning (h.idle_of_gone (hpid pid rfl) hg)
    exact fun _ => h.target_of_gone hstop hg
  | finished result =>
    apply h.to_returned
    intro hok p hp
    exact h.ok i p hp (by rw [hstop]; exact hok)

/-! ### The invariant over a step -/

/-- A cleanup goes on with the next file. -/
theorem Inv.cleaned {s : State ι} {x : Agent ι} {f : LifecycleFile} {rest : List LifecycleFile}
    (h : Inv s) (hx : s.todo x = f :: rest) : Inv (s.cleaned rest x) := by
  cases x with
  | daemon p =>
    have hp : ∃ todo, s.stage p = .stopping todo := by
      simp only [State.todo] at hx
      split at hx
      · next todo hp => exact ⟨todo, hp⟩
      · cases hx
    obtain ⟨todo, hp⟩ := hp
    exact h.to_stage (by rw [hp]; rfl) rfl (by rw [hp]; rfl)
  | stop i =>
    simp only [State.cleaned]
    split
    · next todo result hi =>
      exact h.to_cleaning (h.cleaning i (by rw [hi]; rfl))
        (fun hok p hp => h.ok i p hp (by rw [hi]; exact hok))
    · exact h

theorem Inv.step {setup : Setup ι} {s s' : State ι} {a : Action ι} (h : Inv s)
    (hstep : step setup s a = some s') (hg : Orderly setup s a s') : Inv s' := by
  cases a with
  | spawn p =>
    simp only [Lifecycle.step] at hstep
    split at hstep
    · next hunborn =>
      obtain ⟨t, ht, rfl⟩ := Option.map_eq_some_iff.mp hstep
      exact h.spawn hunborn ht
    · cases hstep
  | exit p =>
    simp only [Lifecycle.step] at hstep
    split at hstep
    · cases hstep
      exact h.exit
    · cases hstep
  | daemon p b => exact h.daemon_step hstep hg
  | stop i b => exact h.stop_step hstep hg
  | clean x removed =>
    simp only [Lifecycle.step] at hstep
    split at hstep
    · next f rest hx =>
      cases hstep
      cases removed with
      | false => exact h.cleaned hx
      | true =>
        have hx' : (s.put f none).todo x = f :: rest := by
          cases x <;> exact hx
        exact (h.put_none f).cleaned hx'
    · cases hstep

/-! ### Cleanups spare running daemons -/

/-- **Lifecycle files belong to the running daemon**: in a run of any number of
    daemons and stops whose steps are all orderly, a file that a cleanup is
    about to remove was not written by a process that is still running, unless
    that is the process that cleans up; and a stop returns `Ok` only when the
    process that it signalled is gone. -/
theorem cleanup_spares_running (setup : Setup ι) {acts : List (Action ι)} {s : State ι}
    (hrun : (system setup).Steps (Orderly setup) start acts s) :
    (∀ x f rest w, s.todo x = f :: rest → s.file f = some w →
      w.writer ∈ s.table.processes → x = .daemon w.writer) ∧
    (∀ i p, s.stop i = .returned (.ok ()) → s.target i = some p → p ∉ s.table.processes) := by
  have hinv : Inv s := hrun.invariant inv_start (fun _ _ _ h hstep hg => h.step hstep hg)
  refine ⟨?_, ?_⟩
  · intro x f rest w hx hw hmem
    have hwriter := hinv.writer f w hw ((hinv.live _).mp hmem)
    cases x with
    | daemon p =>
      simp only [State.todo] at hx
      split at hx
      · next todo hp => rw [hinv.one p w.writer (by rw [hp]; rfl) hwriter]
      · cases hx
    | stop i =>
      simp only [State.todo] at hx
      split at hx
      · next todo result hi =>
        rw [hinv.cleaning i (by rw [hi]; rfl)] at hwriter
        cases hwriter
      · cases hx
  · intro i p hi hp hmem
    have hlive := (hinv.live p).mp hmem
    rw [hinv.ok i p hp (by rw [hi]; rfl)] at hlive
    cases hlive

/-! ### Runs of two daemons and a stop -/

instance {n : Nat} (s : State (Fin n)) (i : Fin n) (p : Process) :
    Decidable (∀ pid ∈ (s.stop i).pid, pid = p.pid) :=
  Option.decidableForallMem _

instance {n : Nat} (s : State (Fin n)) (p : Process) : Decidable (s.alone p) :=
  inferInstanceAs (Decidable (_ ∧ _))

instance {n : Nat} (setup : Setup (Fin n)) (s : State (Fin n)) (i : Fin n) :
    Decidable (s.may_ask setup i) :=
  Option.decidableForallMem _

instance {n : Nat} (s : State (Fin n)) (i : Fin n) : Decidable (s.gone i) :=
  Option.decidableForallMem _

instance {n : Nat} (setup : Setup (Fin n)) (s s' : State (Fin n)) :
    (a : Action (Fin n)) → Decidable (Orderly setup s a s')
  | .daemon p .daemonize | .daemon p .write_pid | .daemon p .write_port
  | .daemon p .write_tls => inferInstanceAs (Decidable (s.alone p))
  | .stop i .check | .stop i .poll => inferInstanceAs (Decidable (s.may_ask setup i))
  | .stop i .give_up => inferInstanceAs (Decidable (s.gone i))
  | .daemon _ .bind | .daemon _ .shutdown | .stop _ .read | .stop _ (.refuse _)
  | .stop _ .terminate | .stop _ .finish | .spawn _ | .exit _ | .clean _ _ => isTrue trivial

/-- One user, and one listen address for all daemons. -/
def one_address (user : Nat) : Setup (Fin 1) where
  state_dir := "/home/dev/.nsl".toList
  caller _ := ⟨user, 1⟩
  port _ := 3355
  https _ := false
  clash _ _ := true

/-- A daemon of user 1000. -/
def daemon (pid : UInt32) (valid : 0 < pid.toNat ∧ pid.toNat < 2147483648) : Process :=
  ⟨pid, 100, 1000, pid, none, none, valid, by simp⟩

def old : Process := daemon 41 (by decide)

def new : Process := daemon 42 (by decide)

/-- A daemon starts in the foreground. -/
def starts (p : Process) : List (Action (Fin 1)) :=
  [.spawn p, .daemon p .bind, .daemon p .write_pid, .daemon p .write_port, .daemon p .write_tls]

/-- A daemon shuts down. -/
def stops (p : Process) : List (Action (Fin 1)) :=
  .daemon p .shutdown :: List.replicate 6 (.clean (.daemon p) true) ++ [.exit p]

/-- A stop signals the process whose pid it reads. -/
def signals : List (Action (Fin 1)) := [.stop 0 .read, .stop 0 .check, .stop 0 .terminate]

def cleans : List (Action (Fin 1)) := List.replicate 3 (.clean (.stop 0) true)

/-- The daemon shuts down when it is told to. -/
theorem stop_after_exit :
    ∃ s : State (Fin 1), s.stop 0 = .returned (.ok ()) ∧ s.target 0 = some old ∧
      old ∉ s.table.processes := by
  obtain ⟨s, hrun, hstop, htarget⟩ := System.exists_steps_of_replay (system (one_address 1000))
    (Orderly (one_address 1000)) start
    (starts old ++ signals ++ [.stop 0 .poll] ++ stops old ++ [.stop 0 .poll] ++ cleans ++
      [.stop 0 .finish])
    (fun s => s.stop 0 = .returned (.ok ()) ∧ s.target 0 = some old) (by decide +kernel)
  exact ⟨s, hstop, htarget, (cleanup_spares_running (one_address 1000) hrun).2 0 old hstop htarget⟩

/-- A stop is about to remove the files of a running daemon. -/
def State.robs (s : State (Fin 1)) (p : Process) : Prop :=
  s.todo (.stop 0) = cleanup_lifecycle_files ∧ s.file .pid = some ⟨shown_pid p.pid, p⟩ ∧
    s.file .port = some ⟨"3355".toList, p⟩ ∧ s.stage p = .serving ∧ p ∈ s.table.processes

instance (s : State (Fin 1)) (p : Process) : Decidable (s.robs p) :=
  inferInstanceAs (Decidable (_ ∧ _))

/-- The old daemon is gone and a new one has started before the stop looks
    again; a daemon takes too long to exit, and the stop returns `Ok`; and a
    stop may not signal the daemon, and takes it for gone. -/
theorem files_of_running_removed :
    (∃ s, (system (one_address 1000)).Steps System.anyStep start
      (starts old ++ signals ++ stops old ++ starts new ++ [.stop 0 .poll]) s ∧ s.robs new) ∧
    (∃ s, (system (one_address 1000)).Steps System.anyStep start
      (starts old ++ signals ++ List.replicate STOP_CHECKS (.stop 0 .poll) ++ [.stop 0 .give_up] ++
        cleans ++ [.stop 0 .finish]) s ∧
      s.stop 0 = .returned (.ok ()) ∧ s.target 0 = some old ∧ s.file .pid = none ∧
      s.stage old = .serving ∧ old ∈ s.table.processes) ∧
    (∃ s, (system (one_address 1001)).Steps System.anyStep start
      (starts old ++ [.stop 0 .read, .stop 0 .check]) s ∧ s.robs old) := by
  refine ⟨?_, ?_, ?_⟩
  · exact System.exists_steps_of_replay _ _ _ _ _ (by decide +kernel)
  · exact System.exists_steps_of_replay _ _ _ _ _ (by decide +kernel)
  · exact System.exists_steps_of_replay _ _ _ _ _ (by decide +kernel)

end Lifecycle

end Nsl
