import Nsl.Proxy.Lifecycle

/-! # Whom a stop terminates

  `nsl stop` has nothing but the pid in `proxy.pid`. The file stays when the
  daemon that wrote it crashes or the machine is restarted, and the pid may be
  that of any process by then.

  The runs are those of `Nsl.Proxy.Lifecycle`, without its condition. What a
  stop has read, whether the writer was gone when the stop looked for it, and
  which files the stop has removed, are ghosts.

  - `Tracked`: the states of one stop.
  - `signals_only_proxy_iff`: the runs in which stops signal nobody but the
    process that wrote the file, and clean up after it when it is gone.
-/

open Rust Framework

namespace Nsl.Stop

open Framework.DirLock (setLocal setLocal_self setLocal_other)
open Lifecycle (Written LifecycleFile StopStage StopStep DaemonStep Action Setup Agent
  cleanup_lifecycle_files)

variable {ι : Type u}

/-- What is known of a stop. -/
structure Watch where
  /-- the `proxy.pid` that the stop has read -/
  read : Option Written
  /-- its writer was gone when the stop looked for it -/
  gone : Bool
  /-- the files that the stop has removed, or tried to -/
  removed : List LifecycleFile

structure State (ι : Type u) where
  sys : Lifecycle.State ι
  watch : ι → Watch

def start : State ι where
  sys := Lifecycle.start
  watch _ := ⟨none, false, []⟩

section
variable [DecidableEq ι]

def State.watching (s : State ι) : Action ι → ι → Watch
  | .stop i .read => setLocal s.watch i { s.watch i with read := s.sys.file .pid }
  | .stop i .check =>
    setLocal s.watch i { s.watch i with
      gone := match (s.watch i).read with
        | some w => decide (w.writer ∉ s.sys.table.processes)
        | none => false }
  | .clean (.stop i) _ =>
    setLocal s.watch i { s.watch i with
      removed := (s.watch i).removed ++ (s.sys.todo (.stop i)).take 1 }
  | _ => s.watch

def step (setup : Setup ι) (s : State ι) (a : Action ι) : Option (State ι) :=
  (Lifecycle.step setup s.sys a).map fun sys => { sys := sys, watch := s.watching a }

def system (setup : Setup ι) : System (State ι) (Action ι) where
  init s := s = start
  step := step setup

end

/-! ### The law -/

/-- What a stop returns for a process that is gone. -/
def stale_error (pid : UInt32) : Except Str Unit :=
  .error ("proxy process ".toList ++ shown_pid pid ++
    " is not running (stale PID file cleaned up)".toList)

/-- The stop removes the files, those of the list so far, and returns the
    error. -/
def CleansUp (pid : UInt32) (removed : List LifecycleFile) : StopStage → Prop
  | .cleaning todo result =>
    result = stale_error pid ∧ removed ++ todo = cleanup_lifecycle_files
  | .returned result => result = stale_error pid ∧ removed = cleanup_lifecycle_files
  | _ => False

/-- Stops signal only the process that wrote the file, and when it is gone,
    they signal nobody, remove the files and return an error. -/
structure OnlyProxy (s : State ι) : Prop where
  signalled : ∀ i q, s.sys.target i = some q → ∃ w, (s.watch i).read = some w ∧ q = w.writer
  stale : ∀ i, (s.watch i).gone = true → s.sys.target i = none ∧
    ∃ w, (s.watch i).read = some w ∧ CleansUp w.writer.pid (s.watch i).removed (s.sys.stop i)

/-- The condition on one step: when a stop looks for its process or signals it,
    no other process that it may signal has the pid. -/
def Identified (setup : Setup ι) (s : State ι) (a : Action ι) (_ : State ι) : Prop :=
  match a with
  | .stop i .check | .stop i .terminate =>
    ∀ w, (s.watch i).read = some w → ∀ q ∈ s.sys.table.processes,
      q.pid = w.writer.pid → (setup.caller i).may_signal q = true → q = w.writer
  | _ => True

/-! ### One stop -/

/-- The states of a stop: how far it has come, whom it has signalled, and what
    is known of it. -/
inductive Tracked : StopStage → Option Process → Watch → Prop
  | idle : Tracked .idle none ⟨none, false, []⟩
  | found (w : Written) : Tracked (.found w.writer.pid) none ⟨some w, false, []⟩
  | alive (w : Written) : Tracked (.alive w.writer.pid) none ⟨some w, false, []⟩
  | polling (w : Written) (left : Nat) (removed : List LifecycleFile) :
    Tracked (.polling w.writer.pid left) (some w.writer) ⟨some w, false, removed⟩
  /-- the process was there -/
  | cleaning (w : Written) (todo removed : List LifecycleFile) (result : Except Str Unit)
    (target : Option Process) (htarget : ∀ q, target = some q → q = w.writer) :
    Tracked (.cleaning todo result) target ⟨some w, false, removed⟩
  /-- the process was gone -/
  | stale (w : Written) (todo removed : List LifecycleFile)
    (hremoved : removed ++ todo = cleanup_lifecycle_files) :
    Tracked (.cleaning todo (stale_error w.writer.pid)) none ⟨some w, true, removed⟩
  | returned (read : Option Written) (removed : List LifecycleFile) (result : Except Str Unit)
    (target : Option Process) (htarget : ∀ q, target = some q → ∃ w, read = some w ∧ q = w.writer) :
    Tracked (.returned result) target ⟨read, false, removed⟩
  | stale_returned (w : Written) :
    Tracked (.returned (stale_error w.writer.pid)) none ⟨some w, true, cleanup_lifecycle_files⟩

theorem Tracked.of_idle {target : Option Process} {watch : Watch}
    (h : Tracked .idle target watch) : target = none ∧ watch = ⟨none, false, []⟩ := by
  cases h
  exact ⟨rfl, rfl⟩

theorem Tracked.of_found {pid : UInt32} {target : Option Process} {watch : Watch}
    (h : Tracked (.found pid) target watch) :
    ∃ w, pid = w.writer.pid ∧ target = none ∧ watch = ⟨some w, false, []⟩ := by
  cases h with
  | found w => exact ⟨w, rfl, rfl, rfl⟩

theorem Tracked.of_alive {pid : UInt32} {target : Option Process} {watch : Watch}
    (h : Tracked (.alive pid) target watch) :
    ∃ w, pid = w.writer.pid ∧ target = none ∧ watch = ⟨some w, false, []⟩ := by
  cases h with
  | alive w => exact ⟨w, rfl, rfl, rfl⟩

theorem Tracked.of_polling {pid : UInt32} {left : Nat} {target : Option Process} {watch : Watch}
    (h : Tracked (.polling pid left) target watch) :
    ∃ w removed, pid = w.writer.pid ∧ target = some w.writer ∧
      watch = ⟨some w, false, removed⟩ := by
  cases h with
  | polling w left removed => exact ⟨w, removed, rfl, rfl, rfl⟩

theorem Tracked.of_cleaning {todo : List LifecycleFile} {result : Except Str Unit}
    {target : Option Process} {watch : Watch} (h : Tracked (.cleaning todo result) target watch) :
    ∃ w removed, (watch = ⟨some w, false, removed⟩ ∧ ∀ q, target = some q → q = w.writer) ∨
      (watch = ⟨some w, true, removed⟩ ∧ target = none ∧ result = stale_error w.writer.pid ∧
        removed ++ todo = cleanup_lifecycle_files) := by
  cases h with
  | cleaning w todo removed result target htarget => exact ⟨w, removed, .inl ⟨rfl, htarget⟩⟩
  | stale w todo removed hremoved => exact ⟨w, removed, .inr ⟨rfl, rfl, rfl, hremoved⟩⟩

theorem Tracked.signalled {st : StopStage} {target : Option Process} {watch : Watch}
    {q : Process} (h : Tracked st target watch) (hq : target = some q) :
    ∃ w, watch.read = some w ∧ q = w.writer := by
  cases h with
  | polling w => exact ⟨w, rfl, (Option.some.inj hq).symm⟩
  | cleaning w todo removed result target htarget => exact ⟨w, rfl, htarget q hq⟩
  | returned read removed result target htarget => exact htarget q hq
  | _ => cases hq

theorem Tracked.cleans_up {st : StopStage} {target : Option Process} {watch : Watch}
    (h : Tracked st target watch) (hgone : watch.gone = true) :
    target = none ∧ ∃ w, watch.read = some w ∧ CleansUp w.writer.pid watch.removed st := by
  cases h with
  | stale w todo removed hremoved => exact ⟨rfl, w, rfl, rfl, hremoved⟩
  | stale_returned w => exact ⟨rfl, w, rfl, rfl, rfl⟩
  | _ => cases hgone

structure Inv (s : State ι) : Prop where
  text : ∀ w, s.sys.file .pid = some w → w.text = shown_pid w.writer.pid
  tracked : ∀ i, Tracked (s.sys.stop i) (s.sys.target i) (s.watch i)

theorem inv_start : Inv (start : State ι) where
  text w h := by cases h
  tracked i := .idle

theorem Inv.onlyProxy {s : State ι} (h : Inv s) : OnlyProxy s where
  signalled i _ hq := (h.tracked i).signalled hq
  stale i hgone := (h.tracked i).cleans_up hgone

/-! ### The steps -/

/-- A daemon touches no stop, and writes its own pid. -/
theorem daemon_step_frame {setup : Setup ι} {s s' : Lifecycle.State ι} {p : Process}
    {a : DaemonStep} (h : Lifecycle.daemon_step setup s p a = some s') :
    s'.stop = s.stop ∧ s'.target = s.target ∧
      ∀ w, s'.file .pid = some w → s.file .pid = some w ∨ w = ⟨shown_pid p.pid, p⟩ := by
  have hput : ∀ f text st w, f ≠ .pid → (s.write p f text st).file .pid = some w →
      s.file .pid = some w := by
    intro f text st w hf hw
    simpa [Lifecycle.State.write, Lifecycle.State.to_stage, Lifecycle.State.put, hf.symm] using hw
  have hpid : ∀ text st w, (s.write p .pid text st).file .pid = some w → w = ⟨text, p⟩ := by
    intro text st w hw
    simpa [Lifecycle.State.write, Lifecycle.State.to_stage, Lifecycle.State.put, eq_comm] using hw
  obtain ⟨st, _, hmove⟩ := Lifecycle.daemon_step_cases h
  cases hmove with
  | daemonized => exact ⟨rfl, rfl, fun w hw => .inr (hpid _ _ w hw)⟩
  | bound => exact ⟨rfl, rfl, fun w hw => .inl hw⟩
  | wrote_pid => exact ⟨rfl, rfl, fun w hw => .inr (hpid _ _ w hw)⟩
  | wrote_port => exact ⟨rfl, rfl, fun w hw => .inl (hput .port _ _ w (by decide) hw)⟩
  | wrote_tls => exact ⟨rfl, rfl, fun w hw => .inl (hput .tls _ _ w (by decide) hw)⟩
  | removed_tls =>
    refine ⟨rfl, rfl, ?_⟩
    intro w hw
    exact .inl (by simpa [Lifecycle.State.put, Lifecycle.State.to_stage] using hw)
  | signalled => exact ⟨rfl, rfl, fun w hw => .inl hw⟩

/-- A removal takes nothing away but the file. -/
theorem removal_frame (s : Lifecycle.State ι) (f : LifecycleFile) (removed : Bool) :
    (if removed then s.put f none else s).stop = s.stop ∧
    (if removed then s.put f none else s).target = s.target ∧
    ∀ w, (if removed then s.put f none else s).file .pid = some w → s.file .pid = some w := by
  cases removed with
  | false => exact ⟨rfl, rfl, fun w hw => hw⟩
  | true =>
    refine ⟨rfl, rfl, ?_⟩
    intro w hw
    by_cases hf : f = .pid
    · simp [hf, Lifecycle.State.put] at hw
    · have hf' : LifecycleFile.pid ≠ f := fun heq => hf heq.symm
      simpa [Lifecycle.State.put, hf'] using hw

/-- A step that touches no stop, and writes at most the own pid of a process. -/
theorem Inv.of_frame {s : State ι} {sys : Lifecycle.State ι} (h : Inv s)
    (hstop : sys.stop = s.sys.stop) (htarget : sys.target = s.sys.target)
    (hfile : ∀ w, sys.file .pid = some w →
      s.sys.file .pid = some w ∨ ∃ p : Process, w = ⟨shown_pid p.pid, p⟩) :
    Inv { sys := sys, watch := s.watch } where
  text w hw := by
    rcases hfile w hw with hw | ⟨p, rfl⟩
    · exact h.text w hw
    · rfl
  tracked i := by
    show Tracked (sys.stop i) (sys.target i) (s.watch i)
    rw [hstop, htarget]
    exact h.tracked i

/-- A step of one stop. -/
theorem Inv.of_stop {s s' : State ι} {i : ι} (h : Inv s)
    (hfile : ∀ w, s'.sys.file .pid = some w → s.sys.file .pid = some w)
    (hother : ∀ j, j ≠ i → s'.sys.stop j = s.sys.stop j ∧ s'.sys.target j = s.sys.target j ∧
      s'.watch j = s.watch j)
    (hi : Tracked (s'.sys.stop i) (s'.sys.target i) (s'.watch i)) : Inv s' where
  text w hw := h.text w (hfile w hw)
  tracked j := by
    by_cases hj : j = i
    · rw [hj]
      exact hi
    · obtain ⟨hstop, htarget, hwatch⟩ := hother j hj
      rw [hstop, htarget, hwatch]
      exact h.tracked j

section
variable [DecidableEq ι] {setup : Setup ι}

/-- A step of one stop that does not signal. -/
theorem Inv.to_stop {s : State ι} {i : ι} {st : StopStage} {watch : Watch} (h : Inv s)
    (hi : Tracked st (s.sys.target i) watch) :
    Inv { sys := s.sys.to_stop i st, watch := setLocal s.watch i watch } := by
  refine h.of_stop (i := i) ?_ ?_ ?_
  · exact fun w hw => hw
  · intro j hj
    exact ⟨setLocal_other _ _ hj, rfl, setLocal_other _ _ hj⟩
  · simpa [Lifecycle.State.to_stop] using hi

/-- The same, of a step that leaves what is known. -/
theorem Inv.to_stage {s : State ι} {i : ι} {st : StopStage} (h : Inv s)
    (hi : Tracked st (s.sys.target i) (s.watch i)) :
    Inv { sys := s.sys.to_stop i st, watch := s.watch } := by
  have hsame : setLocal s.watch i (s.watch i) = s.watch := by
    funext j
    by_cases hj : j = i
    · rw [hj, setLocal_self]
    · rw [setLocal_other _ _ hj]
  have hinv := h.to_stop hi
  rwa [hsame] at hinv

/-- A signal is sent when the process counts as alive. -/
theorem terminate_process_ok_iff {t : ProcessTable} {caller : Caller} {p : Process} :
    terminate_process t caller p.pid = .ok () ↔ is_process_alive t caller p.pid = true := by
  rw [is_process_alive, if_neg p.pid_ne_zero, terminate_process]
  cases kill t caller (as_i32 p.pid) with
  | ok u => exact iff_of_true rfl rfl
  | error e => exact iff_of_false (fun h => by cases h) (fun h => by cases h)

theorem Inv.stop_step {s : State ι} {sys : Lifecycle.State ι} {i : ι} {a : StopStep} (h : Inv s)
    (hstep : Lifecycle.stop_step setup s.sys i a = some sys)
    (hidentified : Identified setup s (.stop i a) s) :
    Inv { sys := sys, watch := s.watching (.stop i a) } := by
  obtain ⟨st, hstop, hmove⟩ := Lifecycle.stop_step_cases hstep
  have htracked := h.tracked i
  rw [hstop] at htracked
  cases hmove with
  | missing hfile =>
    obtain ⟨htarget, hwatch⟩ := htracked.of_idle
    simp only [State.watching, hwatch]
    apply h.to_stop
    rw [htarget]
    exact .returned _ _ _ _ (by simp)
  | invalid w hfile =>
    obtain ⟨htarget, hwatch⟩ := htracked.of_idle
    simp only [State.watching, hwatch]
    apply h.to_stop
    rw [htarget]
    exact .returned _ _ _ _ (by simp)
  | found w pid hfile hpid =>
    -- the pid in the file is that of its writer
    rw [h.text w hfile, shown_pid, trim_to_string, parse_u32_to_string] at hpid
    obtain rfl := Option.some.inj hpid
    obtain ⟨htarget, hwatch⟩ := htracked.of_idle
    simp only [State.watching, hwatch]
    apply h.to_stop
    rw [htarget, hfile]
    exact .found w
  | unreadable e =>
    obtain ⟨htarget, hwatch⟩ := htracked.of_idle
    apply h.to_stage
    rw [htarget, hwatch]
    exact .returned _ _ _ _ (by simp)
  | alive pid halive =>
    obtain ⟨w, rfl, htarget, hwatch⟩ := htracked.of_found
    -- whoever is alive is the writer
    obtain ⟨q, hq, hpid, hmay⟩ := (is_process_alive_iff w.writer.valid).mp halive
    obtain rfl := hidentified w (by rw [hwatch]) q hq hpid hmay
    simp only [State.watching, hwatch]
    apply h.to_stop
    rw [htarget, decide_eq_false (not_not.mpr hq)]
    exact .alive w
  | stale pid hdead =>
    obtain ⟨w, rfl, htarget, hwatch⟩ := htracked.of_found
    simp only [State.watching, hwatch]
    apply h.to_stop
    rw [htarget]
    by_cases hmem : w.writer ∈ s.sys.table.processes
    · rw [decide_eq_false (not_not.mpr hmem)]
      exact .cleaning _ _ _ _ _ (by simp)
    · rw [decide_eq_true hmem]
      exact .stale w _ _ rfl
  | failed pid e herror =>
    obtain ⟨w, rfl, htarget, hwatch⟩ := htracked.of_alive
    apply h.to_stage
    rw [htarget, hwatch]
    exact .returned _ _ _ _ (by simp)
  | signalled pid hok =>
    obtain ⟨w, rfl, htarget, hwatch⟩ := htracked.of_alive
    -- the signal goes to the only process with the pid
    have halive := terminate_process_ok_iff.mp hok
    obtain ⟨q, hq, hpid, hmay⟩ := (is_process_alive_iff w.writer.valid).mp halive
    obtain rfl := hidentified w (by rw [hwatch]) q hq hpid hmay
    refine h.of_stop (i := i) ?_ ?_ ?_
    · exact fun w hw => hw
    · intro j hj
      exact ⟨setLocal_other _ _ hj, setLocal_other _ _ hj, rfl⟩
    · have hget := ProcessTable.get_of_mem hq
      simp only [State.watching, setLocal_self, Lifecycle.State.to_stop, hwatch, hget]
      exact .polling w _ _
  | polled pid n =>
    obtain ⟨w, removed, rfl, htarget, hwatch⟩ := htracked.of_polling
    apply h.to_stage
    rw [htarget, hwatch]
    exact .polling w _ _
  | gone pid n =>
    obtain ⟨w, removed, rfl, htarget, hwatch⟩ := htracked.of_polling
    apply h.to_stage
    rw [htarget, hwatch]
    exact .cleaning _ _ _ _ _ (by simp)
  | gave_up pid =>
    obtain ⟨w, removed, rfl, htarget, hwatch⟩ := htracked.of_polling
    apply h.to_stage
    rw [htarget, hwatch]
    exact .cleaning _ _ _ _ _ (by simp)
  | finished result =>
    apply h.to_stage
    obtain ⟨w, removed, ⟨hwatch, htarget⟩ | ⟨hwatch, htarget, rfl, hremoved⟩⟩ :=
      htracked.of_cleaning
    · rw [hwatch]
      exact .returned _ _ _ _ fun q hq => ⟨w, rfl, htarget q hq⟩
    · rw [List.append_nil] at hremoved
      rw [hwatch, htarget, hremoved]
      exact .stale_returned w

theorem Inv.clean {s : State ι} {x : Agent ι} {f : LifecycleFile} {rest : List LifecycleFile}
    (removed : Bool) (h : Inv s) (htodo : s.sys.todo x = f :: rest) :
    Inv { sys := (if removed then s.sys.put f none else s.sys).cleaned rest x,
          watch := s.watching (.clean x removed) } := by
  obtain ⟨hstop, htarget, hfile⟩ := removal_frame s.sys f removed
  cases x with
  | daemon p => exact h.of_frame hstop htarget fun w hw => .inl (hfile w hw)
  | stop i =>
    cases hi : s.sys.stop i with
    | cleaning todo result =>
      have htracked := h.tracked i
      have htodo' := htodo
      simp only [Lifecycle.State.todo, hi] at htodo'
      rw [hi, htodo'] at htracked
      have hcleaned : (if removed then s.sys.put f none else s.sys).cleaned rest (.stop i) =
          (if removed then s.sys.put f none else s.sys).to_stop i (.cleaning rest result) := by
        simp only [Lifecycle.State.cleaned, hstop, hi]
      have hwatch : s.watching (.clean (.stop i) removed) = setLocal s.watch i
          { s.watch i with removed := (s.watch i).removed ++ [f] } := by
        simp only [State.watching, htodo]
        rfl
      rw [hcleaned, hwatch]
      refine h.of_stop (i := i) hfile ?_ ?_
      · intro j hj
        refine ⟨?_, congrFun htarget j, setLocal_other _ _ hj⟩
        exact (setLocal_other _ _ hj).trans (congrFun hstop j)
      · simp only [Lifecycle.State.to_stop, setLocal_self, htarget]
        obtain ⟨w, files, ⟨hw, hq⟩ | ⟨hw, hnone, rfl, hremoved⟩⟩ := htracked.of_cleaning
        · rw [hw]
          exact .cleaning _ _ _ _ _ hq
        · rw [hw, hnone]
          exact .stale w _ _ (by rw [List.append_assoc]; exact hremoved)
    | _ => simp [Lifecycle.State.todo, hi] at htodo

theorem Inv.step {s s' : State ι} {a : Action ι} (h : Inv s)
    (hstep : Stop.step setup s a = some s') (hidentified : Identified setup s a s') : Inv s' := by
  obtain ⟨sys, hsys, rfl⟩ := Option.map_eq_some_iff.mp hstep
  cases a with
  | spawn p =>
    simp only [Lifecycle.step, Option.ite_none_right_eq_some, Option.map_eq_some_iff] at hsys
    obtain ⟨_, t, _, rfl⟩ := hsys
    exact h.of_frame rfl rfl fun w hw => .inl hw
  | exit p =>
    simp only [Lifecycle.step, Option.ite_none_right_eq_some, Option.some.injEq] at hsys
    obtain ⟨_, rfl⟩ := hsys
    exact h.of_frame rfl rfl fun w hw => .inl hw
  | daemon p a =>
    obtain ⟨hstop, htarget, hfile⟩ := daemon_step_frame hsys
    exact h.of_frame hstop htarget fun w hw => (hfile w hw).imp_right fun heq => ⟨p, heq⟩
  | stop i a => exact h.stop_step hsys hidentified
  | clean x removed =>
    simp only [Lifecycle.step] at hsys
    split at hsys
    · next f rest htodo =>
      cases hsys
      exact h.clean removed htodo
    · cases hsys

/-- A stop that takes another process for the writer of the file breaks the
    law. -/
theorem Inv.identified {s s' : State ι} {a : Action ι} (h : Inv s)
    (hstep : Stop.step setup s a = some s') (honly : OnlyProxy s') : Identified setup s a s' := by
  obtain ⟨sys, hsys, rfl⟩ := Option.map_eq_some_iff.mp hstep
  cases a with
  | stop i a =>
    have htracked := h.tracked i
    cases a with
    | check =>
      intro w hw q hq hpid hmay
      by_contra hother
      have hgone : w.writer ∉ s.sys.table.processes := by
        intro hmem
        exact hother (s.sys.table.unique hq hmem hpid)
      have halive : is_process_alive s.sys.table (setup.caller i) w.writer.pid = true :=
        (is_process_alive_iff w.writer.valid).mpr ⟨q, hq, hpid, hmay⟩
      have hmoved : Lifecycle.stop_step setup s.sys i .check = some sys := hsys
      obtain ⟨st, hstop, hmove⟩ := Lifecycle.stop_step_cases hmoved
      rw [hstop] at htracked
      cases hmove with
      | alive pid =>
        obtain ⟨w', rfl, _, hwatch⟩ := htracked.of_found
        rw [hwatch] at hw
        obtain rfl := Option.some.inj hw
        -- the stop goes on, though the writer is gone
        obtain ⟨_, _, _, hclean⟩ := honly.stale i (by simp [State.watching, hwatch, hgone])
        simp [Lifecycle.State.to_stop, CleansUp] at hclean
      | stale pid hdead =>
        obtain ⟨w', rfl, _, hwatch⟩ := htracked.of_found
        rw [hwatch] at hw
        obtain rfl := Option.some.inj hw
        exact hdead halive
    | terminate =>
      intro w hw q hq hpid hmay
      have hmoved : Lifecycle.stop_step setup s.sys i .terminate = some sys := hsys
      obtain ⟨st, hstop, hmove⟩ := Lifecycle.stop_step_cases hmoved
      rw [hstop] at htracked
      have halive : is_process_alive s.sys.table (setup.caller i) w.writer.pid = true :=
        (is_process_alive_iff w.writer.valid).mpr ⟨q, hq, hpid, hmay⟩
      cases hmove with
      | failed pid e herror =>
        obtain ⟨w', rfl, _, hwatch⟩ := htracked.of_alive
        rw [hwatch] at hw
        obtain rfl := Option.some.inj hw
        rw [terminate_process_ok_iff.mpr halive] at herror
        cases herror
      | signalled pid hok =>
        obtain ⟨w', rfl, _, hwatch⟩ := htracked.of_alive
        rw [hwatch] at hw
        obtain rfl := Option.some.inj hw
        have hget : s.sys.table.get w'.writer.pid = some q := by
          rw [← hpid]
          exact ProcessTable.get_of_mem hq
        obtain ⟨w'', hread, heq⟩ := honly.signalled i q (by simp [hget])
        simp only [State.watching, hwatch, Option.some.injEq] at hread
        rw [heq, hread]
    | _ => trivial
  | _ => trivial

/-- **Stops signal nobody but the proxy** exactly in the runs in which no other
    process that a stop may signal has the pid when the stop looks for its
    process or signals it. -/
theorem signals_only_proxy_iff (setup : Setup ι) (acts : List (Action ι)) (s : State ι) :
    (system setup).Steps (fun _ _ s' => OnlyProxy s') start acts s ↔
      (system setup).Steps (Identified setup) start acts s := by
  constructor
  · intro hrun
    apply hrun.mono_of_invariant inv_start
    intro s₁ a s₂ hinv hstep honly
    have hidentified := hinv.identified hstep honly
    exact ⟨hinv.step hstep hidentified, hidentified⟩
  · intro hrun
    apply hrun.mono_of_invariant inv_start
    intro s₁ a s₂ hinv hstep hidentified
    have hinv' := hinv.step hstep hidentified
    exact ⟨hinv', hinv'.onlyProxy⟩

end

/-- One user, who runs one stop. -/
def one_stop : Setup Unit where
  state_dir := "/home/dev/.nsl".toList
  caller _ := ⟨1000, 1⟩
  port _ := 3355
  https _ := false
  clash _ _ := true

/-- The daemon of the user. -/
def crashed : Process := ⟨611, 100, 1000, 611, none, none, by decide, by simp⟩

/-- The process that gets its pid. -/
def editor : Process := ⟨611, 200, 1000, 611, none, none, by decide, by simp⟩

/-- The daemon crashes, another process of the user gets its pid, and is
    terminated by the stop. -/
theorem editor_terminated :
    ∃ s, (system one_stop).Steps System.anyStep start
        [.spawn crashed, .daemon crashed .daemonize, .exit crashed, .spawn editor,
          .stop () .read, .stop () .check, .stop () .terminate] s ∧
      s.sys.target () = some editor ∧ (s.watch ()).read = some ⟨"611".toList, crashed⟩ ∧
      ¬ OnlyProxy s := by
  obtain ⟨s, hrun, htarget, hread⟩ := System.exists_steps_of_replay (system one_stop)
    System.anyStep start
    [.spawn crashed, .daemon crashed .daemonize, .exit crashed, .spawn editor,
      .stop () .read, .stop () .check, .stop () .terminate]
    (fun s => s.sys.target () = some editor ∧ (s.watch ()).read = some ⟨"611".toList, crashed⟩)
    (by decide +kernel)
  refine ⟨s, hrun, htarget, hread, ?_⟩
  intro honly
  obtain ⟨w, hw, heq⟩ := honly.signalled () editor htarget
  rw [hread] at hw
  cases hw
  revert heq
  decide

end Nsl.Stop
