import Nsl.Framework.System
import Nsl.Rust.Text
import Nsl.Rust.Utf8

/-! # Following the log

  `nsl logs` prints the log file. With `--follow` it then looks at the length of
  the file every 200 ms, and when the file has grown, reads what is new and
  decodes it by itself.

  The system is the log file with the programs that write it, and one
  `show_logs`. A poll takes the length of the file in one step and the bytes in
  another one, so that the file can grow in between, and every system call may
  fail.

  - `Tracked`: what has been read after some actions, and in which slices.
  - `next_poll`: whatever has been appended is seen by the next poll.
  - `follow_prints_iff`: the runs in which what is appended is printed as it is.
-/

open Rust Rust.Http Framework

namespace Nsl.Logs

/-! ### `show_logs` -/

/-- What `nsl logs` is called with, and where the log is. -/
structure Args where
  log_path : Str
  follow : Bool
  tail_lines : Option Nat

inductive LogsError where
  | no_log_file (message : Str)
  /-- a system call failed, or the log was not UTF-8 -/
  | io

inductive Stage where
  | called
  /-- between two polls; the log has been read up to `pos` -/
  | sleeping (pos : Nat)
  /-- a poll has found more than what has been read -/
  | measured (pos file_len : Nat)
  | returned (result : Except LogsError Unit)

structure State where
  /-- the log file, if there is one -/
  log : Option (List UInt8)
  stage : Stage
  stdout : Str

inductive Action where
  /-- a program that has the log open for appending writes to it -/
  | append (b : List UInt8)
  /-- a daemon that starts creates the log anew -/
  | create
  /-- the log is read and printed -/
  | start
  /-- a poll gets the length of the log -/
  | metadata
  /-- a poll does not get it -/
  | no_metadata
  /-- a poll opens the log, reads what is new and prints it -/
  | read
  /-- the system does not let the log be opened or read -/
  | refuse

def no_log_message (log_path : Str) : Str :=
  "no log file found at ".toList ++ log_path ++ ". Is the proxy running in daemon mode?".toList

/-- What is printed of the log as it is found. -/
def output (tail_lines : Option Nat) (content : Str) : Str :=
  match tail_lines with
  | some n =>
    let lines := lines content
    let start := lines.length - n
    join (lines.drop start) ['\n']
  | none => content

/-- The text with a newline at its end, or nothing. -/
def printed (output : Str) : Str :=
  if output = [] then []
  else if ends_with output ['\n'] then output
  else output ++ ['\n']

/-- `show_logs`, up to its loop. -/
def show_first (args : Args) (s : State) : State :=
  match s.log with
  | none =>
    { s with stage := .returned (.error (.no_log_file (no_log_message args.log_path))) }
  | some file =>
    match read_to_string file with
    | none => { s with stage := .returned (.error .io) }
    | some content =>
      { s with
        stdout := s.stdout ++ printed (output args.tail_lines content)
        stage := if args.follow then .sleeping (len content) else .returned (.ok ()) }

/-- A poll that has got the length of the log. -/
def poll (pos file_len : Nat) : Stage :=
  let pos := if file_len < pos then 0 else pos
  if file_len > pos then .measured pos file_len else .sleeping pos

/-- The rest of this poll. `read_exact` fails when the log has become too
    short. -/
def read_new (pos file_len : Nat) (file : List UInt8) (s : State) : State :=
  let buf := (file.drop pos).take (file_len - pos)
  if buf.length < file_len - pos then { s with stage := .returned (.error .io) }
  else { s with stdout := s.stdout ++ from_utf8_lossy buf, stage := .sleeping file_len }

def step (args : Args) (s : State) : Action → Option State
  | .append b => s.log.map fun file => { s with log := some (file ++ b) }
  | .create => some { s with log := some [] }
  | .start =>
    match s.stage with
    | .called => some (show_first args s)
    | _ => none
  | .metadata =>
    match s.stage, s.log with
    | .sleeping pos, some file => some { s with stage := poll pos file.length }
    | _, _ => none
  | .no_metadata =>
    match s.stage with
    | .sleeping _ => some s
    | _ => none
  | .read =>
    match s.stage, s.log with
    | .measured pos file_len, some file => some (read_new pos file_len file s)
    | _, _ => none
  | .refuse =>
    match s.stage, s.log with
    | .called, some _ | .measured _ _, _ => some { s with stage := .returned (.error .io) }
    | _, _ => none

def system (args : Args) : System State Action where
  init s := s.stage = .called ∧ s.stdout = []
  step := step args

/-! ### The law -/

/-- The log is only appended to. -/
def OnlyAppends (_ : State) (a : Action) (_ : State) : Prop :=
  match a with
  | .create => False
  | _ => True

def Action.appends : Action → List UInt8
  | .append b => b
  | _ => []

/-- What some actions append to the log. -/
def appended (acts : List Action) : List UInt8 := acts.flatMap Action.appends

/-- A poll has got the length of the log after the last append. -/
def LastMeasured (acts : List Action) : Prop :=
  ∃ before after, acts = before ++ .metadata :: after ∧ appended after = []

/-- A poll has seen all of the log, and is done. -/
def Polled (s : State) : Prop := ∃ file, s.log = some file ∧ s.stage = .sleeping file.length

/-- The condition on a schedule: whenever a poll gets the length of the log, what
    has been appended until then does not end inside of a character. -/
def WholeCharacters (acts : List Action) : Prop :=
  ∀ before after, acts = before ++ .metadata :: after →
    (read_to_string (appended before)).isSome = true

/-! ### The condition -/

theorem appended_concat (acts : List Action) (a : Action) :
    appended (acts ++ [a]) = appended acts ++ a.appends := by
  unfold appended
  rw [List.flatMap_append, List.flatMap_singleton]

/-- Where a length is taken in a schedule with one more action: at its end, or
    before. -/
theorem metadata_concat_iff {acts before after : List Action} {a : Action} :
    acts ++ [a] = before ++ .metadata :: after ↔
      (a = .metadata ∧ acts = before ∧ after = []) ∨
      ∃ after', after = after' ++ [a] ∧ acts = before ++ .metadata :: after' := by
  constructor
  · intro heq
    rcases List.eq_nil_or_concat after with rfl | ⟨after', b, rfl⟩
    · obtain ⟨hacts, ha⟩ := List.append_inj' heq rfl
      exact .inl ⟨List.singleton_inj.mp ha, hacts, rfl⟩
    · rw [List.concat_eq_append, ← List.cons_append, ← List.append_assoc] at heq
      obtain ⟨hacts, ha⟩ := List.append_inj' heq rfl
      rw [List.concat_eq_append, List.singleton_inj.mp ha]
      exact .inr ⟨after', rfl, hacts⟩
  · rintro (⟨rfl, rfl, rfl⟩ | ⟨after', rfl, rfl⟩)
    · rfl
    · simp

theorem WholeCharacters.of_concat {acts : List Action} {a : Action}
    (h : WholeCharacters (acts ++ [a])) : WholeCharacters acts := by
  intro before after heq
  exact h before (after ++ [a]) (metadata_concat_iff.mpr (.inr ⟨after, rfl, heq⟩))

theorem wholeCharacters_metadata (acts : List Action) :
    WholeCharacters (acts ++ [.metadata]) ↔
      WholeCharacters acts ∧ (read_to_string (appended acts)).isSome = true := by
  constructor
  · intro h
    exact ⟨h.of_concat, h acts [] rfl⟩
  · rintro ⟨h, hlast⟩ before after heq
    rcases metadata_concat_iff.mp heq with ⟨-, rfl, -⟩ | ⟨after', -, hacts⟩
    · exact hlast
    · exact h before after' hacts

theorem wholeCharacters_concat (acts : List Action) {a : Action} (ha : a ≠ .metadata) :
    WholeCharacters (acts ++ [a]) ↔ WholeCharacters acts := by
  refine ⟨WholeCharacters.of_concat, fun h before after heq => ?_⟩
  rcases metadata_concat_iff.mp heq with ⟨hmetadata, -⟩ | ⟨after', -, hacts⟩
  · exact absurd hmetadata ha
  · exact h before after' hacts

/-! ### One step -/

section
variable {args : Args} {s s' : State}

theorem step_start (h : step args s .start = some s') :
    s.stage = .called ∧ s' = show_first args s := by
  obtain ⟨log, stage, stdout⟩ := s
  cases stage with
  | called => exact ⟨rfl, (Option.some.inj h).symm⟩
  | sleeping => cases h
  | measured => cases h
  | returned => cases h

theorem step_no_metadata (h : step args s .no_metadata = some s') : s' = s := by
  obtain ⟨log, stage, stdout⟩ := s
  cases stage with
  | sleeping => exact (Option.some.inj h).symm
  | called => cases h
  | measured => cases h
  | returned => cases h

theorem step_read (h : step args s .read = some s') :
    ∃ pos file_len file, s.stage = .measured pos file_len ∧ s.log = some file ∧
      s' = read_new pos file_len file s := by
  obtain ⟨log, stage, stdout⟩ := s
  cases stage with
  | measured pos file_len =>
    cases log with
    | none => cases h
    | some file => exact ⟨pos, file_len, file, rfl, rfl, (Option.some.inj h).symm⟩
  | called => cases h
  | sleeping => cases h
  | returned => cases h

theorem step_refuse (h : step args s .refuse = some s') :
    s' = { s with stage := .returned (.error .io) } := by
  obtain ⟨log, stage, stdout⟩ := s
  cases stage with
  | called =>
    cases log with
    | none => cases h
    | some => exact (Option.some.inj h).symm
  | measured => exact (Option.some.inj h).symm
  | sleeping => cases h
  | returned => cases h

/-- The first look at a log that is text. -/
theorem show_first_of_text {content : Str} (hfollow : args.follow = true)
    (hlog : s.log = some (bytes content)) :
    show_first args s = {
      log := some (bytes content)
      stage := .sleeping (bytes content).length
      stdout := s.stdout ++ printed (output args.tail_lines content) } := by
  obtain ⟨log, stage, stdout⟩ := s
  obtain rfl : log = some (bytes content) := hlog
  simp only [show_first, read_to_string_bytes, hfollow, length_bytes, if_true]

end

/-! ### One poll -/

theorem poll_same (pos : Nat) : poll pos pos = .sleeping pos := by simp [poll]

theorem poll_grown {pos more : Nat} (hmore : 0 < more) :
    poll pos (pos + more) = .measured pos (pos + more) := by
  have hnot : ¬ pos + more < pos := by omega
  have hgrown : pos + more > pos := by omega
  simp only [poll, if_neg hnot, if_pos hgrown]

theorem poll_cases {pos file_len : Nat} (h : pos ≤ file_len) :
    poll pos file_len = .sleeping file_len ∨ poll pos file_len = .measured pos file_len := by
  rcases Nat.eq_or_lt_of_le h with rfl | hlt
  · exact .inl (poll_same pos)
  · rw [← Nat.add_sub_cancel' h]
    exact .inr (poll_grown (Nat.sub_pos_of_lt hlt))

theorem read_new_cases (pos file_len : Nat) (file : List UInt8) (s : State) :
    read_new pos file_len file s = { s with stage := .returned (.error .io) } ∨
      ∃ stdout, read_new pos file_len file s =
        { s with stdout := stdout, stage := .sleeping file_len } := by
  by_cases hshort : ((file.drop pos).take (file_len - pos)).length < file_len - pos
  · exact .inl (if_pos hshort)
  · exact .inr ⟨_, if_neg hshort⟩

/-- The rest of the poll reads what the log held when its length was taken, also
    when it has grown since. -/
theorem read_new_slice (front next rest : List UInt8) (s : State) :
    read_new front.length (front ++ next).length (front ++ next ++ rest) s =
      { s with
        stdout := s.stdout ++ from_utf8_lossy next
        stage := .sleeping (front ++ next).length } := by
  have hcount : (front ++ next).length - front.length = next.length := by
    rw [List.length_append, Nat.add_sub_cancel_left]
  have hbuf : ((front ++ next ++ rest).drop front.length).take next.length = next := by
    rw [List.append_assoc, List.drop_left, List.take_left]
  simp only [read_new, hcount, hbuf]
  rw [if_neg (Nat.lt_irrefl _)]

/-! ### What has been read -/

/-- Every slice is text by itself. -/
def Texts (slices : List (List UInt8)) : Prop := ∀ b ∈ slices, ∃ t, b = bytes t

theorem texts_concat_iff {slices : List (List UInt8)} {b : List UInt8} :
    Texts (slices ++ [b]) ↔ Texts slices ∧ ∃ t, b = bytes t := by
  unfold Texts
  rw [List.forall_mem_append, List.forall_mem_singleton]

/-- Behind slices that are text, what is new is text when all of it is. -/
theorem isSome_read_slices {slices : List (List UInt8)} (h : Texts slices) (b : List UInt8) :
    (read_to_string (slices.flatten ++ b)).isSome = true ↔ ∃ t, b = bytes t := by
  rw [bytes_of_texts h, read_to_string_append, Option.isSome_map, isSome_read_to_string]

/-- The states after some actions: the slices that have been read and printed so
    far, from the log that began with `content`. -/
inductive Tracked (content : List UInt8) (stdout : Str) (acts : List Action) : State → Prop
  | sleeping (slices : List (List UInt8)) (hread : slices.flatten <+: appended acts)
    (hwhole : WholeCharacters acts ↔ Texts slices) :
    Tracked content stdout acts {
      log := some (content ++ appended acts)
      stage := .sleeping (content ++ slices.flatten).length
      stdout := stdout ++ slices.flatMap from_utf8_lossy }
  | measured (slices : List (List UInt8)) (next : List UInt8)
    (hread : slices.flatten ++ next <+: appended acts)
    (hwhole : WholeCharacters acts ↔ Texts (slices ++ [next])) :
    Tracked content stdout acts {
      log := some (content ++ appended acts)
      stage := .measured (content ++ slices.flatten).length
        (content ++ slices.flatten ++ next).length
      stdout := stdout ++ slices.flatMap from_utf8_lossy }
  | returned (log : Option (List UInt8)) (result : Except LogsError Unit) (stdout' : Str) :
    Tracked content stdout acts { log := log, stage := .returned result, stdout := stdout' }

section
variable {content : List UInt8} {stdout : Str} {acts : List Action} {s s' : State}

/-- What neither appends nor takes the length changes nothing of it. -/
theorem Tracked.later (h : Tracked content stdout acts s) {a : Action} (hmeta : a ≠ .metadata)
    (hnone : a.appends = []) : Tracked content stdout (acts ++ [a]) s := by
  have happended : appended (acts ++ [a]) = appended acts := by
    rw [appended_concat, hnone, List.append_nil]
  cases h with
  | sleeping slices hread hwhole =>
    rw [← happended] at hread ⊢
    exact .sleeping slices hread ((wholeCharacters_concat acts hmeta).trans hwhole)
  | measured slices next hread hwhole =>
    rw [← happended] at hread ⊢
    exact .measured slices next hread ((wholeCharacters_concat acts hmeta).trans hwhole)
  | returned => exact .returned _ _ _

theorem Tracked.append (h : Tracked content stdout acts s) {args : Args} {b : List UInt8}
    (hstep : step args s (.append b) = some s') :
    Tracked content stdout (acts ++ [.append b]) s' := by
  have happended : appended (acts ++ [.append b]) = appended acts ++ b := appended_concat acts _
  have hwhole' := wholeCharacters_concat acts (a := .append b) nofun
  obtain ⟨file, hfile, rfl⟩ := Option.map_eq_some_iff.mp hstep
  cases h with
  | sleeping slices hread hwhole =>
    obtain rfl := Option.some.inj hfile
    have hread' := hread.trans (List.prefix_append _ b)
    rw [← happended] at hread'
    rw [List.append_assoc, ← happended]
    exact .sleeping slices hread' (hwhole'.trans hwhole)
  | measured slices next hread hwhole =>
    obtain rfl := Option.some.inj hfile
    have hread' := hread.trans (List.prefix_append _ b)
    rw [← happended] at hread'
    rw [List.append_assoc, ← happended]
    exact .measured slices next hread' (hwhole'.trans hwhole)
  | returned => exact .returned _ _ _

/-- Taking the length adds to the condition that the new slice is text. -/
theorem Tracked.metadata (h : Tracked content stdout acts s) {args : Args}
    (hstep : step args s .metadata = some s') :
    Tracked content stdout (acts ++ [.metadata]) s' := by
  have happended : appended (acts ++ [.metadata]) = appended acts := by
    rw [appended_concat]
    exact List.append_nil _
  cases h with
  | sleeping slices hread hwhole =>
    obtain rfl := Option.some.inj hstep
    obtain ⟨next, hnext⟩ := hread
    have hlen : (content ++ appended acts).length =
        (content ++ slices.flatten).length + next.length := by
      rw [← hnext, ← List.append_assoc, List.length_append]
    -- what has been read is text, so that all of the log is where the rest is
    have hcond : WholeCharacters (acts ++ [.metadata]) ↔ Texts (slices ++ [next]) := by
      rw [wholeCharacters_metadata, hwhole, ← hnext, texts_concat_iff]
      exact and_congr_right fun htexts => isSome_read_slices htexts next
    rw [hlen]
    rw [← happended] at hnext ⊢
    by_cases hnil : next = []
    · -- nothing is new, and nothing is added to the condition
      have hvoid : Texts (slices ++ [next]) ↔ Texts slices := by
        rw [texts_concat_iff]
        exact and_iff_left ⟨[], hnil⟩
      rw [hnil, List.length_nil, Nat.add_zero, poll_same]
      rw [hnil, List.append_nil] at hnext
      exact .sleeping slices ⟨[], by rw [List.append_nil, hnext]⟩ (hcond.trans hvoid)
    · rw [poll_grown (List.length_pos_of_ne_nil hnil), ← List.length_append]
      exact .measured slices next ⟨[], by rw [List.append_nil, hnext]⟩ hcond
  | measured => cases hstep
  | returned => cases hstep

theorem Tracked.read (h : Tracked content stdout acts s) {args : Args}
    (hstep : step args s .read = some s') : Tracked content stdout (acts ++ [.read]) s' := by
  cases h with
  | sleeping => cases hstep
  | measured slices next hread hwhole =>
    obtain rfl := Option.some.inj hstep
    obtain ⟨rest, hrest⟩ := hread
    -- the log may have grown behind what was measured
    rw [← hrest, ← List.append_assoc, ← List.append_assoc, read_new_slice]
    have hslices : slices.flatten ++ next = (slices ++ [next]).flatten := by simp
    have htracked : Tracked content stdout acts {
        log := some (content ++ appended acts)
        stage := .sleeping (content ++ (slices ++ [next]).flatten).length
        stdout := stdout ++ (slices ++ [next]).flatMap from_utf8_lossy } :=
      .sleeping (slices ++ [next]) ⟨rest, by rw [← hslices, hrest]⟩ hwhole
    have hlater := htracked.later (a := .read) nofun rfl
    rw [← hslices, ← hrest, List.flatMap_append, List.flatMap_singleton] at hlater
    simpa only [List.append_assoc] using hlater
  | returned => cases hstep

end

/-! ### Runs -/

section
variable {args : Args} {content : List UInt8} {stdout : Str} {acts : List Action} {s s' : State}

theorem Tracked.not_called (h : Tracked content stdout acts s) : s.stage ≠ .called := by
  cases h <;> nofun

theorem Tracked.step (h : Tracked content stdout acts s) {a : Action}
    (hstep : step args s a = some s') (hguard : OnlyAppends s a s') :
    Tracked content stdout (acts ++ [a]) s' := by
  cases a with
  | append b => exact h.append hstep
  | create => exact hguard.elim
  | start => exact absurd (step_start hstep).1 h.not_called
  | metadata => exact h.metadata hstep
  | no_metadata =>
    rw [step_no_metadata hstep]
    exact h.later nofun rfl
  | read => exact h.read hstep
  | refuse =>
    rw [step_refuse hstep]
    exact .returned _ _ _

theorem Tracked.run (h : Tracked content stdout [] s)
    (hrun : (system args).Steps OnlyAppends s acts s') : Tracked content stdout acts s' :=
  hrun.trace_invariant (I := Tracked content stdout) h fun _ _ _ _ h hs hg => h.step hs hg

/-- The state in which the loop begins. -/
theorem tracked_first {content : Str} (hfollow : args.follow = true)
    (hlog : s.log.bind read_to_string = some content) (hfirst : Logs.step args s .start = some s') :
    Tracked (bytes content) s'.stdout [] s' := by
  obtain ⟨file, hfile, hread⟩ := Option.bind_eq_some_iff.mp hlog
  rw [bytes_of_read_to_string hread] at hfile
  have hwhole : WholeCharacters [] ↔ Texts [] :=
    ⟨fun _ => nofun, fun _ before after heq => by simp at heq⟩
  have htracked : ∀ stdout, Tracked (bytes content) stdout [] _ :=
    fun stdout => .sleeping [] List.nil_prefix hwhole
  rw [(step_start hfirst).2, show_first_of_text hfollow hfile]
  simpa [appended] using htracked (s.stdout ++ printed (output args.tail_lines content))

/-! ### The last append -/

/-- **The next poll sees everything** that has been appended before it. -/
theorem Tracked.next_poll (h : Tracked content stdout acts s) {pos : Nat}
    (hsleeping : s.stage = .sleeping pos) :
    ∃ acts' s', (system args).Steps OnlyAppends s acts' s' ∧ appended acts' = [] ∧ Polled s' := by
  cases h with
  | sleeping slices hread hwhole =>
    obtain ⟨next, hnext⟩ := hread
    have hlog : content ++ appended acts = content ++ slices.flatten ++ next := by
      rw [← hnext, List.append_assoc]
    rw [hlog]
    have hmetadata : Logs.step args
        { log := some (content ++ slices.flatten ++ next)
          stage := .sleeping (content ++ slices.flatten).length
          stdout := stdout ++ slices.flatMap from_utf8_lossy } .metadata =
        some
          { log := some (content ++ slices.flatten ++ next)
            stage := poll (content ++ slices.flatten).length
              ((content ++ slices.flatten).length + next.length)
            stdout := stdout ++ slices.flatMap from_utf8_lossy } := by
      rw [← List.length_append]
      rfl
    by_cases hnil : next = []
    · rw [hnil, List.length_nil, Nat.add_zero, poll_same, List.append_nil] at hmetadata
      rw [hnil, List.append_nil]
      exact ⟨[.metadata], _, .cons hmetadata trivial .nil, rfl, _, rfl, rfl⟩
    · rw [poll_grown (List.length_pos_of_ne_nil hnil), ← List.length_append] at hmetadata
      refine ⟨[.metadata, .read], _, .cons hmetadata trivial (.cons rfl trivial .nil), rfl, ?_⟩
      have hread := read_new_slice (content ++ slices.flatten) next []
      rw [List.append_nil] at hread
      rw [hread]
      exact ⟨_, rfl, rfl⟩
  | measured => cases hsleeping
  | returned => cases hsleeping

/-- How far a poll is that has got the length of all of the log. -/
def Reaching (s : State) : Prop :=
  ∀ file, s.log = some file →
    (∀ pos, s.stage = .sleeping pos → pos = file.length) ∧
    ∀ pos file_len, s.stage = .measured pos file_len → file_len = file.length

theorem lastMeasured_concat {a : Action} (ha : a ≠ .metadata) (h : LastMeasured (acts ++ [a])) :
    LastMeasured acts ∧ a.appends = [] := by
  obtain ⟨before, after, heq, hnone⟩ := h
  rcases metadata_concat_iff.mp heq with ⟨hmetadata, -⟩ | ⟨after', rfl, hacts⟩
  · exact absurd hmetadata ha
  · rw [appended_concat] at hnone
    obtain ⟨hafter, hlast⟩ := List.append_eq_nil_iff.mp hnone
    exact ⟨⟨before, after', hacts, hafter⟩, hlast⟩

theorem Tracked.reaching_metadata (h : Tracked content stdout acts s)
    (hstep : (system args).step s .metadata = some s') : Reaching s' := by
  cases h with
  | sleeping slices hread hwhole =>
    have hle : (content ++ slices.flatten).length ≤ (content ++ appended acts).length := by
      rw [List.length_append, List.length_append]
      exact Nat.add_le_add_left hread.length_le _
    obtain rfl := Option.some.inj hstep
    intro file hfile
    obtain rfl := Option.some.inj hfile
    rcases poll_cases hle with hpoll | hpoll
    · constructor
      · intro pos hpos
        exact Stage.sleeping.inj (hpos.symm.trans hpoll)
      · intro pos file_len hmeasured
        exact absurd (hmeasured.symm.trans hpoll) nofun
    · constructor
      · intro pos hpos
        exact absurd (hpos.symm.trans hpoll) nofun
      · intro pos file_len hmeasured
        exact (Stage.measured.inj (hmeasured.symm.trans hpoll)).2
  | measured => cases hstep
  | returned => cases hstep

/-- What neither appends nor takes the length keeps it so. -/
theorem Reaching.step (h : Reaching s) {a : Action} (hstep : Logs.step args s a = some s')
    (hguard : OnlyAppends s a s') (hmetadata : a ≠ .metadata) (hnone : a.appends = [])
    (hcalled : s.stage ≠ .called) : Reaching s' := by
  cases a with
  | append b =>
    obtain ⟨file, hfile, rfl⟩ := Option.map_eq_some_iff.mp hstep
    obtain rfl : b = [] := hnone
    intro file' hfile'
    rw [List.append_nil] at hfile'
    exact h file' (hfile.trans hfile')
  | create => exact hguard.elim
  | start => exact absurd (step_start hstep).1 hcalled
  | metadata => exact absurd rfl hmetadata
  | no_metadata =>
    rw [step_no_metadata hstep]
    exact h
  | read =>
    obtain ⟨pos, file_len, file, hstage, hlog, rfl⟩ := step_read hstep
    have hlen := (h file hlog).2 pos file_len hstage
    rcases read_new_cases pos file_len file s with heq | ⟨stdout', heq⟩
    · rw [heq]
      exact fun _ _ => ⟨nofun, nofun⟩
    · rw [heq]
      intro file' hfile
      obtain rfl := Option.some.inj (hlog.symm.trans hfile)
      exact ⟨fun _ hpos => (Stage.sleeping.inj hpos).symm.trans hlen, nofun⟩
  | refuse =>
    rw [step_refuse hstep]
    exact fun _ _ => ⟨nofun, nofun⟩

theorem Tracked.reaching (h : Tracked content stdout [] s)
    (hrun : (system args).Steps OnlyAppends s acts s') (hlast : LastMeasured acts) :
    Reaching s' := by
  have hboth : Tracked content stdout acts s' ∧ (LastMeasured acts → Reaching s') := by
    refine hrun.trace_invariant
      (I := fun acts s => Tracked content stdout acts s ∧ (LastMeasured acts → Reaching s))
      ⟨h, ?_⟩ ?_
    · rintro ⟨before, after, heq, _⟩
      simp at heq
    · -- a later action that is no poll appends nothing
      intro acts s₁ a s₂ ⟨htracked, ih⟩ hstep hguard
      refine ⟨htracked.step hstep hguard, fun hmeasured => ?_⟩
      by_cases ha : a = .metadata
      · rw [ha] at hstep
        exact htracked.reaching_metadata hstep
      · obtain ⟨hbefore, hnone⟩ := lastMeasured_concat ha hmeasured
        exact (ih hbefore).step hstep hguard ha hnone htracked.not_called
  exact hboth.2 hlast

/-- When the poll that has got the length after the last append is done, it has
    seen all of the log. -/
theorem Tracked.polled (h : Tracked content stdout [] s)
    (hrun : (system args).Steps OnlyAppends s acts s') (hlast : LastMeasured acts) {pos : Nat}
    (hsleeping : s'.stage = .sleeping pos) : Polled s' := by
  have hreaching := h.reaching hrun hlast
  have htracked := h.run hrun
  cases htracked with
  | sleeping slices =>
    have hpos := (hreaching _ rfl).1 _ rfl
    exact ⟨_, rfl, by rw [hpos]⟩
  | measured => cases hsleeping
  | returned => cases hsleeping

end

/-! ### The law holds -/

/-- **Following the log prints it once and intact**, once the last append has been
    polled, exactly when no poll gets the length of a log that ends inside of a
    character. -/
theorem follow_prints_iff {args : Args} {s s₁ s' : State} {content text : Str}
    {acts : List Action} {pos : Nat} (hfollow : args.follow = true)
    (hlog : s.log.bind read_to_string = some content)
    (hfirst : step args s .start = some s₁)
    (hrun : (system args).Steps OnlyAppends s₁ acts s') (hlast : LastMeasured acts)
    (hdone : s'.stage = .sleeping pos) (hend : s'.log.bind read_to_string = some text) :
    ∃ new, text = content ++ new ∧ (s'.stdout = s₁.stdout ++ new ↔ WholeCharacters acts) := by
  have hopened := tracked_first hfollow hlog hfirst
  obtain ⟨file, hfile, hlen⟩ := hopened.polled hrun hlast hdone
  rw [hfile, Option.bind_some] at hend
  have htracked := hopened.run hrun
  generalize s₁.stdout = stdout at htracked ⊢
  cases htracked with
  | sleeping slices hread hwhole =>
    obtain rfl := Option.some.inj hfile
    -- the slices that have been read are all of what has been appended
    have hall : slices.flatten = appended acts := by
      apply hread.eq_of_length
      have hlen' := Stage.sleeping.inj hlen
      rw [List.length_append, List.length_append] at hlen'
      omega
    rw [read_to_string_append, Option.map_eq_some_iff] at hend
    obtain ⟨new, hnew, rfl⟩ := hend
    have hslices : slices.flatten = bytes new := by rw [hall, bytes_of_read_to_string hnew]
    refine ⟨new, rfl, ?_⟩
    rw [List.append_cancel_left_eq, from_utf8_lossy_slices_iff hslices, hwhole]
    rfl
  | measured => cases hlen
  | returned => cases hlen

def follow_args : Args where
  log_path := "/home/dev/.nsl/proxy.log".toList
  follow := true
  tail_lines := none

/-- A log of one line, when `nsl logs --follow` is called. -/
def one_line : State where
  log := some (bytes "up\n".toList)
  stage := .called
  stdout := []

theorem one_line_read : one_line.log.bind read_to_string = some "up\n".toList :=
  read_to_string_bytes _

theorem one_line_printed :
    step follow_args one_line .start =
      some { one_line with stage := .sleeping 3, stdout := "up\n".toList } := by
  show some (show_first follow_args one_line) = _
  rw [show_first_of_text rfl rfl]
  rfl

/-- A character of two bytes is appended, and polled. -/
def character_polled : List Action := [.append [0xC3, 0xA9], .metadata, .read]

theorem character_followed :
    ∃ s₁ s', step follow_args one_line .start = some s₁ ∧
      (system follow_args).Steps OnlyAppends s₁ character_polled s' ∧
      ∃ new, "up\né".toList = "up\n".toList ++ new ∧
        (s'.stdout = s₁.stdout ++ new ↔ WholeCharacters character_polled) := by
  obtain ⟨s', hrun, hdone, hlog⟩ : ∃ s', (system follow_args).Steps OnlyAppends
      { one_line with stage := .sleeping 3, stdout := "up\n".toList } character_polled s' ∧
      s'.stage = .sleeping 5 ∧ s'.log = some (bytes "up\né".toList) :=
    ⟨_, .cons rfl trivial (.cons rfl trivial (.cons rfl trivial .nil)), rfl, by decide⟩
  have hend : s'.log.bind read_to_string = some "up\né".toList := by
    rw [hlog]
    exact read_to_string_bytes _
  have hlast : LastMeasured character_polled := ⟨[.append [0xC3, 0xA9]], [.read], rfl, rfl⟩
  exact ⟨_, s', one_line_printed, hrun,
    follow_prints_iff rfl one_line_read one_line_printed hrun hlast hdone hend⟩

/-- The character is appended in two parts, and each part is polled. -/
def parts_polled : List Action :=
  [.append [0xC3], .metadata, .read, .append [0xA9], .metadata, .read]

/-- Each part is replaced. -/
theorem character_replaced :
    ∃ s₁ s', one_line.log.bind read_to_string = some "up\n".toList ∧
      step follow_args one_line .start = some s₁ ∧
      (system follow_args).Steps OnlyAppends s₁ parts_polled s' ∧
      LastMeasured parts_polled ∧ s'.stage = .sleeping 5 ∧
      s'.log.bind read_to_string = some ("up\n".toList ++ "é".toList) ∧
      s'.stdout = s₁.stdout ++ "\uFFFD\uFFFD".toList ∧
      s'.stdout ≠ s₁.stdout ++ "é".toList := by
  obtain ⟨s', hrun, hdone, hlog, hstdout⟩ : ∃ s', (system follow_args).Steps OnlyAppends
      { one_line with stage := .sleeping 3, stdout := "up\n".toList } parts_polled s' ∧
      s'.stage = .sleeping 5 ∧ s'.log = some (bytes ("up\n".toList ++ "é".toList)) ∧
      s'.stdout = "up\n".toList ++ "\uFFFD\uFFFD".toList :=
    ⟨_, .cons rfl trivial (.cons rfl trivial (.cons rfl trivial (.cons rfl trivial
      (.cons rfl trivial (.cons rfl trivial .nil))))), rfl, by decide, by decide⟩
  have hlast : LastMeasured parts_polled :=
    ⟨[.append [0xC3], .metadata, .read, .append [0xA9]], [.read], rfl, rfl⟩
  refine ⟨_, s', one_line_read, one_line_printed, hrun, hlast, hdone, ?_, hstdout, ?_⟩
  · rw [hlog]
    exact read_to_string_bytes _
  · rw [hstdout]
    decide

end Nsl.Logs
