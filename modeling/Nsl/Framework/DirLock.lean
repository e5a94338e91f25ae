import Nsl.Framework.System

/-! # A lock that is a directory

  To take the lock is to create a directory, to release it is to remove
  whatever directory stands at its path. A waiter that finds the directory
  there looks at its age, and removes it when it is older than a threshold, so
  that the lock of a crashed holder is not kept for good. Looking and removing
  are two steps.

  The creator of the directory is a ghost: no step reads it, and it says which
  process a removal takes the lock from.

  - `Guarded`: the directory at the path is that of the live holder, so there
    is at most one.
  - `Guarded.step`: kept by every step except a stale removal that hits a live
    holder (`SparesHolder`).
  - `Prompt.step`: where nobody holds the lock past the threshold, a removal hits
    a live holder only if the directory is no longer the one that was looked at.
-/

namespace Framework.DirLock

variable {ι : Type u}

section
variable [DecidableEq ι]

/-- Change one process's entry. -/
def setLocal {β : Type v} (f : ι → β) (i : ι) (v : β) : ι → β :=
  fun j => if j = i then v else f j

@[simp] theorem setLocal_self {β : Type v} (f : ι → β) (i : ι) (v : β) :
    setLocal f i v i = v := if_pos rfl

@[simp] theorem setLocal_other {β : Type v} (f : ι → β) {i j : ι} (v : β) (h : j ≠ i) :
    setLocal f i v j = f j := if_neg h

end

/-- The directory at the path of the lock. -/
structure Dir (ι : Type u) where
  creator : ι
  mtime : Nat

/-- Where a process stands. The numbers count the attempts left after the
    present one; `judged` is the creator of the directory found stale. -/
inductive Phase (ι : Type u) where
  | creating (left : Nat)
  | checking (left : Nat)
  | removing (left : Nat) (judged : ι)
  | holding (since : Nat)
  | failed
  | released
  | crashed
deriving DecidableEq

structure State (ι : Type u) where
  dir : Option (Dir ι)
  now : Nat
  phase : ι → Phase ι

inductive Action (ι : Type u) where
  /-- `create_dir` -/
  | create (i : ι)
  /-- `create_dir` fails for a reason other than that the path exists -/
  | refuse (i : ι)
  /-- `metadata`, and the comparison of the age with the threshold -/
  | stat (i : ι)
  /-- `remove_dir_all` of a lock judged stale -/
  | remove (i : ι)
  /-- `remove_dir_all` by the guard of the holder -/
  | release (i : ι)
  | crash (i : ι)
  /-- time passes -/
  | tick (d : Nat)

namespace Phase

/-- Begin the next attempt, if one is left. -/
def attempt : Nat → Phase ι
  | 0 => failed
  | n + 1 => creating n

/-- Between a successful acquisition and the release. -/
def holds : Phase ι → Bool
  | holding _ => true
  | _ => false

/-- Since when the lock is held. -/
def since : Phase ι → Option Nat
  | holding t => some t
  | _ => none

/-- The lock was never acquired. -/
def early : Phase ι → Bool
  | creating _ | checking _ | removing _ _ | failed => true
  | _ => false

/-- The process takes no more steps. -/
def ended : Phase ι → Bool
  | failed | released | crashed => true
  | _ => false

@[simp] theorem early_attempt (n : Nat) : (attempt n : Phase ι).early = true := by
  cases n <;> rfl

theorem holds_attempt (n : Nat) : (attempt n : Phase ι).holds = false := by
  cases n <;> rfl

theorem attempt_ne_removing {m n : Nat} {k : ι} : (attempt m : Phase ι) ≠ removing n k := by
  cases m <;> simp [attempt]

theorem holds_eq_false_of_early {p : Phase ι} (h : p.early = true) : p.holds = false := by
  cases p <;> simp_all [early, holds]

theorem holds_eq_false_of_ended {p : Phase ι} (h : p.ended = true) : p.holds = false := by
  cases p <;> simp_all [ended, holds]

end Phase

/-- All processes are about to make the first of `attempts` attempts. -/
def start (attempts : Nat) : State ι where
  dir := none
  now := 0
  phase _ := Phase.attempt attempts

/-! ### Mutual exclusion -/

/-- The directory at the path is that of the process that holds the lock. -/
def Guarded (s : State ι) : Prop :=
  ∀ i, (s.phase i).holds = true → ∃ d, s.dir = some d ∧ d.creator = i

/-- Two processes never hold the lock together. -/
theorem Guarded.unique {s : State ι} (h : Guarded s) {i j : ι}
    (hi : (s.phase i).holds = true) (hj : (s.phase j).holds = true) : i = j := by
  obtain ⟨d, hd, hdi⟩ := h i hi
  obtain ⟨e, he, hej⟩ := h j hj
  rw [hd] at he
  rw [← hdi, ← hej, Option.some.inj he]

theorem guarded_start (attempts : Nat) : Guarded (start attempts : State ι) := by
  intro i hi
  rw [show (start attempts : State ι).phase i = .attempt attempts from rfl,
    Phase.holds_attempt] at hi
  cases hi

/-! ### Stale removals -/

/-- A stale removal does not take the lock from a process that holds it. -/
def SparesHolder (s : State ι) : Action ι → Prop
  | .remove _ => ∀ d, s.dir = some d → (s.phase d.creator).holds = false
  | _ => True

instance (s : State ι) : (a : Action ι) → Decidable (SparesHolder s a)
  | .remove _ => inferInstanceAs (Decidable (∀ d ∈ s.dir, (s.phase d.creator).holds = false))
  | .create _ | .refuse _ | .stat _ | .release _ | .crash _ | .tick _ => isTrue trivial

/-- Nobody holds the lock past the threshold. -/
def Punctual (threshold : Nat) (s : State ι) : Prop :=
  ∀ i, ∀ t ∈ (s.phase i).since, s.now ≤ t + threshold

/-- The creator of the directory, and of every directory found stale, will not
    take the lock any more; the former may hold it, for as long as the
    directory is there, and the latter does not. -/
structure Judged (s : State ι) : Prop where
  creator : ∀ d, s.dir = some d → (s.phase d.creator).early = false
  mtime : ∀ d t, s.dir = some d → s.phase d.creator = .holding t → d.mtime = t
  judged : ∀ i n k, s.phase i = .removing n k →
    (s.phase k).early = false ∧ (s.phase k).holds = false

/-- A stale removal removes the directory that was looked at. -/
def RemovesJudged (s : State ι) : Action ι → Prop
  | .remove i => ∀ n k d, s.phase i = .removing n k → s.dir = some d → d.creator = k
  | _ => True

theorem judged_start (attempts : Nat) : Judged (start attempts : State ι) := by
  refine ⟨?_, ?_, ?_⟩
  · intro d hd
    cases hd
  · intro d t hd
    cases hd
  · intro i n k hi
    exact absurd hi Phase.attempt_ne_removing

/-- What stays so while nobody holds the lock past the threshold. -/
def Prompt (threshold : Nat) (s : State ι) : Prop := Judged s ∧ Punctual threshold s

theorem prompt_start (threshold attempts : Nat) :
    Prompt threshold (start attempts : State ι) := by
  refine ⟨judged_start attempts, ?_⟩
  intro i t ht
  cases attempts <;> cases ht

/-! ### The steps -/

variable [DecidableEq ι]

def step (threshold : Nat) (s : State ι) : Action ι → Option (State ι)
  | .create i =>
    match s.phase i, s.dir with
    -- the mtime of a directory is the time of its creation
    | .creating _, none =>
      some { s with dir := some ⟨i, s.now⟩, phase := setLocal s.phase i (.holding s.now) }
    | .creating n, some _ => some { s with phase := setLocal s.phase i (.checking n) }
    | _, _ => none
  | .refuse i =>
    match s.phase i with
    | .creating _ => some { s with phase := setLocal s.phase i .failed }
    | _ => none
  | .stat i =>
    match s.phase i, s.dir with
    -- released since the attempt
    | .checking n, none => some { s with phase := setLocal s.phase i (.attempt n) }
    | .checking n, some d =>
      if threshold < s.now - d.mtime then
        some { s with phase := setLocal s.phase i (.removing n d.creator) }
      else
        some { s with phase := setLocal s.phase i (.attempt n) }
    | _, _ => none
  | .remove i =>
    match s.phase i with
    -- whatever directory stands there by now
    | .removing n _ =>
      some { s with dir := none, phase := setLocal s.phase i (.attempt n) }
    | _ => none
  | .release i =>
    match s.phase i with
    -- the guard does not look whose directory it is, either
    | .holding _ => some { s with dir := none, phase := setLocal s.phase i .released }
    | _ => none
  | .crash i =>
    if (s.phase i).ended then none
    else some { s with phase := setLocal s.phase i .crashed }
  | .tick d => some { s with now := s.now + d }

/-! ### What a step can do -/

/-- The effects of the steps: the lock is taken, a process that has not taken
    it goes on trying, a lock judged stale is removed, the lock is released, a
    process crashes, time passes. -/
inductive Effect (threshold : Nat) (s : State ι) : Action ι → State ι → Prop where
  | acquire {i : ι} {n : Nat} : s.phase i = .creating n → s.dir = none →
      Effect threshold s (.create i)
        { s with dir := some ⟨i, s.now⟩, phase := setLocal s.phase i (.holding s.now) }
  | wait {a : Action ι} {i : ι} {p : Phase ι} : a = .create i ∨ a = .refuse i ∨ a = .stat i →
      (s.phase i).early = true → p.early = true →
      (∀ n k, p = .removing n k →
        ∃ d, s.dir = some d ∧ d.creator = k ∧ threshold < s.now - d.mtime) →
      Effect threshold s a { s with phase := setLocal s.phase i p }
  | reclaim {i : ι} {n : Nat} {k : ι} : s.phase i = .removing n k →
      Effect threshold s (.remove i)
        { s with dir := none, phase := setLocal s.phase i (.attempt n) }
  | release {i : ι} {t : Nat} : s.phase i = .holding t →
      Effect threshold s (.release i)
        { s with dir := none, phase := setLocal s.phase i .released }
  | crash {i : ι} : (s.phase i).ended = false →
      Effect threshold s (.crash i) { s with phase := setLocal s.phase i .crashed }
  | tick {d : Nat} : Effect threshold s (.tick d) { s with now := s.now + d }

theorem effect_of_step {threshold : Nat} {s s' : State ι} {a : Action ι}
    (h : step threshold s a = some s') : Effect threshold s a s' := by
  cases a with
  | create i =>
    simp only [step] at h
    split at h
    · next n hphase hdir =>
      cases h
      exact .acquire hphase hdir
    · next n d hphase hdir =>
      cases h
      refine .wait (.inl rfl) (by rw [hphase]; rfl) rfl ?_
      intro m k hp
      cases hp
    · cases h
  | refuse i =>
    simp only [step] at h
    split at h
    · next n hphase =>
      cases h
      refine .wait (.inr (.inl rfl)) (by rw [hphase]; rfl) rfl ?_
      intro m k hp
      cases hp
    · cases h
  | stat i =>
    simp only [step] at h
    split at h
    · next n hphase hdir =>
      cases h
      refine .wait (.inr (.inr rfl)) (by rw [hphase]; rfl) (Phase.early_attempt n) ?_
      exact fun m k hp => absurd hp Phase.attempt_ne_removing
    · next n d hphase hdir =>
      split at h
      · next hstale =>
        cases h
        refine .wait (.inr (.inr rfl)) (by rw [hphase]; rfl) rfl ?_
        intro m k hp
        cases hp
        exact ⟨d, hdir, rfl, hstale⟩
      · cases h
        refine .wait (.inr (.inr rfl)) (by rw [hphase]; rfl) (Phase.early_attempt n) ?_
        exact fun m k hp => absurd hp Phase.attempt_ne_removing
    · cases h
  | remove i =>
    simp only [step] at h
    split at h
    · next n k hphase =>
      cases h
      exact .reclaim hphase
    · cases h
  | release i =>
    simp only [step] at h
    split at h
    · next t hphase =>
      cases h
      exact .release hphase
    · cases h
  | crash i =>
    simp only [step] at h
    split at h
    · cases h
    · next hended =>
      cases h
      exact .crash (by simpa using hended)
  | tick d =>
    cases h
    exact .tick

/-! ### The invariants over a step -/

theorem Guarded.step {threshold : Nat} {s s' : State ι} {a : Action ι} (h : Guarded s)
    (hstep : step threshold s a = some s') (hspares : SparesHolder s a) : Guarded s' := by
  -- a process whose phase is set to one that does not hold is not a holder
  have hother : ∀ {i j : ι} {p : Phase ι}, p.holds = false →
      (setLocal s.phase i p j).holds = true → j ≠ i ∧ (s.phase j).holds = true := by
    intro i j p hp hj
    by_cases hji : j = i
    · rw [hji, setLocal_self, hp] at hj
      cases hj
    · rw [setLocal_other _ _ hji] at hj
      exact ⟨hji, hj⟩
  intro j hj
  cases effect_of_step hstep with
  | @acquire i n hphase hdir =>
    by_cases hji : j = i
    · exact ⟨_, rfl, hji.symm⟩
    · -- another holder would have left no room for the new directory
      have hj' : (s.phase j).holds = true := by simpa [hji] using hj
      obtain ⟨d, hd, _⟩ := h j hj'
      rw [hdir] at hd
      cases hd
  | wait _ _ hp _ => exact h j (hother (Phase.holds_eq_false_of_early hp) hj).2
  | @reclaim i n k hphase =>
    -- the directory that is removed would be that of `j`
    have hj' := (hother (Phase.holds_attempt n) hj).2
    obtain ⟨d, hd, hdj⟩ := h j hj'
    have hfree := hspares d hd
    rw [hdj, hj'] at hfree
    cases hfree
  | @release i t hphase =>
    -- the directory that is removed is that of `i`, the only holder
    obtain ⟨hji, hj'⟩ := hother (by rfl) hj
    have hi : (s.phase i).holds = true := by rw [hphase]; rfl
    exact absurd (h.unique hj' hi) hji
  | crash _ => exact h j (hother (by rfl) hj).2
  | tick => exact h j hj

/-! ### The phase of one process over a step -/

/-- What a step does to the phase of `j`: nothing; or `j` goes on trying, or
    takes the lock; or `j` releases it; or `j` crashes. -/
theorem phase_of_step {threshold : Nat} {s s' : State ι} {a : Action ι}
    (hstep : step threshold s a = some s') (j : ι) :
    s'.phase j = s.phase j ∨
    ((s.phase j).early = true ∧ ((s'.phase j).early = true ∨ (s'.phase j).holds = true)) ∨
    (a = .release j ∧ (s.phase j).holds = true ∧ s'.phase j = .released) ∨
    (a = .crash j ∧ (s.phase j).ended = false ∧ s'.phase j = .crashed) := by
  cases effect_of_step hstep with
  | @acquire i n hphase hdir =>
    by_cases hji : j = i
    · subst hji
      refine .inr (.inl ⟨by rw [hphase]; rfl, .inr ?_⟩)
      simp [Phase.holds]
    · exact .inl (setLocal_other _ _ hji)
  | @wait _ i p _ hi hp _ =>
    by_cases hji : j = i
    · subst hji
      refine .inr (.inl ⟨hi, .inl ?_⟩)
      simpa using hp
    · exact .inl (setLocal_other _ _ hji)
  | @reclaim i n k hphase =>
    by_cases hji : j = i
    · subst hji
      refine .inr (.inl ⟨by rw [hphase]; rfl, .inl ?_⟩)
      simp
    · exact .inl (setLocal_other _ _ hji)
  | @release i t hphase =>
    by_cases hji : j = i
    · subst hji
      refine .inr (.inr (.inl ⟨rfl, by rw [hphase]; rfl, ?_⟩))
      simp
    · exact .inl (setLocal_other _ _ hji)
  | @crash i hended =>
    by_cases hji : j = i
    · subst hji
      refine .inr (.inr (.inr ⟨rfl, hended, ?_⟩))
      simp
    · exact .inl (setLocal_other _ _ hji)
  | tick => exact .inl rfl

/-- A process that holds the lock after a step held it before, or was trying. -/
theorem holds_of_step {threshold : Nat} {s s' : State ι} {a : Action ι}
    (hstep : step threshold s a = some s') {j : ι} (hj : (s'.phase j).holds = true) :
    (s.phase j).holds = true ∨ (s.phase j).early = true := by
  rcases phase_of_step hstep j with h | h | ⟨_, h, _⟩ | ⟨_, _, h⟩
  · rw [← h]
    exact .inl hj
  · exact .inr h.1
  · exact .inl h
  · rw [h] at hj
    cases hj

/-- A process that is trying after a step was trying before. -/
theorem early_of_step {threshold : Nat} {s s' : State ι} {a : Action ι}
    (hstep : step threshold s a = some s') {j : ι} (hj : (s'.phase j).early = true) :
    (s.phase j).early = true := by
  rcases phase_of_step hstep j with h | h | ⟨_, _, h⟩ | ⟨_, _, h⟩
  · rw [← h]
    exact hj
  · exact h.1
  · rw [h] at hj
    cases hj
  · rw [h] at hj
    cases hj

/-- The directory after a step was there before, or has just been created by a
    process that now holds the lock. -/
theorem dir_of_step {threshold : Nat} {s s' : State ι} {a : Action ι}
    (hstep : step threshold s a = some s') {d : Dir ι} (hd : s'.dir = some d) :
    s.dir = some d ∨ (s'.phase d.creator = .holding s.now ∧ d.mtime = s.now) := by
  cases effect_of_step hstep with
  | acquire _ _ =>
    obtain rfl := Option.some.inj hd
    exact .inr ⟨setLocal_self _ _ _, rfl⟩
  | reclaim _ => cases hd
  | release _ => cases hd
  | wait _ _ _ _ => exact .inl hd
  | crash _ => exact .inl hd
  | tick => exact .inl hd

/-- A process about to remove a stale lock was so before, or has just seen that
    lock and found it stale. -/
theorem removing_of_step {threshold : Nat} {s s' : State ι} {a : Action ι}
    (hstep : step threshold s a = some s') {j k : ι} {n : Nat}
    (hj : s'.phase j = .removing n k) :
    s.phase j = .removing n k ∨
    ∃ d, s.dir = some d ∧ d.creator = k ∧ threshold < s.now - d.mtime := by
  -- a process whose phase is set to something else is not about to remove
  have hother : ∀ {i : ι} {p : Phase ι}, p ≠ .removing n k →
      setLocal s.phase i p j = .removing n k → s.phase j = .removing n k := by
    intro i p hp hset
    by_cases hji : j = i
    · rw [hji, setLocal_self] at hset
      exact absurd hset hp
    · rwa [setLocal_other _ _ hji] at hset
  cases effect_of_step hstep with
  | acquire _ _ => exact .inl (hother (by simp) hj)
  | @wait _ i p _ _ _ hstale =>
    by_cases hp : p = .removing n k
    · exact .inr (hstale n k hp)
    · exact .inl (hother hp hj)
  | reclaim _ => exact .inl (hother Phase.attempt_ne_removing hj)
  | release _ => exact .inl (hother (by simp) hj)
  | crash _ => exact .inl (hother (by simp) hj)
  | tick => exact .inl hj

/-! ### Removals of the directory that was looked at -/

theorem Judged.step {threshold : Nat} {s s' : State ι} {a : Action ι} (h : Judged s)
    (hpunctual : Punctual threshold s) (hstep : step threshold s a = some s') : Judged s' := by
  have hearly : ∀ j, (s.phase j).early = false → (s'.phase j).early = false := by
    intro j hj
    rw [← Bool.not_eq_true] at hj ⊢
    exact fun hj' => hj (early_of_step hstep hj')
  refine ⟨?_, ?_, ?_⟩
  · intro d hd
    rcases dir_of_step hstep hd with hd | ⟨hphase, _⟩
    · exact hearly _ (h.creator d hd)
    · rw [hphase]
      rfl
  · intro d t hd ht
    rcases dir_of_step hstep hd with hd | ⟨hphase, hmtime⟩
    · -- the creator held the lock before, and since the same time
      rcases phase_of_step hstep d.creator with h' | ⟨h', _⟩ | ⟨_, _, h'⟩ | ⟨_, _, h'⟩
      · exact h.mtime d t hd (h' ▸ ht)
      · rw [h.creator d hd] at h'
        cases h'
      · rw [h'] at ht
        cases ht
      · rw [h'] at ht
        cases ht
    · rw [hphase] at ht
      cases ht
      exact hmtime
  · intro i n k hi
    have hgone : (s.phase k).early = false ∧ (s.phase k).holds = false := by
      rcases removing_of_step hstep hi with hi | ⟨d, hd, rfl, hstale⟩
      · exact h.judged i n k hi
      · refine ⟨h.creator d hd, ?_⟩
        -- a holder's directory is not stale
        cases hk : s.phase d.creator with
        | holding t =>
          have := hpunctual d.creator t (by rw [hk]; rfl)
          have := h.mtime d t hd hk
          omega
        | _ => rfl
    refine ⟨hearly k hgone.1, ?_⟩
    rw [← Bool.not_eq_true]
    intro hk
    rcases holds_of_step hstep hk with hk | hk
    · rw [hgone.2] at hk
      cases hk
    · rw [hgone.1] at hk
      cases hk

/-- A removal of the directory that was looked at spares every holder. -/
theorem sparesHolder_of_judged {threshold : Nat} {s s' : State ι} {a : Action ι} (h : Judged s)
    (hstep : step threshold s a = some s') (hjudged : RemovesJudged s a) : SparesHolder s a := by
  cases a with
  | remove i =>
    intro d hd
    cases effect_of_step hstep with
    | wait hor =>
      rcases hor with hor | hor | hor <;> cases hor
    | @reclaim _ n k hphase =>
      rw [hjudged n k d hphase hd]
      exact (h.judged i n k hphase).2
  | _ => trivial

/-- While nobody holds the lock past the threshold, only a removal of another
    directory than the one that was looked at can hit a holder. -/
theorem Prompt.step {threshold : Nat} {s s' : State ι} {a : Action ι} (h : Prompt threshold s)
    (hpunctual : Punctual threshold s') (hstep : step threshold s a = some s')
    (hremoves : RemovesJudged s a) : Prompt threshold s' ∧ SparesHolder s a :=
  ⟨⟨h.1.step h.2 hstep, hpunctual⟩, sparesHolder_of_judged h.1 hstep hremoves⟩

end Framework.DirLock
