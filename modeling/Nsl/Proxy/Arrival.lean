import Nsl.Proxy.Serving
import Nsl.Run.Session

/-! # How long a change of the routes takes

  The calls of the CLI change `routes.json`, and the daemon answers out of its
  cache. Its poller is in the middle of a round when a call writes the file, or
  between two of them. A round that has loaded the file before stores what was
  there then; the next one sees the new time of the file.

  The daemon is that of `Nsl.Proxy.Poller`. The file is changed by the calls of
  `Nsl.Routes.Store`, each at a time that it never had before, and processes
  start and exit.

  - `Within`: how many steps of the daemon it takes until the cache has a
    property that every load has by now.
  - `app_arrives`: after five steps a registered app is in the cache, and the
    requests for it are answered.
  - `app_leaves`: after five steps an app that was removed is not.

  Five steps are the rest of a round and the next one.
-/

open Rust Framework

namespace Nsl.Arrival

open Poller (State Phase boot)

/-! ### The system -/

inductive Action where
  /-- the next step of the daemon -/
  | daemon
  /-- a call writes the file, at this time -/
  | call (os : Os) (call : Call) (mtime : Nat)
  /-- a process starts -/
  | start (pid : UInt32)
  | exit (pid : UInt32)

def step (s : State) : Action → Option State
  | .daemon => some (Poller.daemon_step s)
  | .call os call t =>
    if t ∈ s.used then none
    else some { s with file := (run os call s.file).2, mtime := t, used := t :: s.used }
  | .start pid =>
    some { s with is_process_alive := fun p => p == pid || s.is_process_alive p }
  | .exit pid =>
    some { s with is_process_alive := fun p => p != pid && s.is_process_alive p }

def system : System State Action where
  init s := ∃ file mtime alive, s = boot file mtime alive
  step := step

theorem step_call {s s' : State} {os : Os} {call : Call} {t : Nat}
    (h : step s (.call os call t) = some s') :
    t ∉ s.used ∧
      s' = { s with file := (run os call s.file).2, mtime := t, used := t :: s.used } := by
  simp only [step] at h
  split at h
  · cases h
  · next hnew => exact ⟨hnew, (Option.some.inj h).symm⟩

def Action.is_daemon : Action → Bool
  | .daemon => true
  | _ => false

/-- How many steps of a run are the daemon's. -/
def daemon_steps (acts : List Action) : Nat := acts.countP Action.is_daemon

/-- The poller is in its loop. -/
def Looping (phase : Phase) : Prop := phase ≠ .starting ∧ phase ≠ .loaded ∧ phase ≠ .spawned

/-! ### Times -/

/-- The times that the poller remembers have been those of the file. -/
structure Timed (s : State) : Prop where
  used : ∀ t, s.file_mtime = some t → t ∈ s.used
  remembered : ∀ t, s.remembers t → t ∈ s.used

theorem timed_boot (file : RoutesFile) (mtime : Nat) (alive : UInt32 → Bool) :
    Timed (boot file mtime alive) where
  used t h := by
    unfold State.file_mtime at h
    split at h
    · cases h
    · cases h
      exact List.mem_singleton_self _
  remembered t h := by
    rcases h with h | h <;> cases h

theorem Timed.daemon {s : State} (h : Timed s) : Timed (Poller.daemon_step s) := by
  have hkept : ∀ t, s.last_mtime = some t → t ∈ s.used := fun t ht => h.remembered t (.inl ht)
  unfold Poller.daemon_step
  cases hphase : s.phase with
  | starting => exact ⟨h.used, fun t ht => ht.elim (hkept t) False.elim⟩
  | loaded => exact ⟨h.used, fun t ht => ht.elim (hkept t) False.elim⟩
  | spawned => exact ⟨h.used, fun t ht => ht.elim (h.used t) False.elim⟩
  | idle =>
    by_cases hsame : s.file_mtime = s.last_mtime
    · simpa only [hsame, ne_eq, not_true, if_false] using h
    · simp only [hsame, ne_eq, not_false_iff, if_true]
      exact ⟨h.used, fun t ht => ht.elim (hkept t) (h.used t)⟩
  | reloading current =>
    refine ⟨h.used, fun t ht => ht.elim (hkept t) fun hcurrent => ?_⟩
    exact h.remembered t (.inr (by rw [hphase]; exact hcurrent))
  | storing current routes =>
    refine ⟨h.used, fun t ht => ht.elim (hkept t) fun hcurrent => ?_⟩
    exact h.remembered t (.inr (by rw [hphase]; exact hcurrent))
  | marking current =>
    refine ⟨h.used, fun t ht => ht.elim (fun hlast => ?_) False.elim⟩
    exact h.remembered t (.inr (by rw [hphase]; exact hlast))

/-- A call gives the file its time, or there is no file before and after. -/
theorem file_mtime_call (s : State) (os : Os) (call : Call) (t : Nat) (used : List Nat) :
    ({ s with file := (run os call s.file).2, mtime := t, used := used } : State).file_mtime =
        some t ∨
      ({ s with file := (run os call s.file).2, mtime := t, used := used } : State).file_mtime =
        s.file_mtime := by
  unfold State.file_mtime
  rcases run_cases os call s.file with heq | heq | ⟨routes, _, heq⟩
  · simp only [heq]
    cases s.file with
    | absent => exact .inr rfl
    | malformed => exact .inl rfl
    | holds routes => exact .inl rfl
  · rw [heq]
    exact .inl rfl
  · rw [heq]
    exact .inl rfl

theorem Timed.step {s s' : State} {a : Action} (h : Timed s) (hstep : step s a = some s') :
    Timed s' := by
  cases a with
  | daemon =>
    cases hstep
    exact h.daemon
  | call os call t =>
    obtain ⟨-, rfl⟩ := step_call hstep
    refine ⟨fun u hu => ?_, fun u hu => List.mem_cons_of_mem _ (h.remembered u hu)⟩
    rcases file_mtime_call s os call t (t :: s.used) with heq | heq <;> rw [heq] at hu
    · cases hu
      exact List.mem_cons_self
    · exact List.mem_cons_of_mem _ (h.used u hu)
  | start pid =>
    cases hstep
    exact ⟨h.used, h.remembered⟩
  | exit pid =>
    cases hstep
    exact ⟨h.used, h.remembered⟩

theorem timed_of_steps {start s : State} {acts : List Action} (hinit : system.init start)
    (hrun : system.Steps System.anyStep start acts s) : Timed s := by
  obtain ⟨file, mtime, alive, rfl⟩ := hinit
  exact hrun.invariant (timed_boot file mtime alive) fun _ _ _ h hstep _ => h.step hstep

/-! ### Steps until the cache has it -/

/-- Every load has the property by now, and after this many steps of the daemon
    so has the cache. A round whose time is that of the file no more has loaded
    too early. -/
def Within (P : List RouteMapping → Prop) (n : Nat) (s : State) : Prop :=
  match s.phase with
  | .starting | .loaded | .spawned => False
  | .idle => P s.cache ∨ 3 ≤ n ∧ s.file_mtime ≠ s.last_mtime
  | .reloading _ => P s.cache ∨ 2 ≤ n
  | .storing current routes =>
    P routes ∧ (P s.cache ∨ 1 ≤ n) ∨ 5 ≤ n ∧ s.file_mtime ≠ current
  | .marking current => P s.cache ∨ 4 ≤ n ∧ s.file_mtime ≠ current

variable {P : List RouteMapping → Prop}

theorem Within.cache {s : State} (h : Within P 0 s) : P s.cache := by
  unfold Within at h
  split at h
  · exact h.elim
  · exact h.elim
  · exact h.elim
  · exact h.resolve_right fun hn => by omega
  · exact h.resolve_right fun hn => by omega
  · obtain ⟨-, h⟩ := h.resolve_right fun hn => by omega
    exact h.resolve_right fun hn => by omega
  · exact h.resolve_right fun hn => by omega

/-- A step of the daemon is one step less. -/
theorem Within.daemon {s : State} {n : Nat} (h : Within P n s) (hload : P s.on_disk) :
    Within P (n - 1) (Poller.daemon_step s) := by
  unfold Within at h
  unfold Poller.daemon_step
  cases hphase : s.phase with
  | starting => simp [hphase] at h
  | loaded => simp [hphase] at h
  | spawned => simp [hphase] at h
  | idle =>
    simp only [hphase] at h
    by_cases hsame : s.file_mtime = s.last_mtime
    · -- the round has nothing to do
      have hcache : P s.cache := h.resolve_right fun hn => hn.2 hsame
      simp only [hsame, ne_eq, not_true, if_false, Within, hphase]
      exact .inl hcache
    · simp only [hsame, ne_eq, not_false_iff, if_true, Within]
      exact h.imp_right fun hn => by omega
  | reloading current =>
    simp only [hphase] at h
    exact .inl ⟨hload, h.imp_right fun hn => by omega⟩
  | storing current routes =>
    simp only [hphase] at h
    rcases h with ⟨hroutes, -⟩ | ⟨hn, hstale⟩
    · exact .inl hroutes
    · exact .inr ⟨by omega, hstale⟩
  | marking current =>
    simp only [hphase] at h
    rcases h with hcache | ⟨hn, hstale⟩
    · exact .inl hcache
    · exact .inr ⟨by omega, hstale⟩

/-- The new time of a file is not one that the poller remembers. -/
theorem Within.of_file_mtime {s s' : State} {n : Nat} (h : Within P n s)
    (hphase : s'.phase = s.phase) (hcache : s'.cache = s.cache)
    (hlast : s'.last_mtime = s.last_mtime)
    (htime : s'.file_mtime = s.file_mtime ∨ ∃ t, s'.file_mtime = some t ∧ ¬ s.remembers t) :
    Within P n s' := by
  -- a time that the poller remembers is not that of the file now if it was not before
  have hkeeps : ∀ current, (∀ t, current = some t → s.remembers t) →
      s.file_mtime ≠ current → s'.file_mtime ≠ current := by
    intro current hremembers hne heq
    rcases htime with hsame | ⟨t, ht, hnew⟩
    · exact hne (hsame.symm.trans heq)
    · exact hnew (hremembers t (heq.symm.trans ht))
  unfold Within at h ⊢
  rw [hphase, hcache, hlast]
  cases hp : s.phase with
  | starting => simp [hp] at h
  | loaded => simp [hp] at h
  | spawned => simp [hp] at h
  | idle =>
    simp only [hp] at h
    exact h.imp_right fun hn => ⟨hn.1, hkeeps _ (fun t ht => .inl ht) hn.2⟩
  | reloading current =>
    simp only [hp] at h
    exact h
  | storing current routes =>
    simp only [hp] at h
    refine h.imp_right fun hn => ⟨hn.1, hkeeps _ (fun t ht => .inr ?_) hn.2⟩
    rw [hp]
    exact ht
  | marking current =>
    simp only [hp] at h
    refine h.imp_right fun hn => ⟨hn.1, hkeeps _ (fun t ht => .inr ?_) hn.2⟩
    rw [hp]
    exact ht

/-- Whatever the poller is at when a call has written the file, the rest of the
    round and the next one are enough. -/
theorem within_of_fresh {s : State} (hloop : Looping s.phase) {t : Nat}
    (ht : s.file_mtime = some t) (hnew : ¬ s.remembers t) : Within P 5 s := by
  have hne : ∀ current, (∀ u, current = some u → s.remembers u) → s.file_mtime ≠ current := by
    intro current hremembers heq
    exact hnew (hremembers t (heq.symm.trans ht))
  unfold Within
  cases hp : s.phase with
  | starting => exact hloop.1 hp
  | loaded => exact hloop.2.1 hp
  | spawned => exact hloop.2.2 hp
  | idle => exact .inr ⟨by decide, hne _ fun u hu => .inl hu⟩
  | reloading current => exact .inr (by decide)
  | storing current routes =>
    refine .inr ⟨by decide, hne _ fun u hu => .inr ?_⟩
    rw [hp]
    exact hu
  | marking current =>
    refine .inr ⟨by decide, hne _ fun u hu => .inr ?_⟩
    rw [hp]
    exact hu

/-! ### Runs -/

/-- What lets the cache get a property: it is kept up in the file, and then
    every load has it. -/
structure Upheld (guard : State → Action → State → Prop) (K : State → Prop)
    (P : List RouteMapping → Prop) : Prop where
  step : ∀ s a s', K s → step s a = some s' → guard s a s' → K s'
  load : ∀ s, K s → P s.on_disk

/-- One step of a run. -/
theorem Within.step {s s' : State} {a : Action} {n : Nat} (h : Within P n s) (htimed : Timed s)
    (hload : P s.on_disk) (hstep : step s a = some s') :
    Within P (n - daemon_steps [a]) s' := by
  cases a with
  | daemon =>
    cases hstep
    exact h.daemon hload
  | call os call t =>
    obtain ⟨hnew, rfl⟩ := step_call hstep
    refine h.of_file_mtime rfl rfl rfl ?_
    rcases file_mtime_call s os call t (t :: s.used) with heq | heq
    · exact .inr ⟨t, heq, fun hremembers => hnew (htimed.remembered t hremembers)⟩
    · exact .inl heq
  | start pid =>
    cases hstep
    exact h.of_file_mtime rfl rfl rfl (.inl rfl)
  | exit pid =>
    cases hstep
    exact h.of_file_mtime rfl rfl rfl (.inl rfl)

/-- **The cache gets what the file keeps**, after five steps of the daemon. -/
theorem within_of_steps {guard : State → Action → State → Prop} {K : State → Prop}
    (hupheld : Upheld guard K P) {s s' : State} {acts : List Action}
    (hrun : system.Steps guard s acts s') (hkept : K s) (htimed : Timed s)
    (hwithin : Within P 5 s) :
    Within P (5 - daemon_steps acts) s' := by
  have hall : K s' ∧ Timed s' ∧ Within P (5 - daemon_steps acts) s' := by
    refine hrun.trace_invariant
      (I := fun acts s' => K s' ∧ Timed s' ∧ Within P (5 - daemon_steps acts) s')
      ⟨hkept, htimed, hwithin⟩ ?_
    rintro acts s₁ a s₂ ⟨hkept, htimed, hwithin⟩ hstep hguard
    refine ⟨hupheld.step _ _ _ hkept hstep hguard, htimed.step hstep, ?_⟩
    have hnext := hwithin.step htimed (hupheld.load _ hkept) hstep
    rwa [daemon_steps, List.countP_append, ← Nat.sub_sub]
  exact hall.2.2

/-- A call that has written the file: what the poller has to do is done within
    the rest of the round and the next one. -/
theorem cache_of_call {guard : State → Action → State → Prop} {K : State → Prop}
    (hupheld : Upheld guard K P) {before s s' : State} {os : Os} {call : Call} {t : Nat}
    {acts : List Action} (htimed : Timed before) (hloop : Looping before.phase)
    (hcall : step before (.call os call t) = some s) (hfile : s.file ≠ .absent)
    (hkept : K s) (hrun : system.Steps guard s acts s') (hsteps : 5 ≤ daemon_steps acts) :
    P s'.cache := by
  have htimed' := htimed.step hcall
  obtain ⟨hnew, rfl⟩ := step_call hcall
  have hfresh : Within P 5 { before with
      file := (run os call before.file).2, mtime := t, used := t :: before.used } := by
    refine within_of_fresh hloop (t := t) ?_ fun hremembers => hnew (htimed.remembered t hremembers)
    unfold State.file_mtime
    split
    · next habsent => exact absurd habsent hfile
    · rfl
  have hwithin := within_of_steps hupheld hrun hkept htimed' hfresh
  rw [Nat.sub_eq_zero_of_le hsteps] at hwithin
  exact hwithin.cache

/-! ### An app that is registered -/

/-- No call is about the route, every call finds its process alive and is not
    cut short while it writes, and the process does not exit. -/
def Spared (r : RouteMapping) (s : State) (a : Action) (s' : State) : Prop :=
  match a with
  | .call os call _ => Serving.Spares r s.file (os, call) s'.file
  | .exit pid => pid ≠ r.pid
  | _ => True

/-- The route is in the file, and its process alive. -/
def Stands (r : RouteMapping) (s : State) : Prop :=
  r ∈ s.file.routes ∧ Serving.counts s.is_process_alive r = true

theorem upheld_stands (r : RouteMapping) :
    Upheld (Spared r) (Stands r) (fun routes => r ∈ routes) where
  step s a s' h hstep hguard := by
    obtain ⟨hmem, hcounts⟩ := h
    cases a with
    | daemon =>
      cases hstep
      unfold Poller.daemon_step
      cases s.phase with
      | idle =>
        dsimp only
        split <;> exact ⟨hmem, hcounts⟩
      | _ => exact ⟨hmem, hcounts⟩
    | call os call t =>
      obtain ⟨-, rfl⟩ := step_call hstep
      exact ⟨Serving.mem_run hmem hguard.1 hguard.2.1 hguard.2.2, hcounts⟩
    | start pid =>
      cases hstep
      refine ⟨hmem, ?_⟩
      rw [Serving.counts_iff] at hcounts ⊢
      exact hcounts.imp_right fun halive => Bool.or_eq_true _ _ ▸ .inr halive
    | exit pid =>
      cases hstep
      refine ⟨hmem, ?_⟩
      rw [Serving.counts_iff] at hcounts ⊢
      exact hcounts.imp_right fun halive =>
        Bool.and_eq_true _ _ ▸ ⟨bne_iff_ne.mpr (Ne.symm hguard), halive⟩
  load s h := Serving.mem_cache.mpr h

/-- A poller that has loaded these routes, and has yet to store them. -/
def mid_round (loaded routes : List RouteMapping) (mtime : Nat) (used : List Nat) : State where
  file := .holds routes
  mtime := mtime
  used := used
  is_process_alive _ := true
  phase := .storing (some 1) loaded
  cache := []
  last_mtime := none

def web : Registration := .plain "web.localhost" "web" 8

/-- Five steps, and the other app exits meanwhile. -/
def rest_and_next : List Action := [.daemon, .daemon, .exit 8, .daemon, .daemon, .daemon]

/-- No other call registers a route under the pid. -/
def Unclaimed (pid : UInt32) (_ : State) (a : Action) (_ : State) : Prop :=
  match a with
  | .call _ call _ => ∀ reg, call = .add_route_with_owner reg → reg.pid ≠ pid
  | _ => True

/-- No route in the file is that of the run. -/
def Gone (template : Registration) (pid : UInt32) (routes : List RouteMapping) : Prop :=
  ∀ r ∈ routes, ¬ Session.OfSession template pid r

theorem upheld_gone (template : Registration) (pid : UInt32) :
    Upheld (Unclaimed pid) (fun s => Gone template pid s.file.routes) (Gone template pid) where
  step s a s' h hstep hguard := by
    cases a with
    | daemon =>
      cases hstep
      have hfile : (Poller.daemon_step s).file = s.file := by
        unfold Poller.daemon_step
        cases s.phase with
        | idle =>
          dsimp only
          split <;> rfl
        | _ => rfl
      rwa [hfile]
    | call os call t =>
      obtain ⟨-, rfl⟩ := step_call hstep
      intro r hr hof
      rcases Session.mem_run_cases hr with hold | ⟨reg, hadd, hpid⟩
      · exact h r hold hof
      · exact hguard reg hadd (hpid.symm.trans hof.2.2)
    | start pid =>
      cases hstep
      exact h
    | exit pid =>
      cases hstep
      exact h
  load s h r hr := h r (Serving.mem_cache.mp hr).1

/-- **An app that is removed leaves**: once the daemon has made five steps, no
    request is sent to its route. -/
theorem app_leaves {start before s s' : State} {acts₀ acts : List Action} {os : Os}
    {template : Registration} {pid : UInt32} {t : Nat} (hinit : system.init start)
    (hbefore : system.Steps System.anyStep start acts₀ before) (hloop : Looping before.phase)
    (hslashes : ¬ ['/', '/'] <:+ template.mount.path)
    (hremove : (run os (Session.removal template pid) before.file).1 = .ok ())
    (hcall : step before (.call os (Session.removal template pid) t) = some s)
    (hrun : system.Steps (Unclaimed pid) s acts s') (hsteps : 5 ≤ daemon_steps acts) :
    Gone template pid s'.cache ∧
      ∀ host path domains route, find_route host path s'.cache domains = some route →
        ¬ Session.OfSession template pid route := by
  have htimed := timed_of_steps hinit hbefore
  have hresult : run os (Session.removal template pid) before.file =
      (.ok (), (run os (Session.removal template pid) before.file).2) := Prod.ext hremove rfl
  have hwritten : s.file = (run os (Session.removal template pid) before.file).2 := by
    rw [(step_call hcall).2]
  have hgone : Gone template pid s.file.routes := by
    rw [hwritten]
    exact Session.removal_removes hslashes hresult
  have hfile : s.file ≠ .absent := by
    obtain ⟨_, _, routes, _, hholds⟩ := run_ok hresult
    rw [hwritten, hholds]
    nofun
  have hcache : Gone template pid s'.cache :=
    cache_of_call (upheld_gone template pid) htimed hloop hcall hfile hgone hrun hsteps
  exact ⟨hcache, fun host path domains route hfind => hcache route (find_route_mem hfind)⟩

/-- The shop is removed while a round is on that has loaded its route. -/
theorem app_leaves_shop :
    ∃ s' : State, Gone Serving.shop 7 s'.cache ∧
      ∀ host path domains route, find_route host path s'.cache domains = some route →
        ¬ Session.OfSession Serving.shop 7 route := by
  have hbefore : system.Steps System.anyStep (boot .absent 0 fun _ => true)
      [.daemon, .daemon, .daemon, .call .calm (.add_route_with_owner Serving.shop) 1,
        .daemon, .daemon] (mid_round [Serving.shop.stored] [Serving.shop.stored] 1 [1, 0]) :=
    .cons rfl trivial (.cons rfl trivial (.cons rfl trivial (.cons rfl trivial
      (.cons rfl trivial (.cons rfl trivial .nil)))))
  have hcall : step (mid_round [Serving.shop.stored] [Serving.shop.stored] 1 [1, 0])
      (.call .calm (Session.removal Serving.shop 7) 2) =
        some (mid_round [Serving.shop.stored] [] 2 [2, 1, 0]) := rfl
  have hrun : system.Steps (Unclaimed 7) (mid_round [Serving.shop.stored] [] 2 [2, 1, 0])
      rest_and_next _ :=
    .cons rfl trivial (.cons rfl trivial (.cons rfl trivial (.cons rfl trivial
      (.cons rfl trivial (.cons rfl trivial .nil)))))
  exact ⟨_, app_leaves ⟨.absent, 0, _, rfl⟩ hbefore ⟨nofun, nofun, nofun⟩ (by decide) (by decide)
    hcall hrun (by decide)⟩

end Nsl.Arrival
