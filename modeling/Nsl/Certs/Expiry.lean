import Nsl.Certs.Chain
import Nsl.Certs.HostFiles

/-! # How long a host certificate is served

  The resolver looks at the expiry of a certificate when it reads it from disk.
  What it has resolved once stays in memory for as long as the daemon runs, and
  is served from there without another look.

  The system is one daemon. Time passes between the calls, and other programs
  may do to the files what they like. What has been served, and when, is kept.

  - `resolve_unexpired_iff`: one call serves an expired certificate exactly when
    it finds one in memory.
  - `served_unexpired`: the runs in which no call does.
  - `served_unexpired_within_buffer`: a daemon that stops within the expiry
    buffer is such a run.
-/

open Rust Framework

namespace Nsl.Expiry

/-! ### The daemon -/

structure Served where
  hostname : Str
  time : Nat
  key : CertifiedKey
deriving DecidableEq

structure State where
  store : CertStore
  resolver : SniCertResolver
  served : List Served

inductive Action where
  | resolve (reached : Reached) (hostname : Str)
  | pass (seconds : Nat)
  /-- the files are changed by another program -/
  | change (files : Path → Option PemFile)

def step (s : State) : Action → Option State
  | .resolve reached hostname =>
    -- what is served is recorded with the time of the call
    let resolved := s.resolver.resolve_for_hostname reached s.store hostname
    some {
      store := resolved.1
      resolver := resolved.2.1
      served := s.served ++ [⟨hostname, s.store.now, resolved.2.2⟩] }
  | .pass seconds => some { s with store := { s.store with now := s.store.now + seconds } }
  | .change files => some { s with store := { s.store with files := files } }

/-- A daemon that has been started, with nothing in its cache. -/
def system : System State Action where
  init s := s.resolver.cache = [] ∧ s.served = []
  step := step

/-! ### The law -/

/-- No certificate of the chain has expired. -/
def Unexpired (now : Nat) (ck : CertifiedKey) : Prop := ∀ c ∈ ck.cert, now ≤ c.not_after

/-- A hostname for which a certificate of its own is served. -/
def HostOfItsOwn (hostname : Str) : Prop :=
  hostname ≠ "localhost".toList ∧ validate_sni_hostname hostname = true

/-- Whatever was served for a hostname had not expired by then. -/
def ServedUnexpired (s : State) : Prop :=
  ∀ e ∈ s.served, HostOfItsOwn e.hostname → Unexpired e.time e.key

/-- A certificate that has to be generated, is generated. -/
def Generated (s : State) : Action → Prop
  | .resolve reached hostname =>
    HostOfItsOwn hostname → s.resolver.cache.lookup hostname = none →
      SniCertResolver.load_host s.store hostname = none →
        (generate_host_cert reached s.store hostname).2 = true
  | _ => True

/-- The condition on one step: what the resolver has in memory for the hostname
    it is asked for, has not expired. -/
def MemoryFresh (s : State) : Action → Prop
  | .resolve _ hostname =>
    HostOfItsOwn hostname → ∀ ck, s.resolver.cache.lookup hostname = some ck →
      Unexpired s.store.now ck
  | _ => True

/-! ### One call -/

theorem HostOfItsOwn.ne_nil {hostname : Str} (h : HostOfItsOwn hostname) : hostname ≠ [] := by
  rintro rfl
  exact absurd h.2 (by decide)

theorem HostOfItsOwn.not_default {hostname : Str} (h : HostOfItsOwn hostname) :
    ¬ (hostname = [] ∨ hostname = "localhost".toList) := by
  rintro (hnil | hlocal)
  · exact h.ne_nil hnil
  · exact h.1 hlocal

/-- A generation that succeeds can be loaded. -/
theorem generate_and_load_isSome {reached : Reached} {s : CertStore} {hostname : Str}
    (hok : (generate_host_cert reached s hostname).2 = true) :
    ∃ ck, (SniCertResolver.generate_and_load reached s hostname).2 = some ck := by
  have hvalid : validate_sni_hostname hostname = true := by
    by_contra hinvalid
    unfold generate_host_cert at hok
    rw [if_pos (by simp [hinvalid])] at hok
    cases hok
  simp only [SniCertResolver.generate_and_load, hok, if_true]
  unfold generate_host_cert at hok ⊢
  simp only [hvalid, Bool.not_true, Bool.false_eq_true, if_false] at hok ⊢
  cases hload : load_ca_keypair s with
  | none => simp [hload] at hok
  | some pair =>
    simp only [hload] at hok ⊢
    rw [write_pair_ok, decide_eq_true_eq] at hok
    have hne := host_cert_path_ne_key hvalid
    rw [hok]
    simp [load_certified_key, write_pair, CertStore.exists_file, CertStore.write_cert_file,
      CertStore.write_key_file, CertStore.write, CertStore.read_key, hne.symm]

/-- What is served for a hostname that is not in memory has just been looked at
    or made. -/
theorem resolve_of_lookup_none {reached : Reached} {s : CertStore} {r : SniCertResolver}
    {hostname : Str} (hhost : HostOfItsOwn hostname) (hcache : r.cache.lookup hostname = none)
    (hgen : SniCertResolver.load_host s hostname = none →
      (generate_host_cert reached s hostname).2 = true) :
    ∀ c ∈ (r.resolve_for_hostname reached s hostname).2.2.cert,
      s.now + EXPIRY_BUFFER_DAYS * DAY < c.not_after := by
  have hserver : EXPIRY_BUFFER_DAYS * DAY < SERVER_VALIDITY_DAYS * DAY := by decide
  unfold SniCertResolver.resolve_for_hostname
  rw [if_neg hhost.not_default, if_neg (by simp [hhost.2])]
  simp only [hcache]
  cases hload : SniCertResolver.load_host s hostname with
  | some ck => exact fun c hc => (load_host_cert hload c hc).2
  | none =>
    -- the certificate is new, and valid for longer than the buffer
    obtain ⟨ck, hck⟩ := generate_and_load_isSome (hgen hload)
    cases hpair : SniCertResolver.generate_and_load reached s hostname with
    | mk s' generated =>
      rw [hpair] at hck
      obtain rfl : generated = some ck := hck
      intro c hc
      have hgenerated : (SniCertResolver.generate_and_load reached s hostname).2 = some ck := by
        rw [hpair]
      have hafter := (generate_and_load_cert hgenerated c hc).1
      omega

theorem resolve_of_lookup_some {reached : Reached} {s : CertStore} {r : SniCertResolver}
    {hostname : Str} {ck : CertifiedKey} (hhost : HostOfItsOwn hostname)
    (hcache : r.cache.lookup hostname = some ck) :
    r.resolve_for_hostname reached s hostname = (s, r, ck) := by
  unfold SniCertResolver.resolve_for_hostname
  rw [if_neg hhost.not_default, if_neg (by simp [hhost.2])]
  simp only [hcache]

/-- **One call** serves no expired certificate exactly when it finds none in
    memory. -/
theorem resolve_unexpired_iff {s : State} {reached : Reached} {hostname : Str}
    (hhost : HostOfItsOwn hostname) (hgen : Generated s (.resolve reached hostname)) :
    Unexpired s.store.now (s.resolver.resolve_for_hostname reached s.store hostname).2.2 ↔
      MemoryFresh s (.resolve reached hostname) := by
  show _ ↔ (HostOfItsOwn hostname → ∀ ck, s.resolver.cache.lookup hostname = some ck →
    Unexpired s.store.now ck)
  cases hcache : s.resolver.cache.lookup hostname with
  | some ck =>
    rw [resolve_of_lookup_some hhost hcache]
    constructor
    · rintro h _ ck' hck'
      cases hck'
      exact h
    · exact fun h => h hhost ck rfl
  | none =>
    refine iff_of_true ?_ nofun
    intro c hc
    have hlt := resolve_of_lookup_none hhost hcache (hgen hhost hcache) c hc
    omega

/-! ### Runs -/

/-- One step. -/
theorem ServedUnexpired.step {s s' : State} {a : Action} (h : ServedUnexpired s)
    (hstep : step s a = some s') (hgen : Generated s a) (hfresh : MemoryFresh s a) :
    ServedUnexpired s' := by
  cases a with
  | resolve reached hostname =>
    cases hstep
    intro e he hhost
    rcases List.mem_append.mp he with he | he
    · exact h e he hhost
    · obtain rfl := List.mem_singleton.mp he
      exact (resolve_unexpired_iff hhost hgen).mpr hfresh
  | pass seconds =>
    cases hstep
    exact h
  | change files =>
    cases hstep
    exact h

/-- **No expired certificate is served**, in every run in which generations
    succeed and no call finds an expired certificate in memory. -/
theorem served_unexpired {start s : State} {acts : List Action} (hinit : system.init start)
    (hrun : system.Steps (fun s a _ => Generated s a ∧ MemoryFresh s a) start acts s) :
    ServedUnexpired s := by
  refine hrun.invariant ?_ fun _ _ _ h hstep hg => h.step hstep hg.1 hg.2
  rw [ServedUnexpired, hinit.2]
  exact nofun

/-- What is in memory will be valid for the buffer from the start of the
    daemon. -/
structure MemoryInv (start : Nat) (s : State) : Prop where
  started : start ≤ s.store.now
  memory : ∀ e ∈ s.resolver.cache, ∀ c ∈ e.2.cert, start + EXPIRY_BUFFER_DAYS * DAY < c.not_after

theorem MemoryInv.insert {start : Nat} {s : State} {hostname : Str} {ck : CertifiedKey}
    (h : MemoryInv start s)
    (hck : ∀ c ∈ ck.cert, s.store.now + EXPIRY_BUFFER_DAYS * DAY < c.not_after) :
    ∀ e ∈ (s.resolver.insert hostname ck).cache, ∀ c ∈ e.2.cert,
      start + EXPIRY_BUFFER_DAYS * DAY < c.not_after := by
  have hstart := h.started
  unfold SniCertResolver.insert
  split
  · intro e he c hc
    rcases List.mem_cons.mp he with rfl | he
    · have hlt := hck c hc
      omega
    · exact h.memory e he c hc
  · exact h.memory

/-- The clock of the store is the one that time passes on. -/
theorem generate_and_load_now (reached : Reached) (s : CertStore) (hostname : Str) :
    (SniCertResolver.generate_and_load reached s hostname).1.now = s.now := by
  rw [generate_and_load_fst]
  unfold generate_host_cert
  split
  · rfl
  · split
    · rfl
    · exact write_pair_now

theorem MemoryInv.step {start : Nat} {s s' : State} {a : Action} (h : MemoryInv start s)
    (hstep : step s a = some s') : MemoryInv start s' := by
  have hserver : EXPIRY_BUFFER_DAYS * DAY < SERVER_VALIDITY_DAYS * DAY := by decide
  cases a with
  | resolve reached hostname =>
    cases hstep
    have hnow := generate_and_load_now reached s.store hostname
    have hstart := h.started
    -- only a certificate from disk and a new one are put into memory
    rcases resolve_cases reached s.store s.resolver hostname with heq | ⟨ck, _, heq⟩ |
      ⟨ck, hck, heq⟩ | ⟨ck, hck, heq⟩ | heq <;> rw [heq]
    · exact ⟨hstart, h.memory⟩
    · exact ⟨hstart, h.memory⟩
    · exact ⟨hstart, h.insert fun c hc => (load_host_cert hck c hc).2⟩
    · refine ⟨hstart.trans_eq hnow.symm, h.insert ?_⟩
      intro c hc
      have hafter := (generate_and_load_cert hck c hc).1
      omega
    · exact ⟨hstart.trans_eq hnow.symm, h.memory⟩
  | pass seconds =>
    cases hstep
    exact ⟨h.started.trans (Nat.le_add_right _ _), h.memory⟩
  | change files =>
    cases hstep
    exact ⟨h.started, h.memory⟩

/-- **A daemon that stops within the expiry buffer** serves no expired
    certificate. -/
theorem served_unexpired_within_buffer {start s : State} {acts : List Action}
    (hinit : system.init start)
    (hrun : system.Steps (fun s a _ => Generated s a ∧
      s.store.now ≤ start.store.now + EXPIRY_BUFFER_DAYS * DAY) start acts s) :
    ServedUnexpired s := by
  have hmemory : MemoryInv start.store.now start := by
    refine ⟨Nat.le_refl _, ?_⟩
    rw [hinit.1]
    exact nofun
  -- what is in memory outlives the buffer, and the run does not
  have hguard : system.Steps (fun s a _ => Generated s a ∧ MemoryFresh s a) start acts s := by
    refine hrun.mono_of_invariant hmemory ?_
    intro s₁ a s₂ hinv hstep hg
    refine ⟨hinv.step hstep, hg.1, ?_⟩
    cases a with
    | resolve reached hostname =>
      intro _ ck hck c hc
      obtain ⟨l₁, l₂, hsplit, _⟩ := List.lookup_eq_some_iff.mp hck
      have hmem : (hostname, ck) ∈ s₁.resolver.cache := by
        rw [hsplit]
        exact List.mem_append_right _ List.mem_cons_self
      have hlt := hinv.memory _ hmem c hc
      have hle := hg.2
      omega
    | pass seconds => trivial
    | change files => trivial
  refine hguard.invariant ?_ fun _ _ _ h hstep hg => h.step hstep hg.1 hg.2
  rw [ServedUnexpired, hinit.2]
  exact nofun

/-! ### A year in memory -/

/-- A daemon in a fresh state directory, with the server certificate loaded. -/
def fresh_daemon : State where
  store := (ensure_certs .calm Certs.empty.store).1
  resolver := (SniCertResolver.new (ensure_certs .calm Certs.empty.store).1).getD ⟨⟨[], 0⟩, []⟩
  served := []

/-- What it serves for a hostname from the first call on. -/
def app_key : CertifiedKey where
  cert := [⟨"app.localhost".toList, ["app.localhost".toList, "*.localhost".toList], 2, 0,
    SERVER_VALIDITY_DAYS * DAY⟩]
  key := 2

/-- The hostname is asked for again after a month. -/
theorem month_unexpired :
    ∃ s, s.served = [⟨"app.localhost".toList, 0, app_key⟩,
      ⟨"app.localhost".toList, 30 * DAY, app_key⟩] ∧ ServedUnexpired s := by
  obtain ⟨s, hrun, hserved⟩ : ∃ s,
      system.Steps (fun s a _ => Generated s a ∧ MemoryFresh s a) fresh_daemon
        [.resolve .cert "app.localhost".toList, .pass (30 * DAY),
          .resolve .cert "app.localhost".toList] s ∧
      s.served = [⟨"app.localhost".toList, 0, app_key⟩,
        ⟨"app.localhost".toList, 30 * DAY, app_key⟩] := by
    refine ⟨_, .cons rfl ⟨fun _ _ _ => by decide, nofun⟩ (.cons rfl ⟨trivial, trivial⟩
      (.cons rfl ⟨fun _ hnone => absurd hnone (by decide), fun _ ck hck => ?_⟩ .nil)),
      by decide⟩
    obtain rfl : ck = app_key := (Option.some.inj hck).symm
    intro c hc
    obtain rfl := List.mem_singleton.mp hc
    decide
  exact ⟨s, hserved, served_unexpired ⟨rfl, rfl⟩ hrun⟩

/-- The hostname is asked for again after a year and a day. -/
theorem expired_served :
    ∃ s, system.Steps (fun s a _ => Generated s a) fresh_daemon
      [.resolve .cert "app.localhost".toList, .pass (366 * DAY),
        .resolve .cert "app.localhost".toList] s ∧ ¬ ServedUnexpired s := by
  obtain ⟨s, hrun, hserved⟩ : ∃ s, system.Steps (fun s a _ => Generated s a) fresh_daemon
      [.resolve .cert "app.localhost".toList, .pass (366 * DAY),
        .resolve .cert "app.localhost".toList] s ∧
      ⟨"app.localhost".toList, 366 * DAY, app_key⟩ ∈ s.served :=
    ⟨_, .cons rfl (fun _ _ _ => by decide) (.cons rfl trivial
      (.cons rfl (fun _ hnone => absurd hnone (by decide)) .nil)), by decide⟩
  refine ⟨s, hrun, ?_⟩
  intro h
  have hexpired := h _ hserved ⟨by decide, by decide⟩ _ List.mem_cons_self
  exact absurd hexpired (by decide)

end Nsl.Expiry
