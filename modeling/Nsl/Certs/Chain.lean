import Nsl.Certs.Sni

/-! # Certificates and the CA on disk

  Reuse of a certificate is decided by its expiry alone. When the CA is
  regenerated the server certificate is regenerated with it, but the host
  certificates on disk stay, and a resolver serves them until they expire.

  - `chains_to_ca`: what is served is signed by the CA on disk, in every run
    whose regenerations of the CA are clean.
  - `stale_host_served`: a regeneration that leaves a valid host certificate
    behind leads to a served certificate of the lost CA.
-/

open Rust Framework

namespace Nsl

/-! ### Paths -/

theorem host_cert_path_ne {hostname : Str} {p : Path} (h : p.head? ≠ some 'h') :
    host_cert_path hostname ≠ p := by
  rintro rfl
  exact h rfl

theorem host_key_path_ne {hostname : Str} {p : Path} (h : p.head? ≠ some 'h') :
    host_key_path hostname ≠ p := by
  rintro rfl
  exact h rfl

/-! ### What a generation writes -/

section write_pair

variable {reached : Reached} {s : CertStore} {key_path cert_path p : Path} {c : Cert}

@[simp] theorem write_pair_now : (write_pair reached s key_path cert_path c).1.now = s.now := by
  cases reached <;> rfl

theorem write_pair_ok :
    (write_pair reached s key_path cert_path c).2 = decide (reached = .cert) := by
  cases reached <;> rfl

theorem read_cert_write_pair {c' : Cert}
    (h : (write_pair reached s key_path cert_path c).1.read_cert p = some c') :
    (s.read_cert p = some c' ∧ (p = cert_path → reached ≠ .cert)) ∨
      (reached = .cert ∧ p = cert_path ∧ c' = c) := by
  cases reached with
  | nothing => exact .inl ⟨h, fun _ => nofun⟩
  | key =>
    simp only [write_pair, CertStore.read_cert_write_key_file] at h
    by_cases hp : p = key_path
    · simp [hp] at h
    · rw [if_neg hp] at h
      exact .inl ⟨h, fun _ => nofun⟩
  | cert =>
    simp only [write_pair, CertStore.read_cert_write_cert_file,
      CertStore.read_cert_write_key_file] at h
    by_cases hp : p = cert_path
    · rw [if_pos hp] at h
      exact .inr ⟨rfl, hp, (Option.some.inj h).symm⟩
    · rw [if_neg hp] at h
      by_cases hk : p = key_path
      · simp [hk] at h
      · rw [if_neg hk] at h
        exact .inl ⟨h, fun hp' => absurd hp' hp⟩

theorem read_key_write_pair {k : Key}
    (h : (write_pair reached s key_path cert_path c).1.read_key p = some k) :
    (s.read_key p = some k ∧ (p = key_path → reached = .nothing)) ∨
      (p = key_path ∧ k = c.key) := by
  have hwritten : (s.write_key_file key_path c.key).read_key p = some k →
      (s.read_key p = some k ∧ p ≠ key_path) ∨ (p = key_path ∧ k = c.key) := by
    intro h
    rw [CertStore.read_key_write_key_file] at h
    by_cases hp : p = key_path
    · rw [if_pos hp] at h
      exact .inr ⟨hp, (Option.some.inj h).symm⟩
    · rw [if_neg hp] at h
      exact .inl ⟨h, hp⟩
  cases reached with
  | nothing => exact .inl ⟨h, fun _ => rfl⟩
  | key =>
    simp only [write_pair] at h
    exact (hwritten h).imp_left fun ⟨hread, hp⟩ => ⟨hread, fun hp' => absurd hp' hp⟩
  | cert =>
    simp only [write_pair, CertStore.read_key_write_cert_file] at h
    by_cases hc : p = cert_path
    · simp [hc] at h
    rw [if_neg hc] at h
    exact (hwritten h).imp_left fun ⟨hread, hp⟩ => ⟨hread, fun hp' => absurd hp' hp⟩

end write_pair

/-- The outcomes of a call to `ensure_certs`. -/
theorem ensure_certs_cases (os : EnsureOs) (s : CertStore) :
    (os.dir_created = false ∧ ensure_certs os s = (s, false)) ∨
    (ca_outdated s = false ∧ server_outdated s = false ∧ ensure_certs os s = (s, true)) ∨
    (ca_outdated s = false ∧ server_outdated s = true ∧
      ensure_certs os s = generate_server_cert os.server s) ∨
    (os.dir_created = true ∧ ca_outdated s = true ∧ os.ca ≠ .cert ∧
      ensure_certs os s = ((generate_ca os.ca s).1, false)) ∨
    (os.dir_created = true ∧ ca_outdated s = true ∧ os.ca = .cert ∧
      ensure_certs os s = generate_server_cert os.server (generate_ca .cert s).1) := by
  unfold ensure_certs
  by_cases hdir : os.dir_created = true
  · by_cases hca : ca_outdated s = true
    · have hok : (generate_ca os.ca s).2 = decide (os.ca = .cert) := write_pair_ok
      by_cases hcert : os.ca = .cert
      · rw [hcert] at hok
        simp [hdir, hca, hcert, hok]
      · simp [hdir, hca, hok, hcert]
    · simp only [hdir, Bool.not_true, Bool.false_eq_true, if_false, hca, Bool.false_or]
      by_cases hserver : server_outdated s = true
      · simp [hserver]
      · simp [hserver]
  · simp [hdir]

/-! ### The invariant -/

/-- The certificate is signed by the CA on disk, if there is one. -/
def Chains (s : CertStore) (c : Cert) : Prop :=
  ∀ ca, s.read_cert CA_CERT_FILE = some ca → c.issuer = ca.key

/-- A CA certificate on disk was there before. -/
def CaKept (s s' : CertStore) : Prop :=
  ∀ ca, s'.read_cert CA_CERT_FILE = some ca → s.read_cert CA_CERT_FILE = some ca

theorem CaKept.refl (s : CertStore) : CaKept s s := fun _ h => h

theorem Chains.kept {s s' : CertStore} {c : Cert} (h : Chains s c) (hkept : CaKept s s') :
    Chains s' c :=
  fun ca hca => h ca (hkept ca hca)

/-- The CA key belongs to the CA certificate, and has signed the host
    certificates that are still valid. -/
structure CaInv (s : CertStore) : Prop where
  ca_pair : ∀ k ca, s.read_key CA_KEY_FILE = some k → s.read_cert CA_CERT_FILE = some ca →
    k = ca.key
  hosts : ∀ hostname c, s.read_cert (host_cert_path hostname) = some c → c.valid_at s.now →
    Chains s c

/-- The CA has also signed the server certificate, which only a successful call
    to `ensure_certs` leaves behind. -/
structure StoreInv (ensured : Nat) (s : CertStore) : Prop extends CaInv s where
  server : ∀ c, s.read_cert SERVER_CERT_FILE = some c → 0 < ensured ∧ Chains s c

/-- What a resolver can serve without reading the disk. -/
structure ResolverInv (s : CertStore) (r : SniCertResolver) : Prop where
  default_key : ∀ c ∈ r.default_key.cert, Chains s c
  cache : ∀ e ∈ r.cache, ∀ c ∈ e.2.cert, Chains s c

theorem ResolverInv.kept {s s' : CertStore} {r : SniCertResolver} (h : ResolverInv s r)
    (hkept : CaKept s s') : ResolverInv s' r where
  default_key c hc := (h.default_key c hc).kept hkept
  cache e he c hc := (h.cache e he c hc).kept hkept

/-! ### Generating -/

theorem load_ca_keypair_some {s : CertStore} {ca : Cert} {k : Key}
    (h : load_ca_keypair s = some (ca, k)) :
    s.read_key CA_KEY_FILE = some k ∧ s.read_cert CA_CERT_FILE = some ca := by
  unfold load_ca_keypair at h
  split at h
  · next hk hc =>
    cases h
    exact ⟨hk, hc⟩
  · cases h

/-- What the CA key signs, chains to the CA certificate. -/
theorem CaInv.chains {s : CertStore} {ca : Cert} {k : Key} (hinv : CaInv s)
    (h : load_ca_keypair s = some (ca, k)) {c : Cert} (hc : c.issuer = k) : Chains s c := by
  obtain ⟨hkey, _⟩ := load_ca_keypair_some h
  intro ca' hca'
  rw [hc]
  exact hinv.ca_pair k ca' hkey hca'

/-- A generation outside the files of the CA keeps the CA. -/
theorem caKept_write_pair {reached : Reached} {s : CertStore} {key_path cert_path : Path}
    {c : Cert} (hcert : cert_path ≠ CA_CERT_FILE) :
    CaKept s (write_pair reached s key_path cert_path c).1 := by
  intro ca hca
  rcases read_cert_write_pair hca with ⟨hold, _⟩ | ⟨_, hpath, _⟩
  · exact hold
  · exact absurd hpath.symm hcert

/-- A certificate signed by the CA, written outside the files of the CA. -/
theorem CaInv.write_pair {reached : Reached} {s : CertStore} {key_path cert_path : Path}
    {c : Cert} (hinv : CaInv s) (hkey : key_path ≠ CA_KEY_FILE) (hcert : cert_path ≠ CA_CERT_FILE)
    (hc : Chains s c) : CaInv (write_pair reached s key_path cert_path c).1 where
  ca_pair k ca hk hca := by
    have hca' := caKept_write_pair hcert ca hca
    rcases read_key_write_pair hk with ⟨hold, _⟩ | ⟨hpath, _⟩
    · exact hinv.ca_pair k ca hold hca'
    · exact absurd hpath.symm hkey
  hosts hostname c' hc' hvalid := by
    refine Chains.kept ?_ (caKept_write_pair hcert)
    rw [write_pair_now] at hvalid
    rcases read_cert_write_pair hc' with ⟨hold, _⟩ | ⟨_, _, rfl⟩
    · exact hinv.hosts hostname c' hold hvalid
    · exact hc

/-- Generating the server certificate. The one on disk before has to be good,
    unless it is replaced. -/
theorem CaInv.generate_server_cert {reached : Reached} {s : CertStore} {n : Nat} (hinv : CaInv s)
    (hserver : ∀ c, s.read_cert SERVER_CERT_FILE = some c →
      reached ≠ .cert ∨ load_ca_keypair s = none → 0 < n ∧ Chains s c) :
    StoreInv (n + (generate_server_cert reached s).2.toNat) (generate_server_cert reached s).1 ∧
      CaKept s (generate_server_cert reached s).1 := by
  unfold Nsl.generate_server_cert
  cases hload : load_ca_keypair s with
  | none => exact ⟨{ hinv with server := fun c hc => hserver c hc (.inr hload) }, .refl s⟩
  | some pair =>
    obtain ⟨ca, ca_key⟩ := pair
    dsimp only
    have hne : SERVER_CERT_FILE ≠ CA_CERT_FILE := by decide
    refine ⟨{ hinv.write_pair (by decide) hne (hinv.chains hload rfl) with server := ?_ },
      caKept_write_pair hne⟩
    intro c hc
    rw [write_pair_ok]
    rcases read_cert_write_pair hc with ⟨hold, hreached⟩ | ⟨hreached, _, rfl⟩
    · -- the old certificate is still there
      obtain ⟨hpos, hchains⟩ := hserver c hold (.inl (hreached rfl))
      exact ⟨by omega, hchains.kept (caKept_write_pair hne)⟩
    · rw [hreached]
      exact ⟨Nat.succ_pos n, (hinv.chains hload rfl).kept (caKept_write_pair hne)⟩

/-- Generating a host certificate. -/
theorem StoreInv.generate_host_cert {s : CertStore} {n : Nat} (hinv : StoreInv n s)
    (reached : Reached) (hostname : Str) :
    StoreInv n (generate_host_cert reached s hostname).1 ∧
      CaKept s (generate_host_cert reached s hostname).1 := by
  unfold Nsl.generate_host_cert
  by_cases hvalid : validate_sni_hostname hostname = true
  swap
  · simp only [hvalid, Bool.not_false, if_true]
    exact ⟨hinv, .refl s⟩
  simp only [hvalid, Bool.not_true, Bool.false_eq_true, if_false]
  cases hload : load_ca_keypair s with
  | none => exact ⟨hinv, .refl s⟩
  | some pair =>
    obtain ⟨ca, ca_key⟩ := pair
    have hne : host_cert_path hostname ≠ CA_CERT_FILE := host_cert_path_ne (by decide)
    refine ⟨{ hinv.write_pair (host_key_path_ne (by decide)) hne
      (hinv.chains hload rfl) with server := ?_ }, caKept_write_pair hne⟩
    intro c hc
    rcases read_cert_write_pair hc with ⟨hold, _⟩ | ⟨_, hpath, _⟩
    · obtain ⟨hpos, hchains⟩ := hinv.server c hold
      exact ⟨hpos, hchains.kept (caKept_write_pair hne)⟩
    · exact absurd hpath.symm (host_cert_path_ne (by decide))

/-- Losing files and passing time keep what is there. -/
theorem StoreInv.of_reads {s s' : CertStore} {n : Nat} (hinv : StoreInv n s)
    (hkey : ∀ k ca, s'.read_key CA_KEY_FILE = some k → s'.read_cert CA_CERT_FILE = some ca →
      s.read_key CA_KEY_FILE = some k)
    (hcert : ∀ p c, s'.read_cert p = some c → s.read_cert p = some c) (hnow : s.now ≤ s'.now) :
    StoreInv n s' ∧ CaKept s s' := by
  have hkept : CaKept s s' := fun ca hca => hcert _ ca hca
  refine ⟨⟨⟨?_, ?_⟩, ?_⟩, hkept⟩
  · intro k ca hk hca
    exact hinv.ca_pair k ca (hkey k ca hk hca) (hkept ca hca)
  · intro hostname c hc hvalid
    exact (hinv.hosts hostname c (hcert _ c hc) (hvalid.earlier hnow)).kept hkept
  · intro c hc
    obtain ⟨hpos, hchains⟩ := hinv.server c (hcert _ c hc)
    exact ⟨hpos, hchains.kept hkept⟩

theorem StoreInv.remove {s : CertStore} {n : Nat} {p : Path} (hinv : StoreInv n s) :
    StoreInv n (s.remove p) ∧ CaKept s (s.remove p) := by
  refine hinv.of_reads ?_ ?_ (Nat.le_refl _)
  · intro k _ hk _
    rw [CertStore.read_key_remove] at hk
    split at hk
    · cases hk
    · exact hk
  · intro q c hc
    rw [CertStore.read_cert_remove] at hc
    split at hc
    · cases hc
    · exact hc

/-! ### Clean regenerations -/

/-- A step that does not leave certificates of a lost CA behind: no step
    writes a new CA key next to an old CA certificate, and when a new CA is in
    place, no host certificate on disk is still valid, and the new server
    certificate follows (or no call has succeeded before, so there is no old
    one). -/
def CleanRegeneration (s : Certs.State) (a : Certs.Action) (_ : Certs.State) : Prop :=
  match a with
  | .ensure_certs os =>
    os.dir_created = true → ca_outdated s.store = true →
      match os.ca with
      | .nothing => True
      | .key => s.store.read_cert CA_CERT_FILE = none
      | .cert =>
        (∀ hostname c, s.store.read_cert (host_cert_path hostname) = some c →
          ¬ c.valid_at s.store.now) ∧ (os.server = .cert ∨ s.ensured = 0)
  | _ => True

/-- A new CA, before the server certificate is generated. -/
theorem CaInv.generate_ca {s : CertStore}
    (hhosts : ∀ hostname c, s.read_cert (host_cert_path hostname) = some c → ¬ c.valid_at s.now) :
    CaInv (generate_ca .cert s).1 where
  ca_pair k ca hk hca := by
    rcases read_key_write_pair hk with ⟨_, hreached⟩ | ⟨_, rfl⟩
    · cases hreached rfl
    rcases read_cert_write_pair hca with ⟨_, hreached⟩ | ⟨_, _, rfl⟩
    · exact absurd rfl (hreached rfl)
    · rfl
  hosts hostname c hc hvalid := by
    rcases read_cert_write_pair hc with ⟨hold, _⟩ | ⟨_, hpath, _⟩
    · exact absurd hvalid (hhosts hostname c hold)
    · exact absurd hpath (host_cert_path_ne (by decide))

/-- A CA generation that stops before its certificate is written. -/
theorem StoreInv.generate_ca_stopped {reached : Reached} {s : CertStore} {n : Nat}
    (hinv : StoreInv n s) (hreached : reached ≠ .cert)
    (hkey : reached = .key → s.read_cert CA_CERT_FILE = none) :
    StoreInv n (generate_ca reached s).1 ∧ CaKept s (generate_ca reached s).1 := by
  have hcert : ∀ p c, (generate_ca reached s).1.read_cert p = some c → s.read_cert p = some c := by
    intro p c hc
    rcases read_cert_write_pair hc with ⟨hold, _⟩ | ⟨heq, _⟩
    · exact hold
    · exact absurd heq hreached
  refine hinv.of_reads ?_ hcert (Nat.le_of_eq write_pair_now.symm)
  intro k ca hk hca
  cases reached with
  | nothing => exact hk
  | key =>
    -- next to the new key there is no certificate
    have hnone := hkey rfl
    rw [hcert _ ca hca] at hnone
    cases hnone
  | cert => exact absurd rfl hreached

/-- A new CA can sign. -/
theorem load_ca_keypair_generate_ca (s : CertStore) :
    ∃ ca, load_ca_keypair (generate_ca .cert s).1 = some (ca, s.next_key) ∧ ca.key = s.next_key :=
  ⟨_, rfl, rfl⟩

theorem StoreInv.ensure_certs {os : EnsureOs} {s s' : Certs.State}
    (hinv : StoreInv s.ensured s.store) (hclean : CleanRegeneration s (.ensure_certs os) s') :
    StoreInv (s.ensured + (ensure_certs os s.store).2.toNat) (ensure_certs os s.store).1 ∧
      ((ensure_certs os s.store).2 = true ∨ s.ensured = 0 ∨
        CaKept s.store (ensure_certs os s.store).1) := by
  rcases ensure_certs_cases os s.store with ⟨_, heq⟩ | ⟨_, _, heq⟩ | ⟨_, _, heq⟩ |
    ⟨hdir, hca, hreached, heq⟩ | ⟨hdir, hca, hreached, heq⟩ <;> rw [heq]
  · exact ⟨hinv, .inr (.inr (.refl _))⟩
  · refine ⟨{ hinv with server := fun c hc => ⟨Nat.succ_pos _, (hinv.server c hc).2⟩ }, .inl rfl⟩
  · -- the CA stays, and signs the new server certificate
    obtain ⟨hstore, hkept⟩ := hinv.generate_server_cert fun c hc _ => hinv.server c hc
    exact ⟨hstore, .inr (.inr hkept)⟩
  · -- the generation of the CA stops
    have hclean := hclean hdir hca
    obtain ⟨hstore, hkept⟩ := hinv.generate_ca_stopped hreached fun hkey => by
      rw [hkey] at hclean
      exact hclean
    exact ⟨hstore, .inr (.inr hkept)⟩
  · -- a new CA is in place
    have hclean := hclean hdir hca
    rw [hreached] at hclean
    obtain ⟨hhosts, hserver⟩ := hclean
    obtain ⟨ca, hload, _⟩ := load_ca_keypair_generate_ca s.store
    refine ⟨((CaInv.generate_ca hhosts).generate_server_cert ?_).1, ?_⟩
    · intro c hc hold
      rcases read_cert_write_pair hc with ⟨hc, _⟩ | ⟨_, hpath, _⟩
      · -- an old server certificate is replaced, as some call has succeeded
        have hpos := (hinv.server c hc).1
        rcases hserver with hserver | hserver
        · rcases hold with hold | hold
          · exact absurd hserver hold
          · rw [hload] at hold
            cases hold
        · omega
      · exact absurd hpath (by decide)
    · rcases hserver with hserver | hserver
      · left
        rw [hserver, generate_server_cert, hload]
        exact write_pair_ok
      · exact .inr (.inl hserver)

/-! ### Runs -/

/-- What a fresh resolver serves chains to the CA on disk. A resolver is fresh
    when no call to `ensure_certs` has succeeded since it was built, and one
    had before. -/
structure CertsInv (s : Certs.State) : Prop where
  store : StoreInv s.ensured s.store
  built : ∀ e ∈ s.resolvers, e.1 ≤ s.ensured
  fresh : ∀ e ∈ s.resolvers, e.1 = s.ensured → 0 < s.ensured → ResolverInv s.store e.2

/-- What is loaded is the certificate on disk, and still valid. -/
theorem load_host_cert {s : CertStore} {hostname : Str} {ck : CertifiedKey}
    (h : SniCertResolver.load_host s hostname = some ck) :
    ∀ c ∈ ck.cert, s.read_cert (host_cert_path hostname) = some c ∧ c.valid_at s.now := by
  unfold SniCertResolver.load_host at h
  split at h
  · next hvalid =>
    simp only [Bool.and_eq_true, is_cert_valid_iff] at hvalid
    obtain ⟨_, c, hc, hvalid⟩ := hvalid
    unfold load_certified_key at h
    split at h
    · obtain ⟨k, _, rfl⟩ := Option.map_eq_some_iff.mp h
      intro c' hc'
      rw [hc, Option.toList_some, List.mem_singleton] at hc'
      rw [hc']
      exact ⟨hc, hvalid⟩
    · cases h
  · cases h

theorem load_host_chains {s : CertStore} {n : Nat} {hostname : Str} {ck : CertifiedKey}
    (hinv : StoreInv n s) (h : SniCertResolver.load_host s hostname = some ck) :
    ∀ c ∈ ck.cert, Chains s c := by
  intro c hc
  obtain ⟨hread, hvalid⟩ := load_host_cert h c hc
  exact hinv.hosts hostname c hread hvalid

theorem generate_and_load_fst (reached : Reached) (s : CertStore) (hostname : Str) :
    (SniCertResolver.generate_and_load reached s hostname).1 =
      (generate_host_cert reached s hostname).1 := by
  unfold SniCertResolver.generate_and_load
  by_cases hok : (generate_host_cert reached s hostname).2 = true <;> simp [hok]

/-- What is loaded after a generation is the certificate that has just been
    written. -/
theorem generate_and_load_cert {reached : Reached} {s : CertStore} {hostname : Str}
    {ck : CertifiedKey} (h : (SniCertResolver.generate_and_load reached s hostname).2 = some ck) :
    ∀ c ∈ ck.cert, c.not_after = s.now + SERVER_VALIDITY_DAYS * DAY ∧
      ∃ ca, load_ca_keypair s = some (ca, c.issuer) := by
  unfold SniCertResolver.generate_and_load at h
  by_cases hok : (generate_host_cert reached s hostname).2 = true
  swap
  · simp [hok] at h
  simp only [hok, if_true] at h
  intro c hc
  have hread : (generate_host_cert reached s hostname).1.read_cert (host_cert_path hostname) =
      some c := by
    unfold load_certified_key at h
    split at h
    · obtain ⟨k, _, rfl⟩ := Option.map_eq_some_iff.mp h
      exact Option.mem_toList.mp hc
    · cases h
  unfold generate_host_cert at hok hread
  by_cases hvalid : validate_sni_hostname hostname = true
  swap
  · simp [hvalid] at hok
  simp only [hvalid, Bool.not_true, Bool.false_eq_true, if_false] at hok hread
  cases hload : load_ca_keypair s with
  | none => simp [hload] at hok
  | some pair =>
    obtain ⟨ca, ca_key⟩ := pair
    simp only [hload] at hok hread
    rw [write_pair_ok, decide_eq_true_eq] at hok
    rcases read_cert_write_pair hread with ⟨_, hreached⟩ | ⟨_, _, rfl⟩
    · exact absurd hok (hreached rfl)
    · exact ⟨rfl, ca, rfl⟩

theorem generate_and_load_chains {reached : Reached} {s : CertStore} {n : Nat} {hostname : Str}
    {ck : CertifiedKey} (hinv : StoreInv n s)
    (h : (SniCertResolver.generate_and_load reached s hostname).2 = some ck) :
    ∀ c ∈ ck.cert, Chains (SniCertResolver.generate_and_load reached s hostname).1 c := by
  intro c hc
  obtain ⟨_, ca, hload⟩ := generate_and_load_cert h c hc
  rw [generate_and_load_fst]
  exact (hinv.chains hload rfl).kept (hinv.generate_host_cert reached hostname).2

theorem ResolverInv.insert {s : CertStore} {r : SniCertResolver} {hostname : Str}
    {ck : CertifiedKey} (h : ResolverInv s r) (hck : ∀ c ∈ ck.cert, Chains s c) :
    ResolverInv s (r.insert hostname ck) := by
  unfold SniCertResolver.insert
  split
  · refine ⟨h.default_key, ?_⟩
    intro e he
    rcases List.mem_cons.mp he with rfl | he
    · exact hck
    · exact h.cache e he
  · exact h

/-- Where a resolved key can come from: the default, the cache, the disk, or a
    generation, which may also fail. -/
theorem resolve_cases (reached : Reached) (s : CertStore) (r : SniCertResolver) (hostname : Str) :
    r.resolve_for_hostname reached s hostname = (s, r, r.default_key) ∨
    (∃ ck, (hostname, ck) ∈ r.cache ∧ r.resolve_for_hostname reached s hostname = (s, r, ck)) ∨
    (∃ ck, SniCertResolver.load_host s hostname = some ck ∧
      r.resolve_for_hostname reached s hostname = (s, r.insert hostname ck, ck)) ∨
    (∃ ck, (SniCertResolver.generate_and_load reached s hostname).2 = some ck ∧
      r.resolve_for_hostname reached s hostname =
        ((SniCertResolver.generate_and_load reached s hostname).1, r.insert hostname ck, ck)) ∨
    r.resolve_for_hostname reached s hostname =
      ((SniCertResolver.generate_and_load reached s hostname).1, r, r.default_key) := by
  unfold SniCertResolver.resolve_for_hostname
  by_cases hdefault : hostname = [] ∨ hostname = "localhost".toList
  · exact .inl (if_pos hdefault)
  rw [if_neg hdefault]
  by_cases hvalid : validate_sni_hostname hostname = true
  swap
  · exact .inl (by simp [hvalid])
  simp only [hvalid, Bool.not_true, Bool.false_eq_true, if_false]
  cases hcache : r.cache.lookup hostname with
  | some ck =>
    refine .inr (.inl ⟨ck, ?_, rfl⟩)
    obtain ⟨l₁, l₂, hsplit, _⟩ := List.lookup_eq_some_iff.mp hcache
    rw [hsplit]
    exact List.mem_append_right _ List.mem_cons_self
  | none =>
    cases hload : SniCertResolver.load_host s hostname with
    | some ck => exact .inr (.inr (.inl ⟨ck, rfl, rfl⟩))
    | none =>
      cases hgen : SniCertResolver.generate_and_load reached s hostname with
      | mk s' generated =>
        cases generated with
        | some ck => exact .inr (.inr (.inr (.inl ⟨ck, rfl, rfl⟩)))
        | none => exact .inr (.inr (.inr (.inr rfl)))

/-- Resolving a hostname keeps the store, whatever the resolver. -/
theorem StoreInv.resolve {s : CertStore} {n : Nat} (hinv : StoreInv n s) (reached : Reached)
    (r : SniCertResolver) (hostname : Str) :
    StoreInv n (r.resolve_for_hostname reached s hostname).1 ∧
      CaKept s (r.resolve_for_hostname reached s hostname).1 := by
  have hgenerated := hinv.generate_host_cert reached hostname
  rw [← generate_and_load_fst] at hgenerated
  rcases resolve_cases reached s r hostname with heq | ⟨_, _, heq⟩ | ⟨_, _, heq⟩ | ⟨_, _, heq⟩ |
    heq <;> rw [heq]
  · exact ⟨hinv, .refl s⟩
  · exact ⟨hinv, .refl s⟩
  · exact ⟨hinv, .refl s⟩
  · exact hgenerated
  · exact hgenerated

/-- Resolving a hostname with a good resolver gives a good key, and keeps the
    resolver good. -/
theorem ResolverInv.resolve {reached : Reached} {s : CertStore} {n : Nat} {r : SniCertResolver}
    {hostname : Str} (hstore : StoreInv n s) (hr : ResolverInv s r) :
    ResolverInv (r.resolve_for_hostname reached s hostname).1
        (r.resolve_for_hostname reached s hostname).2.1 ∧
      ∀ c ∈ (r.resolve_for_hostname reached s hostname).2.2.cert,
        Chains (r.resolve_for_hostname reached s hostname).1 c := by
  have hkept := (hstore.generate_host_cert reached hostname).2
  rw [← generate_and_load_fst] at hkept
  rcases resolve_cases reached s r hostname with heq | ⟨ck, hck, heq⟩ | ⟨ck, hck, heq⟩ |
    ⟨ck, hck, heq⟩ | heq <;> rw [heq]
  · exact ⟨hr, hr.default_key⟩
  · exact ⟨hr, hr.cache _ hck⟩
  · have hchains := load_host_chains hstore hck
    exact ⟨hr.insert hchains, hchains⟩
  · have hchains := generate_and_load_chains hstore hck
    exact ⟨(hr.kept hkept).insert hchains, hchains⟩
  · exact ⟨hr.kept hkept, (hr.kept hkept).default_key⟩

theorem certsInv_empty : CertsInv Certs.empty where
  store := { ca_pair := nofun, hosts := nofun, server := nofun }
  built := nofun
  fresh := nofun

theorem ResolverInv.new {s : CertStore} {n : Nat} {r : SniCertResolver} (hinv : StoreInv n s)
    (h : SniCertResolver.new s = some r) : ResolverInv s r := by
  obtain ⟨ck, hck, rfl⟩ := Option.map_eq_some_iff.mp h
  refine ⟨?_, nofun⟩
  intro c hc
  unfold load_certified_key at hck
  split at hck
  · obtain ⟨k, _, rfl⟩ := Option.map_eq_some_iff.mp hck
    exact (hinv.server c (Option.mem_toList.mp hc)).2
  · cases hck

/-- One step, one case per action. -/
theorem CertsInv.step {s s' : Certs.State} {a : Certs.Action} (hinv : CertsInv s)
    (hstep : Certs.step s a = some s') (hclean : CleanRegeneration s a s') : CertsInv s' := by
  -- a step that keeps the CA, the resolvers and the count of successful calls
  have hframe : ∀ store, StoreInv s.ensured store → CaKept s.store store →
      CertsInv { s with store := store } := fun store hstore hkept =>
    ⟨hstore, hinv.built, fun e he hfresh hpos => (hinv.fresh e he hfresh hpos).kept hkept⟩
  cases a with
  | ensure_certs os =>
    obtain ⟨hstore, hkept⟩ := hinv.store.ensure_certs hclean
    cases hstep
    refine ⟨hstore, fun e he => Nat.le_trans (hinv.built e he) (Nat.le_add_right _ _), ?_⟩
    intro e he hfresh hpos
    have hbuilt := hinv.built e he
    dsimp only at hfresh hpos
    by_cases hok : (Nsl.ensure_certs os s.store).2 = true
    · -- every resolver was built before this call
      rw [hok, Bool.toNat_true] at hfresh
      omega
    · rw [Bool.eq_false_iff.mpr hok, Bool.toNat_false, Nat.add_zero] at hfresh hpos
      rcases hkept with hok' | hzero | hkept
      · exact absurd hok' hok
      · omega
      · exact (hinv.fresh e he hfresh hpos).kept hkept
  | new =>
    obtain ⟨r, hr, rfl⟩ := Option.map_eq_some_iff.mp hstep
    refine ⟨hinv.store, ?_, ?_⟩
    · intro e he
      rcases List.mem_append.mp he with he | he
      · exact hinv.built e he
      · rw [List.mem_singleton.mp he]
    · intro e he hfresh hpos
      rcases List.mem_append.mp he with he | he
      · exact hinv.fresh e he hfresh hpos
      · rw [List.mem_singleton.mp he]
        exact .new hinv.store hr
  | resolve i reached hostname =>
    obtain ⟨⟨n, r⟩, hr, rfl⟩ := Option.map_eq_some_iff.mp hstep
    have hmem := List.mem_of_getElem? hr
    obtain ⟨hstore, hkept⟩ := hinv.store.resolve reached r hostname
    refine ⟨hstore, ?_, ?_⟩
    · intro e he
      rcases List.mem_or_eq_of_mem_set he with he | rfl
      · exact hinv.built e he
      · exact hinv.built (n, r) hmem
    · intro e he hfresh hpos
      rcases List.mem_or_eq_of_mem_set he with he | rfl
      · exact (hinv.fresh e he hfresh hpos).kept hkept
      · -- the resolver that was asked, with what it has put into its cache
        exact (ResolverInv.resolve hinv.store (hinv.fresh _ hmem hfresh hpos)).1
  | lose_ca_key =>
    cases hstep
    exact hframe _ hinv.store.remove.1 hinv.store.remove.2
  | lose_ca_cert =>
    cases hstep
    exact hframe _ hinv.store.remove.1 hinv.store.remove.2
  | pass seconds =>
    cases hstep
    have hpass : StoreInv s.ensured { s.store with now := s.store.now + seconds } ∧
        CaKept s.store { s.store with now := s.store.now + seconds } :=
      hinv.store.of_reads (fun _ _ h _ => h) (fun _ _ h => h) (Nat.le_add_right _ _)
    exact hframe _ hpass.1 hpass.2

/-- The property claimed of every run: whatever a fresh resolver returns for
    any hostname was signed by the CA on disk. -/
def ChainsToCa (s : Certs.State) : Prop :=
  ∀ n r, (n, r) ∈ s.resolvers → n = s.ensured → 0 < s.ensured → ∀ reached hostname,
    ∀ c ∈ (r.resolve_for_hostname reached s.store hostname).2.2.cert,
      Chains (r.resolve_for_hostname reached s.store hostname).1 c

/-- **Served certificates chain to the CA on disk**, in every run whose
    regenerations of the CA are clean. -/
theorem chains_to_ca {acts : List Certs.Action} {s : Certs.State}
    (hrun : Certs.system.Steps CleanRegeneration Certs.empty acts s) : ChainsToCa s := by
  have hinv : CertsInv s :=
    hrun.invariant certsInv_empty fun _ _ _ h hstep hclean => h.step hstep hclean
  intro n r hr hfresh hpos reached hostname
  exact (ResolverInv.resolve hinv.store (hinv.fresh (n, r) hr hfresh hpos)).2

/-! ### Certificates of a lost CA -/

/-- A valid pair of files is loaded. -/
theorem load_host_of_read {s : CertStore} {hostname : Str} {c : Cert} {k : Key}
    (hcert : s.read_cert (host_cert_path hostname) = some c)
    (hkey : s.read_key (host_key_path hostname) = some k) (hvalid : c.valid_at s.now) :
    SniCertResolver.load_host s hostname = some ⟨[c], k⟩ := by
  have hcert_file := s.exists_file_of_read_cert hcert
  have hkey_file := s.exists_file_of_read_key hkey
  have hok := is_cert_valid_iff.mpr ⟨c, hcert, hvalid⟩
  simp [SniCertResolver.load_host, load_certified_key, hcert_file, hkey_file, hok, hcert, hkey]

theorem resolve_of_load_host {reached : Reached} {s : CertStore} {ck ck₀ : CertifiedKey}
    {hostname : Str} (hlocal : hostname ≠ "localhost".toList)
    (hname : validate_sni_hostname hostname = true)
    (hload : SniCertResolver.load_host s hostname = some ck) :
    SniCertResolver.resolve_for_hostname reached s ⟨ck₀, []⟩ hostname =
      (s, SniCertResolver.insert ⟨ck₀, []⟩ hostname ck, ck) := by
  have hne : hostname ≠ [] := by
    rintro rfl
    exact absurd hname (by decide)
  simp only [SniCertResolver.resolve_for_hostname, hne, hlocal, or_self, if_false, hname,
    Bool.not_true, Bool.false_eq_true, List.lookup_nil, hload]

/-- After a regeneration that leaves a valid host certificate behind, a new
    resolver serves that certificate, which the new CA has not signed. -/
theorem stale_host_served {s : Certs.State} {hostname : Str} {c : Cert} {k : Key}
    (hca : ca_outdated s.store = true) (hlocal : hostname ≠ "localhost".toList)
    (hname : validate_sni_hostname hostname = true)
    (hcert : s.store.read_cert (host_cert_path hostname) = some c)
    (hkey : s.store.read_key (host_key_path hostname) = some k) (hvalid : c.valid_at s.store.now)
    (hissuer : c.issuer ≠ s.store.next_key) :
    ∃ s', Certs.system.Steps System.anyStep s [.ensure_certs .calm, .new] s' ∧ ¬ ChainsToCa s' := by
  have hensure : ensure_certs .calm s.store =
      generate_server_cert .cert (generate_ca .cert s.store).1 := by
    rcases ensure_certs_cases .calm s.store with ⟨h, _⟩ | ⟨h, _, _⟩ | ⟨h, _, _⟩ |
      ⟨_, _, h, _⟩ | ⟨_, _, _, h⟩
    · cases h
    · rw [hca] at h
      cases h
    · rw [hca] at h
      cases h
    · exact absurd rfl h
    · exact h
  have hfirst : Certs.system.step s (.ensure_certs .calm) =
      some ⟨(generate_server_cert .cert (generate_ca .cert s.store).1).1, s.ensured + 1,
        s.resolvers⟩ := by
    show some _ = some _
    rw [hensure]
    rfl
  refine ⟨_, .cons hfirst trivial (.cons rfl trivial .nil), ?_⟩
  intro hchains
  -- the files of the host are as they were, and those of the CA are new
  have hload : SniCertResolver.load_host
      (generate_server_cert .cert (generate_ca .cert s.store).1).1 hostname = some ⟨[c], k⟩ :=
    load_host_of_read hcert hkey hvalid
  have hserved := hchains (s.ensured + 1) _ (List.mem_append_right _ List.mem_cons_self) rfl
    (Nat.succ_pos _) .nothing hostname
  rw [resolve_of_load_host hlocal hname hload] at hserved
  exact hissuer (hserved c List.mem_cons_self _ rfl)

/-- The CA key is lost before any host certificate is generated: the resolver
    built after the regeneration serves what the new CA signs. -/
theorem chains_to_ca_after_loss :
    ∃ s, s.ensured = 2 ∧ s.resolvers.map (fun e => (e.1, e.2.cache.map (·.1))) =
      [(1, []), (2, ["app.localhost".toList])] ∧ ChainsToCa s := by
  obtain ⟨s, hrun, hensured, hcached⟩ : ∃ s, Certs.system.Steps CleanRegeneration Certs.empty
      [.ensure_certs .calm, .new, .lose_ca_key, .ensure_certs .calm, .new,
        .resolve 1 .cert "app.localhost".toList] s ∧ s.ensured = 2 ∧
      s.resolvers.map (fun e => (e.1, e.2.cache.map (·.1))) =
        [(1, []), (2, ["app.localhost".toList])] :=
    ⟨_, .cons rfl (fun _ _ => ⟨nofun, .inl rfl⟩) (.cons rfl trivial
      (.cons rfl trivial (.cons rfl (fun _ _ => ⟨nofun, .inl rfl⟩)
        (.cons rfl trivial (.cons rfl trivial .nil))))), by decide, by decide⟩
  exact ⟨s, hensured, hcached, chains_to_ca hrun⟩

/-- A host certificate is generated, the CA key is lost and the CA regenerated:
    a new resolver still serves the old certificate. -/
theorem lost_ca_served :
    ∃ s, Certs.system.Steps System.anyStep Certs.empty
      [.ensure_certs .calm, .new, .resolve 0 .cert "app.localhost".toList, .lose_ca_key,
        .ensure_certs .calm, .new] s ∧ ¬ ChainsToCa s := by
  obtain ⟨s, hrun, hca, hcert, hkey, hnow, hnext⟩ :
      ∃ s, Certs.system.Steps System.anyStep Certs.empty
        [.ensure_certs .calm, .new, .resolve 0 .cert "app.localhost".toList, .lose_ca_key] s ∧
      ca_outdated s.store = true ∧
      s.store.read_cert (host_cert_path "app.localhost".toList) =
        some ⟨"app.localhost".toList, ["app.localhost".toList, "*.localhost".toList], 2, 0,
          SERVER_VALIDITY_DAYS * DAY⟩ ∧
      s.store.read_key (host_key_path "app.localhost".toList) = some 2 ∧ s.store.now = 0 ∧
      s.store.next_key = 3 :=
    ⟨_, .cons rfl trivial (.cons rfl trivial (.cons rfl trivial (.cons rfl trivial .nil))),
      by decide, by decide, by decide, by decide, by decide⟩
  obtain ⟨s', hrun', hnot⟩ := stale_host_served hca (by decide) (by decide) hcert hkey
    (by rw [hnow]; decide) (by rw [hnext]; decide)
  exact ⟨s', hrun.append hrun', hnot⟩

end Nsl
