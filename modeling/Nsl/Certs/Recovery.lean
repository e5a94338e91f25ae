import Nsl.Certs.Chain

/-! # Certificate files after an interrupted generation

  `ensure_certs` writes up to four files, one after the other, and it may stop
  between any two of them. The next call decides what to generate from what
  exists and when it expires; that a key belongs to a certificate, or that the
  CA has been renewed since the server certificate was signed, it does not see.

  - `Files`: the four files, and what a call does to them (`Outcome`).
  - `Recovers`: the invariant. What does not belong together has expired.
  - `certs_recovered`: the stops after which the files are whole again as soon
    as a call returns `Ok`, and what is left after any other stop.
-/

open Rust Framework

namespace Nsl.Recovery

/-! ### The four files -/

/-- The keys and certificates of the CA and of the server. -/
structure Files where
  ca_key : Option Key
  ca_cert : Option Cert
  server_key : Option Key
  server_cert : Option Cert
deriving DecidableEq

def files (s : CertStore) : Files where
  ca_key := s.read_key CA_KEY_FILE
  ca_cert := s.read_cert CA_CERT_FILE
  server_key := s.read_key SERVER_KEY_FILE
  server_cert := s.read_cert SERVER_CERT_FILE

/-- The files of keys hold keys, and those of certificates hold
    certificates. -/
structure Kinds (s : CertStore) : Prop where
  ca_key : s.exists_file CA_KEY_FILE = (files s).ca_key.isSome
  ca_cert : s.exists_file CA_CERT_FILE = (files s).ca_cert.isSome
  server_key : s.exists_file SERVER_KEY_FILE = (files s).server_key.isSome
  server_cert : s.exists_file SERVER_CERT_FILE = (files s).server_cert.isSome

/-- The pair of a new CA, as far as it is written. -/
def Files.with_ca (f : Files) (reached : Reached) (c : Cert) : Files :=
  match reached with
  | .nothing => f
  | .key => { f with ca_key := some c.key }
  | .cert => { f with ca_key := some c.key, ca_cert := some c }

/-- The pair of a new server certificate, as far as it is written. -/
def Files.with_server (f : Files) (reached : Reached) (c : Cert) : Files :=
  match reached with
  | .nothing => f
  | .key => { f with server_key := some c.key }
  | .cert => { f with server_key := some c.key, server_cert := some c }

@[simp] theorem exists_write_key_file (s : CertStore) (p q : Path) (k : Key) :
    (s.write_key_file p k).exists_file q = (decide (q = p) || s.exists_file q) := by
  by_cases h : q = p <;>
    simp [CertStore.exists_file, CertStore.write_key_file, CertStore.write, Function.update, h]

@[simp] theorem exists_write_cert_file (s : CertStore) (p q : Path) (c : Cert) :
    (s.write_cert_file p c).exists_file q = (decide (q = p) || s.exists_file q) := by
  by_cases h : q = p <;>
    simp [CertStore.exists_file, CertStore.write_cert_file, CertStore.write, Function.update, h]

theorem paths_ne : CA_KEY_FILE ≠ CA_CERT_FILE ∧ CA_KEY_FILE ≠ SERVER_KEY_FILE ∧
    CA_KEY_FILE ≠ SERVER_CERT_FILE ∧ CA_CERT_FILE ≠ SERVER_KEY_FILE ∧
    CA_CERT_FILE ≠ SERVER_CERT_FILE ∧ SERVER_KEY_FILE ≠ SERVER_CERT_FILE := by
  decide

section
variable (s : CertStore) (n : Key) (p : Path)

@[simp] theorem read_cert_next_key :
    ({ s with next_key := n } : CertStore).read_cert p = s.read_cert p := rfl

@[simp] theorem read_key_next_key :
    ({ s with next_key := n } : CertStore).read_key p = s.read_key p := rfl

@[simp] theorem exists_next_key :
    ({ s with next_key := n } : CertStore).exists_file p = s.exists_file p := rfl

end

theorem files_write_ca (reached : Reached) (s : CertStore) (c : Cert) :
    files (write_pair reached s CA_KEY_FILE CA_CERT_FILE c).1 = (files s).with_ca reached c := by
  obtain ⟨h₁, h₂, h₃, h₄, h₅, h₆⟩ := paths_ne
  cases reached with
  | nothing => rfl
  | key => simp [files, write_pair, Files.with_ca, h₁.symm, h₂.symm, h₃.symm]
  | cert => simp [files, write_pair, Files.with_ca, h₁, h₂.symm, h₃.symm, h₄.symm, h₅.symm]

theorem files_write_server (reached : Reached) (s : CertStore) (c : Cert) :
    files (write_pair reached s SERVER_KEY_FILE SERVER_CERT_FILE c).1 =
      (files s).with_server reached c := by
  obtain ⟨h₁, h₂, h₃, h₄, h₅, h₆⟩ := paths_ne
  cases reached with
  | nothing => rfl
  | key => simp [files, write_pair, Files.with_server, h₂, h₄, h₆.symm]
  | cert => simp [files, write_pair, Files.with_server, h₂, h₃, h₄, h₅, h₆]

theorem Kinds.write_ca {s : CertStore} (h : Kinds s) (reached : Reached) (c : Cert) :
    Kinds (write_pair reached s CA_KEY_FILE CA_CERT_FILE c).1 := by
  obtain ⟨h₁, h₂, h₃, h₄, h₅, h₆⟩ := paths_ne
  obtain ⟨hk, hc, hsk, hsc⟩ := h
  cases reached with
  | nothing => exact ⟨hk, hc, hsk, hsc⟩
  | key =>
    constructor <;> rw [files_write_ca] <;>
      simp [write_pair, Files.with_ca, hc, hsk, hsc, h₁.symm, h₂.symm, h₃.symm]
  | cert =>
    constructor <;> rw [files_write_ca] <;>
      simp [write_pair, Files.with_ca, hsk, hsc, h₂.symm, h₃.symm, h₄.symm, h₅.symm]

theorem Kinds.write_server {s : CertStore} (h : Kinds s) (reached : Reached) (c : Cert) :
    Kinds (write_pair reached s SERVER_KEY_FILE SERVER_CERT_FILE c).1 := by
  obtain ⟨h₁, h₂, h₃, h₄, h₅, h₆⟩ := paths_ne
  obtain ⟨hk, hc, hsk, hsc⟩ := h
  cases reached with
  | nothing => exact ⟨hk, hc, hsk, hsc⟩
  | key =>
    constructor <;> rw [files_write_server] <;>
      simp [write_pair, Files.with_server, hk, hc, hsc, h₂, h₄, h₆.symm]
  | cert =>
    constructor <;> rw [files_write_server] <;>
      simp [write_pair, Files.with_server, hk, hc, h₂, h₃, h₄, h₅]

theorem Kinds.pass {s : CertStore} (h : Kinds s) (seconds : Nat) :
    Kinds { s with now := s.now + seconds } :=
  ⟨h.ca_key, h.ca_cert, h.server_key, h.server_cert⟩

/-! ### What a call does to them -/

def new_ca (s : CertStore) : Cert where
  common_name := "nsl Local CA".toList
  dns_names := []
  key := s.next_key
  issuer := s.next_key
  not_after := s.now + CA_VALIDITY_DAYS * DAY

def new_server (s : CertStore) (key ca_key : Key) : Cert where
  common_name := "localhost".toList
  dns_names := ["localhost".toList, "*.localhost".toList]
  key := key
  issuer := ca_key
  not_after := s.now + SERVER_VALIDITY_DAYS * DAY

theorem new_server_congr {s s' : CertStore} (hnow : s'.now = s.now) {key ca_key : Key} :
    new_server s' key ca_key = new_server s key ca_key := by
  unfold new_server
  rw [hnow]

/-- What a call to `ensure_certs` leaves, and whether it returns `Ok`. -/
inductive Outcome (os : EnsureOs) (s : CertStore) : Files → Bool → Prop
  | refused (h : os.dir_created = false) : Outcome os s (files s) false
  | kept (hca : ca_outdated s = false) (hserver : server_outdated s = false) :
    Outcome os s (files s) true
  | server (ca_key : Key) (hca : ca_outdated s = false) (hserver : server_outdated s = true)
    (hkey : (files s).ca_key = some ca_key) :
    Outcome os s ((files s).with_server os.server (new_server s s.next_key ca_key))
      (decide (os.server = .cert))
  | ca_stopped (hdir : os.dir_created = true) (hca : ca_outdated s = true) (h : os.ca ≠ .cert) :
    Outcome os s ((files s).with_ca os.ca (new_ca s)) false
  | renewed (hdir : os.dir_created = true) (hca : ca_outdated s = true) (h : os.ca = .cert) :
    Outcome os s
      (((files s).with_ca .cert (new_ca s)).with_server os.server
        (new_server s (s.next_key + 1) s.next_key))
      (decide (os.server = .cert))

/-- A file that holds what it should: it exists, and its certificate is
    valid. -/
theorem not_outdated_iff {s : CertStore} {key_path cert_path : Path} {k : Option Key}
    (hkey : s.exists_file key_path = k.isSome) :
    (!s.exists_file cert_path || !s.exists_file key_path || !is_cert_valid s cert_path) = false ↔
      ∃ k' c, k = some k' ∧ s.read_cert cert_path = some c ∧ c.valid_at s.now := by
  simp only [Bool.or_eq_false_iff, Bool.not_eq_false', is_cert_valid_iff, hkey,
    Option.isSome_iff_exists]
  constructor
  · intro ⟨⟨_, k', hk⟩, c, hc, hvalid⟩
    exact ⟨k', c, hk, hc, hvalid⟩
  · intro ⟨k', c, hk, hc, hvalid⟩
    exact ⟨⟨s.exists_file_of_read_cert hc, k', hk⟩, c, hc, hvalid⟩

theorem ca_outdated_eq_false {s : CertStore} (hk : Kinds s) :
    ca_outdated s = false ↔ ∃ k ca, (files s).ca_key = some k ∧ (files s).ca_cert = some ca ∧
      ca.valid_at s.now :=
  not_outdated_iff hk.ca_key

theorem server_outdated_eq_false {s : CertStore} (hk : Kinds s) :
    server_outdated s = false ↔ ∃ k c, (files s).server_key = some k ∧
      (files s).server_cert = some c ∧ c.valid_at s.now :=
  not_outdated_iff hk.server_key

theorem is_cert_valid_eq_false {s : CertStore} {p : Path} :
    is_cert_valid s p = false ↔ ∀ c, s.read_cert p = some c → ¬ c.valid_at s.now := by
  rw [← Bool.not_eq_true, is_cert_valid_iff]
  simp

/-- The server certificate, when the CA key and the CA certificate are
    there. -/
theorem generate_server_cert_eq {s : CertStore} {k : Key} {ca : Cert} (reached : Reached)
    (hkey : (files s).ca_key = some k) (hcert : (files s).ca_cert = some ca) :
    generate_server_cert reached s =
      write_pair reached s SERVER_KEY_FILE SERVER_CERT_FILE (new_server s s.next_key k) := by
  have hload : load_ca_keypair s = some (ca, k) := by
    have hkey' : s.read_key CA_KEY_FILE = some k := hkey
    have hcert' : s.read_cert CA_CERT_FILE = some ca := hcert
    unfold load_ca_keypair
    rw [hkey', hcert']
  unfold generate_server_cert
  rw [hload]
  rfl

@[simp] theorem write_pair_next_key {reached : Reached} {s : CertStore} {p q : Path} {c : Cert} :
    (write_pair reached s p q c).1.next_key = s.next_key + 1 := by
  cases reached <;> rfl

theorem outcome_ensure_certs {s : CertStore} (hk : Kinds s) (os : EnsureOs) :
    Outcome os s (files (ensure_certs os s).1) (ensure_certs os s).2 ∧
      Kinds (ensure_certs os s).1 ∧ (ensure_certs os s).1.now = s.now := by
  rcases ensure_certs_cases os s with ⟨hdir, heq⟩ | ⟨hca, hserver, heq⟩ | ⟨hca, hserver, heq⟩ |
    ⟨hdir, hca, hreached, heq⟩ | ⟨hdir, hca, hreached, heq⟩ <;> rw [heq]
  · exact ⟨.refused hdir, hk, rfl⟩
  · exact ⟨.kept hca hserver, hk, rfl⟩
  · -- the CA on disk signs
    obtain ⟨k, ca, hkey, hcert, _⟩ := (ca_outdated_eq_false hk).mp hca
    rw [generate_server_cert_eq os.server hkey hcert, files_write_server, write_pair_ok]
    exact ⟨.server k hca hserver hkey, hk.write_server _ _, write_pair_now⟩
  · have hfiles : files (generate_ca os.ca s).1 = (files s).with_ca os.ca (new_ca s) :=
      files_write_ca os.ca s (new_ca s)
    rw [hfiles]
    exact ⟨.ca_stopped hdir hca hreached, hk.write_ca _ _, write_pair_now⟩
  · -- the new CA signs
    have hfiles : files (generate_ca .cert s).1 = (files s).with_ca .cert (new_ca s) :=
      files_write_ca .cert s (new_ca s)
    have hkinds : Kinds (generate_ca .cert s).1 := hk.write_ca .cert (new_ca s)
    have hnow : (generate_ca .cert s).1.now = s.now := write_pair_now
    have hnext : (generate_ca .cert s).1.next_key = s.next_key + 1 := write_pair_next_key
    have hkey : (files (generate_ca .cert s).1).ca_key = some s.next_key := by
      rw [hfiles]
      rfl
    have hcert : (files (generate_ca .cert s).1).ca_cert = some (new_ca s) := by
      rw [hfiles]
      rfl
    have hserver : new_server (generate_ca .cert s).1 (generate_ca .cert s).1.next_key s.next_key =
        new_server s (s.next_key + 1) s.next_key := by
      rw [hnext, new_server_congr hnow]
    rw [generate_server_cert_eq os.server hkey hcert, files_write_server, write_pair_ok, hfiles,
      hserver]
    exact ⟨.renewed hdir hca hreached, hkinds.write_server _ _, write_pair_now.trans hnow⟩

/-! ### Files that belong together -/

/-- The CA key belongs to the CA certificate, the server key to the server
    certificate, and the CA key has signed the server certificate. -/
def Files.Consistent (f : Files) : Prop :=
  ∃ ca c, f = ⟨some ca.key, some ca, some c.key, some c⟩ ∧ c.issuer = ca.key

/-- What does not belong together has expired, and a server certificate has a
    key next to it. -/
structure Files.Recovers (f : Files) (now : Nat) : Prop where
  ca_pair : ∀ k ca, f.ca_key = some k → f.ca_cert = some ca → ca.valid_at now → ca.key = k
  server_pair : ∀ k c, f.server_key = some k → f.server_cert = some c → c.valid_at now → c.key = k
  signed : ∀ k ca c, f.ca_key = some k → f.ca_cert = some ca → f.server_cert = some c →
    ca.valid_at now → c.valid_at now → c.issuer = k
  server_key : f.server_cert.isSome → f.server_key.isSome

theorem Files.Recovers.later {f : Files} {now now' : Nat} (h : f.Recovers now)
    (hle : now ≤ now') : f.Recovers now' where
  ca_pair k ca hk hca hvalid := h.ca_pair k ca hk hca (hvalid.earlier hle)
  server_pair k c hk hc hvalid := h.server_pair k c hk hc (hvalid.earlier hle)
  signed k ca c hk hca hc hvalid hvalid' :=
    h.signed k ca c hk hca hc (hvalid.earlier hle) (hvalid'.earlier hle)
  server_key := h.server_key

/-- A new server pair, as far as it is written, signed by the CA key on disk.
    The certificate it replaces has expired, if there is one. -/
theorem Files.Recovers.with_server {f : Files} {now : Nat} {c : Cert} {reached : Reached}
    (hca_pair : ∀ k ca, f.ca_key = some k → f.ca_cert = some ca → ca.valid_at now → ca.key = k)
    (hserver_key : f.server_cert.isSome → f.server_key.isSome)
    (hissuer : ∀ k, f.ca_key = some k → c.issuer = k)
    (hold : reached = .cert ∨ ∀ c', f.server_cert = some c' → ¬ c'.valid_at now) :
    (f.with_server reached c).Recovers now := by
  cases reached with
  | nothing =>
    have hexpired := hold.resolve_left nofun
    exact ⟨hca_pair, fun _ c' _ hc' hvalid => absurd hvalid (hexpired c' hc'),
      fun _ _ c' _ _ hc' _ hvalid => absurd hvalid (hexpired c' hc'), hserver_key⟩
  | key =>
    have hexpired := hold.resolve_left nofun
    exact ⟨hca_pair, fun _ c' _ hc' hvalid => absurd hvalid (hexpired c' hc'),
      fun _ _ c' _ _ hc' _ hvalid => absurd hvalid (hexpired c' hc'), fun _ => rfl⟩
  | cert =>
    refine ⟨hca_pair, ?_, ?_, fun _ => rfl⟩
    · intro k c' hk hc' _
      cases hk
      cases hc'
      rfl
    · intro k _ c' hk _ hc' _ _
      cases hc'
      exact hissuer k hk

/-- A new CA pair that stops before its certificate is written. The CA
    certificate next to a new key has expired, if there is one. -/
theorem Files.Recovers.ca_stopped {f : Files} {now : Nat} {c : Cert} {reached : Reached}
    (h : f.Recovers now) (hreached : reached ≠ .cert)
    (hold : reached = .key → ∀ ca, f.ca_cert = some ca → ¬ ca.valid_at now) :
    (f.with_ca reached c).Recovers now := by
  cases reached with
  | nothing => exact h
  | key =>
    have hexpired := hold rfl
    exact ⟨fun _ ca _ hca hvalid => absurd hvalid (hexpired ca hca), h.server_pair,
      fun _ ca _ _ hca _ hvalid _ => absurd hvalid (hexpired ca hca), h.server_key⟩
  | cert => exact absurd rfl hreached

/-- A server that is outdated next to a server key has expired. -/
theorem Files.Recovers.server_expired {s : CertStore} (hk : Kinds s)
    (h : (files s).Recovers s.now) (hserver : server_outdated s = true) :
    ∀ c, (files s).server_cert = some c → ¬ c.valid_at s.now := by
  intro c hc hvalid
  obtain ⟨k, hkey⟩ := Option.isSome_iff_exists.mp (h.server_key (by rw [hc]; rfl))
  have hfalse := (server_outdated_eq_false hk).mpr ⟨k, c, hkey, hc, hvalid⟩
  rw [hserver] at hfalse
  cases hfalse

/-! ### Stops -/

/-- A call that does not stop between a new CA key and its certificate while
    the old CA certificate is valid, nor between a new CA certificate and the
    new server certificate while the old server certificate is valid. -/
def CleanStop (os : EnsureOs) (s : CertStore) : Prop :=
  os.dir_created = true → ca_outdated s = true →
    match os.ca with
    | .nothing => True
    | .key => is_cert_valid s CA_CERT_FILE = false
    | .cert => os.server = .cert ∨ is_cert_valid s SERVER_CERT_FILE = false

/-- Calls, and the clock. -/
inductive Action where
  | ensure_certs (os : EnsureOs)
  | pass (seconds : Nat)

/-- A directory whose files belong together, or an empty one, without the CA
    key or the CA certificate if these are lost. -/
inductive Start : CertStore → Prop
  | whole {s : CertStore} {ca c : Cert}
    (hfiles : files s = ⟨some ca.key, some ca, some c.key, some c⟩)
    (hissuer : c.issuer = ca.key) (hkey : ca.key < s.next_key) : Start s
  | empty {s : CertStore} (h : ∀ p, s.exists_file p = false) : Start s
  | lose_ca_key {s : CertStore} (h : Start s) : Start (s.remove CA_KEY_FILE)
  | lose_ca_cert {s : CertStore} (h : Start s) : Start (s.remove CA_CERT_FILE)

def system : System CertStore Action where
  init := Start
  step s
    | .ensure_certs os => some (ensure_certs os s).1
    | .pass seconds => some { s with now := s.now + seconds }

def CleanStops (s : CertStore) (a : Action) (_ : CertStore) : Prop :=
  match a with
  | .ensure_certs os => CleanStop os s
  | .pass _ => True

/-- What every state of such a run keeps. -/
structure Inv (s : CertStore) : Prop where
  kinds : Kinds s
  recovers : (files s).Recovers s.now

/-- One call, whatever it does. -/
theorem Inv.ensure_certs {s : CertStore} {os : EnsureOs} (h : Inv s) (hclean : CleanStop os s) :
    Inv (ensure_certs os s).1 := by
  obtain ⟨houtcome, hkinds, hnow⟩ := outcome_ensure_certs h.kinds os
  refine ⟨hkinds, ?_⟩
  rw [hnow]
  generalize files (Nsl.ensure_certs os s).1 = f, (Nsl.ensure_certs os s).2 = ok at houtcome
  cases houtcome with
  | refused => exact h.recovers
  | kept => exact h.recovers
  | server k hca hserver hkey =>
    have hissuer : ∀ k', (files s).ca_key = some k' → (new_server s s.next_key k).issuer = k' := by
      intro k' hk'
      rw [hkey] at hk'
      exact Option.some.inj hk'
    exact .with_server h.recovers.ca_pair h.recovers.server_key hissuer
      (.inr (h.recovers.server_expired h.kinds hserver))
  | ca_stopped hdir hca hreached =>
    refine h.recovers.ca_stopped hreached ?_
    intro hkey
    have hinvalid := hclean hdir hca
    rw [hkey] at hinvalid
    exact is_cert_valid_eq_false.mp hinvalid
  | renewed hdir hca hreached =>
    have hold := hclean hdir hca
    rw [hreached] at hold
    refine .with_server ?_ h.recovers.server_key ?_ (hold.imp_right is_cert_valid_eq_false.mp)
    · intro k ca hk hca _
      cases hk
      cases hca
      rfl
    · intro k hk
      cases hk
      rfl

/-- A call that returns `Ok` leaves files that belong together. -/
theorem Inv.consistent {s : CertStore} {os : EnsureOs} (h : Inv s)
    (hok : (Nsl.ensure_certs os s).2 = true) : (files (Nsl.ensure_certs os s).1).Consistent := by
  have houtcome := (outcome_ensure_certs h.kinds os).1
  generalize files (Nsl.ensure_certs os s).1 = f, (Nsl.ensure_certs os s).2 = ok at houtcome hok
  cases houtcome with
  | refused => cases hok
  | kept hca hserver =>
    obtain ⟨k, ca, hk, hcert, hvalid⟩ := (ca_outdated_eq_false h.kinds).mp hca
    obtain ⟨sk, c, hsk, hserver_cert, hserver_valid⟩ :=
      (server_outdated_eq_false h.kinds).mp hserver
    have hca_pair := h.recovers.ca_pair k ca hk hcert hvalid
    have hserver_pair := h.recovers.server_pair sk c hsk hserver_cert hserver_valid
    have hsigned := h.recovers.signed k ca c hk hcert hserver_cert hvalid hserver_valid
    refine ⟨ca, c, ?_, hsigned.trans hca_pair.symm⟩
    rw [hca_pair, hserver_pair, ← hk, ← hcert, ← hsk, ← hserver_cert]
  | server k hca hserver hkey =>
    obtain ⟨k', ca, hk, hcert, hvalid⟩ := (ca_outdated_eq_false h.kinds).mp hca
    have hca_pair := h.recovers.ca_pair k' ca hk hcert hvalid
    have hreached := of_decide_eq_true hok
    rw [hreached]
    rw [hkey] at hk
    cases hk
    refine ⟨ca, new_server s s.next_key k, ?_, hca_pair.symm⟩
    rw [hca_pair, ← hkey, ← hcert]
    rfl
  | ca_stopped => cases hok
  | renewed =>
    have hreached := of_decide_eq_true hok
    rw [hreached]
    exact ⟨new_ca s, new_server s (s.next_key + 1) s.next_key, rfl, rfl⟩

theorem exists_remove {s : CertStore} {p q : Path} :
    (s.remove p).exists_file q = (!decide (q = p) && s.exists_file q) := by
  by_cases h : q = p <;> simp [CertStore.exists_file, CertStore.remove, Function.update, h]

theorem files_remove_ca_key (s : CertStore) :
    files (s.remove CA_KEY_FILE) = { files s with ca_key := none } := by
  obtain ⟨h₁, h₂, h₃, _⟩ := paths_ne
  simp [files, h₁.symm, h₂.symm, h₃.symm]

theorem files_remove_ca_cert (s : CertStore) :
    files (s.remove CA_CERT_FILE) = { files s with ca_cert := none } := by
  obtain ⟨h₁, _, _, h₄, h₅, _⟩ := paths_ne
  simp [files, h₁, h₄.symm, h₅.symm]

theorem files_of_absent {s : CertStore} (h : ∀ p, s.exists_file p = false) :
    files s = ⟨none, none, none, none⟩ := by
  have hfile : ∀ p, s.files p = none := by
    intro p
    simpa [CertStore.exists_file] using h p
  simp [files, CertStore.read_key, CertStore.read_cert, hfile]

/-- Files that are read for what they are exist. -/
theorem kinds_of_whole {s : CertStore} {k sk : Key} {ca c : Cert}
    (h : files s = ⟨some k, some ca, some sk, some c⟩) : Kinds s := by
  obtain ⟨hk, hca, hsk, hc⟩ := Files.mk.inj h
  constructor <;> rw [h]
  · exact s.exists_file_of_read_key hk
  · exact s.exists_file_of_read_cert hca
  · exact s.exists_file_of_read_key hsk
  · exact s.exists_file_of_read_cert hc

/-- No key of the directory is the next one. -/
structure Fresh (s : CertStore) : Prop where
  ca : ∀ ca, (files s).ca_cert = some ca → ca.key ≠ s.next_key
  server : ∀ c, (files s).server_cert = some c → c.issuer ≠ s.next_key

/-- By induction on what is lost. -/
theorem Start.inv {s : CertStore} (h : Start s) : Inv s ∧ Fresh s := by
  induction h with
  | @whole s ca c hfiles hissuer hkey =>
    -- the pairs belong together by the shape of the files
    refine ⟨⟨kinds_of_whole hfiles, ?_⟩, ?_⟩
    · rw [hfiles]
      constructor
      · intro k ca' hk hca _
        cases hk
        cases hca
        rfl
      · intro k c' hk hc _
        cases hk
        cases hc
        rfl
      · intro k _ c' hk _ hc _ _
        cases hk
        cases hc
        exact hissuer
      · exact fun _ => rfl
    · constructor <;> rw [hfiles]
      · intro ca' hca
        cases hca
        exact Nat.ne_of_lt hkey
      · intro c' hc
        cases hc
        rw [hissuer]
        exact Nat.ne_of_lt hkey
  | @empty s h =>
    have hfiles := files_of_absent h
    refine ⟨⟨?_, ?_⟩, ?_⟩
    · constructor <;> rw [hfiles, h] <;> rfl
    · rw [hfiles]
      exact ⟨nofun, nofun, nofun, nofun⟩
    · constructor <;> rw [hfiles] <;> exact nofun
  | @lose_ca_key s _ ih =>
    -- what a lost key had to belong to is asked of no key any more
    obtain ⟨⟨hk, hr⟩, hfresh⟩ := ih
    obtain ⟨h₁, h₂, h₃, _⟩ := paths_ne
    refine ⟨⟨?_, ?_⟩, ?_⟩
    · constructor <;> rw [files_remove_ca_key, exists_remove]
      · simp
      · simp [hk.ca_cert, h₁.symm]
      · simp [hk.server_key, h₂.symm]
      · simp [hk.server_cert, h₃.symm]
    · rw [files_remove_ca_key]
      exact ⟨nofun, hr.server_pair, nofun, hr.server_key⟩
    · constructor <;> rw [files_remove_ca_key]
      · exact hfresh.ca
      · exact hfresh.server
  | @lose_ca_cert s _ ih =>
    obtain ⟨⟨hk, hr⟩, hfresh⟩ := ih
    obtain ⟨h₁, _, _, h₄, h₅, _⟩ := paths_ne
    refine ⟨⟨?_, ?_⟩, ?_⟩
    · constructor <;> rw [files_remove_ca_cert, exists_remove]
      · simp [hk.ca_key, h₁]
      · simp
      · simp [hk.server_key, h₄.symm]
      · simp [hk.server_cert, h₅.symm]
    · rw [files_remove_ca_cert]
      exact ⟨nofun, hr.server_pair, nofun, hr.server_key⟩
    · constructor <;> rw [files_remove_ca_cert]
      · exact nofun
      · exact hfresh.server

/-! ### Recovery -/

theorem Inv.run {s s' : CertStore} {acts : List Action} (h : Inv s)
    (hrun : system.Steps CleanStops s acts s') : Inv s' := by
  refine hrun.invariant h ?_
  intro s₁ a s₂ hinv hstep hclean
  cases a with
  | ensure_certs os =>
    cases hstep
    exact hinv.ensure_certs hclean
  | pass seconds =>
    cases hstep
    exact ⟨hinv.kinds.pass seconds, hinv.recovers.later (Nat.le_add_right _ _)⟩

/-- A call without a failure after which the files do not belong together. -/
def LeavesInconsistent (s : CertStore) : Prop :=
  (ensure_certs .calm s).2 = true ∧ ¬ (files (ensure_certs .calm s).1).Consistent

theorem calm_ok {s : CertStore} (hk : Kinds s) : (ensure_certs .calm s).2 = true := by
  have houtcome := (outcome_ensure_certs hk .calm).1
  generalize files (ensure_certs .calm s).1 = f, (ensure_certs .calm s).2 = ok at houtcome
  cases houtcome with
  | refused h => cases h
  | kept => rfl
  | server => rfl
  | ca_stopped _ _ h => exact absurd rfl h
  | renewed => rfl

/-- A valid CA whose key is not that of its certificate stays. -/
theorem inconsistent_of_ca {s : CertStore} {k : Key} {ca : Cert} (hk : Kinds s)
    (hkey : (files s).ca_key = some k) (hcert : (files s).ca_cert = some ca)
    (hvalid : ca.valid_at s.now) (hne : ca.key ≠ k) : LeavesInconsistent s := by
  refine ⟨calm_ok hk, ?_⟩
  have hca := (ca_outdated_eq_false hk).mpr ⟨k, ca, hkey, hcert, hvalid⟩
  have houtcome := (outcome_ensure_certs hk .calm).1
  -- neither the key nor the certificate of the CA is written
  have hkept : (files (ensure_certs .calm s).1).ca_key = some k ∧
      (files (ensure_certs .calm s).1).ca_cert = some ca := by
    generalize files (ensure_certs .calm s).1 = f, (ensure_certs .calm s).2 = ok at houtcome
    cases houtcome with
    | refused => exact ⟨hkey, hcert⟩
    | kept => exact ⟨hkey, hcert⟩
    | server => exact ⟨hkey, hcert⟩
    | ca_stopped _ h => exact absurd (hca.symm.trans h) nofun
    | renewed _ h => exact absurd (hca.symm.trans h) nofun
  intro ⟨ca', c, heq, _⟩
  rw [heq] at hkept
  obtain ⟨hk', hca'⟩ := hkept
  cases hca'
  exact hne (Option.some.inj hk')

/-- A valid server certificate of another CA stays. -/
theorem inconsistent_of_server {s : CertStore} {k sk : Key} {ca c : Cert} (hk : Kinds s)
    (hkey : (files s).ca_key = some k) (hcert : (files s).ca_cert = some ca)
    (hvalid : ca.valid_at s.now) (hserver_key : (files s).server_key = some sk)
    (hserver_cert : (files s).server_cert = some c) (hserver_valid : c.valid_at s.now)
    (hne : c.issuer ≠ ca.key) : LeavesInconsistent s := by
  refine ⟨calm_ok hk, ?_⟩
  have hca := (ca_outdated_eq_false hk).mpr ⟨k, ca, hkey, hcert, hvalid⟩
  have hserver := (server_outdated_eq_false hk).mpr
    ⟨sk, c, hserver_key, hserver_cert, hserver_valid⟩
  have heq : ensure_certs .calm s = (s, true) := by
    simp [ensure_certs, EnsureOs.calm, hca, hserver]
  intro ⟨ca', c', hfiles, hissuer⟩
  rw [heq] at hfiles
  rw [show (files (s, true).1) = files s from rfl] at hfiles
  rw [hfiles] at hcert hserver_cert
  cases hcert
  cases hserver_cert
  exact hne hissuer

/-- After any other stop, the next call returns `Ok` and the files do not
    belong together. -/
theorem unclean_stop {s : CertStore} {os : EnsureOs} (hinv : Inv s) (hfresh : Fresh s)
    (hstop : ¬ CleanStop os s) : LeavesInconsistent (ensure_certs os s).1 := by
  obtain ⟨houtcome, hkinds, hnow⟩ := outcome_ensure_certs hinv.kinds os
  unfold CleanStop at hstop
  simp only [Classical.not_imp] at hstop
  obtain ⟨hdir, hca, hstop⟩ := hstop
  -- the CA was outdated, so that its two files were the first to be written
  have hafter : files (ensure_certs os s).1 = (files s).with_ca os.ca (new_ca s) ∧ os.ca ≠ .cert ∨
      files (ensure_certs os s).1 = ((files s).with_ca .cert (new_ca s)).with_server os.server
        (new_server s (s.next_key + 1) s.next_key) ∧ os.ca = .cert := by
    generalize files (ensure_certs os s).1 = f, (ensure_certs os s).2 = ok at houtcome
    cases houtcome with
    | refused h => exact absurd (hdir.symm.trans h) nofun
    | kept h => exact absurd (hca.symm.trans h) nofun
    | server _ h => exact absurd (hca.symm.trans h) nofun
    | ca_stopped _ _ h => exact .inl ⟨rfl, h⟩
    | renewed _ _ h => exact .inr ⟨rfl, h⟩
  rcases hafter with ⟨hfiles, hreached⟩ | ⟨hfiles, hreached⟩
  · -- a new CA key next to the old certificate
    cases hos : os.ca with
    | nothing => exact absurd trivial (by rwa [hos] at hstop)
    | cert => exact absurd hos hreached
    | key =>
      rw [hos] at hstop hfiles
      obtain ⟨ca, hcert, hvalid⟩ := is_cert_valid_iff.mp (Bool.not_eq_false _ ▸ hstop)
      have hkey' : (files (ensure_certs os s).1).ca_key = some s.next_key := by
        rw [hfiles]
        rfl
      have hcert' : (files (ensure_certs os s).1).ca_cert = some ca := by
        rw [hfiles]
        exact hcert
      refine inconsistent_of_ca hkinds hkey' hcert' ?_ (hfresh.ca ca hcert)
      · rw [hnow]
        exact hvalid
  · -- a new CA next to the old server certificate
    rw [hreached] at hstop
    obtain ⟨hserver, hold⟩ := not_or.mp hstop
    obtain ⟨c, hcert, hvalid⟩ := is_cert_valid_iff.mp (Bool.not_eq_false _ ▸ hold)
    obtain ⟨sk, hkey⟩ := Option.isSome_iff_exists.mp
      (hinv.recovers.server_key (by rw [show (files s).server_cert = some c from hcert]; rfl))
    have hca_valid : (new_ca s).valid_at (ensure_certs os s).1.now := by
      rw [hnow]
      show s.now + EXPIRY_BUFFER_DAYS * DAY < s.now + CA_VALIDITY_DAYS * DAY
      exact Nat.add_lt_add_left (by decide) _
    rw [← hnow] at hvalid
    -- the server key may be new, the certificate on disk is still the old one
    obtain ⟨sk', hkey', hcert', hk', hca'⟩ : ∃ sk',
        (files (ensure_certs os s).1).server_key = some sk' ∧
        (files (ensure_certs os s).1).server_cert = some c ∧
        (files (ensure_certs os s).1).ca_key = some s.next_key ∧
        (files (ensure_certs os s).1).ca_cert = some (new_ca s) := by
      rw [hfiles]
      cases hos : os.server with
      | nothing => exact ⟨sk, hkey, hcert, rfl, rfl⟩
      | key => exact ⟨_, rfl, hcert, rfl, rfl⟩
      | cert => exact absurd hos hserver
    exact inconsistent_of_server hkinds hk' hca' hca_valid hkey' hcert' hvalid
      (hfresh.server c hcert)

/-- **Certificate files recover from an interrupted generation** exactly when
    the call stops cleanly. Other calls that stop cleanly and the passing of
    time may stand between it and the one that returns `Ok`. -/
theorem certs_recovered {s : CertStore} (hstart : Start s) (os : EnsureOs) :
    (∀ acts s', system.Steps CleanStops (ensure_certs os s).1 acts s' →
      ∀ os', (ensure_certs os' s').2 = true → (files (ensure_certs os' s').1).Consistent) ↔
    CleanStop os s := by
  obtain ⟨hinv, hfresh⟩ := hstart.inv
  constructor
  · intro h
    by_contra hstop
    obtain ⟨hok, hnot⟩ := unclean_stop hinv hfresh hstop
    exact hnot (h [] _ .nil .calm hok)
  · intro hclean acts s' hrun os' hok
    exact ((hinv.ensure_certs hclean).run hrun).consistent hok

/-- The files of a first call. -/
def whole_dir : CertStore := (ensure_certs .calm ⟨fun _ => none, 0, 0⟩).1

theorem start_whole_dir : Start whole_dir := by
  have hfiles : files whole_dir = ⟨some 0, some (new_ca ⟨fun _ => none, 0, 0⟩), some 1,
      some (new_server ⟨fun _ => none, 0, 0⟩ 1 0)⟩ := by decide
  have hkey : 0 < whole_dir.next_key := by decide
  exact @Start.whole _ (new_ca ⟨fun _ => none, 0, 0⟩) (new_server ⟨fun _ => none, 0, 0⟩ 1 0)
    hfiles rfl hkey

/-- The CA certificate is lost, and a call stops after the new CA key. -/
theorem certs_recovered_lost_cert :
    (files (ensure_certs .calm (ensure_certs ⟨true, .key, .nothing⟩
      (whole_dir.remove CA_CERT_FILE)).1).1).Consistent :=
  (certs_recovered start_whole_dir.lose_ca_cert ⟨true, .key, .nothing⟩).mpr
    (fun _ _ => by decide) [] _ .nil .calm (by decide)

/-- The CA key is lost, and a call stops after the new CA key, or after the new
    CA certificate. -/
theorem lost_key_not_recovered :
    ∃ s, Start s ∧ LeavesInconsistent (ensure_certs ⟨true, .key, .nothing⟩ s).1 ∧
      LeavesInconsistent (ensure_certs ⟨true, .cert, .nothing⟩ s).1 := by
  have hstart := start_whole_dir.lose_ca_key
  obtain ⟨hinv, hfresh⟩ := hstart.inv
  have hca : ca_outdated (whole_dir.remove CA_KEY_FILE) = true := by decide
  refine ⟨_, hstart, unclean_stop hinv hfresh ?_, unclean_stop hinv hfresh ?_⟩
  · intro hclean
    exact absurd (hclean rfl hca) (by decide)
  · intro hclean
    exact absurd (hclean rfl hca) (by decide)

end Nsl.Recovery
