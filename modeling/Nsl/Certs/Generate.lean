import Mathlib.Logic.Function.Basic
import Nsl.Rust.Text

/-! # Certificates in the state directory

  A self-signed CA signs the server certificate and one certificate per
  requested hostname. Each is a pair of files, the key written before the
  certificate. A call can fail, or the process can stop, between two writes;
  each file is written in one step.

  A key is a number that no earlier generation has used. A certificate records
  the key it certifies and the key that signed it.
-/

open Rust

namespace Nsl

/-! ### Files -/

abbrev Key := Nat

structure Cert where
  common_name : Str
  dns_names : List Str
  key : Key
  /-- the key of the CA that signed it -/
  issuer : Key
  /-- in seconds -/
  not_after : Nat
deriving DecidableEq

inductive Pem where
  | key (k : Key)
  | cert (c : Cert)
deriving DecidableEq

structure PemFile where
  content : Pem
  mode : Nat
deriving DecidableEq

/-- A path relative to the state directory. -/
abbrev Path := Str

def CA_KEY_FILE : Path := "ca-key.pem".toList
def CA_CERT_FILE : Path := "ca.pem".toList
def SERVER_KEY_FILE : Path := "server-key.pem".toList
def SERVER_CERT_FILE : Path := "server.pem".toList

/-- Sub-directory for per-hostname certificates. -/
def HOST_CERTS_DIR : Path := "host-certs".toList

/-- The state directory, the clock in seconds, and the next unused key. -/
structure CertStore where
  files : Path → Option PemFile
  now : Nat
  next_key : Key

namespace CertStore

def exists_file (s : CertStore) (p : Path) : Bool := (s.files p).isSome

/-- The certificate that a parser finds in the file. -/
def read_cert (s : CertStore) (p : Path) : Option Cert :=
  match s.files p with
  | some ⟨.cert c, _⟩ => some c
  | _ => none

/-- The private key that a parser finds in the file. -/
def read_key (s : CertStore) (p : Path) : Option Key :=
  match s.files p with
  | some ⟨.key k, _⟩ => some k
  | _ => none

def write (s : CertStore) (p : Path) (file : PemFile) : CertStore :=
  { s with files := Function.update s.files p (some file) }

def remove (s : CertStore) (p : Path) : CertStore :=
  { s with files := Function.update s.files p none }

/-- Write a private key file. The restricted permissions are those of a file
    that is created; an existing file keeps its own. -/
def write_key_file (s : CertStore) (p : Path) (k : Key) : CertStore :=
  s.write p ⟨.key k, ((s.files p).map (·.mode)).getD 0o600⟩

/-- Write a certificate file, and set its permissions. -/
def write_cert_file (s : CertStore) (p : Path) (c : Cert) : CertStore :=
  s.write p ⟨.cert c, 0o644⟩

@[simp] theorem read_cert_write_cert_file (s : CertStore) (p q : Path) (c : Cert) :
    (s.write_cert_file p c).read_cert q = if q = p then some c else s.read_cert q := by
  by_cases h : q = p <;> simp [read_cert, write_cert_file, write, Function.update, h]

@[simp] theorem read_cert_write_key_file (s : CertStore) (p q : Path) (k : Key) :
    (s.write_key_file p k).read_cert q = if q = p then none else s.read_cert q := by
  by_cases h : q = p <;> simp [read_cert, write_key_file, write, Function.update, h]

@[simp] theorem read_key_write_key_file (s : CertStore) (p q : Path) (k : Key) :
    (s.write_key_file p k).read_key q = if q = p then some k else s.read_key q := by
  by_cases h : q = p <;> simp [read_key, write_key_file, write, Function.update, h]

@[simp] theorem read_key_write_cert_file (s : CertStore) (p q : Path) (c : Cert) :
    (s.write_cert_file p c).read_key q = if q = p then none else s.read_key q := by
  by_cases h : q = p <;> simp [read_key, write_cert_file, write, Function.update, h]

@[simp] theorem read_cert_remove (s : CertStore) (p q : Path) :
    (s.remove p).read_cert q = if q = p then none else s.read_cert q := by
  by_cases h : q = p <;> simp [read_cert, remove, Function.update, h]

@[simp] theorem read_key_remove (s : CertStore) (p q : Path) :
    (s.remove p).read_key q = if q = p then none else s.read_key q := by
  by_cases h : q = p <;> simp [read_key, remove, Function.update, h]

theorem exists_file_of_read_cert (s : CertStore) {p : Path} {c : Cert}
    (h : s.read_cert p = some c) : s.exists_file p = true := by
  unfold read_cert at h
  split at h
  · next hfile => simp [exists_file, hfile]
  · cases h

theorem exists_file_of_read_key (s : CertStore) {p : Path} {k : Key}
    (h : s.read_key p = some k) : s.exists_file p = true := by
  unfold read_key at h
  split at h
  · next hfile => simp [exists_file, hfile]
  · cases h

end CertStore

/-! ### Hostnames of certificates -/

/-- Sanitize a hostname for safe use as a filesystem path component. -/
def sanitize_hostname_for_filename (hostname : Str) : Str :=
  hostname.map fun c => if c.isAlphanum || c == '-' then c else '_'

/-- Validate that a hostname is safe for on-demand certificate generation. -/
def validate_sni_hostname (hostname : Str) : Bool :=
  if hostname = [] ∨ 253 < len hostname then false
  else if contains hostname ['/'] || contains hostname ['\\'] ||
      contains hostname [Char.ofNat 0] then
    false
  else if contains hostname "..".toList then false
  else hostname.all fun c => c.isAlphanum || c == '.' || c == '-'

def LOCAL_DOMAINS : List Str := ["localhost", "local", "test", "internal", "dev"].map String.toList

/-- Check if a domain suffix is a known local domain. -/
def is_local_domain (domain : Str) : Bool :=
  let lower := domain.map Char.toLower
  LOCAL_DOMAINS.any fun d => lower == d || ends_with lower ('.' :: d)

/-- The path of the certificate of a hostname. -/
def host_cert_path (hostname : Str) : Path :=
  HOST_CERTS_DIR ++ '/' :: (sanitize_hostname_for_filename hostname ++ ".pem".toList)

/-- The path of the key of a hostname. -/
def host_key_path (hostname : Str) : Path :=
  HOST_CERTS_DIR ++ '/' :: (sanitize_hostname_for_filename hostname ++ "-key.pem".toList)

/-! ### Validity -/

def DAY : Nat := 24 * 60 * 60

/-- CA certificate validity in days (10 years). -/
def CA_VALIDITY_DAYS : Nat := 3650

/-- Server certificate validity in days. -/
def SERVER_VALIDITY_DAYS : Nat := 365

/-- Regenerate certificates when they expire within this many days. -/
def EXPIRY_BUFFER_DAYS : Nat := 7

/-- A certificate that does not expire within the buffer. -/
def Cert.valid_at (c : Cert) (now : Nat) : Prop := now + EXPIRY_BUFFER_DAYS * DAY < c.not_after

instance (c : Cert) (now : Nat) : Decidable (c.valid_at now) := Nat.decLt _ _

theorem Cert.valid_at.earlier {c : Cert} {t t' : Nat} (h : c.valid_at t') (hle : t ≤ t') :
    c.valid_at t := by
  unfold valid_at at *
  omega

/-- Check whether the certificate at a path is still valid, accounting for the
    expiry buffer. -/
def is_cert_valid (s : CertStore) (cert_path : Path) : Bool :=
  match s.read_cert cert_path with
  | some c => decide (c.valid_at s.now)
  | none => false

theorem is_cert_valid_iff {s : CertStore} {p : Path} :
    is_cert_valid s p = true ↔ ∃ c, s.read_cert p = some c ∧ c.valid_at s.now := by
  unfold is_cert_valid
  cases s.read_cert p <;> simp

/-! ### Generation -/

/-- How far a generation gets with its two files before it fails, or the
    process stops. -/
inductive Reached where
  | nothing
  | key
  | cert
deriving DecidableEq

/-- Write the pair of files of a new certificate; whether the call returned
    `Ok`. -/
def write_pair (reached : Reached) (s : CertStore) (key_path cert_path : Path) (c : Cert) :
    CertStore × Bool :=
  let s := { s with next_key := s.next_key + 1 }
  -- the key file is written first
  match reached with
  | .nothing => (s, false)
  | .key => (s.write_key_file key_path c.key, false)
  | .cert => ((s.write_key_file key_path c.key).write_cert_file cert_path c, true)

/-- Generate a self-signed CA certificate and key. -/
def generate_ca (reached : Reached) (s : CertStore) : CertStore × Bool :=
  write_pair reached s CA_KEY_FILE CA_CERT_FILE
    { common_name := "nsl Local CA".toList, dns_names := [], key := s.next_key,
      issuer := s.next_key, not_after := s.now + CA_VALIDITY_DAYS * DAY }

/-- Load the CA signer from PEM files on disk. The key is not compared with the
    certificate. -/
def load_ca_keypair (s : CertStore) : Option (Cert × Key) :=
  match s.read_key CA_KEY_FILE, s.read_cert CA_CERT_FILE with
  | some k, some c => some (c, k)
  | _, _ => none

/-- Generate a server certificate signed by the local CA. -/
def generate_server_cert (reached : Reached) (s : CertStore) : CertStore × Bool :=
  match load_ca_keypair s with
  | none => (s, false)
  | some (_, ca_key) =>
    write_pair reached s SERVER_KEY_FILE SERVER_CERT_FILE
      { common_name := "localhost".toList,
        dns_names := ["localhost".toList, "*.localhost".toList], key := s.next_key,
        issuer := ca_key, not_after := s.now + SERVER_VALIDITY_DAYS * DAY }

/-- The DNS names of a host certificate: the hostname, and a wildcard for the
    names next to it under a local domain. -/
def host_dns_names (hostname : Str) : List Str :=
  hostname ::
    match split_once hostname '.' with
    | some (_, parent) => if is_local_domain parent then ["*.".toList ++ parent] else []
    | none => []

/-- Generate a per-hostname certificate signed by the local CA. -/
def generate_host_cert (reached : Reached) (s : CertStore) (hostname : Str) : CertStore × Bool :=
  if !validate_sni_hostname hostname then (s, false)
  else
    match load_ca_keypair s with
    | none => (s, false)
    | some (_, ca_key) =>
      write_pair reached s (host_key_path hostname) (host_cert_path hostname)
        { common_name := hostname, dns_names := host_dns_names hostname, key := s.next_key,
          issuer := ca_key, not_after := s.now + SERVER_VALIDITY_DAYS * DAY }

/-! ### Ensuring -/

/-- What happens to the writes of one call to `ensure_certs`. -/
structure EnsureOs where
  dir_created : Bool
  ca : Reached
  server : Reached

/-- Every write succeeds. -/
def EnsureOs.calm : EnsureOs := ⟨true, .cert, .cert⟩

/-- The CA is missing a file, or about to expire. -/
def ca_outdated (s : CertStore) : Bool :=
  !s.exists_file CA_CERT_FILE || !s.exists_file CA_KEY_FILE || !is_cert_valid s CA_CERT_FILE

/-- The server certificate is missing a file, or about to expire. -/
def server_outdated (s : CertStore) : Bool :=
  !s.exists_file SERVER_CERT_FILE || !s.exists_file SERVER_KEY_FILE ||
    !is_cert_valid s SERVER_CERT_FILE

/-- Ensure that both CA and server certificates exist and are valid. Generates
    missing or expired certificates as needed. -/
def ensure_certs (os : EnsureOs) (s : CertStore) : CertStore × Bool :=
  if !os.dir_created then (s, false)
  else
    let ca_regenerated := ca_outdated s
    let ca := if ca_regenerated then generate_ca os.ca s else (s, true)
    if !ca.2 then (ca.1, false)
    -- a new CA has not signed the server certificate on disk
    else if ca_regenerated || server_outdated ca.1 then generate_server_cert os.server ca.1
    else (ca.1, true)

end Nsl
