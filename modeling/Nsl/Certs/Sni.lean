import Nsl.Certs.Generate
import Nsl.Framework.System

/-! # The SNI resolver

  A resolver is loaded with the server certificate, and keeps the host
  certificates it has resolved in memory. Behind its cache are the files of the
  state directory, and behind these the generation of a new certificate.

  The system is a state directory with any number of resolvers: every daemon
  start builds one. Between the calls the files of the CA may be lost, and time
  passes.
-/

open Rust Framework

namespace Nsl

/-- A certificate chain with the key to sign for it. -/
structure CertifiedKey where
  cert : List Cert
  key : Key
deriving DecidableEq

/-- Load a certified key from PEM files. A file that holds a key has no
    certificates in it; the key is not compared with the certificates. -/
def load_certified_key (s : CertStore) (cert_path key_path : Path) : Option CertifiedKey :=
  if s.exists_file cert_path then
    (s.read_key key_path).map fun k => ⟨(s.read_cert cert_path).toList, k⟩
  else none

/-- Maximum number of cached per-hostname certs. -/
def MAX_SNI_CACHE_SIZE : Nat := 1000

structure SniCertResolver where
  /-- Default server cert (for "localhost" and unknown SNI). -/
  default_key : CertifiedKey
  /-- In-memory cache of per-hostname certified keys. -/
  cache : List (Str × CertifiedKey)
deriving DecidableEq

namespace SniCertResolver

/-- Create a new SNI resolver from the server cert and key. -/
def new (s : CertStore) : Option SniCertResolver :=
  (load_certified_key s SERVER_CERT_FILE SERVER_KEY_FILE).map fun ck => ⟨ck, []⟩

/-- Keep a resolved key, unless the cache is full. -/
def insert (r : SniCertResolver) (hostname : Str) (ck : CertifiedKey) : SniCertResolver :=
  if r.cache.length < MAX_SNI_CACHE_SIZE then { r with cache := (hostname, ck) :: r.cache } else r

/-- The key pair of a hostname on disk, if it is still valid. -/
def load_host (s : CertStore) (hostname : Str) : Option CertifiedKey :=
  if s.exists_file (host_cert_path hostname) && s.exists_file (host_key_path hostname) &&
      is_cert_valid s (host_cert_path hostname) then
    load_certified_key s (host_cert_path hostname) (host_key_path hostname)
  else none

/-- Generate a certificate on demand and load it. -/
def generate_and_load (reached : Reached) (s : CertStore) (hostname : Str) :
    CertStore × Option CertifiedKey :=
  let generated := generate_host_cert reached s hostname
  if generated.2 then
    (generated.1,
      load_certified_key generated.1 (host_cert_path hostname) (host_key_path hostname))
  else (generated.1, none)

/-- Resolve a certified key for the given hostname. For "localhost" or empty
    SNI, returns the default key. For other hostnames, looks up the disk cache,
    generates on demand if needed. -/
def resolve_for_hostname (reached : Reached) (s : CertStore) (r : SniCertResolver)
    (hostname : Str) : CertStore × SniCertResolver × CertifiedKey :=
  if hostname = [] ∨ hostname = "localhost".toList then (s, r, r.default_key)
  else if !validate_sni_hostname hostname then (s, r, r.default_key)
  else
    match r.cache.lookup hostname with
    -- the age of a cached key is not looked at
    | some ck => (s, r, ck)
    | none =>
      match load_host s hostname with
      | some ck => (s, r.insert hostname ck, ck)
      | none =>
        match generate_and_load reached s hostname with
        | (s', some ck) => (s', r.insert hostname ck, ck)
        | (s', none) => (s', r, r.default_key)

end SniCertResolver

/-! ### The system -/

namespace Certs

/-- A state directory with the resolvers built from it. A resolver is kept with
    the number of calls to `ensure_certs` that had succeeded when it was
    built. -/
structure State where
  store : CertStore
  ensured : Nat
  resolvers : List (Nat × SniCertResolver)

inductive Action where
  | ensure_certs (os : EnsureOs)
  | new
  | resolve (i : Nat) (reached : Reached) (hostname : Str)
  | lose_ca_key
  | lose_ca_cert
  | pass (seconds : Nat)

def step (s : State) : Action → Option State
  | .ensure_certs os =>
    let ensured := Nsl.ensure_certs os s.store
    some { s with store := ensured.1, ensured := s.ensured + ensured.2.toNat }
  | .new => (SniCertResolver.new s.store).map fun r =>
      { s with resolvers := s.resolvers ++ [(s.ensured, r)] }
  | .resolve i reached hostname => s.resolvers[i]?.map fun (n, r) =>
      let resolved := r.resolve_for_hostname reached s.store hostname
      { s with store := resolved.1, resolvers := s.resolvers.set i (n, resolved.2.1) }
  | .lose_ca_key => some { s with store := s.store.remove CA_KEY_FILE }
  | .lose_ca_cert => some { s with store := s.store.remove CA_CERT_FILE }
  | .pass seconds => some { s with store := { s.store with now := s.store.now + seconds } }

/-- An empty state directory. -/
def empty : State where
  store := ⟨fun _ => none, 0, 0⟩
  ensured := 0
  resolvers := []

def system : System State Action where
  init s := s = empty
  step := step

end Certs

end Nsl
