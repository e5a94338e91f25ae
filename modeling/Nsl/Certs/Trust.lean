import Nsl.Certs.Recovery

/-! # The CA in the trust store of the system

  `nsl trust` copies the CA certificate to the directory from which the system
  takes its local certificates, and then runs the command that compiles the
  store. Whether the CA is trusted already is decided by the copy alone, and
  only two of the three directories are looked at.

  - `trust_command`: the command, with the answers of the system as its input.
  - `Settled`: the invariant. A copy that is recognised has been compiled.
  - `trust_honest_iff`: the calls after which `nsl trust` never reports a CA
    that the system does not trust.
  - `failed_update_sticks`: what the other calls leave is reported as trusted,
    and no later call compiles the store.
  - `arch_installs_again`: the directory that is not looked at.

  Linux only: the keychain of macOS is not part of the model.
-/

open Rust Framework

namespace Nsl.Trust

/-! ### The machine -/

/-- The directories from which the systems take local certificates. -/
inductive Anchor where
  | debian
  | rhel
  | arch
deriving DecidableEq

/-- What is in the file of the CA there. A copy can be interrupted. -/
inductive AnchorFile where
  | pem (content : Pem)
  | torn
deriving DecidableEq

structure Machine where
  /-- `/etc/os-release`, if it can be read -/
  os_release : Option Str
  has_dir : Anchor → Bool

structure State where
  store : CertStore
  anchors : Anchor → Option AnchorFile
  /-- the file that the last compilation took into the trust store -/
  trusted : Option AnchorFile

def State.ca (s : State) : Option Pem := (s.store.files CA_CERT_FILE).map (·.content)

/-- Result of a trust installation attempt. -/
inductive TrustResult where
  | already_trusted
  | installed
  | permission_denied (msg : Str)
  | failed (msg : Str)
deriving DecidableEq

/-- What becomes of `fs::copy`. Without the permission nothing is opened. -/
inductive Copied where
  | ok
  | denied
  | failed (torn : Bool) (e : Str)
deriving DecidableEq

/-- What becomes of the command that compiles the store. One that fails may
    have done so before. -/
inductive Ran where
  | success
  | failure (compiled : Bool) (stderr : Str)
  | denied (e : Str)
  | error (e : Str)
deriving DecidableEq

def Ran.compiled : Ran → Bool
  | .success => true
  | .failure compiled _ => compiled
  | .denied _ => false
  | .error _ => false

/-! ### Installing -/

def TRY_SUDO : Str := "permission denied. Try: sudo nsl trust".toList

/-- `fs::copy` of the CA certificate, and the result it ends with unless it
    succeeds. -/
def copy_ca (a : Anchor) (ca : Pem) (o : Copied) (s : State) : State × Option TrustResult :=
  match o with
  | .ok => ({ s with anchors := Function.update s.anchors a (some (.pem ca)) }, none)
  | .denied => (s, some (.permission_denied TRY_SUDO))
  | .failed torn e =>
    (if torn then { s with anchors := Function.update s.anchors a (some .torn) } else s,
      some (.failed ("failed to copy CA cert: ".toList ++ e)))

/-- The command compiles the store from the directory. -/
def run_update (a : Anchor) (o : Ran) (s : State) : State :=
  if o.compiled then { s with trusted := s.anchors a } else s

/-- Copy the certificate and run the command. -/
def install (a : Anchor) (command : Str) (ca : Pem) (copy : Copied) (update : Ran) (s : State) :
    State × TrustResult :=
  match copy_ca a ca copy s with
  | (s, some result) => (s, result)
  | (s, none) =>
    (run_update a update s,
      match update with
      | .success => .installed
      | .failure _ stderr => .failed (command ++ " failed: ".toList ++ stderr)
      | .denied _ => .permission_denied TRY_SUDO
      | .error e => .failed ("failed to run ".toList ++ command ++ ": ".toList ++ e))

def trust_ca_debian (ca : Pem) (copy : Copied) (update : Ran) (s : State) : State × TrustResult :=
  install .debian "update-ca-certificates".toList ca copy update s

def trust_ca_rhel (ca : Pem) (copy : Copied) (update : Ran) (s : State) : State × TrustResult :=
  install .rhel "update-ca-trust".toList ca copy update s

/-- Unlike the others, it has no case for a command that may not be run. -/
def trust_ca_arch (ca : Pem) (copy : Copied) (update : Ran) (s : State) : State × TrustResult :=
  match copy_ca .arch ca copy s with
  | (s, some result) => (s, result)
  | (s, none) =>
    (run_update .arch update s,
      match update with
      | .success => .installed
      | .failure _ stderr => .failed ("trust extract-compat failed: ".toList ++ stderr)
      | .denied e => .failed ("failed to run trust extract-compat: ".toList ++ e)
      | .error e => .failed ("failed to run trust extract-compat: ".toList ++ e))

/-! ### The distribution -/

/-- `str::trim_matches` of a character. -/
def trim_matches (s : Str) (c : Char) : Str := (s.dropWhile (· = c)).rdropWhile (· = c)

/-- Parse the ID= field from os-release file content. -/
def parse_os_release_id_from_content (tbl : CaseTable) (content : Str) : Option Str :=
  (lines content).findSome? fun line =>
    strip_prefix (trim line) "ID=".toList |>.map fun value =>
      to_lowercase tbl (trim_matches (trim_matches value '"') '\'')

/-- Detect the Linux distribution ID from /etc/os-release. -/
def detect_linux_distro (tbl : CaseTable) (m : Machine) : Str :=
  (m.os_release.bind (parse_os_release_id_from_content tbl)).getD "unknown".toList

def UNSUPPORTED : Str :=
  ("unsupported Linux distribution; cannot auto-install CA. " ++
    "Please manually install the CA certificate.").toList

def trust_ca_linux (tbl : CaseTable) (m : Machine) (ca : Pem) (copy : Copied) (update : Ran)
    (s : State) : State × TrustResult :=
  let distro := detect_linux_distro tbl m
  if distro = "debian".toList ∨ distro = "ubuntu".toList then trust_ca_debian ca copy update s
  else if distro = "fedora".toList ∨ distro = "rhel".toList ∨ distro = "centos".toList ∨
      distro = "rocky".toList ∨ distro = "alma".toList then
    trust_ca_rhel ca copy update s
  else if distro = "arch".toList then trust_ca_arch ca copy update s
  else if m.has_dir .debian then trust_ca_debian ca copy update s
  else if m.has_dir .rhel then trust_ca_rhel ca copy update s
  else (s, .failed UNSUPPORTED)

/-! ### The command -/

/-- The file in one of the two directories that are looked at is the CA. -/
def is_ca_trusted_linux (s : State) : Bool :=
  match s.ca with
  | none => false
  | some our_pem =>
    decide (s.anchors .debian = some (.pem our_pem)) ||
      decide (s.anchors .rhel = some (.pem our_pem))

/-- The answers of the system to one command, and how it writes paths and
    errors. -/
structure TrustOs where
  ensure : EnsureOs
  copy : Copied
  update : Ran
  ca_cert_path : Str
  ensure_error : Str

/-- Install the local CA into the system trust store. -/
def trust_ca (tbl : CaseTable) (m : Machine) (os : TrustOs) (s : State) :
    State × Except Str TrustResult :=
  match s.ca with
  | none => (s, .error ("CA certificate not found at ".toList ++ os.ca_cert_path))
  | some ca =>
    if is_ca_trusted_linux s then (s, .ok .already_trusted)
    else
      let done := trust_ca_linux tbl m ca os.copy os.update s
      (done.1, .ok done.2)

/-- The last line that the command prints, or its error. -/
def reported (result : Except Str TrustResult) : Except Str Str :=
  match result with
  | .error e => .error e
  | .ok .already_trusted => .ok "CA is already trusted by the system.".toList
  | .ok .installed => .ok "CA installed successfully. HTTPS is now available.".toList
  | .ok (.permission_denied msg) => .error msg
  | .ok (.failed msg) => .error ("failed to install CA: ".toList ++ msg)

def State.ensured (s : State) (os : TrustOs) : State :=
  { s with store := (ensure_certs os.ensure s.store).1 }

/-- `nsl trust`. -/
def trust_command (tbl : CaseTable) (m : Machine) (os : TrustOs) (s : State) :
    State × Except Str Str :=
  if (ensure_certs os.ensure s.store).2 then
    let done := trust_ca tbl m os (s.ensured os)
    (done.1, reported done.2)
  else (s.ensured os, .error ("failed to generate certificates: ".toList ++ os.ensure_error))

/-! ### The system -/

/-- The directory that the machine takes certificates from, as far as the
    command knows. -/
def own_anchor (tbl : CaseTable) (m : Machine) : Option Anchor :=
  let distro := detect_linux_distro tbl m
  if distro = "debian".toList ∨ distro = "ubuntu".toList then some .debian
  else if distro = "fedora".toList ∨ distro = "rhel".toList ∨ distro = "centos".toList ∨
      distro = "rocky".toList ∨ distro = "alma".toList then
    some .rhel
  else if distro = "arch".toList then some .arch
  else if m.has_dir .debian then some .debian
  else if m.has_dir .rhel then some .rhel
  else none

inductive Action where
  | trust (os : TrustOs)
  /-- another program compiles the store -/
  | recompile
  /-- the state directory is changed, by the daemon or by another program -/
  | change (files : Path → Option PemFile)
  | pass (seconds : Nat)

def recompile (own : Option Anchor) (s : State) : State :=
  match own with
  | some a => { s with trusted := s.anchors a }
  | none => s

/-- A recognised copy is in the directory of the machine, and has been
    compiled. -/
def Settled (own : Option Anchor) (s : State) : Prop :=
  ∀ a, a = .debian ∨ a = .rhel → ∀ p, s.anchors a = some (.pem p) →
    own = some a ∧ s.trusted = some (.pem p)

def system (tbl : CaseTable) (m : Machine) : System State Action where
  init := Settled (own_anchor tbl m)
  step s
    | .trust os => some (trust_command tbl m os s).1
    | .recompile => some (recompile (own_anchor tbl m) s)
    | .change files => some { s with store := { s.store with files := files } }
    | .pass seconds => some { s with store := { s.store with now := s.store.now + seconds } }

/-- The system trusts the CA of the state directory. -/
def CaTrusted (s : State) : Prop := ∃ p, s.ca = some p ∧ s.trusted = some (.pem p)

/-- No call of `nsl trust` succeeds and leaves a CA that the system does not
    trust. -/
def Honest (tbl : CaseTable) (m : Machine) (s : State) : Prop :=
  ∀ os line, (trust_command tbl m os s).2 = .ok line → CaTrusted (trust_command tbl m os s).1

/-- Where a copy is recognised, a call that makes one has the store compiled, or
    finds the CA in it. -/
def Completes (tbl : CaseTable) (m : Machine) (os : TrustOs) (s : State) : Prop :=
  (ensure_certs os.ensure s.store).2 = true → is_ca_trusted_linux (s.ensured os) = false →
    own_anchor tbl m = some .debian ∨ own_anchor tbl m = some .rhel → os.copy = .ok →
      os.update.compiled = true ∨ CaTrusted (s.ensured os)

def Completing (tbl : CaseTable) (m : Machine) (s : State) (a : Action) (_ : State) : Prop :=
  match a with
  | .trust os => Completes tbl m os s
  | _ => True

/-! ### One call -/

/-- What an installation does, and whether it succeeds. -/
inductive Outcome (own : Option Anchor) (ca : Pem) (copy : Copied) (update : Ran) (s : State) :
    State → Bool → Prop where
  | unsupported (hown : own = none) : Outcome own ca copy update s s false
  | refused (hcopy : copy ≠ .ok) : Outcome own ca copy update s s false
  | torn (a : Anchor) (hown : own = some a) (hcopy : copy ≠ .ok) :
    Outcome own ca copy update s
      { s with anchors := Function.update s.anchors a (some .torn) } false
  | copied (a : Anchor) (hown : own = some a) (hcopy : copy = .ok) :
    Outcome own ca copy update s
      (run_update a update { s with anchors := Function.update s.anchors a (some (.pem ca)) })
      (decide (update = .success))

/-- An installation reports whether it has succeeded, and never that there was
    nothing to do. -/
def Reports (own : Option Anchor) (ca : Pem) (copy : Copied) (update : Ran) (s : State)
    (done : State × TrustResult) : Prop :=
  Outcome own ca copy update s done.1 (decide (done.2 = .installed)) ∧
    done.2 ≠ .already_trusted

section outcome

variable {tbl : CaseTable} {m : Machine} {own : Option Anchor} {a : Anchor} {command : Str}
  {ca : Pem} {copy : Copied} {update : Ran} {s : State}

theorem copy_ca_refused {o : Copied} {result : TrustResult} (hown : own = some a)
    (h : (copy_ca a ca o s).2 = some result) :
    Reports own ca o update s ((copy_ca a ca o s).1, result) := by
  cases o with
  | ok => cases h
  | denied =>
    cases h
    exact ⟨.refused nofun, nofun⟩
  | failed torn e =>
    cases h
    refine ⟨?_, nofun⟩
    cases torn with
    | true => exact .torn a hown nofun
    | false => exact .refused nofun

theorem reports_install (hown : own = some a) :
    Reports own ca copy update s (install a command ca copy update s) := by
  cases copy with
  | ok => cases update <;> exact ⟨.copied a hown rfl, nofun⟩
  | denied => exact copy_ca_refused hown rfl
  | failed torn e => exact copy_ca_refused hown rfl

theorem reports_arch (hown : own = some .arch) :
    Reports own ca copy update s (trust_ca_arch ca copy update s) := by
  cases copy with
  | ok => cases update <;> exact ⟨.copied .arch hown rfl, nofun⟩
  | denied => exact copy_ca_refused hown rfl
  | failed torn e => exact copy_ca_refused hown rfl

theorem reports_linux :
    Reports (own_anchor tbl m) ca copy update s (trust_ca_linux tbl m ca copy update s) := by
  simp only [trust_ca_linux, own_anchor]
  split
  · exact reports_install rfl
  split
  · exact reports_install rfl
  split
  · exact reports_arch rfl
  split
  · exact reports_install rfl
  split
  · exact reports_install rfl
  · exact ⟨.unsupported rfl, nofun⟩

end outcome

/-- What a call of the command does, and whether it succeeds. -/
inductive Called (own : Option Anchor) (os : TrustOs) (s : State) : State → Bool → Prop where
  | not_ensured (hensure : (ensure_certs os.ensure s.store).2 = false) :
    Called own os s (s.ensured os) false
  | no_ca (hca : (s.ensured os).ca = none) : Called own os s (s.ensured os) false
  | already (hensure : (ensure_certs os.ensure s.store).2 = true)
    (htrusted : is_ca_trusted_linux (s.ensured os) = true) :
    Called own os s (s.ensured os) true
  | tried (ca : Pem) (hensure : (ensure_certs os.ensure s.store).2 = true)
    (hca : (s.ensured os).ca = some ca) (htrusted : is_ca_trusted_linux (s.ensured os) = false)
    {s' : State} {ok : Bool} (h : Outcome own ca os.copy os.update (s.ensured os) s' ok) :
    Called own os s s' ok

theorem called_trust_command (tbl : CaseTable) (m : Machine) (os : TrustOs) (s : State) :
    Called (own_anchor tbl m) os s (trust_command tbl m os s).1
      (trust_command tbl m os s).2.isOk := by
  unfold trust_command
  cases hensure : (ensure_certs os.ensure s.store).2 with
  | false => exact .not_ensured hensure
  | true =>
    unfold trust_ca
    cases hca : (s.ensured os).ca with
    | none => exact .no_ca hca
    | some ca =>
      cases htrusted : is_ca_trusted_linux (s.ensured os) with
      | true => exact .already hensure htrusted
      | false =>
        have hreports : Reports (own_anchor tbl m) ca os.copy os.update (s.ensured os)
            (trust_ca_linux tbl m ca os.copy os.update (s.ensured os)) := reports_linux
        simp only [if_true, Bool.false_eq_true, if_false]
        generalize trust_ca_linux tbl m ca os.copy os.update (s.ensured os) = done at hreports ⊢
        obtain ⟨s', result⟩ := done
        obtain ⟨houtcome, hnot⟩ := hreports
        cases result with
        | already_trusted => exact absurd rfl hnot
        | installed => exact .tried ca hensure hca htrusted houtcome
        | permission_denied msg => exact .tried ca hensure hca htrusted houtcome
        | failed msg => exact .tried ca hensure hca htrusted houtcome

/-! ### The invariant -/

theorem recognised_own_iff {s : State} {p : Pem} (hca : s.ca = some p) :
    is_ca_trusted_linux s = true ↔
      ∃ a, (a = .debian ∨ a = .rhel) ∧ s.anchors a = some (.pem p) := by
  simp [is_ca_trusted_linux, hca]

/-- The invariant is not about the state directory. -/
theorem Settled.store {own : Option Anchor} {s : State} (h : Settled own s) (store : CertStore) :
    Settled own { s with store := store } := h

theorem Settled.recompile {own : Option Anchor} {s : State} (h : Settled own s) :
    Settled own (recompile own s) := by
  cases own with
  | none => exact h
  | some b =>
    intro a ha p hp
    obtain ⟨hown, _⟩ := h a ha p hp
    cases hown
    exact ⟨rfl, hp⟩

theorem Settled.tried {own : Option Anchor} {s s' : State} {ca : Pem} {copy : Copied}
    {update : Ran} {ok : Bool} (h : Settled own s) (hca : s.ca = some ca)
    (houtcome : Outcome own ca copy update s s' ok)
    (hcompletes : own = some .debian ∨ own = some .rhel → copy = .ok →
      update.compiled = true ∨ CaTrusted s) :
    Settled own s' := by
  cases houtcome with
  | unsupported => exact h
  | refused => exact h
  | torn a hown hcopy =>
    intro b hb p hp
    by_cases hba : b = a
    · simp [hba] at hp
    · simp only [Function.update_of_ne hba] at hp
      exact h b hb p hp
  | copied a hown hcopy =>
    intro b hb p hp
    unfold run_update at hp ⊢
    by_cases hba : b = a
    · subst hba
      have hp' : p = ca := by
        split at hp <;> simpa using hp.symm
      subst hp'
      refine ⟨hown, ?_⟩
      have hcompiles : own = some .debian ∨ own = some .rhel := by
        rw [hown]
        exact hb.imp (congrArg some) (congrArg some)
      have hcompiled := hcompletes hcompiles hcopy
      split
      · simp
      · next hnot =>
        obtain ⟨q, hq, htrusted⟩ := hcompiled.resolve_left hnot
        rw [hca] at hq
        cases hq
        exact htrusted
    · -- the file of another directory is there before the call
      have hbefore : s.anchors b = some (.pem p) := by
        split at hp <;> simpa [Function.update_of_ne hba] using hp
      have hother := (h b hb p hbefore).1
      rw [hown] at hother
      exact absurd (Option.some.inj hother).symm hba

theorem Settled.trust {own : Option Anchor} {os : TrustOs} {s s' : State} {ok : Bool}
    (h : Settled own s) (hcalled : Called own os s s' ok)
    (hcompletes : (ensure_certs os.ensure s.store).2 = true →
      is_ca_trusted_linux (s.ensured os) = false → own = some .debian ∨ own = some .rhel →
        os.copy = .ok → os.update.compiled = true ∨ CaTrusted (s.ensured os)) :
    Settled own s' := by
  cases hcalled with
  | not_ensured => exact h.store _
  | no_ca => exact h.store _
  | already => exact h.store _
  | tried ca hensure hca htrusted houtcome =>
    exact (h.store _).tried hca houtcome (hcompletes hensure htrusted)

/-- What a settled machine reports is true, whatever the system answers. -/
theorem Settled.honest {own : Option Anchor} {os : TrustOs} {s s' : State} (h : Settled own s)
    (hcalled : Called own os s s' true) : CaTrusted s' := by
  generalize hok : true = ok at hcalled
  cases hcalled with
  | not_ensured => cases hok
  | no_ca => cases hok
  | already hensure htrusted =>
    cases hca : (s.ensured os).ca with
    | none => simp [is_ca_trusted_linux, hca] at htrusted
    | some p =>
      obtain ⟨a, ha, hp⟩ := (recognised_own_iff hca).mp htrusted
      exact ⟨p, hca, (h.store _ a ha p hp).2⟩
  | tried ca hensure hca htrusted houtcome =>
    cases houtcome with
    | unsupported => cases hok
    | refused => cases hok
    | torn => cases hok
    | copied a hown hcopy =>
      have hsuccess := of_decide_eq_true hok.symm
      rw [hsuccess]
      exact ⟨ca, hca, by simp [run_update, Ran.compiled]⟩

/-! ### Ensuring twice -/

/-- A pair that has just been written is not outdated. -/
theorem not_outdated_write_pair {s : CertStore} {key_path cert_path : Path} {c : Cert}
    (hne : key_path ≠ cert_path) (hvalid : c.valid_at s.now) :
    let s' := (write_pair .cert s key_path cert_path c).1
    (!s'.exists_file cert_path || !s'.exists_file key_path || !is_cert_valid s' cert_path) =
      false := by
  simp [write_pair, is_cert_valid, CertStore.write_cert_file, CertStore.write_key_file,
    CertStore.write, CertStore.exists_file, CertStore.read_cert, Function.update, hne, hvalid]

theorem ca_outdated_write_server {reached : Reached} {s : CertStore} {c : Cert} :
    ca_outdated (write_pair reached s SERVER_KEY_FILE SERVER_CERT_FILE c).1 = ca_outdated s := by
  obtain ⟨_, h₂, h₃, h₄, h₅, _⟩ := Recovery.paths_ne
  have hcert : (write_pair reached s SERVER_KEY_FILE SERVER_CERT_FILE c).1.exists_file
      CA_CERT_FILE = s.exists_file CA_CERT_FILE := by
    cases reached <;> simp [write_pair, h₄, h₅]
  have hkey : (write_pair reached s SERVER_KEY_FILE SERVER_CERT_FILE c).1.exists_file
      CA_KEY_FILE = s.exists_file CA_KEY_FILE := by
    cases reached <;> simp [write_pair, h₂, h₃]
  have hread : (write_pair reached s SERVER_KEY_FILE SERVER_CERT_FILE c).1.read_cert
      CA_CERT_FILE = s.read_cert CA_CERT_FILE := by
    cases reached <;> simp [write_pair, h₄, h₅]
  simp only [ca_outdated, is_cert_valid, hcert, hkey, hread, write_pair_now]

/-- A server certificate that has been generated is fresh, and the CA is that of
    before. -/
theorem generated_server_cert {reached : Reached} {s : CertStore}
    (hok : (generate_server_cert reached s).2 = true) :
    server_outdated (generate_server_cert reached s).1 = false ∧
      ca_outdated (generate_server_cert reached s).1 = ca_outdated s := by
  unfold generate_server_cert at hok ⊢
  cases hload : load_ca_keypair s with
  | none => simp [hload] at hok
  | some pair =>
    simp only [hload, write_pair_ok, decide_eq_true_eq] at hok
    subst hok
    refine ⟨not_outdated_write_pair (by decide) ?_, ca_outdated_write_server⟩
    exact Nat.add_lt_add_left (by decide) _

/-- What a call that succeeds leaves is not outdated. -/
theorem current_of_ensured {os : EnsureOs} {s : CertStore} (hok : (ensure_certs os s).2 = true) :
    ca_outdated (ensure_certs os s).1 = false ∧ server_outdated (ensure_certs os s).1 = false := by
  rcases ensure_certs_cases os s with ⟨_, heq⟩ | ⟨hca, hserver, heq⟩ | ⟨hca, _, heq⟩ |
    ⟨_, _, _, heq⟩ | ⟨_, _, _, heq⟩ <;> rw [heq] at hok ⊢
  · cases hok
  · exact ⟨hca, hserver⟩
  · obtain ⟨hserver, hsame⟩ := generated_server_cert hok
    exact ⟨hsame.trans hca, hserver⟩
  · cases hok
  · obtain ⟨hserver, hsame⟩ := generated_server_cert hok
    refine ⟨hsame.trans ?_, hserver⟩
    exact not_outdated_write_pair (by decide) (Nat.add_lt_add_left (by decide) _)

/-- A second call, with no time between, has nothing to do. -/
theorem ensure_certs_again {os : EnsureOs} {s : CertStore} (hok : (ensure_certs os s).2 = true) :
    ensure_certs .calm (ensure_certs os s).1 = ((ensure_certs os s).1, true) := by
  obtain ⟨hca, hserver⟩ := current_of_ensured hok
  generalize (ensure_certs os s).1 = s' at hca hserver
  simp [ensure_certs, EnsureOs.calm, hca, hserver]

theorem ca_of_ensured {os : TrustOs} {s : State} (hok : (ensure_certs os.ensure s.store).2 = true) :
    ∃ p, (s.ensured os).ca = some p := by
  have hca := (current_of_ensured hok).1
  simp only [ca_outdated, Bool.or_eq_false_iff, Bool.not_eq_false'] at hca
  obtain ⟨file, hfile⟩ := Option.isSome_iff_exists.mp hca.1.1
  exact ⟨file.content, by simp [State.ca, State.ensured, hfile]⟩

/-! ### Runs -/

variable {tbl : CaseTable} {m : Machine}

/-- One step. -/
theorem Settled.step {s s' : State} {a : Action} (h : Settled (own_anchor tbl m) s)
    (hstep : (system tbl m).step s a = some s') (hg : Completing tbl m s a s') :
    Settled (own_anchor tbl m) s' := by
  cases a with
  | trust os =>
    cases hstep
    exact h.trust (called_trust_command tbl m os s) hg
  | recompile =>
    cases hstep
    exact h.recompile
  | change files =>
    cases hstep
    exact h.store _
  | pass seconds =>
    cases hstep
    exact h.store _

theorem Settled.run {s s' : State} {acts : List Action} (h : Settled (own_anchor tbl m) s)
    (hrun : (system tbl m).Steps (Completing tbl m) s acts s') :
    Settled (own_anchor tbl m) s' :=
  hrun.invariant h fun _ _ _ hinv hstep hg => hinv.step hstep hg

theorem Settled.is_honest {s : State} (h : Settled (own_anchor tbl m) s) : Honest tbl m s := by
  intro os line hok
  have hcalled := called_trust_command tbl m os s
  rw [hok] at hcalled
  exact h.honest hcalled

/-- A recognised copy that has not been compiled. -/
def Stuck (s : State) : Prop :=
  ∃ p, s.ca = some p ∧ is_ca_trusted_linux s = true ∧ s.trusted ≠ some (.pem p)

/-- A call that copies and does not compile. -/
theorem stuck_of_not_completes {os : TrustOs} {s : State} (h : ¬ Completes tbl m os s) :
    (ensure_certs os.ensure s.store).2 = true ∧ Stuck (trust_command tbl m os s).1 ∧
      (trust_command tbl m os s).1.store = (s.ensured os).store ∧
      (trust_command tbl m os s).1.trusted = s.trusted := by
  simp only [Completes, Classical.not_imp, not_or] at h
  obtain ⟨hensure, htrusted, hown, hcopy, hcompiled, hnot⟩ := h
  refine ⟨hensure, ?_⟩
  have hcalled := called_trust_command tbl m os s
  generalize (trust_command tbl m os s).1 = s', (trust_command tbl m os s).2.isOk = ok at hcalled
  cases hcalled with
  | not_ensured h => exact absurd (hensure.symm.trans h) nofun
  | no_ca h =>
    obtain ⟨p, hp⟩ := ca_of_ensured hensure
    exact absurd (h.symm.trans hp) nofun
  | already _ h => exact absurd (htrusted.symm.trans h) nofun
  | tried ca _ hca _ houtcome =>
    cases houtcome with
    | unsupported h => rcases hown with hown | hown <;> exact absurd (h.symm.trans hown) nofun
    | refused h => exact absurd hcopy h
    | torn _ _ h => exact absurd hcopy h
    | copied a hown' _ =>
      have ha : a = .debian ∨ a = .rhel := by
        rw [hown'] at hown
        exact hown.imp Option.some.inj Option.some.inj
      have hrun : run_update a os.update
          { s.ensured os with
            anchors := Function.update (s.ensured os).anchors a (some (.pem ca)) } =
          { s.ensured os with
            anchors := Function.update (s.ensured os).anchors a (some (.pem ca)) } :=
        if_neg hcompiled
      rw [hrun]
      refine ⟨⟨ca, hca, ?_, fun htrusted => hnot ⟨ca, hca, htrusted⟩⟩, rfl, rfl⟩
      refine (recognised_own_iff (p := ca) ?_).mpr ⟨a, ha, ?_⟩
      · exact hca
      · simp

theorem trust_of_recognised (tbl : CaseTable) (m : Machine) {os : TrustOs} {s : State}
    (hensure : (ensure_certs os.ensure s.store).2 = true)
    (htrusted : is_ca_trusted_linux (s.ensured os) = true) :
    trust_command tbl m os s =
      (s.ensured os, .ok "CA is already trusted by the system.".toList) := by
  obtain ⟨p, hp⟩ := ca_of_ensured hensure
  simp [trust_command, trust_ca, hensure, hp, htrusted, reported]

/-- **`nsl trust` tells the truth** in every run of calls that complete, exactly
    when the call before that run does. -/
theorem trust_honest_iff (tbl : CaseTable) (m : Machine) {s : State}
    (hinit : (system tbl m).init s) (os : TrustOs) :
    (∀ acts s', (system tbl m).Steps (Completing tbl m) (trust_command tbl m os s).1 acts s' →
      Honest tbl m s') ↔ Completes tbl m os s := by
  constructor
  · intro h
    by_contra hnot
    obtain ⟨hensure, ⟨p, hp, hrecognised, hne⟩, hstore, _⟩ := stuck_of_not_completes hnot
    -- the next call finds the copy
    have hagain : ensure_certs .calm (trust_command tbl m os s).1.store =
        ((trust_command tbl m os s).1.store, true) := by
      rw [hstore]
      exact ensure_certs_again hensure
    have hhonest := h [] _ .nil
    generalize (trust_command tbl m os s).1 = s' at *
    have hsame : s'.ensured { os with ensure := .calm } = s' := by
      rw [State.ensured, hagain]
    have hcall : trust_command tbl m { os with ensure := .calm } s' =
        (s'.ensured { os with ensure := .calm },
          .ok "CA is already trusted by the system.".toList) :=
      trust_of_recognised tbl m (by rw [hagain]) (by rw [hsame]; exact hrecognised)
    rw [hsame] at hcall
    obtain ⟨q, hq, htrusted⟩ := hhonest { os with ensure := .calm } _ (congrArg Prod.snd hcall)
    rw [hcall] at hq htrusted
    rw [hp] at hq
    cases hq
    exact hne htrusted
  · intro hcompletes acts s' hrun
    have hsettled : Settled (own_anchor tbl m) (trust_command tbl m os s).1 :=
      hinit.trust (called_trust_command tbl m os s) hcompletes
    exact (hsettled.run hrun).is_honest

/-- A first call on a machine, whose command succeeds. -/
def debian : Machine := ⟨some "NAME=\"Debian GNU/Linux\"\nID=debian\n".toList, fun _ => true⟩

def untouched : State := ⟨⟨fun _ => none, 0, 0⟩, fun _ => none, none⟩

def calls (update : Ran) : TrustOs := ⟨.calm, .ok, update, [], []⟩

theorem trust_honest_debian :
    Honest asciiTable debian (trust_command asciiTable debian (calls .success) untouched).1 :=
  (trust_honest_iff asciiTable debian (fun _ _ _ hp => absurd hp (by simp [untouched]))
    (calls .success)).mpr (fun _ _ _ _ => .inl rfl) [] _ .nil

/-! ### A copy that was never compiled -/

/-- The CA stays, and no other program compiles the store. -/
def Undisturbed (s : State) (a : Action) (s' : State) : Prop := s'.ca = s.ca ∧ a ≠ .recompile

theorem recognised_congr {s s' : State} (hca : s'.ca = s.ca) (hanchors : s'.anchors = s.anchors) :
    is_ca_trusted_linux s' = is_ca_trusted_linux s := by
  simp only [is_ca_trusted_linux, hca, hanchors]

theorem Stuck.congr {s s' : State} (h : Stuck s) (hca : s'.ca = s.ca)
    (hanchors : s'.anchors = s.anchors) (htrusted : s'.trusted = s.trusted) : Stuck s' := by
  obtain ⟨p, hp, hrecognised, hne⟩ := h
  exact ⟨p, hca.trans hp, (recognised_congr hca hanchors).trans hrecognised, by rwa [htrusted]⟩

/-- An installation leaves the state directory alone. -/
theorem Outcome.store {own : Option Anchor} {ca : Pem} {copy : Copied} {update : Ran}
    {s s' : State} {ok : Bool} (h : Outcome own ca copy update s s' ok) : s'.store = s.store := by
  cases h with
  | unsupported => rfl
  | refused => rfl
  | torn => rfl
  | copied a =>
    unfold run_update
    split <;> rfl

/-- A call of the command does not get as far as the copy. -/
theorem Stuck.called {own : Option Anchor} {os : TrustOs} {s s' : State} {ok : Bool}
    (h : Stuck s) (hcalled : Called own os s s' ok) (hca : s'.ca = s.ca) : s' = s.ensured os := by
  cases hcalled with
  | not_ensured => rfl
  | no_ca => rfl
  | already => rfl
  | tried ca _ _ htrusted houtcome =>
    obtain ⟨p, hp, hrecognised, _⟩ := h
    have hsame : s'.ca = (s.ensured os).ca := by rw [State.ca, houtcome.store, State.ca]
    rw [recognised_congr (hsame.symm.trans hca) rfl, hrecognised] at htrusted
    cases htrusted

/-- One step. -/
theorem Stuck.step {s s' : State} {a : Action} (h : Stuck s)
    (hstep : (system tbl m).step s a = some s') (hg : Undisturbed s a s') :
    Stuck s' ∧ s'.trusted = s.trusted := by
  obtain ⟨hca, ha⟩ := hg
  cases a with
  | trust os =>
    cases hstep
    have hstate := h.called (called_trust_command tbl m os s) hca
    rw [hstate] at hca ⊢
    exact ⟨h.congr hca rfl rfl, rfl⟩
  | recompile => exact absurd rfl ha
  | change files =>
    cases hstep
    exact ⟨h.congr hca rfl rfl, rfl⟩
  | pass seconds =>
    cases hstep
    exact ⟨h.congr hca rfl rfl, rfl⟩

/-- **After a failed compilation** every later call reports the CA as trusted,
    and none of them compiles the store. -/
theorem failed_update_sticks {s s' : State} {os : TrustOs} {acts : List Action}
    (hfailed : ¬ Completes tbl m os s)
    (hrun : (system tbl m).Steps Undisturbed (trust_command tbl m os s).1 acts s') :
    s'.trusted = s.trusted ∧ ¬ CaTrusted s' ∧
      ∀ os', (ensure_certs os'.ensure s'.store).2 = true → (s'.ensured os').ca = s'.ca →
        trust_command tbl m os' s' =
          (s'.ensured os', .ok "CA is already trusted by the system.".toList) := by
  obtain ⟨_, hstuck, _, htrusted⟩ := stuck_of_not_completes hfailed
  have hrun' : Stuck s' ∧ s'.trusted = (trust_command tbl m os s).1.trusted := by
    refine hrun.invariant
      (I := fun s' => Stuck s' ∧ s'.trusted = (trust_command tbl m os s).1.trusted)
      ⟨hstuck, rfl⟩ ?_
    intro s₁ a s₂ ⟨h, hsame⟩ hstep hg
    obtain ⟨h', hsame'⟩ := h.step hstep hg
    exact ⟨h', hsame'.trans hsame⟩
  obtain ⟨⟨p, hp, hrecognised, hne⟩, hsame⟩ := hrun'
  refine ⟨hsame.trans htrusted, ?_, ?_⟩
  · intro ⟨q, hq, hcompiled⟩
    rw [hp] at hq
    cases hq
    exact hne hcompiled
  · intro os' hensure hca
    exact trust_of_recognised tbl m hensure ((recognised_congr hca rfl).trans hrecognised)

/-- The command cannot be found, and `nsl trust` is called again when it can. -/
theorem failed_update_sticks_debian :
    ∃ s, (system asciiTable debian).Steps Undisturbed
        (trust_command asciiTable debian (calls (.error "not found".toList)) untouched).1
        [.pass DAY] s ∧
      (trust_command asciiTable debian (calls .success) s).2 =
        .ok "CA is already trusted by the system.".toList ∧ s.trusted = none := by
  have hrun : (system asciiTable debian).Steps Undisturbed
      (trust_command asciiTable debian (calls (.error "not found".toList)) untouched).1
      [.pass DAY] _ := .cons rfl ⟨rfl, nofun⟩ .nil
  have hstuck := failed_update_sticks (s := untouched) (fun h => by
    obtain hcompiled | ⟨_, _, htrusted⟩ := h (by decide) (by decide) (.inl (by decide)) rfl
    · cases hcompiled
    · cases htrusted) hrun
  refine ⟨_, hrun, ?_, hstuck.1⟩
  rw [hstuck.2.2 (calls .success) (by decide) (by decide)]

/-! ### The directory that is not looked at -/

/-- **On Arch** the copy is never recognised: whatever happened before, a call
    that succeeds has compiled the store once more. -/
theorem arch_installs_again {s s' : State} {acts : List Action}
    (harch : own_anchor tbl m = some .arch) (hinit : (system tbl m).init s)
    (hrun : (system tbl m).Steps System.anyStep s acts s') (os : TrustOs) :
    is_ca_trusted_linux s' = false ∧
      ((trust_command tbl m os s').2.isOk = true → os.copy = .ok ∧ os.update = .success) := by
  have hsettled : Settled (own_anchor tbl m) s' := by
    refine hrun.invariant hinit fun s₁ a s₂ h hstep _ => h.step hstep ?_
    cases a with
    | trust os =>
      intro _ _ hown
      rw [harch] at hown
      rcases hown with hown | hown <;> cases hown
    | recompile => trivial
    | change files => trivial
    | pass seconds => trivial
  -- a recognised copy would be in another directory than that of the machine
  have hunseen : ∀ store, is_ca_trusted_linux { s' with store := store } = false := by
    intro store
    rw [← Bool.not_eq_true]
    intro htrusted
    cases hca : ({ s' with store := store } : State).ca with
    | none => simp [is_ca_trusted_linux, hca] at htrusted
    | some p =>
      obtain ⟨a, ha, hp⟩ := (recognised_own_iff hca).mp htrusted
      have hown := (hsettled a ha p hp).1
      rw [harch] at hown
      rcases ha with rfl | rfl <;> cases hown
  refine ⟨hunseen s'.store, ?_⟩
  have hcalled := called_trust_command tbl m os s'
  generalize (trust_command tbl m os s').1 = s'', (trust_command tbl m os s').2.isOk = ok at hcalled
  rintro rfl
  generalize hok : true = ok at hcalled
  cases hcalled with
  | not_ensured => cases hok
  | no_ca => cases hok
  | already _ htrusted => exact absurd ((hunseen _).symm.trans htrusted) nofun
  | tried ca _ _ _ houtcome =>
    cases houtcome with
    | unsupported => cases hok
    | refused => cases hok
    | torn => cases hok
    | copied a _ hcopy => exact ⟨hcopy, of_decide_eq_true hok.symm⟩

def arch : Machine := ⟨some "NAME=\"Arch Linux\"\nID=arch\n".toList, fun _ => false⟩

/-- The command has succeeded, and is called again. -/
theorem arch_installs_twice :
    is_ca_trusted_linux
      (trust_command asciiTable arch (calls .success) untouched).1 = false :=
  have hrun : (system asciiTable arch).Steps System.anyStep untouched [.trust (calls .success)]
      (trust_command asciiTable arch (calls .success) untouched).1 := .cons rfl trivial .nil
  (arch_installs_again (by decide) (fun _ _ _ hp => absurd hp (by simp [untouched])) hrun
    (calls .success)).1

end Nsl.Trust
