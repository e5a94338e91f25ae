import Nsl.Certs.Chain

/-! # The files of host certificates

  The two files of a hostname are named after it: the sanitized hostname, then
  `.pem` for the certificate and `-key.pem` for the key. A hyphen is legal in a
  hostname, so the key of `app` and the certificate of `app-key` are one file.

  - `sanitize_injective`: the sanitizer by itself keeps hostnames apart.
  - `host_files_disjoint_iff`: two hostnames share a file exactly when one is
    the other with `-key` after it.
  - `host_files_apart_iff`: the hostnames under which no run ever turns a key
    into a certificate, or writes a key into the file of a certificate.
-/

open Rust Framework

namespace Nsl

/-! ### The paths -/

/-- What the key of a hostname has between the hostname and `.pem`. -/
def KEY_SUFFIX : Str := "-key".toList

/-- A character that may stand in a hostname of a certificate. -/
def is_sni_char (c : Char) : Bool := c.isAlphanum || c == '.' || c == '-'

theorem all_of_validate {hostname : Str} (h : validate_sni_hostname hostname = true) :
    ∀ c ∈ hostname, is_sni_char c = true := by
  unfold validate_sni_hostname at h
  split at h
  · cases h
  split at h
  · cases h
  split at h
  · cases h
  exact List.all_eq_true.mp h

/-- Dots become underscores, which a hostname does not have. -/
theorem sanitize_char_injective {c d : Char} (hc : is_sni_char c = true) (hd : is_sni_char d = true)
    (h : (if c.isAlphanum || c == '-' then c else '_') =
      if d.isAlphanum || d == '-' then d else '_') : c = d := by
  have hunderscore : is_sni_char '_' = false := by decide
  have hdot : ∀ {e : Char}, is_sni_char e = true → (e.isAlphanum || e == '-') = false →
      e = '.' := by
    intro e he hother
    rw [Bool.or_eq_false_iff] at hother
    simpa [is_sni_char, hother.1, hother.2] using he
  by_cases hc' : (c.isAlphanum || c == '-') = true <;>
    by_cases hd' : (d.isAlphanum || d == '-') = true
  · simpa only [hc', hd', if_true] using h
  · rw [if_pos hc', if_neg hd'] at h
    rw [h, hunderscore] at hc
    cases hc
  · rw [if_neg hc', if_pos hd'] at h
    rw [← h, hunderscore] at hd
    cases hd
  · rw [hdot hc (Bool.eq_false_iff.mpr hc'), hdot hd (Bool.eq_false_iff.mpr hd')]

/-- The sanitizer keeps hostnames apart. -/
theorem sanitize_injective {g h : Str} (hg : ∀ c ∈ g, is_sni_char c = true)
    (hh : ∀ c ∈ h, is_sni_char c = true)
    (heq : sanitize_hostname_for_filename g = sanitize_hostname_for_filename h) : g = h := by
  unfold sanitize_hostname_for_filename at heq
  induction g generalizing h with
  | nil => exact (List.map_eq_nil_iff.mp heq.symm).symm
  | cons c g ih =>
    cases h with
    | nil => cases heq
    | cons d h =>
      rw [List.map_cons, List.map_cons] at heq
      obtain ⟨hhead, htail⟩ := List.cons.inj heq
      have hcd := sanitize_char_injective (hg c List.mem_cons_self) (hh d List.mem_cons_self) hhead
      rw [hcd, ih (fun e he => hg e (List.mem_cons_of_mem _ he))
        (fun e he => hh e (List.mem_cons_of_mem _ he)) htail]

/-- The key of a hostname is where the certificate of the hostname with `-key`
    after it is. -/
theorem host_key_path_eq (hostname : Str) :
    host_key_path hostname = host_cert_path (hostname ++ KEY_SUFFIX) := by
  have hsuffix : sanitize_hostname_for_filename KEY_SUFFIX ++ ".pem".toList =
      "-key.pem".toList := by decide
  unfold host_key_path host_cert_path
  rw [← hsuffix]
  simp [sanitize_hostname_for_filename]

theorem host_cert_path_injective {g h : Str} (hg : ∀ c ∈ g, is_sni_char c = true)
    (hh : ∀ c ∈ h, is_sni_char c = true) (heq : host_cert_path g = host_cert_path h) : g = h := by
  unfold host_cert_path at heq
  have hfile := (List.cons.inj (List.append_cancel_left heq)).2
  exact sanitize_injective hg hh (List.append_cancel_right hfile)

theorem all_append_key {hostname : Str} (h : ∀ c ∈ hostname, is_sni_char c = true) :
    ∀ c ∈ hostname ++ KEY_SUFFIX, is_sni_char c = true := by
  have hkey : ∀ c ∈ KEY_SUFFIX, is_sni_char c = true :=
    List.all_eq_true.mp (by decide)
  intro c hc
  rcases List.mem_append.mp hc with hc | hc
  · exact h c hc
  · exact hkey c hc

/-- The certificate of one hostname and the key of another (or the same) one
    share a file only if the former is the latter with `-key` after it. -/
theorem host_cert_path_eq_key_iff {g h : Str} (hg : ∀ c ∈ g, is_sni_char c = true)
    (hh : ∀ c ∈ h, is_sni_char c = true) :
    host_cert_path g = host_key_path h ↔ g = h ++ KEY_SUFFIX := by
  rw [host_key_path_eq]
  exact ⟨host_cert_path_injective hg (all_append_key hh), fun heq => by rw [heq]⟩

/-- The files of a hostname. -/
def host_files (hostname : Str) : List Path := [host_cert_path hostname, host_key_path hostname]

/-- **Two hostnames share a file** exactly when one is the other with `-key`
    after it. -/
theorem host_files_disjoint_iff {g h : Str} (hg : validate_sni_hostname g = true)
    (hh : validate_sni_hostname h = true) (hne : g ≠ h) :
    (∀ p ∈ host_files g, p ∉ host_files h) ↔ g ≠ h ++ KEY_SUFFIX ∧ h ≠ g ++ KEY_SUFFIX := by
  have hg' := all_of_validate hg
  have hh' := all_of_validate hh
  have hcerts : host_cert_path g ≠ host_cert_path h :=
    fun heq => hne (host_cert_path_injective hg' hh' heq)
  have hkeys : host_key_path g ≠ host_key_path h := by
    rw [host_key_path_eq, host_key_path_eq]
    intro heq
    exact hne (List.append_cancel_right
      (host_cert_path_injective (all_append_key hg') (all_append_key hh') heq))
  have hmixed := host_cert_path_eq_key_iff hg' hh'
  have hmixed' := host_cert_path_eq_key_iff hh' hg'
  rw [Ne, Ne, ← hmixed, ← hmixed']
  simp only [host_files, List.mem_cons, List.not_mem_nil, or_false, forall_eq_or_imp, forall_eq,
    not_or, hcerts, hkeys, not_false_iff, true_and, and_true]
  exact and_congr_right fun _ => ne_comm

/-- The two files of one hostname differ. -/
theorem host_cert_path_ne_key {h : Str} (hh : validate_sni_hostname h = true) :
    host_cert_path h ≠ host_key_path h := by
  have hh' := all_of_validate hh
  rw [Ne, host_cert_path_eq_key_iff hh' hh']
  intro heq
  have hlen := congrArg List.length heq
  simp [KEY_SUFFIX] at hlen

/-! ### Keys and certificates on disk -/

/-- Every key is in a private file among `keys`, and every certificate in a
    file among `certs`. -/
structure Filed (keys certs : Path → Prop) (s : CertStore) : Prop where
  key : ∀ p k m, s.files p = some ⟨.key k, m⟩ → keys p ∧ m = 0o600
  cert : ∀ p c m, s.files p = some ⟨.cert c, m⟩ → certs p

/-- A file stays what it is, as long as it is there: the file of a key does not
    receive a certificate, and that of a certificate does not receive a key. -/
def KeepsKinds (s s' : CertStore) : Prop :=
  ∀ p k m c m', ¬ (s.files p = some ⟨.key k, m⟩ ∧ s'.files p = some ⟨.cert c, m'⟩) ∧
    ¬ (s.files p = some ⟨.cert c, m⟩ ∧ s'.files p = some ⟨.key k, m'⟩)

/-- No key is in a file that others may read. -/
def KeysPrivate (s : CertStore) : Prop := ∀ p k m, s.files p = some ⟨.key k, m⟩ → m = 0o600

section filed

variable {keys certs : Path → Prop} {s : CertStore}

theorem files_write (p q : Path) (file : PemFile) :
    (s.write p file).files q = if q = p then some file else s.files q := by
  by_cases hqp : q = p <;> simp [CertStore.write, Function.update, hqp]

theorem files_remove (p q : Path) :
    (s.remove p).files q = if q = p then none else s.files q := by
  by_cases hqp : q = p <;> simp [CertStore.remove, Function.update, hqp]

theorem Filed.keepsKinds {s' : CertStore} (h : Filed keys certs s) (h' : Filed keys certs s')
    (hapart : ∀ p, keys p → ¬ certs p) : KeepsKinds s s' := by
  intro p k m c m'
  refine ⟨?_, ?_⟩
  · rintro ⟨hold, hnew⟩
    exact hapart p (h.key p k m hold).1 (h'.cert p c m' hnew)
  · rintro ⟨hold, hnew⟩
    exact hapart p (h'.key p k m' hnew).1 (h.cert p c m hold)

/-- Writing a file of the right kind. -/
theorem Filed.write {p : Path} {file : PemFile} (h : Filed keys certs s)
    (hkey : ∀ k m, file = ⟨.key k, m⟩ → keys p ∧ m = 0o600)
    (hcert : ∀ c m, file = ⟨.cert c, m⟩ → certs p) : Filed keys certs (s.write p file) := by
  refine ⟨?_, ?_⟩
  · intro q k m hq
    rw [files_write] at hq
    by_cases hqp : q = p
    · rw [if_pos hqp] at hq
      exact hqp ▸ hkey k m (Option.some.inj hq)
    · rw [if_neg hqp] at hq
      exact h.key q k m hq
  · intro q c m hq
    rw [files_write] at hq
    by_cases hqp : q = p
    · rw [if_pos hqp] at hq
      exact hqp ▸ hcert c m (Option.some.inj hq)
    · rw [if_neg hqp] at hq
      exact h.cert q c m hq

theorem Filed.write_key_file {p : Path} {k : Key} (h : Filed keys certs s) (hkey : keys p)
    (hnot : ¬ certs p) : Filed keys certs (s.write_key_file p k) := by
  -- the mode is that of the file before, which is a key, or that of a new file
  have hmode : ((s.files p).map (·.mode)).getD 0o600 = 0o600 := by
    cases hfile : s.files p with
    | none => rfl
    | some file =>
      obtain ⟨content, m⟩ := file
      cases content with
      | key k' => exact (h.key p k' m hfile).2
      | cert c => exact absurd (h.cert p c m hfile) hnot
  unfold CertStore.write_key_file
  rw [hmode]
  apply h.write
  · intro k' m heq
    cases heq
    exact ⟨hkey, rfl⟩
  · intro c m heq
    cases heq

theorem Filed.write_cert_file {p : Path} {c : Cert} (h : Filed keys certs s) (hcert : certs p) :
    Filed keys certs (s.write_cert_file p c) := by
  apply h.write
  · intro k m heq
    cases heq
  · intro c' m _
    exact hcert

theorem Filed.write_pair {key_path cert_path : Path} {c : Cert} (h : Filed keys certs s)
    (reached : Reached) (hkey : keys key_path) (hnot : ¬ certs key_path)
    (hcert : certs cert_path) :
    Filed keys certs (write_pair reached s key_path cert_path c).1 := by
  have hnow : Filed keys certs { s with next_key := s.next_key + 1 } := ⟨h.key, h.cert⟩
  cases reached with
  | nothing => exact hnow
  | key => exact hnow.write_key_file hkey hnot
  | cert => exact (hnow.write_key_file hkey hnot).write_cert_file hcert

theorem Filed.remove {p : Path} (h : Filed keys certs s) : Filed keys certs (s.remove p) := by
  have hold : ∀ q file, (s.remove p).files q = some file → s.files q = some file := by
    intro q file hq
    rw [files_remove] at hq
    split at hq
    · cases hq
    · exact hq
  exact ⟨fun q k m hq => h.key q k m (hold q _ hq), fun q c m hq => h.cert q c m (hold q _ hq)⟩

end filed

/-! ### Runs -/

/-- The files of keys, when only certificates for `names` are generated. -/
def KeyPath (names : Str → Prop) (p : Path) : Prop :=
  p = CA_KEY_FILE ∨ p = SERVER_KEY_FILE ∨
    ∃ h, names h ∧ validate_sni_hostname h = true ∧ p = host_key_path h

/-- The files of certificates, likewise. -/
def CertPath (names : Str → Prop) (p : Path) : Prop :=
  p = CA_CERT_FILE ∨ p = SERVER_CERT_FILE ∨
    ∃ h, names h ∧ validate_sni_hostname h = true ∧ p = host_cert_path h

/-- No two acceptable hostnames among `names` are such that one is the other
    with `-key` after it. -/
def NoKeyTwins (names : Str → Prop) : Prop :=
  ∀ h, names h → validate_sni_hostname h = true → names (h ++ KEY_SUFFIX) →
    validate_sni_hostname (h ++ KEY_SUFFIX) = false

theorem keyPath_not_certPath {names : Str → Prop} (hnames : NoKeyTwins names) {p : Path}
    (hkey : KeyPath names p) : ¬ CertPath names p := by
  rcases hkey with rfl | rfl | ⟨g, hg, hvalid, rfl⟩
  · rintro (h | h | ⟨h, _, _, heq⟩)
    · exact absurd h (by decide)
    · exact absurd h (by decide)
    · exact host_cert_path_ne (by decide) heq.symm
  · rintro (h | h | ⟨h, _, _, heq⟩)
    · exact absurd h (by decide)
    · exact absurd h (by decide)
    · exact host_cert_path_ne (by decide) heq.symm
  · rintro (h | h | ⟨h, hh, hvalid', heq⟩)
    · exact host_key_path_ne (by decide) h
    · exact host_key_path_ne (by decide) h
    · -- the certificate of `h` is the key of `g`
      have htwin := (host_cert_path_eq_key_iff (all_of_validate hvalid')
        (all_of_validate hvalid)).mp heq.symm
      subst htwin
      rw [hnames g hg hvalid hh] at hvalid'
      cases hvalid'

/-- Only hostnames in `names` are resolved. -/
def Requests (names : Str → Prop) (_ : Certs.State) (a : Certs.Action) (_ : Certs.State) : Prop :=
  match a with
  | .resolve _ _ hostname => names hostname
  | _ => True

section steps

variable {names : Str → Prop} {s : CertStore}

/-- The files are where they belong. -/
def FiledFor (names : Str → Prop) (s : CertStore) : Prop :=
  Filed (KeyPath names) (CertPath names) s

theorem FiledFor.generate_server_cert (hnames : NoKeyTwins names) (h : FiledFor names s)
    (reached : Reached) : FiledFor names (generate_server_cert reached s).1 := by
  unfold Nsl.generate_server_cert
  split
  · exact h
  · exact h.write_pair reached (.inr (.inl rfl))
      (keyPath_not_certPath hnames (.inr (.inl rfl))) (.inr (.inl rfl))

theorem FiledFor.generate_ca (hnames : NoKeyTwins names) (h : FiledFor names s)
    (reached : Reached) : FiledFor names (generate_ca reached s).1 :=
  h.write_pair reached (.inl rfl) (keyPath_not_certPath hnames (.inl rfl)) (.inl rfl)

theorem FiledFor.ensure_certs (hnames : NoKeyTwins names) (h : FiledFor names s) (os : EnsureOs) :
    FiledFor names (ensure_certs os s).1 := by
  rcases ensure_certs_cases os s with ⟨_, heq⟩ | ⟨_, _, heq⟩ | ⟨_, _, heq⟩ | ⟨_, _, _, heq⟩ |
    ⟨_, _, _, heq⟩ <;> rw [heq]
  · exact h
  · exact h
  · exact h.generate_server_cert hnames _
  · exact h.generate_ca hnames _
  · exact (h.generate_ca hnames .cert).generate_server_cert hnames _

theorem FiledFor.generate_host_cert (hnames : NoKeyTwins names) (h : FiledFor names s)
    (reached : Reached) {hostname : Str} (hname : names hostname) :
    FiledFor names (generate_host_cert reached s hostname).1 := by
  unfold Nsl.generate_host_cert
  by_cases hvalid : validate_sni_hostname hostname = true
  swap
  · simp only [hvalid, Bool.not_false, if_true]
    exact h
  simp only [hvalid, Bool.not_true, Bool.false_eq_true, if_false]
  have hkey : KeyPath names (host_key_path hostname) := .inr (.inr ⟨_, hname, hvalid, rfl⟩)
  split
  · exact h
  · exact h.write_pair reached hkey (keyPath_not_certPath hnames hkey)
      (.inr (.inr ⟨_, hname, hvalid, rfl⟩))

theorem FiledFor.resolve (hnames : NoKeyTwins names) (h : FiledFor names s)
    (reached : Reached) (r : SniCertResolver) {hostname : Str} (hname : names hostname) :
    FiledFor names (r.resolve_for_hostname reached s hostname).1 := by
  have hgenerated := h.generate_host_cert hnames reached hname
  rw [← generate_and_load_fst] at hgenerated
  rcases resolve_cases reached s r hostname with heq | ⟨_, _, heq⟩ | ⟨_, _, heq⟩ | ⟨_, _, heq⟩ |
    heq <;> rw [heq]
  · exact h
  · exact h
  · exact h
  · exact hgenerated
  · exact hgenerated

theorem FiledFor.step {t t' : Certs.State} {a : Certs.Action} (hnames : NoKeyTwins names)
    (h : FiledFor names t.store) (hstep : Certs.step t a = some t')
    (hrequests : Requests names t a t') : FiledFor names t'.store := by
  cases a with
  | ensure_certs os =>
    cases hstep
    exact h.ensure_certs hnames os
  | new =>
    obtain ⟨r, _, rfl⟩ := Option.map_eq_some_iff.mp hstep
    exact h
  | resolve i reached hostname =>
    obtain ⟨⟨n, r⟩, _, rfl⟩ := Option.map_eq_some_iff.mp hstep
    exact h.resolve hnames reached r hrequests
  | lose_ca_key =>
    cases hstep
    exact Filed.remove h
  | lose_ca_cert =>
    cases hstep
    exact Filed.remove h
  | pass seconds =>
    cases hstep
    exact ⟨h.key, h.cert⟩

end steps

/-- The files of the host certificates for `names` are apart: those of two
    hostnames, those of one, and those of keys and of certificates, in every
    run in which no other hostnames are resolved. -/
structure HostFilesApart (names : Str → Prop) : Prop where
  pairs : ∀ g h, names g → names h → validate_sni_hostname g = true →
    validate_sni_hostname h = true → g ≠ h → ∀ p ∈ host_files g, p ∉ host_files h
  own : ∀ h, names h → validate_sni_hostname h = true → host_cert_path h ≠ host_key_path h
  kinds : ∀ acts s a s', Certs.system.Steps (Requests names) Certs.empty acts s →
    Certs.step s a = some s' → Requests names s a s' → KeepsKinds s.store s'.store
  modes : ∀ acts s, Certs.system.Steps (Requests names) Certs.empty acts s → KeysPrivate s.store

/-- **Host certificates never overwrite each other** exactly where no two
    acceptable hostnames are such that one is the other with `-key` after
    it. -/
theorem host_files_apart_iff (names : Str → Prop) : HostFilesApart names ↔ NoKeyTwins names := by
  refine ⟨?_, ?_⟩
  · intro h g hg hvalid htwin
    rw [← Bool.not_eq_true]
    intro hvalid'
    have hne : g ++ KEY_SUFFIX ≠ g := by
      intro heq
      have hlen := congrArg List.length heq
      simp [KEY_SUFFIX] at hlen
    have hapart := h.pairs _ g htwin hg hvalid' hvalid hne
    exact ((host_files_disjoint_iff hvalid' hvalid hne).mp hapart).1 rfl
  · intro hnames
    have hfiled : ∀ acts s, Certs.system.Steps (Requests names) Certs.empty acts s →
        FiledFor names s.store := by
      intro acts s hrun
      apply hrun.invariant (I := fun s => FiledFor names s.store)
      · exact ⟨nofun, nofun⟩
      · exact fun _ _ _ h hstep hg => h.step hnames hstep hg
    refine ⟨?_, fun h _ hvalid => host_cert_path_ne_key hvalid, ?_, ?_⟩
    · intro g h hg hh hvalid hvalid' hne
      rw [host_files_disjoint_iff hvalid hvalid' hne]
      refine ⟨?_, ?_⟩
      · rintro rfl
        rw [hnames h hh hvalid' hg] at hvalid
        cases hvalid
      · rintro rfl
        rw [hnames g hg hvalid hh] at hvalid'
        cases hvalid'
    · intro acts s a s' hrun hstep hrequests
      have h := hfiled acts s hrun
      exact h.keepsKinds (h.step hnames hstep hrequests) fun p => keyPath_not_certPath hnames
    · intro acts s hrun p k m hfile
      exact ((hfiled acts s hrun).key p k m hfile).2

/-! ### Two clients -/

/-- A daemon that serves TLS, after a client has asked for `first`. -/
def asked_for (first : String) : List Certs.Action :=
  [.ensure_certs .calm, .new, .resolve 0 .cert first.toList]

/-- The key of `app` is in the file of the certificate of `app-key`: the
    certificate is written over the key when `app` is asked for first, and the
    key into the file that everybody may read when `app-key` is. -/
theorem app_key_file_shared :
    ¬ HostFilesApart (fun _ => True) ∧
    (∃ s s' k c, Certs.system.Steps System.anyStep Certs.empty (asked_for "app") s ∧
      Certs.step s (.resolve 0 .cert "app-key".toList) = some s' ∧
      s.store.files (host_key_path "app".toList) = some ⟨.key k, 0o600⟩ ∧
      s'.store.files (host_key_path "app".toList) = some ⟨.cert c, 0o644⟩) ∧
    (∃ s s' k c, Certs.system.Steps System.anyStep Certs.empty (asked_for "app-key") s ∧
      Certs.step s (.resolve 0 .cert "app".toList) = some s' ∧
      s.store.files (host_key_path "app".toList) = some ⟨.cert c, 0o644⟩ ∧
      s'.store.files (host_key_path "app".toList) = some ⟨.key k, 0o644⟩) := by
  refine ⟨?_, ?_, ?_⟩
  · intro h
    exact h.pairs "app".toList "app-key".toList trivial trivial (by decide) (by decide) (by decide)
      (host_key_path "app".toList) (by decide) (by decide)
  · refine ⟨_, _, 2, ⟨"app-key".toList, ["app-key".toList], 3, 0, SERVER_VALIDITY_DAYS * DAY⟩,
      .cons rfl trivial (.cons rfl trivial (.cons rfl trivial .nil)), rfl, ?_, ?_⟩
    · decide
    · decide
  · refine ⟨_, _, 3, ⟨"app-key".toList, ["app-key".toList], 2, 0, SERVER_VALIDITY_DAYS * DAY⟩,
      .cons rfl trivial (.cons rfl trivial (.cons rfl trivial .nil)), rfl, ?_, ?_⟩
    · decide
    · decide

end Nsl
