import Nsl.Framework.Boundary
import Nsl.Utils.Hostname

/-! # Path prefixes of routes

  A route is mounted under a path prefix. The store keeps the prefix it was
  given after one pass of `normalize_path_prefix`; the matcher normalizes the
  stored prefix once more. One pass removes one trailing slash, so the two
  agree only on prefixes that are fixed points of the pass.

  - `MountShape`: the prefixes that can come from the command line.
  - `path_matches_iff`: matching is the separated-prefix order on normalized
    prefixes.
  - `sameMount_iff`: two prefixes denote the same mount exactly when their
    normalized forms are equal.
-/

open Rust Framework

namespace Nsl

/-- Normalize a path prefix: ensure leading slash, strip trailing slash
    (unless it is the root "/"). -/
def normalize_path_prefix (path : Str) : Str :=
  let p := if starts_with path ['/'] then path else '/' :: path
  -- remove trailing slash unless it's the root
  if 1 < len p ∧ ends_with p ['/'] then p.dropLast else p

/-- Check if a request path matches a route's path prefix. `/api` matches
    `/api`, `/api/`, `/api/users`, but not `/apifoo`. -/
def path_matches_prefix (request_path path_prefix : Str) : Bool :=
  if path_prefix = ['/'] then true
  else
    let norm := normalize_path_prefix path_prefix
    if request_path = norm then true
    else starts_with request_path (norm ++ ['/'])

/-- Strip the matched prefix from the request path. The result is always at
    least "/". -/
def strip_path_prefix (request_path path_prefix : Str) : Str :=
  let norm := normalize_path_prefix path_prefix
  let stripped := strip_prefix request_path norm |>.getD request_path
  if stripped = [] ∨ ¬ starts_with stripped ['/'] then
    '/' :: trim_start_matches stripped '/'
  else
    stripped

/-! ### The prefixes that reach the store -/

/-- The root, or a slash followed by text that does not start with a slash. -/
def MountShape (p : Str) : Prop :=
  p = ['/'] ∨ ∃ c rest, c ≠ '/' ∧ p = '/' :: c :: rest

theorem mountShape_split_name_path (raw : Str) : MountShape (split_name_path raw).2 :=
  split_name_path_snd raw

@[simp] theorem normalize_root : normalize_path_prefix ['/'] = ['/'] := by decide

/-- On a mount shape the leading slash is there already: a pass leaves the
    prefix alone, or removes the slash it ends in. -/
theorem normalize_cases {p : Str} (hp : MountShape p) :
    normalize_path_prefix p = p ∧ (p = ['/'] ∨ ¬ ['/'] <:+ p) ∨
      p = normalize_path_prefix p ++ ['/'] ∧ p ≠ ['/'] := by
  obtain rfl | ⟨c, rest, _, rfl⟩ := hp
  · exact .inl ⟨normalize_root, .inl rfl⟩
  · have hlead : starts_with ('/' :: c :: rest) ['/'] = true := by
      rw [starts_with_iff]
      exact ⟨c :: rest, rfl⟩
    have hlen : 1 < len ('/' :: c :: rest) := by
      have := length_le_len ('/' :: c :: rest)
      simp only [List.length_cons] at this
      omega
    unfold normalize_path_prefix
    simp only [hlead, if_true]
    by_cases hend : ['/'] <:+ '/' :: c :: rest
    · have hpop : 1 < len ('/' :: c :: rest) ∧ ends_with ('/' :: c :: rest) ['/'] = true :=
        ⟨hlen, ends_with_iff.mpr hend⟩
      obtain ⟨x, hx⟩ := hend
      rw [if_pos hpop, ← hx, List.dropLast_concat]
      refine .inr ⟨rfl, ?_⟩
      intro hroot
      rw [hroot] at hx
      cases hx
    · have hkeep : ¬ (1 < len ('/' :: c :: rest) ∧
          ends_with ('/' :: c :: rest) ['/'] = true) :=
        fun h => hend (ends_with_iff.mp h.2)
      rw [if_neg hkeep]
      exact .inl ⟨rfl, .inr hend⟩

theorem MountShape.ne_nil {p : Str} (hp : MountShape p) : p ≠ [] := by
  obtain rfl | ⟨c, rest, _, rfl⟩ := hp
  · exact List.cons_ne_nil _ _
  · exact List.cons_ne_nil _ _

/-- A pass keeps the shape. -/
theorem MountShape.normalize {p : Str} (hp : MountShape p) :
    MountShape (p |> normalize_path_prefix) := by
  obtain ⟨h, _⟩ | ⟨h, hne⟩ := normalize_cases hp
  · rwa [h]
  · obtain rfl | ⟨c, rest, hc, hp⟩ := hp
    · exact absurd rfl hne
    · -- the slash that is removed is not the second character
      cases hn : normalize_path_prefix p with
      | nil =>
        rw [hn, hp] at h
        cases h
      | cons a t =>
        rw [hn, hp] at h
        obtain ⟨rfl, htail⟩ := List.cons.inj h
        cases t with
        | nil =>
          obtain ⟨rfl, _⟩ := List.cons.inj htail
          exact absurd rfl hc
        | cons b t =>
          obtain ⟨rfl, _⟩ := List.cons.inj htail
          exact .inr ⟨c, t, hc, rfl⟩

/-- Only the root is normalized to the root. -/
theorem normalize_eq_root_iff {p : Str} (hp : MountShape p) :
    normalize_path_prefix p = ['/'] ↔ p = ['/'] := by
  refine ⟨?_, fun h => by rw [h, normalize_root]⟩
  intro hn
  obtain ⟨h, _⟩ | ⟨h, _⟩ := normalize_cases hp
  · rw [← h, hn]
  · rw [hn] at h
    obtain rfl | ⟨c, rest, hc, rfl⟩ := hp
    · rfl
    · obtain ⟨_, htail⟩ := List.cons.inj h
      obtain ⟨rfl, _⟩ := List.cons.inj htail
      exact absurd rfl hc

/-- The stored prefix is at most one slash longer than its normalized form. -/
theorem len_le_normalize {p : Str} (hp : MountShape p) :
    len p ≤ len (p |> normalize_path_prefix) + 1 ∧ len (p |> normalize_path_prefix) ≤ len p := by
  obtain ⟨h, _⟩ | ⟨h, _⟩ := normalize_cases hp
  · rw [h]
    omega
  · have hlen := congrArg len h
    have hslash : len ['/'] = 1 := by decide
    rw [len_append, hslash] at hlen
    omega

/-! ### Matching -/

theorem path_matches_root (p : Str) : path_matches_prefix p ['/'] = true := rfl

/-- Away from the root, a path matches when the normalized prefix is a
    separated prefix of it. -/
theorem path_matches_iff {p pre : Str} (hpre : pre ≠ ['/']) :
    path_matches_prefix p pre = true ↔ SepPrefix '/' (pre |> normalize_path_prefix) p := by
  unfold path_matches_prefix SepPrefix
  rw [if_neg hpre]
  by_cases h : p = normalize_path_prefix pre
  · simp [h]
  · have h' : normalize_path_prefix pre ≠ p := fun e => h e.symm
    simp [h, h']

/-- Two prefixes denote the same mount: they accept the same request paths. -/
def SameMount (a b : Str) : Prop :=
  ∀ p, path_matches_prefix p a = path_matches_prefix p b

/-- No prefix but the root accepts the empty path. -/
theorem path_matches_nil {pre : Str} (hpre : MountShape pre) (hne : pre ≠ ['/']) :
    path_matches_prefix [] pre = false := by
  rw [← Bool.not_eq_true, path_matches_iff hne]
  intro h
  have hnil := h.length_le
  have := hpre.normalize.ne_nil
  simp only [List.length_nil, Nat.le_zero, List.length_eq_zero_iff] at hnil
  exact this hnil

/-- **Mounts are normalized prefixes**: two prefixes from the command line
    denote the same mount exactly when one pass makes them equal. -/
theorem sameMount_iff {a b : Str} (ha : MountShape a) (hb : MountShape b) :
    SameMount a b ↔ normalize_path_prefix a = normalize_path_prefix b := by
  by_cases har : a = ['/']
  · subst har
    rw [normalize_root, eq_comm (a := ['/']), normalize_eq_root_iff hb]
    refine ⟨?_, fun h => by rw [h]; exact fun _ => rfl⟩
    intro h
    by_contra hbr
    -- the empty path tells the root from every other mount
    have := h []
    rw [path_matches_root, path_matches_nil hb hbr] at this
    cases this
  · by_cases hbr : b = ['/']
    · subst hbr
      rw [normalize_root, normalize_eq_root_iff ha]
      refine ⟨?_, fun h => absurd h har⟩
      intro h
      have := h []
      rw [path_matches_root, path_matches_nil ha har] at this
      cases this
    · refine ⟨?_, ?_⟩
      · intro h
        apply SepPrefix.eq_of_iff
        intro p
        rw [← path_matches_iff har, ← path_matches_iff hbr, h p]
      · intro h p
        rw [Bool.eq_iff_iff, path_matches_iff har, path_matches_iff hbr, h]

/-! ### Segments -/

/-- The segments of a normalized prefix: the root has none. -/
def segments (p : Str) : List Str :=
  if p = ['/'] then [] else (p.splitOn '/').tail

theorem length_splitOn_slash (p : Str) : (p.splitOn '/').length = p.count '/' + 1 := by
  induction p with
  | nil => rfl
  | cons c p ih =>
    rw [List.splitOn_cons_eq_if_modifyHead]
    by_cases hc : c = '/'
    · subst hc
      simp [ih]
    · simp [hc, ih]

theorem length_segments {p : Str} (hp : p ≠ ['/']) : (segments p).length = p.count '/' := by
  unfold segments
  rw [if_neg hp, List.length_tail, length_splitOn_slash]
  omega

/-- **Longer is more specific**: of two stored prefixes that match one path,
    the one with at least as many bytes has at least as many segments. The
    byte may be the slash that normalization removes, so this needs both
    normalized forms to be prefixes of the same path. -/
theorem segments_le_of_len_le {p a b : Str} (ha : MountShape a) (hb : MountShape b)
    (hma : path_matches_prefix p a = true) (hmb : path_matches_prefix p b = true)
    (hlen : len a ≤ len b) :
    (segments (a |> normalize_path_prefix)).length ≤
      (segments (b |> normalize_path_prefix)).length := by
  by_cases har : a = ['/']
  · simp [har, segments]
  have hbr : b ≠ ['/'] := by
    rintro rfl
    obtain rfl | ⟨c, rest, _, rfl⟩ := ha
    · exact har rfl
    · have := c.utf8Size_pos
      have hslash : len ['/'] = 1 := by decide
      rw [hslash, len_cons, len_cons] at hlen
      have : ('/' : Char).utf8Size = 1 := by decide
      omega
  rw [path_matches_iff har] at hma
  rw [path_matches_iff hbr] at hmb
  have hna : normalize_path_prefix a ≠ ['/'] := fun h => har ((normalize_eq_root_iff ha).mp h)
  have hnb : normalize_path_prefix b ≠ ['/'] := fun h => hbr ((normalize_eq_root_iff hb).mp h)
  rw [length_segments hna, length_segments hnb]
  by_contra hlt
  -- otherwise `b` normalizes to a proper separated prefix of what `a` does
  have hcount := Nat.lt_of_not_le hlt
  have hshort : (b |> normalize_path_prefix).length ≤ (a |> normalize_path_prefix).length := by
    by_contra hlong
    have hab := hma.of_length_le hmb (by omega)
    have hle := hab.isPrefix.sublist.count_le '/'
    omega
  obtain heq | hsep := hmb.of_length_le hma hshort
  · rw [heq] at hcount
    omega
  · -- one slash fills the gap of one byte, and then `a` would end in it
    have hslash : len ['/'] = 1 := by decide
    have hbytes := len_le_of_prefix hsep
    rw [len_append, hslash] at hbytes
    have hlb := (len_le_normalize hb).1
    have hla := (len_le_normalize ha).2
    obtain ⟨t, ht⟩ := hsep
    have htlen := congrArg len ht
    rw [len_append, len_append, hslash] at htlen
    have ht0 : t = [] := by
      have := length_le_len t
      exact List.length_eq_zero_iff.mp (by omega)
    rw [ht0, List.append_nil] at ht
    obtain ⟨hfix, hor⟩ | ⟨hpop, _⟩ := normalize_cases ha
    · rw [hfix] at ht
      rcases hor with h | h
      · exact har h
      · exact h ⟨_, ht⟩
    · have := congrArg len hpop
      rw [len_append, hslash] at this
      omega

end Nsl
