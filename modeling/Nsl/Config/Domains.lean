import Nsl.Rust.Text

/-! # Configured domains

  The domain suffixes the proxy routes for, and how URLs under them are
  displayed. Configuration does not check a suffix: any text is accepted, in
  any order, and only `localhost` is guaranteed to be among them.
-/

open Rust

namespace Nsl

/-- The default of `proxy.domains`. -/
def default_domains : List Str := ["localhost".toList]

/-- Ensure `localhost` is present in the domains list, preserving user order
    otherwise. -/
def ensure_localhost (domains : List Str) : List Str :=
  if domains.any (fun d => d == "localhost".toList) then domains
  else "localhost".toList :: domains

/-- A resolved domain list. -/
structure Domains where
  list : List Str
  has_localhost : "localhost".toList ∈ list

theorem mem_ensure_localhost (domains : List Str) :
    "localhost".toList ∈ ensure_localhost domains := by
  unfold ensure_localhost
  split
  · next h =>
    obtain ⟨d, hd, heq⟩ := List.any_eq_true.mp h
    rw [← eq_of_beq heq]
    exact hd
  · exact List.mem_cons_self

/-- The `domains` field of `RawConfig::resolve`, from the merged setting of
    `proxy.domains` (`none` when no layer sets it). -/
def resolve_domains (domains : Option (List Str)) : Domains where
  list := ensure_localhost (domains.getD default_domains)
  has_localhost := mem_ensure_localhost _

theorem Domains.ne_nil (D : Domains) : D.list ≠ [] := by
  intro h
  have := D.has_localhost
  rw [h] at this
  cases this

/-! ### URL display -/

/-- Resolved display override for a single domain suffix. -/
structure DomainDisplay where
  suffix : Str
  https : Bool
  port : Option UInt16

namespace DomainDisplay

def scheme (d : DomainDisplay) : Str :=
  if d.https then "https".toList else "http".toList

/-- Whether this entry specifies the default port for its scheme. -/
def is_default_port (d : DomainDisplay) : Bool :=
  match d.https, d.port with
  | _, none => true
  | true, some p => p == 443
  | false, some p => p == 80

/-- Format a URL for a given hostname using this display entry. -/
def format (d : DomainDisplay) (hostname : Str) : Str :=
  if d.is_default_port then
    d.scheme ++ "://".toList ++ hostname
  else
    match d.port with
    | some port => d.scheme ++ "://".toList ++ hostname ++ ':' :: to_string port.toNat
    | none => d.scheme ++ "://".toList ++ hostname

end DomainDisplay

end Nsl
