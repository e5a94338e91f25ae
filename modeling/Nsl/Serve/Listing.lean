import Mathlib.Data.List.Lex
import Nsl.Rust.Utf8

/-! # Directory listings and redirects

  The static server answers for a directory with a listing, or with a redirect
  to the path with a slash at its end. Links and redirects are relative, so
  that they work behind a mount prefix that the proxy strips.

  What `utf8_percent_encode` does is taken from its documentation: it escapes
  the characters of the set and everything beyond ASCII.
-/

open Rust Rust.Http

namespace Nsl.Serve

/-! ### Redirects -/

/-- Rewrite an absolute trailing-slash redirect `Location` to a relative one. -/
def relativize_location (location : Option HeaderValue) : Option HeaderValue :=
  match ((location.bind to_str).filter (starts_with · ['/'])) with
  | none => location
  | some loc =>
    let rel := (loc.rdropWhile (· = '/')).rtakeWhile (· ≠ '/') ++ ['/']
    if is_valid_value (bytes rel) then some (bytes rel) else location

/-! ### Escaping -/

/-- Characters escaped when building a URL path segment for a listing link:
    the control characters, and some more. -/
def PATH_SEGMENT (b : UInt8) : Bool :=
  b < 32 || b == 127 || (bytes " \"#%<>?`\x7b\x7d/".toList).contains b

/-- An uppercase hexadecimal digit. -/
def hex_digit (n : Nat) : Char := if n < 10 then Char.ofNat (48 + n) else Char.ofNat (55 + n)

def percent_encode_byte (b : UInt8) : Str :=
  ['%', hex_digit (b.toNat / 16), hex_digit (b.toNat % 16)]

def utf8_percent_encode (s : Str) (set : UInt8 → Bool) : Str :=
  (bytes s).flatMap fun b =>
    if 128 ≤ b || set b then percent_encode_byte b else [Char.ofNat b.toNat]

/-- Minimal HTML text escaping for listing entry names and titles. -/
def html_escape (s : Str) : Str :=
  s.flatMap fun c =>
    match c with
    | '&' => "&amp;".toList
    | '<' => "&lt;".toList
    | '>' => "&gt;".toList
    | '"' => "&quot;".toList
    | '\'' => "&#39;".toList
    | _ => [c]

/-! ### Listings -/

/-- An entry of a directory: its name, which may be no text, and whether it is
    a directory. -/
structure Entry where
  file_name : List UInt8
  is_dir : Bool
deriving DecidableEq

/-- The line of an entry. -/
def entry_item (name : Str) (is_dir : Bool) : Str :=
  let href := utf8_percent_encode name PATH_SEGMENT
  let slash := if is_dir then ['/'] else []
  "<li><a href=\"".toList ++ href ++ slash ++ "\">".toList ++ html_escape name ++ slash ++
    "</a></li>".toList

/-- Render the listing HTML. Links are relative to the current directory URL. -/
def render_listing (req_path : Str) (entries : List (Str × Bool)) : Str :=
  let title := html_escape req_path
  ("<!doctype html><html lang=\"en\"><head><meta charset=\"utf-8\">" ++
    "<meta name=\"viewport\" content=\"width=device-width, initial-scale=1\">" ++
    "<title>Index of ").toList ++ title ++
  ("</title>" ++
    "<style>body\x7bfont-family:-apple-system,BlinkMacSystemFont,\"Segoe UI\",Roboto," ++
    "Helvetica,Arial,sans-serif;max-width:720px;margin:40px auto;padding:0 16px\x7d" ++
    "h1\x7bfont-size:18px;word-break:break-all\x7dul\x7blist-style:none;padding:0\x7d" ++
    "li\x7bpadding:4px 0;border-bottom:1px solid #eee\x7da\x7btext-decoration:none;" ++
    "color:#0070f3\x7da:hover\x7btext-decoration:underline\x7dfooter\x7bmargin-top:24px;" ++
    "color:#999;font-size:13px\x7d</style></head><body><h1>Index of ").toList ++ title ++
  "</h1><ul>".toList ++
  (if req_path ≠ ['/'] then "<li><a href=\"../\">../</a></li>".toList else []) ++
  (entries.flatMap fun entry => entry_item entry.1 entry.2) ++
  "</ul><footer>nsl serve</footer></body></html>".toList

/-- The answer for a directory. -/
inductive ListingResponse where
  /-- moved permanently -/
  | redirect (location : Str)
  | html (text : Str)
deriving DecidableEq

/-- The directories under the root. -/
structure Directories where
  /-- whether a request path resolves to an existing directory -/
  resolve_dir : Str → Bool
  /-- its entries, if it can be read -/
  read_dir : Str → Option (List Entry)

/-- Directories first, then case-sensitive name order. -/
def sort_entries (entries : List (Str × Bool)) : List (Str × Bool) :=
  entries.mergeSort fun a b => (a.2 && !b.2) || (a.2 == b.2 && decide (a.1 ≤ b.1))

/-- Generate an HTML directory listing for `req_path` if it resolves to a
    directory under the root. -/
def directory_listing (dirs : Directories) (req_path : Str) : Option ListingResponse :=
  if !dirs.resolve_dir req_path then none
  else if !ends_with req_path ['/'] then
    let last := ((req_path.splitOn '/').reverse.find? (· ≠ [])).getD []
    some (.redirect (last ++ ['/']))
  else
    (dirs.read_dir req_path).map fun entries =>
      .html (render_listing req_path
        (sort_entries (entries.map fun entry => (from_utf8_lossy entry.file_name, entry.is_dir))))

end Nsl.Serve
