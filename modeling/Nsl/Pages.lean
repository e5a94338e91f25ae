import Nsl.Framework.Markup
import Nsl.Rust.Text

/-! # The pages of the proxy

  What the proxy answers with when it has no app to ask: a page with the status
  and a body, in which the host of the request may stand. The host is what the
  client says it is, and it is escaped.

  - `host_is_text`: a host, whatever it is, is text on a page, and leaves the
    page around it as it is.
-/

open Rust Framework.Html

namespace Nsl.Pages

/-! ### Escaping -/

def escape_char (c : Char) : Str :=
  match c with
  | '&' => "&amp;".toList
  | '<' => "&lt;".toList
  | '>' => "&gt;".toList
  | '"' => "&quot;".toList
  | '\'' => "&#x27;".toList
  | _ => [c]

/-- Escape HTML special characters to prevent XSS. -/
def escape_html (input : Str) : Str := input.flatMap escape_char

/-! ### Pages -/

/-- Lines of text. -/
def text_lines (lines : List String) : Str := lines.flatMap fun line => line.toList ++ ['\n']

def STYLE : List String :=
  [":root \x7b", "  --bg: #ffffff;", "  --fg: #111111;", "  --fg-muted: #666666;",
    "  --border: #e5e5e5;", "  --card-bg: #f9f9f9;", "  --accent: #0070f3;",
    "  --accent-light: #e6f0ff;", "  --code-bg: #f4f4f4;", "  --error-bg: #fff0f0;",
    "  --error-fg: #cc0000;", "  --radius: 8px;", "  --max-width: 640px;", "\x7d",
    "@media (prefers-color-scheme: dark) \x7b", "  :root \x7b", "    --bg: #111111;",
    "    --fg: #ededed;", "    --fg-muted: #999999;", "    --border: #333333;",
    "    --card-bg: #1a1a1a;", "    --accent: #3291ff;", "    --accent-light: #1a2744;",
    "    --code-bg: #1e1e1e;", "    --error-bg: #2a1010;", "    --error-fg: #ff6b6b;", "  \x7d",
    "\x7d", "* \x7b margin: 0; padding: 0; box-sizing: border-box; \x7d", "body \x7b",
    "  font-family: -apple-system, BlinkMacSystemFont, \"Segoe UI\", Roboto, " ++
      "Helvetica, Arial, sans-serif;",
    "  background: var(--bg);", "  color: var(--fg);", "  line-height: 1.6;",
    "  min-height: 100vh;", "  display: flex;", "  flex-direction: column;",
    "  align-items: center;", "  padding: 48px 16px;", "\x7d", ".container \x7b", "  width: 100%;",
    "  max-width: var(--max-width);", "\x7d", ".header \x7b", "  text-align: center;",
    "  margin-bottom: 32px;", "\x7d", ".status-code \x7b", "  font-size: 64px;",
    "  font-weight: 700;", "  color: var(--error-fg);", "  line-height: 1;", "\x7d",
    ".status-text \x7b", "  font-size: 20px;", "  color: var(--fg-muted);", "  margin-top: 4px;",
    "\x7d", ".body-content \x7b", "  margin-bottom: 32px;", "\x7d", ".card \x7b",
    "  background: var(--card-bg);", "  border: 1px solid var(--border);",
    "  border-radius: var(--radius);", "  padding: 16px;", "  margin-bottom: 12px;",
    "  transition: border-color 0.15s ease;", "\x7d", ".card:hover \x7b",
    "  border-color: var(--accent);", "\x7d", ".card-hostname \x7b", "  font-weight: 600;",
    "  font-size: 15px;", "  color: var(--accent);", "  word-break: break-all;", "\x7d",
    ".card-detail \x7b", "  font-size: 13px;", "  color: var(--fg-muted);", "  margin-top: 4px;",
    "\x7d", ".section-title \x7b", "  font-size: 14px;", "  font-weight: 600;",
    "  text-transform: uppercase;", "  letter-spacing: 0.05em;", "  color: var(--fg-muted);",
    "  margin-bottom: 12px;", "\x7d", ".tip-box \x7b", "  background: var(--error-bg);",
    "  border: 1px solid var(--border);", "  border-radius: var(--radius);", "  padding: 16px;",
    "  margin-bottom: 12px;", "\x7d", ".tip-box p \x7b", "  margin-bottom: 8px;", "\x7d",
    ".tip-box p:last-child \x7b", "  margin-bottom: 0;", "\x7d", "code \x7b",
    "  font-family: \"SF Mono\", \"Fira Code\", \"Fira Mono\", Menlo, Consolas, monospace;",
    "  font-size: 13px;", "  background: var(--code-bg);", "  padding: 2px 6px;",
    "  border-radius: 4px;", "\x7d", "pre \x7b", "  background: var(--code-bg);",
    "  border: 1px solid var(--border);", "  border-radius: var(--radius);",
    "  padding: 12px 16px;", "  overflow-x: auto;", "  font-size: 13px;", "  line-height: 1.5;",
    "\x7d", "pre code \x7b", "  background: none;", "  padding: 0;", "\x7d", ".footer \x7b",
    "  text-align: center;", "  font-size: 13px;", "  color: var(--fg-muted);",
    "  margin-top: auto;", "  padding-top: 32px;", "\x7d", ".footer a \x7b",
    "  color: var(--accent);", "  text-decoration: none;", "\x7d", ".footer a:hover \x7b",
    "  text-decoration: underline;", "\x7d"]

/-- The page up to its body. -/
def page_front (status : Nat) (status_text : Str) : Str :=
  List.flatten [
    text_lines ["<!DOCTYPE html>", "<html lang=\"en\">", "<head>", "<meta charset=\"utf-8\">",
      "<meta name=\"viewport\" content=\"width=device-width, initial-scale=1\">"],
    "<title>".toList, to_string status, [' '], escape_html status_text,
    text_lines [" - NSL</title>", "<style>"], text_lines STYLE,
    text_lines ["</style>", "</head>", "<body>", "<div class=\"container\">",
      "  <div class=\"header\">"],
    "    <div class=\"status-code\">".toList, to_string status, text_lines ["</div>"],
    "    <div class=\"status-text\">".toList, escape_html status_text,
    text_lines ["</div>", "  </div>", "  <div class=\"body-content\">"], "    ".toList]

/-- The page behind its body. -/
def page_back : Str :=
  text_lines ["", "  </div>", "</div>", "<div class=\"footer\">",
    "  Powered by <a href=\"https://github.com/dotns/nsl\">NSL</a>", "</div>", "</body>"] ++
  "</html>".toList

/-- Render a complete branded HTML page. -/
def render_page (status : Nat) (status_text body_html : Str) : Str :=
  page_front status status_text ++ body_html ++ page_back

/-- Render the body HTML for a 404 page (unregistered hostname). -/
def render_not_found_body (hostname : Str) : Str :=
  "<p>No application is registered for <code>".toList ++ escape_html hostname ++
  ("</code>.</p>\n".toList ++
  text_lines ["<div style=\"margin-top:24px\">",
    "  <div class=\"section-title\">What to do</div>", "  <div class=\"card\">",
    "    <p>Run <code>nsl status</code> to view active routes and proxy configuration.</p>",
    "  </div>"] ++
  "</div>".toList)

/-- Render the body HTML for a 502 page (target app not responding). -/
def render_bad_gateway_body (hostname : Str) : Str :=
  "<div class=\"tip-box\">\n".toList ++
  "  <p>The application registered for <code>".toList ++ escape_html hostname ++
  ("</code> is not responding.</p>\n".toList ++
  text_lines ["  <p>It may have crashed or is still starting up.</p>", "</div>",
    "<div style=\"margin-top:24px\">", "  <div class=\"section-title\">Troubleshooting</div>",
    "  <div class=\"card\">",
    "    <p>1. Run <code>nsl status</code> to check the route and its port.</p>", "  </div>",
    "  <div class=\"card\">",
    "    <p>2. Look at your app's terminal output for errors.</p>", "  </div>",
    "  <div class=\"card\">", "    <p>3. Try restarting your app:</p>",
    "    <pre><code>nsl run -- your-start-command</code></pre>", "  </div>"] ++
  "</div>".toList)

/-- Render the body HTML for a 508 page (proxy loop detected). -/
def render_loop_detected_body : Str :=
  text_lines ["<div class=\"tip-box\">",
    "  <p>This request has passed through NSL too many times, indicating a proxy loop.</p>",
    "  <p>This usually happens when the target application sends requests back " ++
      "through the proxy.</p>",
    "</div>", "<div style=\"margin-top:24px\">", "  <div class=\"section-title\">How to Fix</div>",
    "  <div class=\"card\">",
    "    <p>Enable <code>changeOrigin</code> so the backend sees <code>127.0.0.1</code> as the " ++
      "Host header instead of the <code>.localhost</code> hostname:</p>",
    "    <pre><code>nsl route myapp.localhost 3000 --change-origin</code></pre>",
    "    <p style=\"margin-top:8px\">Or when using <code>nsl run</code>:</p>",
    "    <pre><code>nsl run --change-origin -- npm start</code></pre>", "  </div>"] ++
  "</div>".toList

/-- The page for a host without a route. -/
def not_found_page (host : Str) : Str :=
  render_page 404 "Not Found".toList (render_not_found_body host)

/-- The page for a host whose app does not answer. -/
def bad_gateway_page (host : Str) : Str :=
  render_page 502 "Bad Gateway".toList (render_bad_gateway_body host)

/-! ### The host on a page -/

/-- An escaped text holds no markup. -/
theorem not_mem_escape_html (s : Str) : '<' ∉ escape_html s := by
  intro hmem
  obtain ⟨c, -, hc⟩ := List.mem_flatMap.mp hmem
  unfold escape_char at hc
  split at hc
  · exact absurd hc (by decide)
  · exact absurd hc (by decide)
  · exact absurd hc (by decide)
  · exact absurd hc (by decide)
  · exact absurd hc (by decide)
  · next hlt _ _ _ => exact hlt (List.mem_singleton.mp hc).symm

/-- It is shown as what was escaped. -/
theorem decode_escape_html (refs : References) (s : Str) :
    decode_references refs false (escape_html s) = s := by
  refine decode_escaped (fun c rest => ?_) s
  unfold escape_char
  split
  · exact decode_named (w := "amp".toList) refs.amp (by decide) (by decide) rest
  · exact decode_named (w := "lt".toList) refs.lt (by decide) (by decide) rest
  · exact decode_named (w := "gt".toList) refs.gt (by decide) (by decide) rest
  · exact decode_named (w := "quot".toList) refs.quot (by decide) (by decide) rest
  · have hreference : reference refs false ("#x27;".toList ++ rest) =
        some ("#x27;".toList.length, [refs.numeric 39]) := rfl
    have hvalue : refs.numeric 39 = '\'' := refs.ascii 39 (by decide) (by decide)
    have hdecode := decode_references_some hreference
    rw [hvalue] at hdecode
    exact hdecode
  · next hamp _ _ _ _ => exact decode_references_cons hamp rest

/-- The page shows a text where it shows the host, and is the same around it
    for every host. -/
def ShowsHost (page : Str → Str) : Prop :=
  ∃ front back, ∀ refs host, ∃ shown,
    pieces (page host) = front ++ Piece.tag "<code>".toList ::
      (shown.map .char ++ Piece.tag "</code>".toList :: back) ∧
    decode_references refs false shown = host

/-- A page that is made of two parts with the host between them, the first one
    closed, shows the host. -/
theorem showsHost_of_parts {page : Str → Str} {front : Str} (hfront : Closed front)
    (hpage : ∃ back, ∀ host, page host =
      front ++ ("<code>".toList ++ (escape_html host ++ ("</code>".toList ++ back)))) :
    ShowsHost page := by
  obtain ⟨back, hpage⟩ := hpage
  refine ⟨pieces front, pieces back, fun refs host =>
    ⟨escape_html host, ?_, decode_escape_html refs host⟩⟩
  obtain ⟨hclosed, htext⟩ := pieces_text (not_mem_escape_html host)
  rw [hpage, pieces_append hfront, pieces_append (s := "<code>".toList) (by decide),
    pieces_append hclosed, pieces_append (s := "</code>".toList) (by decide), htext]
  rfl

theorem closed_flatten {parts : List Str} (h : ∀ part ∈ parts, Closed part) :
    Closed parts.flatten := by
  induction parts with
  | nil => rfl
  | cons part parts ih =>
    exact (h part List.mem_cons_self).append (ih fun p hp => h p (List.mem_cons_of_mem _ hp))

/-- A line without the byte of an angle bracket. -/
theorem not_mem_of_bytes {s : String} (h : s.toByteArray.data.toList.elem 60 = false) :
    '<' ∉ s.toList := by
  intro hmem
  have hbyte : (60 : UInt8) ∈ s.toList.flatMap String.utf8EncodeChar :=
    List.mem_flatMap.mpr ⟨'<', hmem, by decide⟩
  rw [toByteArray_toList, List.elem_eq_true_of_mem hbyte] at h
  cases h

theorem closed_style : Closed (text_lines STYLE) := by
  have hbytes : STYLE.all (fun line => !line.toByteArray.data.toList.elem 60) = true := by
    decide +kernel
  refine (pieces_text fun hmem => ?_).1
  obtain ⟨line, hline, hc⟩ := List.mem_flatMap.mp hmem
  rcases List.mem_append.mp hc with hc | hc
  · exact not_mem_of_bytes ((Bool.not_eq_true' _).mp (List.all_eq_true.mp hbytes line hline)) hc
  · exact absurd hc (by decide)

theorem closed_to_string (n : Nat) : Closed (to_string n) := by
  refine (pieces_text fun hmem => ?_).1
  have hdigit := List.all_eq_true.mp (all_isDigit_to_string n) '<' hmem
  exact absurd hdigit (by decide)

theorem closed_escape_html (s : Str) : Closed (escape_html s) :=
  (pieces_text (not_mem_escape_html s)).1

theorem closed_page_front (status : Nat) (status_text : Str) :
    Closed (page_front status status_text) := by
  have hstatus := closed_to_string status
  have htext := closed_escape_html status_text
  apply closed_flatten
  simp only [List.forall_mem_cons]
  exact ⟨by decide +kernel, by decide, hstatus, by decide, htext, by decide +kernel, closed_style,
    by decide +kernel, by decide +kernel, hstatus, by decide +kernel, by decide +kernel, htext,
    by decide +kernel, by decide, by simp⟩

/-- **A host is text on a page**, whatever it is, and leaves the page around it
    as it is. -/
theorem host_is_text : ShowsHost not_found_page ∧ ShowsHost bad_gateway_page := by
  have hfound : "<p>No application is registered for <code>".toList =
      "<p>No application is registered for ".toList ++ "<code>".toList := by decide
  have hperiod : "</code>.</p>\n".toList = "</code>".toList ++ ".</p>\n".toList := by decide
  have happ : "  <p>The application registered for <code>".toList =
      "  <p>The application registered for ".toList ++ "<code>".toList := by decide
  have hanswer : "</code> is not responding.</p>\n".toList =
      "</code>".toList ++ " is not responding.</p>\n".toList := by decide
  constructor
  · have hfront := (closed_page_front 404 "Not Found".toList).append
      (t := "<p>No application is registered for ".toList) (by decide +kernel)
    refine showsHost_of_parts hfront ⟨?_, fun host => ?_⟩
    rotate_left
    unfold not_found_page render_page render_not_found_body
    rw [hfound, hperiod]
    simp only [List.append_assoc]
    rfl
  · have hfront := (closed_page_front 502 "Bad Gateway".toList).append
      (t := "<div class=\"tip-box\">\n".toList ++
        "  <p>The application registered for ".toList) (by decide +kernel)
    refine showsHost_of_parts hfront ⟨?_, fun host => ?_⟩
    rotate_left
    unfold bad_gateway_page render_page render_bad_gateway_body
    rw [happ, hanswer]
    simp only [List.append_assoc]
    rfl

end Nsl.Pages
