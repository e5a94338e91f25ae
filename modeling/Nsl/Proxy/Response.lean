import Nsl.Pages
import Nsl.Proxy.Upgrade

/-! # The answer to a request

  Every answer of the proxy is marked: its own pages and messages, and the
  responses of the apps, which it hands on. Only the response that switches
  protocols is handed on as it is. By the mark a running proxy is recognised.

  What the apps answer is up to them. How many header lines a response may have
  is up to the http crate.

  - `every_answer_marked`: the mark, whatever the routes and the apps are.
-/

open Rust Rust.Http Nsl.Pages

namespace Nsl.Respond

structure Response where
  status : UInt16
  headers : HeaderMap
  body : List UInt8
deriving DecidableEq

def NSL : HeaderName := .of NSL_HEADER

def CONTENT_TYPE : HeaderName := .of "Content-Type".toList

/-- The answer of a proxy. -/
def Marked (res : Response) : Prop := contains_key res.headers NSL = true

def own_response (content_type : Str) (status : UInt16) (body : Str) : Response where
  status := status
  headers := [⟨CONTENT_TYPE, bytes content_type⟩, ⟨NSL, bytes ['1']⟩]
  body := bytes body

def response : UInt16 → Str → Response := own_response "text/plain".toList

def html_response : UInt16 → Str → Response := own_response "text/html; charset=utf-8".toList

/-! ### The apps -/

/-- What becomes of an upgrade. -/
inductive Upstream where
  | not_connected
  | not_sent
  /-- what is read, and how many reads come in time when a body is collected -/
  | reads (results : List ReadResult) (timely : Nat)

/-- What the apps do with what is sent to them. -/
structure Apps where
  /-- no answer to a request that cannot be sent -/
  http : Str → HeaderMap → Option Response
  upgrade : UInt16 → RawHead → Upstream

/-- What the http crate accepts. -/
structure Accepts where
  uri_ok : Str → Bool
  header_ok : Str → Str → Bool
  /-- a response with so many header lines -/
  fits : HeaderMap → Bool

/-! ### Answers -/

/-- A response of an app is handed on, with the mark behind its header lines. -/
def forwarded_response (accepts : Accepts) (host : Str) : Option Response → Response
  | some resp =>
    let headers := resp.headers ++ [⟨NSL, bytes ['1']⟩]
    if accepts.fits headers then { resp with headers := headers }
    else response 502 "Invalid upstream response headers.".toList
  | none => html_response 502 (bad_gateway_page host)

def upgrade_response (accepts : Accepts) : Upstream → Response
  | .not_connected => response 502 "The target app is not responding. It may have crashed.".toList
  | .not_sent => response 502 "Failed to send upgrade request to upstream.".toList
  | .reads results timely =>
    match upgrade_answer accepts.header_ok timely results with
    | .bad_gateway message => response 502 message
    | .refused status headers body =>
      { status := status, headers := headers.map fun kv => ⟨.of kv.1, bytes kv.2⟩, body := body }
    | .switched headers _ _ =>
      { status := 101, headers := headers.map fun kv => ⟨.of kv.1, bytes kv.2⟩, body := [] }

/-- What the client gets from `handle_request`. -/
def answer (accepts : Accepts) (apps : Apps) (proxy : Proxy) (req : Request) : Response :=
  match handle_request accepts.uri_ok proxy req with
  | .missing_host => response 400 "Missing Host header".toList
  | .loop_detected =>
    html_response 508 (render_page 508 "Loop Detected".toList render_loop_detected_body)
  | .not_found => html_response 404 (not_found_page (extract_host req))
  | .invalid => response 400 "Invalid request headers or target URI.".toList
  | .forwarded target_uri headers =>
    forwarded_response accepts (extract_host req) (apps.http target_uri headers)
  | .upgraded port head => upgrade_response accepts (apps.upgrade port head)

/-! ### The mark -/

theorem marked_own (content_type : Str) (status : UInt16) (body : Str) :
    Marked (own_response content_type status body) := by
  simp [Marked, own_response, contains_key]

theorem marked_append (headers : HeaderMap) :
    contains_key (headers ++ [⟨NSL, bytes ['1']⟩]) NSL = true := by
  simp [contains_key]

theorem marked_forwarded (accepts : Accepts) (host : Str) (resp : Option Response) :
    Marked (forwarded_response accepts host resp) := by
  cases resp with
  | none => exact marked_own _ _ _
  | some resp =>
    unfold forwarded_response
    simp only
    split
    · exact marked_append resp.headers
    · exact marked_own _ _ _

/-- A refusal is handed on with the mark behind its header lines. -/
theorem refused_marked {header_ok : Str → Str → Bool} {timely : Nat} {reads : List ReadResult}
    {status : UInt16} {headers : List (Str × Str)} {body : List UInt8}
    (h : upgrade_answer header_ok timely reads = .refused status headers body) :
    ∃ copied, headers = copied ++ [(NSL_HEADER, ['1'])] := by
  unfold upgrade_answer at h
  split at h
  · cases h
  · cases h
  · cases h
  · simp only at h
    split at h
    · split at h
      · cases h
        exact ⟨_, rfl⟩
      · cases h
    · split at h <;> cases h

theorem marked_upgrade (accepts : Accepts) (upstream : Upstream) :
    Marked (upgrade_response accepts upstream) ∨
      (upgrade_response accepts upstream).status = 101 := by
  cases upstream with
  | not_connected => exact .inl (marked_own _ _ _)
  | not_sent => exact .inl (marked_own _ _ _)
  | reads results timely =>
    unfold upgrade_response
    simp only
    split
    · exact .inl (marked_own _ _ _)
    · next status headers body h =>
      obtain ⟨copied, rfl⟩ := refused_marked h
      left
      unfold Marked
      rw [List.map_append]
      exact marked_append _
    · exact .inr rfl

/-- What `is_proxy_running` asks. -/
def probe (port : UInt16) : Request where
  method := "HEAD".toList
  path := ['/']
  query := none
  authority_host := none
  headers := [⟨HOST, bytes ("127.0.0.1:".toList ++ to_string port.toNat)⟩]

/-- **Every answer is marked**, or it switches protocols because the request
    asked for it. So a proxy that answers is recognised, whatever its routes
    and the apps behind them are. -/
theorem every_answer_marked (accepts : Accepts) (apps : Apps) (proxy : Proxy) :
    (∀ req, Marked (answer accepts apps proxy req) ∨
      is_upgrade_request req.headers = true ∧ (answer accepts apps proxy req).status = 101) ∧
    ∀ port, Marked (answer accepts apps proxy (probe port)) := by
  have hmarked : ∀ req, Marked (answer accepts apps proxy req) ∨
      is_upgrade_request req.headers = true ∧ (answer accepts apps proxy req).status = 101 := by
    intro req
    unfold answer
    split
    · exact .inl (marked_own _ _ _)
    · exact .inl (marked_own _ _ _)
    · exact .inl (marked_own _ _ _)
    · exact .inl (marked_own _ _ _)
    · exact .inl (marked_forwarded _ _ _)
    · next port head hanswer =>
      have hsent : (handle_request accepts.uri_ok proxy req).sent = some head.received := by
        rw [hanswer]
        rfl
      obtain ⟨-, route, -, ⟨-, hforwarded, -⟩ | ⟨hupgrade, -⟩⟩ := handle_request_written hsent
      · rw [hanswer] at hforwarded
        cases hforwarded
      · exact (marked_upgrade accepts _).imp_right fun hstatus => ⟨hupgrade, hstatus⟩
  refine ⟨hmarked, fun port => (hmarked (probe port)).resolve_right ?_⟩
  rintro ⟨hupgrade, -⟩
  have hname : HOST ≠ CONNECTION := by decide
  have hnone : is_upgrade_request (probe port).headers = false := by
    simp [probe, is_upgrade_request, get_cons, hname]
  rw [hnone] at hupgrade
  cases hupgrade

end Nsl.Respond
