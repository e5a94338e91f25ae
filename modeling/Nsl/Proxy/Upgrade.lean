import Nsl.Framework.Head
import Nsl.Rust.Lines
import Nsl.Rust.Utf8
import Nsl.Proxy.Handler

/-! # The answer to an upgrade

  The upstream answers a WebSocket upgrade with a response head, and then goes
  on with frames. The bytes come in reads of any size: the head may be cut
  anywhere, and its last read may bring the first frames.

  What the http crate takes for a header line is a parameter, and so is how
  many reads come in time when the body of a refusal is collected.

  - `parse_upstream_response_take`: the head is seen once all of it is there,
    and not before.
  - `handshake_any_cut`: how the stream is cut does not matter for a head that
    is parsed at all.
  - `StatusLine`: the status lines of HTTP, whose reason need not be text.
  - `handshake_any_cut_iff`: the heads that are parsed however the stream is
    cut, with the frames behind them handed on as they were sent.
-/

open Rust Rust.Http Framework Framework.Http1

namespace Nsl

/-! ### The head of the response -/

/-- Parse the upstream HTTP response to find the status code and the offset
    where headers end. -/
def parse_upstream_response (buf : List UInt8) : Option (UInt16 × Nat) := do
  let header_end ← find_window (bytes "\r\n\r\n".toList) buf
  let end_offset := header_end + 4
  let status_line_end ← find_window (bytes "\r\n".toList) buf
  let status_line ← read_to_string (buf.take status_line_end)
  let part ← (splitn 3 status_line ' ')[1]?
  let status_code ← parse_u16 part
  return (status_code, end_offset)

/-- The header lines of a response, with what is left of them for the http
    crate. -/
def header_lines (head : List UInt8) : List (Str × Str) :=
  let head_str := from_utf8_lossy head
  ((((lines head_str).drop 1).map strip_crs).takeWhile (· ≠ [])).filterMap fun line =>
    (split_once line ':').map fun kv => (trim kv.1, trim kv.2)

/-! ### Reading -/

/-- What a read returns. No data means that the upstream is done. -/
inductive ReadResult where
  | ok (data : List UInt8)
  | err
deriving DecidableEq

/-- What the read loop ends with. -/
inductive Handshake where
  /-- the head is there; `unread` is what later reads return -/
  | parsed (status_code : UInt16) (header_end : Nat) (resp_buf : List UInt8)
      (unread : List ReadResult)
  | closed
  | failed
  | too_large
deriving DecidableEq

/-- The read loop. -/
def read_loop (resp_buf : List UInt8) : List ReadResult → Handshake
  | [] => .closed
  | .err :: _ => .failed
  | .ok data :: reads =>
    if data = [] then .closed
    else
      match parse_upstream_response (resp_buf ++ data) with
      | some (status_code, header_end) => .parsed status_code header_end (resp_buf ++ data) reads
      | none =>
        if (resp_buf ++ data).length > 65536 then .too_large
        else read_loop (resp_buf ++ data) reads

/-- What is copied from the reads, up to the end or an error. -/
def copied : List ReadResult → List UInt8
  | [] => []
  | .err :: _ => []
  | .ok data :: reads => if data = [] then [] else data ++ copied reads

/-! ### The answer -/

/-- What the client gets. -/
inductive UpgradeAnswer where
  /-- 502 -/
  | bad_gateway (message : Str)
  /-- the upstream did not upgrade, and its answer is handed on -/
  | refused (status : UInt16) (headers : List (Str × Str)) (body : List UInt8)
  /-- 101; then `extra_data` is sent, and what the upstream sends from there -/
  | switched (headers : List (Str × Str)) (extra_data : List UInt8) (unread : List ReadResult)
deriving DecidableEq

/-- `handle_upgrade`, from the first read on. -/
def upgrade_answer (header_ok : Str → Str → Bool) (timely : Nat) (reads : List ReadResult) :
    UpgradeAnswer :=
  match read_loop [] reads with
  | .closed =>
    .bad_gateway "Upstream closed connection before completing upgrade handshake.".toList
  | .failed => .bad_gateway "Error reading upstream upgrade response.".toList
  | .too_large => .bad_gateway "Upstream response headers too large.".toList
  | .parsed status_code header_end resp_buf unread =>
    let headers := header_lines (resp_buf.take header_end)
    let accepted := headers.all fun kv => header_ok kv.1 kv.2
    if status_code ≠ 101 then
      -- the status codes of the http crate have three digits
      let status := if 100 ≤ status_code ∧ status_code < 1000 then status_code else 502
      if accepted then
        .refused status (headers ++ [(NSL_HEADER, ['1'])])
          (resp_buf.drop header_end ++ copied (unread.take timely))
      else .bad_gateway "Invalid upstream response headers.".toList
    else if accepted then .switched headers (resp_buf.drop header_end) unread
    else .bad_gateway "Invalid upstream upgrade headers.".toList

/-- The client is switched, and sent what the upstream sent after its head:
    every byte of it, once and in order. -/
def Tunnelled (answer : UpgradeAnswer) (frames : List UInt8) : Prop :=
  ∃ headers extra_data unread, answer = .switched headers extra_data unread ∧
    extra_data ++ copied unread = frames

/-! ### How the stream is cut -/

/-- The parts of a head that is there. -/
theorem parse_upstream_response_eq_some {buf : List UInt8} {code : UInt16} {header_end : Nat} :
    parse_upstream_response buf = some (code, header_end) ↔
      ∃ n m, find_window (bytes "\r\n\r\n".toList) buf = some n ∧ header_end = n + 4 ∧
        find_window (bytes "\r\n".toList) buf = some m ∧
        ∃ line, read_to_string (buf.take m) = some line ∧
          ((splitn 3 line ' ')[1]?).bind parse_u16 = some code := by
  unfold parse_upstream_response
  simp only [Option.bind_eq_bind, Option.pure_def, Option.bind_eq_some_iff, Option.some.injEq,
    Prod.mk.injEq]
  constructor
  · rintro ⟨n, hn, m, hm, line, hline, part, hpart, code, hcode, rfl, rfl⟩
    exact ⟨n, m, hn, rfl, hm, line, hline, part, hpart, hcode⟩
  · rintro ⟨n, m, hn, rfl, hm, line, hline, part, hpart, hcode⟩
    exact ⟨n, hn, m, hm, line, hline, part, hpart, code, hcode, rfl, rfl⟩

theorem header_end_le {buf : List UInt8} {code : UInt16} {header_end : Nat}
    (h : parse_upstream_response buf = some (code, header_end)) : header_end ≤ buf.length := by
  obtain ⟨n, _, hn, rfl, _⟩ := parse_upstream_response_eq_some.mp h
  exact find_window_length hn

/-- The head of a stream is seen once all of it is there, and not before. -/
theorem parse_upstream_response_take {stream : List UInt8} {code : UInt16} {header_end : Nat}
    (h : parse_upstream_response stream = some (code, header_end)) (k : Nat) :
    parse_upstream_response (stream.take k) =
      if header_end ≤ k then some (code, header_end) else none := by
  obtain ⟨n, m, hn, rfl, hm, line, hline, hcode⟩ := parse_upstream_response_eq_some.mp h
  have hlen : (bytes "\r\n\r\n".toList).length = 4 := by decide
  have hlen' : (bytes "\r\n".toList).length = 2 := by decide
  have hn' := find_window_take hn k
  rw [hlen] at hn'
  split
  · next hle =>
    -- the first line ends no later than the head
    obtain ⟨m', hm', hle'⟩ := find_window_le (v := bytes "\r\n".toList) (by decide) hn
    obtain rfl : m' = m := by
      rw [hm] at hm'
      exact (Option.some.inj hm').symm
    rw [parse_upstream_response_eq_some]
    refine ⟨n, m', ?_, rfl, ?_, line, ?_, hcode⟩
    · rw [hn', if_pos hle]
    · rw [find_window_take hm k, hlen', if_pos (by omega)]
    · rw [List.take_take, min_eq_left (by omega), hline]
  · next hgt =>
    rw [if_neg hgt] at hn'
    unfold parse_upstream_response
    rw [hn']
    rfl

theorem copied_ok {chunks : List (List UInt8)} (hne : ∀ c ∈ chunks, c ≠ []) :
    copied (chunks.map .ok) = chunks.flatten := by
  induction chunks with
  | nil => rfl
  | cons c chunks ih =>
    rw [List.map_cons, copied, if_neg (hne c List.mem_cons_self),
      ih fun c' hc' => hne c' (List.mem_cons_of_mem _ hc'), List.flatten_cons]

/-- The loop ends with the head of the stream, and has kept everything it has
    read. -/
theorem read_loop_parsed {stream : List UInt8} {code : UInt16} {header_end : Nat}
    (hparse : parse_upstream_response stream = some (code, header_end))
    (hsize : header_end ≤ 65536) {chunks : List (List UInt8)} (hne : ∀ c ∈ chunks, c ≠ [])
    {buf : List UInt8} (hjoin : buf ++ chunks.flatten = stream) (hbuf : buf.length < header_end) :
    ∃ (buf' : List UInt8) (rest : List (List UInt8)),
      read_loop buf (chunks.map .ok) = .parsed code header_end buf' (rest.map .ok) ∧
      (∀ c ∈ rest, c ≠ []) ∧ buf' ++ rest.flatten = stream ∧ header_end ≤ buf'.length := by
  induction chunks generalizing buf with
  | nil =>
    have hle := header_end_le hparse
    rw [← hjoin] at hle
    simp at hle
    omega
  | cons c chunks ih =>
    rw [List.flatten_cons, ← List.append_assoc] at hjoin
    have hne' := fun c' hc' => hne c' (List.mem_cons_of_mem _ hc')
    have htake : buf ++ c = stream.take (buf ++ c).length := by rw [← hjoin, List.take_left]
    have hseen := parse_upstream_response_take hparse (buf ++ c).length
    rw [← htake] at hseen
    rw [List.map_cons, read_loop, if_neg (hne c List.mem_cons_self), hseen]
    by_cases hle : header_end ≤ (buf ++ c).length
    · rw [if_pos hle]
      exact ⟨buf ++ c, chunks, rfl, hne', hjoin, hle⟩
    · rw [if_neg hle]
      -- a buffer without the whole head is not too large
      have hsmall : ¬ (buf ++ c).length > 65536 := by omega
      simp only [if_neg hsmall]
      exact ih hne' hjoin (by omega)

/-- How the stream is cut does not matter: the loop ends with the head of
    the whole stream; and after a 101 whose header lines are accepted, the
    client is sent the rest of the stream. -/
theorem handshake_any_cut {stream : List UInt8} {code : UInt16} {header_end : Nat}
    {chunks : List (List UInt8)} (header_ok : Str → Str → Bool) (timely : Nat)
    (hparse : parse_upstream_response stream = some (code, header_end))
    (hsize : header_end ≤ 65536) (hne : ∀ c ∈ chunks, c ≠ []) (hjoin : chunks.flatten = stream) :
    (∃ resp_buf unread,
      read_loop [] (chunks.map .ok) = .parsed code header_end resp_buf unread) ∧
    (code = 101 →
      if (header_lines (stream.take header_end)).all fun kv => header_ok kv.1 kv.2 then
        Tunnelled (upgrade_answer header_ok timely (chunks.map .ok)) (stream.drop header_end)
      else upgrade_answer header_ok timely (chunks.map .ok) =
        .bad_gateway "Invalid upstream upgrade headers.".toList) := by
  have hpos : 0 < header_end := by
    obtain ⟨n, _, _, rfl, _⟩ := parse_upstream_response_eq_some.mp hparse
    omega
  obtain ⟨buf, rest, hloop, hrest, hall, hbuf⟩ :=
    read_loop_parsed hparse hsize hne ((List.nil_append _).trans hjoin) hpos
  refine ⟨⟨buf, rest.map .ok, hloop⟩, ?_⟩
  rintro rfl
  have hhead : buf.take header_end = stream.take header_end := by
    rw [← hall, List.take_append_of_le_length hbuf]
  have htail : buf.drop header_end ++ rest.flatten = stream.drop header_end := by
    rw [← hall, List.drop_append_of_le_length hbuf]
  unfold upgrade_answer
  simp only [hloop, hhead, ne_eq, not_true, if_false]
  split
  · exact ⟨_, _, _, rfl, by rw [copied_ok hrest, htail]⟩
  · rfl

/-! ### Status lines -/

theorem not_mem_of_is_value {value : List UInt8} {b : UInt8} (h : value.all is_value_byte = true)
    (hb : is_value_byte b = false) : b ∉ value := by
  intro hmem
  rw [List.all_eq_true.mp h b hmem] at hb
  cases hb

/-- A status line of HTTP: the version, a code of three digits, and a reason of
    any bytes that a field value can have, which need not be text. -/
structure StatusLine where
  version : Str
  status : UInt16
  reason : List UInt8
  version_ok : ∃ major minor, Char.isDigit major = true ∧ Char.isDigit minor = true ∧
    version = "HTTP/".toList ++ [major, '.', minor]
  status_ok : 100 ≤ status ∧ status ≤ 999
  reason_ok : reason.all is_value_byte = true

namespace StatusLine

def text (l : StatusLine) : List UInt8 :=
  bytes (l.version ++ ' ' :: (to_string l.status.toNat ++ [' '])) ++ l.reason

theorem visible_version (l : StatusLine) : ∀ c ∈ l.version, 32 < c.toNat := by
  obtain ⟨major, minor, hmajor, hminor, hversion⟩ := l.version_ok
  have hdigit : ∀ c : Char, c.isDigit = true → 32 < c.toNat := by
    intro c hc
    rw [Char.isDigit_iff_toNat] at hc
    have h0 : ('0' : Char).toNat = 48 := by decide
    omega
  have hhttp : "HTTP/".toList.all (fun c => decide (32 < c.toNat)) = true := by decide
  intro c hc
  rw [hversion] at hc
  rcases List.mem_append.mp hc with hc | hc
  · exact of_decide_eq_true (List.all_eq_true.mp hhttp c hc)
  rcases List.mem_cons.mp hc with rfl | hc
  · exact hdigit _ hmajor
  rcases List.mem_cons.mp hc with rfl | hc
  · decide
  · rw [List.mem_singleton.mp hc]
    exact hdigit _ hminor

theorem isLine (l : StatusLine) : IsLine l.text := by
  refine ⟨?_, ?_⟩
  · intro hnil
    exact bytes_ne_nil (by simp) (List.append_eq_nil_iff.mp hnil).1
  · intro hmem
    rcases List.mem_append.mp hmem with hmem | hmem
    · rcases mem_bytes hmem with ⟨c, hc, heq⟩ | hle
      · have heq' : c.toNat = 13 := heq
        rcases List.mem_append.mp hc with hc | hc
        · have hvisible := l.visible_version c hc
          omega
        rcases List.mem_cons.mp hc with rfl | hc
        · exact absurd heq' (by decide)
        rcases List.mem_append.mp hc with hc | hc
        · have hvisible := visible_to_string l.status.toNat c hc
          omega
        · rw [List.mem_singleton.mp hc] at heq'
          exact absurd heq' (by decide)
      · exact absurd hle (by decide)
    · exact not_mem_of_is_value l.reason_ok (by decide) hmem

/-- The first line of a stream. -/
theorem find_line (l : StatusLine) (behind : List UInt8) :
    find_window (bytes "\r\n".toList) (l.text ++ (crlf ++ behind)) = some l.text.length := by
  have hcrlf : bytes "\r\n".toList = crlf := by decide
  rw [hcrlf]
  unfold crlf
  rw [find_window_skip l.isLine.2, find_window_zero (List.prefix_append _ _),
    Option.map_some, Nat.zero_add]

/-- The status of a line that is text. -/
theorem status_of_text (l : StatusLine) {reason : Str}
    (h : read_to_string l.reason = some reason) :
    ∃ line, read_to_string l.text = some line ∧
      ((splitn 3 line ' ')[1]?).bind parse_u16 = some l.status := by
  refine ⟨_, by rw [text, read_to_string_append, h, Option.map_some], ?_⟩
  have hversion : ' ' ∉ l.version := fun hmem =>
    absurd (l.visible_version ' ' hmem) (by decide)
  have hstatus : ' ' ∉ to_string l.status.toNat := by
    intro hmem
    have hdigit := List.all_eq_true.mp (all_isDigit_to_string l.status.toNat) ' ' hmem
    exact absurd hdigit (by decide)
  have hline : (l.version ++ ' ' :: (to_string l.status.toNat ++ [' '])) ++ reason =
      l.version ++ ' ' :: (to_string l.status.toNat ++ ' ' :: reason) := by
    simp
  rw [hline, splitn, split_once_append hversion]
  simp only [splitn, split_once_append hstatus]
  exact parse_u16_to_string l.status

/-- A head behind a status line that is text is parsed. -/
theorem parse_of_text (l : StatusLine) {behind : List UInt8} {n : Nat} {reason : Str}
    (h : read_to_string l.reason = some reason)
    (hend : find_window (bytes "\r\n\r\n".toList) (l.text ++ (crlf ++ behind)) = some n) :
    parse_upstream_response (l.text ++ (crlf ++ behind)) = some (l.status, n + 4) := by
  obtain ⟨line, hline, hstatus⟩ := l.status_of_text h
  rw [parse_upstream_response_eq_some]
  refine ⟨n, _, hend, rfl, l.find_line behind, line, ?_, hstatus⟩
  rw [List.take_left, hline]

/-- A status line that is not text is never parsed, however much has come. -/
theorem parse_take_none (l : StatusLine) (h : read_to_string l.reason = none)
    (behind : List UInt8) (k : Nat) :
    parse_upstream_response ((l.text ++ (crlf ++ behind)).take k) = none := by
  rw [Option.eq_none_iff_forall_ne_some]
  intro ⟨code, header_end⟩ hsome
  obtain ⟨n, m, _, _, hm, line, hline, _⟩ := parse_upstream_response_eq_some.mp hsome
  have hwhole : find_window (bytes "\r\n".toList)
      ((l.text ++ (crlf ++ behind)).take k ++ (l.text ++ (crlf ++ behind)).drop k) = some m :=
    find_window_append hm
  rw [List.take_append_drop, find_line] at hwhole
  obtain rfl := Option.some.inj hwhole
  have hlen := find_window_length hm
  rw [List.length_take] at hlen
  rw [List.take_take, min_eq_left (by omega), List.take_left, text, read_to_string_append, h]
    at hline
  cases hline

end StatusLine

/-! ### Any cut -/

/-- The handshake does not depend on how the stream is cut: the loop ends with
    the head of the whole stream, and after a 101 the client is sent the rest of
    it. -/
structure CutUnnoticed (header_ok : Str → Str → Bool) (timely : Nat) (stream : List UInt8)
    (code : UInt16) (header_end : Nat) (chunks : List (List UInt8)) : Prop where
  whole : parse_upstream_response stream = some (code, header_end)
  loop : ∃ resp_buf unread,
    read_loop [] (chunks.map .ok) = .parsed code header_end resp_buf unread
  frames : code = 101 →
    Tunnelled (upgrade_answer header_ok timely (chunks.map .ok)) (stream.drop header_end)

/-- **How the stream is cut does not matter** exactly when the reason of the
    status line is text, and the http crate takes the header lines of a 101. -/
theorem handshake_any_cut_iff (l : StatusLine) {behind : List UInt8} {n : Nat}
    {chunks : List (List UInt8)} (header_ok : Str → Str → Bool) (timely : Nat)
    (hend : find_window (bytes "\r\n\r\n".toList) (l.text ++ (crlf ++ behind)) = some n)
    (hsize : n + 4 ≤ 65536) (hne : ∀ c ∈ chunks, c ≠ [])
    (hjoin : chunks.flatten = l.text ++ (crlf ++ behind)) :
    CutUnnoticed header_ok timely (l.text ++ (crlf ++ behind)) l.status (n + 4) chunks ↔
      (read_to_string l.reason).isSome = true ∧
        (l.status = 101 → ∀ kv ∈ header_lines ((l.text ++ (crlf ++ behind)).take (n + 4)),
          header_ok kv.1 kv.2 = true) := by
  cases hreason : read_to_string l.reason with
  | none =>
    have hparse := l.parse_take_none hreason behind (l.text ++ (crlf ++ behind)).length
    rw [List.take_length] at hparse
    constructor
    · intro h
      rw [h.whole] at hparse
      cases hparse
    · rintro ⟨htext, _⟩
      cases htext
  | some reason =>
    have hparse := l.parse_of_text hreason hend
    obtain ⟨hloop, hframes⟩ := handshake_any_cut header_ok timely hparse hsize hne hjoin
    rw [Option.isSome_some, eq_self, true_and, ← List.all_eq_true]
    generalize (header_lines ((l.text ++ (crlf ++ behind)).take (n + 4))).all
      (fun kv => header_ok kv.1 kv.2) = all at hframes ⊢
    cases all with
    | true =>
      refine iff_of_true ⟨hparse, hloop, fun hcode => ?_⟩ fun _ => rfl
      have hanswer := hframes hcode
      rwa [if_pos rfl] at hanswer
    | false =>
      constructor
      · intro h hcode
        -- the client gets a 502 instead
        have hanswer := hframes hcode
        rw [if_neg Bool.false_ne_true] at hanswer
        obtain ⟨_, _, _, hswitched, _⟩ := h.frames hcode
        rw [hanswer] at hswitched
        cases hswitched
      · intro hall
        exact ⟨hparse, hloop, fun hcode => absurd (hall hcode) Bool.false_ne_true⟩

/-- What the http crate takes for a header line. -/
def is_header (name value : Str) : Bool :=
  is_token (bytes name) && is_valid_value (bytes value)

/-- The status line of an upgrade, with any reason. -/
def switching (reason : List UInt8) (h : reason.all is_value_byte = true) : StatusLine where
  version := "HTTP/1.1".toList
  status := 101
  reason := reason
  version_ok := ⟨'1', '1', rfl, rfl, rfl⟩
  status_ok := by decide
  reason_ok := h

/-- A 101 with its head in two reads, and the first frame behind it. -/
theorem frame_tunnelled :
    CutUnnoticed is_header 0 (bytes "HTTP/1.1 101 S\r\na: b\r\n\r\nhi".toList) 101 24
      [bytes "HTTP/1.1 101 S\r\na: b\r\n\r".toList, bytes "\nhi".toList] := by
  have hlines : header_lines
      (((switching (bytes ['S']) (by decide)).text ++
        (crlf ++ bytes "a: b\r\n\r\nhi".toList)).take (20 + 4)) = [(['a'], ['b'])] := by
    decide
  have hend : find_window (bytes "\r\n\r\n".toList)
      ((switching (bytes ['S']) (by decide)).text ++
        (crlf ++ bytes "a: b\r\n\r\nhi".toList)) = some 20 := by
    decide
  have hstream : bytes "HTTP/1.1 101 S\r\na: b\r\n\r\nhi".toList =
      (switching (bytes ['S']) (by decide)).text ++ (crlf ++ bytes "a: b\r\n\r\nhi".toList) := by
    decide
  have hjoin : [bytes "HTTP/1.1 101 S\r\na: b\r\n\r".toList, bytes "\nhi".toList].flatten =
      (switching (bytes ['S']) (by decide)).text ++ (crlf ++ bytes "a: b\r\n\r\nhi".toList) := by
    decide
  rw [hstream]
  refine (handshake_any_cut_iff (switching (bytes ['S']) (by decide)) is_header 0 hend (by decide)
    (by decide) hjoin).mpr ⟨by decide, fun _ => ?_⟩
  rw [hlines]
  decide

/-- A 101 whose reason has an `é` of Latin-1 is not seen, though all of it is
    there: the loop reads on, and at the end of the stream there is no head. -/
theorem latin_reason_not_seen :
    find_window (bytes "\r\n\r\n".toList)
      ((switching [68, 233] (by decide)).text ++ (crlf ++ bytes "a: b\r\n\r\nhi".toList)) =
        some 21 ∧
    read_loop [] [.ok ((switching [68, 233] (by decide)).text ++
      (crlf ++ bytes "a: b\r\n\r\nhi".toList))] = .closed ∧
    ¬ CutUnnoticed is_header 0
      ((switching [68, 233] (by decide)).text ++ (crlf ++ bytes "a: b\r\n\r\nhi".toList)) 101 25
      [(switching [68, 233] (by decide)).text ++ (crlf ++ bytes "a: b\r\n\r\nhi".toList)] := by
  refine ⟨by decide, by decide, ?_⟩
  intro h
  have hnone : parse_upstream_response ((switching [68, 233] (by decide)).text ++
      (crlf ++ bytes "a: b\r\n\r\nhi".toList)) = none := by
    decide
  rw [h.whole] at hnone
  cases hnone

end Nsl
