import Nsl.Framework.Chunked
import Nsl.Proxy.Upgrade

/-! # The answer of an upstream that does not upgrade

  The upstream refuses the upgrade with a response of its own. Its head is
  parsed, its header lines are copied, those that frame the body among them,
  and the body is what comes in before a silence of 100 ms, as it comes in.

  - `Response`: a response whose body is framed by its length, or in chunks.
  - `Delivery`: how it arrives.
  - `rejection_relayed_iff`: when the client gets its status and its payload.
-/

open Rust Rust.Http Framework Framework.Http1

namespace Nsl.Rejected

/-! ### Responses -/

def lower_case (name : List UInt8) : List UInt8 :=
  name.map fun b => if 65 ≤ b ∧ b ≤ 90 then b + 32 else b

/-- The values of a field, without the white space around them. -/
def field_values (fields : List (List UInt8 × List UInt8)) (name : String) : List (List UInt8) :=
  (fields.filter fun f => lower_case f.1 == bytes name.toList).map fun f => trim_ows f.2

inductive Framing where
  | content_length
  | chunked
deriving DecidableEq

/-- The fields frame the bytes behind the head, and the payload is what they
    say. -/
def Framed (fields : List (List UInt8 × List UInt8)) (raw payload : List UInt8) :
    Framing → Prop
  | .content_length =>
    field_values fields "content-length" = [bytes (to_string raw.length)] ∧
      field_values fields "transfer-encoding" = [] ∧ payload = raw
  | .chunked =>
    field_values fields "content-length" = [] ∧
      (field_values fields "transfer-encoding").map lower_case = [bytes "chunked".toList] ∧
      decode_chunks raw.length raw = some (payload, [])

/-- A well-formed response. -/
structure Response where
  version : Str
  status : UInt16
  reason : List UInt8
  /-- names, and values with the white space around them -/
  fields : List (List UInt8 × List UInt8)
  framing : Framing
  /-- the bytes behind the head -/
  raw : List UInt8
  payload : List UInt8
  version_ok : version = "HTTP/1.1".toList ∨ version = "HTTP/1.0".toList
  status_ok : 200 ≤ status ∧ status ≤ 599
  reason_ok : reason.all is_value_byte = true
  names_ok : ∀ f ∈ fields, is_token f.1 = true
  values_ok : ∀ f ∈ fields, f.2.all is_value_byte = true
  framed : Framed fields raw payload framing

namespace Response
variable (r : Response)

def status_line : List UInt8 :=
  bytes (r.version ++ ' ' :: (to_string r.status.toNat ++ [' '])) ++ r.reason

def lines : List (List UInt8) := r.status_line :: r.fields.map fun f => f.1 ++ 58 :: f.2

def head : List UInt8 := encode_lines r.lines

def stream : List UInt8 := r.head ++ r.raw

end Response

/-! ### Reads -/

/-- How many reads bring so many bytes. -/
def reads_for : Nat → List (List UInt8) → Nat
  | _, [] => 0
  | n, c :: cs => if n = 0 then 0 else reads_for (n - c.length) cs + 1

/-- How a response arrives. -/
structure Delivery (r : Response) where
  reads : List (List UInt8)
  /-- how many reads come in time, when the body is collected -/
  timely : Nat
  /-- the upstream closes the connection behind the response -/
  closes : Bool
  not_empty : ∀ c ∈ reads, c ≠ []
  whole : reads.flatten = r.stream

/-- The answer of `handle_upgrade`. While the head is not seen, a connection
    that stays open is read again. -/
def answer (header_ok : Str → Str → Bool) {r : Response} (d : Delivery r) :
    Option UpgradeAnswer :=
  if read_loop [] (d.reads.map .ok) = .closed ∧ d.closes = false then none
  else some (upgrade_answer header_ok d.timely (d.reads.map .ok))

/-- The answer is relayed faithfully, or it is a 502. -/
def Faithful (r : Response) : Option UpgradeAnswer → Prop
  | some (.bad_gateway _) => True
  | some (.refused status _ body) => status = 502 ∨ status = r.status ∧ body = r.payload
  | _ => False

/-! ### The condition -/

section
variable {r : Response} (d : Delivery r)

/-- More than 65536 bytes have come, and not so many as these. -/
def TooLarge (n : Nat) : Prop :=
  ∃ i, 65536 < (d.reads.take i).flatten.length ∧ (d.reads.take i).flatten.length < n

/-- The reads that bring the head. -/
def head_reads : Nat := reads_for r.head.length d.reads

/-- What has come behind the head, when the first read does not come in
    time. -/
def arrived : List UInt8 := ((d.reads.take (head_reads d + d.timely)).flatten).drop r.head.length

/-- A body of known length comes in time, all of it. A chunked body is cut off
    where its bytes happen to be the payload. -/
def BodyInTime : Prop :=
  match r.framing with
  | .content_length => d.reads.length ≤ head_reads d + d.timely
  | .chunked => head_reads d + d.timely < d.reads.length ∧ arrived d = r.payload

end

/-- A header line that the http crate refuses. -/
def Refused (header_ok : Str → Str → Bool) (r : Response) : Prop :=
  ∃ kv ∈ header_lines r.head, header_ok kv.1 kv.2 = false

/-- The condition. With a reason that is text: the answer is a 502 anyway, or
    the body comes in time. With any other reason the response is never
    parsed. -/
def RelayedWhen (header_ok : Str → Str → Bool) {r : Response} (d : Delivery r) : Prop :=
  if (read_to_string r.reason).isSome then
    r.status = 502 ∨ TooLarge d r.head.length ∨ Refused header_ok r ∨ BodyInTime d
  else d.closes = true ∨ TooLarge d (r.stream.length + 1)

/-! ### The head -/

/-- The status line of a response is one of HTTP. -/
def Response.line (r : Response) : StatusLine where
  version := r.version
  status := r.status
  reason := r.reason
  version_ok := by
    rcases r.version_ok with h | h
    · exact ⟨'1', '1', rfl, rfl, h⟩
    · exact ⟨'1', '0', rfl, rfl, h⟩
  status_ok := ⟨UInt16.le_trans (by decide) r.status_ok.1,
    UInt16.le_trans r.status_ok.2 (by decide)⟩
  reason_ok := r.reason_ok

theorem Response.stream_eq (r : Response) :
    r.stream = r.line.text ++
      (crlf ++ (encode_lines (r.fields.map fun f => f.1 ++ 58 :: f.2) ++ r.raw)) := by
  show encode_lines (r.line.text :: _) ++ r.raw = _
  rw [encode_lines_cons, List.append_assoc, List.append_assoc]

theorem isLine_lines (r : Response) : ∀ l ∈ r.lines, IsLine l := by
  intro l hl
  rcases List.mem_cons.mp hl with rfl | hl
  · exact r.line.isLine
  · obtain ⟨f, hf, rfl⟩ := List.mem_map.mp hl
    refine ⟨by simp, ?_⟩
    intro hmem
    rcases List.mem_append.mp hmem with hmem | hmem
    · exact not_mem_of_is_token (r.names_ok f hf) (by decide) hmem
    · rcases List.mem_cons.mp hmem with heq | hmem
      · cases heq
      · exact not_mem_of_is_value (r.values_ok f hf) (by decide) hmem

theorem find_head_end (r : Response) :
    ∃ n, find_window (bytes "\r\n\r\n".toList) r.stream = some n ∧ r.head.length = n + 4 := by
  obtain ⟨n, hn, hlen⟩ := find_end_lines (List.cons_ne_nil _ _) (isLine_lines r) r.raw
  exact ⟨n, hn, hlen.symm⟩

theorem parse_stream (r : Response) {reason : Str} (h : read_to_string r.reason = some reason) :
    parse_upstream_response r.stream = some (r.status, r.head.length) := by
  obtain ⟨n, hn, hlen⟩ := find_head_end r
  rw [r.stream_eq] at hn ⊢
  rw [hlen]
  exact r.line.parse_of_text h hn

/-- A status line that is not text is never parsed. -/
theorem parse_stream_take_none (r : Response) (h : read_to_string r.reason = none) (k : Nat) :
    parse_upstream_response (r.stream.take k) = none := by
  rw [r.stream_eq]
  exact r.line.parse_take_none h _ k

/-! ### The loop -/

/-- A read that brings more than 65536 bytes, and not so many as these. -/
def Over (buf : List UInt8) (chunks : List (List UInt8)) (n : Nat) : Prop :=
  ∃ i, 65536 < (buf ++ (chunks.take i).flatten).length ∧
    (buf ++ (chunks.take i).flatten).length < n

theorem over_cons {buf c : List UInt8} {chunks : List (List UInt8)} {n : Nat}
    (hsmall : buf.length ≤ 65536) : Over buf (c :: chunks) n ↔ Over (buf ++ c) chunks n := by
  constructor
  · intro ⟨i, hlarge, hlt⟩
    cases i with
    | zero =>
      simp at hlarge
      omega
    | succ i =>
      rw [List.take_succ_cons, List.flatten_cons, ← List.append_assoc] at hlarge hlt
      exact ⟨i, hlarge, hlt⟩
  · intro ⟨i, hlarge, hlt⟩
    refine ⟨i + 1, ?_⟩
    rw [List.take_succ_cons, List.flatten_cons, ← List.append_assoc]
    exact ⟨hlarge, hlt⟩

theorem not_over {buf : List UInt8} {chunks : List (List UInt8)} {n : Nat}
    (h : n ≤ buf.length) : ¬ Over buf chunks n := by
  intro ⟨i, _, hlt⟩
  rw [List.length_append] at hlt
  omega

/-- Where the loop ends, when the head is seen from some length on: by
    induction on the reads. -/
theorem read_loop_cases {stream : List UInt8} {code : UInt16} {header_end : Nat}
    (hseen : ∀ k ≤ stream.length, parse_upstream_response (stream.take k) =
      if header_end ≤ k then some (code, header_end) else none)
    {chunks : List (List UInt8)} (hne : ∀ c ∈ chunks, c ≠ []) {buf : List UInt8}
    (hjoin : buf ++ chunks.flatten = stream) (hbuf : buf.length < header_end)
    (hsmall : buf.length ≤ 65536) :
    Over buf chunks header_end ∧ read_loop buf (chunks.map .ok) = .too_large ∨
    ¬ Over buf chunks header_end ∧ stream.length < header_end ∧
      read_loop buf (chunks.map .ok) = .closed ∨
    ¬ Over buf chunks header_end ∧ header_end ≤ stream.length ∧
      read_loop buf (chunks.map .ok) = .parsed code header_end
        (buf ++ (chunks.take (reads_for (header_end - buf.length) chunks)).flatten)
        ((chunks.drop (reads_for (header_end - buf.length) chunks)).map .ok) := by
  induction chunks generalizing buf with
  | nil =>
    refine .inr (.inl ⟨?_, ?_, rfl⟩)
    · intro ⟨i, hlarge, _⟩
      simp at hlarge
      omega
    · rw [← hjoin]
      simpa using hbuf
  | cons c chunks ih =>
    rw [List.flatten_cons, ← List.append_assoc] at hjoin
    have hne' := fun c' hc' => hne c' (List.mem_cons_of_mem _ hc')
    have hlen : (buf ++ c).length ≤ stream.length := by
      rw [← hjoin]
      simp only [List.length_append]
      omega
    have htake : buf ++ c = stream.take (buf ++ c).length := by rw [← hjoin, List.take_left]
    have hparse := hseen (buf ++ c).length hlen
    rw [← htake] at hparse
    -- the read `c` counts as one, and the rest has to bring what is still missing
    have hreads : reads_for (header_end - buf.length) (c :: chunks) =
        reads_for (header_end - (buf ++ c).length) chunks + 1 := by
      rw [reads_for, if_neg (by omega), List.length_append, Nat.sub_sub]
    rw [over_cons hsmall, hreads, List.map_cons, read_loop, if_neg (hne c List.mem_cons_self),
      hparse, List.take_succ_cons, List.drop_succ_cons, List.flatten_cons, ← List.append_assoc]
    by_cases hle : header_end ≤ (buf ++ c).length
    · rw [if_pos hle]
      have hzero : reads_for (header_end - (buf ++ c).length) chunks = 0 := by
        rw [Nat.sub_eq_zero_of_le hle]
        cases chunks <;> rfl
      refine .inr (.inr ⟨not_over hle, by omega, ?_⟩)
      rw [hzero]
      simp
    · rw [if_neg hle]
      by_cases hlarge : (buf ++ c).length > 65536
      · simp only [if_pos hlarge]
        exact .inl ⟨⟨0, by simpa using hlarge, by simpa using hle⟩, trivial⟩
      · simp only [if_neg hlarge]
        exact ih hne' hjoin (by omega) (by omega)

/-- Where the loop ends with a response. -/
theorem read_loop_response {r : Response} (d : Delivery r) {reason : Str}
    (h : read_to_string r.reason = some reason) :
    TooLarge d r.head.length ∧ read_loop [] (d.reads.map .ok) = .too_large ∨
    ¬ TooLarge d r.head.length ∧ read_loop [] (d.reads.map .ok) =
      .parsed r.status r.head.length (d.reads.take (head_reads d)).flatten
        ((d.reads.drop (head_reads d)).map .ok) := by
  have hparse := parse_stream r h
  have hpos : ([] : List UInt8).length < r.head.length := by
    obtain ⟨n, _, hlen⟩ := find_head_end r
    rw [hlen]
    exact Nat.succ_pos _
  have hle := header_end_le hparse
  rcases read_loop_cases (fun k _ => parse_upstream_response_take hparse k) d.not_empty
    ((List.nil_append _).trans d.whole) hpos (Nat.zero_le _) with h | ⟨_, hlt, _⟩ | ⟨hno, _, h⟩
  · exact .inl h
  · omega
  · exact .inr ⟨hno, h⟩

theorem read_loop_no_text {r : Response} (d : Delivery r) (h : read_to_string r.reason = none) :
    TooLarge d (r.stream.length + 1) ∧ read_loop [] (d.reads.map .ok) = .too_large ∨
    ¬ TooLarge d (r.stream.length + 1) ∧ read_loop [] (d.reads.map .ok) = .closed := by
  have hseen : ∀ k ≤ r.stream.length, parse_upstream_response (r.stream.take k) =
      if r.stream.length + 1 ≤ k then some (0, r.stream.length + 1) else none := by
    intro k hk
    rw [parse_stream_take_none r h, if_neg (by omega)]
  rcases read_loop_cases hseen d.not_empty ((List.nil_append _).trans d.whole)
    (Nat.succ_pos _) (Nat.zero_le _) with h | ⟨hno, _, h⟩ | ⟨_, hle, _⟩
  · exact .inl h
  · exact .inr ⟨hno, h⟩
  · omega

/-! ### The body -/

theorem reads_for_length {n : Nat} {chunks : List (List UInt8)} (h : n ≤ chunks.flatten.length) :
    n ≤ (chunks.take (reads_for n chunks)).flatten.length := by
  induction chunks generalizing n with
  | nil => simpa using h
  | cons c chunks ih =>
    unfold reads_for
    split
    · omega
    · rw [List.flatten_cons, List.length_append] at h
      have hrest := ih (n := n - c.length) (by omega)
      rw [List.take_succ_cons, List.flatten_cons, List.length_append]
      omega

theorem head_arrived {r : Response} (d : Delivery r) :
    r.head.length ≤ (d.reads.take (head_reads d)).flatten.length := by
  refine reads_for_length ?_
  rw [d.whole, Response.stream, List.length_append]
  exact Nat.le_add_right _ _

/-- What is collected is what has arrived. -/
theorem collected_eq {r : Response} (d : Delivery r) :
    (d.reads.take (head_reads d)).flatten.drop r.head.length ++
        copied (((d.reads.drop (head_reads d)).map .ok).take d.timely) =
      arrived d := by
  have hcopied : copied (((d.reads.drop (head_reads d)).map .ok).take d.timely) =
      ((d.reads.drop (head_reads d)).take d.timely).flatten := by
    rw [← List.map_take]
    refine copied_ok fun c hc => d.not_empty c ?_
    exact List.mem_of_mem_drop (List.mem_of_mem_take hc)
  rw [hcopied, ← List.drop_append_of_le_length (head_arrived d), ← List.flatten_append, arrived,
    List.take_add]

/-- All of the body has arrived exactly when all reads came in time. -/
theorem arrived_eq_raw_iff {r : Response} (d : Delivery r) :
    arrived d = r.raw ↔ d.reads.length ≤ head_reads d + d.timely := by
  constructor
  · intro harrived
    by_contra hlt
    -- the read that did not come in time brings something
    have hsplit : (d.reads.take (head_reads d + d.timely)).flatten ++
        (d.reads.drop (head_reads d + d.timely)).flatten = r.stream := by
      rw [← List.flatten_append, List.take_append_drop, d.whole]
    have hlate : 0 < (d.reads.drop (head_reads d + d.timely)).flatten.length := by
      have hget := List.drop_eq_getElem_cons (Nat.lt_of_not_le hlt)
      rw [hget, List.flatten_cons, List.length_append]
      have hpos := List.length_pos_of_ne_nil
        (d.not_empty _ (List.getElem_mem (Nat.lt_of_not_le hlt)))
      omega
    have hhead : r.head.length ≤ (d.reads.take (head_reads d + d.timely)).flatten.length := by
      refine Nat.le_trans (head_arrived d) ?_
      rw [List.take_add, List.flatten_append, List.length_append]
      exact Nat.le_add_right _ _
    have hlen := congrArg List.length hsplit
    have hlen' := congrArg List.length harrived
    rw [Response.stream, List.length_append, List.length_append] at hlen
    rw [arrived, List.length_drop] at hlen'
    omega
  · intro hle
    rw [arrived, List.take_of_length_le hle, d.whole, Response.stream, List.drop_left]

theorem bodyInTime_iff {r : Response} (d : Delivery r) :
    BodyInTime d ↔ arrived d = r.payload := by
  have hframed := r.framed
  unfold BodyInTime
  cases hframing : r.framing with
  | content_length =>
    rw [hframing] at hframed
    rw [hframed.2.2, arrived_eq_raw_iff]
  | chunked =>
    rw [hframing] at hframed
    refine and_iff_right_of_imp ?_
    intro hpayload
    -- a body is longer than its payload
    have hshort := length_of_decode_chunks hframed.2.2
    by_contra hall
    rw [(arrived_eq_raw_iff d).mpr (by omega)] at hpayload
    rw [← hpayload] at hshort
    omega

/-! ### The answer -/

section
variable (header_ok : Str → Str → Bool) {r : Response} (d : Delivery r)

theorem upgrade_answer_parsed (hloop : read_loop [] (d.reads.map .ok) =
      .parsed r.status r.head.length (d.reads.take (head_reads d)).flatten
        ((d.reads.drop (head_reads d)).map .ok)) :
    upgrade_answer header_ok d.timely (d.reads.map .ok) =
      if (header_lines r.head).all (fun kv => header_ok kv.1 kv.2) then
        .refused r.status (header_lines r.head ++ [(NSL_HEADER, ['1'])]) (arrived d)
      else .bad_gateway "Invalid upstream response headers.".toList := by
  have hhead : (d.reads.take (head_reads d)).flatten.take r.head.length = r.head := by
    have hprefix : (d.reads.take (head_reads d)).flatten <+: r.stream := by
      refine ⟨(d.reads.drop (head_reads d)).flatten, ?_⟩
      rw [← List.flatten_append, List.take_append_drop, d.whole]
    have htake := List.prefix_of_prefix_length_le (List.prefix_append r.head r.raw) hprefix
      (head_arrived d)
    exact (List.prefix_iff_eq_take.mp htake).symm
  have hne : r.status ≠ 101 := by
    intro heq
    have hle := r.status_ok.1
    rw [heq] at hle
    exact absurd hle (by decide)
  have hdigits : 100 ≤ r.status ∧ r.status < 1000 :=
    ⟨UInt16.le_trans (by decide) r.status_ok.1,
      UInt16.lt_of_le_of_lt r.status_ok.2 (by decide)⟩
  unfold upgrade_answer
  simp only [hloop, hhead, if_pos hne, if_pos hdigits]
  rw [collected_eq d]

theorem answer_of_not_closed (h : read_loop [] (d.reads.map .ok) ≠ .closed) :
    answer header_ok d = some (upgrade_answer header_ok d.timely (d.reads.map .ok)) :=
  if_neg fun hclosed => h hclosed.1

theorem answer_of_too_large (h : read_loop [] (d.reads.map .ok) = .too_large) :
    answer header_ok d = some (.bad_gateway "Upstream response headers too large.".toList) := by
  rw [answer_of_not_closed header_ok d (by rw [h]; exact nofun), upgrade_answer, h]

/-- The status line is text. -/
theorem faithful_iff_of_text {reason : Str} (h : read_to_string r.reason = some reason) :
    Faithful r (answer header_ok d) ↔
      r.status = 502 ∨ TooLarge d r.head.length ∨ Refused header_ok r ∨ BodyInTime d := by
  rcases read_loop_response d h with ⟨hlarge, hloop⟩ | ⟨hsmall, hloop⟩
  · rw [answer_of_too_large header_ok d hloop]
    exact iff_of_true trivial (.inr (.inl hlarge))
  · rw [answer_of_not_closed header_ok d (by rw [hloop]; exact nofun),
      upgrade_answer_parsed header_ok d hloop]
    by_cases hall : (header_lines r.head).all (fun kv => header_ok kv.1 kv.2) = true
    · have hrefused : ¬ Refused header_ok r := by
        intro ⟨kv, hkv, hno⟩
        rw [List.all_eq_true.mp hall kv hkv] at hno
        cases hno
      rw [if_pos hall, bodyInTime_iff]
      show r.status = 502 ∨ r.status = r.status ∧ arrived d = r.payload ↔ _
      simp [hsmall, hrefused]
    · rw [if_neg hall]
      refine iff_of_true trivial (.inr (.inr (.inl ?_)))
      simpa [Refused] using hall

/-- The status line is not text. -/
theorem faithful_iff_of_no_text (h : read_to_string r.reason = none) :
    Faithful r (answer header_ok d) ↔ d.closes = true ∨ TooLarge d (r.stream.length + 1) := by
  rcases read_loop_no_text d h with ⟨hlarge, hloop⟩ | ⟨hsmall, hloop⟩
  · rw [answer_of_too_large header_ok d hloop]
    exact iff_of_true trivial (.inr hlarge)
  · unfold answer
    cases hcloses : d.closes with
    | true =>
      rw [if_neg (fun hand => absurd hand.2 (by decide)), upgrade_answer, hloop]
      exact iff_of_true trivial (.inl rfl)
    | false =>
      -- the connection is read for more
      rw [if_pos ⟨hloop, rfl⟩]
      exact iff_of_false id (not_or.mpr ⟨nofun, hsmall⟩)

end

/-- **A rejection is relayed faithfully** exactly under the condition. -/
theorem rejection_relayed_iff (header_ok : Str → Str → Bool) {r : Response} (d : Delivery r) :
    Faithful r (answer header_ok d) ↔ RelayedWhen header_ok d := by
  unfold RelayedWhen
  cases hreason : read_to_string r.reason with
  | none =>
    rw [if_neg (by decide)]
    exact faithful_iff_of_no_text header_ok d hreason
  | some reason =>
    rw [if_pos (by rfl)]
    exact faithful_iff_of_text header_ok d hreason

/-- A refusal whose body is one chunk. -/
def refusal_chunked : Response where
  version := "HTTP/1.1".toList
  status := 403
  reason := bytes "Forbidden".toList
  fields := [(bytes "Transfer-Encoding".toList, bytes " chunked".toList)]
  framing := .chunked
  raw := bytes "2\r\nhi\r\n0\r\n\r\n".toList
  payload := bytes "hi".toList
  version_ok := .inl rfl
  status_ok := by decide
  reason_ok := by decide
  names_ok := by decide
  values_ok := by decide
  framed := ⟨by decide, by decide, by decide⟩

/-- All of the response in one read. -/
def whole_in_one (r : Response) : Delivery r where
  reads := [r.stream]
  timely := 0
  closes := false
  not_empty c hc := by
    rw [List.mem_singleton.mp hc]
    intro hnil
    obtain ⟨n, _, hlen⟩ := find_head_end r
    rw [(List.append_eq_nil_iff.mp hnil).1] at hlen
    cases hlen
  whole := List.append_nil _

/-- A chunked body that arrives in one read with the head. -/
theorem chunks_not_decoded :
    ¬ Faithful refusal_chunked (answer is_header (whole_in_one refusal_chunked)) := by
  have hanswer : answer is_header (whole_in_one refusal_chunked) =
      some (.refused 403 [("Transfer-Encoding".toList, "chunked".toList), (NSL_HEADER, ['1'])]
        (bytes "2\r\nhi\r\n0\r\n\r\n".toList)) := by
    decide
  rw [hanswer]
  intro h
  rcases h with hstatus | ⟨_, hbody⟩
  · exact absurd hstatus (by decide)
  · exact absurd hbody (by decide)

end Nsl.Rejected
