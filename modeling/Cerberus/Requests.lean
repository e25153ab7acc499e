import Cerberus.Dispatch

/-! # Requests

Well-formed requests, as clients send them, and what the proxy makes of a stream of them: the
groups of the reference dispatch, one for each request, however the bytes arrive
(`splitClientCommand_reads`). -/

namespace Cerberus

open Frames

/-- A request: an array of bulk strings, or a line. -/
inductive Request where
  | array (strs : List Bytes) (nonempty : strs ≠ []) (few : strs.length ≤ 1024 * 1024)
      (short : ∀ s ∈ strs, s.length < 2 ^ 63)
  | simple (s : Bytes) (line : CR ∉ s)

namespace Request

def value : Request → Resp
  | array strs _ _ _ => .array (strs.map .bulk)
  | simple s _ => .simple s

def encode (r : Request) : Bytes := r.value.encode

/-- The strings of the request, each with its encoding; the header belongs to the first. -/
def parts : Request → Parts
  | array [] _ _ _ => ⟨[], []⟩
  | array (name :: args) _ _ _ =>
      ⟨(name, encodeHeader (args.length + 1) ++ encodeBulk name) :: args.map fun a => (a, encodeBulk a), []⟩
  | simple s _ => ⟨[(s, chr '+' :: (s ++ crlf))], []⟩

/-- The special parser of the request, if it has one, does not throw. -/
def Accepted (env : Env) (r : Request) : Prop := ∀ o, ∃ o', dispatch env o r.parts = .ok o'

/-- The group of the request, pushed. -/
def perform (env : Env) (o : Output) (r : Request) : Output :=
  match dispatch env o r.parts with
  | .ok o' => o'
  | .error _ => o

theorem allWellFormed_bulk : ∀ {strs : List Bytes}, (∀ s ∈ strs, s.length < 2 ^ 63) →
    Resp.AllWellFormed (strs.map .bulk)
  | [], _ => by simp [Resp.AllWellFormed]
  | s :: strs, h => by
      rw [List.map_cons, Resp.AllWellFormed, Resp.WellFormed]
      exact ⟨h s List.mem_cons_self, allWellFormed_bulk fun t ht => h t (List.mem_cons_of_mem _ ht)⟩

theorem wellFormed (r : Request) : r.value.WellFormed := by
  cases r with
  | array strs _ few short =>
      rw [value, Resp.WellFormed, List.length_map]
      exact ⟨by omega, allWellFormed_bulk short⟩
  | simple s line => rw [value, Resp.WellFormed]; exact line

theorem tokensAll_bulk : ∀ strs : List Bytes,
    Resp.tokensAll (strs.map .bulk) = strs.map fun s => (.str s, encodeBulk s)
  | [] => by rw [List.map_nil, Resp.tokensAll]; rfl
  | s :: strs => by rw [List.map_cons, Resp.tokensAll, Resp.tokens, tokensAll_bulk strs]; rfl

theorem partsFrom_bulk : ∀ strs : List Bytes,
    partsFrom [] (strs.map fun s => (.str s, encodeBulk s)) = ⟨strs.map fun s => (s, encodeBulk s), []⟩
  | [] => rfl
  | s :: strs => by simp only [List.map_cons, partsFrom, partsFrom_bulk strs, List.nil_append]

theorem tokens_array (strs : List Bytes) : (Resp.array (strs.map .bulk)).tokens =
    (.arr strs.length, encodeHeader strs.length) :: strs.map fun s => (.str s, encodeBulk s) := by
  rw [Resp.tokens, tokensAll_bulk, List.length_map]

theorem partsOf_tokens (r : Request) : partsOf r.value.tokens = r.parts := by
  cases r with
  | array strs nonempty _ _ =>
      rw [value, tokens_array]
      cases strs with
      | nil => exact absurd rfl nonempty
      | cons name args =>
          simp only [partsOf, partsFrom, List.map_cons, List.nil_append, partsFrom_bulk, parts,
            List.length_cons]
  | simple s _ => rfl

/-- The splitter takes the strings of a request. -/
theorem hookRun_request (env : Env) (o : Output) (r : Request) (m : Bytes) :
    hookRun (clientSplitter env) (r.encode ++ m) 0 [] r.value.tokens (.new 0 o) =
      ClientSplitter.takeAll env 0 r.parts.strs (.new 0 o) := by
  have hlex := Resp.lexes r.wellFormed m
  rw [← partsOf_tokens]
  cases r with
  | simple s line =>
      rcases hookRun_client env _ [] 0 [] (.new 0 o) le_rfl hlex with h | ⟨-, t, ht, size, hs⟩
      · exact h
      · rw [value, Resp.tokens, List.mem_singleton] at ht
        subst ht
        cases hs
  | array strs nonempty few short =>
      rw [value, tokens_array] at hlex ⊢
      generalize hl : (array strs nonempty few short).encode ++ m = l
      rw [show (Resp.array (strs.map .bulk)).encode ++ m = l from hl] at hlex
      have hsize : ¬(1024 * 1024 < (strs.length : ℤ)) := by omega
      -- the header is accepted; no other array follows
      have hhead : hookToken (clientSplitter env) l 0 [] (.arr strs.length, encodeHeader strs.length)
          (.new 0 o) = .ok (.new 0 o) := by
        simp only [hookToken, clientSplitter, ClientSplitter.onArray, if_neg hsize]
        rfl
      rw [hookRun, hhead]
      simp only [Except.bind, zero_add]
      generalize hhdr : encodeHeader strs.length = hdr at hlex ⊢
      have hbytes : bytesFrom l hdr.length = rawBytes (strs.map fun s => (.str s, encodeBulk s)) ++ m := by
        rw [hlex.bytes, rawBytes_cons, List.append_assoc, bytesFrom, Int.toNat_natCast, List.drop_left]
      have htok : ∀ t ∈ strs.map fun s => (Kind.str s, encodeBulk s), IsToken t := by
        intro t ht
        obtain ⟨s, hs, rfl⟩ := List.mem_map.mp ht
        exact isToken_bulk (short s hs)
      have hrest := lexes_of_isToken htok m
      rw [← hbytes] at hrest
      rcases hookRun_client env _ hdr hdr.length (kindStep [] (.arr strs.length)).1 (.new 0 o) (by omega)
          hrest with h | ⟨-, t, ht, size, hs⟩
      · rw [sub_self] at h
        exact h
      · obtain ⟨s, -, rfl⟩ := List.mem_map.mp ht
        cases hs

/-- The reader of client commands takes a request for one message. -/
theorem readMessage_request {env : Env} {r : Request} (h : r.Accepted env) (m : Bytes) (o : Output) :
    (messageReader (clientSplitter_framed env)).read (r.encode ++ m) o =
      .whole r.encode.length (r.perform env o) := by
  have hlex := Resp.lexes r.wellFormed m
  have hrun := hookRun_request env o r m
  rw [← partsOf_tokens] at hrun
  obtain ⟨o', ho⟩ := h o
  show readMessage _ _ _ _ _ = _
  rw [encode, readMessage_tokens (clientSplitter_framed env) o hlex (Resp.closes r.wellFormed),
    messageResult_dispatch env o hlex hrun, partsOf_tokens, ho, Resp.rawBytes_tokens]
  simp only [perform, ho]

theorem tokens_ne_int (r : Request) : ∀ t ∈ r.value.tokens, t.1 ≠ .int := by
  cases r with
  | array strs _ _ _ =>
      intro t ht
      rw [value, tokens_array, List.mem_cons] at ht
      rcases ht with rfl | ht
      · simp
      · obtain ⟨s, -, rfl⟩ := List.mem_map.mp ht
        simp
  | simple s _ =>
      intro t ht
      rw [value, Resp.tokens, List.mem_singleton] at ht
      subst ht
      simp

theorem stream_value (reqs : List Request) :
    stream Resp.encode (reqs.map value) = stream encode reqs := by
  simp only [stream, List.map_map]
  rfl

theorem incomplete_value {reqs : List Request} {p : Bytes} (h : Incomplete encode reqs p) :
    Incomplete Resp.encode (reqs.map value) p := by
  cases reqs with
  | nil => exact h
  | cons r reqs => exact h

end Request

/-- `split_client_command` on a buffer with `LengthsOk`. -/
theorem splitClientCommand_drain {env : Env} {buf : Bytes} {guard : Byte} (o : Output)
    (hL : LengthsOk guard buf) : splitClientCommand env buf guard o =
      splitResult (drain (messageReader (clientSplitter_framed env)) buf o) := by
  have hsplit := splitBy_drain (clientSplitter_framed env) hL o
  unfold splitResult
  cases hs : (drain (messageReader (clientSplitter_framed env)) buf o).stopped with
  | none =>
      rw [hs] at hsplit
      obtain ⟨s, h, hrest, hout⟩ := hsplit
      simp only [splitClientCommand, h, hrest, hout]
  | some e =>
      rw [hs] at hsplit
      obtain ⟨s, h, hout, -⟩ := hsplit
      simp only [splitClientCommand, h, hout]

/-- One call on whole requests and the beginning of another one. -/
theorem splitClientCommand_stream {env : Env} {reqs more : List Request} {p : Bytes}
    (guard : Byte) (o : Output) (h : ∀ r ∈ reqs ++ more, r.Accepted env)
    (hp : Incomplete Request.encode more p) :
    splitClientCommand env (stream Request.encode reqs ++ p) guard o =
      .split p (reqs.foldl (Request.perform env) o) := by
  have hread : ∀ rs : List Request, (∀ r ∈ rs, r.Accepted env) → ∀ r ∈ rs, ∀ m o,
      (messageReader (clientSplitter_framed env)).read (r.encode ++ m) o =
        .whole r.encode.length (r.perform env o) :=
    fun rs hrs r hr m o => Request.readMessage_request (hrs r hr) m o
  have hdrain := drain_stream p o (hread reqs fun r hr => h r (List.mem_append_left _ hr))
  rw [drain_incomplete hp _ (hread more fun r hr => h r (List.mem_append_right _ hr))] at hdrain
  have hL : LengthsOk guard (stream Request.encode reqs ++ p) := by
    rw [← Request.stream_value]
    refine Resp.lengthsOk_stream ?_ (Request.incomplete_value hp) (Or.inr ?_)
    · intro v hv
      rw [← List.map_append] at hv
      obtain ⟨r, -, rfl⟩ := List.mem_map.mp hv
      exact r.wellFormed
    · intro v hv
      rw [← List.map_append] at hv
      obtain ⟨r, -, rfl⟩ := List.mem_map.mp hv
      exact r.tokens_ne_int
  rw [splitClientCommand_drain o hL, hdrain]
  rfl

/-- Client commands are split independently of how the bytes arrive: after every read the
requests that are complete have been performed, in order and with one group each, and the rest
is in the buffer. -/
theorem splitClientCommand_reads (env : Env) (o : Output) (reqs : List Request)
    (h : ∀ r ∈ reqs, r.Accepted env) (reads : List (Bytes × Byte))
    (hr : received reads = stream Request.encode reqs) :
    readAll (splitClientCommand env) reads [] o = .split [] (reqs.foldl (Request.perform env) o) ∧
    (∀ j, ∃ k p, received (reads.take j) = stream Request.encode (reqs.take k) ++ p ∧
      Incomplete Request.encode (reqs.drop k) p ∧
      readAll (splitClientCommand env) (reads.take j) [] o =
        .split p ((reqs.take k).foldl (Request.perform env) o)) ∧
    ∀ r ∈ reqs, ∀ o : Output, ∃ g, (r.perform env o).groups = o.groups ++ [g] := by
  obtain ⟨hend, hall⟩ := readAll_stream_all (P := Request.Accepted env) (G := fun _ => True)
    (fun r _ => r.value.encode_ne_nil)
    (fun cs ds p guard o hP hp _ => splitClientCommand_stream guard o hP hp) o h (fun _ _ => trivial) hr
  refine ⟨hend, hall, fun r hmem o => ?_⟩
  obtain ⟨o', ho⟩ := h r hmem o
  simp only [Request.perform, ho]
  exact dispatch_pushed ho

/-- A `GET`, cut inside its key, and a `PING`. -/
theorem splitClientCommand_reads_get_ping :
    readAll (splitClientCommand ⟨false, fun _ => [], fun _ => 0, 0⟩)
        [(ascii "*2\r\n$3\r\nget\r\n$3\r\nfo", 45), (ascii "o\r\n+PI", 0), (ascii "NG\r\n", 0)] []
        ⟨[], [], 0, 0⟩ =
      .split [] ⟨[.single (.oneSlot (ascii "*2\r\n$3\r\nget\r\n$3\r\nfoo\r\n") 12182),
        .direct (ascii "+PONG\r\n")], [], 0, 0⟩ :=
  (splitClientCommand_reads _ _
    [.array [ascii "get", ascii "foo"] (by decide) (by decide) (by decide),
      .simple (ascii "PING") (by decide)]
    (by
      intro r hr
      simp only [List.mem_cons, List.not_mem_nil, or_false] at hr
      rcases hr with rfl | rfl
      · exact fun o => ⟨_, rfl⟩
      · exact fun o => ⟨_, rfl⟩) _ (by decide +kernel)).1.trans (by decide +kernel)

end Cerberus
