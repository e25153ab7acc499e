import Cerberus.Splitters
import Cerberus.Resp

/-! # Reads

Both sides of the proxy call their splitting function after every read, on what it left of
the bytes before and the new ones (`readAll`).  `readAll_stream` follows such reads along a
stream of encodings; `splitServerResponse_reads` is the result for the responses of a server. -/

namespace Cerberus

open Frames

/-! ### Splitting after every read -/

/-- Successive reads, each with the byte that lies behind the buffer then. -/
def readAll {α : Type} (f : Bytes → Byte → α → SplitResult α) :
    List (Bytes × Byte) → Bytes → α → SplitResult α
  | [], buf, o => .split buf o
  | (bytes, guard) :: reads, buf, o =>
      match f (buf ++ bytes) guard o with
      | .split rest o' => readAll f reads rest o'
      | .failed e o' => .failed e o'

/-- The bytes that arrived. -/
def received (reads : List (Bytes × Byte)) : Bytes := (reads.map Prod.fst).flatten

@[simp] theorem received_cons (r : Bytes × Byte) (reads : List (Bytes × Byte)) :
    received (r :: reads) = r.1 ++ received reads := rfl

section stream
variable {α β : Type} {f : Bytes → Byte → α → SplitResult α} {enc : β → Bytes} {step : α → β → α}
  {P : β → Prop} {G : Byte → Prop}

theorem received_take_prefix (reads : List (Bytes × Byte)) (j : ℕ) :
    received (reads.take j) <+: received reads := by
  refine ⟨received (reads.drop j), ?_⟩
  rw [received, received, ← List.flatten_append, ← List.map_append, List.take_append_drop]
  rfl

/-- By induction on the reads: each takes the encodings it completes. -/
theorem readAll_stream (hne : ∀ b, P b → enc b ≠ [])
    (hf : ∀ cs ds p guard o, (∀ b ∈ cs ++ ds, P b) → Incomplete enc ds p → G guard →
      f (stream enc cs ++ p) guard o = .split p (cs.foldl step o)) :
    ∀ (reads : List (Bytes × Byte)) (bs : List β) (p : Bytes) (o : α), (∀ b ∈ bs, P b) →
      (∀ r ∈ reads, G r.2) → Incomplete enc bs p → p ++ received reads <+: stream enc bs →
      ∃ k q, k ≤ bs.length ∧ p ++ received reads = stream enc (bs.take k) ++ q ∧
        Incomplete enc (bs.drop k) q ∧ readAll f reads p o = .split q ((bs.take k).foldl step o)
  | [], bs, p, o, _, _, hp, _ => ⟨0, p, Nat.zero_le _, by simp [received], hp, rfl⟩
  | (c, g) :: reads, bs, p, o, hP, hG, hp, hpre => by
      rw [received_cons, ← List.append_assoc] at hpre
      obtain ⟨k, q, hk, hcut, hq⟩ := stream_cut (fun b hb => hne b (hP b hb))
        ((List.prefix_append _ _).trans hpre)
      have hbs := List.take_append_drop k bs
      have hcall : f (p ++ c) g o = .split q ((bs.take k).foldl step o) := by
        rw [hcut]
        exact hf _ (bs.drop k) q g o (by rw [hbs]; exact hP) hq (hG (c, g) List.mem_cons_self)
      have hrest : q ++ received reads <+: stream enc (bs.drop k) := by
        rw [hcut, ← hbs, stream_append, hbs, List.append_assoc, List.prefix_append_right_inj] at hpre
        exact hpre
      obtain ⟨j, r, hj, hcut', hr, hall⟩ := readAll_stream hne hf reads (bs.drop k) q
        ((bs.take k).foldl step o) (fun b hb => hP b (List.mem_of_mem_drop hb))
        (fun x hx => hG x (List.mem_cons_of_mem _ hx)) hq hrest
      have htake : bs.take (k + j) = bs.take k ++ (bs.drop k).take j := List.take_add
      refine ⟨k + j, r, ?_, ?_, ?_, ?_⟩
      · rw [List.length_drop] at hj
        omega
      · rw [received_cons, ← List.append_assoc, hcut, List.append_assoc, hcut', htake, stream_append,
          List.append_assoc]
      · rw [← List.drop_drop]
        exact hr
      · rw [readAll, hcall, htake, List.foldl_append]
        exact hall

/-- The reads of a whole stream, from an empty buffer: what they have done after each of them,
and at the end. -/
theorem readAll_stream_all (hne : ∀ b, P b → enc b ≠ [])
    (hf : ∀ cs ds p guard o, (∀ b ∈ cs ++ ds, P b) → Incomplete enc ds p → G guard →
      f (stream enc cs ++ p) guard o = .split p (cs.foldl step o))
    {reads : List (Bytes × Byte)} {bs : List β} (o : α) (hP : ∀ b ∈ bs, P b)
    (hG : ∀ r ∈ reads, G r.2) (hr : received reads = stream enc bs) :
    readAll f reads [] o = .split [] (bs.foldl step o) ∧
    ∀ j, ∃ k p, received (reads.take j) = stream enc (bs.take k) ++ p ∧
      Incomplete enc (bs.drop k) p ∧
      readAll f (reads.take j) [] o = .split p ((bs.take k).foldl step o) := by
  have hnil : Incomplete enc bs [] := by
    cases bs with
    | nil => rfl
    | cons b bs => exact ⟨List.nil_prefix, (hne b (hP b List.mem_cons_self)).symm⟩
  have hall : ∀ j, ∃ k p, received (reads.take j) = stream enc (bs.take k) ++ p ∧
      Incomplete enc (bs.drop k) p ∧
      readAll f (reads.take j) [] o = .split p ((bs.take k).foldl step o) := by
    intro j
    have hpre := received_take_prefix reads j
    rw [hr] at hpre
    obtain ⟨k, q, -, hcut, hq, hrun⟩ := readAll_stream hne hf (reads.take j) bs [] o hP
      (fun r h => hG r (List.mem_of_mem_take h)) hnil hpre
    exact ⟨k, q, hcut, hq, hrun⟩
  refine ⟨?_, hall⟩
  obtain ⟨k, q, hcut, hq, hrun⟩ := hall reads.length
  have hbs := List.take_append_drop k bs
  have hs : q = stream enc (bs.drop k) := by
    rw [List.take_length, hr] at hcut
    have hsame : stream enc (bs.take k) ++ q = stream enc (bs.take k) ++ stream enc (bs.drop k) := by
      rw [← hcut, ← stream_append, hbs]
    exact List.append_cancel_left hsame
  have hdrop : bs.drop k = [] := incomplete_stream (hs ▸ hq)
  rw [hdrop, List.append_nil] at hbs
  rw [hdrop] at hs
  rw [List.take_length, hbs, hs] at hrun
  exact hrun

end stream

/-- What a splitting function gives when the reader drains its buffer. -/
def splitResult {α : Type} (d : Drained Byte α Stop) : SplitResult α :=
  match d.stopped with
  | none => .split d.rest d.out
  | some e => .failed e d.out

/-- The error string a splitter remembers behind these tokens. -/
def lastErrorOf (e : Bytes) (ts : List RawToken) : Bytes :=
  ts.foldl (fun e t => match t.1 with | .err s => s | _ => e) e

/-- The response made of the bytes of a message and the last error string in it. -/
def responseOf (raw e : Bytes) : Response :=
  if !e.isEmpty && retryError e then .retryMovedAsk else .normal raw (!e.isEmpty)

/-- The response to a value: of the errors in it, at any depth, the last one counts. -/
def Resp.response (v : Resp) : Response := responseOf v.encode (lastErrorOf [] v.tokens)

theorem hookRun_response {l rest : Bytes} : ∀ (ts : List RawToken) (pos : ℤ) (st : List ℤ)
    (e : Bytes) (rs : List Response), 0 ≤ pos → Lexes (bytesFrom l pos) ts rest →
    hookRun responseSplitter l pos st ts ⟨e, rs⟩ = .ok ⟨lastErrorOf e ts, rs⟩
  | [], _, _, _, _, _, _ => rfl
  | t :: ts, pos, st, e, rs, h0, hlex => by
      cases hlex with
      | @cons _ _ k n _ hk hlex =>
          have hlen : ((bytesFrom l pos).take n).length = n := List.length_take_of_le (lex_tok hk).2.1
          have ih := fun e st => hookRun_response ts (pos + n) st e rs (by omega)
            (by rw [bytesFrom_add h0 rfl n]; exact hlex)
          simp only [hookRun, hookToken, hlen]
          cases k with
          | err s =>
              have hs := lex_text_slice h0 hk (Or.inr rfl)
              simp only [responseSplitter, ResponseSplitter.onError, hs]
              exact ih s _
          | str s => exact ih e _
          | arr size => exact ih e _
          | int => exact ih e _
          | nil => exact ih e _

theorem onSplitPoint_response {l : Bytes} {n : ℕ} (hn : n ≤ l.length) (e : Bytes)
    (rs : List Response) :
    responseSplitter.onSplitPoint l 0 n ⟨e, rs⟩ = .ok ⟨[], rs ++ [responseOf (l.take n) e]⟩ := by
  have hs : slice l 0 n = some (l.take n) := by
    rw [slice, if_pos (by omega)]
    simp
  simp only [responseSplitter, ResponseSplitter.onSplitPoint, ResponseSplitter.pushRsp,
    ResponseSplitter.pushNormalRsp, hs, responseOf]
  split <;> rfl

/-- The reader of server responses takes the encoding of a value for one message. -/
theorem readMessage_response {v : Resp} (hv : v.WellFormed) (m : Bytes) (rs : List Response) :
    (messageReader responseSplitter_framed).read (v.encode ++ m) rs =
      .whole v.encode.length (rs ++ [v.response]) := by
  have hraw := Resp.rawBytes_tokens v
  show readMessage _ _ _ _ _ = _
  rw [readMessage_tokens responseSplitter_framed rs (Resp.lexes hv m) (Resp.closes hv)]
  simp only [messageResult, hraw, ResponseSplitter.fresh]
  rw [hookRun_response v.tokens 0 [] [] rs le_rfl (Resp.lexes hv m), zero_add]
  simp only [Except.bind]
  rw [onSplitPoint_response (by rw [List.length_append]; omega), List.take_left]
  simp [Resp.response]

theorem Resp.encode_ne_nil (v : Resp) : v.encode ≠ [] := by
  cases v <;> simp [Resp.encode, encodeBulk, encodeHeader] <;> decide

theorem Resp.lexes_stream : ∀ {vs : List Resp} (m : Bytes), (∀ v ∈ vs, v.WellFormed) →
    Lexes (stream Resp.encode vs ++ m) (vs.flatMap Resp.tokens) m
  | [], m, _ => Lexes.nil m
  | v :: vs, m, h => by
      rw [stream_cons, List.append_assoc, List.flatMap_cons]
      exact (Resp.lexes (h v List.mem_cons_self) _).append
        (lexes_stream m fun w hw => h w (List.mem_cons_of_mem _ hw))

/-- Whole values and the beginning of another one have no negative length. -/
theorem Resp.lengthsOk_stream {vs ws : List Resp} {p : Bytes} {guard : Byte}
    (h : ∀ v ∈ vs ++ ws, v.WellFormed) (hp : Incomplete Resp.encode ws p)
    (hg : guard ≠ chr '-' ∨ ∀ v ∈ vs ++ ws, ∀ t ∈ v.tokens, t.1 ≠ .int) :
    LengthsOk guard (stream Resp.encode vs ++ p) := by
  -- the values that have begun, whole
  obtain ⟨us, m, hsub, hus⟩ : ∃ us m, (∀ v ∈ us, v ∈ vs ++ ws) ∧
      stream Resp.encode us = stream Resp.encode vs ++ p ++ m := by
    cases ws with
    | nil => exact ⟨vs, [], by simp, by simp [show p = [] from hp]⟩
    | cons w ws =>
        obtain ⟨⟨m, hm⟩, -⟩ := hp
        refine ⟨vs ++ [w], m, fun v hv => ?_, ?_⟩
        · rcases List.mem_append.mp hv with hv | hv
          · exact List.mem_append_left _ hv
          · rw [List.mem_singleton.mp hv]; simp
        · rw [stream_append, stream_cons, stream_nil, List.append_nil, ← hm, List.append_assoc]
  have hlex := Resp.lexes_stream [] fun v hv => h v (hsub v hv)
  rw [List.append_nil, hus] at hlex
  refine lengthsOk_of_lexes hlex (hg.imp_right fun hint t ht => ?_)
  obtain ⟨v, hv, htv⟩ := List.mem_flatMap.mp ht
  exact hint v (hsub v hv) t htv

theorem foldl_concat_map {α β : Type} (f : α → β) : ∀ (l : List α) (acc : List β),
    l.foldl (fun acc a => acc ++ [f a]) acc = acc ++ l.map f
  | [], acc => by simp
  | a :: l, acc => by rw [List.foldl_cons, foldl_concat_map f l, List.map_cons, List.append_assoc]; rfl

/-- One call on whole values and the beginning of another one. -/
theorem splitServerResponse_whole {vs ws : List Resp} {p : Bytes} {guard : Byte}
    (h : ∀ v ∈ vs ++ ws, v.WellFormed) (hp : Incomplete Resp.encode ws p)
    (hL : LengthsOk guard (stream Resp.encode vs ++ p)) :
    splitServerResponse (stream Resp.encode vs ++ p) guard = .split p (vs.map Resp.response) := by
  have hread : ∀ us : List Resp, (∀ v ∈ us, v.WellFormed) → ∀ v ∈ us, ∀ m rs,
      (messageReader responseSplitter_framed).read (v.encode ++ m) rs =
        .whole v.encode.length (rs ++ [v.response]) :=
    fun us hus v hv m rs => readMessage_response (hus v hv) m rs
  have hdrain := drain_stream p [] (hread vs fun v hv => h v (List.mem_append_left _ hv))
  rw [drain_incomplete hp _ (hread ws fun v hv => h v (List.mem_append_right _ hv)),
    foldl_concat_map, List.nil_append] at hdrain
  have hsplit := splitBy_drain responseSplitter_framed hL []
  rw [hdrain] at hsplit
  obtain ⟨s, hs, hrest, hout⟩ := hsplit
  simp only [ResponseSplitter.fresh] at hs
  simp only [splitServerResponse, hs]
  rw [hrest, hout]

theorem splitServerResponse_stream {vs ws : List Resp} {p : Bytes} {guard : Byte}
    (h : ∀ v ∈ vs ++ ws, v.WellFormed) (hp : Incomplete Resp.encode ws p) (hg : guard ≠ chr '-') :
    splitServerResponse (stream Resp.encode vs ++ p) guard = .split p (vs.map Resp.response) :=
  splitServerResponse_whole h hp (Resp.lengthsOk_stream h hp (Or.inl hg))

/-- `split_server_response` after a read, with the responses of the reads before. -/
def recvResponses (buf : Bytes) (guard : Byte) (rs : List Response) : SplitResult (List Response) :=
  match splitServerResponse buf guard with
  | .split rest new => .split rest (rs ++ new)
  | .failed e _ => .failed e rs

/-- Server responses are split independently of how the bytes arrive: after every read the
values that are complete have given one response each, and the rest is in the buffer. -/
theorem splitServerResponse_reads (vs : List Resp) (hvs : ∀ v ∈ vs, v.WellFormed)
    (reads : List (Bytes × Byte)) (hg : ∀ r ∈ reads, r.2 ≠ chr '-')
    (hr : received reads = stream Resp.encode vs) :
    readAll recvResponses reads [] [] = .split [] (vs.map Resp.response) ∧
    (∀ j, ∃ k p, received (reads.take j) = stream Resp.encode (vs.take k) ++ p ∧
      Incomplete Resp.encode (vs.drop k) p ∧
      readAll recvResponses (reads.take j) [] [] = .split p ((vs.take k).map Resp.response)) ∧
    ∀ v ∈ vs, ∀ rsp e, v.response = .normal rsp e → rsp = v.encode := by
  have hf : ∀ cs ds p guard rs, (∀ v ∈ cs ++ ds, v.WellFormed) → Incomplete Resp.encode ds p →
      guard ≠ chr '-' → recvResponses (stream Resp.encode cs ++ p) guard rs =
        .split p (cs.foldl (fun rs v => rs ++ [v.response]) rs) := by
    intro cs ds p guard rs h hp hg
    rw [recvResponses, splitServerResponse_stream h hp hg, foldl_concat_map]
  obtain ⟨hend, hall⟩ := readAll_stream_all (fun v _ => v.encode_ne_nil) hf [] hvs hg hr
  simp only [foldl_concat_map, List.nil_append] at hend hall
  refine ⟨hend, hall, fun v _ rsp e h => ?_⟩
  unfold Resp.response responseOf at h
  split at h
  · cases h
  · cases h; rfl

/-- An array, cut inside its last element, and a redirection. -/
theorem splitServerResponse_reads_array_moved :
    readAll recvResponses
        [(ascii "*2\r\n:-1\r\n$2\r\na", 0), (ascii "b\r\n-MOVED 3", 13), (ascii " h:1\r\n", 0)] [] [] =
      .split [] [.normal (ascii "*2\r\n:-1\r\n$2\r\nab\r\n") false, .retryMovedAsk] :=
  (splitServerResponse_reads [.array [.int (-1), .bulk (ascii "ab")], .error (ascii "MOVED 3 h:1")]
    (by simp [Resp.WellFormed, Resp.AllWellFormed]; decide) _ (by decide) (by decide +kernel)).1.trans
    (by decide +kernel)

end Cerberus
