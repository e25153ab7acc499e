import Cerberus.Server
import Cerberus.Reads

/-! # Replies and the commands they answer

One lifetime of a connection to a backend, from `_reconnect` to `close_conn`: commands are
queued, clients are destroyed, requests are written in pieces and replies are read in pieces,
in any order.  The backend cuts what it receives into requests and answers each of them once,
in order; what it answers may depend on all it has received before.

Replies are matched by position alone.  `recvFrom_matches` says that every reply reaches the
command whose request it answers, if the output set starts at the beginning of its first
buffer.  `BufferSet::clear` leaves the offset as it was, so a connection that was closed in the
middle of a write breaks this for the next one (`recvFrom_after_partial_write`). -/

namespace Cerberus

open Frames

/-! ### The backend -/

/-- How a backend cuts what it receives into requests, and what it answers to the last one of
those it has received. -/
structure Backend where
  framing : Framing Byte
  answer : List Bytes → Resp
  wellFormed : ∀ reqs, (answer reqs).WellFormed

namespace Backend
variable (B : Backend)

/-- The requests in what has been written. -/
def requests (written : Bytes) : List Bytes := B.framing.cut written

/-- The answers to requests, each given after those before it. -/
def answers (reqs : List Bytes) : List Resp :=
  (List.range reqs.length).map fun j => B.answer (reqs.take (j + 1))

@[simp] theorem length_answers (reqs : List Bytes) : (B.answers reqs).length = reqs.length := by
  simp [answers]

theorem getElem?_answers {reqs : List Bytes} {j : ℕ} (h : j < reqs.length) :
    (B.answers reqs)[j]? = some (B.answer (reqs.take (j + 1))) := by
  simp [answers, h]

/-- Further requests do not change the answers to the earlier ones. -/
theorem take_answers (reqs more : List Bytes) :
    (B.answers (reqs ++ more)).take reqs.length = B.answers reqs := by
  apply List.ext_getElem?
  intro j
  by_cases hj : j < reqs.length
  · rw [List.getElem?_take_of_lt hj, B.getElem?_answers hj,
      B.getElem?_answers (by rw [List.length_append]; omega), List.take_append_of_le_length (by omega)]
  · rw [List.getElem?_eq_none (by rw [List.length_take, length_answers]; omega),
      List.getElem?_eq_none (by rw [length_answers]; omega)]

theorem answers_wellFormed (reqs : List Bytes) : ∀ v ∈ B.answers reqs, v.WellFormed := by
  intro v hv
  obtain ⟨j, -, rfl⟩ := List.mem_map.mp hv
  exact B.wellFormed _

end Backend

/-- The requests of a Redis server: an array, or a line of words. -/
def redis : Framing Byte where
  first l :=
    if l.head? = some (chr '*') then
      match (messageReader responseSplitter_framed).read l [] with
      | .whole n _ => some n
      | _ => none
    else (l.findIdx? (· = LF)).map (· + 1)
  first_pos {l n} h := by
    split at h
    · split at h
      · rename_i hr
        cases h
        exact (messageReader responseSplitter_framed).whole_pos hr
      · cases h
    · obtain ⟨i, hi, rfl⟩ := Option.map_eq_some_iff.mp h
      obtain ⟨hlt, -⟩ := List.findIdx?_eq_some_iff_getElem.mp hi
      omega
  first_append {l n} h m := by
    cases l with
    | nil => cases h
    | cons b l =>
        split at h
        · rename_i hb
          split at h
          · rename_i hr
            cases h
            rw [List.cons_append, List.head?_cons, ← List.head?_cons, if_pos hb, ← List.cons_append,
              (messageReader responseSplitter_framed).whole_append hr m]
          · cases h
        · rename_i hb
          rw [List.cons_append, List.head?_cons, ← List.head?_cons, if_neg hb, ← List.cons_append,
            List.findIdx?_append]
          obtain ⟨i, hi, rfl⟩ := Option.map_eq_some_iff.mp h
          rw [hi]
          rfl

/-- A backend that answers a request with its first bytes. -/
def echo : Backend where
  framing := redis
  answer reqs := .bulk ((reqs.getLastD []).take 512)
  wellFormed reqs := by
    rw [Resp.WellFormed, List.length_take]
    omega

/-! ### One lifetime of a connection -/

/-- A connection.  Besides the members of `Server`: the buffers of the commands, the bytes that
were written to the backend and read from it, everything that has been in `_sent_commands`
with the request it stands for, how many of these have been answered, and the clients that
have been destroyed. -/
structure Link where
  server : Server
  content : CmdId → Bytes
  written : Bytes
  received : Bytes
  queued : List (Option CmdId × Bytes)
  answered : ℕ
  gone : List ClientId

inductive LinkEvent where
  | push (k : CmdId) (request : Bytes)
  | popClient (cli : ClientId)
  | pushToBufferSet
  | writev (script : List WriteAnswer)
  | recvFrom (inp : Input)

/-- The queues of a connection are empty. -/
def Server.Idle (s : Server) : Prop :=
  s.buffer = [] ∧ s.commands = [] ∧ s.sentCommands = [] ∧ s.outputBufferSet.bufArr = []

namespace Link

/-- The buffers an output set of a server refers to. -/
def bytes (l : Link) : BufRef → Bytes
  | .command k => l.content k
  | _ => []

/-- `_reconnect`, with or without the `READONLY` handshake. -/
def reconnect (readonly : Bool) (s : Server) (content : CmdId → Bytes) : Link where
  server := s.onServerConnected readonly
  content := content
  written := if readonly then Server.readonlyCmd else []
  received := []
  queued := if readonly then [(none, Server.readonlyCmd)] else []
  answered := 0
  gone := []

section
variable (B : Backend) (owner : CmdId → ClientId)

/-- What may happen: a client that is there queues a command that is in no queue, with one
request; the socket takes bytes or none; the backend sends some more of its answers. -/
def Enabled (l : Link) : LinkEvent → Prop
  | .push k request => B.framing.IsFrame request ∧ owner k ∉ l.gone ∧
      k ∉ l.server.commands ∧ some k ∉ l.server.sentCommands
  | .popClient _ => True
  | .pushToBufferSet => True
  | .writev script => Quiet script
  | .recvFrom inp => inp.bytes ≠ [] ∧ (inp.ended = .again ∨ inp.ended = .eof) ∧ inp.guard ≠ chr '-' ∧
      l.received ++ inp.bytes <+: stream Resp.encode (B.answers (B.requests l.written))

def next (l : Link) : LinkEvent → Link
  | .push k request =>
      { l with
        server := l.server.pushClientCommand k
        content := Function.update l.content k request }
  | .popClient cli => { l with server := l.server.popClient owner cli, gone := cli :: l.gone }
  | .pushToBufferSet =>
      { l with
        server := l.server.pushToBufferSet
        queued := l.queued ++ l.server.commands.map fun k => (some k, l.content k) }
  | .writev script =>
      let r := l.server.outputBufferSet.writev l.bytes script
      { l with
        server := { l.server with outputBufferSet := r.set }
        written := l.written ++ r.taken }
  | .recvFrom inp =>
      let s := (l.server.recvFrom inp).1
      { l with
        server := s
        received := l.received ++ inp.bytes
        answered := l.answered + (l.server.sentCommands.length - s.sentCommands.length) }

/-- What can be reached from `start`. -/
inductive Reachable (start : Link) : Link → Prop
  | refl : Reachable start start
  | step {l : Link} {e : LinkEvent} : Reachable start l → l.Enabled B owner e →
      Reachable start (l.next owner e)

/-- The command of an entry of `_sent_commands`, unless its client is gone. -/
def live (l : Link) (e : Option CmdId × Bytes) : Option CmdId := e.1.filter fun k => owner k ∉ l.gone

/-- What the `j`-th request of the connection gets: the answer to it, if it is that of a command
whose client is there. -/
def deliveryAt (l : Link) (j : ℕ) : Option (CmdId × Response) :=
  match l.queued[j]? with
  | none => none
  | some e => (l.live owner e).map fun k => (k, (B.answer ((B.requests l.written).take (j + 1))).response)

/-! ### The invariant -/

/-- The buffer of the command of an entry. -/
def ref (e : Option CmdId × Bytes) : BufRef :=
  match e.1 with
  | some k => .command k
  | none => .rspOk

/-- The requests from the `f`-th on are those in the output set, with the bytes they had. -/
structure Unwritten (l : Link) (f : ℕ) : Prop where
  answered : l.answered ≤ f
  le : f ≤ l.queued.length
  refs : l.server.outputBufferSet.bufArr = (l.queued.drop f).map ref
  content : ∀ e ∈ l.queued.drop f, ∃ k, e.1 = some k ∧ l.content k = e.2

structure Inv (l : Link) : Prop where
  frames : ∀ e ∈ l.queued, B.framing.IsFrame e.2
  sent : l.server.sentCommands = (l.queued.drop l.answered).map (l.live owner)
  commands : ∀ k ∈ l.server.commands, B.framing.IsFrame (l.content k) ∧ owner k ∉ l.gone ∧
    some k ∉ l.server.sentCommands
  offset : l.server.outputBufferSet.OffsetOk l.bytes
  stream : l.written ++ l.server.outputBufferSet.pending l.bytes = stream id (l.queued.map Prod.snd)
  output : ∃ f, l.Unwritten f
  received : l.received = Frames.stream Resp.encode
    ((B.answers (B.requests l.written)).take l.answered) ++ l.server.buffer
  rest : Incomplete Resp.encode ((B.answers (B.requests l.written)).drop l.answered) l.server.buffer

variable {B owner}

/-- The bytes behind the entries of the output set are those of the requests. -/
theorem Unwritten.map_bytes {l : Link} {f : ℕ} (h : l.Unwritten f) :
    l.server.outputBufferSet.bufArr.map l.bytes = (l.queued.drop f).map Prod.snd := by
  rw [h.refs, List.map_map]
  refine List.map_congr_left fun e he => ?_
  obtain ⟨k, hk, hb⟩ := h.content e he
  rw [Function.comp_apply, ref, hk]
  exact hb

/-- The backend has the requests that have left the output set. -/
theorem Unwritten.requests_eq {l : Link} {f : ℕ} (hf : l.Unwritten f)
    (hframes : ∀ e ∈ l.queued, B.framing.IsFrame e.2)
    (hoff : l.server.outputBufferSet.OffsetOk l.bytes)
    (hstream : l.written ++ l.server.outputBufferSet.pending l.bytes =
      Frames.stream id (l.queued.map Prod.snd)) :
    B.requests l.written = (l.queued.take f).map Prod.snd := by
  have hhead := hoff.head
  rw [hf.map_bytes] at hhead
  rw [BufferSet.pending, hf.map_bytes] at hstream
  have hall : (l.queued.take f).map Prod.snd ++ (l.queued.drop f).map Prod.snd = l.queued.map Prod.snd := by
    rw [← List.map_append, List.take_append_drop]
  refine Framing.cut_written ?_ hhead (by rw [hall]; exact hstream)
  rw [hall]
  intro b hb
  obtain ⟨e, he, rfl⟩ := List.mem_map.mp hb
  exact hframes e he

theorem Inv.requests_eq {l : Link} (h : l.Inv B owner) {f : ℕ} (hf : l.Unwritten f) :
    B.requests l.written = (l.queued.take f).map Prod.snd :=
  hf.requests_eq h.frames h.offset h.stream

/-! ### Every event keeps it -/

/-- A command of a client that is there, if it is not in `_sent_commands`, has no request that
is still to be written. -/
theorem Unwritten.not_sent {l : Link} {f : ℕ} (hf : l.Unwritten f) (h : l.Inv B owner) {k : CmdId}
    (hgone : owner k ∉ l.gone) (hsent : some k ∉ l.server.sentCommands) :
    ∀ e ∈ l.queued.drop f, e.1 ≠ some k := by
  intro e he hk
  apply hsent
  rw [h.sent, List.mem_map]
  have hdrop : l.queued.drop f = (l.queued.drop l.answered).drop (f - l.answered) := by
    rw [List.drop_drop, Nat.add_sub_cancel' hf.answered]
  refine ⟨e, List.mem_of_mem_drop (hdrop ▸ he), ?_⟩
  rw [live, hk]
  simp [hgone]

theorem Inv.push {l : Link} (h : l.Inv B owner) {k : CmdId} {request : Bytes}
    (he : l.Enabled B owner (.push k request)) : (l.next owner (.push k request)).Inv B owner := by
  obtain ⟨hframe, hgone, hcmd, hsent⟩ := he
  obtain ⟨f, hf⟩ := h.output
  have hnot := hf.not_sent h hgone hsent
  have hcontent : ∀ k' ≠ k, Function.update l.content k request k' = l.content k' :=
    fun k' hk' => Function.update_of_ne hk' _ _
  have hbytes : ∀ r ∈ l.server.outputBufferSet.bufArr,
      (l.next owner (.push k request)).bytes r = l.bytes r := by
    intro r hr
    rw [hf.refs] at hr
    obtain ⟨e, he, rfl⟩ := List.mem_map.mp hr
    obtain ⟨k', hk', -⟩ := hf.content e he
    have hne : k' ≠ k := fun heq => hnot e he (heq ▸ hk')
    rw [ref, hk']
    exact hcontent k' hne
  refine ⟨h.frames, h.sent, ?_, h.offset.congr hbytes, ?_, ⟨f, hf.answered, hf.le, hf.refs, ?_⟩,
    h.received, h.rest⟩
  · intro k' hk'
    rcases List.mem_append.mp hk' with hk' | hk'
    · have hne : k' ≠ k := fun heq => hcmd (heq ▸ hk')
      show B.framing.IsFrame (Function.update l.content k request k') ∧ _
      rw [hcontent k' hne]
      exact h.commands k' hk'
    · rw [List.mem_singleton.mp hk']
      refine ⟨?_, hgone, hsent⟩
      show B.framing.IsFrame (Function.update l.content k request k)
      rw [Function.update_self]
      exact hframe
  · show l.written ++ l.server.outputBufferSet.pending _ = _
    rw [BufferSet.pending_congr hbytes]
    exact h.stream
  · intro e he
    obtain ⟨k', hk', hb⟩ := hf.content e he
    have hne : k' ≠ k := fun heq => hnot e he (heq ▸ hk')
    exact ⟨k', hk', (hcontent k' hne).trans hb⟩

theorem Inv.popClient {l : Link} (h : l.Inv B owner) (cli : ClientId) :
    (l.next owner (.popClient cli)).Inv B owner := by
  obtain ⟨f, hf⟩ := h.output
  have hlive : ∀ e, (l.next owner (.popClient cli)).live owner e =
      (l.live owner e).filter fun k => owner k ≠ cli := by
    intro e
    rw [live, live, Option.filter_filter]
    congr 1
    funext k
    simp only [next, List.mem_cons, not_or, Bool.decide_and, ne_eq]
    exact Bool.and_comm _ _
  have hsent : (l.server.popClient owner cli).sentCommands =
      (l.queued.drop l.answered).map ((l.next owner (.popClient cli)).live owner) := by
    rw [Server.popClient, h.sent, List.map_map]
    exact List.map_congr_left fun e _ => (hlive e).symm
  refine ⟨h.frames, hsent, ?_, h.offset, h.stream, ⟨f, hf.answered, hf.le, hf.refs, hf.content⟩,
    h.received, h.rest⟩
  intro k hk
  obtain ⟨hk, hne⟩ := List.mem_filter.mp hk
  obtain ⟨hframe, hgone, hns⟩ := h.commands k hk
  refine ⟨hframe, ?_, ?_⟩
  · intro hmem
    rcases List.mem_cons.mp hmem with heq | hmem
    · simp [heq] at hne
    · exact hgone hmem
  · intro hmem
    obtain ⟨c, hc, hck⟩ := List.mem_map.mp hmem
    rw [Option.filter_eq_some_iff] at hck
    exact hns (hck.1 ▸ hc)

theorem Inv.pushToBufferSet {l : Link} (h : l.Inv B owner) :
    (l.next owner .pushToBufferSet).Inv B owner := by
  obtain ⟨f, hf⟩ := h.output
  have hlive : ∀ k ∈ l.server.commands, l.live owner (some k, l.content k) = some k := by
    intro k hk
    rw [live]
    simp [(h.commands k hk).2.1]
  refine ⟨?_, ?_, nofun, h.offset.append _, ?_, ⟨f, hf.answered, ?_, ?_, ?_⟩,
    h.received, h.rest⟩
  · intro e he
    rcases List.mem_append.mp he with he | he
    · exact h.frames e he
    · obtain ⟨k, hk, rfl⟩ := List.mem_map.mp he
      exact (h.commands k hk).1
  · show l.server.sentCommands ++ l.server.commands.map some = List.map (l.live owner) _
    rw [show (l.next owner .pushToBufferSet).queued.drop (l.next owner .pushToBufferSet).answered =
      l.queued.drop l.answered ++ l.server.commands.map fun k => (some k, l.content k) from
      List.drop_append_of_le_length (hf.answered.trans hf.le), List.map_append, List.map_map, h.sent]
    congr 1
    exact List.map_congr_left fun k hk => (hlive k hk).symm
  · show l.written ++ BufferSet.pending l.bytes { l.server.outputBufferSet with
      bufArr := l.server.outputBufferSet.bufArr ++ l.server.commands.map .command } =
      Frames.stream id ((l.queued ++ l.server.commands.map fun k => (some k, l.content k)).map Prod.snd)
    rw [BufferSet.pending_append h.offset, ← List.append_assoc, h.stream, List.map_append, stream_append]
    congr 1
    simp [Frames.stream, List.map_map, Function.comp_def, bytes]
  · show f ≤ (l.queued ++ _).length
    rw [List.length_append]
    exact Nat.le_add_right_of_le hf.le
  · show _ ++ _ = List.map ref ((l.queued ++ _).drop f)
    rw [hf.refs, List.drop_append_of_le_length hf.le, List.map_append, List.map_map]
    rfl
  · intro e he
    rw [show (l.next owner .pushToBufferSet).queued.drop f =
      l.queued.drop f ++ l.server.commands.map fun k => (some k, l.content k) from
      List.drop_append_of_le_length hf.le] at he
    rcases List.mem_append.mp he with he | he
    · exact hf.content e he
    · obtain ⟨k, -, rfl⟩ := List.mem_map.mp he
      exact ⟨k, rfl, rfl⟩

/-- More has been written: the answers that are there stay, others may follow. -/
theorem Inv.more_answers {l : Link} (h : l.Inv B owner) {f f' : ℕ} (hf : l.Unwritten f)
    (hle : f ≤ f') {written : Bytes} (hw : B.requests written = (l.queued.take f').map Prod.snd) :
    (B.answers (B.requests written)).take l.answered = (B.answers (B.requests l.written)).take l.answered ∧
    Incomplete Resp.encode ((B.answers (B.requests written)).drop l.answered) l.server.buffer := by
  have hreq : B.requests written = B.requests l.written ++ ((l.queued.take f').drop f).map Prod.snd := by
    rw [hw, h.requests_eq hf, ← List.map_append]
    congr 1
    nth_rewrite 1 [← List.take_append_drop f (l.queued.take f')]
    rw [List.take_take, Nat.min_eq_left hle]
  have hlen : (B.requests l.written).length = f := by
    rw [h.requests_eq hf, List.length_map, List.length_take_of_le hf.le]
  have htake := B.take_answers (B.requests l.written) (((l.queued.take f').drop f).map Prod.snd)
  rw [← hreq] at htake
  have hall := List.take_append_drop (B.requests l.written).length (B.answers (B.requests written))
  rw [htake] at hall
  have hle' : l.answered ≤ (B.answers (B.requests l.written)).length := by
    rw [Backend.length_answers, hlen]
    exact hf.answered
  rw [← hall]
  constructor
  · exact List.take_append_of_le_length hle'
  · rw [List.drop_append_of_le_length hle']
    exact h.rest.append _ fun v _ => v.encode_ne_nil

theorem Inv.writev {l : Link} (h : l.Inv B owner) {script : List WriteAnswer}
    (he : l.Enabled B owner (.writev script)) : (l.next owner (.writev script)).Inv B owner := by
  obtain ⟨f, hf⟩ := h.output
  have hfl := BufferSet.writev_flushes script h.offset
  generalize hr : l.server.outputBufferSet.writev l.bytes script = r at hfl
  have hthrow : ∀ e, r.ended ≠ .threw e := by rw [← hr]; exact (BufferSet.writev_quiet he h.offset).1
  have hnext : l.next owner (.writev script) =
      { l with server := { l.server with outputBufferSet := r.set }, written := l.written ++ r.taken } := by
    rw [next, hr]
  rw [hnext]
  obtain ⟨gone, hgone⟩ := hfl.suffix
  have hlen : f + gone.length ≤ l.queued.length := by
    have h₁ := congrArg List.length hgone
    have h₂ := congrArg List.length hf.refs
    rw [List.length_append] at h₁
    rw [List.length_map, List.length_drop] at h₂
    have := hf.le
    omega
  have hdrop : l.queued.drop (f + gone.length) = (l.queued.drop f).drop gone.length := by
    rw [List.drop_drop]
  have hf' : Unwritten { l with server := { l.server with outputBufferSet := r.set }, written := l.written ++ r.taken }
      (f + gone.length) := by
    refine ⟨hf.answered.trans (Nat.le_add_right _ _), hlen, ?_, ?_⟩
    · show r.set.bufArr = List.map ref (l.queued.drop (f + gone.length))
      rw [hdrop, List.map_drop, ← hf.refs, ← hgone, List.drop_left]
    · intro e he
      exact hf.content e (List.mem_of_mem_drop (hdrop ▸ he))
  have hstream : l.written ++ r.taken ++ r.set.pending l.bytes =
      Frames.stream id (l.queued.map Prod.snd) := by
    rw [List.append_assoc, hfl.bytes hthrow]
    exact h.stream
  obtain ⟨htake, hrest⟩ := h.more_answers hf (Nat.le_add_right f gone.length)
    (hf'.requests_eq h.frames (hfl.offset hthrow) hstream)
  refine ⟨h.frames, h.sent, h.commands, hfl.offset hthrow, hstream, ⟨_, hf'⟩, ?_, hrest⟩
  show l.received = Frames.stream Resp.encode (List.take l.answered _) ++ l.server.buffer
  rw [htake]
  exact h.received

/-! ### Responses -/

/-- What `_recv_from` does with some more of the answers: those that are complete go to the
first entries of `_sent_commands`. -/
theorem Inv.recvFrom_eq {l : Link} (h : l.Inv B owner) {inp : Input}
    (he : l.Enabled B owner (.recvFrom inp)) :
    ∃ n p, l.answered + n ≤ (B.requests l.written).length ∧
      Incomplete Resp.encode ((B.answers (B.requests l.written)).drop (l.answered + n)) p ∧
      l.received ++ inp.bytes =
        Frames.stream Resp.encode ((B.answers (B.requests l.written)).take (l.answered + n)) ++ p ∧
      l.server.recvFrom inp =
        ({ l.server with buffer := p, sentCommands := l.server.sentCommands.drop n },
          .delivered (Server.deliveries l.server.sentCommands
            ((((B.answers (B.requests l.written)).drop l.answered).take n).map Resp.response))) := by
  obtain ⟨hbytes, hended, hguard, hpre⟩ := he
  obtain ⟨f, hf⟩ := h.output
  have hlen : (B.requests l.written).length = f := by
    rw [h.requests_eq hf, List.length_map, List.length_take_of_le hf.le]
  have hwf := B.answers_wellFormed (B.requests l.written)
  have hlen' := B.length_answers (B.requests l.written)
  have hreceived := h.received
  generalize B.answers (B.requests l.written) = vs at *
  have hsplit := List.take_append_drop l.answered vs
  -- the buffer continues the answers from the first that is not complete
  have hbuf : l.server.buffer ++ inp.bytes <+: Frames.stream Resp.encode (vs.drop l.answered) := by
    rw [hreceived, ← hsplit, stream_append, hsplit, List.append_assoc,
      List.prefix_append_right_inj] at hpre
    exact hpre
  obtain ⟨n, p, hn, hcut, hp⟩ := stream_cut (fun v _ => v.encode_ne_nil) hbuf
  rw [List.length_drop] at hn
  have hafter : vs.take (l.answered + n) = vs.take l.answered ++ (vs.drop l.answered).take n := List.take_add
  refine ⟨n, p, ?_, ?_, ?_, ?_⟩
  · have := hf.answered
    omega
  · rw [← List.drop_drop]
    exact hp
  · rw [hreceived, hafter, stream_append, List.append_assoc, hcut, List.append_assoc]
  · have hread : readInto l.server.buffer inp = (l.server.buffer ++ inp.bytes, none) := by
      rcases hended with h | h <;> simp [readInto, h]
    have hcall : splitServerResponse (l.server.buffer ++ inp.bytes) inp.guard =
        .split p (((vs.drop l.answered).take n).map Resp.response) := by
      rw [hcut]
      refine splitServerResponse_stream ?_ hp hguard
      rw [List.take_append_drop]
      exact fun v hv => hwf v (List.mem_of_mem_drop hv)
    have hcount : (((vs.drop l.answered).take n).map Resp.response).length = n := by
      rw [List.length_map, List.length_take_of_le (by rw [List.length_drop]; exact hn)]
    have hsent : n ≤ l.server.sentCommands.length := by
      rw [h.sent, List.length_map, List.length_drop]
      have := hf.le
      omega
    have hne : inp.bytes.isEmpty = false := by simpa using hbytes
    simp only [Server.recvFrom, hread, hne, Bool.false_eq_true, if_false, hcall, hcount,
      if_neg (Nat.not_lt.mpr hsent)]

theorem Inv.recvFrom {l : Link} (h : l.Inv B owner) {inp : Input}
    (he : l.Enabled B owner (.recvFrom inp)) : (l.next owner (.recvFrom inp)).Inv B owner := by
  obtain ⟨f, hf⟩ := h.output
  obtain ⟨n, p, hn, hrest, hreceived, hrecv⟩ := h.recvFrom_eq he
  have hlen : (B.requests l.written).length = f := by
    rw [h.requests_eq hf, List.length_map, List.length_take_of_le hf.le]
  have hsent : n ≤ l.server.sentCommands.length := by
    rw [h.sent, List.length_map, List.length_drop]
    have := hf.le
    omega
  have hnext : l.next owner (.recvFrom inp) =
      { l with
        server := { l.server with buffer := p, sentCommands := l.server.sentCommands.drop n }
        received := l.received ++ inp.bytes
        answered := l.answered + n } := by
    simp only [next, hrecv, List.length_drop]
    congr 2
    omega
  rw [hnext]
  refine ⟨h.frames, ?_, ?_, h.offset, h.stream, ⟨f, by show l.answered + n ≤ f; omega, hf.le, hf.refs, hf.content⟩,
    hreceived, hrest⟩
  · show l.server.sentCommands.drop n = List.map (l.live owner) (l.queued.drop (l.answered + n))
    rw [h.sent, ← List.map_drop, List.drop_drop]
  · intro k hk
    obtain ⟨hframe, hgone, hns⟩ := h.commands k hk
    exact ⟨hframe, hgone, fun hmem => hns (List.mem_of_mem_drop hmem)⟩

theorem Inv.next {l : Link} (h : l.Inv B owner) {e : LinkEvent} (he : l.Enabled B owner e) :
    (l.next owner e).Inv B owner := by
  cases e with
  | push k request => exact h.push he
  | popClient cli => exact h.popClient cli
  | pushToBufferSet => exact h.pushToBufferSet
  | writev script => exact h.writev he
  | recvFrom inp => exact h.recvFrom he

/-- A connection whose output set starts at the beginning of a buffer. -/
theorem inv_reconnect {readonly : Bool} {s : Server} (hs : s.Idle)
    (hoff : s.outputBufferSet.firstBufOffset = 0)
    (hro : readonly = true → B.framing.IsFrame Server.readonlyCmd) (content : CmdId → Bytes) :
    (reconnect readonly s content).Inv B owner := by
  obtain ⟨hbuf, hcmd, hsent, harr⟩ := hs
  have hout : (reconnect readonly s content).server.outputBufferSet = ⟨[], 0⟩ := by
    have hset : s.outputBufferSet = ⟨[], 0⟩ := by rw [← harr, ← hoff]
    cases readonly <;> exact hset
  have hbuf' : (reconnect readonly s content).server.buffer = [] := by
    cases readonly <;> exact hbuf
  have hcmd' : (reconnect readonly s content).server.commands = [] := by
    cases readonly <;> exact hcmd
  refine ⟨?_, ?_, by rw [hcmd']; exact fun _ h => absurd h List.not_mem_nil, by rw [hout]; rfl, ?_, ?_,
    by rw [hbuf']; rfl, ?_⟩
  · intro e he
    cases readonly with
    | false => cases he
    | true =>
        rw [List.mem_singleton.mp he]
        exact hro rfl
  · cases readonly with
    | false => exact hsent
    | true =>
        show s.sentCommands ++ [none] = _
        rw [hsent]
        rfl
  · rw [hout]
    cases readonly <;> simp [reconnect, BufferSet.pending]
  · refine ⟨(reconnect readonly s content).queued.length, Nat.zero_le _, le_rfl, ?_, ?_⟩
    · rw [hout, List.drop_length]
      rfl
    · rw [List.drop_length]
      exact fun _ h => absurd h List.not_mem_nil
  · rw [hbuf']
    exact Incomplete.append (show Incomplete Resp.encode [] [] from rfl) _ fun v _ => v.encode_ne_nil

theorem reachable_inv {start l : Link} (hs : start.Inv B owner) (h : Reachable B owner start l) :
    l.Inv B owner := by
  induction h with
  | refl => exact hs
  | step _ he ih => exact ih.next he

/-- The answers from the `a`-th on, given to the entries from the `a`-th on. -/
theorem deliveries_eq {l : Link} : ∀ (n a : ℕ), a + n ≤ (B.requests l.written).length →
    a + n ≤ l.queued.length →
    Server.deliveries ((l.queued.drop a).map (l.live owner))
        ((((B.answers (B.requests l.written)).drop a).take n).map Resp.response) =
      (List.range' a n).filterMap (l.deliveryAt B owner)
  | 0, a, _, _ => by
      rw [List.take_zero]
      cases (l.queued.drop a).map (l.live owner) with
      | nil => rfl
      | cons c _ => cases c <;> rfl
  | n + 1, a, hreq, hq => by
      have hlt : a < l.queued.length := by omega
      have hlt' : a < (B.answers (B.requests l.written)).length := by
        rw [B.length_answers]
        omega
      have hanswer : (B.answers (B.requests l.written))[a] =
          B.answer ((B.requests l.written).take (a + 1)) := by
        have hget := B.getElem?_answers (B.length_answers _ ▸ hlt')
        rw [List.getElem?_eq_getElem hlt'] at hget
        exact Option.some.inj hget
      have hat : l.deliveryAt B owner a = (l.live owner l.queued[a]).map fun k =>
          (k, (B.answer ((B.requests l.written).take (a + 1))).response) := by
        rw [deliveryAt, List.getElem?_eq_getElem hlt]
      have ih := deliveries_eq (l := l) n (a + 1) (by omega) (by omega)
      rw [List.drop_eq_getElem_cons hlt, List.drop_eq_getElem_cons hlt', List.take_succ_cons,
        List.map_cons, List.map_cons, List.range'_succ, List.filterMap_cons, hat, hanswer]
      cases l.live owner l.queued[a] with
      | none => exact ih
      | some k => exact congrArg (_ :: ·) ih

/-- Every reply reaches the command it answers: a read gives the `j`-th entry that was ever in
`_sent_commands` the answer to the `j`-th request the backend received, which is the request
of that entry, each once and in order; entries of clients that are gone get nothing. -/
theorem recvFrom_matches {readonly : Bool} {s : Server} {content : CmdId → Bytes} {l : Link}
    {inp : Input} (hs : s.Idle) (hoff : s.outputBufferSet.firstBufOffset = 0)
    (hro : readonly = true → B.framing.IsFrame Server.readonlyCmd)
    (hl : Reachable B owner (reconnect readonly s content) l) (he : l.Enabled B owner (.recvFrom inp)) :
    ∃ n, (l.server.recvFrom inp).2 =
        .delivered ((List.range' l.answered n).filterMap (l.deliveryAt B owner)) ∧
      (l.next owner (.recvFrom inp)).answered = l.answered + n ∧
      (∀ j < l.answered + n, ∃ e, l.queued[j]? = some e ∧ (B.requests l.written)[j]? = some e.2) ∧
      ∀ d ∈ (List.range' l.answered n).filterMap (l.deliveryAt B owner), owner d.1 ∉ l.gone := by
  have h := reachable_inv (inv_reconnect hs hoff hro content) hl
  obtain ⟨f, hf⟩ := h.output
  obtain ⟨n, p, hn, -, -, hrecv⟩ := h.recvFrom_eq he
  have hreq := h.requests_eq hf
  have hlen : (B.requests l.written).length = f := by
    rw [hreq, List.length_map, List.length_take_of_le hf.le]
  have hle := hf.le
  refine ⟨n, ?_, ?_, ?_, ?_⟩
  · rw [hrecv, h.sent]
    exact congrArg Received.delivered (deliveries_eq n l.answered hn (by omega))
  · simp only [Link.next, hrecv, List.length_drop]
    have : n ≤ l.server.sentCommands.length := by
      rw [h.sent, List.length_map, List.length_drop]
      omega
    omega
  · intro j hj
    have hjq : j < l.queued.length := by omega
    refine ⟨l.queued[j], List.getElem?_eq_getElem hjq, ?_⟩
    rw [hreq, List.getElem?_map, List.getElem?_take_of_lt (by omega), List.getElem?_eq_getElem hjq]
    rfl
  · intro d hd
    obtain ⟨j, -, hj⟩ := List.mem_filterMap.mp hd
    rw [deliveryAt] at hj
    cases hq : l.queued[j]? with
    | none => rw [hq] at hj; cases hj
    | some e =>
        rw [hq] at hj
        obtain ⟨k, hk, rfl⟩ := Option.map_eq_some_iff.mp hj
        rw [live, Option.filter_eq_some_iff] at hk
        simpa using hk.2

/-- The request for a key of one byte. -/
def getRequest (key : Char) : Bytes := ascii "*2\r\n$3\r\nGET\r\n$1\r\n" ++ chr key :: crlf

theorem isFrame_getRequest : redis.IsFrame (getRequest 'a') ∧ redis.IsFrame (getRequest 'b') ∧
    redis.IsFrame Server.readonlyCmd := by
  unfold Framing.IsFrame
  decide +kernel

/-- Two commands behind the handshake; the client of the first goes away while the request of
the second is half written. -/
def pipelined : Link :=
  [.push 1 (getRequest 'a'), .pushToBufferSet, .push 2 (getRequest 'b'), .pushToBufferSet,
    .writev [.took 25], .popClient 1, .writev [.took 15]].foldl (next id)
    (reconnect true .new fun _ => [])

theorem reachable_pipelined : Reachable echo id (reconnect true .new fun _ => []) pipelined := by
  obtain ⟨ha, hb, -⟩ := isFrame_getRequest
  rw [pipelined]
  simp only [List.foldl_cons, List.foldl_nil]
  refine .step (.step (.step (.step (.step (.step (.step .refl ?_) ?_) ?_) ?_) ?_) ?_) ?_
  · exact ⟨ha, by decide⟩
  · trivial
  · exact ⟨hb, by decide⟩
  · trivial
  · simp [Enabled, Quiet]
  · trivial
  · simp [Enabled, Quiet]

theorem requests_pipelined : echo.requests pipelined.written =
    [Server.readonlyCmd, getRequest 'a', getRequest 'b'] := by
  obtain ⟨ha, hb, hr⟩ := isFrame_getRequest
  have hw : pipelined.written = stream id [Server.readonlyCmd, getRequest 'a', getRequest 'b'] ++ [] := by
    decide +kernel
  rw [hw]
  exact @Framing.cut_stream _ redis _ [] [] (by simp [ha, hb, hr]) rfl

/-- All three answers in one read. -/
def pipelinedInput : Input :=
  ⟨stream Resp.encode [.bulk Server.readonlyCmd, .bulk (getRequest 'a'), .bulk (getRequest 'b')],
    .again, 0⟩

theorem enabled_pipelined : pipelined.Enabled echo id (.recvFrom pipelinedInput) := by
  refine ⟨by decide, Or.inl rfl, by decide, ?_⟩
  rw [requests_pipelined]
  decide +kernel

theorem recvFrom_matches_pipelined :
    (∃ n, (pipelined.server.recvFrom pipelinedInput).2 =
        .delivered ((List.range' pipelined.answered n).filterMap (pipelined.deliveryAt echo id)) ∧
      (pipelined.next id (.recvFrom pipelinedInput)).answered = pipelined.answered + n ∧
      (∀ j < pipelined.answered + n, ∃ e, pipelined.queued[j]? = some e ∧
        (echo.requests pipelined.written)[j]? = some e.2) ∧
      ∀ d ∈ (List.range' pipelined.answered n).filterMap (pipelined.deliveryAt echo id),
        id d.1 ∉ pipelined.gone) ∧
    (pipelined.server.recvFrom pipelinedInput).2 =
      .delivered [(2, (Resp.bulk (getRequest 'b')).response)] :=
  ⟨recvFrom_matches ⟨rfl, rfl, rfl, rfl⟩ rfl (fun _ => isFrame_getRequest.2.2) reachable_pipelined
    enabled_pipelined, by decide +kernel⟩

/-! ### A connection that was closed in the middle of a write -/

/-- Twenty-two bytes of a request were written when the connection was closed. -/
def interrupted : Server :=
  ([.push 0 (ascii "*2\r\n$3\r\nGET\r\n$6\r\nabcdef\r\n"), .pushToBufferSet,
    .writev [.took 22, .again]].foldl (next id) (reconnect false .new fun _ => [])).server.closeConn

/-- Two commands on the next connection. -/
def skipped : Link :=
  [.push 1 (getRequest 'a'), .pushToBufferSet, .writev [], .push 2 (getRequest 'b'),
    .pushToBufferSet, .writev [.took 20]].foldl (next id) (reconnect false interrupted fun _ => [])

theorem reachable_skipped : Reachable echo id (reconnect false interrupted fun _ => []) skipped := by
  obtain ⟨ha, hb, -⟩ := isFrame_getRequest
  rw [skipped]
  simp only [List.foldl_cons, List.foldl_nil]
  refine .step (.step (.step (.step (.step (.step .refl ?_) ?_) ?_) ?_) ?_) ?_
  · exact ⟨ha, by decide +kernel⟩
  · trivial
  · simp [Enabled, Quiet]
  · exact ⟨hb, by decide +kernel⟩
  · trivial
  · simp [Enabled, Quiet]

theorem requests_skipped : echo.requests skipped.written = [getRequest 'b'] := by
  obtain ⟨-, hb, -⟩ := isFrame_getRequest
  have hw : skipped.written = stream id [getRequest 'b'] ++ [] := by decide +kernel
  rw [hw]
  exact @Framing.cut_stream _ redis _ [] [] (by simp [hb]) rfl

/-- The first request after the reconnection is shorter than what is left of the offset: it is
never written, and its command gets the answer to the second one. -/
theorem recvFrom_after_partial_write :
    interrupted.Idle ∧ Reachable echo id (reconnect false interrupted fun _ => []) skipped ∧
    skipped.Enabled echo id (.recvFrom ⟨(Resp.bulk (getRequest 'b')).encode, .again, 0⟩) ∧
    skipped.queued = [(some 1, getRequest 'a'), (some 2, getRequest 'b')] ∧
    echo.requests skipped.written = [getRequest 'b'] ∧
    (skipped.server.recvFrom ⟨(Resp.bulk (getRequest 'b')).encode, .again, 0⟩).2 =
      .delivered [(1, (echo.answer [getRequest 'b']).response)] := by
  refine ⟨⟨rfl, rfl, rfl, rfl⟩, reachable_skipped, ⟨by decide, Or.inl rfl, by decide, ?_⟩,
    by decide +kernel, requests_skipped, by decide +kernel⟩
  rw [requests_skipped]
  decide +kernel

end

end Link

end Cerberus
