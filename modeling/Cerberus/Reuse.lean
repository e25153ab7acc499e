import Cerberus.Server

/-! # A connection from the pool

`close_conn` puts a `Server` back to the pool and `_reconnect` takes it out again.  All members
are reset but the offset into the first buffer of the output set (`BufferSet.clear`).  The run
below is that of the new connection, whatever the old one was in the middle of: `wellWritten_iff`
says that the new connection writes what is queued on it, and nothing else, exactly if that
offset was zero at the time of `close_conn`. -/

namespace Cerberus

/-- A connection that has been taken from the pool: the bytes it has written, the buffers that
went to its output set, each as it was then, and whether it has failed since. -/
structure Reused where
  server : Server
  content : CmdId → Bytes
  written : Bytes
  queued : List Bytes
  lost : Bool

inductive ReuseEvent where
  | push (k : CmdId) (request : Bytes)
  | popClient (cli : ClientId)
  | pushToBufferSet
  | writev (script : List WriteAnswer)
  | recvFrom (inp : Input) (replies : CmdId → Bytes)

namespace Reused

def bytes (r : Reused) : BufRef → Bytes
  | .command k => r.content k
  | _ => []

/-- `_reconnect` of a server that comes from the pool. -/
def reconnect (readonly : Bool) (s : Server) (content : CmdId → Bytes) : Reused where
  server := s.onServerConnected readonly
  content := content
  written := if readonly then Server.readonlyCmd else []
  queued := if readonly then [Server.readonlyCmd] else []
  lost := false

/-- Until the connection fails anything may happen to it, but no buffer changes while it is in
the output set: a command is queued when it is in no queue, and answered when its request has
been written. -/
def Enabled (r : Reused) : ReuseEvent → Prop
  | .push k _ => r.lost = false ∧ .command k ∉ r.server.outputBufferSet.bufArr
  | .recvFrom inp _ => r.lost = false ∧
      ∀ k ∈ (r.server.recvFrom inp).2.commands, .command k ∉ r.server.outputBufferSet.bufArr
  | _ => r.lost = false

/-- The members after a call of `writev`. -/
def wrote (r : Reused) (f : Flushed BufRef) : Reused :=
  { r with
    server := { r.server with outputBufferSet := f.set }
    written := r.written ++ f.taken
    lost := match f.ended with
      | .threw _ => true
      | _ => false }

def next (owner : CmdId → ClientId) (r : Reused) : ReuseEvent → Reused
  | .push k request =>
      { r with
        server := r.server.pushClientCommand k
        content := Function.update r.content k request }
  | .popClient cli => { r with server := r.server.popClient owner cli }
  | .pushToBufferSet =>
      { r with
        server := r.server.pushToBufferSet
        queued := r.queued ++ r.server.commands.map r.content }
  | .writev script => r.wrote (r.server.outputBufferSet.writev r.bytes script)
  | .recvFrom inp replies =>
      let x := r.server.recvFrom inp
      { r with
        server := x.1
        content := fun k => if k ∈ x.2.commands then replies k else r.content k
        lost := match x.2 with
          | .delivered _ => false
          | _ => true }

inductive Reachable (owner : CmdId → ClientId) (start : Reused) : Reused → Prop
  | refl : Reachable owner start start
  | step {r : Reused} {e : ReuseEvent} : Reachable owner start r → r.Enabled e →
      Reachable owner start (r.next owner e)

/-- The bytes on the wire are those of the requests, in order, up to some point; and all of them
once the output set of a connection that works is empty. -/
def WellWritten (r : Reused) : Prop :=
  r.written <+: r.queued.flatten ∧
    (r.lost = false → r.server.outputBufferSet.bufArr = [] → r.written = r.queued.flatten)

/-! ### The invariant -/

structure Inv (r : Reused) : Prop where
  sent : r.written <+: r.queued.flatten
  offset : r.lost = false → r.server.outputBufferSet.OffsetOk r.bytes
  stream : r.lost = false →
    r.written ++ r.server.outputBufferSet.pending r.bytes = r.queued.flatten

theorem Inv.wellWritten {r : Reused} (h : r.Inv) : r.WellWritten := by
  refine ⟨h.sent, fun hl hnil => ?_⟩
  have hs := h.stream hl
  rw [BufferSet.pending, hnil, List.map_nil, List.flatten_nil, List.drop_nil, List.append_nil] at hs
  exact hs

/-- Changes of buffers outside the output set do not matter. -/
theorem Inv.congr {r r' : Reused} (h : r.Inv) (hwritten : r'.written = r.written)
    (hqueued : r'.queued = r.queued)
    (hset : r'.server.outputBufferSet = r.server.outputBufferSet) (hlost : r.lost = false)
    (hbytes : ∀ b ∈ r.server.outputBufferSet.bufArr, r'.bytes b = r.bytes b) : r'.Inv := by
  refine ⟨?_, fun _ => ?_, fun _ => ?_⟩
  · rw [hwritten, hqueued]
    exact h.sent
  · rw [hset]
    exact (h.offset hlost).congr hbytes
  · rw [hwritten, hqueued, hset, BufferSet.pending_congr hbytes]
    exact h.stream hlost

theorem recvFrom_outputBufferSet (s : Server) (inp : Input) :
    (s.recvFrom inp).1.outputBufferSet = s.outputBufferSet := by
  unfold Server.recvFrom
  repeat' split
  all_goals rfl

theorem Inv.push {r : Reused} (h : r.Inv) (owner : CmdId → ClientId) {k : CmdId} {request : Bytes}
    (he : r.Enabled (.push k request)) : (r.next owner (.push k request)).Inv := by
  obtain ⟨hlost, hk⟩ := he
  refine h.congr rfl rfl rfl hlost ?_
  rintro (k' | g | -) hb
  · have hne : k' ≠ k := by
      rintro rfl
      exact hk hb
    exact Function.update_of_ne hne _ _
  · rfl
  · rfl

theorem Inv.recvFrom {r : Reused} (h : r.Inv) (owner : CmdId → ClientId) {inp : Input}
    {replies : CmdId → Bytes} (he : r.Enabled (.recvFrom inp replies)) :
    (r.next owner (.recvFrom inp replies)).Inv := by
  obtain ⟨hlost, hk⟩ := he
  refine h.congr rfl rfl (recvFrom_outputBufferSet _ _) hlost ?_
  rintro (k | g | -) hb
  · exact if_neg fun hmem => hk k hmem hb
  · rfl
  · rfl

theorem Inv.pushToBufferSet {r : Reused} (h : r.Inv) (owner : CmdId → ClientId)
    (hlost : r.lost = false) : (r.next owner .pushToBufferSet).Inv := by
  have hoff := h.offset hlost
  have hstream : r.written ++ BufferSet.pending r.bytes { r.server.outputBufferSet with
      bufArr := r.server.outputBufferSet.bufArr ++ r.server.commands.map .command } =
      (r.queued ++ r.server.commands.map r.content).flatten := by
    rw [BufferSet.pending_append hoff, ← List.append_assoc, h.stream hlost, List.flatten_append,
      List.map_map]
    rfl
  refine ⟨?_, fun _ => hoff.append _, fun _ => hstream⟩
  exact ⟨_, hstream⟩

theorem Inv.writev {r : Reused} (h : r.Inv) (owner : CmdId → ClientId) (hlost : r.lost = false)
    (script : List WriteAnswer) : (r.next owner (.writev script)).Inv := by
  have hf := BufferSet.writev_flushes script (h.offset hlost)
  have hstream := h.stream hlost
  show (r.wrote _).Inv
  generalize r.server.outputBufferSet.writev r.bytes script = f at hf
  obtain ⟨rest, hrest⟩ := hf.sent
  have hend : (r.wrote f).lost = false → ∀ e, f.ended ≠ .threw e := by
    intro hfalse e he
    rw [wrote, he] at hfalse
    cases hfalse
  refine ⟨⟨rest, ?_⟩, fun hl => hf.offset (hend hl), fun hl => ?_⟩
  · show r.written ++ f.taken ++ rest = r.queued.flatten
    rw [List.append_assoc, hrest, hstream]
  · show r.written ++ f.taken ++ f.set.pending r.bytes = r.queued.flatten
    rw [List.append_assoc, hf.bytes (hend hl), hstream]

theorem Inv.next {r : Reused} (h : r.Inv) (owner : CmdId → ClientId) {e : ReuseEvent}
    (he : r.Enabled e) : (r.next owner e).Inv := by
  cases e with
  | push k request => exact h.push owner he
  | popClient cli => exact h.congr rfl rfl rfl he fun _ _ => rfl
  | pushToBufferSet => exact h.pushToBufferSet owner he
  | writev script => exact h.writev owner he script
  | recvFrom inp replies => exact h.recvFrom owner he

theorem reachable_inv {owner : CmdId → ClientId} {start r : Reused} (h0 : start.Inv)
    (h : Reachable owner start r) : r.Inv := by
  induction h with
  | refl => exact h0
  | step _ he ih => exact ih.next owner he

/-- After `close_conn` only the offset can be left of the connection before. -/
theorem inv_reconnect {s : Server} (hoff : s.outputBufferSet.firstBufOffset = 0) (readonly : Bool)
    (content : CmdId → Bytes) : (reconnect readonly s.closeConn content).Inv := by
  have hset : (reconnect readonly s.closeConn content).server.outputBufferSet = ⟨[], 0⟩ := by
    rw [← hoff]
    cases readonly <;> rfl
  have hwritten : (reconnect readonly s.closeConn content).written =
      (reconnect readonly s.closeConn content).queued.flatten := by
    cases readonly <;> rfl
  refine ⟨hwritten ▸ List.prefix_rfl, fun _ => ?_, fun _ => ?_⟩
  · rw [hset]
    rfl
  · rw [hset, hwritten]
    exact List.append_nil _

/-! ### What the offset does -/

/-- A command whose request is not longer than what is left of the offset. -/
def swallowed (owner : CmdId → ClientId) (readonly : Bool) (s : Server) : Reused :=
  (((reconnect readonly s.closeConn fun _ => []).next owner (.push 0 [LF])).next owner
    .pushToBufferSet).next owner (.writev [])

theorem reachable_swallowed (owner : CmdId → ClientId) (readonly : Bool) (s : Server) :
    Reachable owner (reconnect readonly s.closeConn fun _ => []) (swallowed owner readonly s) := by
  refine .step (.step (.step .refl ⟨rfl, ?_⟩) ?_) ?_
  · cases readonly <;> exact List.not_mem_nil
  · rfl
  · rfl

/-- It is taken for written. -/
theorem not_wellWritten_swallowed (owner : CmdId → ClientId) (readonly : Bool) {s : Server}
    (hoff : s.outputBufferSet.firstBufOffset ≠ 0) : ¬ (swallowed owner readonly s).WellWritten := by
  obtain ⟨n, hn⟩ := Nat.exists_eq_succ_of_ne_zero hoff
  intro h
  have hall := h.2
  cases readonly <;>
    simp [swallowed, reconnect, next, wrote, Server.onServerConnected, Server.closeConn,
      Server.pushClientCommand, Server.pushToBufferSet, BufferSet.clear, BufferSet.writev,
      BufferSet.writevLoop, nextGroupToWrite, nextGroupLoop, writeVec, writeSingle, bytes, hn] at hall

/-- A server that is closed in any state and reconnected writes the requests that are queued on
it from then on, behind the `READONLY` line in that mode, exactly if it was not closed within
a buffer. -/
theorem wellWritten_iff (owner : CmdId → ClientId) (readonly : Bool) (s : Server) :
    (∀ content r, Reachable owner (reconnect readonly s.closeConn content) r → r.WellWritten) ↔
      s.outputBufferSet.firstBufOffset = 0 := by
  constructor
  · intro h
    by_contra hoff
    exact not_wellWritten_swallowed owner readonly hoff (h _ _ (reachable_swallowed owner readonly s))
  · intro hoff content r hr
    exact (reachable_inv (inv_reconnect hoff readonly content) hr).wellWritten

/-- Ten bytes of a request are written when the connection to the backend breaks. -/
def broken : Reused :=
  [.push 0 (ascii "*2\r\n$3\r\nGET\r\n$1\r\na\r\n"), .pushToBufferSet,
    .writev [.took 10, .ioError]].foldl (next id) (reconnect false .new fun _ => [])

/-- The next connection begins with the tenth byte of its first request. -/
def misaligned : Reused :=
  [.push 1 (ascii "*2\r\n$3\r\nGET\r\n$1\r\nb\r\n"), .pushToBufferSet, .writev [.took 100]].foldl
    (next id) (reconnect false broken.server.closeConn fun _ => [])

theorem misaligned_written :
    Reachable id (reconnect false .new fun _ => []) broken ∧ broken.lost = true ∧
    Reachable id (reconnect false broken.server.closeConn fun _ => []) misaligned ∧
    misaligned.lost = false ∧ misaligned.server.outputBufferSet.bufArr = [] ∧
    misaligned.queued = [ascii "*2\r\n$3\r\nGET\r\n$1\r\nb\r\n"] ∧
    misaligned.written = ascii "T\r\n$1\r\nb\r\n" := by
  refine ⟨?_, by decide +kernel, ?_, by decide +kernel, by decide +kernel, by decide +kernel,
    by decide +kernel⟩
  · rw [broken]
    simp only [List.foldl_cons, List.foldl_nil]
    exact .step (.step (.step .refl ⟨rfl, List.not_mem_nil⟩) rfl) rfl
  · rw [misaligned]
    simp only [List.foldl_cons, List.foldl_nil]
    exact .step (.step (.step .refl ⟨rfl, List.not_mem_nil⟩) rfl) rfl

end Reused

end Cerberus
