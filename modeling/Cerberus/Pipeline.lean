import Cerberus.Replies
import Cerberus.Requests
import Cerberus.Runs
import Mathlib.Data.List.TakeWhile

/-! # The pipeline of a client

`_process` takes at most 64 groups at a time and `_push_awaitings_to_ready` holds back groups
that are complete while more than 256 replies are under way; what was left behind is picked up
when the output has been written.  The first section says what these functions do in terms of
the queues alone.  `not_stranded` says that nothing is left behind for good, if a socket that
has no room has none for the rest of the event; `stranded_after_race` is what happens
otherwise. -/

namespace Cerberus

namespace Objects

/-- What `append_buffer_to` of one group after the other leaves. -/
def appendBuffersTo (gs : List GroupId) (o : Objects) : Objects :=
  gs.foldl (fun o g => (o.appendBufferTo g).1) o

/-- The calls of `select_remote`. -/
def selects (o : Objects) (g : GroupId) : List ClientCall :=
  if (o.groups g).kind.waitRemote then (o.groups g).commands.map .selectServer else []

theorem GroupOk.refs_ne_nil {o : Objects} {g : GroupId} (h : o.GroupOk g) (hshort : o.short g = true) :
    o.refs g ≠ [] := by
  have hsize := h.size
  rw [short] at hshort
  unfold refs Objects.appendBufferTo
  dsimp only
  cases hk : (o.groups g).kind with
  | single c =>
      rw [hk] at hsize
      obtain ⟨k, hk⟩ := List.length_eq_one_iff.mp hsize
      rw [hk]
      exact List.cons_ne_nil _ _
  | direct b => exact List.cons_ne_nil _ _
  | multiple cs => exact List.cons_ne_nil _ _
  | del cs => exact List.cons_ne_nil _ _
  | mset cs => exact List.cons_ne_nil _ _
  | subscribe b => rw [hk] at hshort; cases hshort
  | blockedPop b ks => rw [hk] at hshort; cases hshort

end Objects

namespace Session

/-! ### What the functions of a client do -/

/-- `_push_awaitings_to_ready` leaves the groups where they are. -/
def Held (s : Session) : Prop :=
  s.client.awaitingCount ≠ 0 ∨ (s.client.readyGroups ≠ [] ∧
    maxResponses < s.client.awaitingGroups.length + s.client.readyGroups.length)

theorem appendAll_eq : ∀ (gs : List GroupId) (s : Session), s.appendAll gs =
    { s with
      objects := s.objects.appendBuffersTo gs
      client := { s.client with
        outputBufferSet := { s.client.outputBufferSet with
          bufArr := s.client.outputBufferSet.bufArr ++ gs.flatMap s.objects.refs }
        readyGroups := s.client.readyGroups ++ gs } }
  | [], s => by
      rw [List.flatMap_nil, List.append_nil, List.append_nil]
      rfl
  | g :: gs, s => by
      have hrefs : ((s.objects.appendBufferTo g).1.refs) = s.objects.refs := by
        funext g'
        exact Objects.appendBufferTo_refs g g' s.objects
      rw [appendAll, appendAll_eq gs]
      dsimp only
      rw [hrefs, List.flatMap_cons, List.append_assoc, List.append_assoc]
      rfl

/-- The groups in front of the first one that converts the client are taken. -/
theorem takeGroups_eq : ∀ (gs : List GroupId) (s : Session), s.takeGroups gs =
    ({ s with
      client := { s.client with
        awaitingCount := s.client.awaitingCount +
          ((gs.takeWhile s.objects.short).filter fun g => (s.objects.groups g).kind.waitRemote).length
        awaitingGroups := s.client.awaitingGroups ++ gs.takeWhile s.objects.short }
      calls := s.calls ++ (gs.takeWhile s.objects.short).flatMap s.objects.selects },
    (gs.dropWhile s.objects.short).head?)
  | [], s => by simp [takeGroups]
  | g :: gs, s => by
      unfold takeGroups
      dsimp only
      cases hlong : (s.objects.groups g).kind.longConnection with
      | true =>
          have hs : s.objects.short g = false := by rw [Objects.short, hlong]; rfl
          simp [hs]
      | false =>
          have hs : s.objects.short g = true := by rw [Objects.short, hlong]; rfl
          cases hw : (s.objects.groups g).kind.waitRemote with
          | true =>
              simp only [if_true, Bool.false_eq_true, if_false]
              rw [takeGroups_eq gs]
              simp [hs, hw, Objects.selects, add_assoc, add_comm]
          | false =>
              simp only [Bool.false_eq_true, if_false]
              rw [takeGroups_eq gs]
              simp [hs, hw, Objects.selects]

theorem pushAwaitingsToReady_of_held {s : Session} (h : s.Held) : s.pushAwaitingsToReady = s :=
  if_pos h

/-- The groups move on. -/
theorem pushAwaitingsToReady_client {s : Session} (h : ¬ s.Held) :
    s.pushAwaitingsToReady.client =
      { s.client with
        outputBufferSet := { s.client.outputBufferSet with
          bufArr := s.client.outputBufferSet.bufArr ++ s.client.awaitingGroups.flatMap s.objects.refs }
        readyGroups := s.client.readyGroups ++ s.client.awaitingGroups
        awaitingGroups := [] } := by
  unfold Held at h
  rw [pushAwaitingsToReady, if_neg h, appendAll_eq]
  dsimp only
  split <;> rfl

/-! ### What keeps a client going -/

/-- Replies under way are in the output set, and requests wait for those in front of them. -/
structure Flows (s : Session) : Prop where
  ready : s.client.readyGroups ≠ [] → s.client.outputBufferSet.bufArr ≠ []
  parsed : s.client.parsedGroups ≠ [] →
    s.client.awaitingGroups ≠ [] ∨ s.client.outputBufferSet.bufArr ≠ []

/-- Groups that are held back wait for a response or for the output. -/
structure Awake (s : Session) : Prop extends s.Flows where
  awaiting : s.client.awaitingGroups ≠ [] → s.client.awaitingCount = 0 →
    s.client.outputBufferSet.bufArr ≠ []

section
variable {start : ℕ} {s s' : Session} {env : Env}

theorem Awake.same (h : s.Awake) (hc : s'.client = s.client) : s'.Awake := by
  refine ⟨⟨?_, ?_⟩, ?_⟩
  · rw [hc]; exact h.ready
  · rw [hc]; exact h.parsed
  · rw [hc]; exact h.awaiting

/-- While there is output nothing is left behind. -/
theorem Awake.of_output (h : s.client.outputBufferSet.bufArr ≠ []) : s.Awake :=
  ⟨⟨fun _ => h, fun _ => Or.inr h⟩, fun _ _ => h⟩

theorem Good.refs_ne_nil (h : s.Good start []) : ∀ g ∈ s.client.awaitingGroups, s.objects.refs g ≠ [] := by
  obtain ⟨flushed, parsed, -, h⟩ := h
  intro g hg
  have hmem := List.mem_append_left parsed (List.mem_append_right (flushed ++ s.client.readyGroups) hg)
  exact (h.ok g (h.mem_requests hmem)).refs_ne_nil (h.short g hmem)

theorem Flows.pushAwaitingsToReady (h : s.Flows)
    (hrefs : ∀ g ∈ s.client.awaitingGroups, s.objects.refs g ≠ []) : s.pushAwaitingsToReady.Awake := by
  by_cases hheld : s.Held
  · rw [pushAwaitingsToReady_of_held hheld]
    refine ⟨h, fun _ h0 => ?_⟩
    rcases hheld with hne | ⟨hready, -⟩
    · exact absurd h0 hne
    · exact h.ready hready
  · have hclient := pushAwaitingsToReady_client hheld
    have hmore : s.client.awaitingGroups ≠ [] →
        s.client.outputBufferSet.bufArr ++ s.client.awaitingGroups.flatMap s.objects.refs ≠ [] := by
      intro hne hnil
      obtain ⟨g, gs, hgs⟩ := List.exists_cons_of_ne_nil hne
      rw [hgs, List.flatMap_cons] at hnil
      refine hrefs g (hgs ▸ List.mem_cons_self) ?_
      exact (List.append_eq_nil_iff.mp (List.append_eq_nil_iff.mp hnil).2).1
    have hold : s.client.outputBufferSet.bufArr ≠ [] →
        s.client.outputBufferSet.bufArr ++ s.client.awaitingGroups.flatMap s.objects.refs ≠ [] :=
      fun hne hnil => hne (List.append_eq_nil_iff.mp hnil).1
    constructor
    · constructor
      · rw [hclient]
        intro hne
        by_cases haw : s.client.awaitingGroups = []
        · refine hold (h.ready fun hnil => hne ?_)
          show s.client.readyGroups ++ s.client.awaitingGroups = []
          rw [hnil, haw]
          rfl
        · exact hmore haw
      · rw [hclient]
        intro hne
        exact Or.inr ((h.parsed hne).elim hmore hold)
    · rw [hclient]
      intro hne
      exact absurd rfl hne

/-- The session when `_process` has taken its groups, none of which converts the client. -/
def taken (s : Session) : Session :=
  { s with
    client := { s.client with
      parsedGroups := s.client.parsedGroups.drop maxPipe
      awaitingCount := s.client.awaitingCount + ((s.client.parsedGroups.take maxPipe).filter fun g =>
        (s.objects.groups g).kind.waitRemote).length
      awaitingGroups := s.client.awaitingGroups ++ s.client.parsedGroups.take maxPipe }
    calls := s.calls ++ (s.client.parsedGroups.take maxPipe).flatMap s.objects.selects }

theorem process_short (delivery : Option ConnThrow) (hclosed : s.client.closed = false)
    (hshort : ∀ g ∈ s.client.parsedGroups.take maxPipe, s.objects.short g = true) :
    s.process delivery =
      if 0 < s.taken.client.awaitingCount then (s.taken.call .wakePeers, none)
      else (s.taken.pushAwaitingsToReady, none) := by
  have htake : (s.client.parsedGroups.take maxPipe).takeWhile s.objects.short =
      s.client.parsedGroups.take maxPipe :=
    List.takeWhile_eq_self_iff.mpr hshort
  have hdrop : (s.client.parsedGroups.take maxPipe).dropWhile s.objects.short = [] :=
    List.dropWhile_eq_nil_iff.mpr hshort
  unfold Session.process
  rw [if_neg (by rw [hclosed]; nofun), takeGroups_eq, htake, hdrop]
  rfl

theorem Good.process_eq (delivery : Option ConnThrow) (hg : s.Good start []) :
    s.process delivery =
      if 0 < s.taken.client.awaitingCount then (s.taken.call .wakePeers, none)
      else (s.taken.pushAwaitingsToReady, none) := by
  exact process_short delivery hg.closed fun g hmem => hg.short g (List.mem_of_mem_take hmem)

/-- What is left of the parsed groups is behind others. -/
theorem taken_parsedGroups (h : s.taken.client.parsedGroups ≠ []) : s.taken.client.awaitingGroups ≠ [] := by
  intro hnil
  have htake := (List.append_eq_nil_iff.mp hnil).2
  rcases List.take_eq_nil_iff.mp htake with h0 | h0
  · exact absurd h0 (by decide)
  · refine h ?_
    show s.client.parsedGroups.drop maxPipe = []
    rw [h0]
    rfl

/-- Whatever was left behind before, `_process` takes care of it. -/
theorem Good.process_awake (delivery : Option ConnThrow) (hg : s.Good start [])
    (h : s.client.readyGroups ≠ [] → s.client.outputBufferSet.bufArr ≠ []) :
    (s.process delivery).1.Awake := by
  have heq := hg.process_eq delivery
  obtain ⟨flushed, parsed, hlate, hinv⟩ := hg
  have hrefs : ∀ g ∈ s.client.awaitingGroups ++ s.client.parsedGroups.take maxPipe,
      s.objects.refs g ≠ [] := by
    intro g hg
    have hmem : g ∈ flushed ++ s.client.readyGroups ++ s.client.awaitingGroups ++ parsed := by
      rcases List.mem_append.mp hg with hg | hg
      · exact List.mem_append_left _ (List.mem_append_right _ hg)
      · rw [hlate, List.append_nil] at hg
        exact List.mem_append_right _ (List.mem_of_mem_take hg)
    exact (hinv.ok g (hinv.mem_requests hmem)).refs_ne_nil (hinv.short g hmem)
  rw [heq]
  split
  · rename_i hpos
    exact ⟨⟨h, fun hne => Or.inl (taken_parsedGroups hne)⟩, fun _ h0 => absurd h0 (ne_of_gt hpos)⟩
  · exact Flows.pushAwaitingsToReady ⟨h, fun hne => Or.inl (taken_parsedGroups hne)⟩ hrefs

/-- No group that is complete is held back. -/
def Settled (s : Session) : Prop := s.client.awaitingGroups = [] ∨ s.client.awaitingCount ≠ 0

theorem settled_pushAwaitingsToReady (h : ¬ s.Held) : s.pushAwaitingsToReady.Settled := by
  refine Or.inl ?_
  rw [pushAwaitingsToReady_client h]

/-- When no reply is under way `_process` holds nothing back. -/
theorem process_settled (delivery : Option ConnThrow) (hclosed : s.client.closed = false)
    (hready : s.client.readyGroups = [])
    (hshort : ∀ g ∈ s.client.parsedGroups.take maxPipe, s.objects.short g = true) :
    (s.process delivery).1.Settled := by
  rw [process_short delivery hclosed hshort]
  split
  · rename_i hpos
    exact Or.inr (ne_of_gt hpos)
  · by_cases hheld : s.taken.Held
    · rw [pushAwaitingsToReady_of_held hheld]
      rcases hheld with h0 | ⟨hne, -⟩
      · exact Or.inr h0
      · exact absurd hready hne
    · exact settled_pushAwaitingsToReady hheld

/-- There is output while the socket has no room. -/
theorem awake_wrote {r : Flushed BufRef} (h : r.set.pending s.objects.content ≠ []) : (s.wrote r).Awake := by
  refine .of_output fun hnil => h ?_
  rw [BufferSet.pending, show r.set.bufArr = [] from hnil]
  exact List.drop_nil

theorem Good.sendBufferSet_awake (delivery : Option ConnThrow) (hg : s.Good start []) (hq : Quiet s.script)
    (hsettled : s.Settled) : (s.sendBufferSet delivery).1.Awake := by
  obtain ⟨r, -, -, ⟨-, hpend, -, heq⟩ | ⟨-, -, hgood, -, heq⟩⟩ := hg.sendBufferSet_cases delivery hq
  · rw [heq]
    exact awake_wrote hpend
  · have hclient := (s.wrote r).cleared_client
    have hready : (s.wrote r).cleared.client.readyGroups = [] := by rw [hclient]
    rw [heq, allSent_eq]
    split
    · rename_i hempty
      refine ⟨⟨fun hne => absurd hready hne, fun hne => absurd (List.isEmpty_iff.mp hempty) hne⟩, ?_⟩
      rw [hclient]
      intro hne h0
      exact absurd hsettled (not_or.mpr ⟨hne, not_not.mpr h0⟩)
    · exact hgood.process_awake delivery fun hne => absurd hready hne

/-- The second half of `_write_response`. -/
theorem Good.pushAndSend_awake (delivery : Option ConnThrow) (hg : s.Good start []) (hq : Quiet s.script)
    (hheld : ¬ s.Held) : (s.pushAwaitingsToReady.sendBufferSet delivery).1.Awake := by
  obtain ⟨hgood, hs⟩ := hg.pushAwaitingsToReady
  exact hgood.sendBufferSet_awake delivery (hs ▸ hq) (settled_pushAwaitingsToReady hheld)

/-- `_write_response`, when the socket does not get room again in the middle of it. -/
theorem Awake.writeResponse (h : s.Awake) (hg : s.Good start []) (hq : Quiet s.script)
    (hsteady : Steady s.script) : (s.writeResponse none).1.Awake := by
  unfold Session.writeResponse
  by_cases hempty : s.client.outputBufferSet.empty = true
  · have hnil : s.client.outputBufferSet.bufArr = [] := List.isEmpty_iff.mp hempty
    rw [if_pos hempty, andThen_none rfl]
    split
    · exact h
    · rename_i hcond
      rw [not_or, not_not] at hcond
      exact absurd hnil (h.awaiting (fun hnil => hcond.1 (by rw [hnil]; rfl)) hcond.2)
  · rw [if_neg hempty]
    obtain ⟨hnone, hgood, hquiet⟩ := hg.sendBufferSet none hq
    obtain ⟨r, hr, -, ⟨hend, hpend, hwrote, heq⟩ | ⟨hend, -, hcl, -, heq⟩⟩ := hg.sendBufferSet_cases none hq
    · -- the socket has no more room
      rw [heq] at hnone hgood hquiet ⊢
      rw [andThen_none rfl]
      split
      · exact awake_wrote hpend
      · by_cases hheld : (s.wrote r).Held
        · have hfull : ∀ a ∈ r.script, a.full = true := by
            rw [hr] at hend ⊢
            exact BufferSet.writevLoop_steady _ _ _ hsteady hend
          rw [pushAwaitingsToReady_of_held hheld]
          obtain ⟨r', hr', -, ⟨-, hpend', -, heq'⟩ | ⟨hend', -⟩⟩ := hwrote.sendBufferSet_cases none hquiet
          · rw [heq']
            exact awake_wrote hpend'
          · obtain ⟨flushed, parsed, -, hinv⟩ := hwrote
            rw [hr'] at hend'
            exact absurd hend' (BufferSet.writev_full hfull hinv.offset hpend)
        · exact hwrote.pushAndSend_awake none hquiet hheld
    · -- everything has been written
      have hclient := (s.wrote r).cleared_client
      have hready : (s.wrote r).cleared.client.readyGroups = [] := by rw [hclient]
      rw [heq, allSent_eq] at hnone hgood hquiet ⊢
      rw [andThen_none hnone]
      split at hgood
      · rename_i hparsed
        rw [if_pos hparsed] at hquiet ⊢
        split
        · rename_i hcond
          refine ⟨⟨fun hne => absurd hready hne, fun hne => absurd (List.isEmpty_iff.mp hparsed) hne⟩, ?_⟩
          intro hne h0
          rcases hcond with hnil | hne0
          · exact absurd (List.isEmpty_iff.mp hnil) hne
          · exact absurd h0 hne0
        · rename_i hcond
          rw [not_or, not_not] at hcond
          refine hgood.pushAndSend_awake none hquiet ?_
          rintro (h0 | ⟨hne, -⟩)
          · exact h0 hcond.2
          · exact hne hready
      · rename_i hparsed
        rw [if_neg hparsed] at hquiet ⊢
        have hsettled := process_settled none hcl.closed hready fun g hg => hcl.short g (List.mem_of_mem_take hg)
        rw [if_pos]
        · exact hcl.process_awake none fun hne => absurd hready hne
        · exact hsettled.imp_left fun hnil => by rw [hnil]; rfl

/-! ### Runs -/

theorem Awake.readRequest {inp : Input} (h : s.Awake) (hg : s.Good start [])
    (hbytes : inp.bytes ≠ []) (hended : inp.ended = .again ∨ inp.ended = .eof) {rest : Bytes}
    {out : Output} (hsplit : splitClientCommand env (s.client.buffer ++ inp.bytes) inp.guard
      ⟨[], [], s.statsCalls, s.randCalls⟩ = .split rest out)
    (hshort : ∀ kind ∈ out.groups, kind.longConnection = false) :
    (s.readRequest env none inp).1.Awake := by
  have hgood := lateFrom_short hshort ▸ hg.output out rest
  rw [readRequest_split none hg.closed hbytes hended hsplit]
  split
  · refine hgood.process_awake none ?_
    rw [output_eq]
    exact h.ready
  · rename_i hne
    rw [output_eq]
    exact ⟨⟨h.ready, fun _ => Or.inl fun hnil => hne (List.isEmpty_iff.mpr hnil)⟩, h.awaiting⟩

/-- A write finds room in the socket once, if at all. -/
def Event.Steady : Event → Prop
  | .onEvents _ (some script) => Cerberus.Steady script
  | _ => True

theorem Awake.onEvents {read : Option Input} {write : Option (List WriteAnswer)} (h : s.Awake)
    (hg : s.Good start []) (he : s.Enabled env (.onEvents read write))
    (hsteady : Event.Steady (.onEvents read write)) : (s.next env (.onEvents read write)).Awake := by
  obtain ⟨hread, hwrite⟩ := he
  have hq : Quiet (write.getD []) := by
    cases write with
    | none => nofun
    | some script => exact hwrite script rfl
  have hst : Cerberus.Steady (write.getD []) := by
    cases write with
    | none => trivial
    | some script => exact hsteady
  have hgood : Good start [] { s with script := write.getD [] } := hg.same rfl rfl rfl
  have hawake : Awake { s with script := write.getD [] } := h.same rfl
  obtain ⟨hnone, -⟩ := @Good.handle _ _ env read write.isSome hgood hq hread
  simp only [next, Session.onEvents, Bool.false_eq_true, if_false, hnone]
  -- the read
  have hfirst : (Session.readEvent env none { s with script := write.getD [] } read).2 = none ∧
      (Session.readEvent env none { s with script := write.getD [] } read).1.Good start [] ∧
      (Session.readEvent env none { s with script := write.getD [] } read).1.script = write.getD [] ∧
      (Session.readEvent env none { s with script := write.getD [] } read).1.Awake := by
    cases read with
    | none => exact ⟨rfl, hgood, rfl, hawake⟩
    | some inp =>
        obtain ⟨hbytes, hended, rest, out, hsplit, hshort⟩ := hread inp rfl
        obtain ⟨hnone, hgood', hs⟩ := hgood.readRequest none hbytes hended hsplit hshort
        exact ⟨hnone, hgood', hs, hawake.readRequest hgood hbytes hended hsplit hshort⟩
  unfold Session.handle
  generalize Session.readEvent env none { s with script := write.getD [] } read = r at *
  obtain ⟨hnone₁, hgood₁, hscript₁, hawake₁⟩ := hfirst
  rw [andThen_none hnone₁, hgood₁.closed, if_neg Bool.false_ne_true]
  -- the write
  cases hw : write.isSome with
  | false =>
      rw [if_neg Bool.false_ne_true, andThen_none rfl]
      exact hawake₁.same rfl
  | true =>
      obtain ⟨hnone₂, -⟩ := hgood₁.writeResponse none (hscript₁ ▸ hq)
      have hawake₂ := hawake₁.writeResponse hgood₁ (hscript₁ ▸ hq) (hscript₁ ▸ hst)
      rw [if_pos rfl, andThen_none hnone₂]
      exact hawake₂.same rfl

theorem Awake.respond {k : CmdId} {rsp : Bytes} {error : Bool} (h : s.Awake) (hg : s.Good start [])
    (he : s.Enabled env (.respond k rsp error)) : (s.next env (.respond k rsp error)).Awake := by
  obtain ⟨t, ht, ⟨hclient, heq⟩ | ⟨hclient, heq⟩⟩ := hg.respond_cases he
  · rw [heq]
    refine Flows.pushAwaitingsToReady ⟨?_, ?_⟩ ht.refs_ne_nil
    · rw [hclient]
      exact h.ready
    · rw [hclient]
      exact h.parsed
  · rw [heq]
    exact h.same hclient

theorem reachable_awake {self : ClientId} {o : Objects}
    (h : Runs.Reachable (next env) (fun s e => s.Enabled env e ∧ e.Steady) (connected self o) s) :
    s.Good o.groupCount [] ∧ s.Awake := by
  refine h.inv (I := fun s => s.Good o.groupCount [] ∧ s.Awake)
    ⟨good_connected self o, ⟨nofun, nofun⟩, nofun⟩ ?_
  rintro s (⟨read, write⟩ | ⟨k, rsp, error⟩) ⟨hg, ha⟩ ⟨he, hs⟩
  · exact ⟨hg.onEvents he, ha.onEvents hg he hs⟩
  · exact ⟨hg.respond he, ha.respond hg he⟩

end

/-- No request is left behind: while a reply has not been written to its end, the client waits
for a response or has something to write; and so it has if groups are held back or requests
have not been processed. -/
theorem not_stranded {env : Env} {self : ClientId} {o : Objects} {s : Session}
    (h : Runs.Reachable (next env) (fun s e => s.Enabled env e ∧ e.Steady) (connected self o) s) :
    (∀ n, ¬ (((s.requests o.groupCount).take n).map s.objects.reply).flatten <+: s.sent →
      0 < s.client.awaitingCount ∨ s.client.outputBufferSet.bufArr ≠ []) ∧
    (s.client.parsedGroups ≠ [] →
      s.client.awaitingGroups ≠ [] ∨ s.client.outputBufferSet.bufArr ≠ []) ∧
    (s.client.awaitingGroups ≠ [] → s.client.awaitingCount = 0 →
      s.client.outputBufferSet.bufArr ≠ []) := by
  obtain ⟨⟨flushed, parsed, hlate, hinv⟩, ha⟩ := reachable_awake h
  refine ⟨fun n hn => ?_, ha.parsed, ha.awaiting⟩
  by_contra hnot
  obtain ⟨hcount, hout⟩ := not_or.mp hnot
  rw [not_not] at hout
  refine hn ?_
  -- all queues are empty, and all replies have been written
  have h0 : s.client.awaitingCount = 0 := by
    have := hinv.count
    omega
  have hawaiting : s.client.awaitingGroups = [] := by
    by_contra hne
    exact ha.awaiting hne h0 hout
  have hparsed : s.client.parsedGroups = [] := by
    by_contra hne
    rcases ha.parsed hne with h | h
    · exact h hawaiting
    · exact h hout
  have horder := hinv.order
  have hbytes := hinv.bytes
  rw [List.append_nil] at hlate
  rw [hawaiting, ← hlate, hparsed, List.append_nil, List.append_nil, List.append_nil] at horder
  rw [BufferSet.pending, hout, List.map_nil, List.flatten_nil, List.drop_nil, List.append_nil, horder] at hbytes
  rw [hbytes]
  obtain ⟨rest, hrest⟩ := List.take_prefix n (s.requests o.groupCount)
  refine ⟨(rest.map s.objects.reply).flatten, ?_⟩
  rw [← List.flatten_append, ← List.map_append, hrest]

/-- `PING` is read, and the socket takes two bytes of the reply. -/
def pinged : Session :=
  (connected 0 .empty).next plainEnv
    (.onEvents (some ⟨ascii "*1\r\n$4\r\nPING\r\n", .again, 0⟩) (some [.took 2, .again]))

theorem not_stranded_pinged :
    ((∀ n, ¬ (((pinged.requests Objects.empty.groupCount).take n).map pinged.objects.reply).flatten <+:
        pinged.sent → 0 < pinged.client.awaitingCount ∨ pinged.client.outputBufferSet.bufArr ≠ []) ∧
      (pinged.client.parsedGroups ≠ [] →
        pinged.client.awaitingGroups ≠ [] ∨ pinged.client.outputBufferSet.bufArr ≠ []) ∧
      (pinged.client.awaitingGroups ≠ [] → pinged.client.awaitingCount = 0 →
        pinged.client.outputBufferSet.bufArr ≠ [])) ∧
    pinged.sent = ascii "+P" := by
  refine ⟨@not_stranded plainEnv 0 .empty _ (.step .refl ⟨⟨?_, ?_⟩, ?_⟩), by decide +kernel⟩
  · rintro inp ⟨rfl⟩
    exact ⟨by decide, Or.inl rfl, [], ⟨[.direct (ascii "+PONG\r\n")], [], 0, 0⟩, by decide +kernel, by decide⟩
  · rintro script ⟨rfl⟩
    simp [Quiet]
  · simp [Event.Steady, Cerberus.Steady, WriteAnswer.full]

/-! ### A race for the socket -/

def pong : Bytes := ascii "+PONG\r\n"

/-- The groups of `n` requests `PING`. -/
def pongs (n : ℕ) : Objects where
  groups g := if g < n then ⟨0, .direct pong, [], pong, 0, false⟩ else Objects.empty.groups g
  cmds := Objects.empty.cmds
  groupCount := n
  cmdCount := 0

theorem pongs_zero : pongs 0 = Objects.empty := rfl

theorem pongs_build (n : ℕ) : (pongs n).build 0 (.direct pong) = pongs (n + 1) := by
  have hgroups : ((pongs n).build 0 (.direct pong)).groups = (pongs (n + 1)).groups := by
    funext (g : ℕ)
    show Function.update (pongs n).groups n _ g = if g < n + 1 then _ else _
    by_cases hg : g = n
    · rw [hg, Function.update_self, if_pos (Nat.lt_succ_self n)]
      rfl
    · rw [Function.update_of_ne hg]
      show (if g < n then _ else _) = _
      by_cases hlt : g < n
      · rw [if_pos hlt, if_pos (by omega)]
      · rw [if_neg hlt, if_neg (by omega)]
  have hcmds : ((pongs n).build 0 (.direct pong)).cmds = (pongs (n + 1)).cmds := by
    funext k
    simp [Objects.build, pongs, CommandGroup.commands]
  exact congrArg₂ (fun groups cmds => Objects.mk groups cmds (n + 1) 0) hgroups hcmds

theorem buildAll_pongs : ∀ m n : ℕ, buildAll (List.replicate m (.direct pong)) 0 (pongs n) = pongs (n + m)
  | 0, _ => rfl
  | m + 1, n => by
      show buildAll (List.replicate m (.direct pong)) 0 ((pongs n).build 0 (.direct pong)) = _
      rw [pongs_build, buildAll_pongs m (n + 1), Nat.add_right_comm]
      rfl

/-- `m` replies are under way, and `k` more are held back. -/
def crowd (m k : ℕ) (calls : List ClientCall) : Session where
  self := 0
  client := ⟨false, [], [], List.range' m k, List.range m, 0, [], ⟨(List.range m).map .payload, 0⟩⟩
  objects := pongs (m + k)
  script := []
  sent := []
  calls := calls
  statsCalls := 0
  randCalls := 0

def ping : Request := .simple (ascii "PING") (by decide)

/-- `k` requests in one read. -/
def pings (k : ℕ) : Input := ⟨Frames.stream Request.encode (List.replicate k ping), .again, 0⟩

theorem perform_pings : ∀ (k : ℕ) (gs : List CommandGroup),
    (List.replicate k ping).foldl (Request.perform plainEnv) ⟨gs, [], 0, 0⟩ =
      ⟨gs ++ List.replicate k (.direct pong), [], 0, 0⟩
  | 0, gs => by simp
  | k + 1, gs => by
      have hone : ping.perform plainEnv ⟨gs, [], 0, 0⟩ = ⟨gs ++ [.direct pong], [], 0, 0⟩ := rfl
      rw [List.replicate_succ, List.foldl_cons, hone, perform_pings k, List.append_assoc]
      rfl

theorem split_pings (k : ℕ) : splitClientCommand plainEnv (pings k).bytes 0 ⟨[], [], 0, 0⟩ =
    .split [] ⟨List.replicate k (.direct pong), [], 0, 0⟩ := by
  have haccepted : ∀ r ∈ List.replicate k ping ++ [], r.Accepted plainEnv := by
    intro r hr
    rw [List.append_nil] at hr
    rw [List.eq_of_mem_replicate hr]
    exact fun o => ⟨_, rfl⟩
  have h := splitClientCommand_stream (p := []) 0 ⟨[], [], 0, 0⟩ haccepted rfl
  rw [List.append_nil, perform_pings, List.nil_append] at h
  exact h

theorem pings_bytes {k : ℕ} (hk : 0 < k) : (pings k).bytes ≠ [] := by
  obtain ⟨k, rfl⟩ := Nat.exists_eq_succ_of_ne_zero (Nat.ne_of_gt hk)
  nofun

theorem enabled_pings (m : ℕ) {k : ℕ} (hk : 0 < k) (calls : List ClientCall) :
    (crowd m 0 calls).Enabled plainEnv (.onEvents (some (pings k)) none) := by
  refine ⟨?_, nofun⟩
  rintro inp ⟨rfl⟩
  refine ⟨pings_bytes hk, Or.inl rfl, [], _, split_pings k, fun kind hkind => ?_⟩
  rw [List.eq_of_mem_replicate hkind]
  rfl

theorem appendBuffersTo_pongs (n : ℕ) : ∀ gs : List ℕ, (∀ g ∈ gs, g < n) →
    (pongs n).appendBuffersTo gs = pongs n ∧ gs.flatMap (pongs n).refs = gs.map .payload
  | [], _ => ⟨rfl, rfl⟩
  | g :: gs, h => by
      have hg : (pongs n).appendBufferTo g = (pongs n, [.payload g]) := by
        have hk : (pongs n).groups g = ⟨0, .direct pong, [], pong, 0, false⟩ := if_pos (h g List.mem_cons_self)
        simp only [Objects.appendBufferTo, hk]
      obtain ⟨h₁, h₂⟩ := appendBuffersTo_pongs n gs fun g' hg' => h g' (List.mem_cons_of_mem _ hg')
      refine ⟨?_, ?_⟩
      · show (((pongs n).appendBufferTo g).1).appendBuffersTo gs = _
        rw [hg]
        exact h₁
      · rw [List.flatMap_cons, h₂, Objects.refs, hg]
        rfl

/-- A read puts its groups behind the others. -/
theorem read_pings (m : ℕ) {k : ℕ} (hk : 0 < k) (hle : k ≤ maxPipe) (calls : List ClientCall) :
    (crowd m 0 calls).readRequest plainEnv none (pings k) = ((crowd m k calls).pushAwaitingsToReady, none) := by
  have hout : Session.output ⟨List.replicate k (.direct pong), [], 0, 0⟩ (crowd m 0 calls) =
      { crowd m 0 calls with
        objects := pongs (m + k)
        client := { (crowd m 0 calls).client with parsedGroups := List.range' m k } } := by
    rw [output_eq, show (crowd m 0 calls).objects = pongs m from rfl,
      show (crowd m 0 calls).self = 0 from rfl, buildAll_pongs, List.length_replicate]
    show Session.mk _ _ _ _ _ (calls ++ []) _ _ = _
    rw [List.append_nil]
    rfl
  have hdirect : ∀ g ∈ List.range' m k, (pongs (m + k)).groups g = ⟨0, .direct pong, [], pong, 0, false⟩ := by
    intro g hg
    obtain ⟨i, hi, rfl⟩ := List.mem_range'.mp hg
    exact if_pos (show m + 1 * i < m + k by omega)
  have hfilter : (List.range' m k).filter (fun g => ((pongs (m + k)).groups g).kind.waitRemote) = [] :=
    List.filter_eq_nil_iff.mpr fun g hg => by rw [hdirect g hg]; nofun
  have hselects : (List.range' m k).flatMap (pongs (m + k)).selects = [] :=
    List.flatMap_eq_nil_iff.mpr fun g hg => by rw [Objects.selects, hdirect g hg]; rfl
  have htaken : Session.taken { crowd m 0 calls with
      objects := pongs (m + k)
      client := { (crowd m 0 calls).client with parsedGroups := List.range' m k } } = crowd m k calls := by
    have hlen : (List.range' m k).length ≤ maxPipe := by
      rw [List.length_range']
      exact hle
    simp only [Session.taken, List.take_of_length_le hlen, hfilter, hselects, crowd, List.append_nil,
      List.drop_of_length_le hlen]
    rfl
  rw [readRequest_split none rfl (pings_bytes hk) (Or.inl rfl) (split_pings k)]
  show (Session.process none (Session.output _ (crowd m 0 calls))) = _
  rw [hout, process_short none rfl, htaken]
  · rfl
  · intro g hg
    rw [Objects.short, hdirect g (List.mem_of_mem_take hg)]
    rfl

theorem next_pings (m : ℕ) {k : ℕ} (hk : 0 < k) (hle : k ≤ maxPipe) (calls : List ClientCall) :
    ∃ call, (crowd m 0 calls).next plainEnv (.onEvents (some (pings k)) none) =
      (crowd m k calls).pushAwaitingsToReady.call call := by
  have hclosed : (crowd m k calls).pushAwaitingsToReady.client.closed = false := by
    by_cases hheld : (crowd m k calls).Held
    · rw [pushAwaitingsToReady_of_held hheld]
      rfl
    · rw [pushAwaitingsToReady_client hheld]
      rfl
  simp only [next, Session.onEvents, Session.handle, Session.readEvent, Option.getD_none,
    Option.isSome_none, Bool.false_eq_true, if_false]
  rw [show ({ crowd m 0 calls with script := [] } : Session) = crowd m 0 calls from rfl,
    read_pings m hk hle, andThen_none rfl]
  dsimp only
  rw [if_neg (by rw [hclosed]; exact Bool.false_ne_true), andThen_none rfl]
  exact ⟨_, rfl⟩

/-- There is room for more replies. -/
theorem next_pings_ready (m : ℕ) {k : ℕ} (hk : 0 < k) (hle : k ≤ maxPipe) (hroom : m + k ≤ maxResponses)
    (calls : List ClientCall) :
    ∃ calls', (crowd m 0 calls).next plainEnv (.onEvents (some (pings k)) none) = crowd (m + k) 0 calls' := by
  obtain ⟨call, heq⟩ := next_pings m hk hle calls
  obtain ⟨hobjects, hrefs⟩ := appendBuffersTo_pongs (m + k) (List.range' m k) fun g hg => by
    obtain ⟨i, hi, rfl⟩ := List.mem_range'.mp hg
    omega
  have hheld : ¬ (crowd m k calls).Held := by
    rintro (h0 | ⟨-, hlt⟩)
    · exact h0 rfl
    · have hlen : (List.range' m k).length + (List.range m).length = k + m := by simp
      exact absurd (hlen ▸ hlt) (by omega)
  have hrange : List.range m ++ List.range' m k = List.range (m + k) := by
    rw [List.range_eq_range', List.range_eq_range']
    simpa using @List.range'_append 0 m k 1
  have hmoved : ({ (crowd m k calls).appendAll (List.range' m k) with
      client := { ((crowd m k calls).appendAll (List.range' m k)).client with awaitingGroups := [] } } : Session) =
      crowd (m + k) 0 calls := by
    rw [appendAll_eq]
    show Session.mk 0 ⟨false, [], [], [], List.range m ++ List.range' m k, 0, [],
      ⟨(List.range m).map .payload ++ (List.range' m k).flatMap (pongs (m + k)).refs, 0⟩⟩
      ((pongs (m + k)).appendBuffersTo (List.range' m k)) [] [] calls 0 0 = _
    rw [hobjects, hrefs, ← List.map_append, hrange]
    rfl
  unfold Held at hheld
  rw [heq, pushAwaitingsToReady, if_neg hheld]
  dsimp only
  rw [show (crowd m k calls).client.awaitingGroups = List.range' m k from rfl]
  split
  · rw [hmoved]
    exact ⟨_, rfl⟩
  · rw [hmoved]
    exact ⟨_, rfl⟩

/-- Too many replies are under way. -/
theorem next_pings_held {m k : ℕ} (hk : 0 < k) (hle : k ≤ maxPipe) (hm : 0 < m) (hfull : maxResponses < k + m)
    (calls : List ClientCall) :
    ∃ calls', (crowd m 0 calls).next plainEnv (.onEvents (some (pings k)) none) = crowd m k calls' := by
  obtain ⟨call, heq⟩ := next_pings m hk hle calls
  have hheld : (crowd m k calls).Held := by
    refine Or.inr ⟨?_, ?_⟩
    · show List.range m ≠ []
      rw [ne_eq, List.range_eq_nil]
      omega
    · show maxResponses < (List.range' m k).length + (List.range m).length
      simpa using hfull
  rw [heq, pushAwaitingsToReady_of_held hheld]
  exact ⟨_, rfl⟩

theorem reachable_crowd : ∀ j ≤ 4, ∃ calls,
    (List.replicate j (.onEvents (some (pings maxPipe)) none)).foldl (next plainEnv) (connected 0 .empty) =
      crowd (j * maxPipe) 0 calls ∧
    Reachable plainEnv (connected 0 .empty) (crowd (j * maxPipe) 0 calls)
  | 0, _ => ⟨[], by rw [Nat.zero_mul]; exact ⟨rfl, .refl⟩⟩
  | j + 1, hj => by
      obtain ⟨calls, heq, hreach⟩ := reachable_crowd j (by omega)
      have hpos : 0 < maxPipe := by decide
      have hroom : j * maxPipe + maxPipe ≤ maxResponses := by
        rw [maxPipe, maxResponses]
        omega
      obtain ⟨calls', hnext⟩ := next_pings_ready (j * maxPipe) hpos le_rfl hroom calls
      refine ⟨calls', ?_, ?_⟩
      · rw [List.replicate_succ', List.foldl_append, heq, Nat.succ_mul]
        exact hnext
      · rw [Nat.succ_mul, ← hnext]
        exact .step hreach (enabled_pings _ hpos calls)

/-- The first call of `writev` stops, and the second one writes the rest. -/
theorem next_race {m k : ℕ} (hm : 0 < m) (hfull : maxResponses < k + m) (hk : 0 < k)
    (calls : List ClientCall) (script : List WriteAnswer) {r r' : Flushed BufRef}
    (hr : BufferSet.writev (pongs (m + k)).content script ⟨(List.range m).map .payload, 0⟩ = r)
    (hblocked : r.ended = .blocked)
    (hr' : BufferSet.writev (pongs (m + k)).content r.script r.set = r') (hall : r'.ended = .all) :
    ((crowd m k calls).next plainEnv (.onEvents none (some script))).client =
      { (crowd m k calls).client with outputBufferSet := r'.set, readyGroups := [] } := by
  let s : Session := { crowd m k calls with script := script }
  have hheld : (s.wrote r).Held := by
    refine Or.inr ⟨?_, ?_⟩
    · show List.range m ≠ []
      rw [ne_eq, List.range_eq_nil]
      omega
    · show maxResponses < (List.range' m k).length + (List.range m).length
      simpa using hfull
  have hempty : ¬ s.client.outputBufferSet.empty = true := by
    show ¬ ((List.range m).map BufRef.payload).isEmpty = true
    rw [List.isEmpty_iff, List.map_eq_nil_iff, List.range_eq_nil]
    omega
  have hawaiting : ¬ ((s.wrote r).client.awaitingGroups.isEmpty = true ∨ (s.wrote r).client.awaitingCount ≠ 0) := by
    rintro (h | h)
    · have hlen := congrArg List.length (List.isEmpty_iff.mp h)
      rw [show (s.wrote r).client.awaitingGroups = List.range' m k from rfl, List.length_range'] at hlen
      exact absurd hlen (Nat.ne_of_gt hk)
    · exact h rfl
  have hfirst : s.sendBufferSet none = (s.wrote r, none) := (sendBufferSet_open none rfl hr).2.1 hblocked
  have hsecond : (s.wrote r).sendBufferSet none = (((s.wrote r).wrote r').cleared, none) := by
    rw [(sendBufferSet_open none rfl hr').2.2 hall, allSent_eq, if_pos]
    rw [cleared_client]
    rfl
  have hwrite : s.writeResponse none = (((s.wrote r).wrote r').cleared, none) := by
    rw [Session.writeResponse, if_neg hempty, hfirst, andThen_none rfl, if_neg hawaiting,
      pushAwaitingsToReady_of_held hheld, hsecond]
  have hhandle : s.handle plainEnv none none true =
      (((s.wrote r).wrote r').cleared.call
        (if ((s.wrote r).wrote r').cleared.client.outputBufferSet.empty then .pollRo else .pollRw), none) := by
    rw [Session.handle, Session.readEvent, andThen_none rfl]
    show (if s.client.closed = true then _ else _) = _
    rw [if_neg (show ¬ s.client.closed = true from nofun), if_pos rfl, hwrite, andThen_none rfl]
  have hnext : (crowd m k calls).next plainEnv (.onEvents none (some script)) =
      (s.handle plainEnv none none true).1 := by
    show (Session.onEvents plainEnv none false none true s).1 = _
    rw [Session.onEvents, if_neg Bool.false_ne_true, hhandle]
  rw [hnext, hhandle]
  show ((s.wrote r).wrote r').cleared.client = _
  rw [cleared_client]
  rfl

/-- Five reads of sixty-four requests; then the socket takes nine bytes, has no room, and takes
the rest at the next try. -/
def race : List Event :=
  List.replicate 5 (.onEvents (some (pings maxPipe)) none) ++
    [.onEvents none (some [.took 9, .again, .took 100000])]

def stranded : Session := race.foldl (next plainEnv) (connected 0 .empty)

def firstWrite : Flushed BufRef :=
  BufferSet.writev (pongs (4 * maxPipe + maxPipe)).content [.took 9, .again, .took 100000]
    ⟨(List.range (4 * maxPipe)).map .payload, 0⟩

def secondWrite : Flushed BufRef :=
  firstWrite.set.writev (pongs (4 * maxPipe + maxPipe)).content firstWrite.script

theorem race_writes : firstWrite.ended = .blocked ∧ secondWrite.ended = .all ∧
    secondWrite.set.bufArr = [] := by
  decide +kernel

/-- Sixty-four groups are complete, nothing is under way, and nothing will wake the client. -/
theorem stranded_after_race :
    Reachable plainEnv (connected 0 .empty) stranded ∧ stranded.client.closed = false ∧
    stranded.client.awaitingGroups = List.range' 256 64 ∧ stranded.client.awaitingCount = 0 ∧
    stranded.client.outputBufferSet.bufArr = [] ∧ stranded.client.parsedGroups = [] := by
  obtain ⟨calls, heq, hreach⟩ := reachable_crowd 4 le_rfl
  have hpos : 0 < maxPipe := by decide
  obtain ⟨calls', hheld⟩ := next_pings_held (m := 4 * maxPipe) hpos le_rfl (by decide) (by decide) calls
  have hcrowd : Reachable plainEnv (connected 0 .empty) (crowd (4 * maxPipe) maxPipe calls') := by
    rw [← hheld]
    exact .step hreach (enabled_pings _ hpos calls)
  have hstranded : stranded = (crowd (4 * maxPipe) maxPipe calls').next plainEnv
      (.onEvents none (some [.took 9, .again, .took 100000])) := by
    rw [stranded, race, List.foldl_append, List.replicate_succ', List.foldl_append, heq]
    simp only [List.foldl_cons, List.foldl_nil, hheld]
  have hreach' : Reachable plainEnv (connected 0 .empty) stranded := by
    rw [hstranded]
    refine .step hcrowd ⟨nofun, ?_⟩
    rintro script ⟨rfl⟩
    simp [Quiet]
  obtain ⟨hblocked, hall, hnil⟩ := race_writes
  have hfirst : BufferSet.writev (pongs (4 * maxPipe + maxPipe)).content [.took 9, .again, .took 100000]
      ⟨(List.range (4 * maxPipe)).map .payload, 0⟩ = firstWrite := rfl
  have hsecond : firstWrite.set.writev (pongs (4 * maxPipe + maxPipe)).content firstWrite.script =
      secondWrite := rfl
  have hclient := next_race (by decide) (by decide) hpos calls' _ hfirst hblocked hsecond hall
  refine ⟨hreach', ?_⟩
  rw [hstranded, hclient]
  dsimp only
  refine ⟨rfl, ?_, rfl, hnil, rfl⟩
  show List.range' (4 * maxPipe) maxPipe = List.range' 256 64
  decide +kernel

end Session

end Cerberus
