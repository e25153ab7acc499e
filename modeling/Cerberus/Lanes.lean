import Cerberus.Ledger

/-! # The requests of one client among others

The groups and commands of all clients are numbered together.  The requests of one of them
(`Objects.requestsOf`) move through its queues in the order in which they were parsed, and the bytes
its socket has taken, with those in its output set, are the replies to the first of them (`Lane`).
A call of `on_events` keeps this for every read and every answer of the socket, unless the socket
has an error, and then the client is closed; what has been taken is the beginning of these replies
even so (`Session.Streams.onEvents`). -/

namespace Cerberus

namespace Objects

/-! ### The requests of a client -/

/-- The groups of the requests of a client, in order. -/
def requestsOf (c : ClientId) (o : Objects) : List GroupId :=
  (List.range o.groupCount).filter fun g => (o.groups g).client = c

variable {c c' : ClientId} {o o' : Objects} {g : GroupId}

theorem mem_requestsOf : g ∈ o.requestsOf c ↔ g < o.groupCount ∧ (o.groups g).client = c := by
  simp [requestsOf]

theorem requestsOf_nodup (c : ClientId) (o : Objects) : (o.requestsOf c).Nodup := List.nodup_range.filter _

theorem Alike.requestsOf (h : Alike o o') : o'.requestsOf c = o.requestsOf c := by
  rw [Objects.requestsOf, Objects.requestsOf, h.groupCount]
  exact List.filter_congr fun g _ => by rw [h.client g]

theorem requestsOf_build (kind : CommandGroup) :
    (o.build c kind).requestsOf c = o.requestsOf c ++ [o.groupCount] := by
  have hnew : ((o.build c kind).groups o.groupCount).client = c := by
    show (Function.update o.groups o.groupCount _ o.groupCount).client = c
    rw [Function.update_self]
  rw [requestsOf, show (o.build c kind).groupCount = o.groupCount + 1 from rfl, List.range_succ, List.filter_append,
    List.filter_singleton, decide_eq_true hnew]
  refine congrArg (· ++ _) (List.filter_congr fun g hg => ?_)
  rw [show (o.build c kind).groups g = o.groups g from
    Function.update_of_ne (Nat.ne_of_lt (List.mem_range.mp hg)) ..]

/-- Requests of one client have been parsed: they are behind those that were there, and the others
have the same as before. -/
theorem Grows.requestsOf (h : Grows c' o o') (c : ClientId) :
    o.requestsOf c <+: o'.requestsOf c ∧ (c ≠ c' → o'.requestsOf c = o.requestsOf c) := by
  have hsplit : o'.requestsOf c = o.requestsOf c ++
      (List.range' o.groupCount (o'.groupCount - o.groupCount)).filter fun g => (o'.groups g).client = c := by
    have hrange : List.range o'.groupCount =
        List.range o.groupCount ++ List.range' o.groupCount (o'.groupCount - o.groupCount) := by
      have happ := List.range'_append_1 (s := 0) (m := o.groupCount) (n := o'.groupCount - o.groupCount)
      rw [Nat.zero_add, Nat.add_sub_cancel' h.groupCount] at happ
      rw [List.range_eq_range', List.range_eq_range', happ]
    rw [Objects.requestsOf, hrange, List.filter_append]
    refine congrArg (· ++ _) (List.filter_congr fun g hg => ?_)
    rw [h.client g (List.mem_range.mp hg)]
  refine ⟨⟨_, hsplit.symm⟩, fun hne => ?_⟩
  rw [hsplit, List.filter_eq_nil_iff.mpr, List.append_nil]
  intro g hg
  obtain ⟨hle, hlt⟩ := List.mem_range'_1.mp hg
  simpa [h.newGroups g (by omega) hle] using hne.symm

/-! ### Bytes that have been sent -/

/-- The request has its reply, and does not convert the client. -/
def Done (o : Objects) (g : GroupId) : Prop := o.short g = true ∧ ¬o.Pending g

/-- The bytes are the beginning of the replies to the first requests of a client, which all have
them. -/
def Sent (c : ClientId) (o : Objects) (b : Bytes) : Prop :=
  ∃ gs, gs <+: o.requestsOf c ∧ (∀ g ∈ gs, o.Done g) ∧ b <+: (gs.map o.reply).flatten

theorem sent_nil (c : ClientId) (o : Objects) : Sent c o [] := ⟨[], List.nil_prefix, nofun, List.nil_prefix⟩

theorem SameOn.done (h : SameOn o o' g) (hg : o.Done g) : o'.Done g :=
  ⟨h.short.trans hg.1, fun hp => hg.2 (h.pending.mp hp)⟩

/-- Requests that have their replies keep them. -/
structure Keeps (c : ClientId) (o o' : Objects) : Prop where
  requests : o.requestsOf c <+: o'.requestsOf c
  done : ∀ g ∈ o.requestsOf c, o.Done g → o'.Done g ∧ o'.reply g = o.reply g

theorem Sent.keeps {b : Bytes} (h : Sent c o b) (hk : Keeps c o o') : Sent c o' b := by
  obtain ⟨gs, hgs, hdone, hb⟩ := h
  refine ⟨gs, hgs.trans hk.requests, fun g hg => (hk.done g (hgs.subset hg) (hdone g hg)).1, ?_⟩
  rw [List.map_congr_left fun g hg => (hk.done g (hgs.subset hg) (hdone g hg)).2]
  exact hb

theorem Grows.keeps (h : Grows c' o o') (hb : o.Built) (c : ClientId) : Keeps c o o' := by
  refine ⟨(h.requestsOf c).1, fun g hg hdone => ?_⟩
  have hlt := (mem_requestsOf.mp hg).1
  have hcmds : ∀ k ∈ (o.groups g).commands, o'.cmds k = o.cmds k := fun k hk => h.cmds k (hb.group_of_mem hlt hk).2
  refine ⟨⟨?_, fun hp => hdone.2 ((h.agrees hb hlt).pending.mp hp)⟩, ?_⟩
  · rw [short, h.kind g hlt]
    exact hdone.1
  · simp only [reply, h.kind g hlt, h.commands g hlt, buffers_congr hcmds, countOnes_congr hcmds]

/-- The groups that have their replies are the same. -/
theorem keeps_of_same (hreq : o'.requestsOf c = o.requestsOf c)
    (hsame : ∀ g ∈ o.requestsOf c, o.Done g → SameOn o o' g) : Keeps c o o' :=
  ⟨hreq.symm ▸ List.prefix_rfl, fun g hg hdone => ⟨(hsame g hg hdone).done hdone, (hsame g hg hdone).reply⟩⟩

/-! ### Groups that are appended -/

/-- The groups that are not appended are the same. -/
theorem appendBuffersTo_same : ∀ (gs : List GroupId) {o : Objects}, g ∉ gs → SameOn o (o.appendBuffersTo gs) g
  | [], o, _ => .refl o g
  | g' :: gs, o, h => by
      rw [List.mem_cons, not_or] at h
      exact (appendBufferTo_same h.1).trans (appendBuffersTo_same gs h.2)

theorem Alike.appendBuffersTo : ∀ (gs : List GroupId) (o : Objects), Alike o (o.appendBuffersTo gs)
  | [], o => .refl o
  | g :: gs, o => (Alike.appendBufferTo g o).trans (Alike.appendBuffersTo gs _)

theorem appendBuffersTo_reply : ∀ (gs : List GroupId) (o : Objects), (o.appendBuffersTo gs).reply = o.reply
  | [], _ => rfl
  | g :: gs, o => by
      refine (appendBuffersTo_reply gs (o.appendBufferTo g).1).trans ?_
      funext g'
      exact appendBufferTo_reply g g' o

theorem appendBuffersTo_pending : ∀ (gs : List GroupId) {o : Objects}, (o.appendBuffersTo gs).Pending g ↔ o.Pending g
  | [], _ => Iff.rfl
  | g' :: gs, o => (appendBuffersTo_pending gs).trans (appendBufferTo_pending g' g o)

/-- What is appended for groups that wait for nothing are their replies. -/
theorem appendBuffersTo_content : ∀ (gs : List GroupId) {o : Objects}, gs.Nodup →
    (∀ g ∈ gs, o.GroupOk g ∧ ¬o.Pending g) →
    ((gs.flatMap o.refs).map (o.appendBuffersTo gs).content).flatten = (gs.map o.reply).flatten
  | [], _, _, _ => rfl
  | g :: gs, o, hnd, h => by
      obtain ⟨hg, hnd⟩ := List.nodup_cons.mp hnd
      obtain ⟨hok, hdone⟩ := h g List.mem_cons_self
      have ih := appendBuffersTo_content gs (o := (o.appendBufferTo g).1) hnd fun g' hg' =>
        ⟨(h g' (List.mem_cons_of_mem _ hg')).1.appendBufferTo, fun hp =>
          (h g' (List.mem_cons_of_mem _ hg')).2 ((appendBufferTo_pending g g' o).mp hp)⟩
      have hrefs : (o.appendBufferTo g).1.refs = o.refs := funext fun g' => appendBufferTo_refs g g' o
      have hreply : (o.appendBufferTo g).1.reply = o.reply := funext fun g' => appendBufferTo_reply g g' o
      rw [hrefs, hreply] at ih
      have hfirst : ((o.refs g).map (o.appendBuffersTo (g :: gs)).content).flatten = o.reply g := by
        rw [← hok.appended hdone]
        refine congrArg List.flatten (List.map_congr_left fun r hr => ?_)
        exact (appendBuffersTo_same gs hg).content (hrefs ▸ hr)
      rw [List.flatMap_cons, List.map_append, List.flatten_append, List.map_cons, List.flatten_cons, hfirst]
      exact congrArg _ ih

end Objects

/-! ### The queues and the output of a client -/

/-- The replies to the requests that were `flushed` and to those that are ready: the socket has
taken the bytes of `wire`, and the others are in the output set. -/
structure Flow (o : Objects) (x : Client) (wire : Bytes) (flushed : List GroupId) : Prop where
  done : ∀ g ∈ flushed ++ x.readyGroups, o.Done g
  refs : x.outputBufferSet.bufArr <:+ x.readyGroups.flatMap o.refs
  offset : x.outputBufferSet.OffsetOk o.content
  bytes : wire ++ x.outputBufferSet.pending o.content = ((flushed ++ x.readyGroups).map o.reply).flatten

/-- The requests of a client are in its queues, in order. -/
structure Lane (c : ClientId) (o : Objects) (x : Client) (wire : Bytes) (flushed : List GroupId) : Prop
    extends Flow o x wire flushed where
  short : ∀ g ∈ x.awaitingGroups, o.short g = true
  order : flushed ++ x.readyGroups ++ x.awaitingGroups ++ x.parsedGroups = o.requestsOf c

section

variable {c : ClientId} {o o' : Objects} {x x' : Client} {wire : Bytes} {flushed : List GroupId}

/-- The groups whose replies are on their way are the same. -/
theorem Flow.objects (h : Flow o x wire flushed) (hsame : ∀ g ∈ flushed ++ x.readyGroups, Objects.SameOn o o' g) :
    Flow o' x wire flushed := by
  have hcontent : ∀ r ∈ x.outputBufferSet.bufArr, o'.content r = o.content r := by
    intro r hr
    obtain ⟨g, hg, hrg⟩ := List.mem_flatMap.mp (h.refs.subset hr)
    exact (hsame g (List.mem_append_right _ hg)).content hrg
  refine ⟨fun g hg => (hsame g hg).done (h.done g hg), ?_, h.offset.congr hcontent, ?_⟩
  · rw [List.flatMap_congr fun g hg => (hsame g (List.mem_append_right _ hg)).refs]
    exact h.refs
  · rw [BufferSet.pending_congr hcontent, h.bytes, List.map_congr_left fun g hg => (hsame g hg).reply]

theorem Flow.client (h : Flow o x wire flushed) (hr : x'.readyGroups = x.readyGroups)
    (hb : x'.outputBufferSet = x.outputBufferSet) : Flow o x' wire flushed := by
  refine ⟨?_, ?_, ?_, ?_⟩
  · rw [hr]
    exact h.done
  · rw [hr, hb]
    exact h.refs
  · rw [hb]
    exact h.offset
  · rw [hr, hb]
    exact h.bytes

theorem Lane.client (h : Lane c o x wire flushed) (hr : x'.readyGroups = x.readyGroups)
    (ha : x'.awaitingGroups = x.awaitingGroups) (hp : x'.parsedGroups = x.parsedGroups)
    (hb : x'.outputBufferSet = x.outputBufferSet) : Lane c o x' wire flushed := by
  refine ⟨h.toFlow.client hr hb, ?_, ?_⟩
  · rw [ha]
    exact h.short
  · rw [hr, ha, hp]
    exact h.order

theorem Lane.objects (h : Lane c o x wire flushed) (hreq : o'.requestsOf c = o.requestsOf c)
    (hshort : ∀ g ∈ x.awaitingGroups, o'.short g = o.short g)
    (hsame : ∀ g ∈ flushed ++ x.readyGroups, Objects.SameOn o o' g) : Lane c o' x wire flushed :=
  ⟨h.toFlow.objects hsame, fun g hg => (hshort g hg).trans (h.short g hg), h.order.trans hreq.symm⟩

theorem Lane.mine (h : Lane c o x wire flushed) {g : GroupId} (hg : g ∈ flushed ++ x.readyGroups) :
    g < o.groupCount ∧ (o.groups g).client = c := by
  rw [← Objects.mem_requestsOf, ← h.order, List.append_assoc]
  exact List.mem_append_left _ hg

/-- A group is sent before it is done, or after. -/
theorem Lane.not_awaiting (h : Lane c o x wire flushed) {g : GroupId} (hg : g ∈ flushed ++ x.readyGroups) :
    g ∉ x.awaitingGroups := by
  have hnd := o.requestsOf_nodup c
  rw [← h.order] at hnd
  exact fun hmem => (List.nodup_append.mp (List.nodup_append.mp hnd).1).2.2 g hg g hmem rfl

theorem Lane.sent (h : Lane c o x wire flushed) : Objects.Sent c o wire := by
  refine ⟨flushed ++ x.readyGroups, ?_, h.done, ⟨_, h.bytes⟩⟩
  rw [← h.order, List.append_assoc]
  exact List.prefix_append _ _

/-- A client that has just connected, and has no requests yet. -/
theorem lane_new (h : o.requestsOf c = []) : Lane c o .new [] [] :=
  ⟨⟨nofun, List.nil_suffix, rfl, rfl⟩, nofun, h.symm⟩

end

/-! ### A call of a client -/

namespace Session

/-- The client has come from `s₀`; the bytes its socket had taken before are `wire`.  Of the groups
of others nothing has changed. -/
structure Sends (s s₀ : Session) (wire : Bytes) : Prop where
  ledger : s.Ledger s₀
  others : ∀ g < s₀.objects.groupCount, (s₀.objects.groups g).client ≠ s.self →
    Objects.SameOn s₀.objects s.objects g
  sent : Objects.Sent s.self s.objects (wire ++ s.sent)

/-- Nothing has been lost. -/
structure Streams (s s₀ : Session) (wire : Bytes) : Prop extends s.Sends s₀ wire where
  lane : ∃ flushed, Lane s.self s.objects s.client (wire ++ s.sent) flushed

/-- A function that may throw: only an error of the socket breaks the stream. -/
def Outcome (s₀ : Session) (wire : Bytes) (r : Session × Option ConnThrow) : Prop :=
  r.1.Sends s₀ wire ∧ (r.2 = none → r.1.Streams s₀ wire)

variable {s₀ s s' : Session} {wire : Bytes}

theorem Streams.of_lane (flushed : List GroupId) (hledger : s.Ledger s₀) (hothers : ∀ g < s₀.objects.groupCount,
      (s₀.objects.groups g).client ≠ s.self → Objects.SameOn s₀.objects s.objects g)
    (hlane : Lane s.self s.objects s.client (wire ++ s.sent) flushed) : s.Streams s₀ wire :=
  ⟨⟨hledger, hothers, hlane.sent⟩, flushed, hlane⟩

theorem Streams.outcome (h : s.Streams s₀ wire) (e : Option ConnThrow) : Outcome s₀ wire (s, e) :=
  ⟨h.toSends, fun _ => h⟩

theorem Sends.same (h : s.Sends s₀ wire) (hl : s'.Ledger s₀) (hself : s'.self = s.self) (ho : s'.objects = s.objects)
    (hs : s'.sent = s.sent) : s'.Sends s₀ wire := by
  refine ⟨hl, ?_, ?_⟩
  · rw [hself, ho]
    exact h.others
  · rw [hself, ho, hs]
    exact h.sent

theorem Streams.same (h : s.Streams s₀ wire) (hl : s'.Ledger s₀) (hself : s'.self = s.self)
    (ho : s'.objects = s.objects) (hs : s'.sent = s.sent) (hr : s'.client.readyGroups = s.client.readyGroups)
    (ha : s'.client.awaitingGroups = s.client.awaitingGroups) (hp : s'.client.parsedGroups = s.client.parsedGroups)
    (hb : s'.client.outputBufferSet = s.client.outputBufferSet) : s'.Streams s₀ wire := by
  obtain ⟨flushed, hlane⟩ := h.lane
  refine ⟨h.toSends.same hl hself ho hs, flushed, ?_⟩
  rw [hself, ho, hs]
  exact hlane.client hr ha hp hb

theorem Streams.call (h : s.Streams s₀ wire) {a : ClientCall} (ha : ∀ d, Plays [a] d d) :
    (s.call a).Streams s₀ wire :=
  h.same (h.ledger.call ha) rfl rfl rfl rfl rfl rfl rfl

theorem Streams.pushCommand (h : s.Streams s₀ wire) (kind : CommandGroup) : (s.pushCommand kind).Streams s₀ wire := by
  obtain ⟨flushed, hlane⟩ := h.lane
  have hsame : ∀ g < s.objects.groupCount, Objects.SameOn s.objects (s.objects.build s.self kind) g :=
    fun g hg => Objects.build_same _ _ hg (h.ledger.built.ok g hg)
  refine .of_lane flushed (h.ledger.pushCommand kind) (fun g hg hne => ?_) ⟨?_, ?_, ?_⟩
  · exact (h.others g hg hne).trans (hsame g (hg.trans_le h.ledger.grows.groupCount))
  · exact (hlane.toFlow.objects fun g hg => hsame g (hlane.mine hg).1).client rfl rfl
  · exact fun g hg => (hsame g (h.ledger.tidy.awaiting_lt g hg)).short.trans (hlane.short g hg)
  · show flushed ++ s.client.readyGroups ++ s.client.awaitingGroups ++
      (s.client.parsedGroups ++ [s.objects.groupCount]) = (s.objects.build s.self kind).requestsOf s.self
    rw [Objects.requestsOf_build, ← hlane.order, List.append_assoc _ s.client.parsedGroups]

theorem Streams.foldl_pushCommand : ∀ (kinds : List CommandGroup) {s : Session}, s.Streams s₀ wire →
    (kinds.foldl Session.pushCommand s).Streams s₀ wire
  | [], _, h => h
  | kind :: kinds, _, h => Streams.foldl_pushCommand kinds (h.pushCommand kind)

theorem Streams.output (h : s.Streams s₀ wire) (out : Output) : (s.output out).Streams s₀ wire :=
  (Streams.foldl_pushCommand out.groups h).same (h.ledger.output out) rfl rfl rfl rfl rfl rfl rfl

/-! ### Groups that move on -/

/-- `_push_awaitings_to_ready` changes nothing of the groups that are not in `_awaiting_groups`. -/
theorem pushAwaitingsToReady_same {g : GroupId} (hg : g ∉ s.client.awaitingGroups) :
    Objects.SameOn s.objects s.pushAwaitingsToReady.objects g := by
  unfold Session.pushAwaitingsToReady
  split
  · exact .refl _ _
  · have hsame := Objects.appendBuffersTo_same (o := s.objects) s.client.awaitingGroups hg
    rw [appendAll_eq]
    dsimp only
    split
    · exact hsame
    · exact hsame

theorem pushAwaitingsToReady_sent (s : Session) : s.pushAwaitingsToReady.sent = s.sent := by
  unfold Session.pushAwaitingsToReady
  split
  · rfl
  · rw [appendAll_eq]
    dsimp only
    split
    · rfl
    · rfl

theorem pushAwaitingsToReady_objects (h : ¬s.Held) :
    s.pushAwaitingsToReady.objects = s.objects.appendBuffersTo s.client.awaitingGroups := by
  unfold Held at h
  rw [Session.pushAwaitingsToReady, if_neg h, appendAll_eq]
  dsimp only
  split
  · rfl
  · rfl

theorem pushAwaitingsToReady_keeps (s : Session) (c : ClientId) :
    Objects.Keeps c s.objects s.pushAwaitingsToReady.objects := by
  by_cases hheld : s.Held
  · rw [pushAwaitingsToReady_of_held hheld]
    exact ⟨List.prefix_rfl, fun _ _ hdone => ⟨hdone, rfl⟩⟩
  · have halike := Objects.Alike.appendBuffersTo s.client.awaitingGroups s.objects
    rw [pushAwaitingsToReady_objects hheld]
    refine ⟨halike.requestsOf.symm ▸ List.prefix_rfl, fun g _ hdone => ⟨⟨halike.short ▸ hdone.1, ?_⟩, ?_⟩⟩
    · exact fun hp => hdone.2 ((Objects.appendBuffersTo_pending _).mp hp)
    · rw [Objects.appendBuffersTo_reply]

end Session

/-- The replies of the groups that were awaited go to the output set. -/
theorem Lane.pushAwaitingsToReady {s : Session} {c : ClientId} {wire : Bytes} {flushed : List GroupId}
    (h : Lane c s.objects s.client wire flushed) (hb : s.objects.Built) (ht : Session.Tidy c s.objects s.client) :
    Lane c s.pushAwaitingsToReady.objects s.pushAwaitingsToReady.client wire flushed := by
  by_cases hheld : s.Held
  · rw [Session.pushAwaitingsToReady_of_held hheld]
    exact h
  · rw [Session.pushAwaitingsToReady_client hheld, Session.pushAwaitingsToReady_objects hheld]
    have hzero : s.client.awaitingCount = 0 := by
      unfold Session.Held at hheld
      rw [not_or, ne_eq, not_not] at hheld
      exact hheld.1
    have hdone := ht.not_pending hzero
    have halike := Objects.Alike.appendBuffersTo s.client.awaitingGroups s.objects
    have hflow := h.toFlow.objects fun g hg =>
      Objects.appendBuffersTo_same (o := s.objects) s.client.awaitingGroups (h.not_awaiting hg)
    refine ⟨⟨?_, ?_, hflow.offset.append _, ?_⟩, nofun, ?_⟩
    · intro g hg
      rw [← List.append_assoc] at hg
      rcases List.mem_append.mp hg with hg | hg
      · exact hflow.done g hg
      · exact ⟨halike.short ▸ h.short g hg, fun hp => hdone g hg ((Objects.appendBuffersTo_pending _).mp hp)⟩
    · rw [halike.refs]
      obtain ⟨t, ht⟩ := h.refs
      refine ⟨t, ?_⟩
      rw [← List.append_assoc, ht, List.flatMap_append]
    · have hcontent := Objects.appendBuffersTo_content (o := s.objects) s.client.awaitingGroups
        ((List.nodup_append.mp ht.nodup).1) fun g hg => ⟨hb.ok g (ht.awaiting_lt g hg), hdone g hg⟩
      rw [BufferSet.pending_append hflow.offset, ← List.append_assoc, hflow.bytes, hcontent,
        Objects.appendBuffersTo_reply]
      simp only [List.map_append, List.flatten_append, List.append_assoc]
    · rw [halike.requestsOf, ← h.order]
      simp

namespace Session

variable {s₀ s s' : Session} {wire : Bytes}

theorem Streams.pushAwaitingsToReady (h : s.Streams s₀ wire) : s.pushAwaitingsToReady.Streams s₀ wire := by
  obtain ⟨flushed, hlane⟩ := h.lane
  have hself := s.pushAwaitingsToReady_frame.1
  refine .of_lane flushed h.ledger.pushAwaitingsToReady (fun g hg hne => ?_) ?_
  · rw [hself] at hne
    refine (h.others g hg hne).trans (pushAwaitingsToReady_same fun hmem => hne ?_)
    rw [← h.ledger.grows.client g hg]
    exact (h.ledger.tidy.mine g (List.mem_append_left _ hmem)).2
  · rw [hself, pushAwaitingsToReady_sent]
    exact hlane.pushAwaitingsToReady h.ledger.built h.ledger.tidy

/-- `_process` takes some of the parsed groups. -/
theorem Streams.moveOn (h : s.Streams s₀ wire) {gs rest : List GroupId} (hp : s.client.parsedGroups = gs ++ rest)
    (hshort : ∀ g ∈ gs, s.objects.short g = true) :
    Streams { s with
      client := { s.client with
        parsedGroups := rest
        awaitingCount := s.client.awaitingCount +
          (gs.filter fun g => (s.objects.groups g).kind.waitRemote).length
        awaitingGroups := s.client.awaitingGroups ++ gs }
      calls := s.calls ++ gs.flatMap s.objects.selects } s₀ wire := by
  obtain ⟨flushed, hlane⟩ := h.lane
  refine .of_lane flushed (h.ledger.moveOn hp) h.others
    ⟨hlane.toFlow.client rfl rfl, List.forall_mem_append.mpr ⟨hlane.short, hshort⟩, ?_⟩
  show flushed ++ s.client.readyGroups ++ (s.client.awaitingGroups ++ gs) ++ rest = s.objects.requestsOf s.self
  rw [← hlane.order, hp]
  simp only [List.append_assoc]

theorem Streams.process (delivery : Option ConnThrow) (h : s.Streams s₀ wire) :
    (s.process delivery).1.Streams s₀ wire := by
  have hledger := h.ledger.process delivery
  cases hclosed : s.client.closed with
  | true =>
      rw [Session.process, if_pos hclosed]
      exact h
  | false =>
      cases hg : s.converts with
      | some g =>
          have hconv := h.moveOn (converts_split hg) fun g hg => (mem_batch hg).2
          rw [process_converts delivery hclosed hg] at hledger ⊢
          dsimp only at hledger ⊢
          split
          · rename_i hnone
            rw [if_pos hnone] at hledger
            exact hconv.same hledger rfl rfl rfl rfl rfl rfl rfl
          · rename_i hsome
            rw [if_neg hsome] at hledger
            exact hconv.same hledger rfl rfl rfl rfl rfl rfl rfl
      | none =>
          have hmoved := h.moveOn (List.take_append_drop maxPipe _).symm
            (List.dropWhile_eq_nil_iff.mp (List.head?_eq_none_iff.mp hg))
          have htaken : s.taken.Streams s₀ wire :=
            hmoved.same (hmoved.ledger.same rfl rfl rfl rfl rfl rfl rfl) rfl rfl rfl rfl rfl rfl rfl
          rw [process_takes delivery hclosed hg]
          split
          · exact htaken.call fun _ => rfl
          · exact htaken.pushAwaitingsToReady

/-! ### Writing -/

/-- Everything has been written: the replies of the groups that were ready are on the wire. -/
theorem Streams.cleared (h : s.Streams s₀ wire) (hset : s.client.outputBufferSet = ⟨[], 0⟩) :
    s.cleared.Streams s₀ wire := by
  obtain ⟨flushed, hlane⟩ := h.lane
  have hledger := h.ledger.cleared
  have hself : s.cleared.self = s.self ∧ s.cleared.sent = s.sent := by
    unfold Session.cleared
    dsimp only
    split
    · exact ⟨rfl, rfl⟩
    · exact ⟨rfl, rfl⟩
  refine .of_lane (flushed ++ s.client.readyGroups) hledger ?_ ?_
  · rw [hself.1, cleared_objects]
    exact h.others
  · rw [hself.1, hself.2, cleared_objects, cleared_client]
    refine ⟨⟨?_, ?_, hlane.offset, ?_⟩, hlane.short, ?_⟩
    · rw [List.append_nil]
      exact hlane.done
    · rw [hset]
      exact List.nil_suffix
    · rw [List.append_nil]
      exact hlane.bytes
    · rw [List.append_nil]
      exact hlane.order

theorem Streams.allSent (delivery : Option ConnThrow) (h : s.Streams s₀ wire)
    (hset : s.client.outputBufferSet = ⟨[], 0⟩) : (s.allSent delivery).1.Streams s₀ wire := by
  rw [allSent_eq]
  split
  · exact h.cleared hset
  · exact (h.cleared hset).process delivery

/-- After an error of the socket only what it has taken is known. -/
theorem Streams.wrote (h : s.Streams s₀ wire) {script : List WriteAnswer} {r : Flushed BufRef}
    (hr : s.client.outputBufferSet.writev s.objects.content script = r) :
    (s.wrote r).Sends s₀ wire ∧ ((∀ e, r.ended ≠ .threw e) → (s.wrote r).Streams s₀ wire) := by
  obtain ⟨flushed, hlane⟩ := h.lane
  have hfl := hr ▸ BufferSet.writev_flushes script hlane.offset
  have hledger : (s.wrote r).Ledger s₀ := h.ledger.same rfl rfl rfl rfl rfl rfl rfl
  refine ⟨⟨hledger, h.others, flushed ++ s.client.readyGroups, ?_, hlane.done, ?_⟩, fun hthrow => ?_⟩
  · show _ <+: s.objects.requestsOf s.self
    rw [← hlane.order, List.append_assoc]
    exact List.prefix_append _ _
  · show wire ++ (s.sent ++ r.taken) <+: ((flushed ++ s.client.readyGroups).map s.objects.reply).flatten
    rw [← hlane.bytes, ← List.append_assoc]
    exact (List.prefix_append_right_inj _).mpr hfl.sent
  · refine .of_lane flushed hledger h.others 
      ⟨⟨hlane.done, hfl.suffix.trans hlane.refs, hfl.offset hthrow, ?_⟩, hlane.short, hlane.order⟩
    show wire ++ (s.sent ++ r.taken) ++ r.set.pending s.objects.content = _
    rw [← List.append_assoc wire, List.append_assoc _ r.taken, hfl.bytes hthrow]
    exact hlane.bytes

theorem Streams.sendBufferSet (delivery : Option ConnThrow) (h : s.Streams s₀ wire) :
    Outcome s₀ wire (s.sendBufferSet delivery) := by
  have htouch : (if s.client.closed ∧ ¬ s.client.outputBufferSet.empty then s.call .badDescriptor else s).Streams s₀ wire ∧
      (if s.client.closed ∧ ¬ s.client.outputBufferSet.empty then s.call .badDescriptor else s).client = s.client ∧
      (if s.client.closed ∧ ¬ s.client.outputBufferSet.empty then s.call .badDescriptor else s).objects = s.objects := by
    split
    · exact ⟨h.call fun _ => rfl, rfl, rfl⟩
    · exact ⟨h, rfl, rfl⟩
  unfold Session.sendBufferSet
  dsimp only
  generalize (if s.client.closed ∧ ¬ s.client.outputBufferSet.empty then s.call .badDescriptor else s) = t at *
  obtain ⟨ht, hclient, hobjects⟩ := htouch
  rw [← hclient, ← hobjects]
  generalize hr : t.client.outputBufferSet.writev t.objects.content _ = r
  obtain ⟨hsends, hstreams⟩ := ht.wrote hr
  cases hend : r.ended with
  | threw e => exact ⟨hsends, nofun⟩
  | blocked => exact (hstreams fun e he => by rw [hend] at he; cases he).outcome none
  | all =>
      have hwrote := hstreams fun e he => by rw [hend] at he; cases he
      obtain ⟨flushed, hlane⟩ := ht.lane
      have hfl := hr ▸ BufferSet.writev_flushes _ hlane.offset
      have hset : r.set = ⟨[], 0⟩ := by
        have harr := hfl.all hend
        have hoff := hfl.offset fun e he => by rw [hend] at he; cases he
        rw [BufferSet.OffsetOk, harr] at hoff
        rw [← harr, ← hoff]
      have hall := hwrote.allSent delivery hset
      exact ⟨hall.toSends, fun _ => hall⟩

theorem Outcome.andThen {r : Session × Option ConnThrow} {f : Session → Session × Option ConnThrow}
    (h : Outcome s₀ wire r) (hf : ∀ s : Session, s.Streams s₀ wire → Outcome s₀ wire (f s)) :
    Outcome s₀ wire (Session.andThen r f) := by
  unfold Session.andThen
  split
  · rename_i hnone
    exact hf _ (h.2 hnone)
  · exact h

theorem Streams.writeResponse (delivery : Option ConnThrow) (h : s.Streams s₀ wire) :
    Outcome s₀ wire (s.writeResponse delivery) := by
  refine Outcome.andThen ?_ fun t ht => ?_
  · split
    · exact h.outcome none
    · exact h.sendBufferSet delivery
  · split
    · exact ht.outcome none
    · exact ht.pushAwaitingsToReady.sendBufferSet delivery

/-! ### Events -/

theorem Streams.readRequest (env : Env) (delivery : Option ConnThrow) (inp : Input) (h : s.Streams s₀ wire) :
    (s.readRequest env delivery inp).1.Streams s₀ wire := by
  have hbuffer : ∀ buf b, Streams { s with client := { s.client with buffer := buf, closed := b } } s₀ wire :=
    fun buf b => h.same (h.ledger.same rfl rfl rfl rfl rfl rfl rfl) rfl rfl rfl rfl rfl rfl rfl
  unfold Session.readRequest
  split
  · exact h.call fun _ => rfl
  · split
    · exact hbuffer _ _
    · split
      · exact hbuffer _ _
      · split
        · exact (hbuffer _ _).output _
        · rename_i rest out _
          have hout := (hbuffer rest s.client.closed).output out
          dsimp only
          split
          · exact hout.process delivery
          · exact hout

theorem Streams.handle (env : Env) (delivery : Option ConnThrow) (read : Option Input) (write : Bool)
    (h : s.Streams s₀ wire) : Outcome s₀ wire (s.handle env delivery read write) := by
  refine Outcome.andThen ?_ fun t ht => ?_
  · cases read with
    | none => exact h.outcome none
    | some inp => exact (h.readRequest env delivery inp).outcome _
  · split
    · exact ht.outcome none
    · refine Outcome.andThen ?_ fun u hu => ?_
      · split
        · exact ht.writeResponse delivery
        · exact ht.outcome none
      · split
        · exact (hu.call (a := .pollRo) fun _ => rfl).outcome none
        · exact (hu.call (a := .pollRw) fun _ => rfl).outcome none

/-- What a call of `on_events` does to the stream.  If the socket has an error, the client is closed
or the call throws. -/
theorem Streams.onEvents (env : Env) (delivery : Option ConnThrow) (hup : Bool) (read : Option Input)
    (write : Bool) (h : s.Streams s₀ wire) :
    (s.onEvents env delivery hup read write).1.Sends s₀ wire ∧
      ((s.onEvents env delivery hup read write).2 = none →
        (s.onEvents env delivery hup read write).1.client.closed = false →
        (s.onEvents env delivery hup read write).1.Streams s₀ wire) := by
  have hhandle := h.handle env delivery read write
  unfold Session.onEvents
  split
  · exact ⟨h.toSends.same h.ledger.close rfl rfl rfl, nofun⟩
  · dsimp only
    split
    · exact ⟨hhandle.1.same hhandle.1.ledger.close rfl rfl rfl, nofun⟩
    · exact ⟨hhandle.1.same hhandle.1.ledger.close rfl rfl rfl, nofun⟩
    · exact ⟨hhandle.1, fun hnone _ => hhandle.2 hnone⟩

/-- Nothing is written for a client that is closed. -/
theorem onEvents_of_closed (env : Env) (delivery : Option ConnThrow) (hup : Bool) (read : Option Input)
    (write : Bool) (hclosed : s.client.closed = true) :
    (s.onEvents env delivery hup read write).1.objects = s.objects ∧
      (s.onEvents env delivery hup read write).1.sent = s.sent ∧
      (s.onEvents env delivery hup read write).1.client.closed = true := by
  unfold Session.onEvents
  split
  · exact ⟨rfl, rfl, rfl⟩
  · cases read with
    | some inp =>
        have hrequest : s.readRequest env delivery inp = (s.call .badDescriptor, some .fatal) := by
          rw [Session.readRequest, if_pos hclosed]
        have hread : s.handle env delivery (some inp) write = (s.call .badDescriptor, some .fatal) := by
          unfold Session.handle Session.readEvent
          dsimp only
          rw [hrequest]
          rfl
        rw [hread]
        exact ⟨rfl, rfl, hclosed⟩
    | none =>
        have hread : s.handle env delivery none write = (s, none) := by
          unfold Session.handle Session.readEvent Session.andThen
          dsimp only
          rw [if_pos hclosed]
        rw [hread]
        exact ⟨rfl, rfl, hclosed⟩

end Session

end Cerberus
