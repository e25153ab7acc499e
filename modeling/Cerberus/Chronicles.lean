import Cerberus.Deliveries
import Cerberus.Origins

/-! # The proxy has a history

Every state the proxy can reach has a history: a client that reads requests builds groups and
appends them to its output, a command that is put into the queue of a backend is sent, one that
leaves it comes back or is answered.  So what is known of all histories holds of the proxy
(`World.Reached.history`). -/

namespace Cerberus

/-! ### What a client does to the objects -/

namespace Session

section

variable {I : Objects → Prop} {self : ClientId} {env : Env}
  (hbuild : ∀ {o}, I o → ∀ kind, Issued env kind → I (o.build self kind))
  (happend : ∀ {o}, I o → ∀ g, I (o.appendBufferTo g).1) {s : Session}

include happend

theorem objects_appendAll : ∀ (gs : List GroupId) {s : Session}, I s.objects → I (s.appendAll gs).objects
  | [], _, h => h
  | g :: gs, _, h => objects_appendAll gs (happend h g)

theorem objects_pushAwaitingsToReady (h : I s.objects) : I s.pushAwaitingsToReady.objects := by
  have hall := objects_appendAll happend s.client.awaitingGroups h
  unfold pushAwaitingsToReady
  split
  · exact h
  · dsimp only
    split
    · exact hall
    · exact hall

omit happend in
theorem takeGroups_objects : ∀ (gs : List GroupId) (s : Session), (s.takeGroups gs).1.objects = s.objects
  | [], _ => rfl
  | g :: gs, s => by
      unfold takeGroups
      dsimp only
      split
      · rfl
      · split
        · exact takeGroups_objects gs _
        · exact takeGroups_objects gs _

theorem objects_process (delivery : Option ConnThrow) (h : I s.objects) : I (s.process delivery).1.objects := by
  have htake := takeGroups_objects (s.client.parsedGroups.take maxPipe) s
  unfold process
  split
  · exact h
  · split
    · rename_i s' g heq
      rw [heq] at htake
      rw [← htake] at h
      dsimp only
      split
      · exact h
      · exact h
    · rename_i s' heq
      rw [heq] at htake
      rw [← htake] at h
      dsimp only
      split
      · exact h
      · apply objects_pushAwaitingsToReady happend
        exact h

theorem objects_allSent (delivery : Option ConnThrow) (h : I s.objects) : I (s.allSent delivery).1.objects := by
  have hcleared : I s.cleared.objects := by
    rw [cleared_objects]
    exact h
  rw [allSent_eq]
  split
  · exact hcleared
  · exact objects_process happend delivery hcleared

theorem objects_sendBufferSet (delivery : Option ConnThrow) (h : I s.objects) :
    I (s.sendBufferSet delivery).1.objects := by
  have hfirst : I (if s.client.closed = true ∧ ¬s.client.outputBufferSet.empty = true then s.call .badDescriptor
      else s).objects := by
    split
    · exact h
    · exact h
  unfold sendBufferSet
  dsimp only
  generalize s.client.outputBufferSet.writev s.objects.content _ = r
  generalize (if s.client.closed = true ∧ ¬s.client.outputBufferSet.empty = true then s.call .badDescriptor
    else s) = t at hfirst
  split
  · exact hfirst
  · exact hfirst
  · apply objects_allSent happend
    exact hfirst

omit happend in
theorem objects_andThen {r : Session × Option ConnThrow} {f : Session → Session × Option ConnThrow}
    (hr : I r.1.objects) (hf : ∀ s, I s.objects → I (f s).1.objects) : I (andThen r f).1.objects := by
  unfold andThen
  split
  · exact hf _ hr
  · exact hr

theorem objects_writeResponse (delivery : Option ConnThrow) (h : I s.objects) :
    I (s.writeResponse delivery).1.objects := by
  refine objects_andThen ?_ fun t ht => ?_
  · split
    · exact h
    · exact objects_sendBufferSet happend delivery h
  · split
    · exact ht
    · exact objects_sendBufferSet happend delivery (objects_pushAwaitingsToReady happend ht)

include hbuild

omit happend in
theorem objects_output (out : Output) (hout : ∀ kind ∈ out.groups, Issued env kind) (hself : s.self = self)
    (h : I s.objects) : I (s.output out).objects := by
  have hpush : ∀ (kinds : List CommandGroup) {s : Session}, (∀ kind ∈ kinds, Issued env kind) → s.self = self →
      I s.objects → I (kinds.foldl pushCommand s).objects := by
    intro kinds
    induction kinds with
    | nil => exact fun _ _ h => h
    | cons kind kinds ih =>
        intro s hkinds hself h
        refine ih (s := s.pushCommand kind) (fun kind' hk => hkinds kind' (List.mem_cons_of_mem _ hk)) hself ?_
        show I (s.objects.build s.self kind)
        rw [hself]
        exact hbuild h kind (hkinds kind List.mem_cons_self)
  exact hpush out.groups hout hself h

theorem objects_readRequest (delivery : Option ConnThrow) (inp : Input) (hself : s.self = self)
    (h : I s.objects) : I (s.readRequest env delivery inp).1.objects := by
  unfold readRequest
  split
  · exact h
  · split
    · exact h
    · split
      · exact h
      · rename_i buf _ _
        have hissued : ∀ kind ∈ (splitClientCommand env buf inp.guard ⟨[], [], s.statsCalls, s.randCalls⟩).output.groups,
            Issued env kind := fun kind hk => ⟨buf, inp.guard, _, _, hk⟩
        split
        · rename_i heq
          rw [heq] at hissued
          exact objects_output hbuild _ hissued hself h
        · rename_i rest out heq
          rw [heq] at hissued
          have hout : I (({ s with client := { s.client with buffer := rest } } : Session).output out).objects :=
            objects_output hbuild out hissued hself h
          dsimp only
          split
          · exact objects_process happend delivery hout
          · exact hout

/-- In a call of `on_events` groups are built and appended. -/
theorem objects_onEvents (delivery : Option ConnThrow) (hup : Bool) (read : Option Input)
    (write : Bool) (hself : s.self = self) (h : I s.objects) :
    I (s.onEvents env delivery hup read write).1.objects := by
  have hhandle : I (s.handle env delivery read write).1.objects := by
    refine objects_andThen ?_ fun t ht => ?_
    · cases read with
      | none => exact h
      | some inp => exact objects_readRequest hbuild happend delivery inp hself h
    · split
      · exact ht
      · refine objects_andThen ?_ fun u hu => hu
        split
        · exact objects_writeResponse happend delivery ht
        · exact ht
  unfold onEvents
  split
  · exact h
  · dsimp only
    split
    · exact hhandle
    · exact hhandle
    · exact hhandle

end

end Session

/-! ### A history of the commands in the queues -/

namespace Traffic

variable {x : Traffic} {hand : List CmdId} {k : CmdId} {b : Bool} {h : History} {env : Env}
  {P : Bytes → Bool → Prop}

/-- A command in the hand is nowhere else. -/
theorem Inv.hand_once (hi : x.Inv (k :: hand)) : k ∉ hand ∧ ∀ s, (x.servers s).copies k = 0 := by
  have hocc := hi.occurs k
  rw [List.count_cons_self] at hocc
  have hle : (if x.Outstanding k then 1 else 0) ≤ 1 := by split <;> omega
  refine ⟨fun hmem => ?_, fun s => ?_⟩
  · have := List.count_pos_iff.mpr hmem
    omega
  · by_contra hne
    have := hi.occurrences_of_copies (Nat.pos_of_ne_zero hne)
    omega

/-- A command to be retried is with no backend. -/
theorem Inv.copies_of_retrying (hi : x.Inv hand) (hk : k ∈ x.retryingCommands) (s : ServerId) :
    (x.servers s).copies k = 0 := by
  by_contra hne
  have hlt : s < x.routes.registry.allocated := by
    by_contra hs
    exact hne (hi.spare s (Nat.le_of_not_lt hs) k)
  have hle := copies_le_occurrences (k := k) hlt
  have hocc := hi.occurs k
  have hcount := List.count_pos_iff.mpr hk
  have hone : (if x.Outstanding k then 1 else 0) ≤ 1 := by split <;> omega
  omega

theorem Inv.open_of_outstanding (hi : x.Inv hand) (ho : h.objects = x.objects) (hk : x.Outstanding k) :
    h.Open k ∧ x.owner k ∈ x.liveClients := by
  obtain ⟨hlive, hdue⟩ := hi.outstanding_owner hk
  obtain ⟨-, hlt, -, hresp⟩ := hi.of_due hlive hdue
  rw [History.Open, ho]
  exact ⟨⟨hlt, hresp⟩, hlive⟩

/-- The history has the objects of the proxy; the commands in the hand have all been with a backend
or none of them, and of the others those are with a backend that are in its queues. -/
structure Tells (env : Env) (P : Bytes → Bool → Prop) (h : History) (b : Bool) (hand : List CmdId) (x : Traffic) : Prop where
  lived : h.Lived env P
  objects : h.objects = x.objects
  held : ∀ k ∈ hand, h.out k = b
  queued : ∀ k < x.objects.cmdCount, x.owner k ∈ x.liveClients → k ∉ hand →
    (h.out k = true ↔ ∃ s, 0 < (x.servers s).copies k)

/-- The invariant of the queues, with a history. -/
def Told (env : Env) (P : Bytes → Bool → Prop) (b : Bool) (hand : List CmdId) (x : Traffic) : Prop :=
  x.Inv hand ∧ ∃ h, Tells env P h b hand x

/-- The objects of a history in which the given commands are with a backend. -/
def Possible (env : Env) (P : Bytes → Bool → Prop) (out : CmdId → Bool) (o : Objects) : Prop :=
  ∃ h : History, h.Lived env P ∧ h.objects = o ∧ h.out = out

theorem Possible.build {out : CmdId → Bool} {o : Objects} (h : Possible env P out o) (c : ClientId) (kind : CommandGroup)
    (hkind : Issued env kind) : Possible env P out (o.build c kind) := by
  obtain ⟨h, hl, rfl, hout⟩ := h
  exact ⟨h.act (.build c kind), hl.step ⟨trivial, hkind⟩, rfl, hout⟩

theorem Possible.append {out : CmdId → Bool} {o : Objects} (h : Possible env P out o) (g : GroupId) :
    Possible env P out (o.appendBufferTo g).1 := by
  obtain ⟨h, hl, rfl, hout⟩ := h
  exact ⟨h.act (.append g), hl.step ⟨trivial, trivial⟩, rfl, hout⟩

/-- A command that is with no backend is given to `select_server_for`. -/
theorem tells_selectServer (hl : h.Lived env P) (ho : h.objects = x.objects) (hopen : h.Open k) (hk : h.out k = false)
    (hhand : ∀ j ∈ hand, h.out j = b) (hnot : k ∉ hand) (hnone : ∀ s, (x.servers s).copies k = 0)
    (hqueued : ∀ j < x.objects.cmdCount, x.owner j ∈ x.liveClients → j ∉ k :: hand →
      (h.out j = true ↔ ∃ s, 0 < (x.servers s).copies j)) :
    ∃ h', Tells env P h' b hand (x.selectServer k).1 := by
  have howner : ∀ j, (x.markSelected k).owner j = x.owner j := owner_setCmd rfl
  have hsel : (h.select k).objects = (x.markSelected k).objects := by
    unfold History.select
    rw [ho]
    rfl
  unfold selectServer
  split
  · -- no backend has the slot
    refine ⟨h.act (.mark k), hl.step ⟨⟨hopen, hk⟩, trivial⟩, hsel, hhand, fun j hj hlive hmem => ?_⟩
    by_cases heq : j = k
    · rw [heq]
      refine iff_of_false (by rw [show (h.act (.mark k)).out k = h.out k from rfl, hk]; exact Bool.false_ne_true) ?_
      rintro ⟨s, hs⟩
      exact absurd (hnone s) (Nat.pos_iff_ne_zero.mp hs)
    · refine hqueued j hj (howner j ▸ hlive) fun hcons => ?_
      exact (List.mem_cons.mp hcons).elim heq hmem
  · rename_i s _
    refine ⟨h.act (.send k), hl.step ⟨⟨hopen, hk⟩, trivial⟩, hsel, fun j hj => ?_, fun j hj hlive hmem => ?_⟩
    · have hne : j ≠ k := fun heq => hnot (heq ▸ hj)
      exact (Function.update_of_ne hne ..).trans (hhand j hj)
    · have hcopies : ∀ t, (((x.markSelected k).pushClientCommand s k).servers t).copies j =
          (x.servers t).copies j + if t = s then [k].count j else 0 := by
        intro t
        show (Function.update x.servers s ((x.servers s).pushClientCommand k) t).copies j = _
        by_cases heq : t = s
        · rw [if_pos heq, heq, Function.update_self, Server.copies_pushClientCommand]
        · rw [if_neg heq, Function.update_of_ne heq, Nat.add_zero]
      show Function.update h.out k true j = true ↔ ∃ t, 0 < (((x.markSelected k).pushClientCommand s k).servers t).copies j
      simp only [hcopies]
      by_cases heq : j = k
      · rw [heq, Function.update_self]
        refine iff_of_true rfl ⟨s, ?_⟩
        rw [if_pos rfl, List.count_singleton_self]
        omega
      · have hcount : [k].count j = 0 := List.count_eq_zero.mpr fun hj => heq (List.mem_singleton.mp hj)
        simp only [Function.update_of_ne heq, hcount, ite_self, Nat.add_zero]
        refine hqueued j hj (howner j ▸ hlive) fun hcons => ?_
        exact (List.mem_cons.mp hcons).elim heq hmem

/-- Commands that come back. -/
theorem retry_all : ∀ (ks : List CmdId) {h : History}, h.Lived env P → ks.Nodup → (∀ k ∈ ks, h.out k = true) →
    ∃ h' : History, h'.Lived env P ∧ h'.objects = h.objects ∧ ∀ j, h'.out j = if j ∈ ks then false else h.out j
  | [], h, hl, _, _ => ⟨h, hl, rfl, fun j => (if_neg List.not_mem_nil).symm⟩
  | k :: ks, h, hl, hnd, hout => by
      obtain ⟨hk, hnd⟩ := List.nodup_cons.mp hnd
      have hstep : (h.act (.retry k)).Lived env P := hl.step ⟨hout k List.mem_cons_self, trivial⟩
      obtain ⟨h', hl', ho', hout'⟩ := retry_all ks hstep hnd fun j hj => by
        have hne : j ≠ k := fun heq => hk (heq ▸ hj)
        exact (Function.update_of_ne hne ..).trans (hout j (List.mem_cons_of_mem _ hj))
      refine ⟨h', hl', ho', fun j => ?_⟩
      rw [hout' j]
      show (if j ∈ ks then false else Function.update h.out k false j) = _
      by_cases heq : j = k
      · rw [heq, Function.update_self, ite_self, if_pos List.mem_cons_self]
      · rw [Function.update_of_ne heq]
        simp only [List.mem_cons, heq, false_or]

/-- What the response to a command does, from a backend or from the proxy. -/
theorem Tells.answer (ht : Tells env P h b (k :: hand) x) (hi : x.Inv (k :: hand)) {rsp : Bytes} {error : Bool}
    (hrsp : b = false → rsp = World.clusterDownRsp ∧ error = true) (hP : b = true → P rsp error) :
    (h.answer k rsp error).Lived env P := by
  obtain ⟨hopen, -⟩ := hi.open_of_outstanding ht.objects (hi.outstanding_of_hand List.mem_cons_self)
  have hk := ht.held k List.mem_cons_self
  cases b with
  | false =>
      obtain ⟨rfl, rfl⟩ := hrsp rfl
      have hdue : h.Due (.clusterDown k) := ⟨hopen, hk⟩
      exact ht.lived.step ⟨hdue, trivial⟩
  | true =>
      have hdue : h.Due (.respond k rsp error) := ⟨hopen, hk⟩
      exact ht.lived.step ⟨hdue, hP rfl⟩

theorem Tells.last (ht : Tells env P h b (k :: hand) x) (hi : x.Inv (k :: hand)) {rsp : Bytes} {error : Bool}
    (hrsp : b = false → rsp = World.clusterDownRsp ∧ error = true) (hP : b = true → P rsp error)
    (hlast : ((x.objects.cmds k).onRemoteResponsed rsp error).2 = true) :
    ∃ h', Tells env P h' b hand { x.store ((x.session (x.owner k) []).onRemoteResponsed k rsp error) with
      responsed := x.responsed ++ [k] } := by
  obtain ⟨hnot, hnone⟩ := hi.hand_once
  obtain ⟨hlive, hdue⟩ := hi.outstanding_owner (hi.outstanding_of_hand List.mem_cons_self)
  have hans := Session.answered_onRemoteResponsed (s := x.session (x.owner k) []) rfl hi.built (hi.tidy _ hlive) hdue hlast
  have hlived := ht.answer hi hrsp hP
  rw [History.answer_last (by rw [ht.objects]; exact hlast), ht.objects] at hlived
  obtain ⟨h', hl, ho, hout⟩ : Possible env P (Function.update h.out k false)
      ((x.session (x.owner k) []).onRemoteResponsed k rsp error).objects := by
    have hfirst : Possible env P (Function.update h.out k false)
      (x.objects.respond k ((x.objects.cmds k).onRemoteResponsed rsp error).1).1 := ⟨_, hlived, rfl, rfl⟩
    unfold Session.onRemoteResponsed
    dsimp only
    rw [if_pos (show ((((x.session (x.owner k) []).objects.cmds k).onRemoteResponsed rsp error).2 = true) from hlast)]
    split
    · exact Session.objects_pushAwaitingsToReady Possible.append hfirst
    · exact hfirst
  refine ⟨h', hl, ho, fun j hj => ?_, fun j hj hjlive hmem => ?_⟩
  · have hne : j ≠ k := fun heq => hnot (heq ▸ hj)
    rw [hout, Function.update_of_ne hne]
    exact ht.held j (List.mem_cons_of_mem _ hj)
  · rw [hout]
    by_cases heq : j = k
    · rw [heq, Function.update_self]
      refine iff_of_false Bool.false_ne_true ?_
      rintro ⟨s, hs⟩
      exact absurd (hnone s) (Nat.pos_iff_ne_zero.mp hs)
    · have hlt : j < x.objects.cmdCount := hans.cmdCount ▸ hj
      rw [Function.update_of_ne heq]
      refine ht.queued j hlt ?_ fun hcons => (List.mem_cons.mp hcons).elim heq hmem
      rw [← hi.owner_answered hans hlt]
      exact hjlive

theorem Tells.again (ht : Tells env P h b (k :: hand) x) (hi : x.Inv (k :: hand)) {rsp : Bytes} {error : Bool}
    (hrsp : b = false → rsp = World.clusterDownRsp ∧ error = true) (hP : b = true → P rsp error)
    (hagain : ((x.objects.cmds k).onRemoteResponsed rsp error).2 = false) :
    ∃ h', Tells env P h' b hand (Traffic.selectServer k { x with
      objects := x.objects.setCmd k ((x.objects.cmds k).onRemoteResponsed rsp error).1 }).1 := by
  obtain ⟨hnot, hnone⟩ := hi.hand_once
  obtain ⟨⟨hlt, hwait⟩, -⟩ := hi.open_of_outstanding ht.objects (hi.outstanding_of_hand List.mem_cons_self)
  rw [ht.objects] at hlt hwait
  obtain ⟨hg, -, hresp⟩ := (x.objects.cmds k).onRemoteResponsed_same rsp error
  have hlived := ht.answer hi hrsp hP
  rw [History.answer_again (by rw [ht.objects]; exact hagain), ht.objects] at hlived
  refine tells_selectServer hlived rfl ⟨hlt, ?_⟩ ?_ (fun j hj => ?_) hnot hnone fun j hj hjlive hmem => ?_
  · show ((x.objects.setCmd k _).cmds k).responsed = false
    rw [Objects.setCmd_self, hresp]
    exact hwait
  · exact Function.update_self ..
  · have hne : j ≠ k := fun heq => hnot (heq ▸ hj)
    exact (Function.update_of_ne hne ..).trans (ht.held j (List.mem_cons_of_mem _ hj))
  · have hne : j ≠ k := fun heq => hmem (heq ▸ List.mem_cons_self)
    show Function.update h.out k false j = true ↔ _
    rw [Function.update_of_ne hne]
    exact ht.queued j hj (owner_setCmd hg j ▸ hjlive) hmem

theorem Tells.retryLater (ht : Tells env P h true (k :: hand) x) (hi : x.Inv (k :: hand)) :
    ∃ h', Tells env P h' true hand (x.retryLater k) := by
  obtain ⟨hnot, hnone⟩ := hi.hand_once
  refine ⟨h.act (.retry k), ht.lived.step ⟨ht.held k List.mem_cons_self, trivial⟩, ht.objects, fun j hj => ?_,
    fun j hj hjlive hmem => ?_⟩
  · have hne : j ≠ k := fun heq => hnot (heq ▸ hj)
    exact (Function.update_of_ne hne ..).trans (ht.held j (List.mem_cons_of_mem _ hj))
  · show Function.update h.out k false j = true ↔ _
    by_cases heq : j = k
    · rw [heq, Function.update_self]
      refine iff_of_false Bool.false_ne_true ?_
      rintro ⟨s, hs⟩
      exact absurd (hnone s) (Nat.pos_iff_ne_zero.mp hs)
    · rw [Function.update_of_ne heq]
      exact ht.queued j hj hjlive fun hcons => (List.mem_cons.mp hcons).elim heq hmem

theorem Tells.takeRetrying (ht : Tells env P h b [] x) (hi : x.Inv []) :
    Tells env P h false x.retryingCommands { x with retryingCommands := [] } where
  lived := ht.lived
  objects := ht.objects
  held k hk := by
    have hout := hi.outstanding (k := k) (Nat.add_pos_right _ (hi.occurrences_of_queued (Or.inl hk)))
    obtain ⟨hopen, hlive⟩ := hi.open_of_outstanding ht.objects hout
    rw [← Bool.not_eq_true, ht.queued k (ht.objects ▸ hopen.1) hlive List.not_mem_nil]
    rintro ⟨s, hs⟩
    exact absurd (hi.copies_of_retrying hk s) (Nat.pos_iff_ne_zero.mp hs)
  queued k hk hlive _ := ht.queued k hk hlive List.not_mem_nil

theorem Tells.store (ht : Tells env P h b [] x) (hi : x.Inv []) {c : ClientId} (hc : c ∈ x.liveClients)
    (script : List WriteAnswer) (delivery : Option ConnThrow) (hup : Bool) (read : Option Input) (write : Bool) :
    ∃ h', Tells env P h' false (Session.selected ((x.session c script).onEvents env delivery hup read write).1.calls)
      (x.store ((x.session c script).onEvents env delivery hup read write).1) := by
  have hledger := (hi.ledger hc script).onEvents env delivery hup read write
  have hinv := hi.store hc hledger
  obtain ⟨h', hl, ho, hout⟩ := Session.objects_onEvents (I := Possible env P h.out) (fun ho => ho.build c)
    Possible.append (s := x.session c script) delivery hup read write rfl ⟨h, ht.lived, ht.objects, rfl⟩
  generalize ((x.session c script).onEvents env delivery hup read write).1 = t at *
  have hself : t.self = c := hledger.self
  have hgrows : Objects.Grows c x.objects t.objects := hself ▸ hledger.grows
  -- a command that is new is with no backend
  have hnew : ∀ k, x.objects.cmdCount ≤ k → h'.out k = false ∧ ¬ ∃ s, 0 < (x.servers s).copies k := by
    intro k hk
    refine ⟨?_, ?_⟩
    · rw [hout]
      exact (ht.lived.reached.inv.spare k (ht.objects ▸ hk)).1
    · rintro ⟨s, hs⟩
      obtain ⟨hopen, -⟩ := hi.open_of_outstanding ht.objects (hi.outstanding_of_copies hs)
      exact Nat.not_lt.mpr hk (ht.objects ▸ hopen.1)
  have hqueued : ∀ k, (x.store t).owner k ∈ x.liveClients → (h'.out k = true ↔ ∃ s, 0 < (x.servers s).copies k) := by
    intro k hlive
    rcases Nat.lt_or_ge k x.objects.cmdCount with hlt | hle
    · rw [hi.owner_store hgrows hlt] at hlive
      rw [hout]
      exact ht.queued k hlt hlive List.not_mem_nil
    · obtain ⟨hfalse, hnone⟩ := hnew k hle
      rw [hfalse]
      exact iff_of_false Bool.false_ne_true hnone
  refine ⟨h', hl, ho, fun k hk => ?_, fun k _ hlive _ => hqueued k hlive⟩
  have hlive := (hinv.outstanding_owner (hinv.outstanding_of_hand hk)).1
  rw [← Bool.not_eq_true, hqueued k hlive]
  rintro ⟨s, hs⟩
  have hocc := hinv.occurs k
  have hcount := List.count_pos_iff.mpr hk
  have hpos : 0 < (x.store t).occurrences k := hinv.occurrences_of_copies (s := s) hs
  have hone : (if (x.store t).Outstanding k then 1 else 0) ≤ 1 := by split <;> omega
  omega

theorem Tells.recvFrom (ht : Tells env P h b [] x) (hi : x.Inv []) {s : ServerId} (inp : Input) :
    Tells env P h true ((x.servers s).recvFrom inp).2.commands (x.setServer s ((x.servers s).recvFrom inp).1) := by
  have hcopies := (x.servers s).copies_recvFrom inp
  refine ⟨ht.lived, ht.objects, fun k hk => ?_, fun k hk hlive hmem => ?_⟩
  · have hpos : 0 < (x.servers s).copies k := by
      have := hcopies k
      have := List.count_pos_iff.mpr hk
      omega
    obtain ⟨hopen, hlive⟩ := hi.open_of_outstanding ht.objects (hi.outstanding_of_copies hpos)
    exact (ht.queued k (ht.objects ▸ hopen.1) hlive List.not_mem_nil).mpr ⟨s, hpos⟩
  · have hsame : ∀ t, ((x.setServer s ((x.servers s).recvFrom inp).1).servers t).copies k = (x.servers t).copies k := by
      intro t
      show (Function.update x.servers s _ t).copies k = _
      by_cases heq : t = s
      · rw [heq, Function.update_self]
        have := hcopies k
        rw [List.count_eq_zero.mpr hmem] at this
        omega
      · rw [Function.update_of_ne heq]
    simp only [hsame]
    exact ht.queued k hk hlive List.not_mem_nil

theorem Tells.sameCopies (ht : Tells env P h b hand x) {s : ServerId} {v : Server}
    (hv : ∀ k, v.copies k = (x.servers s).copies k) : Tells env P h b hand (x.setServer s v) := by
  have hsame : ∀ t k, ((x.setServer s v).servers t).copies k = (x.servers t).copies k := by
    intro t k
    show (Function.update x.servers s v t).copies k = _
    by_cases heq : t = s
    · rw [heq, Function.update_self, hv k]
    · rw [Function.update_of_ne heq]
  refine ⟨ht.lived, ht.objects, ht.held, fun k hk hlive hmem => ?_⟩
  simp only [hsame]
  exact ht.queued k hk hlive hmem

theorem Tells.serverClosed (ht : Tells env P h b [] x) (hi : x.Inv []) {s : ServerId}
    (hs : s < x.routes.registry.allocated) : ∃ h', Tells env P h' b [] (x.serverClosed s) := by
  have hclosed := hi.serverClosed hs
  have hone : ∀ k, (x.servers s).copies k ≤ 1 := by
    intro k
    have hocc := hi.occurs k
    have hle := copies_le_occurrences (k := k) hs
    have hle' : (if x.Outstanding k then 1 else 0) ≤ 1 := by split <;> omega
    omega
  have hmem : ∀ k, k ∈ (x.servers s).retried ↔ 0 < (x.servers s).copies k := by
    intro k
    rw [← Server.count_retried, List.count_pos_iff]
  obtain ⟨h', hl, ho, hout⟩ := retry_all (x.servers s).retried ht.lived
    (List.nodup_iff_count_le_one.mpr fun k => Server.count_retried.trans_le (hone k)) fun k hk => by
      have hpos := (hmem k).mp hk
      obtain ⟨hopen, hlive⟩ := hi.open_of_outstanding ht.objects (hi.outstanding_of_copies hpos)
      exact (ht.queued k (ht.objects ▸ hopen.1) hlive List.not_mem_nil).mpr ⟨s, hpos⟩
  refine ⟨h', hl, ho.trans ht.objects, nofun, fun k hk hlive _ => ?_⟩
  rw [hout k]
  split
  · rename_i hk
    refine iff_of_false Bool.false_ne_true ?_
    rintro ⟨t, hpos⟩
    refine absurd (hclosed.copies_of_retrying ?_ t) (Nat.pos_iff_ne_zero.mp hpos)
    exact List.mem_append_right _ hk
  · rename_i hk'
    rw [ht.queued k hk hlive List.not_mem_nil]
    have hsame : ∀ t, ((x.serverClosed s).servers t).copies k = (x.servers t).copies k := by
      intro t
      show (Function.update x.servers s (x.servers s).closeConn t).copies k = _
      by_cases heq : t = s
      · rw [heq, Function.update_self, Server.copies_closeConn]
        have := mt (hmem k).mpr hk'
        omega
      · rw [Function.update_of_ne heq]
    simp only [hsame]

theorem Tells.newClient (ht : Tells env P h b [] x) (hi : x.Inv []) : Tells env P h b [] x.newClient := by
  refine ⟨ht.lived, ht.objects, nofun, fun k hk hlive hmem => ht.queued k hk ?_ hmem⟩
  have hlt : x.owner k < x.clientCount := hi.owners _ (hi.built.home k hk).1
  rcases List.mem_append.mp hlive with hl | hl
  · exact hl
  · exact absurd (List.mem_singleton.mp hl) hlt.ne

theorem Tells.destroyClient (ht : Tells env P h b [] x) (hi : x.Inv []) (c : ClientId) : Tells env P h b [] (x.destroyClient c) := by
  refine ⟨ht.lived, ht.objects, nofun, fun k hk hlive hmem => ?_⟩
  obtain ⟨hne, hlive⟩ := hi.nodup.mem_erase_iff.mp hlive
  rw [ht.queued k hk hlive hmem]
  simp only [hi.copies_destroyClient, show (x.owner k = c) = False from eq_false hne, if_false]

theorem rules_told (env : Env) (P : Bytes → Bool → Prop) : Rules env P (Told env P) where
  inv h := h.1
  idle h _ := ⟨h.1, h.2.imp fun _ ht => ⟨ht.lived, ht.objects, nofun, ht.queued⟩⟩
  last := by
    rintro b hand x k rsp error ⟨hi, h, ht⟩ hrsp hP hlast
    exact ⟨(rules_inv env P).last hi hrsp hP hlast, ht.last hi hrsp hP hlast⟩
  again := by
    rintro b hand x k rsp error ⟨hi, h, ht⟩ hrsp hP hagain
    exact ⟨(rules_inv env P).again hi hrsp hP hagain, ht.again hi hrsp hP hagain⟩
  retryLater := by
    rintro hand x k ⟨hi, h, ht⟩
    exact ⟨hi.retryLater, ht.retryLater hi⟩
  takeRetrying := by
    rintro b x ⟨hi, h, ht⟩
    exact ⟨hi.takeRetrying, h, ht.takeRetrying hi⟩
  selectServer := by
    rintro hand x k ⟨hi, h, ht⟩
    obtain ⟨hnot, hnone⟩ := hi.hand_once
    obtain ⟨hopen, -⟩ := hi.open_of_outstanding ht.objects (hi.outstanding_of_hand List.mem_cons_self)
    exact ⟨hi.selectServer, tells_selectServer ht.lived ht.objects hopen (ht.held k List.mem_cons_self)
      (fun j hj => ht.held j (List.mem_cons_of_mem _ hj)) hnot hnone ht.queued⟩
  clearPeers := by
    rintro hand x c ⟨hi, h, ht⟩ hdue
    exact ⟨hi.clearPeers hdue, h, ht.lived, ht.objects, ht.held, ht.queued⟩
  store := by
    rintro b x c ⟨hi, h, ht⟩ hc script delivery hup read write
    exact ⟨(rules_inv env P).store (b := b) hi hc script delivery hup read write,
      ht.store hi hc script delivery hup read write⟩
  recvFrom := by
    rintro b x s ⟨hi, h, ht⟩ hs inp
    exact ⟨(rules_inv env P).recvFrom (b := b) hi hs inp, h, ht.recvFrom hi inp⟩
  sameCopies := by
    rintro b x s v ⟨hi, h, ht⟩ hv
    exact ⟨hi.setServer_same hv, h, ht.sameCopies hv⟩
  serverClosed := by
    rintro b x s ⟨hi, h, ht⟩ hs
    exact ⟨hi.serverClosed hs, ht.serverClosed hi hs⟩
  setRoutes := by
    rintro b x y cs ⟨hi, h, ht⟩ hy
    exact ⟨hi.setRoutes hy, h, ht.lived, ht.objects, ht.held, ht.queued⟩
  newClient := by
    rintro b x ⟨hi, h, ht⟩
    exact ⟨hi.newClient, h, ht.newClient hi⟩
  destroyClient := by
    rintro b x ⟨hi, h, ht⟩ c
    exact ⟨hi.destroyClient c, h, ht.destroyClient hi c⟩

end Traffic

/-- What becomes of the commands of a proxy is one of the histories of commands; its groups are what
the clients are parsed into, its responses what the backends have been found to send. -/
theorem World.Heard.lived {cfg : Config} {P : Bytes → Bool → Prop} {w : World} (hw : World.Heard cfg P w) :
    ∃ h : History, h.Lived cfg.env P ∧ h.objects = w.objects := by
  obtain ⟨-, h, ht⟩ := hw.kept (Traffic.rules_told cfg.env P).moves
    ⟨Traffic.inv_new, .new, .refl, rfl, nofun, fun k hk => absurd hk (Nat.not_lt_zero k)⟩
  exact ⟨h, ht.lived, ht.objects⟩

theorem World.Reached.history {cfg : Config} {w : World} (hw : World.Reached cfg w) :
    ∃ h : History, h.Reached ∧ h.objects = w.objects := by
  obtain ⟨h, hl, ho⟩ := hw.heard.lived
  exact ⟨h, hl.reached, ho⟩

end Cerberus
