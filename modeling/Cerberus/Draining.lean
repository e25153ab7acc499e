import Cerberus.Retries
import Cerberus.Interest

/-! # A failed update drains everything

When no updater has brought a slot map, `_update_slot_map_failed` closes the servers of all slots,
which hand their commands to `_retrying_commands`, and gives all of these up.  That nothing is missed
needs that a server that is closed has no commands left (`Traffic.Idle`), whatever has happened to it
before; that nothing is answered twice needs that a command is in one queue, once (`Traffic.Inv`). -/

namespace Cerberus

/-! ### Servers that are closed -/

namespace Server

/-- Both queues are empty, of null entries too. -/
def Unqueued (s : Server) : Prop := s.commands = [] ∧ s.sentCommands = []

variable {s : Server}

theorem unqueued_closeConn (s : Server) : s.closeConn.Unqueued := ⟨rfl, rfl⟩

theorem Unqueued.recvFrom (h : s.Unqueued) (inp : Input) : (s.recvFrom inp).1.Unqueued := by
  have hdrop : ∀ n, s.sentCommands.drop n = [] := by
    intro n
    rw [h.2, List.drop_nil]
  unfold Server.recvFrom
  split
  · exact h
  · split
    · exact h
    · split
      · exact h
      · split
        · exact h
        · exact ⟨h.1, hdrop _⟩

theorem Unqueued.pushToBufferSet (h : s.Unqueued) : s.pushToBufferSet.Unqueued := by
  refine ⟨rfl, ?_⟩
  show s.sentCommands ++ s.commands.map some = []
  rw [h.1, h.2]
  rfl

theorem Unqueued.popClient (h : s.Unqueued) (owner : CmdId → ClientId) (c : ClientId) : (s.popClient owner c).Unqueued := by
  unfold Server.popClient
  refine ⟨?_, ?_⟩
  · dsimp only
    rw [h.1]
    rfl
  · dsimp only
    rw [h.2]
    rfl

theorem mem_retried {k : CmdId} : k ∈ s.retried ↔ k ∈ s.commands ∨ some k ∈ s.sentCommands := by
  rw [← copies_pos_iff, ← count_retried, List.count_pos_iff]

end Server

namespace Traffic

/-- The servers that are closed according to `f` have no commands. -/
def Idle (f : ServerId → Bool) (x : Traffic) : Prop := ∀ s, f s = true → (x.servers s).Unqueued

variable {x : Traffic} {f f' : ServerId → Bool} {s : ServerId}

theorem Idle.setServer (h : x.Idle f) {v : Server} (hv : f s = true → (x.servers s).Unqueued → v.Unqueued) :
    (x.setServer s v).Idle f := by
  intro t ht
  show (Function.update x.servers s v t).Unqueued
  by_cases heq : t = s
  · rw [heq] at ht ⊢
    rw [Function.update_self]
    exact hv ht (h s ht)
  · rw [Function.update_of_ne heq]
    exact h t ht

/-- A command is given to servers that are open. -/
theorem Idle.selectServer (h : x.Idle x.routes.registry.closed) (k : CmdId) :
    (x.selectServer k).1.Idle (x.selectServer k).1.routes.registry.closed := by
  rw [(calm_selectServer k x).routes]
  unfold Traffic.selectServer
  split
  · exact h
  · rename_i s hs
    have hopen := Routes.getServerBySlot_open hs
    refine Idle.setServer (x := x.markSelected k) h fun hclosed => ?_
    exact nomatch hopen.symm.trans hclosed

theorem serverCalls_frame (readonly : Bool) : ∀ (cs : List ServerCall) (x : Traffic),
    (cs.foldl (serverCall readonly) x).routes = x.routes ∧ (cs.foldl (serverCall readonly) x).objects = x.objects ∧
    (cs.foldl (serverCall readonly) x).clients = x.clients ∧ (cs.foldl (serverCall readonly) x).responsed = x.responsed
  | [], _ => ⟨rfl, rfl, rfl, rfl⟩
  | .opened _ :: cs, _ => serverCalls_frame readonly cs _
  | .closed _ :: cs, _ => serverCalls_frame readonly cs _

/-- The calls that turn the connections from `f` into `f'`. -/
theorem Idle.serverCalls (readonly : Bool) : ∀ (cs : List ServerCall) {f : ServerId → Bool} {x : Traffic},
    ServerCall.Plays f cs f' → x.Idle f → (cs.foldl (serverCall readonly) x).Idle f'
  | [], _, _, hplays, h => hplays ▸ h
  | .opened s :: cs, f, x, hplays, h => by
      refine Idle.serverCalls readonly cs hplays.2 fun t ht => ?_
      have hne : t ≠ s := by
        rintro rfl
        rw [Function.update_self] at ht
        cases ht
      rw [Function.update_of_ne hne] at ht
      show (Function.update x.servers s _ t).Unqueued
      rw [Function.update_of_ne hne]
      exact h t ht
  | .closed s :: cs, f, x, hplays, h => by
      refine Idle.serverCalls readonly cs hplays fun t ht => ?_
      show (Function.update x.servers s (x.servers s).closeConn t).Unqueued
      by_cases heq : t = s
      · rw [heq, Function.update_self]
        exact Server.unqueued_closeConn _
      · rw [Function.update_of_ne heq] at ht ⊢
        exact h t ht

theorem moves_idle (env : Env) (P : Bytes → Bool → Prop) :
    Moves env P fun _ hand x => x.Inv hand ∧ x.Idle x.routes.registry.closed where
  inv h := h.1
  idle h _ := h
  last h hrsp hP hlast := ⟨(rules_inv env P).last h.1 hrsp hP hlast, h.2⟩
  again {_ _ x k rsp error} h hrsp hP hagain :=
    ⟨(rules_inv env P).again h.1 hrsp hP hagain, Idle.selectServer
      (x := { x with objects := x.objects.setCmd k ((x.objects.cmds k).onRemoteResponsed rsp error).1 }) h.2 k⟩
  retryLater h := ⟨h.1.retryLater, h.2⟩
  takeRetrying h := ⟨h.1.takeRetrying, h.2⟩
  selectServer h := ⟨h.1.selectServer, h.2.selectServer _⟩
  clearPeers h hdue := ⟨h.1.clearPeers hdue, h.2⟩
  store {b _ _} h hc script delivery hup read write :=
    ⟨(rules_inv env P).store (b := b) h.1 hc script delivery hup read write, h.2⟩
  recvFrom {b _ _} h hs inp :=
    ⟨(rules_inv env P).recvFrom (b := b) h.1 hs inp, Idle.setServer h.2 fun _ hv => hv.recvFrom inp⟩
  pushToBufferSet {b _} h s :=
    ⟨(rules_inv env P).moves.pushToBufferSet (b := b) h.1 s, Idle.setServer h.2 fun _ hv => hv.pushToBufferSet⟩
  written {b _} h s o := ⟨(rules_inv env P).moves.written (b := b) h.1 s o, Idle.setServer h.2 fun _ hv => hv⟩
  reroute {b x y cs} h hy readonly := by
    refine ⟨(rules_inv env P).moves.reroute (b := b) h.1 hy readonly, ?_⟩
    rw [(serverCalls_frame readonly cs _).1]
    exact Idle.serverCalls readonly cs hy.plays h.2
  newClient h := ⟨h.1.newClient, h.2⟩
  destroyClient {_ x} h c := by
    refine ⟨h.1.destroyClient c, fun s hs => ?_⟩
    show (if s ∈ (x.clients c).peers then (x.servers s).popClient x.owner c else x.servers s).Unqueued
    split
    · exact (h.2 s hs).popClient _ c
    · exact h.2 s hs

end Traffic

namespace World

variable {cfg : Config} {w : World}

/-- Whatever has happened, a server that is closed has no commands. -/
theorem Reached.idle (h : Reached cfg w) : w.Idle w.routes.registry.closed := by
  refine (h.kept (Traffic.moves_idle cfg.env fun _ _ => True) ⟨Traffic.inv_new, fun s _ => ⟨?_, ?_⟩⟩).2
  · rfl
  · rfl

end World

/-! ### Closing the servers of the slots -/

/-- Calls of `close_conn` for some servers: those that are open are closed, each once. -/
theorem Registry.closeEach : ∀ (l : List ServerId) (r : Registry), ∃ ss : List ServerId,
    (l.foldl (fun r s => r.closeConn s) r).calls = r.calls ++ ss.map .closed ∧
    (∀ s, s ∈ ss ↔ s ∈ l ∧ r.closed s = false) ∧
    ∀ s, (l.foldl (fun r s => r.closeConn s) r).closed s = true ↔ s ∈ l ∨ r.closed s = true
  | [], r => ⟨[], by simp, by simp, by simp⟩
  | t :: l, r => by
      obtain ⟨ss, hcalls, hmem, hclosed⟩ := Registry.closeEach l (r.closeConn t)
      rw [List.foldl_cons]
      cases ht : r.closed t with
      | true =>
          rw [closeConn_of_closed ht] at hcalls hmem hclosed ⊢
          refine ⟨ss, hcalls, fun s => (hmem s).trans ?_, fun s => (hclosed s).trans ?_⟩
          · rw [List.mem_cons, or_and_right]
            refine (or_iff_right ?_).symm
            rintro ⟨rfl, hs⟩
            exact nomatch ht.symm.trans hs
          · rw [List.mem_cons, or_assoc]
            refine (or_iff_right_of_imp ?_).symm
            rintro rfl
            exact Or.inr ht
      | false =>
          have hupdate : ∀ s, (r.closeConn t).closed s = true ↔ s = t ∨ r.closed s = true := by
            intro s
            rw [closeConn_of_open ht]
            show Function.update r.closed t true s = true ↔ _
            by_cases heq : s = t
            · rw [heq, Function.update_self]
              simp
            · rw [Function.update_of_ne heq]
              simp [heq]
          have hopen : ∀ s, (r.closeConn t).closed s = false ↔ s ≠ t ∧ r.closed s = false := by
            intro s
            rw [← Bool.not_eq_true, hupdate, not_or, Bool.not_eq_true]
          refine ⟨t :: ss, ?_, fun s => ?_, fun s => ?_⟩
          · rw [hcalls, closeConn_of_open ht]
            simp
          · rw [List.mem_cons, List.mem_cons, hmem, hopen]
            by_cases heq : s = t
            · simp [heq, ht]
            · simp [heq]
          · rw [hclosed, hupdate, List.mem_cons, or_assoc]
            exact or_left_comm

namespace Routes

/-- `s` is the server of a slot. -/
def Mapped (x : Routes) (s : ServerId) : Prop := ∃ i < clusterSlotCount, x.slots i = some s

theorem clear_slots (rank : ServerId → ℕ) (x : Routes) (i : ℕ) : (x.clear rank).slots i = none := rfl

/-- `clear` closes the servers of the slots. -/
theorem clear_closes (rank : ServerId → ℕ) (x : Routes) : ∃ ss : List ServerId,
    (x.clear rank).registry.calls = x.registry.calls ++ ss.map .closed ∧
    (∀ s, s ∈ ss ↔ x.Mapped s ∧ x.registry.closed s = false) ∧
    ∀ s, (x.clear rank).registry.closed s = true ↔ x.Mapped s ∨ x.registry.closed s = true := by
  have hmapped : ∀ s, s ∈ inOrder rank ((List.range clusterSlotCount).filterMap x.slots) ↔ x.Mapped s := by
    intro s
    refine mem_inOrder.trans (List.mem_filterMap.trans ?_)
    exact exists_congr fun i => and_congr_left fun _ => List.mem_range
  unfold clear closeAll
  generalize inOrder rank ((List.range clusterSlotCount).filterMap x.slots) = l at hmapped
  obtain ⟨ss, hcalls, hmem, hclosed⟩ := Registry.closeEach l x.registry
  simp only [hmapped] at hmem hclosed
  exact ⟨ss, hcalls, hmem, hclosed⟩

end Routes

namespace Traffic

variable {x : Traffic} {k : CmdId}

/-- The command is in a queue of the server. -/
def QueuedOn (x : Traffic) (s : ServerId) (k : CmdId) : Prop :=
  k ∈ (x.servers s).commands ∨ some k ∈ (x.servers s).sentCommands

/-- The commands a failed update is to answer: those that wait for a slot map, and those queued on
the server of a slot. -/
def Stranded (x : Traffic) (k : CmdId) : Prop :=
  k ∈ x.retryingCommands ∨ ∃ s, x.routes.Mapped s ∧ x.QueuedOn s k

theorem not_queuedOn {s : ServerId} (h : (x.servers s).Unqueued) : ¬ x.QueuedOn s k := by
  unfold QueuedOn
  rw [h.1, h.2]
  simp

/-- Servers that are closed one after the other hand over what is in their queues. -/
theorem mem_retrying_closed (readonly : Bool) : ∀ (ss : List ServerId) (x : Traffic),
    k ∈ ((ss.map .closed).foldl (serverCall readonly) x).retryingCommands ↔
      k ∈ x.retryingCommands ∨ ∃ s ∈ ss, x.QueuedOn s k
  | [], x => by simp
  | s :: ss, x => by
      have hqueued : ∀ t, (x.serverClosed s).QueuedOn t k ↔ t ≠ s ∧ x.QueuedOn t k := by
        intro t
        by_cases heq : t = s
        · have hself : (x.serverClosed s).servers s = (x.servers s).closeConn := Function.update_self ..
          refine iff_of_false ?_ fun h => h.1 heq
          rw [heq]
          refine not_queuedOn ?_
          rw [hself]
          exact Server.unqueued_closeConn _
        · have hother : (x.serverClosed s).servers t = x.servers t := Function.update_of_ne heq ..
          unfold QueuedOn
          rw [hother]
          exact (and_iff_right heq).symm
      have ih := mem_retrying_closed readonly ss (x.serverClosed s)
      have hretry : k ∈ (x.serverClosed s).retryingCommands ↔ k ∈ x.retryingCommands ∨ x.QueuedOn s k := by
        show k ∈ x.retryingCommands ++ (x.servers s).retried ↔ _
        rw [List.mem_append, Server.mem_retried]
        rfl
      rw [hretry] at ih
      simp only [hqueued] at ih
      refine ih.trans ⟨?_, ?_⟩
      · rintro ((hk | hk) | ⟨t, ht, -, hk⟩)
        · exact Or.inl hk
        · exact Or.inr ⟨s, List.mem_cons_self, hk⟩
        · exact Or.inr ⟨t, List.mem_cons_of_mem _ ht, hk⟩
      · rintro (hk | ⟨t, ht, hk⟩)
        · exact Or.inl (Or.inl hk)
        · by_cases heq : t = s
          · exact Or.inl (Or.inr (heq ▸ hk))
          · exact Or.inr ⟨t, (List.mem_cons.mp ht).resolve_left heq, heq, hk⟩

/-- What is in a queue belongs to a client that exists. -/
theorem Inv.live_of_stranded (h : x.Inv []) (hk : x.Stranded k) : x.owner k ∈ x.liveClients := by
  have hqueued : x.Queued k := hk.imp_right fun ⟨s, _, hs⟩ => ⟨s, hs⟩
  exact (h.outstanding_owner (h.outstanding (Nat.add_pos_right _ (h.occurrences_of_queued hqueued)))).1

/-- Nothing waits for a slot map twice. -/
theorem Inv.nodup_retrying (h : x.Inv []) : x.retryingCommands.Nodup := by
  refine List.nodup_iff_count_le_one.mpr fun k => ?_
  have hocc := h.occurs k
  rw [List.count_nil, Nat.zero_add] at hocc
  have hle : x.retryingCommands.count k ≤ x.occurrences k := Nat.le_add_right _ _
  rw [hocc] at hle
  refine hle.trans ?_
  split
  · exact le_rfl
  · exact Nat.zero_le 1

end Traffic

/-! ### Giving the commands up -/

/-- The command with an error as its answer. -/
def Cmd.answered (rsp : Bytes) (c : Cmd) : Cmd := { (c.onRemoteResponsed rsp true).1 with responsed := true }

theorem Session.onRemoteResponsed_error_cmds (k : CmdId) (rsp : Bytes) (s : Session) {j : CmdId}
    (hj : j < s.objects.cmdCount) : (s.onRemoteResponsed k rsp true).objects.cmds j =
      if j = k then (s.objects.cmds j).answered rsp else s.objects.cmds j := by
  obtain ⟨hgroup, -, -⟩ := (s.objects.cmds k).onRemoteResponsed_same rsp true
  have hcmds := Objects.respond_cmds (o := s.objects) hgroup j
  have hrespond : (s.onRemoteResponsed k rsp true).objects.cmds j =
      (s.objects.respond k ((s.objects.cmds k).onRemoteResponsed rsp true).1).1.cmds j := by
    unfold Session.onRemoteResponsed
    dsimp only
    rw [if_pos ((s.objects.cmds k).onRemoteResponsed_error rsp)]
    split
    · exact pushAwaitingsToReady_cmds _ j hj
    · rfl
  rw [hrespond]
  split
  · rename_i heq
    rw [hcmds.2.2 heq, heq]
    rfl
  · rename_i hne
    exact hcmds.2.1 hne

namespace World

variable {cfg : Config} {w : World} {k : CmdId} {rsp : Bytes}

/-- An error answers a command for good: the client is told, and no queue changes. -/
theorem respond_error_toTraffic (k : CmdId) (rsp : Bytes) (w : World) : (w.respond k rsp true).toTraffic =
    { w.toTraffic.store ((w.session (w.owner k) []).onRemoteResponsed k rsp true) with
      responsed := w.responsed ++ [k] } := by
  unfold respond
  dsimp only
  rw [foldl_call_pollRw, if_pos ((w.objects.cmds k).onRemoteResponsed_error rsp)]
  intro a ha
  exact (Session.onRemoteResponsed_error_calls _ _ _ a ha).resolve_left List.not_mem_nil

theorem respond_error_cmds (k : CmdId) (rsp : Bytes) (w : World) {j : CmdId} (hj : j < w.objects.cmdCount) :
    (w.respond k rsp true).objects.cmds j =
      if j = k then (w.objects.cmds j).answered rsp else w.objects.cmds j := by
  rw [respond_error_toTraffic]
  exact Session.onRemoteResponsed_error_cmds k rsp (w.session (w.owner k) []) hj

theorem respond_cmdCount (k : CmdId) (rsp : Bytes) (w : World) : (w.respond k rsp true).objects.cmdCount = w.objects.cmdCount := by
  rw [respond_error_toTraffic]
  exact (Session.shifts_onRemoteResponsed k rsp true (w.session (w.owner k) [])).alike.cmdCount

/-- What answers with an error to some commands leave alone, and what they do. -/
structure Answers (rsp : Bytes) (ks : List CmdId) (w w' : World) : Prop where
  routes : w'.routes = w.routes
  servers : w'.servers = w.servers
  retrying : w'.retryingCommands = w.retryingCommands
  responsed : w'.responsed = w.responsed ++ ks
  commands : ∀ j < w.objects.cmdCount,
    w'.objects.cmds j = if j ∈ ks then (w.objects.cmds j).answered rsp else w.objects.cmds j

theorem answers_foldl (rsp : Bytes) : ∀ {ks : List CmdId} (w : World), ks.Nodup →
    Answers rsp ks w (ks.foldl (fun w k => w.respond k rsp true) w)
  | [], w, _ => ⟨rfl, rfl, rfl, (List.append_nil _).symm, fun _ _ => rfl⟩
  | k :: ks, w, hnodup => by
      obtain ⟨hk, hnodup⟩ := List.nodup_cons.mp hnodup
      have hone := respond_error_toTraffic k rsp w
      have hrest := answers_foldl rsp (w.respond k rsp true) hnodup
      rw [List.foldl_cons]
      refine ⟨?_, ?_, ?_, ?_, fun j hj => ?_⟩
      · rw [hrest.routes, hone]
        rfl
      · rw [hrest.servers, hone]
        rfl
      · rw [hrest.retrying, hone]
        rfl
      · rw [hrest.responsed, hone, List.append_assoc]
        rfl
      · rw [hrest.commands j ((respond_cmdCount k rsp w).symm ▸ hj), respond_error_cmds k rsp w hj]
        by_cases heq : j = k
        · rw [if_pos heq, if_neg (heq ▸ hk), if_pos (heq ▸ List.mem_cons_self)]
        · rw [if_neg heq]
          simp only [List.mem_cons, heq, false_or]

/-- What a failed update of `w` is to leave behind.  The commands are given up in the order `ks`, by
one call of `on_remote_responsed` each, when the servers have been closed (`w₁`). -/
structure Drained (w w' : World) : Prop where
  slots : ∀ i, w'.routes.slots i = none
  closed : ∀ s, w.routes.Mapped s → w'.routes.registry.closed s = true ∧
    (w'.servers s).commands = [] ∧ (w'.servers s).sentCommands = []
  retrying : w'.retryingCommands = []
  live : ∀ k, w.Stranded k → w.owner k ∈ w.liveClients
  answers : ∃ (ks : List CmdId) (w₁ : World), ks.Nodup ∧ (∀ k, k ∈ ks ↔ w.Stranded k) ∧
    (w₁.objects = w.objects ∧ w₁.clients = w.clients ∧ w₁.responsed = w.responsed) ∧
    w' = { ks.foldl (fun w k => w.respond k clusterDownRsp true) w₁ with slotMapExpired := false } ∧
    w'.responsed = w.responsed ++ ks ∧
    ∀ j < w.objects.cmdCount, w'.objects.cmds j =
      if j ∈ ks then (w.objects.cmds j).answered clusterDownRsp else w.objects.cmds j

/-- Only the commands, the clients and the servers matter. -/
theorem Drained.of_traffic {v w' : World} (h : v.Drained w') (hv : v.toTraffic = w.toTraffic) : w.Drained w' := by
  obtain ⟨hslots, hclosed, hretrying, hlive, hanswers⟩ := h
  rw [hv] at hclosed hlive hanswers
  exact ⟨hslots, hclosed, hretrying, hlive, hanswers⟩

/-- The state after `_server_map.clear()`. -/
theorem reroute_clear (cfg : Config) (hinv : w.Inv []) (hidle : w.Idle w.routes.registry.closed) :
    ∃ w₁ : World, w.reroute cfg (w.routes.clear fun s => cfg.rank (.server s)) = w₁ ∧
    w₁.Inv [] ∧ w₁.Idle w₁.routes.registry.closed ∧ (∀ i, w₁.routes.slots i = none) ∧
    (∀ s, w.routes.Mapped s → w₁.routes.registry.closed s = true) ∧
    (∀ k, k ∈ w₁.retryingCommands ↔ w.Stranded k) ∧
    w₁.objects = w.objects ∧ w₁.clients = w.clients ∧ w₁.responsed = w.responsed := by
  obtain ⟨ss, hcalls, hmem, hclosed⟩ := w.routes.clear_closes fun s => cfg.rank (.server s)
  have hslots := w.routes.clear_slots fun s => cfg.rank (.server s)
  have hfollows := Routes.clear_follows (fun s => cfg.rank (.server s)) hinv.sound
  generalize w.routes.clear (fun s => cfg.rank (.server s)) = y at *
  have hkept : (w.reroute cfg y).toTraffic.Inv [] ∧ (w.reroute cfg y).toTraffic.Idle _ :=
    inv_reroute (Traffic.moves_idle cfg.env fun _ _ => True).toOtherMoves ⟨hinv, hidle⟩ hfollows
  rw [hinv.calls, List.nil_append] at hcalls
  have htraffic : (w.reroute cfg y).toTraffic = (ss.map .closed).foldl (Traffic.serverCall cfg.mode.isSome)
      { w.toTraffic with routes := { y with registry := { y.registry with calls := [] } } } := by
    unfold reroute
    rw [hcalls, foldl_serverCall_toTraffic]
  obtain ⟨hroutes, hobjects, hclients, hresponsed⟩ := Traffic.serverCalls_frame cfg.mode.isSome (ss.map .closed)
    { w.toTraffic with routes := { y with registry := { y.registry with calls := [] } } }
  rw [← htraffic] at hroutes hobjects hclients hresponsed
  refine ⟨_, rfl, hkept.1, hkept.2, fun i => ?_, fun s hs => ?_, fun k => ?_, hobjects, hclients, hresponsed⟩
  · rw [hroutes]
    exact hslots i
  · rw [hroutes]
    exact (hclosed s).mpr (Or.inl hs)
  · rw [htraffic, Traffic.mem_retrying_closed]
    refine or_congr_right ⟨?_, ?_⟩
    · rintro ⟨s, hs, hk⟩
      exact ⟨s, ((hmem s).mp hs).1, hk⟩
    · -- a server that is closed already has nothing in its queues
      rintro ⟨s, hs, hk⟩
      refine ⟨s, (hmem s).mpr ⟨hs, ?_⟩, hk⟩
      by_contra hne
      exact Traffic.not_queuedOn (hidle s (Bool.not_eq_false _ ▸ hne)) hk

theorem clusterDown_drains (cfg : Config) (hinv : w.Inv []) (hidle : w.Idle w.routes.registry.closed) :
    w.Drained (w.clusterDown cfg) := by
  obtain ⟨w₁, heq, hinv₁, hidle₁, hslots, hclosed, hmem, hobjects, hclients, hresponsed⟩ :=
    reroute_clear cfg hinv hidle
  have hnodup := hinv₁.nodup_retrying
  have hanswers := answers_foldl clusterDownRsp { w₁ with retryingCommands := [] } hnodup
  unfold clusterDown
  rw [heq]
  refine ⟨fun i => ?_, fun s hs => ⟨?_, ?_, ?_⟩, hanswers.retrying, fun k => hinv.live_of_stranded, w₁.retryingCommands,
    { w₁ with retryingCommands := [] }, hnodup, hmem, ⟨hobjects, hclients, hresponsed⟩, rfl, ?_, fun j hj => ?_⟩
  · exact (congrArg (Routes.slots · i) hanswers.routes).trans (hslots i)
  · exact (congrArg (fun x : Routes => x.registry.closed s) hanswers.routes).trans (hclosed s hs)
  · exact (congrArg (fun f => (f s).commands) hanswers.servers).trans (hidle₁ s (hclosed s hs)).1
  · exact (congrArg (fun f => (f s).sentCommands) hanswers.servers).trans (hidle₁ s (hclosed s hs)).2
  · exact hanswers.responsed.trans (congrArg (· ++ w₁.retryingCommands) hresponsed)
  · rw [← hobjects] at hj ⊢
    exact hanswers.commands j hj

/-- `_update_slot_map_failed` reaches its last lines.  It is called in the middle of an event and at
the end of `handle_events`, when nothing has changed since the last piece (`v`) but updaters and
their connections. -/
theorem updateSlotMapFailed_drains {v w : World} (hv : Reached cfg v) (hw : w.toTraffic = v.toTraffic)
    (connects : ℕ → Connect) (hdown : (w.updaters.updateSlotMapFailed cfg.fullCov).2 = some .clusterDown) :
    w.Drained (w.updateSlotMapFailed cfg connects).1 := by
  have hinv : w.Inv [] := hw ▸ hv.inv
  have hidle : w.Idle w.routes.registry.closed := by
    rw [hw]
    exact hv.idle
  have hdrains : ∀ x, Drained { w with updaters := x } (({ w with updaters := x } : World).clusterDown cfg) :=
    fun _ => clusterDown_drains cfg hinv hidle
  unfold updateSlotMapFailed outcome
  dsimp only
  rw [hdown]
  exact (hdrains _).of_traffic rfl

/-- The command of `sending` is under way when there are no remotes left to ask. -/
theorem updateSlotMapFailed_drains_sending :
    ((new plainConfig).steps plainConfig sending).1.Stranded 0 ∧
    ((new plainConfig).steps plainConfig sending).1.Drained
      (((new plainConfig).steps plainConfig sending).1.updateSlotMapFailed plainConfig fun _ => .opened).1 := by
  have hrun : ((new plainConfig).steps plainConfig sending).2 = none ∧
      (((new plainConfig).steps plainConfig sending).1.updaters.updateSlotMapFailed false).2 = some .clusterDown ∧
      ((new plainConfig).steps plainConfig sending).1.routes.slots 15495 = some 7 ∧
      some 0 ∈ (((new plainConfig).steps plainConfig sending).1.servers 7).sentCommands := by decide +kernel
  refine ⟨Or.inr ⟨7, ⟨15495, by decide, hrun.2.2.1⟩, Or.inr hrun.2.2.2⟩, ?_⟩
  exact updateSlotMapFailed_drains (Reached.steps sending .refl hrun.1) rfl _ hrun.2.1

/-- An updater that fails as the last one of its round: its own part does not matter. -/
theorem notifyUpdated_drains (hw : Reached cfg w) {u : UpdaterId} {answer : Option (List RedisNode)}
    (connects : ℕ → Connect) (hdown : (w.updaters.finish cfg.fullCov u answer).2 = some .clusterDown) :
    w.Drained (w.notifyUpdated cfg u answer connects).1 := by
  have hdrains : ∀ x p d, Drained { w with updaters := x, poller := p, descriptors := d }
      (({ w with updaters := x, poller := p, descriptors := d } : World).clusterDown cfg) :=
    fun _ _ _ => clusterDown_drains cfg hw.inv hw.idle
  unfold notifyUpdated outcome
  dsimp only
  rw [hdown]
  exact (hdrains _ _ _).of_traffic rfl

end World

end Cerberus
