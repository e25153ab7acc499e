import Cerberus.Proxy
import Cerberus.Ledger
import Cerberus.Connects
import Mathlib.Algebra.BigOperators.Group.Finset.Basic

/-! # Where the commands are

A command that a client waits for is in one place: in `_commands` or `_sent_commands` of one
backend, or in `_retrying_commands` of the proxy.  While one of these is worked off, its commands
are in the hand of the loop, and the invariant `Traffic.Inv` speaks of the hand and the queues
together.  Here it is shown for the moves of the commands between these places, and for clients and
backends that come and go. -/

namespace Cerberus

/-! ### The queues of a backend -/

namespace Server

/-- How often a command is in the queues. -/
def copies (k : CmdId) (s : Server) : ℕ := s.commands.count k + s.sentCommands.count (some k)

variable {k : CmdId} {s : Server}

theorem count_map_some (k : CmdId) (l : List CmdId) : (l.map some).count (some k) = l.count k :=
  List.count_map_of_injective _ _ (Option.some_injective _) _

theorem count_filterMap_id (k : CmdId) : ∀ l : List (Option CmdId), (l.filterMap id).count k = l.count (some k)
  | [] => rfl
  | none :: l => by
      have ih := count_filterMap_id k l
      simpa using ih
  | some j :: l => by
      have ih := count_filterMap_id k l
      simpa [List.count_cons] using ih

theorem copies_pos_iff : 0 < s.copies k ↔ k ∈ s.commands ∨ some k ∈ s.sentCommands := by
  rw [copies, Nat.add_pos_iff_pos_or_pos, List.count_pos_iff, List.count_pos_iff]

theorem copies_pushClientCommand (j : CmdId) : (s.pushClientCommand j).copies k = s.copies k + [j].count k := by
  show (s.commands ++ [j]).count k + s.sentCommands.count (some k) = _
  rw [List.count_append, copies]
  omega

theorem copies_pushToBufferSet : s.pushToBufferSet.copies k = s.copies k := by
  show ([] : List CmdId).count k + (s.sentCommands ++ s.commands.map some).count (some k) = _
  rw [List.count_append, count_map_some, List.count_nil, copies]
  omega

theorem copies_onServerConnected (readonly : Bool) : (s.onServerConnected readonly).copies k = s.copies k := by
  unfold onServerConnected
  split
  · show s.commands.count k + (s.sentCommands ++ [none]).count (some k) = _
    rw [List.count_append]
    rfl
  · rfl

theorem copies_closeConn : s.closeConn.copies k = 0 := rfl

theorem count_retried : s.retried.count k = s.copies k := by
  rw [retried, copies, List.count_append, count_filterMap_id]

theorem copies_popClient (owner : CmdId → ClientId) (c : ClientId) :
    (s.popClient owner c).copies k = if owner k = c then 0 else s.copies k := by
  have hsent : ∀ l : List (Option CmdId), (l.map fun e => e.filter fun j => owner j ≠ c).count (some k) =
      if owner k = c then 0 else l.count (some k) := by
    intro l
    induction l with
    | nil => simp
    | cons e l ih =>
        rw [List.map_cons, List.count_cons, List.count_cons, ih]
        cases e with
        | none => simp
        | some j =>
            by_cases hj : j = k
            · subst hj
              by_cases hc : owner j = c <;> simp [hc, Option.filter]
            · have hne : ((some j : Option CmdId).filter fun j => owner j ≠ c) ≠ some k := by
                intro h
                exact hj (Option.some.inj (Option.filter_eq_some_iff.mp h).1)
              rw [beq_eq_false_iff_ne.mpr hne, beq_eq_false_iff_ne.mpr (fun h => hj (Option.some.inj h))]
              simp
  show (s.commands.filter fun j => owner j ≠ c).count k + (s.sentCommands.map fun e => e.filter fun j => owner j ≠ c).count (some k) = _
  rw [hsent]
  by_cases hc : owner k = c
  · rw [if_pos hc, if_pos hc, Nat.add_zero, List.count_eq_zero]
    intro hmem
    simpa [hc] using List.of_mem_filter hmem
  · rw [if_neg hc, if_neg hc, List.count_filter (by simpa using hc)]
    rfl

/-- The responses take the commands they go to out of `_sent_commands`. -/
theorem count_deliveries (k : CmdId) : ∀ {sent : List (Option CmdId)} {rsps : List Response},
    rsps.length ≤ sent.length →
    (sent.drop rsps.length).count (some k) + ((deliveries sent rsps).map Prod.fst).count k = sent.count (some k)
  | [], [], _ => rfl
  | some j :: sent, [], _ => rfl
  | none :: sent, [], _ => rfl
  | some j :: sent, rsp :: rsps, h => by
      have ih := count_deliveries k (Nat.le_of_succ_le_succ h)
      rw [deliveries, List.map_cons, List.count_cons, List.count_cons, ← ih, List.length_cons, List.drop_succ_cons,
        Option.some_beq_some, Nat.add_assoc]
  | none :: sent, rsp :: rsps, h => by
      have ih := count_deliveries k (Nat.le_of_succ_le_succ h)
      rw [deliveries, List.length_cons, List.drop_succ_cons, ih]
      simp

theorem copies_recvFrom (s : Server) (inp : Input) (k : CmdId) :
    (s.recvFrom inp).1.copies k + (s.recvFrom inp).2.commands.count k = s.copies k := by
  unfold recvFrom
  split
  · rfl
  · split
    · rfl
    · split
      · rfl
      · rename_i rest rsps _
        split
        · rfl
        · rename_i hlen
          have hcount := count_deliveries k (Nat.le_of_not_lt hlen)
          show (s.commands.count k + (s.sentCommands.drop rsps.length).count (some k)) +
            ((deliveries s.sentCommands rsps).map Prod.fst).count k = _
          rw [Nat.add_assoc, hcount, copies]

end Server

/-! ### The commands of all clients -/

namespace Traffic

/-- How often a command is in the queues of the backends and of the proxy. -/
def occurrences (x : Traffic) (k : CmdId) : ℕ :=
  x.retryingCommands.count k + ∑ s ∈ Finset.range x.routes.registry.allocated, (x.servers s).copies k

/-- The commands a client waits for. -/
def due (x : Traffic) (c : ClientId) : List CmdId := x.objects.due (x.clients c).awaitingGroups

/-- A client waits for the command. -/
def Outstanding (x : Traffic) (k : CmdId) : Prop := ∃ c ∈ x.liveClients, k ∈ x.due c

instance (x : Traffic) (k : CmdId) : Decidable (x.Outstanding k) :=
  inferInstanceAs (Decidable (∃ c ∈ x.liveClients, k ∈ x.due c))

/-- The commands in the `hand` of a loop and those in the queues are the ones that some client
waits for, each once. -/
structure Inv (hand : List CmdId) (x : Traffic) : Prop where
  built : x.objects.Built
  sound : x.routes.registry.Sound
  calls : x.routes.registry.calls = []
  nodup : x.liveClients.Nodup
  live : ∀ c ∈ x.liveClients, c < x.clientCount
  owners : ∀ g < x.objects.groupCount, (x.objects.groups g).client < x.clientCount
  tidy : ∀ c ∈ x.liveClients, Session.Tidy c x.objects (x.clients c)
  occurs : ∀ k, hand.count k + x.occurrences k = if x.Outstanding k then 1 else 0
  peers : ∀ s k, 0 < (x.servers s).copies k → s ∈ (x.clients (x.owner k)).peers
  spare : ∀ s, x.routes.registry.allocated ≤ s → ∀ k, (x.servers s).copies k = 0
  selected : ∀ k < x.objects.cmdCount, x.owner k ∈ x.liveClients → (x.objects.cmds k).selected = true →
    (x.objects.cmds k).responsed = false → x.Outstanding k
  finals : x.responsed.Nodup ∧
    ∀ k ∈ x.responsed, k < x.objects.cmdCount ∧ (x.objects.cmds k).responsed = true

theorem inv_new : Inv [] new where
  built := Objects.built_empty
  sound := Registry.sound_new
  calls := rfl
  nodup := List.nodup_nil
  live := nofun
  owners := nofun
  tidy := nofun
  occurs _ := rfl
  peers _ _ h := absurd h (Nat.lt_irrefl 0)
  spare _ _ _ := rfl
  selected _ h := absurd h (Nat.not_lt_zero _)
  finals := ⟨List.nodup_nil, nofun⟩

variable {x : Traffic} {hand hand' : List CmdId} {k : CmdId} {c : ClientId} {s : ServerId}

theorem Inv.of_due (h : x.Inv hand) (hc : c ∈ x.liveClients) (hk : k ∈ x.due c) :
    x.owner k = c ∧ k < x.objects.cmdCount ∧ (x.objects.cmds k).group < x.objects.groupCount ∧
      (x.objects.cmds k).responsed = false :=
  (h.tidy c hc).of_due h.built hk

theorem Inv.outstanding_owner (h : x.Inv hand) (hk : x.Outstanding k) :
    x.owner k ∈ x.liveClients ∧ k ∈ x.due (x.owner k) := by
  obtain ⟨c, hc, hdue⟩ := hk
  rw [(h.of_due hc hdue).1]
  exact ⟨hc, hdue⟩

theorem copies_le_occurrences (h : s < x.routes.registry.allocated) :
    x.retryingCommands.count k + (x.servers s).copies k ≤ x.occurrences k := by
  rw [occurrences, ← Finset.add_sum_erase _ _ (Finset.mem_range.mpr h)]
  omega

theorem Inv.occurrences_of_copies (h : x.Inv hand) (hk : 0 < (x.servers s).copies k) : 0 < x.occurrences k := by
  refine hk.trans_le ((Nat.le_add_left ..).trans (copies_le_occurrences ?_))
  by_contra hs
  rw [h.spare s (Nat.le_of_not_lt hs) k] at hk
  exact Nat.lt_irrefl 0 hk

/-- What is in a hand or a queue is waited for. -/
theorem Inv.outstanding (h : x.Inv hand) (hk : 0 < hand.count k + x.occurrences k) : x.Outstanding k := by
  by_contra hnot
  rw [h.occurs k, if_neg hnot] at hk
  exact Nat.lt_irrefl 0 hk

theorem Inv.outstanding_of_hand (h : x.Inv hand) (hk : k ∈ hand) : x.Outstanding k :=
  h.outstanding (Nat.add_pos_left (List.count_pos_iff.mpr hk) _)

theorem Inv.outstanding_of_copies (h : x.Inv hand) (hk : 0 < (x.servers s).copies k) : x.Outstanding k :=
  h.outstanding (Nat.add_pos_right _ (h.occurrences_of_copies hk))

/-- The command is in a queue. -/
def Queued (x : Traffic) (k : CmdId) : Prop :=
  k ∈ x.retryingCommands ∨ ∃ s, k ∈ (x.servers s).commands ∨ some k ∈ (x.servers s).sentCommands

theorem Inv.occurrences_of_queued (h : x.Inv hand) (hk : x.Queued k) : 0 < x.occurrences k := by
  rcases hk with hk | ⟨s, hk⟩
  · exact Nat.add_pos_left (List.count_pos_iff.mpr hk) _
  · exact h.occurrences_of_copies (Server.copies_pos_iff.mpr hk)

/-! ### Moves between the queues -/

/-- The counts after the queues of one backend have changed. -/
theorem occurrences_setServer (hs : s < x.routes.registry.allocated) (v : Server) (k : CmdId) :
    (x.setServer s v).occurrences k + (x.servers s).copies k = x.occurrences k + v.copies k := by
  have hmem := Finset.mem_range.mpr hs
  have hnew := Finset.add_sum_erase (Finset.range x.routes.registry.allocated)
    (fun t => ((x.setServer s v).servers t).copies k) hmem
  have hold := Finset.add_sum_erase (Finset.range x.routes.registry.allocated)
    (fun t => (x.servers t).copies k) hmem
  have hrest : ∑ t ∈ (Finset.range x.routes.registry.allocated).erase s, ((x.setServer s v).servers t).copies k =
      ∑ t ∈ (Finset.range x.routes.registry.allocated).erase s, (x.servers t).copies k := by
    refine Finset.sum_congr rfl fun t ht => ?_
    rw [show (x.setServer s v).servers t = x.servers t from Function.update_of_ne (Finset.ne_of_mem_erase ht) ..]
  have hself : (x.setServer s v).servers s = v := Function.update_self ..
  have hocc : (x.setServer s v).occurrences k = x.retryingCommands.count k +
    ∑ t ∈ Finset.range x.routes.registry.allocated, ((x.setServer s v).servers t).copies k := rfl
  rw [hocc, occurrences, ← hnew, ← hold, hrest, hself]
  omega

theorem Inv.setServer (h : x.Inv hand) (hs : s < x.routes.registry.allocated) {v : Server}
    (hcount : ∀ k, hand'.count k + v.copies k = hand.count k + (x.servers s).copies k)
    (hpeers : ∀ k, 0 < v.copies k → s ∈ (x.clients (x.owner k)).peers) : (x.setServer s v).Inv hand' where
  built := h.built
  sound := h.sound
  calls := h.calls
  nodup := h.nodup
  live := h.live
  owners := h.owners
  tidy := h.tidy
  occurs k := by
    have hocc := h.occurs k
    have hset := occurrences_setServer hs v k
    have hk := hcount k
    show hand'.count k + (x.setServer s v).occurrences k = if x.Outstanding k then 1 else 0
    omega
  peers t k ht := by
    by_cases heq : t = s
    · subst heq
      rw [show (x.setServer t v).servers t = v from Function.update_self ..] at ht
      exact hpeers k ht
    · rw [show (x.setServer s v).servers t = x.servers t from Function.update_of_ne heq ..] at ht
      exact h.peers t k ht
  spare t ht k := by
    have hne : t ≠ s := fun heq => absurd ht (Nat.not_le.mpr (heq ▸ hs))
    rw [show (x.setServer s v).servers t = x.servers t from Function.update_of_ne hne ..]
    exact h.spare t ht k
  selected := h.selected
  finals := h.finals

/-- A backend whose queues hold the same commands as before. -/
theorem Inv.setServer_same (h : x.Inv hand) {v : Server} (hv : ∀ k, v.copies k = (x.servers s).copies k) :
    (x.setServer s v).Inv hand := by
  have hcopies : ∀ t k, ((x.setServer s v).servers t).copies k = (x.servers t).copies k := by
    intro t k
    show (Function.update x.servers s v t).copies k = _
    by_cases heq : t = s
    · rw [heq, Function.update_self, hv]
    · rw [Function.update_of_ne heq]
  refine ⟨h.built, h.sound, h.calls, h.nodup, h.live, h.owners, h.tidy, fun k => ?_, fun t k ht => ?_,
    fun t ht k => ?_, h.selected, h.finals⟩
  · have hocc : (x.setServer s v).occurrences k = x.occurrences k :=
      congrArg (x.retryingCommands.count k + ·) (Finset.sum_congr rfl fun t _ => hcopies t k)
    rw [hocc]
    exact h.occurs k
  · rw [hcopies] at ht
    exact h.peers t k ht
  · rw [hcopies]
    exact h.spare t ht k

/-- Commands move between the hand and `_retrying_commands`. -/
theorem Inv.retrying (h : x.Inv hand) {l : List CmdId}
    (hl : ∀ k, hand'.count k + l.count k = hand.count k + x.retryingCommands.count k) :
    Inv hand' { x with retryingCommands := l } where
  built := h.built
  sound := h.sound
  calls := h.calls
  nodup := h.nodup
  live := h.live
  owners := h.owners
  tidy := h.tidy
  occurs k := by
    have hocc := h.occurs k
    have hk := hl k
    have hold : x.occurrences k = x.retryingCommands.count k +
      ∑ t ∈ Finset.range x.routes.registry.allocated, (x.servers t).copies k := rfl
    show hand'.count k + (l.count k + ∑ t ∈ Finset.range x.routes.registry.allocated, (x.servers t).copies k) =
      if x.Outstanding k then 1 else 0
    omega
  peers := h.peers
  spare := h.spare
  selected := h.selected
  finals := h.finals

theorem Inv.retryLater (h : x.Inv (k :: hand)) : (x.retryLater k).Inv hand := by
  refine h.retrying fun j => ?_
  rw [List.count_append, List.count_cons, List.count_cons, List.count_nil]
  omega

/-- The commands that wait for a slot map are taken by a loop. -/
theorem Inv.takeRetrying (h : x.Inv []) : Inv x.retryingCommands { x with retryingCommands := [] } :=
  h.retrying fun k => by rw [List.count_nil, Nat.zero_add, Nat.add_zero]

theorem Inv.serverClosed (h : x.Inv hand) (hs : s < x.routes.registry.allocated) :
    (x.serverClosed s).Inv hand := by
  have hclosed : (x.setServer s (x.servers s).closeConn).Inv ((x.servers s).retried ++ hand) := by
    refine h.setServer hs (fun k => ?_) fun k hk => absurd hk (Nat.lt_irrefl 0)
    rw [Server.copies_closeConn, List.count_append, Server.count_retried]
    omega
  refine hclosed.retrying fun k => ?_
  show hand.count k + (x.retryingCommands ++ (x.servers s).retried).count k =
    ((x.servers s).retried ++ hand).count k + x.retryingCommands.count k
  rw [List.count_append, List.count_append]
  omega

/-! ### Commands that change -/

theorem owner_setCmd {v : Cmd} (hg : v.group = (x.objects.cmds k).group) (j : CmdId) :
    owner { x with objects := x.objects.setCmd k v } j = x.owner j := by
  show (x.objects.groups ((x.objects.setCmd k v).cmds j).group).client = _
  rw [Objects.setCmd_group hg]
  rfl

theorem due_setCmd {v : Cmd} (hr : v.responsed = (x.objects.cmds k).responsed) (c : ClientId) :
    due { x with objects := x.objects.setCmd k v } c = x.due c :=
  Objects.due_congr fun g _ => Objects.agrees_setCmd hr g

theorem Inv.setCmd (h : x.Inv hand) {v : Cmd} (hg : v.group = (x.objects.cmds k).group)
    (hr : v.responsed = (x.objects.cmds k).responsed)
    (hs : v.selected = true → (x.objects.cmds k).selected = true ∨ x.Outstanding k) :
    Inv hand { x with objects := x.objects.setCmd k v } := by
  have hout : ∀ j, Outstanding { x with objects := x.objects.setCmd k v } j ↔ x.Outstanding j := by
    intro j
    simp only [Outstanding, due_setCmd hr]
  refine ⟨h.built.setCmd hg hr, h.sound, h.calls, h.nodup, h.live, h.owners, fun c hc => ?_, fun j => ?_,
    fun s j hj => ?_, h.spare, fun j hj hlive hsel hresp => ?_, h.finals.1, fun j hj => ?_⟩
  · exact (h.tidy c hc).congr le_rfl fun g _ => Objects.agrees_setCmd hr g
  · rw [if_congr (hout j) rfl rfl]
    exact h.occurs j
  · rw [owner_setCmd hg]
    exact h.peers s j hj
  · rw [owner_setCmd hg] at hlive
    rw [Objects.setCmd_responsed hr] at hresp
    rw [hout]
    by_cases heq : j = k
    · subst heq
      rw [Objects.setCmd_self] at hsel
      rcases hs hsel with hsel | hout
      · exact h.selected j hj hlive hsel hresp
      · exact hout
    · rw [Objects.setCmd_of_ne _ heq] at hsel
      exact h.selected j hj hlive hsel hresp
  · rw [Objects.setCmd_responsed hr]
    exact h.finals.2 j hj

theorem Inv.markSelected (h : x.Inv hand) (hk : x.Outstanding k) : (x.markSelected k).Inv hand :=
  h.setCmd rfl rfl fun _ => Or.inr hk

/-- `_peers` of a client changes, but for the backends that have commands of the client. -/
theorem Inv.setPeers (h : x.Inv hand) {ps : List ServerId}
    (hps : ∀ s k, 0 < (x.servers s).copies k → x.owner k = c → s ∈ ps) :
    (x.setClient c { x.clients c with peers := ps }).Inv hand := by
  have hqueues : ∀ c', ((x.setClient c { x.clients c with peers := ps }).clients c').awaitingGroups =
      (x.clients c').awaitingGroups ∧
      Session.Tidy c' x.objects ((x.setClient c { x.clients c with peers := ps }).clients c') =
        Session.Tidy c' x.objects (x.clients c') := by
    intro c'
    by_cases heq : c' = c
    · subst heq
      rw [show (x.setClient c' { x.clients c' with peers := ps }).clients c' = _ from Function.update_self ..]
      refine ⟨rfl, propext ⟨fun ht => ?_, fun ht => ?_⟩⟩
      · exact ⟨ht.nodup, ht.mine, ht.fresh, ht.count⟩
      · exact ⟨ht.nodup, ht.mine, ht.fresh, ht.count⟩
    · rw [show (x.setClient c { x.clients c with peers := ps }).clients c' = x.clients c' from
        Function.update_of_ne heq ..]
      exact ⟨rfl, rfl⟩
  have hout : ∀ j, (x.setClient c { x.clients c with peers := ps }).Outstanding j ↔ x.Outstanding j := by
    intro j
    refine exists_congr fun c' => and_congr_right fun _ => ?_
    rw [due, due, (hqueues c').1]
    rfl
  refine ⟨h.built, h.sound, h.calls, h.nodup, h.live, h.owners, fun c' hc' => ?_, fun j => ?_,
    fun s j hj => ?_, h.spare, fun j hj hlive hsel hresp => ?_, h.finals⟩
  · exact (hqueues c').2.symm ▸ h.tidy c' hc'
  · rw [if_congr (hout j) rfl rfl]
    exact h.occurs j
  · by_cases heq : x.owner j = c
    · show s ∈ (Function.update x.clients c _ (x.owner j)).peers
      rw [heq, Function.update_self]
      exact hps s j hj heq
    · show s ∈ (Function.update x.clients c _ (x.owner j)).peers
      rw [Function.update_of_ne heq]
      exact h.peers s j hj
  · exact (hout j).mpr (h.selected j hj hlive hsel hresp)

theorem Inv.pushClientCommand (h : x.Inv (k :: hand)) (hs : s < x.routes.registry.allocated) :
    (x.pushClientCommand s k).Inv hand := by
  have hadd : (x.setClient (x.owner k) { x.clients (x.owner k) with
      peers := (x.clients (x.owner k)).peers.insert s }).Inv (k :: hand) :=
    h.setPeers fun t j hj howner => List.mem_insert_of_mem (howner ▸ h.peers t j hj)
  refine hadd.setServer hs (fun j => ?_) fun j hj => ?_
  · show hand.count j + ((x.servers s).pushClientCommand k).copies j = (k :: hand).count j + (x.servers s).copies j
    rw [Server.copies_pushClientCommand, List.count_cons, List.count_cons, List.count_nil]
    omega
  · by_cases howner : x.owner j = x.owner k
    · show s ∈ (Function.update x.clients (x.owner k) _ (x.owner j)).peers
      rw [howner, Function.update_self]
      exact List.mem_insert_self
    · refine hadd.peers s j ?_
      rw [Server.copies_pushClientCommand, List.count_cons_of_ne fun heq => howner (by rw [heq])] at hj
      exact hj

/-- `select_server` puts a command into a queue. -/
theorem Inv.selectServer (h : x.Inv (k :: hand)) : (x.selectServer k).1.Inv hand := by
  have hmark := h.markSelected (h.outstanding_of_hand List.mem_cons_self)
  unfold Traffic.selectServer
  split
  · exact hmark.retryLater
  · rename_i s hs
    exact hmark.pushClientCommand (h.sound.opened s (Routes.getServerBySlot_open hs))

/-! ### Calls of a client -/

/-- What a call of a client does to the commands. -/
def call (c : ClientId) (x : Traffic) : ClientCall → Traffic
  | .selectServer k => (x.selectServer k).1
  | .reactivate k => (x.selectServer k).1
  | .clearPeers => x.setClient c { x.clients c with peers := [] }
  | _ => x

theorem due_setPeers (c c' : ClientId) (ps : List ServerId) :
    (x.setClient c { x.clients c with peers := ps }).due c' = x.due c' := by
  show x.objects.due (Function.update x.clients c _ c').awaitingGroups = _
  by_cases heq : c' = c
  · rw [heq, Function.update_self]
    rfl
  · rw [Function.update_of_ne heq]
    rfl

theorem due_selectServer (k : CmdId) (c : ClientId) : (x.selectServer k).1.due c = x.due c := by
  have hmark : (x.markSelected k).due c = x.due c :=
    due_setCmd (v := { x.objects.cmds k with selected := true }) rfl c
  unfold selectServer
  split
  · exact hmark
  · rename_i s _
    rw [← hmark]
    exact due_setPeers (x := (x.markSelected k).setServer s _) ..

/-- A client may forget its peers when all it waits for is in the hand. -/
theorem Inv.clearPeers (h : x.Inv hand) (hdue : ∀ k ∈ x.due c, k ∈ hand) :
    (x.setClient c { x.clients c with peers := [] }).Inv hand := by
  refine h.setPeers fun s k hk howner => ?_
  have hout := h.outstanding_of_copies hk
  have hmem := List.count_pos_iff.mpr (hdue k (howner ▸ (h.outstanding_owner hout).2))
  have hpos := h.occurrences_of_copies hk
  have hocc := h.occurs k
  rw [if_pos hout] at hocc
  omega

theorem Inv.ledger (h : x.Inv hand) (hc : c ∈ x.liveClients) (script : List WriteAnswer) :
    (x.session c script).Ledger (x.session c script) :=
  ⟨rfl, rfl, h.built, .refl _ _, h.tidy c hc, rfl⟩

theorem Inv.owner_store (h : x.Inv hand) {t : Session} (ht : Objects.Grows c x.objects t.objects)
    (hk : k < x.objects.cmdCount) : (x.store t).owner k = x.owner k := by
  show (t.objects.groups (t.objects.cmds k).group).client = _
  rw [ht.cmds k hk, ht.client _ (h.built.home k hk).1]
  rfl

/-- What a call of `on_events` leaves behind; the commands the client gives out are in its
hand. -/
theorem Inv.store (h : x.Inv []) (hc : c ∈ x.liveClients) {script : List WriteAnswer} {t : Session}
    (ht : t.Ledger (x.session c script)) : (x.store t).Inv (Session.selected t.calls) := by
  have hself : t.self = c := ht.self
  have hgrows : Objects.Grows c x.objects t.objects := hself ▸ ht.grows
  have hmine : (x.store t).clients c = t.client := by
    show Function.update x.clients t.self t.client c = _
    rw [hself, Function.update_self]
  have hother : ∀ c' ≠ c, (x.store t).clients c' = x.clients c' := by
    intro c' hne
    show Function.update x.clients t.self t.client c' = _
    rw [hself, Function.update_of_ne hne]
  have hdue : (x.store t).due c = x.due c ++ Session.selected t.calls := by
    rw [due, hmine]
    exact ht.plays.eq
  have hdues : ∀ c' ∈ x.liveClients, c' ≠ c → (x.store t).due c' = x.due c' := by
    intro c' hc' hne
    rw [due, hother c' hne]
    exact hgrows.due h.built (h.tidy c' hc').awaiting_lt
  have htidy : ∀ c' ∈ x.liveClients, Session.Tidy c' t.objects ((x.store t).clients c') := by
    intro c' hc'
    by_cases heq : c' = c
    · rw [heq, hmine, ← hself]
      exact ht.tidy
    · rw [hother c' heq]
      exact (h.tidy c' hc').grows h.built hgrows
  have howner : ∀ k < x.objects.cmdCount, (x.store t).owner k = x.owner k := fun k => h.owner_store hgrows
  have hmember : ∀ k ∈ Session.selected t.calls, k ∈ (x.store t).due c := by
    intro k hk
    rw [hdue]
    exact List.mem_append_right _ hk
  have hnd : (x.due c ++ Session.selected t.calls).Nodup := by
    rw [← hdue, due, hmine]
    exact ht.tidy.due_nodup ht.built
  -- the commands that are given out are new
  have hnew : ∀ k ∈ Session.selected t.calls, ¬ x.Outstanding k := by
    rintro k hk ⟨c', hc', hmem⟩
    by_cases heq : c' = c
    · subst heq
      exact (List.nodup_append.mp hnd).2.2 k hmem k hk rfl
    · obtain ⟨hold, hlt, -⟩ := h.of_due hc' hmem
      have hnow := ((htidy c hc).of_due ht.built (hmember k hk)).1
      rw [show (t.objects.groups (t.objects.cmds k).group).client = (x.store t).owner k from rfl,
        howner k hlt, hold] at hnow
      exact heq hnow
  have hout : ∀ k, (x.store t).Outstanding k ↔ x.Outstanding k ∨ k ∈ Session.selected t.calls := by
    intro k
    constructor
    · rintro ⟨c', hc', hmem⟩
      by_cases heq : c' = c
      · rw [heq, hdue] at hmem
        rcases List.mem_append.mp hmem with hmem | hmem
        · exact Or.inl ⟨c, hc, hmem⟩
        · exact Or.inr hmem
      · rw [hdues c' hc' heq] at hmem
        exact Or.inl ⟨c', hc', hmem⟩
    · rintro (⟨c', hc', hmem⟩ | hmem)
      · refine ⟨c', hc', ?_⟩
        by_cases heq : c' = c
        · rw [heq] at hmem ⊢
          rw [hdue]
          exact List.mem_append_left _ hmem
        · rw [hdues c' hc' heq]
          exact hmem
      · exact ⟨c, hc, hmember k hmem⟩
  refine ⟨ht.built, h.sound, h.calls, h.nodup, h.live, fun g hg => ?_, htidy, fun k => ?_, fun s k hk => ?_,
    h.spare, fun k hk hlive hsel hresp => ?_, h.finals.1, fun k hk => ?_⟩
  · rcases Nat.lt_or_ge g x.objects.groupCount with hlt | hle
    · exact (hgrows.client g hlt).symm ▸ h.owners g hlt
    · exact (hgrows.newGroups g hg hle).symm ▸ h.live c hc
  · have hocc : (Session.selected t.calls).count k + x.occurrences k = _ :=
      congrArg ((Session.selected t.calls).count k + ·) ((Nat.zero_add _).symm.trans (h.occurs k))
    show (Session.selected t.calls).count k + x.occurrences k = _
    rw [hocc, if_congr (hout k) rfl rfl]
    by_cases hsel : k ∈ Session.selected t.calls
    · rw [List.count_eq_one_of_mem (List.nodup_append.mp hnd).2.1 hsel, if_neg (hnew k hsel), if_pos (Or.inr hsel)]
    · rw [List.count_eq_zero.mpr hsel, Nat.zero_add, if_congr (or_iff_left hsel).symm rfl rfl]
  · have hout := h.outstanding_of_copies (s := s) hk
    obtain ⟨c', hc', hmem⟩ := hout
    rw [howner k (h.of_due hc' hmem).2.1]
    have hpeers := h.peers s k hk
    by_cases heq : x.owner k = c
    · rw [heq] at hpeers ⊢
      rw [hmine, ht.peers]
      exact hpeers
    · rw [hother _ heq]
      exact hpeers
  · rcases Nat.lt_or_ge k x.objects.cmdCount with hlt | hle
    · rw [show (x.store t).objects.cmds k = x.objects.cmds k from hgrows.cmds k hlt] at hsel hresp
      rw [howner k hlt] at hlive
      exact (hout k).mpr (Or.inl (h.selected k hlt hlive hsel hresp))
    · rw [show ((x.store t).objects.cmds k).selected = false from hgrows.newCmds k hk hle] at hsel
      cases hsel
  · obtain ⟨hlt, hr⟩ := h.finals.2 k hk
    rw [show (x.store t).objects.cmds k = x.objects.cmds k from hgrows.cmds k hlt]
    exact ⟨hlt.trans_le hgrows.cmdCount, hr⟩

/-! ### Responses -/

theorem Inv.owner_answered (h : x.Inv hand) {script : List WriteAnswer} {t : Session} {j : CmdId}
    (ht : (x.session (x.owner k) script).Answered k t) (hj : j < x.objects.cmdCount) :
    (x.store t).owner j = x.owner j := by
  show (t.objects.groups (t.objects.cmds j).group).client = _
  rw [ht.group j hj]
  exact ht.client _ (h.built.home j hj).1

/-- A command has got its last response: its client is the only one that notices. -/
theorem Inv.answered (h : x.Inv (k :: hand)) {script : List WriteAnswer} {t : Session}
    (ht : (x.session (x.owner k) script).Answered k t) :
    Inv hand { x.store t with responsed := x.responsed ++ [k] } := by
  obtain ⟨hlive, hk⟩ := h.outstanding_owner (h.outstanding_of_hand List.mem_cons_self)
  obtain ⟨-, hkc, hkg, hkr⟩ := h.of_due hlive hk
  have hself : t.self = x.owner k := ht.self
  have hmine : (x.store t).clients (x.owner k) = t.client := by
    show Function.update x.clients t.self t.client _ = _
    rw [hself, Function.update_self]
  have hother : ∀ c ≠ x.owner k, (x.store t).clients c = x.clients c := by
    intro c hne
    show Function.update x.clients t.self t.client c = _
    rw [hself, Function.update_of_ne hne]
  have hagrees : ∀ c ∈ x.liveClients, c ≠ x.owner k → ∀ g ∈ (x.clients c).awaitingGroups ++ (x.clients c).parsedGroups,
      Objects.Agrees x.objects t.objects g := by
    intro c hc hne g hg
    obtain ⟨hlt, hcg⟩ := (h.tidy c hc).mine g hg
    refine ht.agrees g hlt fun heq => hne ?_
    rw [← hcg, heq]
    rfl
  have hdues : ∀ c ∈ x.liveClients, c ≠ x.owner k → (x.store t).due c = x.due c := by
    intro c hc hne
    rw [due, hother c hne]
    exact Objects.due_congr fun g hg => hagrees c hc hne g (List.mem_append_left _ hg)
  have howner : ∀ j < x.objects.cmdCount, (x.store t).owner j = x.owner j := fun j => h.owner_answered ht
  have hout : ∀ j, (x.store t).Outstanding j ↔ x.Outstanding j ∧ j ≠ k := by
    intro j
    have hdue : j ∈ (x.store t).due (x.owner k) ↔ j ∈ x.due (x.owner k) ∧ j ≠ k := by
      rw [due, hmine]
      exact ht.due j
    constructor
    · rintro ⟨c, hc, hmem⟩
      by_cases heq : c = x.owner k
      · rw [heq, hdue] at hmem
        exact ⟨⟨_, hlive, hmem.1⟩, hmem.2⟩
      · rw [hdues c hc heq] at hmem
        refine ⟨⟨c, hc, hmem⟩, ?_⟩
        rintro rfl
        exact heq (h.of_due hc hmem).1.symm
    · rintro ⟨⟨c, hc, hmem⟩, hne⟩
      refine ⟨c, hc, ?_⟩
      by_cases heq : c = x.owner k
      · rw [heq] at hmem ⊢
        exact hdue.mpr ⟨hmem, hne⟩
      · rw [hdues c hc heq]
        exact hmem
  have hocc := h.occurs k
  rw [if_pos ⟨_, hlive, hk⟩, List.count_cons_self] at hocc
  refine ⟨ht.built, h.sound, h.calls, h.nodup, h.live, fun g hg => ?_, fun c hc => ?_, fun j => ?_,
    fun s j hj => ?_, h.spare, fun j hj hl hsel hresp => ?_, ?_, fun j hj => ?_⟩
  · have hlt : g < x.objects.groupCount := ht.groupCount ▸ hg
    exact (ht.client g hlt).symm ▸ h.owners g hlt
  · by_cases heq : c = x.owner k
    · rw [heq]
      exact hmine.symm ▸ (hself ▸ ht.tidy)
    · exact (hother c heq).symm ▸ (h.tidy c hc).congr ht.groupCount.ge (hagrees c hc heq)
  · show hand.count j + x.occurrences j = if (x.store t).Outstanding j then 1 else 0
    rw [if_congr (hout j) rfl rfl]
    by_cases heq : j = k
    · rw [heq, if_neg fun hne => hne.2 rfl]
      omega
    · rw [if_congr (and_iff_left heq) rfl rfl, ← h.occurs j, List.count_cons_of_ne (Ne.symm heq)]
  · obtain ⟨c', hc', hmem⟩ := h.outstanding_of_copies (s := s) hj
    have hpeers := h.peers s j hj
    show s ∈ ((x.store t).clients ((x.store t).owner j)).peers
    rw [howner j (h.of_due hc' hmem).2.1]
    by_cases heq : x.owner j = x.owner k
    · rw [heq] at hpeers ⊢
      rw [hmine, ht.peers]
      exact hpeers
    · rw [hother _ heq]
      exact hpeers
  · have hlt : j < x.objects.cmdCount := ht.cmdCount ▸ hj
    have hne : j ≠ k := by
      rintro rfl
      rw [show ({ x.store t with responsed := x.responsed ++ [j] } : Traffic).objects.cmds j = t.objects.cmds j
        from rfl, ht.last] at hresp
      cases hresp
    refine (hout j).mpr ⟨h.selected j hlt ?_ ?_ ?_, hne⟩
    · rw [← howner j hlt]
      exact hl
    · exact (ht.selected j hlt).symm.trans hsel
    · exact (ht.others j hlt hne).symm.trans hresp
  · refine List.nodup_append.mpr ⟨h.finals.1, List.nodup_singleton _, fun j hj j' hj' heq => ?_⟩
    obtain rfl : j' = k := List.mem_singleton.mp hj'
    rw [heq] at hj
    rw [(h.finals.2 _ hj).2] at hkr
    cases hkr
  · by_cases heq : j = k
    · rw [heq]
      exact ⟨ht.cmdCount.symm ▸ hkc, ht.last⟩
    · have hmem : j ∈ x.responsed := by
        rcases List.mem_append.mp hj with hj | hj
        · exact hj
        · exact absurd (List.mem_singleton.mp hj) heq
      obtain ⟨hlt, hr⟩ := h.finals.2 j hmem
      exact ⟨ht.cmdCount.symm ▸ hlt, (ht.others j hlt heq).trans hr⟩

/-- A command takes another step. -/
theorem Inv.again (h : x.Inv (k :: hand)) (rsp : Bytes) (error : Bool) :
    (Traffic.selectServer k { x with
      objects := x.objects.setCmd k ((x.objects.cmds k).onRemoteResponsed rsp error).1 }).1.Inv hand := by
  obtain ⟨hg, hs, hr⟩ := (x.objects.cmds k).onRemoteResponsed_same rsp error
  exact Inv.selectServer (h.setCmd hg hr fun hsel => Or.inl (hs ▸ hsel))

/-! ### Clients that come and go -/

theorem Inv.newClient (h : x.Inv hand) : x.newClient.Inv hand := by
  have hnew : x.newClient.clients x.clientCount = .new := Function.update_self ..
  have hold : ∀ c < x.clientCount, x.newClient.clients c = x.clients c :=
    fun c hc => Function.update_of_ne hc.ne ..
  have hout : ∀ k, x.newClient.Outstanding k ↔ x.Outstanding k := by
    intro k
    constructor
    · rintro ⟨c, hc, hmem⟩
      rcases List.mem_append.mp hc with hc | hc
      · refine ⟨c, hc, ?_⟩
        rw [due, hold c (h.live c hc)] at hmem
        exact hmem
      · rw [List.mem_singleton.mp hc, due, hnew] at hmem
        cases hmem
    · rintro ⟨c, hc, hmem⟩
      refine ⟨c, List.mem_append_left _ hc, ?_⟩
      rw [due, hold c (h.live c hc)]
      exact hmem
  refine ⟨h.built, h.sound, h.calls, ?_, fun c hc => ?_, fun g hg => ?_, fun c hc => ?_, fun k => ?_,
    fun s k hk => ?_, h.spare, fun k hk hlive hsel hresp => ?_, h.finals⟩
  · refine List.nodup_append.mpr ⟨h.nodup, List.nodup_singleton _, fun c hc c' hc' => ?_⟩
    rw [List.mem_singleton.mp hc']
    exact (h.live c hc).ne
  · rcases List.mem_append.mp hc with hc | hc
    · exact (h.live c hc).trans (Nat.lt_succ_self _)
    · rw [List.mem_singleton.mp hc]
      exact Nat.lt_succ_self _
  · exact (h.owners g hg).trans (Nat.lt_succ_self _)
  · rcases List.mem_append.mp hc with hc | hc
    · rw [hold c (h.live c hc)]
      exact h.tidy c hc
    · rw [List.mem_singleton.mp hc, hnew]
      exact Session.tidy_new _ _
  · rw [if_congr (hout k) rfl rfl]
    exact h.occurs k
  · have howner := (h.outstanding_owner (h.outstanding_of_copies (s := s) hk)).1
    show s ∈ (x.newClient.clients (x.owner k)).peers
    rw [hold _ (h.live _ howner)]
    exact h.peers s k hk
  · have hlt : x.owner k < x.clientCount := h.owners _ (h.built.home k hk).1
    rcases List.mem_append.mp hlive with hl | hl
    · exact (hout k).mpr (h.selected k hk hl hsel hresp)
    · exact absurd (List.mem_singleton.mp hl) hlt.ne

/-- `~Client` finds all commands of the client in the queues of its peers. -/
theorem Inv.copies_destroyClient (h : x.Inv hand) (s : ServerId) (k : CmdId) :
    ((x.destroyClient c).servers s).copies k = if x.owner k = c then 0 else (x.servers s).copies k := by
  show (if s ∈ (x.clients c).peers then (x.servers s).popClient x.owner c else x.servers s).copies k = _
  split
  · exact Server.copies_popClient ..
  · rename_i hs
    split
    · rename_i howner
      by_contra hne
      exact hs (howner ▸ h.peers s k (Nat.pos_of_ne_zero hne))
    · rfl

theorem Inv.occurrences_destroyClient (h : x.Inv hand) (k : CmdId) :
    (x.destroyClient c).occurrences k = if x.owner k = c then 0 else x.occurrences k := by
  have hsum : (x.destroyClient c).occurrences k = (x.retryingCommands.filter fun k => x.owner k ≠ c).count k +
    ∑ s ∈ Finset.range x.routes.registry.allocated, ((x.destroyClient c).servers s).copies k := rfl
  simp only [hsum, h.copies_destroyClient]
  by_cases hc : x.owner k = c
  · have hnot : k ∉ x.retryingCommands.filter fun k => x.owner k ≠ c :=
      fun hmem => by simpa [hc] using List.of_mem_filter hmem
    simp only [if_pos hc, List.count_eq_zero.mpr hnot, Finset.sum_const_zero, Nat.add_zero]
  · simp only [if_neg hc, List.count_filter (p := fun k => decide (x.owner k ≠ c)) (decide_eq_true hc)]
    rfl

theorem Inv.destroyClient (h : x.Inv []) (c : ClientId) : (x.destroyClient c).Inv [] := by
  have hmem : ∀ c', c' ∈ (x.destroyClient c).liveClients ↔ c' ≠ c ∧ c' ∈ x.liveClients :=
    fun c' => h.nodup.mem_erase_iff
  have hout : ∀ k, (x.destroyClient c).Outstanding k ↔ x.Outstanding k ∧ x.owner k ≠ c := by
    intro k
    constructor
    · rintro ⟨c', hc', hk⟩
      obtain ⟨hne, hlive⟩ := (hmem c').mp hc'
      exact ⟨⟨c', hlive, hk⟩, (h.of_due hlive hk).1.symm ▸ hne⟩
    · rintro ⟨hk, hne⟩
      obtain ⟨hlive, hdue⟩ := h.outstanding_owner hk
      exact ⟨_, (hmem _).mpr ⟨hne, hlive⟩, hdue⟩
  refine ⟨h.built, h.sound, h.calls, h.nodup.erase c, fun c' hc' => h.live c' ((hmem c').mp hc').2, h.owners,
    fun c' hc' => h.tidy c' ((hmem c').mp hc').2, fun k => ?_, fun s k hk => ?_, fun s hs k => ?_,
    fun k hk hlive hsel hresp => ?_, h.finals⟩
  · have hocc := h.occurs k
    rw [List.count_nil, Nat.zero_add] at hocc ⊢
    rw [h.occurrences_destroyClient, if_congr (hout k) rfl rfl]
    by_cases hc : x.owner k = c
    · rw [if_pos hc, if_neg fun hand => hand.2 hc]
    · rw [if_neg hc, hocc, if_congr (and_iff_left hc) rfl rfl]
  · refine h.peers s k ?_
    rw [h.copies_destroyClient] at hk
    split at hk
    · exact absurd hk (Nat.lt_irrefl 0)
    · exact hk
  · rw [h.copies_destroyClient, h.spare s hs k, ite_self]
  · obtain ⟨hne, hl⟩ := (hmem _).mp hlive
    exact (hout k).mpr ⟨h.selected k hk hl hsel hresp, hne⟩

/-! ### Backends that come and go -/

/-- The registry of a `Follows`, with its calls still to be carried out. -/
theorem Inv.setRoutes (h : x.Inv hand) {y : Routes} {cs : List ServerCall}
    (hy : x.routes.registry.Follows cs y.registry) :
    Inv hand { x with routes := { y with registry := { y.registry with calls := [] } } } where
  built := h.built
  sound := ⟨hy.sound.nodup, hy.sound.pool, hy.sound.opened⟩
  calls := rfl
  nodup := h.nodup
  live := h.live
  owners := h.owners
  tidy := h.tidy
  occurs k := by
    have hsum : ∑ s ∈ Finset.range y.registry.allocated, (x.servers s).copies k =
        ∑ s ∈ Finset.range x.routes.registry.allocated, (x.servers s).copies k := by
      refine (Finset.sum_subset (Finset.range_subset_range.mpr hy.allocated) fun s _ hs => ?_).symm
      exact h.spare s (by simpa using hs) k
    have hocc := h.occurs k
    rw [occurrences] at hocc
    show hand.count k + (x.retryingCommands.count k + ∑ s ∈ Finset.range y.registry.allocated, (x.servers s).copies k) =
      if x.Outstanding k then 1 else 0
    rw [hsum]
    exact hocc
  peers := h.peers
  spare s hs := h.spare s (hy.allocated.trans hs)
  selected := h.selected
  finals := h.finals

/-! ### What can happen to the commands -/

/-- What the proxy does to commands, clients and backends, as rules for a property that goes with
`Inv`.  The hand comes from a backend, or from the commands to be tried again; only a backend gives
responses of its own, and `P` is what is known of them.  The requests of the clients are parsed in
one mode. -/
structure Rules (env : Env) (P : Bytes → Bool → Prop) (J : Bool → List CmdId → Traffic → Prop) : Prop where
  inv : ∀ {b hand x}, J b hand x → x.Inv hand
  idle : ∀ {b x}, J b [] x → ∀ b', J b' [] x
  last : ∀ {b hand x k rsp error}, J b (k :: hand) x → (b = false → rsp = World.clusterDownRsp ∧ error = true) →
    (b = true → P rsp error) → ((x.objects.cmds k).onRemoteResponsed rsp error).2 = true →
    J b hand { x.store ((x.session (x.owner k) []).onRemoteResponsed k rsp error) with
      responsed := x.responsed ++ [k] }
  again : ∀ {b hand x k rsp error}, J b (k :: hand) x → (b = false → rsp = World.clusterDownRsp ∧ error = true) →
    (b = true → P rsp error) → ((x.objects.cmds k).onRemoteResponsed rsp error).2 = false →
    J b hand (Traffic.selectServer k { x with
      objects := x.objects.setCmd k ((x.objects.cmds k).onRemoteResponsed rsp error).1 }).1
  retryLater : ∀ {hand x k}, J true (k :: hand) x → J true hand (x.retryLater k)
  takeRetrying : ∀ {b x}, J b [] x → J false x.retryingCommands { x with retryingCommands := [] }
  selectServer : ∀ {hand x k}, J false (k :: hand) x → J false hand (x.selectServer k).1
  clearPeers : ∀ {hand x c}, J false hand x → (∀ k ∈ x.due c, k ∈ hand) →
    J false hand (x.setClient c { x.clients c with peers := [] })
  store : ∀ {b x c}, J b [] x → c ∈ x.liveClients → ∀ script delivery hup read write,
    J false (Session.selected ((x.session c script).onEvents env delivery hup read write).1.calls)
      (x.store ((x.session c script).onEvents env delivery hup read write).1)
  recvFrom : ∀ {b x s}, J b [] x → s < x.routes.registry.allocated → ∀ inp,
    J true ((x.servers s).recvFrom inp).2.commands (x.setServer s ((x.servers s).recvFrom inp).1)
  sameCopies : ∀ {b x s v}, J b [] x → (∀ k, Server.copies k v = (x.servers s).copies k) →
    J b [] (x.setServer s v)
  serverClosed : ∀ {b x s}, J b [] x → s < x.routes.registry.allocated → J b [] (x.serverClosed s)
  setRoutes : ∀ {b x y cs}, J b [] x → x.routes.registry.Follows cs (Routes.registry y) →
    J b [] { x with routes := { y with registry := { y.registry with calls := [] } } }
  newClient : ∀ {b x}, J b [] x → J b [] x.newClient
  destroyClient : ∀ {b x}, J b [] x → ∀ c, J b [] (x.destroyClient c)

theorem rules_inv (env : Env) (P : Bytes → Bool → Prop) : Rules env P fun _ hand x => x.Inv hand where
  inv h := h
  idle h _ := h
  last h _ _ hlast := by
    obtain ⟨hlive, hk⟩ := h.outstanding_owner (h.outstanding_of_hand List.mem_cons_self)
    exact h.answered (Session.answered_onRemoteResponsed rfl h.built (h.tidy _ hlive) hk hlast)
  again h _ _ _ := h.again _ _
  retryLater h := h.retryLater
  takeRetrying h := h.takeRetrying
  selectServer h := h.selectServer
  clearPeers h := h.clearPeers
  store h hc script delivery hup read write :=
    h.store hc ((h.ledger hc script).onEvents env delivery hup read write)
  recvFrom {_ x s} h hs inp := by
    have hcopies := (x.servers s).copies_recvFrom inp
    refine h.setServer hs (fun k => ?_) fun k hk => h.peers s k ?_
    · rw [List.count_nil, Nat.zero_add, ← hcopies k]
      omega
    · have := hcopies k
      omega
  sameCopies h := h.setServer_same
  serverClosed h hs := h.serverClosed hs
  setRoutes h hy := h.setRoutes hy
  newClient h := h.newClient
  destroyClient h c := h.destroyClient c

/-- What becomes of the queues when a connection is opened or closed. -/
def serverCall (readonly : Bool) (x : Traffic) : ServerCall → Traffic
  | .opened s => x.serverOpened readonly s
  | .closed s => x.serverClosed s

/-- The rules that are left when a change of the registry and its calls are taken together: in
between, a backend may be closed and still have its commands.  These are the ones for everything but
an event of a client. -/
structure OtherMoves (P : Bytes → Bool → Prop) (J : Bool → List CmdId → Traffic → Prop) : Prop where
  inv : ∀ {b hand x}, J b hand x → x.Inv hand
  idle : ∀ {b x}, J b [] x → ∀ b', J b' [] x
  last : ∀ {b hand x k rsp error}, J b (k :: hand) x → (b = false → rsp = World.clusterDownRsp ∧ error = true) →
    (b = true → P rsp error) → ((x.objects.cmds k).onRemoteResponsed rsp error).2 = true →
    J b hand { x.store ((x.session (x.owner k) []).onRemoteResponsed k rsp error) with
      responsed := x.responsed ++ [k] }
  again : ∀ {b hand x k rsp error}, J b (k :: hand) x → (b = false → rsp = World.clusterDownRsp ∧ error = true) →
    (b = true → P rsp error) → ((x.objects.cmds k).onRemoteResponsed rsp error).2 = false →
    J b hand (Traffic.selectServer k { x with
      objects := x.objects.setCmd k ((x.objects.cmds k).onRemoteResponsed rsp error).1 }).1
  retryLater : ∀ {hand x k}, J true (k :: hand) x → J true hand (x.retryLater k)
  takeRetrying : ∀ {b x}, J b [] x → J false x.retryingCommands { x with retryingCommands := [] }
  selectServer : ∀ {hand x k}, J false (k :: hand) x → J false hand (x.selectServer k).1
  clearPeers : ∀ {hand x c}, J false hand x → (∀ k ∈ x.due c, k ∈ hand) →
    J false hand (x.setClient c { x.clients c with peers := [] })
  recvFrom : ∀ {b x s}, J b [] x → s < x.routes.registry.allocated → ∀ inp,
    J true ((x.servers s).recvFrom inp).2.commands (x.setServer s ((x.servers s).recvFrom inp).1)
  pushToBufferSet : ∀ {b x}, J b [] x → ∀ s, J b [] (x.setServer s (x.servers s).pushToBufferSet)
  written : ∀ {b x}, J b [] x → ∀ s o, J b [] (x.setServer s { x.servers s with outputBufferSet := o })
  reroute : ∀ {b x y cs}, J b [] x → x.routes.registry.Follows cs (Routes.registry y) → ∀ readonly,
    J b [] (cs.foldl (serverCall readonly) { x with routes := { y with registry := { y.registry with calls := [] } } })
  newClient : ∀ {b x}, J b [] x → J b [] x.newClient
  destroyClient : ∀ {b x}, J b [] x → ∀ c, J b [] (x.destroyClient c)

/-- All of them; the requests of the clients are parsed in one mode. -/
structure Moves (env : Env) (P : Bytes → Bool → Prop) (J : Bool → List CmdId → Traffic → Prop) : Prop
    extends OtherMoves P J where
  store : ∀ {b x c}, J b [] x → c ∈ x.liveClients → ∀ script delivery hup read write,
    J false (Session.selected ((x.session c script).onEvents env delivery hup read write).1.calls)
      (x.store ((x.session c script).onEvents env delivery hup read write).1)

section Moves

variable {env : Env} {P : Bytes → Bool → Prop} {J : Bool → List CmdId → Traffic → Prop}

theorem Rules.serverCalls (R : Rules env P J) {b : Bool} (readonly : Bool) : ∀ (cs : List ServerCall) {x : Traffic}, J b [] x →
    (∀ a ∈ cs, a.server < x.routes.registry.allocated) → J b [] (cs.foldl (serverCall readonly) x)
  | [], _, h, _ => h
  | a :: cs, x, h, hcs => by
      have ha := hcs a List.mem_cons_self
      have hrest := fun b hb => hcs b (List.mem_cons_of_mem _ hb)
      cases a with
      | opened s =>
          refine R.serverCalls readonly cs ?_ hrest
          exact R.sameCopies h fun k => Server.copies_onServerConnected _
      | closed s => exact R.serverCalls readonly cs (R.serverClosed h ha) hrest

theorem Rules.moves (R : Rules env P J) : Moves env P J where
  inv := R.inv
  idle := R.idle
  last := R.last
  again := R.again
  retryLater := R.retryLater
  takeRetrying := R.takeRetrying
  selectServer := R.selectServer
  clearPeers := R.clearPeers
  store := R.store
  recvFrom := R.recvFrom
  pushToBufferSet h _ := R.sameCopies h fun _ => Server.copies_pushToBufferSet
  written h _ _ := R.sameCopies h fun _ => rfl
  reroute h hy readonly := R.serverCalls readonly _ (R.setRoutes h hy) hy.bound
  newClient := R.newClient
  destroyClient := R.destroyClient

/-- The calls of a client put the commands it has begun to wait for into the queues. -/
theorem OtherMoves.foldl_call (R : OtherMoves P J) :
    ∀ (cs : List ClientCall) {q : List CmdId} {x : Traffic}, J false (Session.selected cs) x →
    Session.Plays cs q (x.due c) → J false [] (cs.foldl (call c) x)
  | [], _, _, h, _ => h
  | a :: cs, q, x, h, hp => by
      rw [List.foldl_cons]
      cases a with
      | selectServer k =>
          refine R.foldl_call cs (q := q ++ [k]) (R.selectServer h) ?_
          rw [call, due_selectServer]
          exact hp
      | clearPeers =>
          have heq := Session.Plays.eq hp.2
          rw [hp.1, List.nil_append] at heq
          refine R.foldl_call cs (q := q) (R.clearPeers h fun k hk => heq ▸ hk) ?_
          rw [call, due_setPeers]
          exact hp.2
      | reactivate k => exact hp.elim
      | wakePeers => exact R.foldl_call cs h hp
      | pollRo => exact R.foldl_call cs h hp
      | pollRw => exact R.foldl_call cs h hp
      | deliverClient g => exact R.foldl_call cs h hp
      | effect e => exact R.foldl_call cs h hp
      | badDescriptor => exact R.foldl_call cs h hp

end Moves

end Traffic

end Cerberus
