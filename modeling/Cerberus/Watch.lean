import Cerberus.Interest

/-! # Pending writes have write interest

`Traffic.Alert` for whole events and for the pieces of `handle_events`.  There is one gap: a new slot
map gives commands to backends and polls them for write events at once, while a backend that has had
its own event before in the same call is still in `_conn_poll_type`, to be polled for read events
only (`Event.Clear`). -/

namespace Cerberus

namespace World

open Traffic (Alert)

variable {cfg : Config} {w w' : World} {A B : ClientId → Prop} {f f' : ServerId → Bool} {g o : ClientId → Bool}
  {E D : ServerId → CmdId → Prop} {s : ServerId} {c : ClientId}

/-! ### The slot map -/

theorem pollMod_none {d : Conn} {b : Bool} (h : (w.pollMod d b).2 = none) :
    (w.pollMod d b).1 = { w with poller := w.poller.register d (some b) } := by
  unfold pollMod at h ⊢
  split at h
  · cases h
  · rfl

/-- The backends that have got a command still have to be polled. -/
theorem alert_retryEach : ∀ (ks : List CmdId) {E : ServerId → CmdId → Prop} {w : World},
    Alert A f g E w.toTraffic w.poller →
    Alert A f g (fun s k => E s k ∨ s ∈ (retryEach ks w).2) (retryEach ks w).1.toTraffic (retryEach ks w).1.poller
  | [], _, _, h => h.settle fun _ _ _ _ he => Or.inr (Or.inr (Or.inl he))
  | k :: ks, E, w, h => by
      have hselect := fun s => (h.settle (D := fun t j => E t j ∨ t = s)
        fun _ _ _ _ he => Or.inr (Or.inr (Or.inl he))).selectServer k
      have hnone := h.selectServer k
      unfold retryEach
      split
      · rename_i heq
        rw [heq] at hnone
        exact alert_retryEach ks (hnone nofun)
      · rename_i s heq
        rw [heq] at hselect
        have hk := hselect s fun t ht => Or.inr (Or.inr (Option.some.inj ht).symm)
        refine (alert_retryEach ks hk).settle fun t _ j _ he => Or.inr (Or.inr ?_)
        rcases he with (he | rfl) | hmem
        · exact Or.inl he
        · exact Or.inr List.mem_insert_self
        · exact Or.inr (List.mem_insert_of_mem hmem)

theorem retryEach_poller : ∀ (ks : List CmdId) (w : World), (retryEach ks w).1.poller = w.poller
  | [], _ => rfl
  | k :: ks, w => by
      unfold retryEach
      split
      · exact retryEach_poller ks _
      · exact retryEach_poller ks _

theorem alert_pollServers : ∀ (ss : List ServerId) {w : World}, (pollServers ss w).2 = none → w.poller.Undecided →
    Alert A f g (fun s _ => s ∈ ss) w.toTraffic w.poller →
    Alert A f g (fun _ _ => False) (pollServers ss w).1.toTraffic (pollServers ss w).1.poller
  | [], _, _, _, h => h.settle fun _ _ _ _ hmem => absurd hmem List.not_mem_nil
  | s :: ss, w, hnone, hundecided, h => by
      obtain ⟨hs, heq⟩ := andThen_none hnone
      rw [pollServers, heq] at hnone ⊢
      rw [pollMod_none hs] at hnone ⊢
      refine alert_pollServers ss hnone hundecided ?_
      have hraised := h.raise (Poller.raises_addRw (hundecided s))
      refine hraised.settle fun t _ k _ hmem => ?_
      rcases List.mem_cons.mp hmem with rfl | hmem
      · exact Or.inl (Poller.addRw_wants (hundecided t))
      · exact Or.inr (Or.inr hmem)

theorem watchful_reroute (h : w.Watchful A) (hcalls : w.routes.registry.calls = []) {y : Routes} {cs : List ServerCall}
    (hy : w.routes.registry.Follows cs y.registry)
    (hopen : ∀ s, .opened s ∈ y.registry.calls → w.poller.connPollType.lookup (.server s) ≠ some false) :
    (w.reroute cfg y).Watchful A := by
  have heq : y.registry.calls = cs := by
    rw [hy.calls, hcalls]
    rfl
  unfold Watchful
  rw [show (w.reroute cfg y).clients = w.clients from (serverCalls_routes ..).2.1]
  refine alert_reroute h ?_ hopen
  rw [heq]
  exact hy.plays

theorem watchful_setSlotMap (hinv : w.Inv []) (h : w.Watchful A) (hundecided : w.poller.Undecided)
    {nodes : List RedisNode} {connects : ℕ → Connect} (hnone : (w.setSlotMap cfg nodes connects).2 = none) :
    (w.setSlotMap cfg nodes connects).1.Watchful A := by
  unfold setSlotMap at hnone ⊢
  split at hnone
  · cases hnone
  · rename_i y heq
    obtain ⟨cs, hcs⟩ := Routes.replaceMap_follows hinv.sound (congrArg Prod.snd heq)
    rw [heq] at hcs
    have hroute : (w.reroute cfg y).Watchful A := watchful_reroute h hinv.calls hcs fun s _ => hundecided s
    have hpolls : (w.reroute cfg y).poller.connPollType = w.poller.connPollType := (serverCalls_routes ..).2.2
    dsimp only at hnone ⊢
    generalize w.reroute cfg y = w₁ at *
    have htake : w₁.Calm { w₁ with slotMapExpired := false, retryingCommands := [] } :=
      ⟨⟨rfl, rfl, rfl, fun _ => rfl⟩, rfl, rfl, fun _ => rfl, rfl, rfl, rfl, rfl, rfl, rfl, rfl, rfl⟩
    have hcalm := htake.trans (calm_retryEach w₁.retryingCommands _)
    have hretry := alert_retryEach w₁.retryingCommands (w := { w₁ with slotMapExpired := false, retryingCommands := [] })
      (hroute.same w₁.routes [])
    have hpoller := retryEach_poller w₁.retryingCommands { w₁ with slotMapExpired := false, retryingCommands := [] }
    generalize retryEach w₁.retryingCommands { w₁ with slotMapExpired := false, retryingCommands := [] } = r at *
    refine .of_calm (hcalm.trans (calm_pollServers _ _)).traffic (alert_pollServers r.2 hnone (fun s => ?_) ?_)
    · rw [hpoller, hpolls]
      exact hundecided s
    · exact hretry.settle fun s _ k _ he => Or.inr (Or.inr (he.resolve_left id))

theorem closeAll_opened : ∀ (l : List ServerId) (r : Registry), .opened s ∈ (l.foldl (fun r s => r.closeConn s) r).calls →
    ServerCall.opened s ∈ r.calls
  | [], _, h => h
  | t :: l, r, h => by
      have ih := closeAll_opened l (r.closeConn t) h
      cases ht : r.closed t with
      | true =>
          rw [Registry.closeConn_of_closed ht] at ih
          exact ih
      | false =>
          rw [Registry.closeConn_of_open ht] at ih
          simpa using ih

theorem watchful_clusterDown (hinv : w.Inv []) (h : w.Watchful A) : (w.clusterDown cfg).Watchful A := by
  obtain ⟨cs, hcs⟩ := Routes.clear_follows (fun s => cfg.rank (.server s)) hinv.sound
  have hroute : (w.reroute cfg (w.routes.clear fun s => cfg.rank (.server s))).Watchful A := by
    refine watchful_reroute h hinv.calls hcs fun s hs => ?_
    have hmem := closeAll_opened _ w.routes.registry hs
    rw [hinv.calls] at hmem
    cases hmem
  unfold clusterDown
  dsimp only
  generalize w.reroute cfg (w.routes.clear fun s => cfg.rank (.server s)) = w₁ at *
  have htake : w₁.Calm { w₁ with retryingCommands := [] } := .of_traffic ⟨rfl, rfl, rfl, fun _ => rfl⟩
  refine .of_calm (w := w₁) (htake.trans (calm_foldl (fun w k => calm_respond k clusterDownRsp true w) _ _)).traffic ?_
  exact alert_foldl (fun k hk => alert_respond hk k clusterDownRsp true) _ (hroute.same w₁.routes [])

theorem watchful_outcome (hinv : w.Inv []) (h : w.Watchful A) {connects : ℕ → Connect} {o : Option Outcome}
    (hclear : ∀ nodes addrs, o = some (.install nodes addrs) → w.poller.Undecided)
    (hnone : (w.outcome cfg connects o).2 = none) : (w.outcome cfg connects o).1.Watchful A := by
  unfold outcome at hnone ⊢
  split at hnone
  · exact h
  · exact watchful_setSlotMap hinv h (hclear _ _ rfl) hnone
  · exact watchful_clusterDown hinv h

theorem watchful_register (h : w.Watchful A) {d : Conn} (hs : ∀ s, Conn.server s ≠ d) (hc : ∀ c, Conn.client c ≠ d)
    (b : Option Bool) : Watchful A { w with poller := w.poller.register d b } :=
  h.raise (Poller.raises_register (fun s _ => hs s) (fun c _ => hc c) b)

theorem watchful_notifyUpdated (hinv : w.Inv []) (h : w.Watchful A) {u : UpdaterId} {answer : Option (List RedisNode)}
    {connects : ℕ → Connect}
    (hclear : ∀ nodes addrs, (w.updaters.finish cfg.fullCov u answer).2 = some (.install nodes addrs) → w.poller.Undecided)
    (hnone : (w.notifyUpdated cfg u answer connects).2 = none) : (w.notifyUpdated cfg u answer connects).1.Watchful A := by
  have hdel : Watchful A { w with poller := w.poller.register (.updater u) none } :=
    watchful_register (d := .updater u) h nofun nofun none
  exact watchful_outcome (w := w.finished cfg u answer) hinv hdel hclear hnone

end World

/-! ### Clients -/

/-- A client handles the errors of its connection itself. -/
theorem Session.onEvents_ne_io (env : Env) (delivery : Option ConnThrow) (hup : Bool) (read : Option Input) (write : Bool)
    (s : Session) : (s.onEvents env delivery hup read write).2 ≠ some .io := by
  unfold Session.onEvents
  split
  · nofun
  · dsimp only
    split
    · nofun
    · nofun
    · rename_i hio
      exact hio

namespace Traffic

variable {x : Traffic} {k : CmdId} {c : ClientId}

theorem owner_selectServer (k j : CmdId) (x : Traffic) : (x.selectServer k).1.owner j = x.owner j := by
  have hmark : (x.markSelected k).owner j = x.owner j :=
    owner_setCmd (v := { x.objects.cmds k with selected := true }) rfl j
  unfold selectServer
  split
  · exact hmark
  · exact hmark

theorem call_output (c : ClientId) (x : Traffic) (a : ClientCall) (c' : ClientId) :
    ((x.call c a).clients c').outputBufferSet = (x.clients c').outputBufferSet := by
  cases a with
  | selectServer k => exact selectServer_output ..
  | reactivate k => exact selectServer_output ..
  | clearPeers =>
      show (Function.update x.clients c _ c').outputBufferSet = _
      by_cases heq : c' = c
      · rw [heq, Function.update_self]
      · rw [Function.update_of_ne heq]
  | _ => rfl

theorem calls_output (c : ClientId) : ∀ (cs : List ClientCall) (x : Traffic) (c' : ClientId),
    ((cs.foldl (call c) x).clients c').outputBufferSet = (x.clients c').outputBufferSet
  | [], _, _ => rfl
  | a :: cs, x, c' => (calls_output c cs _ c').trans (call_output c x a c')

/-- A command in a queue of a client that is closed. -/
theorem Inv.leaving {hand : List CmdId} (h : x.Inv hand) {s : ServerId} (hk : k ∈ (x.servers s).commands)
    (hclosed : (x.clients (x.owner k)).closed = true) : x.Leaving k := by
  have hout := h.outstanding_of_copies (Server.copies_pos_iff.mpr (Or.inl hk))
  obtain ⟨hlive, hdue⟩ := h.outstanding_owner hout
  obtain ⟨-, hkc, hkg, -⟩ := h.of_due hlive hdue
  exact ⟨hkc, hkg, h.live _ hlive, hclosed⟩

end Traffic

namespace World

open Traffic (Alert)

variable {cfg : Config} {w w' : World} {A B : ClientId → Prop} {f f' : ServerId → Bool} {g o : ClientId → Bool}
  {E D : ServerId → CmdId → Prop} {s : ServerId} {c : ClientId}

theorem deliverClient_toTraffic (cfg : Config) (conv : Conversion) (c : ClientId) (gr : GroupId) (w : World) :
    (w.deliverClient cfg conv c gr).toTraffic = w.toTraffic :=
  clientCall_toTraffic conv c w (.deliverClient gr)

theorem raises_deliverClient (hg : g c = true) (conv : Conversion) (gr : GroupId) :
    Poller.Raises f g w.poller (w.deliverClient cfg conv c gr).poller := by
  have hdel : Poller.Raises f g w.poller (w.poller.del (.client c)) := by
    refine Poller.raises_register (fun _ _ => by nofun) (fun c' hc' heq => ?_) none
    rw [Conn.client.inj heq, hg] at hc'
    cases hc'
  have hlong : ∀ (p : Poller) (l : LongId), Poller.Raises f g p ((p.addRo (.longServer l)).addRo (.longClient l)) :=
    fun p l => (Poller.raises_register (fun _ _ => by nofun) (fun _ _ => by nofun) _).trans
      (Poller.raises_register (fun _ _ => by nofun) (fun _ _ => by nofun) _)
  unfold deliverClient
  dsimp only
  split
  · exact hdel
  · split
    · exact hdel.trans (hlong _ _)
    · exact hdel
    · exact hdel

/-- While a client carries out its calls, the commands it has given out wait for `wakePeers`. -/
theorem alert_clientCalls (conv : Conversion) (hg : g c = true) : ∀ (cs : List ClientCall) {b : Bool} {q : List CmdId}
    {w : World}, w.Inv (Session.selected cs) → c ∈ w.liveClients → Session.Plays cs q (w.due c) →
    Alert A f g (fun _ k => b = true ∧ w.owner k = c) w.toTraffic w.poller →
    Alert A f g (fun _ k => Session.owing b cs = true ∧ (cs.foldl (clientCall cfg conv c) w).owner k = c)
      (cs.foldl (clientCall cfg conv c) w).toTraffic (cs.foldl (clientCall cfg conv c) w).poller
  | [], _, _, _, _, _, _, h => h
  | a :: cs, b, q, w, hinv, hc, hplays, h => by
      have hclient : ∀ c', g c' = false → Conn.client c' ≠ Conn.client c := by
        intro c' hc' heq
        rw [Conn.client.inj heq, hg] at hc'
        cases hc'
      rw [List.foldl_cons]
      cases a with
      | selectServer k =>
          have hdue : k ∈ w.due c := by
            rw [Session.Plays.eq hplays]
            exact List.mem_append_right _ List.mem_cons_self
          have howner : w.owner k = c := (hinv.of_due hc hdue).1
          have hselect := (h.settle (D := fun _ j => true = true ∧ w.owner j = c)
            fun _ _ _ _ he => Or.inr (Or.inr ⟨rfl, he.2⟩)).selectServer k fun _ _ => Or.inr ⟨rfl, howner⟩
          refine alert_clientCalls conv hg cs (b := true) (q := q ++ [k]) (w := w.clientCall cfg conv c (.selectServer k))
            hinv.selectServer ?_ ?_ ?_
          · exact (Traffic.calm_selectServer k w.toTraffic).liveClients.symm ▸ hc
          · rw [show (w.clientCall cfg conv c (.selectServer k)).due c = w.due c from Traffic.due_selectServer k c]
            exact hplays
          · refine hselect.settle fun _ _ j _ he => Or.inr (Or.inr ⟨rfl, ?_⟩)
            exact (Traffic.owner_selectServer k j w.toTraffic).trans he.2
      | clearPeers =>
          have heq := Session.Plays.eq hplays.2
          rw [hplays.1, List.nil_append] at heq
          refine alert_clientCalls conv hg cs (b := b) (q := q) (w := w.clientCall cfg conv c .clearPeers)
            (hinv.clearPeers fun k hk => heq ▸ hk) hc ?_ ?_
          · rw [show (w.clientCall cfg conv c .clearPeers).due c = w.due c from Traffic.due_setPeers c c []]
            exact hplays.2
          · have hcalm := Traffic.calm_call c w.toTraffic .clearPeers
            refine h.move (.of_calm hcalm (.refl _) fun _ _ => rfl) (fun _ _ => rfl) (fun _ _ _ => Or.inl)
              (fun c' _ ho => Or.inl ?_) fun c' hc' hclosed => ?_
            · rw [← Traffic.call_output c w.toTraffic .clearPeers]
              exact ho
            · exact h.parting c' hc' ((hcalm.closed c').symm.trans hclosed)
      | reactivate k => exact hplays.elim
      | wakePeers =>
          refine alert_clientCalls conv hg cs (b := false) (w := w.clientCall cfg conv c .wakePeers) hinv hc hplays ?_
          refine (h.raise (Poller.raises_wakePeers (w.clients c).peers w.poller)).settle fun t _ k hk he => Or.inl ?_
          refine Poller.wakePeers_wants _ _ ?_
          rw [← he.2]
          exact hinv.peers t k (Server.copies_pos_iff.mpr (Or.inl hk))
      | pollRo =>
          exact alert_clientCalls conv hg cs (w := w.clientCall cfg conv c .pollRo) hinv hc hplays
            (h.raise (Poller.raises_setConnPollRo (fun _ _ => by nofun) hclient))
      | pollRw =>
          exact alert_clientCalls conv hg cs (w := w.clientCall cfg conv c .pollRw) hinv hc hplays
            (h.raise (Poller.raises_setConnPollRw _))
      | deliverClient gr =>
          have htraffic := deliverClient_toTraffic cfg conv c gr w
          refine alert_clientCalls conv hg cs (q := q) (w := w.deliverClient cfg conv c gr) ?_ ?_ ?_ ?_
          · rw [htraffic]
            exact hinv
          · rw [htraffic]
            exact hc
          · rw [htraffic]
            exact hplays
          · rw [htraffic]
            exact h.raise (raises_deliverClient hg conv gr)
      | effect e =>
          cases e with
          | updateSlotMap =>
              exact alert_clientCalls conv hg cs (w := { w with slotMapExpired := true }) hinv hc hplays h
          | setRemotes l => exact alert_clientCalls conv hg cs (w := w) hinv hc hplays h
      | badDescriptor =>
          exact alert_clientCalls conv hg cs (w := { w with badIo := w.badIo ++ [.client c] }) hinv hc hplays h

/-- What a client does before its calls are carried out. -/
theorem alert_store (h : w.Watchful A) {script : List WriteAnswer} {t : Session}
    (hledger : t.Ledger (w.session c script)) (hshut : (w.clients c).closed = true → t.client.closed = true) :
    Alert (fun c' => A c' ∨ c' = c) w.routes.registry.closed (Function.update (fun c' => (w.clients c').closed) c true)
      (fun _ _ => False) (w.toTraffic.store t) w.poller := by
  have hself : t.self = c := hledger.self
  have hother : ∀ c' ≠ c, (w.toTraffic.store t).clients c' = w.clients c' := by
    intro c' hne
    show Function.update w.clients t.self t.client c' = _
    rw [hself, Function.update_of_ne hne]
  have hmine : (w.toTraffic.store t).clients c = t.client := by
    show Function.update w.clients t.self t.client c = _
    rw [hself, Function.update_self]
  have hgrows : Objects.Grows c w.objects t.objects := hself ▸ hledger.grows
  have hkeeps : w.toTraffic.Keeps (w.toTraffic.store t) := by
    refine ⟨hgrows.cmdCount, hgrows.groupCount, le_rfl, fun k hk => ?_, hgrows.client, fun c' _ hc' => ?_⟩
    · exact congrArg Cmd.group (hgrows.cmds k hk)
    · by_cases heq : c' = c
      · rw [heq] at hc' ⊢
        rw [hmine]
        exact hshut hc'
      · rw [hother c' heq]
        exact hc'
  have hspared := (h.allow (B := fun c' => A c' ∨ c' = c) fun _ _ _ => Or.inl).mono (fun _ => id)
    (o := Function.update (fun c' => (w.clients c').closed) c true) fun c' hc' => (update_true_of_false hc').2
  refine hspared.move hkeeps (fun _ _ => rfl) (fun _ _ _ => Or.inl) (fun c' hc' ho => Or.inl ?_) fun c' hc' hclosed => ?_
  · rw [hother c' (update_true_of_false hc').1] at ho
    exact ho
  · by_cases heq : c' = c
    · exact Or.inr heq
    · rw [hother c' heq] at hclosed
      exact Or.inl (h.parting c' hc' hclosed)

/-- The calls of a client are carried out.  If it is still open, its peers have been woken, and the
last call was for the client itself. -/
theorem watchful_settle (hinv : w.Inv []) (h : w.Watchful A) (hc : c ∈ w.liveClients) {conv : Conversion}
    {script : List WriteAnswer} {t : Session} (hledger : t.Ledger (w.session c script))
    (hshut : (w.clients c).closed = true → t.client.closed = true)
    (howing : t.client.closed = false → Session.owing false t.calls = false)
    (hpolls : t.client.closed = false →
      ∃ cs, t.calls = cs ++ [if t.client.outputBufferSet.empty then .pollRo else .pollRw])
    (hend : Traffic.Inv [] (w.settle cfg conv t).toTraffic) : (w.settle cfg conv t).Watchful fun c' => A c' ∨ c' = c := by
  have hself : t.self = c := hledger.self
  have hmine : (w.toTraffic.store t).clients c = t.client := by
    show Function.update w.clients t.self t.client c = _
    rw [hself, Function.update_self]
  have hplays : Session.Plays t.calls (w.due c) ((w.toTraffic.store t).due c) := by
    show Session.Plays t.calls _ (t.objects.due ((w.toTraffic.store t).clients c).awaitingGroups)
    rw [hmine]
    exact hledger.plays
  have htraffic : (t.calls.foldl (clientCall cfg conv c) { w with toTraffic := w.toTraffic.store t }).toTraffic = _ :=
    foldl_clientCall_toTraffic conv c t.calls _
  have hcalm := Traffic.calm_calls c t.calls (w.toTraffic.store t)
  have houtput := Traffic.calls_output c t.calls (w.toTraffic.store t) c
  rw [← htraffic] at hcalm houtput
  have hcalls : Alert (fun c' => A c' ∨ c' = c) w.routes.registry.closed
      (Function.update (fun c' => (w.clients c').closed) c true) _
      (t.calls.foldl (clientCall cfg conv c) { w with toTraffic := w.toTraffic.store t }).toTraffic _ :=
    alert_clientCalls conv (Function.update_self ..) t.calls (b := false) (hinv.store hc hledger) hc hplays
      ((alert_store h hledger hshut).settle nofun)
  have hlast : t.client.closed = false → t.client.outputBufferSet.empty = false →
      (t.calls.foldl (clientCall cfg conv c) { w with toTraffic := w.toTraffic.store t }).poller.wants (.client c) = true := by
    intro hopen hout
    obtain ⟨cs, hcs⟩ := hpolls hopen
    rw [hcs, hout, List.foldl_append]
    exact Poller.setConnPollRw_wants_self
  unfold settle at hend ⊢
  dsimp only at hend ⊢
  rw [hself] at hend ⊢
  generalize t.calls.foldl (clientCall cfg conv c) { w with toTraffic := w.toTraffic.store t } = w₂ at *
  have hclosed : ∀ c' ≠ c, (w₂.clients c').closed = (w.clients c').closed := by
    intro c' hne
    rw [hcalm.closed]
    show (Function.update w.clients t.self t.client c').closed = _
    rw [hself, Function.update_of_ne hne]
  have hme : (w₂.clients c).closed = t.client.closed := by
    rw [hcalm.closed, hmine]
  have hroutes : w₂.routes = w.routes := hcalm.routes
  have hg : ∀ c' ≠ c, (w₂.clients c').closed = false → Function.update (fun c' => (w.clients c').closed) c true c' = false := by
    intro c' hne hc'
    rw [Function.update_of_ne hne, ← hclosed c' hne]
    exact hc'
  rw [← hroutes] at hcalls
  cases hopen : t.client.closed with
  | true =>
      rw [hopen] at hme hend
      have hdel := hcalls.raise (Poller.raises_register (c := .client c) (fun _ _ => by nofun) (fun c' hc' heq => by
        exact (update_true_of_false hc').1 (Conn.client.inj heq)) none)
      refine (hdel.settle fun s _ k hk he => Or.inr (Or.inl ?_)).addClient hg fun hopened => ?_
      · exact Traffic.Inv.leaving hend hk (he.2 ▸ hme)
      · exact nomatch hme.symm.trans hopened
  | false =>
      refine (hcalls.settle fun s _ k _ he => ?_).addClient hg fun _ ho => hlast hopen ?_
      · exact nomatch (howing hopen).symm.trans he.1
      · rw [houtput, hmine] at ho
        exact ho

theorem watchful_clientEvent (hinv : w.Inv []) (h : w.Watchful A) (hc : c ∈ w.liveClients) {hup : Bool}
    {read : Option Input} {write : Option (List WriteAnswer)} {conv : Conversion}
    (hnone : (w.clientEvent cfg c hup read write conv).2 = none) :
    (w.clientEvent cfg c hup read write conv).1.Watchful fun c' => A c' ∨ c' = c := by
  have hend : Traffic.Inv [] (w.clientEvent cfg c hup read write conv).1.toTraffic :=
    inv_clientEvent (Traffic.rules_inv cfg.env fun _ _ => True).moves hinv hc hup read write conv
  have hstart := hinv.ledger hc (write.getD [])
  unfold clientEvent at hnone hend ⊢
  dsimp only at hnone hend ⊢
  generalize w.thrown conv _ = e at hnone hend ⊢
  obtain ⟨hsettles, hpolls⟩ := hstart.onEvents_settles e cfg.env hup read write.isSome rfl
  refine watchful_settle hinv h hc (hstart.onEvents cfg.env e hup read write.isSome) ?_ (hsettles hnone) (hpolls hnone) hend
  exact Session.onEvents_shut (s := w.session c (write.getD [])) cfg.env hup read write.isSome

/-! ### Connections that come and go -/

/-- A client begins with nothing to write. -/
theorem Watchful.newClient (h : w.Watchful A) {p : Poller} (hp : Poller.Raises w.routes.registry.closed
    (fun c => (w.clients c).closed) w.poller p) (d : Descriptors) (n : ℤ) (b : Bool) (ls : Longs) : Watchful A { w with
      toTraffic := w.toTraffic.newClient
      longs := ls
      poller := p.addRo (.client w.clientCount)
      descriptors := d
      clientsCount := n
      slotMapExpired := b } := by
  have hraised := h.raise hp
  have hserver : ∀ s : ServerId, (p.addRo (.client w.clientCount)).wants (.server s) = p.wants (.server s) :=
    fun s => Poller.register_wants_of_ne (by nofun) _
  have hnew : w.toTraffic.newClient.clients w.clientCount = .new := Function.update_self ..
  have hold : ∀ c ≠ w.clientCount, w.toTraffic.newClient.clients c = w.clients c :=
    fun c hne => Function.update_of_ne hne ..
  have hkeeps : w.toTraffic.Keeps w.toTraffic.newClient := by
    refine ⟨le_rfl, le_rfl, Nat.le_succ _, fun _ _ => rfl, fun _ _ => rfl, fun c hc hclosed => ?_⟩
    rw [hold c (Nat.ne_of_lt hc)]
    exact hclosed
  refine ⟨hraised.keyed, fun s hs ho => ?_, fun s hs k hk => ?_, fun c hc ho => ?_, fun c hc hclosed => ?_⟩
  · exact (hserver s).trans (hraised.output s hs ho)
  · rcases hraised.commands s hs k hk with hw | hl | he
    · exact Or.inl ((hserver s).trans hw)
    · exact Or.inr (Or.inl (hl.keeps hkeeps))
    · exact he.elim
  · have hne : c ≠ w.clientCount := by
      rintro rfl
      rw [hnew] at ho
      cases ho
    rw [hold c hne] at hc ho
    refine (Poller.register_wants_of_ne (fun heq => hne (Conn.client.inj heq)) _).trans ?_
    exact hraised.clients c hc ho
  · have hne : c ≠ w.clientCount := by
      rintro rfl
      rw [hnew] at hclosed
      cases hclosed
    rw [hold c hne] at hclosed
    refine h.parting c ?_ hclosed
    rcases List.mem_append.mp hc with hc | hc
    · exact hc
    · exact absurd (List.mem_singleton.mp hc) hne

theorem watchful_newClients : ∀ (n : ℕ) {w : World}, w.Watchful A → (w.newClients cfg n).Watchful A
  | 0, _, h => h
  | n + 1, _, h => watchful_newClients n (h.newClient (.refl _) _ _ _ _)

theorem watchful_acceptEvent (h : w.Watchful A) (n : ℕ) (ended : AcceptEnd) : (w.acceptEvent cfg n ended).1.Watchful A := by
  have hnew : (w.newClients cfg n).Watchful A := watchful_newClients n h
  unfold acceptEvent
  split
  · exact hnew
  · exact watchful_register (d := .acceptor) hnew nofun nofun none
  · exact hnew

/-- Long connections have no commands. -/
theorem longRules_watchful (A : ClientId → Prop) : LongRules (fun _ => True) (Watchful A) where
  closeLong {_ l} h _ := watchful_register (d := .longClient l) h nofun nofun none
  closeLongServer {_ l} h _ := watchful_register (d := .longServer l) h nofun nofun none
  restored {_ l} h _ _ b := 
    h.newClient (Poller.raises_register (c := .longClient l) (fun _ _ => by nofun) (fun _ _ => by nofun) none) _ _ _ _
  buffer h _ _ := h
  badLong h _ _ := h

theorem watchful_newUpdaters : ∀ (rs : List (Address × Connect)) {w : World}, w.Watchful A →
    (newUpdaters cfg rs w).1.Watchful A
  | [], _, h => h
  | (_, .opened) :: rs, w, h => watchful_newUpdaters rs (watchful_register (d := .updater w.updaters.count) h nofun nofun _)
  | (_, .socketError) :: _, _, h => h
  | (_, .refused) :: rs, _, h => watchful_newUpdaters rs h
  | (_, .unknownHost) :: rs, _, h => watchful_newUpdaters rs h

end World

/-! ### Events -/

/-- The answer with which an updater finishes, if it does. -/
def Reply.answer : Reply → Option (Option (List RedisNode))
  | .hup => some none
  | .sent => none
  | .more => none
  | .bad => some none
  | .nodes ns => some (some ns)
  | .threw _ => some none

/-- The event does not make the proxy install a slot map while a backend is to be polled for read
events only. -/
def Event.Clear (cfg : Config) (w : World) : Event → Prop
  | .updater u reply _ => ∀ answer, reply.answer = some answer → ∀ nodes addrs,
      (w.updaters.finish cfg.fullCov u answer).2 = some (.install nodes addrs) → w.poller.Undecided
  | _ => True

namespace World

variable {cfg : Config} {w w' : World} {A : ClientId → Prop}

theorem pollServers_ne_io : ∀ (ss : List ServerId) (w : World), (pollServers ss w).2 ≠ some .io
  | [], _ => nofun
  | s :: ss, w => by
      refine andThen_cases (P := fun r => r.2 ≠ some .io) (fun _ => pollServers_ne_io ss _) fun _ => ?_
      unfold pollMod
      split
      · nofun
      · nofun

theorem outcome_ne_io (connects : ℕ → Connect) (o : Option Outcome) (w : World) :
    (w.outcome cfg connects o).2 ≠ some .io := by
  have hreplace : ∀ nodes, (w.routes.replaceMap (fun s => cfg.rank (.server s)) cfg.mode nodes connects).2 ≠ some .io := by
    intro nodes
    unfold Routes.replaceMap
    split
    · split
      · nofun
      · nofun
    · nofun
  unfold outcome
  split
  · nofun
  · rename_i nodes _
    have hne := hreplace nodes
    unfold setSlotMap
    split
    · rename_i heq
      rw [heq] at hne
      exact hne
    · exact pollServers_ne_io _ _
  · nofun

theorem watchful_updaterEvent (hinv : w.Inv []) (h : w.Watchful A) {u : UpdaterId} {reply : Reply} {connects : ℕ → Connect}
    (hclear : Event.Clear cfg w (.updater u reply connects)) :
    ((w.updaterEvent cfg u reply connects).2 = none → (w.updaterEvent cfg u reply connects).1.Watchful A) ∧
    ((w.updaterEvent cfg u reply connects).2 = some .io → (w.updaterEvent cfg u reply connects).1 = w ∧
      reply.answer = some none) := by
  have hpoll : (w.pollMod (.updater u) false).1.Watchful A ∧ (w.pollMod (.updater u) false).2 ≠ some .io := by
    unfold pollMod
    split
    · exact ⟨h, nofun⟩
    · exact ⟨watchful_register (d := .updater u) h nofun nofun _, nofun⟩
  have hfinish : ∀ answer, reply.answer = some answer →
      ((w.notifyUpdated cfg u answer connects).2 = none → (w.notifyUpdated cfg u answer connects).1.Watchful A) ∧
      ((w.notifyUpdated cfg u answer connects).2 = some .io → (w.notifyUpdated cfg u answer connects).1 = w ∧
        reply.answer = some none) := by
    intro answer hanswer
    exact ⟨watchful_notifyUpdated hinv h (hclear answer hanswer), fun hio => absurd hio (outcome_ne_io _ _ _)⟩
  cases reply with
  | hup => exact hfinish none rfl
  | bad => exact hfinish none rfl
  | nodes ns => exact hfinish (some ns) rfl
  | sent => exact ⟨fun _ => hpoll.1, fun hio => absurd hio hpoll.2⟩
  | more => exact ⟨fun _ => hpoll.1, fun hio => absurd hio hpoll.2⟩
  | threw e => exact ⟨nofun, fun _ => ⟨rfl, rfl⟩⟩

/-- An event, and the call of `on_error` after an error of the connection. -/
theorem watchful_onEvents (cfg : Config) (hinv : w.Inv []) (h : w.Watchful A) {e : Event} (he : w.Present e.conn)
    (hA : ∀ c, e.conn = .client c → A c) (hclear : e.Clear cfg w) :
    ((w.onEvents cfg e).2 = none → (w.onEvents cfg e).1.Watchful A) ∧
    ((w.onEvents cfg e).2 = some .io → ((w.onEvents cfg e).1.onError cfg e).2 = none →
      ((w.onEvents cfg e).1.onError cfg e).1.Watchful A) := by
  have hend : Traffic.Inv [] (w.onEvents cfg e).1.toTraffic :=
    inv_onEvents (Traffic.rules_inv cfg.env _).moves hinv e he (w.hears_true _)
  cases e with
  | accept n ended => exact ⟨fun _ => watchful_acceptEvent h n ended, fun _ _ => watchful_acceptEvent h n ended⟩
  | server s hup read write =>
      obtain ⟨hnone, hthrew⟩ := watchful_serverEvent cfg hinv.calls h s hup read write
      refine ⟨hnone, fun hio _ => (hthrew ?_).closeServer cfg hend.calls⟩
      exact fun hnone => nomatch hnone.symm.trans hio
  | client c hup read write conv =>
      refine ⟨fun hnone => ?_, fun hio => absurd hio (Session.onEvents_ne_io _ _ _ _ _ _)⟩
      refine (watchful_clientEvent hinv h he hnone).allow fun c' _ _ hc' => ?_
      rcases hc' with hc' | rfl
      · exact hc'
      · exact hA c' rfl
  | updater u reply connects =>
      obtain ⟨hnone, hio⟩ := watchful_updaterEvent hinv h hclear
      refine ⟨hnone, fun hthrew herror => ?_⟩
      obtain ⟨hsame, hanswer⟩ := hio hthrew
      rw [show (w.onEvents cfg (.updater u reply connects)).1 = w from hsame] at herror ⊢
      exact watchful_notifyUpdated hinv h (hclear none hanswer) herror
  | longClient l hup read write =>
      have hlong := kept_longClientEvent (longRules_watchful A) h trivial (l := l) hup read write
      exact ⟨fun _ => hlong, fun _ _ => (longRules_watchful A).closeLong hlong trivial⟩
  | longServer l hup read write first second =>
      have hlong := kept_longServerEvent (longRules_watchful A).half h trivial (l := l) hup read write first
      exact ⟨fun _ => hlong, fun _ _ => kept_longServerError (longRules_watchful A).half hlong trivial second⟩

/-- The set of connections that have had an event is not changed by the events. -/
theorem rules_activeConns (cfg : Config) (a : List Conn) :
    Rules cfg (fun _ => True) (fun _ => True) fun w => w.activeConns = a where
  calm h hcalm := hcalm.activeConns.trans h
  routes h _ := h
  serverCall h b := by cases b <;> exact h
  newClient h := h
  store h _ := h
  deliver h _ c g := by
    unfold deliverClient
    dsimp only
    split
    · exact h
    · split <;> exact h
  closeClient h _ := h
  badClient h _ := h
  finished h _ _ := h
  failed h := h
  newUpdater h := h
  tryUpdater h := h
  acceptor h _ _ := h
  closeLong h _ := h
  closeLongServer h _ := h
  restored h _ _ _ := h
  buffer h _ _ := h
  badLong h _ _ := h

/-- Between the events: a client that is closed has had an event. -/
def Attentive (w : World) : Prop := w.Watchful fun c => .client c ∈ w.activeConns

theorem attentive_event (hinv : w.Inv []) (h : w.Attentive) {e : Event} (hclear : e.Clear cfg w)
    (hnone : (w.event cfg e).2 = none) : (w.event cfg e).1.Attentive := by
  unfold event at hnone ⊢
  by_cases hpresent : w.Present e.conn
  · rw [if_neg (not_not.mpr hpresent)] at hnone ⊢
    by_cases hskip : e.conn ∈ w.closedConns
    · rw [if_pos hskip]
      exact h
    · rw [if_neg hskip] at hnone ⊢
      have hactive : Watchful (fun c => .client c ∈ w.activeConns.insert e.conn)
          { w with activeConns := w.activeConns.insert e.conn } :=
        h.allow fun _ _ _ hc => List.mem_insert_of_mem hc
      have hmeets : e.Meets (fun _ => True) (fun _ => True) := ⟨fun _ _ => trivial, fun _ _ _ _ _ _ => trivial⟩
      have R := rules_activeConns cfg (w.activeConns.insert e.conn)
      have hsame := kept_onEvents R (w := { w with activeConns := w.activeConns.insert e.conn }) rfl hmeets
      obtain ⟨hfine, herror⟩ := watchful_onEvents cfg (w := { w with activeConns := w.activeConns.insert e.conn })
        hinv hactive (e := e) (by cases e <;> exact hpresent) (fun c hc => hc ▸ List.mem_insert_self)
        (by cases e <;> exact hclear)
      dsimp only at hnone ⊢
      generalize onEvents cfg { w with activeConns := w.activeConns.insert e.conn } e = r at *
      have hagain := kept_onError R hsame hmeets
      unfold Attentive
      split at hnone
      · rename_i hio
        obtain ⟨hdone, heq⟩ := andThen_none hnone
        rw [heq]
        dsimp only
        rw [hagain]
        exact herror hio hdone
      · rw [hsame]
        exact hfine hnone
  · rw [if_pos hpresent] at hnone
    cases hnone

end World

end Cerberus
