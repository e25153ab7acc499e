import Cerberus.Framing
import Cerberus.Lanes
import Cerberus.Watch

/-! # What the clients are sent

Many clients at a time: responses come from any backend, in any order, and a response to a command
of one client runs code of that client within the event of a backend.  Nothing but the replies to
its own requests goes to the socket of a client, in the order of these requests
(`World.Observed.sent_in_order`), so that the messages it reads there are these replies
(`World.Observed.read_in_order`). -/

namespace Cerberus

open Frames

/-! ### All clients -/

namespace Traffic

/-- What the sockets of the clients have taken. -/
structure Wired (wire : ClientId → Bytes) (x : Traffic) : Prop where
  fresh : ∀ c, x.clientCount ≤ c → wire c = []
  sent : ∀ c, Objects.Sent c x.objects (wire c)
  lanes : ∀ c ∈ x.liveClients, (x.clients c).closed = false →
    ∃ flushed, Lane c x.objects (x.clients c) (wire c) flushed

variable {wire wire' : ClientId → Bytes} {x : Traffic} {c : ClientId} {k : CmdId} {hand : List CmdId}

/-- One client, and the objects, have changed; the groups of the others are the same. -/
theorem Wired.advance (h : x.Wired wire) (hc : c < x.clientCount) {o : Objects} {v : Client}
    (hwire : ∀ c', c' ≠ c → wire' c' = wire c')
    (hreq : ∀ c', c' ≠ c → o.requestsOf c' = x.objects.requestsOf c')
    (hsame : ∀ g < x.objects.groupCount, (x.objects.groups g).client ≠ c → Objects.SameOn x.objects o g)
    (hmine : ∀ c' ∈ x.liveClients, ∀ g ∈ (x.clients c').awaitingGroups,
      g < x.objects.groupCount ∧ (x.objects.groups g).client = c')
    (hsent : Objects.Sent c o (wire' c))
    (hlane : c ∈ x.liveClients → v.closed = false → ∃ flushed, Lane c o v (wire' c) flushed) :
    Wired wire' { x with objects := o, clients := Function.update x.clients c v } := by
  refine ⟨fun c' hc' => ?_, fun c' => ?_, fun c' hlive hopen => ?_⟩
  · rw [hwire c' fun heq => absurd hc' (Nat.not_le.mpr (heq ▸ hc))]
    exact h.fresh c' hc'
  · by_cases heq : c' = c
    · rw [heq]
      exact hsent
    · rw [hwire c' heq]
      refine (h.sent c').keeps (Objects.keeps_of_same (hreq c' heq) fun g hg _ => ?_)
      obtain ⟨hlt, hclient⟩ := Objects.mem_requestsOf.mp hg
      exact hsame g hlt (hclient.symm ▸ heq)
  · dsimp only at hlive hopen ⊢
    by_cases heq : c' = c
    · subst heq
      rw [Function.update_self] at hopen ⊢
      exact hlane hlive hopen
    · rw [Function.update_of_ne heq] at hopen ⊢
      obtain ⟨flushed, hl⟩ := h.lanes c' hlive hopen
      rw [hwire c' heq]
      refine ⟨flushed, hl.objects (hreq c' heq) (fun g hg => ?_) fun g hg => ?_⟩
      · obtain ⟨hlt, hclient⟩ := hmine c' hlive g hg
        exact (hsame g hlt (hclient.symm ▸ heq)).short
      · obtain ⟨hlt, hclient⟩ := hl.mine hg
        exact hsame g hlt (hclient.symm ▸ heq)

theorem Inv.mine (h : x.Inv hand) : ∀ c ∈ x.liveClients, ∀ g ∈ (x.clients c).awaitingGroups,
    g < x.objects.groupCount ∧ (x.objects.groups g).client = c :=
  fun c hc g hg => (h.tidy c hc).mine g (List.mem_append_left _ hg)

/-- The group of a command that a client waits for has no reply yet. -/
theorem Inv.not_done (h : x.Inv hand) (hk : x.Outstanding k) : ¬x.objects.Done (x.objects.cmds k).group := by
  obtain ⟨hlive, hdue⟩ := h.outstanding_owner hk
  obtain ⟨-, hlt, hg, hresp⟩ := h.of_due hlive hdue
  have hok := h.built.ok _ hg
  have hmem := (h.built.home k hlt).2
  rintro ⟨-, hnot⟩
  refine hnot ⟨?_, ?_⟩
  · by_contra hwait
    rw [hok.commands_of_not_wait (by simpa using hwait)] at hmem
    cases hmem
  · by_contra hcomplete
    rw [hok.responsed (by simpa using hcomplete) k hmem] at hresp
    cases hresp

/-- A command that a client waits for changes. -/
theorem Wired.setCmd (h : x.Wired wire) (hinv : x.Inv hand) (hk : x.Outstanding k) (v : Cmd) :
    Wired wire { x with objects := x.objects.setCmd k v } := by
  have hsame : ∀ g < x.objects.groupCount, g ≠ (x.objects.cmds k).group →
      Objects.SameOn x.objects (x.objects.setCmd k v) g := by
    refine fun g hg hne => ⟨rfl, fun j hj => Objects.setCmd_of_ne _ ?_ _⟩
    rintro rfl
    exact hne (hinv.built.group_of_mem hg hj).1.symm
  have hdone : ∀ g < x.objects.groupCount, x.objects.Done g → Objects.SameOn x.objects (x.objects.setCmd k v) g :=
    fun g hg hd => hsame g hg fun heq => hinv.not_done hk (heq ▸ hd)
  refine ⟨h.fresh, fun c => ?_, fun c hlive hopen => ?_⟩
  · exact (h.sent c).keeps (Objects.keeps_of_same rfl fun g hg hd => hdone g (Objects.mem_requestsOf.mp hg).1 hd)
  · obtain ⟨flushed, hl⟩ := h.lanes c hlive hopen
    exact ⟨flushed, hl.objects rfl (fun _ _ => rfl) fun g hg => hdone g (hl.mine hg).1 (hl.done g hg)⟩

theorem Wired.setPeers (h : x.Wired wire) (c : ClientId) (ps : List ServerId) :
    (x.setClient c { x.clients c with peers := ps }).Wired wire := by
  refine ⟨h.fresh, h.sent, fun c' hlive hopen => ?_⟩
  show ∃ flushed, Lane c' x.objects (Function.update x.clients c _ c') (wire c') flushed
  change (Function.update x.clients c _ c').closed = false at hopen
  by_cases heq : c' = c
  · subst heq
    rw [Function.update_self] at hopen ⊢
    obtain ⟨flushed, hl⟩ := h.lanes c' hlive hopen
    exact ⟨flushed, hl.client rfl rfl rfl rfl⟩
  · rw [Function.update_of_ne heq] at hopen ⊢
    exact h.lanes c' hlive hopen

theorem Wired.selectServer (h : x.Wired wire) (hinv : x.Inv hand) (hk : x.Outstanding k) :
    (x.selectServer k).1.Wired wire := by
  have hmark : (x.markSelected k).Wired wire := h.setCmd hinv hk _
  unfold Traffic.selectServer
  split
  · exact ⟨hmark.fresh, hmark.sent, hmark.lanes⟩
  · rename_i s _
    have hpush := hmark.setPeers ((x.markSelected k).owner k)
      (((x.markSelected k).clients ((x.markSelected k).owner k)).peers.insert s)
    exact ⟨hpush.fresh, hpush.sent, hpush.lanes⟩

/-- A command gets its last response; if its group has all of them, the replies that are ready go to
the output set. -/
theorem Wired.last (h : x.Wired wire) (hinv : x.Inv (k :: hand)) {rsp : Bytes} {error : Bool}
    (hlast : ((x.objects.cmds k).onRemoteResponsed rsp error).2 = true) :
    Wired wire { x.store ((x.session (x.owner k) []).onRemoteResponsed k rsp error) with
      responsed := x.responsed ++ [k] } := by
  have hout := hinv.outstanding_of_hand List.mem_cons_self
  obtain ⟨hlive, hk⟩ := hinv.outstanding_owner hout
  have hnot := hinv.not_done hout
  obtain ⟨hgroup, -, -⟩ := (x.objects.cmds k).onRemoteResponsed_same rsp error
  have hclosed := Session.onRemoteResponsed_closed k rsp error (x.session (x.owner k) [])
  have hself := Session.onRemoteResponsed_self k rsp error (x.session (x.owner k) [])
  obtain ⟨t, htself, -, hclient, ho, hbuilt, htidy, heq⟩ :=
    Session.onRemoteResponsed_last (s := x.session (x.owner k) []) hinv.built (hinv.tidy _ hlive) hk hlast
  have htself : t.self = x.owner k := htself
  rw [htself] at htidy
  have hsame : ∀ g < x.objects.groupCount, g ≠ (x.objects.cmds k).group → Objects.SameOn x.objects t.objects g := by
    intro g hg hne
    rw [ho]
    exact Objects.respond_same hgroup (hinv.built.ok g hg) (hgroup ▸ hne)
  have hdone : ∀ g < x.objects.groupCount, x.objects.Done g → Objects.SameOn x.objects t.objects g :=
    fun g hg hd => hsame g hg fun heq => hnot (heq ▸ hd)
  have halike : Objects.Alike x.objects t.objects := ho ▸ Objects.Alike.respond x.objects k _
  have hsent : Objects.Sent (x.owner k) t.objects (wire (x.owner k)) := (h.sent _).keeps
    (Objects.keeps_of_same halike.requestsOf fun g hg hd => hdone g (Objects.mem_requestsOf.mp hg).1 hd)
  have hlane : (x.clients (x.owner k)).closed = false →
      ∃ flushed, Lane (x.owner k) t.objects t.client (wire (x.owner k)) flushed := by
    intro hopen
    obtain ⟨flushed, hl⟩ := h.lanes _ hlive hopen
    refine ⟨flushed, ?_⟩
    rw [hclient]
    exact (hl.objects halike.requestsOf (fun g _ => congrFun halike.short g) fun g hg =>
      hdone g (hl.mine hg).1 (hl.done g hg)).client rfl rfl rfl rfl
  have hothers : ∀ g < x.objects.groupCount, (x.objects.groups g).client ≠ x.owner k →
      Objects.SameOn x.objects t.objects g :=
    fun g hg hne => hsame g hg fun heq => hne (heq ▸ rfl)
  have hresult : (∀ c, ((x.session (x.owner k) []).onRemoteResponsed k rsp error).objects.requestsOf c =
        x.objects.requestsOf c) ∧
      (∀ g < x.objects.groupCount, (x.objects.groups g).client ≠ x.owner k →
        Objects.SameOn x.objects ((x.session (x.owner k) []).onRemoteResponsed k rsp error).objects g) ∧
      Objects.Sent (x.owner k) ((x.session (x.owner k) []).onRemoteResponsed k rsp error).objects (wire (x.owner k)) ∧
      ((x.clients (x.owner k)).closed = false → ∃ flushed, Lane (x.owner k)
        ((x.session (x.owner k) []).onRemoteResponsed k rsp error).objects
        ((x.session (x.owner k) []).onRemoteResponsed k rsp error).client (wire (x.owner k)) flushed) := by
    rcases heq with heq | heq
    · rw [heq]
      exact ⟨fun _ => halike.requestsOf, hothers, hsent, hlane⟩
    · rw [heq]
      refine ⟨fun _ => (halike.trans (Session.moves_pushAwaitingsToReady t).alike).requestsOf, fun g hg hne => ?_,
        hsent.keeps (Session.pushAwaitingsToReady_keeps t _), fun hopen => ?_⟩
      · refine (hothers g hg hne).trans (Session.pushAwaitingsToReady_same fun hmem => hne ?_)
        rw [hclient] at hmem
        exact (hinv.mine _ hlive g hmem).2
      · obtain ⟨flushed, hl⟩ := hlane hopen
        exact ⟨flushed, hl.pushAwaitingsToReady hbuilt htidy⟩
  obtain ⟨hreq, hrest, hs, hl⟩ := hresult
  have hwired := h.advance (hinv.live _ hlive) (fun _ _ => rfl) (fun c _ => hreq c) hrest hinv.mine hs
    fun _ hopen => hl (hclosed ▸ hopen)
  unfold store
  rw [hself]
  exact ⟨hwired.fresh, hwired.sent, hwired.lanes⟩

theorem Wired.serverCalls (readonly : Bool) : ∀ (cs : List ServerCall) {x : Traffic}, x.Wired wire →
    (cs.foldl (serverCall readonly) x).Wired wire
  | [], _, h => h
  | .opened _ :: cs, _, h => Wired.serverCalls readonly cs ⟨h.fresh, h.sent, h.lanes⟩
  | .closed _ :: cs, _, h => Wired.serverCalls readonly cs ⟨h.fresh, h.sent, h.lanes⟩

theorem Wired.newClient (h : x.Wired wire) (hinv : x.Inv hand) : x.newClient.Wired wire := by
  have hnone : x.objects.requestsOf x.clientCount = [] := by
    refine List.eq_nil_iff_forall_not_mem.mpr fun g hg => ?_
    obtain ⟨hlt, hclient⟩ := Objects.mem_requestsOf.mp hg
    exact absurd (hinv.owners g hlt) (hclient ▸ Nat.lt_irrefl _)
  refine ⟨fun c hc => h.fresh c (Nat.le_of_succ_le hc), h.sent, fun c hlive hopen => ?_⟩
  change c ∈ x.liveClients ++ [x.clientCount] at hlive
  change (Function.update x.clients x.clientCount _ c).closed = false at hopen
  show ∃ flushed, Lane c x.objects (Function.update x.clients x.clientCount _ c) (wire c) flushed
  rcases List.mem_append.mp hlive with hlive | hlive
  · rw [Function.update_of_ne (Nat.ne_of_lt (hinv.live c hlive))] at hopen ⊢
    exact h.lanes c hlive hopen
  · rw [List.mem_singleton.mp hlive, Function.update_self, h.fresh _ le_rfl]
    exact ⟨[], lane_new hnone⟩

/-- Nothing but an event of a client writes to its socket. -/
theorem otherMoves_wired (env : Env) (P : Bytes → Bool → Prop) (wire : ClientId → Bytes) :
    OtherMoves P fun _ hand x => x.Inv hand ∧ x.Wired wire where
  inv h := h.1
  idle h _ := h
  last h hrsp hP hlast := ⟨(rules_inv env P).last h.1 hrsp hP hlast, h.2.last h.1 hlast⟩
  again {_ _ x k rsp error} h hrsp hP hagain := by
    obtain ⟨hg, hs, hr⟩ := (x.objects.cmds k).onRemoteResponsed_same rsp error
    have hset := h.1.setCmd hg hr fun hsel => Or.inl (hs ▸ hsel)
    exact ⟨(rules_inv env P).again h.1 hrsp hP hagain,
      (h.2.setCmd h.1 (h.1.outstanding_of_hand List.mem_cons_self) _).selectServer hset
        (hset.outstanding_of_hand List.mem_cons_self)⟩
  retryLater h := ⟨h.1.retryLater, h.2.fresh, h.2.sent, h.2.lanes⟩
  takeRetrying h := ⟨h.1.takeRetrying, h.2.fresh, h.2.sent, h.2.lanes⟩
  selectServer h := ⟨h.1.selectServer, h.2.selectServer h.1 (h.1.outstanding_of_hand List.mem_cons_self)⟩
  clearPeers {_ _ c} h hdue := ⟨h.1.clearPeers hdue, h.2.setPeers c []⟩
  recvFrom {b _ _} h hs inp := ⟨(rules_inv env P).recvFrom (b := b) h.1 hs inp, h.2.fresh, h.2.sent, h.2.lanes⟩
  pushToBufferSet {b _} h s := ⟨(rules_inv env P).moves.pushToBufferSet (b := b) h.1 s, h.2.fresh, h.2.sent, h.2.lanes⟩
  written {b _} h s o := ⟨(rules_inv env P).moves.written (b := b) h.1 s o, h.2.fresh, h.2.sent, h.2.lanes⟩
  reroute {b x y cs} h hy readonly := by
    refine ⟨(rules_inv env P).moves.reroute (b := b) h.1 hy readonly, Wired.serverCalls readonly cs ?_⟩
    exact ⟨h.2.fresh, h.2.sent, h.2.lanes⟩
  newClient h := ⟨h.1.newClient, h.2.newClient h.1⟩
  destroyClient h c := by
    refine ⟨h.1.destroyClient c, h.2.fresh, h.2.sent, fun c' hlive hopen => ?_⟩
    exact h.2.lanes c' (List.mem_of_mem_erase hlive) hopen

/-- What an event of a client leaves behind: its socket has taken the next part of its replies. -/
theorem Wired.store (h : x.Wired wire) (hinv : x.Inv hand) (hc : c ∈ x.liveClients) {t : Session} (hself : t.self = c)
    (hgrows : Objects.Grows c x.objects t.objects)
    (hsame : ∀ g < x.objects.groupCount, (x.objects.groups g).client ≠ c → Objects.SameOn x.objects t.objects g)
    (hsent : Objects.Sent c t.objects (wire c ++ t.sent))
    (hlane : t.client.closed = false → ∃ flushed, Lane c t.objects t.client (wire c ++ t.sent) flushed) :
    (x.store t).Wired (Function.update wire c (wire c ++ t.sent)) := by
  have hwired := h.advance (hinv.live c hc) (fun c' hne => Function.update_of_ne hne (wire c ++ t.sent) wire)
    (fun c' hne => (hgrows.requestsOf c').2 hne) hsame hinv.mine
    (by rw [Function.update_self]; exact hsent) fun _ hopen => by
      rw [Function.update_self]
      exact hlane hopen
  unfold Traffic.store
  rw [hself]
  exact ⟨hwired.fresh, hwired.sent, hwired.lanes⟩

theorem Wired.onEvents (h : x.Wired wire) (hinv : x.Inv []) (hc : c ∈ x.liveClients) (env : Env)
    (script : List WriteAnswer) (delivery : Option ConnThrow) (hup : Bool) (read : Option Input) (write : Bool)
    (hnone : ((x.session c script).onEvents env delivery hup read write).2 = none) :
    (x.store ((x.session c script).onEvents env delivery hup read write).1).Wired
      (Function.update wire c (wire c ++ ((x.session c script).onEvents env delivery hup read write).1.sent)) := by
  have hself : ((x.session c script).onEvents env delivery hup read write).1.self = c :=
    Session.onEvents_self env delivery hup read write (x.session c script)
  have hgrows := ((hinv.ledger hc script).onEvents env delivery hup read write).grows
  have hempty : wire c ++ (x.session c script).sent = wire c := List.append_nil _
  rw [hself] at hgrows
  cases hclosed : (x.clients c).closed with
  | true =>
      obtain ⟨ho, hs, hcl⟩ := Session.onEvents_of_closed (s := x.session c script) env delivery hup read write hclosed
      refine h.store hinv hc hself hgrows ?_ ?_ ?_
      · rw [ho]
        exact fun _ _ _ => .refl _ _
      · rw [ho, hs, hempty]
        exact h.sent c
      · rw [hcl]
        exact nofun
  | false =>
      obtain ⟨flushed, hl⟩ := h.lanes c hc hclosed
      have hstart : (x.session c script).Streams (x.session c script) (wire c) :=
        .of_lane flushed (hinv.ledger hc script) (fun _ _ _ => .refl _ _) (hempty.symm ▸ hl)
      obtain ⟨⟨-, hothers, hsent⟩, hstreams⟩ := hstart.onEvents env delivery hup read write
      rw [hself] at hothers hsent
      refine h.store hinv hc hself hgrows hothers hsent fun hopen => ?_
      obtain ⟨flushed', hl'⟩ := (hstreams hnone hopen).lane
      rw [hself] at hl'
      exact ⟨flushed', hl'⟩

end Traffic

/-! ### Runs of the proxy -/

namespace World

/-- The call of `on_events` of a client in an event. -/
def clientSession (cfg : Config) (c : ClientId) (hup : Bool) (read : Option Input)
    (write : Option (List WriteAnswer)) (conv : Conversion) (w : World) : Session × Option ConnThrow :=
  let s := w.toTraffic.session c (write.getD [])
  s.onEvents cfg.env (w.thrown conv (s.onEvents cfg.env none hup read write.isSome).1) hup read write.isSome

/-- The bytes the socket of a client takes in a piece of `handle_events`. -/
def takenBy (cfg : Config) (w : World) (c : ClientId) : Step → Bytes
  | .event (.client c' hup read write conv) =>
      if c' = c ∧ c ∈ w.liveClients ∧ Conn.client c ∉ w.closedConns then
        (w.clientSession cfg c hup read write conv).1.sent
      else []
  | _ => []

variable {cfg : Config} {w : World} {wire : ClientId → Bytes}

theorem takenBy_other {st : Step} (hother : ∀ e c, st = .event e → e.conn ≠ .client c) (c : ClientId) :
    w.takenBy cfg c st = [] := by
  cases st with
  | event e =>
      cases e with
      | client c' => exact absurd rfl (hother _ c' rfl)
      | _ => rfl
  | _ => rfl

theorem wired_clientEvent {c : ClientId} (hinv : w.Inv []) (h : w.Wired wire) (hc : c ∈ w.liveClients) (hup : Bool)
    (read : Option Input) (write : Option (List WriteAnswer)) (conv : Conversion)
    (hnone : (w.clientEvent cfg c hup read write conv).2 = none) :
    (w.clientEvent cfg c hup read write conv).1.Wired
      (Function.update wire c (wire c ++ (w.clientSession cfg c hup read write conv).1.sent)) := by
  have hledger : (w.clientSession cfg c hup read write conv).1.Ledger (w.session c (write.getD [])) :=
    (hinv.ledger hc (write.getD [])).onEvents ..
  have hstore : (w.store (w.clientSession cfg c hup read write conv).1).Wired _ :=
    h.onEvents hinv hc cfg.env (write.getD []) _ hup read write.isSome hnone
  exact (inv_settle (Traffic.otherMoves_wired cfg.env (fun _ _ => True) _) hledger
    ⟨hinv.store hc hledger, hstore⟩ conv).2

theorem event_of_client {c : ClientId} (hc : c ∈ w.liveClients) (hopen : Conn.client c ∉ w.closedConns) (hup : Bool)
    (read : Option Input) (write : Option (List WriteAnswer)) (conv : Conversion) :
    w.event cfg (.client c hup read write conv) =
      ({ w with activeConns := w.activeConns.insert (.client c) } : World).clientEvent cfg c hup read write conv := by
  have hpresent : w.Present (Event.client c hup read write conv).conn := hc
  have hconn : (Event.client c hup read write conv).conn ∉ w.closedConns := hopen
  unfold event
  rw [if_neg (not_not.mpr hpresent), if_neg hconn]
  dsimp only [Event.conn, onEvents]
  split
  · rename_i hio
    exact absurd hio (Session.onEvents_ne_io _ _ _ _ _ _)
  · rfl

theorem wired_step (hinv : w.Inv []) (h : w.Wired wire) (st : Step) (hnone : (w.step cfg st).2 = none) :
    (w.step cfg st).1.Wired fun c => wire c ++ w.takenBy cfg c st := by
  have hkept : (∀ e c, st = .event e → e.conn ≠ .client c) →
      (w.step cfg st).1.Wired fun c => wire c ++ w.takenBy cfg c st := by
    intro hother
    rw [funext fun c => (congrArg (wire c ++ ·) (takenBy_other hother c)).trans (List.append_nil _)]
    exact (inv_step_other (Traffic.otherMoves_wired cfg.env (fun _ _ => True) wire) ⟨hinv, h⟩ st (w.hears_true st)
      hother).2
  cases st with
  | event e =>
      cases e with
      | client c hup read write conv =>
          change (w.event cfg (.client c hup read write conv)).2 = none at hnone
          show (w.event cfg (.client c hup read write conv)).1.Wired _
          by_cases hc : c ∈ w.liveClients
          · by_cases hopen : Conn.client c ∈ w.closedConns
            · -- the client has been closed for an error in the same round
              have hskip : w.event cfg (.client c hup read write conv) = (w, none) := by
                have hpresent : w.Present (Event.client c hup read write conv).conn := hc
                have hconn : (Event.client c hup read write conv).conn ∈ w.closedConns := hopen
                rw [event, if_neg (not_not.mpr hpresent), if_pos hconn]
              have htaken : (fun c' => wire c' ++ w.takenBy cfg c' (.event (.client c hup read write conv))) = wire := by
                funext c'
                rw [takenBy, if_neg, List.append_nil]
                rintro ⟨rfl, -, hnot⟩
                exact hnot hopen
              rw [hskip, htaken]
              exact h
            · have htaken : (fun c' => wire c' ++ w.takenBy cfg c' (.event (.client c hup read write conv))) =
                  Function.update wire c (wire c ++ (w.clientSession cfg c hup read write conv).1.sent) := by
                funext c'
                by_cases heq : c' = c
                · subst heq
                  rw [Function.update_self, takenBy, if_pos ⟨rfl, hc, hopen⟩]
                · rw [Function.update_of_ne heq, takenBy, if_neg fun hand => heq hand.1.symm, List.append_nil]
              rw [event_of_client hc hopen] at hnone ⊢
              rw [htaken]
              exact wired_clientEvent (w := { w with activeConns := w.activeConns.insert (.client c) }) hinv h hc hup read
                write conv hnone
          · have hgone : ¬w.Present (Event.client c hup read write conv).conn := hc
            rw [event, if_pos hgone] at hnone
            cases hnone
      | _ =>
          refine hkept fun e c heq => ?_
          cases heq
          exact nofun
  | _ => exact hkept nofun

/-- The proxy, and the bytes the sockets of its clients have taken. -/
structure Observed where
  world : World
  taken : ClientId → Bytes

namespace Observed

def new (cfg : Config) : Observed := ⟨.new cfg, fun _ => []⟩

def step (cfg : Config) (v : Observed) (st : Step) : Observed :=
  ⟨(v.world.step cfg st).1, fun c => v.taken c ++ v.world.takenBy cfg c st⟩

abbrev Reached (cfg : Config) (v : Observed) : Prop :=
  Runs.Reachable (step cfg) (fun v st => (v.world.step cfg st).2 = none) (new cfg) v

variable {cfg : Config} {v : Observed}

/-- Every run of the proxy can be observed. -/
theorem of_reached {w : World} (h : World.Reached cfg w) : ∃ v, Reached cfg v ∧ v.world = w := by
  induction h with
  | refl => exact ⟨new cfg, .refl, rfl⟩
  | @step w st _ hst ih =>
      obtain ⟨v, hv, rfl⟩ := ih
      exact ⟨v.step cfg st, hv.step hst, rfl⟩

theorem Reached.world (h : Reached cfg v) : World.Reached cfg v.world := by
  induction h with
  | refl => exact .refl
  | step _ hst ih => exact ih.step hst

theorem Reached.wired (h : Reached cfg v) : v.world.Wired v.taken := by
  induction h with
  | refl => exact ⟨fun _ _ => rfl, fun c => Objects.sent_nil c _, nofun⟩
  | @step v st hv hst ih => exact wired_step (Reached.world hv).inv ih st hst

/-- What the socket of a client has taken is the beginning of the replies to its own first requests,
in their order, and each of these has its reply.  As long as the client is open, the rest of these
replies is in its output set, and the other requests are in its queues: none is lost, and none is
answered twice. -/
theorem sent_in_order (h : Reached cfg v) (c : ClientId) :
    Objects.Sent c v.world.objects (v.taken c) ∧
    (c ∈ v.world.liveClients → (v.world.clients c).closed = false →
      ∃ gs, gs ++ (v.world.clients c).awaitingGroups ++ (v.world.clients c).parsedGroups = v.world.objects.requestsOf c ∧
        (∀ g ∈ gs, v.world.objects.Done g) ∧
        v.taken c ++ (v.world.clients c).outputBufferSet.pending v.world.objects.content =
          (gs.map v.world.objects.reply).flatten) := by
  refine ⟨h.wired.sent c, fun hlive hopen => ?_⟩
  obtain ⟨flushed, hlane⟩ := h.wired.lanes c hlive hopen
  exact ⟨flushed ++ (v.world.clients c).readyGroups, hlane.order, hlane.done, hlane.bytes⟩

/-- A client sends `GET` and `PING`, another one `PING`, and the first request goes to the backend. -/
def getPingSent : List Step :=
  [.start, .event (.accept 2 .again),
    .event (.client 0 false (some ⟨getA.bytes ++ ascii "*1\r\n$4\r\nPING\r\n", .again, 0⟩) none ⟨0, .opened⟩),
    .event (.client 1 false (some ⟨ascii "*1\r\n$4\r\nPING\r\n", .again, 0⟩) none ⟨0, .opened⟩), .pollCtl,
    .update [(⟨ascii "h", 6379⟩, .opened)] fun _ => .opened,
    .start, .event (.updater 0 (.nodes [Tracked.master "h" (15495, 15495)]) fun _ => .opened),
    .event (.server 7 false none (some [.took 20, .again]))]

/-- The backend sends a value. -/
def valueSent : Step := .event (.server 7 false (some ⟨ascii "$1\r\nv\r\n", .again, 0⟩) none)

/-- The sockets of the clients take some bytes. -/
def repliesTaken : List Step :=
  [.event (.client 1 false none (some [.took 4, .again]) ⟨0, .opened⟩),
    .event (.client 0 false none (some [.took 9, .again]) ⟨0, .opened⟩)]

/-- When the request has gone to the backend, and when the sockets have taken these bytes. -/
def requested : Observed := getPingSent.foldl (step plainConfig) (new plainConfig)

def replied : Observed := repliesTaken.foldl (step plainConfig) (requested.step plainConfig valueSent)

theorem sent_in_order_two_clients : replied.taken 0 = ascii "$1\r\nv\r\n+P" ∧ replied.taken 1 = ascii "+PON" ∧
    Objects.Sent 0 replied.world.objects (replied.taken 0) ∧ Objects.Sent 1 replied.world.objects (replied.taken 1) := by
  have hrequested : Reached plainConfig requested := Runs.Reachable.run _ .refl (by decide +kernel)
  have hreplied : Reached plainConfig replied :=
    Runs.Reachable.run repliesTaken (hrequested.step (by decide +kernel)) (by decide +kernel)
  exact ⟨by decide +kernel, by decide +kernel, (sent_in_order hreplied 0).1, (sent_in_order hreplied 1).1⟩

/-- The runs in which the backends keep to the protocol. -/
abbrev Fluent (cfg : Config) (v : Observed) : Prop :=
  Runs.Reachable (step cfg) (fun v st => (v.world.step cfg st).2 = none ∧ v.world.Spoken st) (new cfg) v

theorem Fluent.reached (h : Fluent cfg v) : Reached cfg v := h.mono fun _ _ hst => hst.1

theorem Fluent.world (h : Fluent cfg v) : World.Fluent cfg v.world := by
  induction h with
  | refl => exact .refl
  | step _ hst ih => exact ih.step hst

end Observed

end World

end Cerberus
