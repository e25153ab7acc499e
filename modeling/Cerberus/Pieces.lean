import Cerberus.Deliveries
import Cerberus.Conversion

/-! # What the pieces of the proxy do to its connections

Most of what a piece of `handle_events` does concerns commands and the interest in connections only
(`World.Calm`).  The rest is a small number of moves: a connection is made, closed or handed on.
`World.Rules` lists them as rules for a property of the whole state, so that an invariant is shown
for the moves, once each, and then holds of all pieces. -/

namespace Cerberus

/-! ### Commands that move -/

namespace Traffic

/-- Commands may have moved; the clients are the same, and so are the backends. -/
structure Calm (x x' : Traffic) : Prop where
  clientCount : x'.clientCount = x.clientCount
  liveClients : x'.liveClients = x.liveClients
  routes : x'.routes = x.routes
  closed : ∀ c, (x'.clients c).closed = (x.clients c).closed

variable {x x' x'' : Traffic}

theorem Calm.refl (x : Traffic) : x.Calm x := ⟨rfl, rfl, rfl, fun _ => rfl⟩

theorem Calm.trans (h : x.Calm x') (h' : x'.Calm x'') : x.Calm x'' where
  clientCount := h'.clientCount.trans h.clientCount
  liveClients := h'.liveClients.trans h.liveClients
  routes := h'.routes.trans h.routes
  closed c := (h'.closed c).trans (h.closed c)

/-- The closed flag of a client that is replaced. -/
theorem update_closed {f : ClientId → Client} {c : ClientId} {v : Client} (hv : v.closed = (f c).closed) (c' : ClientId) :
    (Function.update f c v c').closed = (f c').closed := by
  by_cases heq : c' = c
  · rw [heq, Function.update_self, hv]
  · rw [Function.update_of_ne heq]

theorem calm_selectServer (k : CmdId) (x : Traffic) : x.Calm (x.selectServer k).1 := by
  unfold selectServer
  split
  · exact ⟨rfl, rfl, rfl, fun _ => rfl⟩
  · refine ⟨rfl, rfl, rfl, fun c => ?_⟩
    refine update_closed (f := x.clients) ?_ c
    rfl

theorem calm_call (c : ClientId) (x : Traffic) (a : ClientCall) : x.Calm (x.call c a) := by
  cases a with
  | selectServer k => exact calm_selectServer k x
  | reactivate k => exact calm_selectServer k x
  | clearPeers =>
      refine ⟨rfl, rfl, rfl, update_closed (f := x.clients) ?_⟩
      rfl
  | _ => exact .refl x

theorem calm_calls (c : ClientId) : ∀ (cs : List ClientCall) (x : Traffic), x.Calm (cs.foldl (call c) x)
  | [], x => .refl x
  | a :: cs, x => (calm_call c x a).trans (calm_calls c cs _)

end Traffic

namespace World

/-- Nothing has happened but to commands, to the interest in connections, and to
`_slot_map_expired`. -/
structure Calm (w w' : World) : Prop where
  traffic : w.toTraffic.Calm w'.toTraffic
  updaters : w'.updaters = w.updaters
  longs : w'.longs = w.longs
  registered : ∀ c, (w'.poller.interest c).isSome = (w.poller.interest c).isSome
  descriptors : w'.descriptors = w.descriptors
  fdClosed : w'.fdClosed = w.fdClosed
  accepting : w'.accepting = w.accepting
  clientsCount : w'.clientsCount = w.clientsCount
  longConnsCount : w'.longConnsCount = w.longConnsCount
  activeConns : w'.activeConns = w.activeConns
  closedConns : w'.closedConns = w.closedConns
  badIo : w'.badIo = w.badIo

variable {cfg : Config} {w w' w'' : World} {c : ClientId} {s : ServerId} {l : LongId}

theorem Calm.refl (w : World) : w.Calm w :=
  ⟨.refl _, rfl, rfl, fun _ => rfl, rfl, rfl, rfl, rfl, rfl, rfl, rfl, rfl⟩

theorem Calm.trans (h : w.Calm w') (h' : w'.Calm w'') : w.Calm w'' where
  traffic := h.traffic.trans h'.traffic
  updaters := h'.updaters.trans h.updaters
  longs := h'.longs.trans h.longs
  registered c := (h'.registered c).trans (h.registered c)
  descriptors := h'.descriptors.trans h.descriptors
  fdClosed := h'.fdClosed.trans h.fdClosed
  accepting := h'.accepting.trans h.accepting
  clientsCount := h'.clientsCount.trans h.clientsCount
  longConnsCount := h'.longConnsCount.trans h.longConnsCount
  activeConns := h'.activeConns.trans h.activeConns
  closedConns := h'.closedConns.trans h.closedConns
  badIo := h'.badIo.trans h.badIo

theorem Calm.of_traffic {x : Traffic} (h : w.toTraffic.Calm x) : w.Calm { w with toTraffic := x } :=
  ⟨h, rfl, rfl, fun _ => rfl, rfl, rfl, rfl, rfl, rfl, rfl, rfl, rfl⟩

theorem Calm.of_poller {p : Poller} (h : ∀ c, (p.interest c).isSome = (w.poller.interest c).isSome) :
    w.Calm { w with poller := p } :=
  ⟨.refl _, rfl, rfl, h, rfl, rfl, rfl, rfl, rfl, rfl, rfl, rfl⟩

theorem Calm.expired (w : World) (b : Bool) : w.Calm { w with slotMapExpired := b } :=
  ⟨.refl _, rfl, rfl, fun _ => rfl, rfl, rfl, rfl, rfl, rfl, rfl, rfl, rfl⟩

theorem Calm.setServer (w : World) (s : ServerId) (v : Server) :
    w.Calm { w with toTraffic := w.toTraffic.setServer s v } :=
  .of_traffic ⟨rfl, rfl, rfl, fun _ => rfl⟩

theorem setConnPollRo_interest (c : Conn) (p : Poller) : (p.setConnPollRo c).interest = p.interest := by
  unfold Poller.setConnPollRo
  split <;> rfl

theorem foldl_setConnPollRw_interest : ∀ (ss : List ServerId) (p : Poller),
    (ss.foldl (fun p s => p.setConnPollRw (.server s)) p).interest = p.interest
  | [], _ => rfl
  | _ :: ss, _ => foldl_setConnPollRw_interest ss _

theorem calm_call (c : ClientId) (w : World) {a : ClientCall} (ha : a ≠ .badDescriptor) : w.Calm (w.call c a) := by
  have htraffic : ∀ k, w.Calm { w with toTraffic := (w.toTraffic.selectServer k).1 } :=
    fun k => .of_traffic (Traffic.calm_selectServer k _)
  cases a with
  | selectServer k => exact htraffic k
  | reactivate k =>
      have h := htraffic k
      unfold call
      dsimp only
      split
      · rename_i heq
        rw [heq] at h
        exact h
      · rename_i heq
        rw [heq] at h
        exact h.trans (.of_poller fun _ => rfl)
  | clearPeers => exact .of_traffic (Traffic.calm_call c _ .clearPeers)
  | wakePeers => exact .of_poller fun _ => by rw [foldl_setConnPollRw_interest]
  | pollRo => exact .of_poller fun _ => by rw [setConnPollRo_interest]
  | pollRw => exact .of_poller fun _ => rfl
  | deliverClient g => exact .refl w
  | effect e =>
      cases e with
      | updateSlotMap => exact .expired w true
      | setRemotes _ => exact .refl w
  | badDescriptor => exact absurd rfl ha

theorem calm_foldl_call (c : ClientId) : ∀ (cs : List ClientCall) (w : World), ClientCall.badDescriptor ∉ cs →
    w.Calm (cs.foldl (call c) w)
  | [], w, _ => .refl w
  | a :: cs, w, h => by
      rw [List.mem_cons, not_or] at h
      exact (calm_call c w (Ne.symm h.1)).trans (calm_foldl_call c cs _ h.2)

end World

namespace Session

theorem onRemoteResponsed_closed (k : CmdId) (rsp : Bytes) (error : Bool) (s : Session) :
    (s.onRemoteResponsed k rsp error).client.closed = s.client.closed := by
  unfold onRemoteResponsed
  dsimp only
  split
  · split
    · exact pushAwaitingsToReady_closed _
    · rfl
  · rfl

theorem onRemoteResponsed_self (k : CmdId) (rsp : Bytes) (error : Bool) (s : Session) :
    (s.onRemoteResponsed k rsp error).self = s.self := by
  have hpush : ∀ s : Session, s.pushAwaitingsToReady.self = s.self := by
    intro s
    unfold pushAwaitingsToReady
    split
    · rfl
    · rw [appendAll_eq]
      dsimp only
      split <;> rfl
  unfold onRemoteResponsed
  dsimp only
  split
  · split
    · exact hpush _
    · rfl
  · rfl

end Session

namespace World

variable {cfg : Config} {w w' w'' : World} {c : ClientId} {s : ServerId} {l : LongId}

theorem calm_respond (k : CmdId) (rsp : Bytes) (error : Bool) (w : World) : w.Calm (w.respond k rsp error) := by
  have hclosed := Session.onRemoteResponsed_closed k rsp error (w.session (w.owner k) [])
  have hself := Session.onRemoteResponsed_self k rsp error (w.session (w.owner k) [])
  obtain ⟨cs, hcs, hbad⟩ := (Session.shifts_onRemoteResponsed k rsp error (w.session (w.owner k) [])).calls
  unfold respond
  dsimp only
  rw [hcs]
  generalize (w.session (w.owner k) []).onRemoteResponsed k rsp error = t at *
  refine Calm.trans ?_ (calm_foldl_call t.self _ _ hbad)
  refine .of_traffic ⟨rfl, rfl, rfl, fun c => ?_⟩
  show (Function.update w.clients t.self t.client c).closed = _
  rw [show t.self = w.owner k from hself]
  exact Traffic.update_closed hclosed c

theorem calm_rspTo (w : World) (p : CmdId × Response) : w.Calm (w.rspTo p) := by
  unfold rspTo
  split
  · exact calm_respond ..
  · exact .of_traffic ⟨rfl, rfl, rfl, fun _ => rfl⟩

theorem calm_foldl {α : Type} {f : World → α → World} (hf : ∀ (w : World) (a : α), w.Calm (f w a)) : ∀ (l : List α) (w : World),
    w.Calm (l.foldl f w)
  | [], w => .refl w
  | a :: l, w => (hf w a).trans (calm_foldl hf l _)

theorem calm_andThen {r : World × Option ConnThrow} {f : World → World × Option ConnThrow}
    (hr : w.Calm r.1) (hf : ∀ w : World, w.Calm (f w).1) : w.Calm (andThen r f).1 :=
  andThen_inv (I := w.Calm) hr fun w' hw => hw.trans (hf w')

theorem calm_pollMod (c : Conn) (b : Bool) (w : World) : w.Calm (w.pollMod c b).1 := by
  unfold pollMod
  split
  · exact .refl w
  · rename_i i hi
    refine .of_poller fun c' => ?_
    show (Function.update w.poller.interest c (some b) c').isSome = _
    by_cases heq : c' = c
    · rw [heq, Function.update_self, hi]
      rfl
    · rw [Function.update_of_ne heq]

theorem calm_pollServers : ∀ (ss : List ServerId) (w : World), w.Calm (pollServers ss w).1
  | [], w => .refl w
  | s :: ss, w => calm_andThen (calm_pollMod (.server s) true w) (calm_pollServers ss)

theorem calm_pollEach : ∀ (ps : List (Conn × Bool)) (w : World), w.Calm (pollEach ps w).1
  | [], w => .refl w
  | (c, b) :: ps, w => by
      unfold pollEach
      split
      · exact calm_pollEach ps w
      · exact calm_andThen (calm_pollMod c b w) (calm_pollEach ps)

theorem calm_pollCtl (w : World) : w.Calm w.pollCtl.1 := by
  unfold pollCtl
  refine Calm.trans ?_ (calm_pollEach _ _)
  exact .of_poller fun _ => rfl

theorem calm_retryEach : ∀ (ks : List CmdId) (w : World), w.Calm (retryEach ks w).1
  | [], w => .refl w
  | k :: ks, w => by
      have h : w.Calm { w with toTraffic := (w.toTraffic.selectServer k).1 } :=
        .of_traffic (Traffic.calm_selectServer k _)
      unfold retryEach
      split
      · rename_i heq
        rw [heq] at h
        exact (h.trans (.expired _ true)).trans (calm_retryEach ks _)
      · rename_i heq
        rw [heq] at h
        exact h.trans (calm_retryEach ks _)

theorem calm_serverSend (s : ServerId) (write : Option (List WriteAnswer)) (w : World) :
    w.Calm (w.serverSend s write).1 := by
  have hpush : w.Calm { w with toTraffic := w.toTraffic.setServer s (w.servers s).pushToBufferSet } := .setServer ..
  unfold serverSend
  refine hpush.trans (calm_andThen ?_ fun w => ?_)
  · cases write with
    | none => exact .refl _
    | some script => exact .setServer ..
  · split
    · exact .of_poller fun _ => by rw [setConnPollRo_interest]
    · exact .of_poller fun _ => rfl

/-! ### The other moves -/

/-- The state in which `restore_client` leaves the proxy when the response has been written. -/
def restored (l : LongId) (updateSlotMap : Bool) (w : World) : World :=
  { w with
    toTraffic := w.toTraffic.newClient
    longs := w.longs.close l
    poller := (w.poller.del (.longClient l)).addRo (.client w.clientCount)
    descriptors := w.descriptors.give (.longClient l) (.client w.clientCount)
    clientsCount := w.clientsCount + 1
    slotMapExpired := updateSlotMap || w.slotMapExpired }

/-- What an updater that finishes does, the outcome of the round apart. -/
def finished (cfg : Config) (u : UpdaterId) (answer : Option (List RedisNode)) (w : World) : World :=
  { w with
    updaters := (w.updaters.finish cfg.fullCov u answer).1
    poller := w.poller.del (.updater u)
    descriptors := w.descriptors.close (.updater u) }

end World

/-- The long connection that a connection is a half of. -/
def Conn.long : Conn → Option LongId
  | .longClient l => some l
  | .longServer l => some l
  | _ => none

/-- The event is about one of the long connections with `T`, if about any; the connection for a
conversion ends in one of the ways with `D`. -/
structure Event.Meets (T : LongId → Prop) (D : Connect → Prop) (e : Event) : Prop where
  long : ∀ l, e.conn.long = some l → T l
  connect : ∀ c hup read write conv, e = .client c hup read write conv → D conv.connect

namespace World

/-- The moves of long connections, as rules for a property.  `T` says which of them an event may
concern. -/
structure LongRules (T : LongId → Prop) (J : World → Prop) : Prop where
  closeLong : ∀ {w l}, J w → T l → J (w.closeLong l)
  closeLongServer : ∀ {w l}, J w → T l → J (w.closeLongServer l)
  restored : ∀ {w l}, J w → T l → (w.longs.objects l).closed = false → ∀ b, J (w.restored l b)
  buffer : ∀ {w l}, J w → T l → ∀ b, J { w with longs := w.longs.set l { w.longs.objects l with buffer := b } }
  badLong : ∀ {w l}, J w → T l → ∀ c, J { w with badIo := w.badIo ++ [c] }

/-- Those of the server half. -/
structure HalfRules (T : LongId → Prop) (J : World → Prop) : Prop where
  closeLongServer : ∀ {w l}, J w → T l → J (w.closeLongServer l)
  restored : ∀ {w l}, J w → T l → (w.longs.objects l).closed = false → ∀ b, J (w.restored l b)
  buffer : ∀ {w l}, J w → T l → ∀ b, J { w with longs := w.longs.set l { w.longs.objects l with buffer := b } }
  badLong : ∀ {w l}, J w → T l → ∀ c, J { w with badIo := w.badIo ++ [c] }

theorem LongRules.half {T : LongId → Prop} {J : World → Prop} (R : LongRules T J) : HalfRules T J :=
  ⟨R.closeLongServer, R.restored, R.buffer, R.badLong⟩

/-- All moves; `D` says how the connections for conversions may end. -/
structure Rules (cfg : Config) (T : LongId → Prop) (D : Connect → Prop) (J : World → Prop) : Prop
    extends LongRules T J where
  calm : ∀ {w w'}, J w → w.Calm w' → J w'
  routes : ∀ {w}, J w → ∀ y, J { w with routes := y }
  serverCall : ∀ {w}, J w → ∀ a, J (w.serverCall cfg a)
  newClient : ∀ {w}, J w → J (w.newClient cfg)
  store : ∀ {w}, J w → ∀ s, J { w with toTraffic := w.toTraffic.store s }
  deliver : ∀ {w conv}, J w → D conv.connect → ∀ c g, J (w.deliverClient cfg conv c g)
  closeClient : ∀ {w}, J w → ∀ c, J (w.closeClient c)
  badClient : ∀ {w}, J w → ∀ c, J { w with badIo := w.badIo ++ [.client c] }
  finished : ∀ {w}, J w → ∀ u answer, J (w.finished cfg u answer)
  failed : ∀ {w}, J w → J { w with updaters := (w.updaters.updateSlotMapFailed cfg.fullCov).1 }
  newUpdater : ∀ {w}, J w → J (w.newUpdater cfg)
  tryUpdater : ∀ {w}, J w → J { w with
    descriptors := w.descriptors.tryOut cfg.chooser (.updater w.updaters.count) }
  acceptor : ∀ {w}, J w → ∀ b i, J { w with accepting := b, poller := w.poller.register .acceptor i }

/-- The rules for one event: `C` says which client it may be about, and the acceptor is only switched
off. -/
structure EventRules (cfg : Config) (C : ClientId → Prop) (T : LongId → Prop) (D : Connect → Prop)
    (J : World → Prop) : Prop extends LongRules T J where
  calm : ∀ {w w'}, J w → w.Calm w' → J w'
  routes : ∀ {w}, J w → ∀ y, J { w with routes := y }
  serverCall : ∀ {w}, J w → ∀ a, J (w.serverCall cfg a)
  newClient : ∀ {w}, J w → J (w.newClient cfg)
  store : ∀ {w}, J w → ∀ s, J { w with toTraffic := w.toTraffic.store s }
  deliver : ∀ {w conv c}, J w → D conv.connect → C c → ∀ g, J (w.deliverClient cfg conv c g)
  closeClient : ∀ {w c}, J w → C c → J (w.closeClient c)
  badClient : ∀ {w}, J w → ∀ c, J { w with badIo := w.badIo ++ [.client c] }
  finished : ∀ {w}, J w → ∀ u answer, J (w.finished cfg u answer)
  failed : ∀ {w}, J w → J { w with updaters := (w.updaters.updateSlotMapFailed cfg.fullCov).1 }
  newUpdater : ∀ {w}, J w → J (w.newUpdater cfg)
  tryUpdater : ∀ {w}, J w → J { w with
    descriptors := w.descriptors.tryOut cfg.chooser (.updater w.updaters.count) }
  exhausted : ∀ {w}, J w → J { w with accepting := false, poller := w.poller.del .acceptor }

theorem Rules.events {cfg : Config} {T : LongId → Prop} {D : Connect → Prop} {J : World → Prop}
    (R : Rules cfg T D J) : EventRules cfg (fun _ => True) T D J where
  toLongRules := R.toLongRules
  calm := R.calm
  routes := R.routes
  serverCall := R.serverCall
  newClient := R.newClient
  store := R.store
  deliver h hD _ g := R.deliver h hD _ g
  closeClient h _ := R.closeClient h _
  badClient := R.badClient
  finished := R.finished
  failed := R.failed
  newUpdater := R.newUpdater
  tryUpdater := R.tryUpdater
  exhausted h := R.acceptor h false none

section LongRules

variable {w : World} {T : LongId → Prop} {J : World → Prop} {l : LongId}

section

variable (R : LongRules T J)

include R

theorem kept_longClientEvent (h : J w) (hT : T l) (hup : Bool) (read : Option Input) (write : Bool) :
    J (w.longClientEvent l hup read write).1 := by
  have hclose : ∀ b : Prop, [Decidable b] → J (if b then w.closeLong l else w) := by
    intro b _
    split
    · exact R.closeLong h hT
    · exact h
  unfold longClientEvent
  split
  · exact R.closeLong h hT
  · split
    · exact hclose _
    · split
      · exact R.badLong h hT _
      · split
        · exact h
        · exact hclose _

end

variable (R : HalfRules T J)

include R

theorem kept_restoreClient (h : J w) (hT : T l) (updateSlotMap : Bool) (answer : Option ConnThrow) :
    J (w.restoreClient l updateSlotMap answer).1 := by
  unfold restoreClient
  split
  · exact h
  · rename_i hclosed
    split
    · exact h
    · exact R.restored h hT (Bool.not_eq_true _ ▸ hclosed) updateSlotMap

theorem kept_longServerError (h : J w) (hT : T l) (answer : Option ConnThrow) :
    J (w.longServerError l answer).1 := by
  have hclose := R.closeLongServer h hT
  unfold longServerError
  split
  · exact hclose
  · exact kept_restoreClient R hclose hT true answer

theorem kept_unexpectedWrite (h : J w) (hT : T l) (write : Bool) (answer : Option ConnThrow) :
    J (w.unexpectedWrite l write answer).1 := by
  unfold unexpectedWrite
  split
  · exact kept_longServerError R h hT answer
  · exact h

theorem kept_popped (h : J w) (hT : T l) (inp : Input) (write : Bool) (answer : Option ConnThrow) :
    J (w.popped l inp write answer).1 := by
  unfold popped
  split
  · exact h
  · exact h
  · rename_i rest rsps _
    have hbuffer := R.buffer h hT rest
    dsimp only
    split
    · exact hbuffer
    · refine andThen_inv (I := J) (kept_restoreClient R hbuffer hT _ answer) fun w hw => ?_
      exact kept_unexpectedWrite R hw hT write answer

theorem kept_longServerRead (h : J w) (hT : T l) (inp : Input) (write : Bool) (answer : Option ConnThrow) :
    J (w.longServerRead l inp write answer).1 := by
  unfold longServerRead
  split
  · exact R.badLong h hT _
  · split
    · exact h
    · split
      · exact kept_longServerError R h hT answer
      · split
        · refine andThen_inv (I := J) ?_ fun w hw => kept_unexpectedWrite R hw hT write answer
          unfold publish
          split
          · exact R.badLong h hT _
          · exact h
        · exact kept_popped R h hT inp write answer

theorem kept_longServerEvent (h : J w) (hT : T l) (hup : Bool) (read : Option Input) (write : Bool)
    (answer : Option ConnThrow) : J (w.longServerEvent l hup read write answer).1 := by
  unfold longServerEvent
  split
  · exact kept_longServerError R h hT answer
  · split
    · exact kept_unexpectedWrite R h hT write answer
    · exact kept_longServerRead R h hT _ write answer

end LongRules

/-- The calls of a client: one of them may convert it. -/
theorem kept_clientCalls {cfg : Config} {conv : Conversion} {c : ClientId} {J : World → Prop}
    (calm : ∀ {w w'}, J w → w.Calm w' → J w') (deliver : ∀ {w}, J w → ∀ g, J (w.deliverClient cfg conv c g))
    (bad : ∀ {w}, J w → J { w with badIo := w.badIo ++ [.client c] }) : ∀ (cs : List ClientCall) {w : World},
    J w → J (cs.foldl (clientCall cfg conv c) w)
  | [], _, h => h
  | a :: cs, w, h => by
      rw [List.foldl_cons]
      refine kept_clientCalls calm deliver bad cs ?_
      cases a with
      | deliverClient g => exact deliver h g
      | badDescriptor => exact bad h
      | _ =>
          simp only [clientCall]
          refine calm h (calm_call c w ?_)
          nofun

/-- An event: the handler, and `on_error` if it throws. -/
theorem kept_handlers {cfg : Config} {w : World} {e : Event} {J : World → Prop}
    (sets : ∀ {w}, J w → ∀ a c, J { w with activeConns := a, closedConns := c })
    (onEvents : ∀ {w}, J w → J (w.onEvents cfg e).1) (onError : ∀ {w}, J w → J (w.onError cfg e).1) (h : J w) :
    J (w.event cfg e).1 := by
  unfold World.event
  split
  · exact h
  · split
    · exact h
    · have hon := onEvents (sets h (w.activeConns.insert e.conn) w.closedConns)
      dsimp only
      split
      · refine andThen_inv (I := J) (onError hon) fun w hw => ?_
        exact sets hw w.activeConns (e.conn :: w.closedConns)
      · exact hon

section EventRules

variable {cfg : Config} {w : World} {C : ClientId → Prop} {T : LongId → Prop} {D : Connect → Prop}
  {J : World → Prop} (R : EventRules cfg C T D J)

include R

theorem kept_serverCalls : ∀ (cs : List ServerCall) {w : World}, J w → J (cs.foldl (serverCall cfg) w)
  | [], _, h => h
  | a :: cs, _, h => kept_serverCalls cs (R.serverCall h a)

theorem kept_reroute (h : J w) (y : Routes) : J (w.reroute cfg y) :=
  kept_serverCalls R _ (R.routes h _)

theorem kept_closeServer (h : J w) (s : ServerId) : J (w.closeServer cfg s) :=
  kept_reroute R h _

/-! ### Clients -/

theorem kept_clientEvent (h : J w) {c : ClientId} (hC : C c) (hup : Bool) (read : Option Input)
    (write : Option (List WriteAnswer)) {conv : Conversion} (hD : D conv.connect) :
    J (w.clientEvent cfg c hup read write conv).1 := by
  unfold clientEvent
  dsimp only
  generalize w.thrown conv _ = d
  have hself := Session.onEvents_self cfg.env d hup read write.isSome (w.session c (write.getD []))
  generalize ((w.session c (write.getD [])).onEvents cfg.env d hup read write.isSome).1 = t at hself
  have hC' : C t.self := hself ▸ hC
  have hcalls := kept_clientCalls (J := J) R.calm (fun h g => R.deliver h hD hC' g) (fun h => R.badClient h _) t.calls
    (R.store h t)
  unfold settle
  dsimp only
  split
  · exact R.closeClient hcalls hC'
  · exact hcalls

/-! ### Backends -/

theorem kept_serverRead (h : J w) (s : ServerId) (inp : Input) : J (w.serverRead cfg s inp).1 := by
  have hset : J { w with toTraffic := w.toTraffic.setServer s ((w.servers s).recvFrom inp).1 } :=
    R.calm h (.setServer ..)
  unfold serverRead
  dsimp only
  split
  · exact R.calm hset (calm_foldl calm_rspTo _ _)
  · exact kept_closeServer R hset s
  · exact hset

theorem kept_serverEvent (h : J w) (s : ServerId) (hup : Bool) (read : Option Input)
    (write : Option (List WriteAnswer)) : J (w.serverEvent cfg s hup read write).1 := by
  obtain heq | heq | ⟨r, hread, hrest⟩ := serverEvent_cases cfg s hup read write w
  · rw [heq]
    exact h
  · rw [heq]
    exact kept_closeServer R h s
  · have hr : J r.1 := by
      rcases hread with rfl | ⟨inp, -, rfl⟩
      · exact h
      · exact kept_serverRead R h s inp
    rcases hrest with ⟨-, heq⟩ | ⟨-, heq | heq⟩
    · rw [heq]
      exact R.calm hr (calm_serverSend s write _)
    · rw [heq]
      exact kept_closeServer R hr s
    · rw [heq]
      exact hr

/-! ### The slot map -/

theorem kept_setSlotMap (h : J w) (nodes : List RedisNode) (connects : ℕ → Connect) :
    J (w.setSlotMap cfg nodes connects).1 := by
  unfold setSlotMap
  split
  · exact h
  · rename_i x _
    refine R.calm (R.calm (kept_reroute R h x) ?_) (calm_pollServers _ _)
    refine Calm.trans ?_ (calm_retryEach _ _)
    exact (Calm.expired _ false).trans (.of_traffic ⟨rfl, rfl, rfl, fun _ => rfl⟩)

theorem kept_clusterDown (h : J w) : J (w.clusterDown cfg) := by
  unfold clusterDown
  dsimp only
  have hroute := kept_reroute R h (w.routes.clear fun s => cfg.rank (.server s))
  generalize w.reroute cfg (w.routes.clear fun s => cfg.rank (.server s)) = w' at hroute
  refine R.calm hroute ?_
  have htake : w'.Calm { w' with retryingCommands := [] } := .of_traffic ⟨rfl, rfl, rfl, fun _ => rfl⟩
  refine (htake.trans ?_).trans (.expired _ false)
  exact calm_foldl (fun w k => calm_respond k clusterDownRsp true w) _ _

theorem kept_outcome (h : J w) (connects : ℕ → Connect) (o : Option Outcome) : J (w.outcome cfg connects o).1 := by
  unfold outcome
  split
  · exact h
  · exact kept_setSlotMap R h _ _
  · exact kept_clusterDown R h

theorem kept_notifyUpdated (h : J w) (u : UpdaterId) (answer : Option (List RedisNode)) (connects : ℕ → Connect) :
    J (w.notifyUpdated cfg u answer connects).1 :=
  kept_outcome R (R.finished h u answer) connects _

theorem kept_updaterEvent (h : J w) (u : UpdaterId) (reply : Reply) (connects : ℕ → Connect) :
    J (w.updaterEvent cfg u reply connects).1 := by
  unfold updaterEvent
  split
  · exact kept_notifyUpdated R h u none connects
  · exact kept_notifyUpdated R h u none connects
  · exact kept_notifyUpdated R h u _ connects
  · exact R.calm h (calm_pollMod ..)
  · exact R.calm h (calm_pollMod ..)
  · exact h

theorem kept_newUpdaters : ∀ (rs : List (Address × Connect)) {w : World}, J w → J (newUpdaters cfg rs w).1
  | [], _, h => h
  | (_, .opened) :: rs, _, h => kept_newUpdaters rs (R.newUpdater h)
  | (_, .socketError) :: _, _, h => h
  | (_, .refused) :: rs, _, h => kept_newUpdaters rs (R.tryUpdater h)
  | (_, .unknownHost) :: rs, _, h => kept_newUpdaters rs (R.tryUpdater h)

theorem kept_updateSlotMapFailed (h : J w) (connects : ℕ → Connect) : J (w.updateSlotMapFailed cfg connects).1 :=
  kept_outcome R (R.failed h) connects _

theorem kept_retrieveSlotMap (h : J w) (remotes : List (Address × Connect)) (connects : ℕ → Connect) :
    J (w.retrieveSlotMap cfg remotes connects).1 := by
  unfold retrieveSlotMap
  split
  · exact kept_updateSlotMapFailed R h connects
  · refine andThen_inv (I := J) (kept_newUpdaters R remotes h) fun w hw => ?_
    split
    · exact kept_updateSlotMapFailed R hw connects
    · exact hw

theorem kept_update (h : J w) (remotes : List (Address × Connect)) (connects : ℕ → Connect) :
    J (w.update cfg remotes connects).1 := by
  unfold update
  split
  · exact andThen_inv (I := J) (kept_retrieveSlotMap R h remotes connects) fun w hw => R.calm hw (calm_pollCtl w)
  · exact h

/-! ### Events -/

theorem kept_newClients : ∀ (n : ℕ) {w : World}, J w → J (w.newClients cfg n)
  | 0, _, h => h
  | n + 1, _, h => kept_newClients n (R.newClient h)

theorem kept_acceptEvent (h : J w) (n : ℕ) (ended : AcceptEnd) : J (w.acceptEvent cfg n ended).1 := by
  have hnew : J (w.newClients cfg n) := kept_newClients R n h
  unfold acceptEvent
  split
  · exact hnew
  · exact R.exhausted hnew
  · exact hnew

theorem EventRules.onEvents (h : J w) {e : Event} (he : e.Meets T D) (hC : ∀ c, e.conn = .client c → C c) :
    J (w.onEvents cfg e).1 := by
  cases e with
  | accept n ended => exact kept_acceptEvent R h n ended
  | server s hup read write => exact kept_serverEvent R h s hup read write
  | client c hup read write conv => exact kept_clientEvent R h (hC c rfl) hup read write (he.connect _ _ _ _ conv rfl)
  | updater u reply connects => exact kept_updaterEvent R h u reply connects
  | longClient l hup read write => exact kept_longClientEvent R.toLongRules h (he.long l rfl) hup read write
  | longServer l hup read write first second =>
      exact kept_longServerEvent R.toLongRules.half h (he.long l rfl) hup read write first

theorem EventRules.onError (h : J w) {e : Event} (he : e.Meets T D) : J (w.onError cfg e).1 := by
  cases e with
  | accept n ended => exact h
  | server s hup read write => exact kept_closeServer R h s
  | client c hup read write conv => exact h
  | updater u reply connects => exact kept_notifyUpdated R h u none connects
  | longClient l hup read write => exact R.closeLong h (he.long l rfl)
  | longServer l hup read write first second =>
      exact kept_longServerError R.toLongRules.half h (he.long l rfl) second

theorem EventRules.event (sets : ∀ {w}, J w → ∀ a c, J { w with activeConns := a, closedConns := c }) (h : J w)
    {e : Event} (he : e.Meets T D) (hC : ∀ c, e.conn = .client c → C c) : J (w.event cfg e).1 :=
  kept_handlers sets (fun h => R.onEvents h he hC) (fun h => R.onError h he) h

end EventRules

section Rules

variable {cfg : Config} {w : World} {T : LongId → Prop} {D : Connect → Prop} {J : World → Prop}
  (R : Rules cfg T D J)

include R

theorem kept_onEvents (h : J w) {e : Event} (he : e.Meets T D) : J (w.onEvents cfg e).1 :=
  R.events.onEvents h he fun _ _ => trivial

theorem kept_onError (h : J w) {e : Event} (he : e.Meets T D) : J (w.onError cfg e).1 :=
  R.events.onError h he

end Rules

/-! ### The pieces -/

/-- What else the pieces of `handle_events` do. -/
structure StepRules (cfg : Config) (T : LongId → Prop) (D : Connect → Prop) (J : World → Prop) : Prop
    extends Rules cfg T D J where
  sets : ∀ {w}, J w → ∀ a c, J { w with activeConns := a, closedConns := c }
  fdClosed : ∀ {w}, J w → ∀ b, J { w with fdClosed := b }
  destroyClient : ∀ {w}, J w → ∀ c, J { w with
    toTraffic := w.toTraffic.destroyClient c
    clientsCount := w.clientsCount - 1 }
  clearFinished : ∀ {w}, J w → J w.clearFinished

section StepRules

variable {cfg : Config} {w : World} {T : LongId → Prop} {D : Connect → Prop} {J : World → Prop}
  (R : StepRules cfg T D J)

include R

theorem kept_closeInactive : ∀ (ls : List LongId) {w : World}, J w → (∀ l ∈ ls, T l) → J (closeInactive ls w).1
  | [], _, h, _ => h
  | l :: ls, w, h, hT => by
      unfold closeInactive
      split
      · have hclose := R.fdClosed (R.closeLong h (hT l List.mem_cons_self)) true
        exact kept_closeInactive ls hclose fun l hl => hT l (List.mem_cons_of_mem _ hl)
      · exact h

theorem kept_start (h : J w) (hT : ∀ l ∈ w.longs.inactive, T l)
    (hclear : ∀ w, J w → J { w with longs := { w.longs with inactive := [] } }) : J w.start.1 := by
  refine andThen_inv (I := J) (kept_closeInactive R _ h hT) fun w' hw' => ?_
  exact hclear _ (R.sets hw' [] (w.longs.inactive.map .longClient))

theorem kept_event (h : J w) {e : Event} (he : e.Meets T D) : J (w.event cfg e).1 :=
  R.toRules.events.event R.sets h he fun _ _ => trivial

theorem kept_afterEvents (h : J w) (c : Conn)
    (hlong : ∀ l a, c.long = some l → c ∈ w.activeConns → w.closed c = true → J { w with activeConns := a } →
      J (destroyLong l { w with activeConns := a })) : J (w.afterEvents c).1 := by
  unfold afterEvents
  split
  · exact h
  · rename_i hactive
    rw [not_not] at hactive
    split
    · exact h
    · split
      · exact h
      · rename_i hclosed
        rw [not_not] at hclosed
        split
        · exact R.calm h (.expired w true)
        · exact R.fdClosed (R.destroyClient h _) true
        · exact hlong _ _ rfl hactive hclosed (R.sets h _ w.closedConns)
        · exact hlong _ _ rfl hactive hclosed (R.sets h _ w.closedConns)
        · exact h

theorem kept_resume (h : J w) : J w.resume := by
  unfold resume
  split
  · have hfd := R.fdClosed h false
    unfold turnOnAccepting
    split
    · exact hfd
    · exact R.acceptor hfd true (some false)
  · exact h

/-- What a piece has to be like for the rules to apply to it. -/
def Step.Meets (T : LongId → Prop) (D : Connect → Prop) (J : World → Prop) (w : World) : Step → Prop
  | .start => J w.start.1
  | .event e => e.Meets T D
  | .afterEvents c => ∀ l a, c.long = some l → c ∈ w.activeConns → w.closed c = true → J { w with activeConns := a } →
      J (destroyLong l { w with activeConns := a })
  | _ => True

theorem kept_step (h : J w) {st : Step} (hst : st.Meets T D J w) : J (w.step cfg st).1 := by
  cases st with
  | start => exact hst
  | event e => exact kept_event R h hst
  | pollCtl => exact R.calm h (calm_pollCtl w)
  | afterEvents c => exact kept_afterEvents R h c hst
  | clearFinished => exact R.clearFinished h
  | update remotes connects => exact kept_update R.toRules.events h remotes connects
  | resume => exact kept_resume R h
  | expire => exact R.calm h (.expired w true)

end StepRules

/-! ### Calls of `handle_events` -/

/-- What happens to a proxy: a call of `handle_events`, or `update_slot_map` by another thread. -/
inductive Turn where
  | handle (b : Batch)
  | expire

def turn (cfg : Config) (w : World) : Turn → World × Option ConnThrow
  | .handle b => w.handleEvents cfg b
  | .expire => ({ w with slotMapExpired := true }, none)

/-- The pieces before `after_events`. -/
def Batch.firstPieces (b : Batch) : List Step := .start :: b.events.map .event ++ [.pollCtl]

def Turn.pieces (cfg : Config) (w : World) : Turn → List Step
  | .handle b => b.firstPieces ++ ((inOrder cfg (w.steps cfg b.firstPieces).1.activeConns).map .afterEvents ++
      [.clearFinished, .update b.remotes b.connects, .resume])
  | .expire => [.expire]

theorem andThen_none {r : World × Option ConnThrow} {f : World → World × Option ConnThrow}
    (h : (andThen r f).2 = none) : r.2 = none ∧ andThen r f = f r.1 := by
  unfold andThen at h ⊢
  split at h
  · rename_i hr
    exact ⟨hr, rfl⟩
  · rename_i e hr
    rw [hr] at h
    cases h

theorem steps_append (cfg : Config) : ∀ (sts sts' : List Step) (w : World),
    w.steps cfg (sts ++ sts') = andThen (w.steps cfg sts) (steps cfg sts')
  | [], _, _ => rfl
  | st :: sts, sts', w => by
      show andThen (w.step cfg st) (steps cfg (sts ++ sts')) = andThen (andThen (w.step cfg st) (steps cfg sts)) _
      unfold andThen
      cases h : (w.step cfg st).2 with
      | none => exact steps_append cfg sts sts' _
      | some e =>
          dsimp only
          rw [h]

theorem steps_cons_none {cfg : Config} {w : World} {st : Step} {sts : List Step}
    (h : (w.steps cfg (st :: sts)).2 = none) :
    (w.step cfg st).2 = none ∧ w.steps cfg (st :: sts) = (w.step cfg st).1.steps cfg sts :=
  andThen_none h

theorem steps_append_none {cfg : Config} {w : World} {sts sts' : List Step}
    (h : (w.steps cfg (sts ++ sts')).2 = none) :
    (w.steps cfg sts).2 = none ∧ w.steps cfg (sts ++ sts') = (w.steps cfg sts).1.steps cfg sts' := by
  rw [steps_append] at h ⊢
  exact andThen_none h

/-- A run of pieces that meet a condition. -/
theorem Reached.steps_of {cfg : Config} {w₀ : World} {P : Step → Prop} : ∀ (sts : List Step) {w : World},
    Runs.Reachable (fun w st => (w.step cfg st).1) (fun w st => (w.step cfg st).2 = none ∧ P st) w₀ w →
    (w.steps cfg sts).2 = none → (∀ st ∈ sts, P st) →
    Runs.Reachable (fun w st => (w.step cfg st).1) (fun w st => (w.step cfg st).2 = none ∧ P st) w₀ (w.steps cfg sts).1
  | [], _, h, _, _ => h
  | st :: sts, w, h, hs, hP => by
      obtain ⟨hst, heq⟩ := andThen_none hs
      rw [World.steps, heq] at hs ⊢
      exact Reached.steps_of sts (h.step ⟨hst, hP st List.mem_cons_self⟩) hs fun st hmem =>
        hP st (List.mem_cons_of_mem _ hmem)

theorem turn_eq_steps (cfg : Config) (w : World) (t : Turn) : w.turn cfg t = w.steps cfg (t.pieces cfg w) := by
  cases t with
  | expire => rfl
  | handle b =>
      show w.handleEvents cfg b = w.steps cfg (_ ++ _)
      rw [steps_append]
      rfl

theorem Reached.turn {cfg : Config} {w : World} (h : Reached cfg w) {t : Turn} (ht : (w.turn cfg t).2 = none) :
    Reached cfg (w.turn cfg t).1 := by
  rw [turn_eq_steps] at ht ⊢
  exact Reached.steps _ h ht

theorem Reached.turns {cfg : Config} : ∀ (ts : List Turn) {w : World}, Reached cfg w →
    Runs.Along (fun w t => (w.turn cfg t).1) (fun w t => (w.turn cfg t).2 = none) w ts →
    Reached cfg (ts.foldl (fun w t => (w.turn cfg t).1) w)
  | [], _, h, _ => h
  | _ :: ts, _, h, hts => Reached.turns ts (Reached.turn h hts.1) hts.2

end World

end Cerberus
