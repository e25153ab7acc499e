import Cerberus.Queues
import Cerberus.Runs

/-! # Commands are neither lost nor duplicated

Every piece of the proxy keeps `Traffic.Inv`, whatever it throws: the events of all connections,
the responses of the backends, new slot maps and the loss of the cluster, and the ends of clients
and long connections.  In between, every command that has been given out and not been answered is
in one queue once, and the queues know no command of a client that is gone. -/

namespace Cerberus

/-! ### The pieces of the proxy -/

namespace World

variable {cfg : Config} {w : World} {hand : List CmdId} {k : CmdId} {c : ClientId} {s : ServerId}

theorem call_toTraffic (c : ClientId) (w : World) (a : ClientCall) :
    (w.call c a).toTraffic = w.toTraffic.call c a := by
  cases a with
  | reactivate k =>
      unfold call
      dsimp only
      split
      · rename_i h
        rw [Traffic.call, h]
      · rename_i h
        rw [Traffic.call, h]
  | effect e => cases e <;> rfl
  | _ => rfl

theorem clientCall_toTraffic (conv : Conversion) (c : ClientId) (w : World) (a : ClientCall) :
    (w.clientCall cfg conv c a).toTraffic = w.toTraffic.call c a := by
  cases a with
  | deliverClient g =>
      unfold clientCall deliverClient
      dsimp only
      split
      · rfl
      · split <;> rfl
  | _ => exact call_toTraffic ..

theorem foldl_call_toTraffic (c : ClientId) : ∀ (cs : List ClientCall) (w : World),
    (cs.foldl (call c) w).toTraffic = cs.foldl (Traffic.call c) w.toTraffic
  | [], _ => rfl
  | a :: cs, w => by
      rw [List.foldl_cons, List.foldl_cons, foldl_call_toTraffic c cs, call_toTraffic]

theorem foldl_clientCall_toTraffic (conv : Conversion) (c : ClientId) : ∀ (cs : List ClientCall) (w : World),
    (cs.foldl (clientCall cfg conv c) w).toTraffic = cs.foldl (Traffic.call c) w.toTraffic
  | [], _ => rfl
  | a :: cs, w => by
      rw [List.foldl_cons, List.foldl_cons, foldl_clientCall_toTraffic conv c cs, clientCall_toTraffic]

theorem andThen_inv {I : World → Prop} {r : World × Option ConnThrow} {f : World → World × Option ConnThrow}
    (hr : I r.1) (hf : ∀ w, I w → I (f w).1) : I (andThen r f).1 := by
  unfold andThen
  split
  · exact hf _ hr
  · exact hr

theorem foldl_serverCall_toTraffic : ∀ (cs : List ServerCall) (w : World),
    (cs.foldl (serverCall cfg) w).toTraffic = cs.foldl (Traffic.serverCall cfg.mode.isSome) w.toTraffic
  | [], _ => rfl
  | .opened _ :: cs, _ => foldl_serverCall_toTraffic cs _
  | .closed _ :: cs, _ => foldl_serverCall_toTraffic cs _

/-! ### What leaves the commands alone -/

theorem pollMod_toTraffic (c : Conn) (b : Bool) (w : World) : (w.pollMod c b).1.toTraffic = w.toTraffic := by
  unfold pollMod
  split <;> rfl

theorem pollServers_toTraffic : ∀ (ss : List ServerId) (w : World), (pollServers ss w).1.toTraffic = w.toTraffic
  | [], _ => rfl
  | s :: ss, w => by
      refine andThen_inv (I := fun w' => w'.toTraffic = w.toTraffic) (pollMod_toTraffic ..) fun w' hw' => ?_
      rw [pollServers_toTraffic ss, hw']

theorem pollEach_toTraffic : ∀ (ps : List (Conn × Bool)) (w : World), (pollEach ps w).1.toTraffic = w.toTraffic
  | [], _ => rfl
  | (c, b) :: ps, w => by
      unfold pollEach
      split
      · exact pollEach_toTraffic ps w
      · refine andThen_inv (I := fun w' => w'.toTraffic = w.toTraffic) (pollMod_toTraffic ..) fun w' hw' => ?_
        rw [pollEach_toTraffic ps, hw']

theorem pollCtl_toTraffic (w : World) : w.pollCtl.1.toTraffic = w.toTraffic := pollEach_toTraffic ..

theorem newUpdaters_toTraffic : ∀ (rs : List (Address × Connect)) (w : World),
    (newUpdaters cfg rs w).1.toTraffic = w.toTraffic
  | [], _ => rfl
  | (_, .opened) :: rs, _ => newUpdaters_toTraffic rs _
  | (_, .socketError) :: _, _ => rfl
  | (_, .refused) :: rs, _ => newUpdaters_toTraffic rs _
  | (_, .unknownHost) :: rs, _ => newUpdaters_toTraffic rs _

theorem closeInactive_toTraffic : ∀ (ls : List LongId) (w : World), (closeInactive ls w).1.toTraffic = w.toTraffic
  | [], _ => rfl
  | l :: ls, w => by
      unfold closeInactive
      split
      · exact closeInactive_toTraffic ls _
      · rfl

theorem longClientEvent_toTraffic (l : LongId) (hup : Bool) (read : Option Input) (write : Bool) (w : World) :
    (w.longClientEvent l hup read write).1.toTraffic = w.toTraffic := by
  have hclose : ∀ b : Prop, [Decidable b] → (if b then w.closeLong l else w).toTraffic = w.toTraffic := by
    intro b _
    split <;> rfl
  unfold longClientEvent
  split
  · rfl
  · split
    · exact hclose _
    · split
      · rfl
      · split
        · rfl
        · exact hclose _

/-! ### What moves them -/

/-- What the event of a backend comes to.  `r` is the state when everything has been read, and what
was thrown. -/
theorem serverEvent_cases (cfg : Config) (s : ServerId) (hup : Bool) (read : Option Input)
    (write : Option (List WriteAnswer)) (w : World) :
    w.serverEvent cfg s hup read write = (w, none) ∨
    w.serverEvent cfg s hup read write = (w.closeServer cfg s, none) ∨
    ∃ r, (r = (w, none) ∨ ∃ inp, read = some inp ∧ r = w.serverRead cfg s inp) ∧
      (r.2 = none ∧ w.serverEvent cfg s hup read write = r.1.serverSend s write ∨
      r.2 ≠ none ∧ (w.serverEvent cfg s hup read write = (r.1.closeServer cfg s, none) ∨
        w.serverEvent cfg s hup read write = r)) := by
  unfold serverEvent
  split
  · exact Or.inl rfl
  · split
    · exact Or.inr (Or.inl rfl)
    · refine Or.inr (Or.inr ?_)
      cases read with
      | none => exact ⟨(w, none), Or.inl rfl, Or.inl ⟨rfl, rfl⟩⟩
      | some inp =>
          refine ⟨_, Or.inr ⟨inp, rfl, rfl⟩, ?_⟩
          dsimp only
          generalize w.serverRead cfg s inp = r
          obtain ⟨w', _ | e⟩ := r
          · exact Or.inl ⟨rfl, rfl⟩
          · refine Or.inr ⟨Option.some_ne_none e, ?_⟩
            cases e with
            | bad => exact Or.inl rfl
            | _ => exact Or.inr rfl

/-- The responses that a backend is found to have sent. -/
def Hears (P : Bytes → Bool → Prop) (w : World) : Step → Prop
  | .event (.server s _ (some inp) _) => ∀ rsps, ((w.servers s).recvFrom inp).2 = .delivered rsps →
      ∀ k rsp error, (k, Response.normal rsp error) ∈ rsps → P rsp error
  | _ => True

theorem hears_true (w : World) (st : Step) : w.Hears (fun _ _ => True) st := by
  unfold Hears
  split
  · exact fun _ _ _ _ _ _ => trivial
  · trivial

section Rules

variable {P : Bytes → Bool → Prop} {J : Bool → List CmdId → Traffic → Prop} (R : Traffic.OtherMoves P J)

include R

/-- `on_remote_responsed` of a command that has been taken out of a queue: it is answered, or it
goes to a queue again. -/
theorem inv_respond {b : Bool} {rsp : Bytes} {error : Bool} (h : J b (k :: hand) w.toTraffic)
    (hb : b = false → rsp = clusterDownRsp ∧ error = true) (hP : b = true → P rsp error) :
    J b hand (w.respond k rsp error).toTraffic := by
  have hinv := R.inv h
  obtain ⟨hlive, hk⟩ := hinv.outstanding_owner (hinv.outstanding_of_hand List.mem_cons_self)
  unfold respond
  dsimp only
  rw [foldl_call_toTraffic]
  cases hlast : ((w.objects.cmds k).onRemoteResponsed rsp error).2 with
  | true =>
      have hans := Session.answered_onRemoteResponsed (s := w.session (w.owner k) []) rfl hinv.built
        (hinv.tidy _ hlive) hk hlast
      have hdone := R.last h hb hP hlast
      rw [if_pos rfl]
      rcases hans.calls with hcalls | hcalls
      · rw [hcalls]
        exact hdone
      · rw [hcalls]
        exact hdone
  | false =>
      have hsame : Function.update w.clients (w.owner k) (w.clients (w.owner k)) = w.clients :=
        Function.update_eq_self ..
      have hagain := R.again h hb hP hlast
      rw [if_neg Bool.false_ne_true, Session.onRemoteResponsed_again hlast]
      show J b hand (Traffic.selectServer k _).1
      unfold Traffic.store
      dsimp only [Session.call, Traffic.session]
      rw [hsame]
      exact hagain

theorem inv_rspTo : ∀ (rsps : List (CmdId × Response)) {w : World},
    (∀ k rsp error, (k, Response.normal rsp error) ∈ rsps → P rsp error) → J true (rsps.map Prod.fst) w.toTraffic →
    J false [] (rsps.foldl rspTo w).toTraffic
  | [], _, _, h => R.idle h false
  | (k, r) :: rsps, w, hP, h => by
      refine inv_rspTo rsps (fun j rsp error hj => hP j rsp error (List.mem_cons_of_mem _ hj)) ?_
      cases r with
      | normal rsp error => exact inv_respond R h nofun fun _ => hP k rsp error List.mem_cons_self
      | retryMovedAsk => exact R.retryLater h

theorem inv_reroute {y : Routes} (h : J false [] w.toTraffic) (hy : ∃ cs, w.routes.registry.Follows cs y.registry) :
    J false [] (w.reroute cfg y).toTraffic := by
  obtain ⟨cs, hcs⟩ := hy
  have hcalls := hcs.calls
  rw [(R.inv h).calls, List.nil_append] at hcalls
  unfold reroute
  rw [hcalls, foldl_serverCall_toTraffic]
  exact R.reroute h hcs cfg.mode.isSome

theorem inv_closeServer (h : J false [] w.toTraffic) (s : ServerId) : J false [] (w.closeServer cfg s).toTraffic :=
  inv_reroute R h ((R.inv h).sound.closeConn s)

/-! ### Clients -/

/-- What a client has begun to wait for is given out. -/
theorem inv_settle {t : Session} {script : List WriteAnswer} (hledger : t.Ledger (w.session c script))
    (hstore : J false (Session.selected t.calls) (w.store t)) (conv : Conversion) :
    J false [] (w.settle cfg conv t).toTraffic := by
  have hinv : J false [] (t.calls.foldl (clientCall cfg conv t.self) { w with toTraffic := w.store t }).toTraffic := by
    rw [foldl_clientCall_toTraffic]
    refine R.foldl_call t.calls hstore (q := w.due c) ?_
    show Session.Plays t.calls _ (t.objects.due (Function.update w.clients t.self t.client t.self).awaitingGroups)
    rw [Function.update_self]
    exact hledger.plays
  unfold settle
  dsimp only
  split
  · exact hinv
  · exact hinv

/-! ### Backends -/

theorem inv_serverRead (h : J false [] w.toTraffic) (hs : s < w.routes.registry.allocated) (inp : Input)
    (hP : ∀ rsps, ((w.servers s).recvFrom inp).2 = .delivered rsps →
      ∀ k rsp error, (k, Response.normal rsp error) ∈ rsps → P rsp error) :
    J false [] (w.serverRead cfg s inp).1.toTraffic := by
  have hset := R.recvFrom h hs inp
  unfold serverRead
  dsimp only
  split
  · rename_i rsps heq
    rw [heq] at hset
    exact inv_rspTo R rsps (hP rsps heq) hset
  · rename_i heq
    rw [heq] at hset
    exact inv_closeServer R (R.idle hset false) s
  · rename_i heq
    rw [heq] at hset
    exact R.idle hset false

theorem inv_serverSend (h : J false [] w.toTraffic) (s : ServerId) (write : Option (List WriteAnswer)) :
    J false [] (w.serverSend s write).1.toTraffic := by
  have hpush : J false [] (w.setServer s (w.servers s).pushToBufferSet) := R.pushToBufferSet h s
  unfold serverSend
  refine andThen_inv (I := fun w => J false [] w.toTraffic) ?_ fun w hw => ?_
  · cases write with
    | none => exact hpush
    | some script => exact R.written hpush s _
  · split
    · exact hw
    · exact hw

theorem inv_serverEvent (h : J false [] w.toTraffic) (hs : s < w.routes.registry.allocated) (hup : Bool) (read : Option Input)
    (write : Option (List WriteAnswer)) (hP : w.Hears P (.event (.server s hup read write))) : J false [] (w.serverEvent cfg s hup read write).1.toTraffic := by
  obtain heq | heq | ⟨r, hread, hrest⟩ := serverEvent_cases cfg s hup read write w
  · rw [heq]
    exact h
  · rw [heq]
    exact inv_closeServer R h s
  · have hr : J false [] r.1.toTraffic := by
      rcases hread with rfl | ⟨inp, rfl, rfl⟩
      · exact h
      · exact inv_serverRead R h hs inp hP
    rcases hrest with ⟨-, heq⟩ | ⟨-, heq | heq⟩
    · rw [heq]
      exact inv_serverSend R hr s write
    · rw [heq]
      exact inv_closeServer R hr s
    · rw [heq]
      exact hr

/-! ### The slot map -/

theorem inv_retryEach : ∀ (ks : List CmdId) {w : World}, J false ks w.toTraffic → J false [] (retryEach ks w).1.toTraffic
  | [], _, h => h
  | k :: ks, w, h => by
      have hsel := R.selectServer h
      unfold retryEach
      split
      · rename_i heq
        rw [heq] at hsel
        exact inv_retryEach ks hsel
      · rename_i heq
        rw [heq] at hsel
        exact inv_retryEach ks hsel

theorem inv_setSlotMap (h : J false [] w.toTraffic) (nodes : List RedisNode) (connects : ℕ → Connect) :
    J false [] (w.setSlotMap cfg nodes connects).1.toTraffic := by
  unfold setSlotMap
  split
  · exact h
  · rename_i x heq
    have hfollows := Routes.replaceMap_follows (R.inv h).sound (congrArg Prod.snd heq)
    rw [heq] at hfollows
    have hroute : J false [] (w.reroute cfg x).toTraffic := inv_reroute R h hfollows
    rw [pollServers_toTraffic]
    exact inv_retryEach R _ (R.takeRetrying hroute)

theorem inv_clusterDown (h : J false [] w.toTraffic) : J false [] (w.clusterDown cfg).toTraffic := by
  have hfold : ∀ (ks : List CmdId) {w : World}, J false ks w.toTraffic →
      J false [] (ks.foldl (fun w k => w.respond k clusterDownRsp true) w).toTraffic := by
    intro ks
    induction ks with
    | nil => exact fun h => h
    | cons k ks ih => exact fun h => ih (inv_respond R h (fun _ => ⟨rfl, rfl⟩) nofun)
  have hroute : J false [] (w.reroute cfg (w.routes.clear fun s => cfg.rank (.server s))).toTraffic :=
    inv_reroute R h (Routes.clear_follows _ (R.inv h).sound)
  unfold clusterDown
  generalize w.reroute cfg (w.routes.clear fun s => cfg.rank (.server s)) = w' at hroute
  exact hfold _ (R.takeRetrying hroute)

theorem inv_outcome (h : J false [] w.toTraffic) (connects : ℕ → Connect) (o : Option Outcome) :
    J false [] (w.outcome cfg connects o).1.toTraffic := by
  unfold outcome
  split
  · exact h
  · exact inv_setSlotMap R h _ _
  · exact inv_clusterDown R h

theorem inv_notifyUpdated (h : J false [] w.toTraffic) (u : UpdaterId) (answer : Option (List RedisNode))
    (connects : ℕ → Connect) : J false [] (w.notifyUpdated cfg u answer connects).1.toTraffic := by
  unfold notifyUpdated
  apply inv_outcome R
  exact h

theorem inv_updaterEvent (h : J false [] w.toTraffic) (u : UpdaterId) (reply : Reply) (connects : ℕ → Connect) :
    J false [] (w.updaterEvent cfg u reply connects).1.toTraffic := by
  unfold updaterEvent
  split
  · exact inv_notifyUpdated R h u none connects
  · exact inv_notifyUpdated R h u none connects
  · exact inv_notifyUpdated R h u _ connects
  · rw [pollMod_toTraffic]
    exact h
  · rw [pollMod_toTraffic]
    exact h
  · exact h

theorem inv_updateSlotMapFailed (h : J false [] w.toTraffic) (connects : ℕ → Connect) :
    J false [] (w.updateSlotMapFailed cfg connects).1.toTraffic := by
  unfold updateSlotMapFailed
  apply inv_outcome R
  exact h

theorem inv_retrieveSlotMap (h : J false [] w.toTraffic) (remotes : List (Address × Connect)) (connects : ℕ → Connect) :
    J false [] (w.retrieveSlotMap cfg remotes connects).1.toTraffic := by
  unfold retrieveSlotMap
  split
  · exact inv_updateSlotMapFailed R h connects
  · refine andThen_inv (I := fun w => J false [] w.toTraffic) ?_ fun w hw => ?_
    · rw [newUpdaters_toTraffic]
      exact h
    · split
      · exact inv_updateSlotMapFailed R hw connects
      · exact hw

/-! ### Long connections -/

theorem inv_restoreClient (h : J false [] w.toTraffic) (l : LongId) (updateSlotMap : Bool) (answer : Option ConnThrow) :
    J false [] (w.restoreClient l updateSlotMap answer).1.toTraffic := by
  unfold restoreClient
  split
  · exact h
  · split
    · exact h
    · exact R.newClient h

theorem inv_longServerError (h : J false [] w.toTraffic) (l : LongId) (answer : Option ConnThrow) :
    J false [] (w.longServerError l answer).1.toTraffic := by
  unfold longServerError
  split
  · exact h
  · exact inv_restoreClient R (w := w.closeLongServer l) h l true answer

theorem inv_unexpectedWrite (h : J false [] w.toTraffic) (l : LongId) (write : Bool) (answer : Option ConnThrow) :
    J false [] (w.unexpectedWrite l write answer).1.toTraffic := by
  unfold unexpectedWrite
  split
  · exact inv_longServerError R h l answer
  · exact h

theorem inv_popped (h : J false [] w.toTraffic) (l : LongId) (inp : Input) (write : Bool) (answer : Option ConnThrow) :
    J false [] (w.popped l inp write answer).1.toTraffic := by
  unfold popped
  split
  · exact h
  · exact h
  · dsimp only
    split
    · exact h
    · refine andThen_inv (I := fun w => J false [] w.toTraffic) ?_ fun w hw => inv_unexpectedWrite R hw l write answer
      apply inv_restoreClient R
      exact h

theorem inv_longServerEvent (h : J false [] w.toTraffic) (l : LongId) (hup : Bool) (read : Option Input) (write : Bool)
    (answer : Option ConnThrow) : J false [] (w.longServerEvent l hup read write answer).1.toTraffic := by
  unfold longServerEvent
  split
  · exact inv_longServerError R h l answer
  · split
    · exact inv_unexpectedWrite R h l write answer
    · unfold longServerRead
      split
      · exact h
      · split
        · exact h
        · split
          · exact inv_longServerError R h l answer
          · split
            · refine andThen_inv (I := fun w => J false [] w.toTraffic) ?_ fun w hw => inv_unexpectedWrite R hw l write answer
              unfold publish
              split
              · exact h
              · exact h
            · exact inv_popped R h l _ write answer

/-! ### Rounds -/

theorem inv_newClients : ∀ (n : ℕ) {w : World}, J false [] w.toTraffic → J false [] (w.newClients cfg n).toTraffic
  | 0, _, h => h
  | n + 1, _, h => inv_newClients n (R.newClient h)

theorem inv_acceptEvent (h : J false [] w.toTraffic) (n : ℕ) (ended : AcceptEnd) : J false [] (w.acceptEvent cfg n ended).1.toTraffic := by
  have hnew : J false [] (w.newClients cfg n).toTraffic := inv_newClients R n h
  unfold acceptEvent
  split
  · exact hnew
  · exact hnew
  · exact hnew

theorem inv_onEvents_other (h : J false [] w.toTraffic) (e : Event) (he : w.Present e.conn)
    (hP : w.Hears P (.event e)) (hother : ∀ c, e.conn ≠ .client c) : J false [] (w.onEvents cfg e).1.toTraffic := by
  cases e with
  | accept n ended => exact inv_acceptEvent R h n ended
  | server s hup read write => exact inv_serverEvent R h he hup read write hP
  | client c hup read write conv => exact absurd rfl (hother c)
  | updater u reply connects => exact inv_updaterEvent R h u reply connects
  | longClient l hup read write =>
      show J false [] (w.longClientEvent l hup read write).1.toTraffic
      rw [longClientEvent_toTraffic]
      exact h
  | longServer l hup read write first _ => exact inv_longServerEvent R h l hup read write first

theorem inv_onError (h : J false [] w.toTraffic) (e : Event) : J false [] (w.onError cfg e).1.toTraffic := by
  cases e with
  | accept n ended => exact h
  | server s hup read write => exact inv_closeServer R h s
  | client c hup read write conv => exact h
  | updater u reply connects => exact inv_notifyUpdated R h u none connects
  | longClient l hup read write => exact h
  | longServer l hup read write _ second => exact inv_longServerError R h l second

/-- An event, when it is known what `on_events` comes to. -/
theorem inv_event_of {e : Event} (h : J false [] w.toTraffic) (hon : w.Present e.conn →
      J false [] (({ w with activeConns := w.activeConns.insert e.conn } : World).onEvents cfg e).1.toTraffic) :
    J false [] (w.event cfg e).1.toTraffic := by
  unfold event
  split
  · exact h
  · rename_i hpresent
    rw [not_not] at hpresent
    split
    · exact h
    · have hon := hon hpresent
      dsimp only
      split
      · refine andThen_inv (I := fun w => J false [] w.toTraffic) (inv_onError R hon e) fun w hw => ?_
        exact hw
      · exact hon

theorem inv_afterEvents (h : J false [] w.toTraffic) (c : Conn) : J false [] (w.afterEvents c).1.toTraffic := by
  unfold afterEvents
  split
  · exact h
  · split
    · exact h
    · split
      · exact h
      · split
        · exact h
        · exact R.destroyClient h _
        · exact h
        · exact h
        · exact h

/-- The pieces of `handle_events` but for the events of clients. -/
theorem inv_step_other (h : J false [] w.toTraffic) (st : Step) (hP : w.Hears P st)
    (hother : ∀ e c, st = .event e → e.conn ≠ .client c) : J false [] (w.step cfg st).1.toTraffic := by
  cases st with
  | start =>
      refine andThen_inv (I := fun w => J false [] w.toTraffic) ?_ fun w hw => hw
      rw [closeInactive_toTraffic]
      exact h
  | event e =>
      refine inv_event_of R h fun hpresent => ?_
      apply inv_onEvents_other R
      · exact h
      · cases e <;> exact hpresent
      · exact hP
      · exact fun c => hother e c rfl
  | pollCtl =>
      show J false [] w.pollCtl.1.toTraffic
      rw [pollCtl_toTraffic]
      exact h
  | afterEvents c => exact inv_afterEvents R h c
  | clearFinished => exact h
  | update remotes connects =>
      unfold step update
      dsimp only
      split
      · refine andThen_inv (I := fun w => J false [] w.toTraffic) (inv_retrieveSlotMap R h remotes connects) fun w hw => ?_
        rw [pollCtl_toTraffic]
        exact hw
      · exact h
  | resume =>
      unfold step resume
      dsimp only
      split
      · unfold turnOnAccepting
        split
        · exact h
        · exact h
      · exact h
  | expire => exact h

end Rules

section Moves

variable {P : Bytes → Bool → Prop} {J : Bool → List CmdId → Traffic → Prop} (R : Traffic.Moves cfg.env P J)

include R

theorem inv_clientEvent (h : J false [] w.toTraffic) (hc : c ∈ w.liveClients) (hup : Bool) (read : Option Input)
    (write : Option (List WriteAnswer)) (conv : Conversion) :
    J false [] (w.clientEvent cfg c hup read write conv).1.toTraffic := by
  unfold clientEvent
  dsimp only
  generalize w.thrown conv _ = e
  exact inv_settle R.toOtherMoves (((R.inv h).ledger hc (write.getD [])).onEvents cfg.env e hup read write.isSome)
    (R.store h hc (write.getD []) e hup read write.isSome) conv

theorem inv_onEvents (h : J false [] w.toTraffic) (e : Event) (he : w.Present e.conn) (hP : w.Hears P (.event e)) :
    J false [] (w.onEvents cfg e).1.toTraffic := by
  cases e with
  | client c hup read write conv => exact inv_clientEvent R h he hup read write conv
  | _ => exact inv_onEvents_other R.toOtherMoves h _ he hP nofun

/-- Every piece of the proxy keeps the commands where they belong. -/
theorem inv_step (h : J false [] w.toTraffic) (st : Step) (hP : w.Hears P st) :
    J false [] (w.step cfg st).1.toTraffic := by
  cases st with
  | event e =>
      refine inv_event_of R.toOtherMoves h fun hpresent => ?_
      apply inv_onEvents R
      · exact h
      · cases e <;> exact hpresent
      · exact hP
  | _ => exact inv_step_other R.toOtherMoves h _ hP nofun

end Moves

/-- The states between the pieces of `handle_events`, in every run of the proxy. -/
abbrev Reached (cfg : Config) (w : World) : Prop :=
  Runs.Reachable (fun w st => (w.step cfg st).1) (fun w st => (w.step cfg st).2 = none) (new cfg) w

theorem Reached.steps : ∀ (sts : List Step) {w : World}, Reached cfg w → (w.steps cfg sts).2 = none →
    Reached cfg (w.steps cfg sts).1
  | [], _, h, _ => h
  | st :: sts, w, h, hs => by
      rw [World.steps] at hs ⊢
      unfold andThen at hs ⊢
      split at hs
      · rename_i hst
        exact Reached.steps sts (.step h hst) hs
      · rename_i e hst
        rw [hst] at hs
        cases hs

/-- The states of the runs in which the backends are found to send such responses. -/
abbrev Heard (cfg : Config) (P : Bytes → Bool → Prop) (w : World) : Prop :=
  Runs.Reachable (fun w st => (w.step cfg st).1) (fun w st => (w.step cfg st).2 = none ∧ w.Hears P st) (new cfg) w

theorem Heard.reached {P : Bytes → Bool → Prop} (h : Heard cfg P w) : Reached cfg w := h.mono fun _ _ hst => hst.1

theorem Reached.heard (h : Reached cfg w) : Heard cfg (fun _ _ => True) w :=
  h.mono fun w st hst => ⟨hst, w.hears_true st⟩

/-- A property that goes with the moves of the commands holds in every state. -/
theorem Heard.kept {P : Bytes → Bool → Prop} {J : Bool → List CmdId → Traffic → Prop} (h : Heard cfg P w)
    (R : Traffic.Moves cfg.env P J) (h0 : J false [] .new) : J false [] w.toTraffic :=
  Runs.Reachable.inv (I := fun w => J false [] w.toTraffic) h h0 fun _ st h hst => inv_step R h st hst.2

theorem Reached.kept {J : Bool → List CmdId → Traffic → Prop} (h : Reached cfg w)
    (R : Traffic.Moves cfg.env (fun _ _ => True) J) (h0 : J false [] .new) : J false [] w.toTraffic :=
  h.heard.kept R h0

theorem Reached.inv (h : Reached cfg w) : w.Inv [] :=
  h.kept (Traffic.rules_inv cfg.env _).moves Traffic.inv_new

/-- A command that a client has given out and that has not got its last response is in one queue,
once; a command that has got it is in none.  No command gets two last responses, and no group
counts below zero; a `SingleCommandGroup` has no count. -/
theorem commands_once (h : Reached cfg w) :
    (∀ k < w.objects.cmdCount, w.owner k ∈ w.liveClients → (w.objects.cmds k).selected = true →
      (w.objects.cmds k).responsed = false → w.occurrences k = 1) ∧
    (∀ k, (w.objects.cmds k).responsed = true → w.occurrences k = 0) ∧
    w.responsed.Nodup ∧
    ∀ g < w.objects.groupCount, (∀ c, (w.objects.groups g).kind ≠ .single c) →
      0 ≤ (w.objects.groups g).awaitingCount := by
  have hinv := h.inv
  have hocc : ∀ k, w.occurrences k = if w.Outstanding k then 1 else 0 := by
    intro k
    have := hinv.occurs k
    rw [List.count_nil, Nat.zero_add] at this
    exact this
  refine ⟨fun k hk hlive hsel hresp => ?_, fun k hresp => ?_, hinv.finals.1, fun g hg hkind => ?_⟩
  · rw [hocc, if_pos (hinv.selected k hk hlive hsel hresp)]
  · rw [hocc, if_neg]
    rintro ⟨c, hc, hk⟩
    rw [(hinv.of_due hc hk).2.2.2] at hresp
    cases hresp
  · rw [(hinv.built.ok g hg).counted hkind]
    exact Int.natCast_nonneg _

/-- The first descriptor above those that are open. -/
def above : Descriptors.Chooser where
  pick _ l := l.foldr max 0 + 1
  fresh _ l hmem := by
    have hle : ∀ {l : List Fd} {n : Fd}, n ∈ l → n ≤ l.foldr max 0 := by
      intro l
      induction l with
      | nil => exact nofun
      | cons m l ih =>
          intro n hn
          rcases List.mem_cons.mp hn with rfl | hn
          · exact le_max_left ..
          · exact (ih hn).trans (le_max_right ..)
    exact Nat.not_succ_le_self _ (hle hmem)

/-- A proxy that does not ask for full coverage. -/
def plainConfig : Config where
  env := Session.plainEnv
  fullCov := false
  mode := none
  rank _ := 0
  chooser := above

def getA : Input := ⟨ascii "*2\r\n$3\r\nGET\r\n$1\r\na\r\n", .again, 0⟩

/-- A client asks for a key before there is a slot map; the map comes, and the command is sent to
the backend. -/
def sending : List Step :=
  [.start, .event (.accept 1 .again), .event (.client 0 false (some getA) none ⟨0, .opened⟩), .pollCtl,
    .update [(⟨ascii "h", 6379⟩, .opened)] fun _ => .opened,
    .start, .event (.updater 0 (.nodes [Tracked.master "h" (15495, 15495)]) fun _ => .opened),
    .event (.server 7 false none (some [.took 5, .again]))]

theorem commands_once_sending :
    ((new plainConfig).steps plainConfig sending).2 = none ∧
    (((new plainConfig).steps plainConfig sending).1.servers 7).sentCommands = [some 0] ∧
    ((new plainConfig).steps plainConfig sending).1.occurrences 0 = 1 := by
  have hrun : ((new plainConfig).steps plainConfig sending).2 = none := by decide +kernel
  refine ⟨hrun, by decide +kernel, ?_⟩
  exact (commands_once (Reached.steps sending .refl hrun)).1 0 (by decide +kernel) (by decide +kernel)
    (by decide +kernel) (by decide +kernel)

/-- The commands of a client are in the queues of its peers, so that its destructor finds all of
them, whenever it runs; no queue has a command of a client that is gone. -/
theorem queues_forget (h : Reached cfg w) :
    (∀ c ∈ w.liveClients, ∀ s k, w.owner k = c →
      k ∈ (w.servers s).commands ∨ some k ∈ (w.servers s).sentCommands → s ∈ (w.clients c).peers) ∧
    (∀ c k, w.owner k = c → ¬ (w.destroyClient c).Queued k) ∧
    ∀ k, w.owner k ∉ w.liveClients → ¬ w.Queued k := by
  have hinv := h.inv
  refine ⟨fun c _ s k howner hk => ?_, fun c k howner hk => ?_, fun k hgone hk => ?_⟩
  · exact howner ▸ hinv.peers s k (Server.copies_pos_iff.mpr hk)
  · have hpos := (hinv.destroyClient c).occurrences_of_queued hk
    rw [hinv.occurrences_destroyClient, if_pos howner] at hpos
    exact Nat.lt_irrefl 0 hpos
  · have hpos := hinv.occurrences_of_queued hk
    exact hgone (hinv.outstanding_owner (hinv.outstanding (Nat.add_pos_right _ hpos))).1

/-- Then the client hangs up. -/
def leaving : List Step :=
  sending ++ [.event (.client 0 true none none ⟨0, .opened⟩), .pollCtl, .afterEvents (.client 0)]

theorem queues_forget_leaving :
    ((new plainConfig).steps plainConfig leaving).2 = none ∧
    (((new plainConfig).steps plainConfig leaving).1.servers 7).sentCommands = [none] ∧
    ¬ ((new plainConfig).steps plainConfig leaving).1.Queued 0 := by
  have hrun : ((new plainConfig).steps plainConfig leaving).2 = none := by decide +kernel
  refine ⟨hrun, by decide +kernel, ?_⟩
  exact (queues_forget (Reached.steps leaving .refl hrun)).2.2 0 (by decide +kernel)

end World

end Cerberus
