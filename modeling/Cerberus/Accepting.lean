import Cerberus.Rounds
import Cerberus.Waking

/-! # When accepting resumes

The acceptor is switched off when there are no descriptors left, and `handle_events` switches it on
again at its end if `_fd_closed` has been raised.  That is done where the long connections that have
become inactive are closed and where a client is destroyed, and nowhere else: not when the client half
of a long connection closes its descriptor (`World.accepting_resumes_iff`). -/

namespace Cerberus

/-- The connections that hold the descriptor of a client. -/
def Conn.FacesClient : Conn → Prop
  | .client _ => True
  | .longClient _ => True
  | _ => False

namespace Traffic

/-! ### A client that is closed stays so -/

def Shut (i : ClientId) (x : Traffic) : Prop := i < x.clientCount ∧ (x.clients i).closed = true

variable {x x' : Traffic} {i : ClientId}

theorem Shut.calm (h : x.Shut i) (hx : x.Calm x') : x'.Shut i := by
  refine ⟨?_, ?_⟩
  · rw [hx.clientCount]
    exact h.1
  · rw [hx.closed]
    exact h.2

theorem Shut.serverCalls (readonly : Bool) : ∀ (cs : List ServerCall) {x : Traffic}, x.Shut i →
    (cs.foldl (serverCall readonly) x).Shut i
  | [], _, h => h
  | .opened _ :: cs, _, h => Shut.serverCalls readonly cs h
  | .closed _ :: cs, _, h => Shut.serverCalls readonly cs h

theorem Shut.setClient (h : x.Shut i) {c : ClientId} {v : Client} (hv : (x.clients c).closed = true → v.closed = true) :
    (Function.update x.clients c v i).closed = true := by
  by_cases heq : i = c
  · rw [heq, Function.update_self]
    exact hv (heq ▸ h.2)
  · rw [Function.update_of_ne heq]
    exact h.2

theorem moves_shut (env : Env) (P : Bytes → Bool → Prop) (i : ClientId) :
    Moves env P fun _ hand x => x.Inv hand ∧ x.Shut i where
  inv h := h.1
  idle h _ := h
  last {_ _ x k rsp error} h hrsp hP hlast := by
    refine ⟨(rules_inv env P).last h.1 hrsp hP hlast, h.2.1, ?_⟩
    have hself := Session.onRemoteResponsed_self k rsp error (x.session (x.owner k) [])
    have hclosed := Session.onRemoteResponsed_closed k rsp error (x.session (x.owner k) [])
    show (Function.update x.clients _ _ i).closed = true
    rw [hself]
    exact h.2.setClient fun hc => hclosed.trans hc
  again {_ _ x k rsp error} h hrsp hP hagain :=
    ⟨(rules_inv env P).again h.1 hrsp hP hagain, Shut.calm (x := { x with
      objects := x.objects.setCmd k ((x.objects.cmds k).onRemoteResponsed rsp error).1 }) h.2 (calm_selectServer k _)⟩
  retryLater h := ⟨h.1.retryLater, h.2⟩
  takeRetrying h := ⟨h.1.takeRetrying, h.2⟩
  selectServer h := ⟨h.1.selectServer, h.2.calm (calm_selectServer _ _)⟩
  clearPeers h hdue := ⟨h.1.clearPeers hdue, h.2.1, h.2.setClient id⟩
  store {b x c} h hc script delivery hup read write := by
    refine ⟨(rules_inv env P).store (b := b) h.1 hc script delivery hup read write, h.2.1, ?_⟩
    have hself := Session.onEvents_self env delivery hup read write (x.session c script)
    show (Function.update x.clients _ _ i).closed = true
    rw [hself]
    exact h.2.setClient fun hc => Session.onEvents_shut env hup read write hc
  recvFrom {b _ _} h hs inp := ⟨(rules_inv env P).recvFrom (b := b) h.1 hs inp, h.2⟩
  pushToBufferSet {b _} h s := ⟨(rules_inv env P).moves.pushToBufferSet (b := b) h.1 s, h.2⟩
  written {b _} h s o := ⟨(rules_inv env P).moves.written (b := b) h.1 s o, h.2⟩
  reroute {b x y cs} h hy readonly :=
    ⟨(rules_inv env P).moves.reroute (b := b) h.1 hy readonly, Shut.serverCalls readonly cs h.2⟩
  newClient {_ x} h := by
    refine ⟨h.1.newClient, Nat.lt_succ_of_lt h.2.1, ?_⟩
    show (Function.update x.clients x.clientCount _ i).closed = true
    rw [Function.update_of_ne (Nat.ne_of_lt h.2.1)]
    exact h.2.2
  destroyClient h c := ⟨h.1.destroyClient c, h.2⟩

end Traffic

namespace World

variable {cfg : Config} {w u v : World} {l : LongId} {e : Event} {b : Batch} {st : Step} {c : Conn}

theorem shut_step {i : ClientId} (hw : Reached cfg w) (h : w.Shut i) (st : Step) : (w.step cfg st).1.Shut i :=
  (inv_step (Traffic.moves_shut cfg.env _ i) ⟨hw.inv, h⟩ st (w.hears_true st)).2

/-! ### Who holds a descriptor -/

/-- The connection has been created. -/
def Old (w : World) : Conn → Prop
  | .client i => i < w.clientCount
  | .longClient l => l < w.longs.count
  | _ => False

/-- A connection to a client that holds the descriptor `n`. -/
def Holds (c : Conn) (n : Fd) (w : World) : Prop := w.descriptors.held c = some n ∧ w.Old c

theorem Old.mono {w' : World} (h : w.Old c) (hclients : w.clientCount ≤ w'.clientCount)
    (hlongs : w.longs.count ≤ w'.longs.count) : w'.Old c := by
  cases c with
  | client i => exact lt_of_lt_of_le h hclients
  | longClient l => exact lt_of_lt_of_le h hlongs
  | _ => cases h

theorem Holds.of_held {n : Fd} {w' : World} (h : w.Holds c n) (hheld : w'.descriptors.held c = w.descriptors.held c)
    (hclients : w.clientCount ≤ w'.clientCount) (hlongs : w.longs.count ≤ w'.longs.count) : w'.Holds c n :=
  ⟨hheld.trans h.1, h.2.mono hclients hlongs⟩

theorem Old.ne (h : w.Old c) (c' : Conn) (hc' : ¬ w.Old c') : c ≠ c' := fun heq => hc' (heq ▸ h)

theorem holds_serverCall {n : Fd} (h : w.Holds c n) (a : ServerCall) : (w.serverCall cfg a).Holds c n := by
  have hne : ∀ s, c ≠ .server s := fun s => h.2.ne _ id
  cases a with
  | opened s =>
      refine h.of_held ?_ le_rfl le_rfl
      exact (Descriptors.held_create ..).trans (if_neg (hne s))
  | closed s =>
      refine h.of_held ?_ le_rfl le_rfl
      unfold serverCall
      dsimp only
      split
      · exact (Descriptors.held_close ..).trans (if_neg (hne s))
      · exact (Descriptors.held_tryOut ..).trans (if_neg (hne s))

theorem holds_deliverClient {n : Fd} (h : w.Holds c n) (conv : Conversion) {i : ClientId} (hi : c ≠ .client i)
    (g : GroupId) : (w.deliverClient cfg conv i g).Holds c n := by
  have hserver : ∀ l, c ≠ .longServer l := fun l => h.2.ne _ id
  have hclient : c ≠ .longClient w.longs.count := h.2.ne _ (lt_irrefl _)
  unfold deliverClient
  dsimp only
  split
  · exact h.of_held rfl le_rfl le_rfl
  · split
    · refine h.of_held ?_ le_rfl (Nat.le_succ _)
      refine (Descriptors.held_give ..).trans ?_
      rw [if_neg hi, if_neg hclient, Descriptors.held_create, if_neg (hserver _)]
    · refine h.of_held ?_ le_rfl le_rfl
      exact Descriptors.held_closeCopy ..
    · refine h.of_held ?_ le_rfl le_rfl
      refine (Descriptors.held_closeCopy ..).trans ?_
      exact (Descriptors.held_tryOut ..).trans (if_neg (hserver _))

/-- What does not concern the connection leaves it its descriptor. -/
theorem rules_holds (cfg : Config) (c : Conn) (n : Fd) :
    EventRules cfg (fun i => c ≠ .client i) (fun l => c ≠ .longClient l) (fun _ => True) (Holds c n) where
  calm h hcalm := h.of_held (by rw [hcalm.descriptors]) (le_of_eq hcalm.traffic.clientCount.symm)
    (le_of_eq (by rw [hcalm.longs]))
  routes h _ := h.of_held rfl le_rfl le_rfl
  serverCall := holds_serverCall
  newClient h := h.of_held ((Descriptors.held_create ..).trans (if_neg (h.2.ne _ (lt_irrefl _)))) (Nat.le_succ _) le_rfl
  store h _ := h.of_held rfl le_rfl le_rfl
  deliver h _ hi g := holds_deliverClient h _ hi g
  closeClient h hi := h.of_held ((Descriptors.held_close ..).trans (if_neg hi)) le_rfl le_rfl
  badClient h _ := h.of_held rfl le_rfl le_rfl
  finished h u _ := h.of_held ((Descriptors.held_close ..).trans (if_neg (h.2.ne (.updater u) id))) le_rfl le_rfl
  failed h := h.of_held rfl le_rfl le_rfl
  newUpdater {w} h := h.of_held
    ((Descriptors.held_create ..).trans (if_neg (h.2.ne (.updater w.updaters.count) id))) le_rfl le_rfl
  tryUpdater {w} h := h.of_held
    ((Descriptors.held_tryOut ..).trans (if_neg (h.2.ne (.updater w.updaters.count) id))) le_rfl le_rfl
  exhausted h := h.of_held rfl le_rfl le_rfl
  closeLong h hl := h.of_held ((Descriptors.held_close ..).trans (if_neg hl)) le_rfl le_rfl
  closeLongServer {_ l} h _ := h.of_held
    ((Descriptors.held_close ..).trans (if_neg (h.2.ne (.longServer l) id))) le_rfl le_rfl
  restored {w l} h hl _ _ := by
    refine h.of_held ?_ (Nat.le_succ _) le_rfl
    refine (Descriptors.held_give ..).trans ?_
    rw [if_neg hl, if_neg (h.2.ne (.client w.clientCount) (lt_irrefl _))]
  buffer h _ _ := h.of_held rfl le_rfl le_rfl
  badLong h _ _ := h.of_held rfl le_rfl le_rfl

/-! ### What closes the descriptor of a client -/

/-- The piece closes the descriptor of the connection: the connection does not hold it any more, and
it has not been handed to another one. -/
def Step.Frees (cfg : Config) (w : World) (st : Step) (c : Conn) : Prop :=
  ∃ n, w.descriptors.held c = some n ∧ (w.step cfg st).1.descriptors.held c = none ∧
    ∀ c', (w.step cfg st).1.descriptors.held c' = some n → w.descriptors.held c' = some n

/-- The piece raises `_fd_closed`: there are inactive long connections to be closed, or a closed
client is destroyed. -/
def Step.Raises (w : World) : Step → Prop
  | .start => w.longs.inactive ≠ []
  | .afterEvents c => c ∈ w.activeConns ∧ w.closed c = true ∧ ∃ i, c = .client i
  | _ => False

instance (w : World) : ∀ st : Step, Decidable (st.Raises w)
  | .start => inferInstanceAs (Decidable (_ ≠ _))
  | .afterEvents (.client i) => decidable_of_iff (.client i ∈ w.activeConns ∧ w.closed (.client i) = true)
      (and_congr_right fun _ => (and_iff_left ⟨i, rfl⟩).symm)
  | .afterEvents .acceptor => isFalse nofun
  | .afterEvents (.server _) => isFalse nofun
  | .afterEvents (.updater _) => isFalse nofun
  | .afterEvents (.longClient _) => isFalse nofun
  | .afterEvents (.longServer _) => isFalse nofun
  | .event _ => isFalse id
  | .pollCtl => isFalse id
  | .clearFinished => isFalse id
  | .update _ _ => isFalse id
  | .resume => isFalse id
  | .expire => isFalse id

/-- The client half of a long connection, which still has its descriptor, closes it in the handler of
an event, or it is destroyed with the long connection. -/
def Step.ClosesLong (w : World) : Step → Prop
  | .event e => e.conn ∉ w.closedConns ∧ ∃ l, e.conn = .longClient l ∧
      (w.descriptors.held (.longClient l)).isSome ∧ e.EndsClient (w.longs.objects l)
  | .afterEvents c => c ∈ w.activeConns ∧ w.closed c = true ∧ ∃ l, c.long = some l ∧
      (w.descriptors.held (.longClient l)).isSome
  | _ => False

theorem closeInactive_held : ∀ (ls : List LongId) {w : World}, (∀ l ∈ ls, c ≠ .longClient l) →
    (closeInactive ls w).1.descriptors.held c = w.descriptors.held c
  | [], _, _ => rfl
  | l :: ls, w, hc => by
      unfold closeInactive
      split
      · rw [closeInactive_held ls fun l hl => hc l (List.mem_cons_of_mem _ hl)]
        exact (Descriptors.held_close ..).trans (if_neg (hc l List.mem_cons_self))
      · rfl

theorem start_held (hc : ∀ l ∈ w.longs.inactive, c ≠ .longClient l) :
    w.start.1.descriptors.held c = w.descriptors.held c := by
  have hclose : (w.closeInactive w.longs.inactive).1.descriptors.held c = _ := closeInactive_held _ hc
  unfold start
  exact andThen_inv (I := fun w' => w'.descriptors.held c = w.descriptors.held c) hclose fun _ h => h

theorem held_closes : ∀ (us : List UpdaterId) (d : Descriptors), c.FacesClient →
    (us.foldl (fun d u => d.close (.updater u)) d).held c = d.held c
  | [], _, _ => rfl
  | u :: us, d, hc => by
      rw [List.foldl_cons, held_closes us _ hc, Descriptors.held_close, if_neg]
      rintro rfl
      exact hc

theorem afterEvents_held {a : Conn} (ha : ∀ l, c = .longClient l → ¬ Step.ClosesLong w (.afterEvents a))
    (hc : c.FacesClient) {n : Fd} (hheld : w.descriptors.held c = some n) :
    (w.afterEvents a).1.descriptors.held c = some n := by
  cases afterEvents_cases a w with
  | idle same => rw [same]; exact hheld
  | server s conn same => rw [same]; exact hheld
  | client i conn active closed same => rw [same]; exact hheld
  | long l other conn half active closed same =>
      have hclient : c ≠ .longClient l := by
        rintro rfl
        refine ha l rfl ⟨active, closed, l, conn, ?_⟩
        rw [hheld]
        rfl
      have hserver : c ≠ .longServer l := by
        rintro rfl
        exact hc
      rw [same]
      refine (Descriptors.held_close ..).trans ?_
      rw [if_neg hclient, Descriptors.held_close, if_neg hserver]
      exact hheld

theorem event_held {n : Fd} (h : w.Holds c n) (hclient : ∀ i, e.conn = .client i → c ≠ .client i)
    (hlong : ∀ l, e.conn.long = some l → c ≠ .longClient l) : (w.event cfg e).1.descriptors.held c = some n := by
  have hholds := (rules_holds cfg c n).event (fun h _ _ => h.of_held rfl le_rfl le_rfl) h
    (e := e) ⟨hlong, fun _ _ _ _ _ _ => trivial⟩ hclient
  exact hholds.1

/-- Where it can happen. -/
theorem frees_cases (hw : w.Tallied) (hc : c.FacesClient) (h : st.Frees cfg w c) :
    (∃ e, st = .event e ∧ (e.conn = c ∨ ∃ l, c = .longClient l ∧ e.conn = .longServer l)) ∨
    ∃ l, c = .longClient l ∧ (st.Raises w ∨ st.ClosesLong w) := by
  obtain ⟨n, hheld, hnone, -⟩ := h
  have hsome : (w.descriptors.held c).isSome := by
    rw [hheld]
    rfl
  have hold : w.Old c := by
    cases c with
    | client i => exact hw.clients i hsome
    | longClient l => exact hw.created l (hw.halves _ l rfl hsome)
    | _ => exact hc
  have hholds : w.Holds c n := ⟨hheld, hold⟩
  have hkept : ∀ {o : Option Fd}, o = none → o = some n → False := fun hn hs => nomatch hn.symm.trans hs
  cases st with
  | start =>
      by_contra hnot
      refine hkept hnone ((start_held fun l hl heq => ?_).trans hheld)
      exact hnot (Or.inr ⟨l, heq, Or.inl (List.ne_nil_of_mem hl)⟩)
  | event e =>
      by_contra hnot
      refine hkept hnone (event_held hholds (fun i he heq => ?_) fun l he heq => ?_)
      · exact hnot (Or.inl ⟨e, rfl, Or.inl (he.trans heq.symm)⟩)
      · cases hconn : e.conn with
        | longClient l' =>
            rw [hconn] at he
            cases he
            exact hnot (Or.inl ⟨e, rfl, Or.inl (hconn.trans heq.symm)⟩)
        | longServer l' =>
            rw [hconn] at he
            cases he
            exact hnot (Or.inl ⟨e, rfl, Or.inr ⟨l, heq, hconn⟩⟩)
        | _ =>
            rw [hconn] at he
            cases he
  | afterEvents a =>
      by_contra hnot
      refine hkept hnone (afterEvents_held (fun l heq hcloses => ?_) hc hheld)
      exact hnot (Or.inr ⟨l, heq, Or.inr hcloses⟩)
  | pollCtl =>
      refine (hkept hnone ?_).elim
      show w.pollCtl.1.descriptors.held c = some n
      rw [(calm_pollCtl w).descriptors]
      exact hheld
  | clearFinished => exact (hkept hnone ((held_closes _ _ hc).trans hheld)).elim
  | update remotes connects =>
      exact (hkept hnone (kept_update (rules_holds cfg c n) hholds remotes connects).1).elim
  | resume =>
      refine (hkept hnone ?_).elim
      show w.resume.descriptors.held c = some n
      unfold resume turnOnAccepting
      split
      · split <;> exact hheld
      · exact hheld
  | expire => exact (hkept hnone hheld).elim

/-! ### Long connections -/

/-- The client half holds the descriptor, or a client that is new has got it. -/
def PassedOn (l : LongId) (n : Fd) (m : ℕ) (w : World) : Prop :=
  m ≤ w.clientCount ∧ (w.descriptors.held (.longClient l) = some n ∨
    ∃ i, m ≤ i ∧ i < w.clientCount ∧ w.descriptors.held (.client i) = some n)

theorem rules_passedOn (l : LongId) (n : Fd) (m : ℕ) : HalfRules (fun l' => l' = l) (PassedOn l n m) where
  closeLongServer {w l'} h _ := by
    have hsame : ∀ c : Conn, c ≠ .longServer l' → (w.closeLongServer l').descriptors.held c = w.descriptors.held c :=
      fun c hc => (Descriptors.held_close ..).trans (if_neg hc)
    refine ⟨h.1, h.2.imp (fun hheld => ?_) ?_⟩
    · exact (hsame (.longClient l) nofun).trans hheld
    · rintro ⟨i, hm, hi, hheld⟩
      exact ⟨i, hm, hi, (hsame (.client i) nofun).trans hheld⟩
  restored {w l'} h hl _ b := by
    subst hl
    have hheld : ∀ c : Conn, (w.restored l' b).descriptors.held c =
        if c = .longClient l' then none else if c = .client w.clientCount then w.descriptors.held (.longClient l')
          else w.descriptors.held c := fun _ => Descriptors.held_give ..
    refine ⟨Nat.le_succ_of_le h.1, Or.inr ?_⟩
    rcases h.2 with hclient | ⟨i, hm, hi, hclient⟩
    · refine ⟨w.clientCount, h.1, Nat.lt_succ_self _, ?_⟩
      rw [hheld, if_neg nofun, if_pos rfl, hclient]
    · refine ⟨i, hm, Nat.lt_succ_of_lt hi, ?_⟩
      rw [hheld, if_neg nofun, if_neg fun heq => ?_, hclient]
      cases heq
      exact lt_irrefl _ hi
  buffer h _ _ := h
  badLong h _ _ := h

/-- The server half does not close the descriptor of the client. -/
theorem longServer_not_frees (hw : w.Tallied) (he : e.conn = .longServer l) :
    ¬ Step.Frees cfg w (.event e) (.longClient l) := by
  rintro ⟨n, hheld, hnone, hothers⟩
  cases e with
  | longServer l' hup read write first second =>
      cases he
      have hR := rules_passedOn l n w.clientCount
      have hpassed : PassedOn l n w.clientCount (w.event cfg (.longServer l hup read write first second)).1 :=
        kept_handlers (J := PassedOn l n w.clientCount) (fun h _ _ => h)
          (fun h => kept_longServerEvent hR h rfl hup read write first) (fun h => kept_longServerError hR h rfl second)
          ⟨le_rfl, Or.inl hheld⟩
      rcases hpassed.2 with hclient | ⟨i, hm, -, hclient⟩
      · exact nomatch hnone.symm.trans hclient
      · have hi := hw.clients i (by rw [hothers _ hclient]; rfl)
        exact absurd hi (Nat.not_lt.mpr hm)
  | _ => cases he

/-- An event that does not end it leaves the client half as it is. -/
theorem longClientEvent_spares {hup : Bool} {read : Option Input} {write : Bool}
    (h : ¬ (Event.longClient l hup read write).EndsClient (w.longs.objects l)) :
    (w.longClientEvent l hup read write).1.descriptors = w.descriptors := by
  unfold Event.EndsClient at h
  rw [not_or] at h
  unfold longClientEvent
  rw [if_neg h.1]
  cases read with
  | none =>
      dsimp only
      rw [if_neg h.2]
  | some inp =>
      obtain ⟨-, hends⟩ := not_or.mp h.2
      dsimp only
      split
      · rfl
      · split
        · rfl
        · rw [if_neg]
          rwa [List.isEmpty_iff]

/-- One that ends it closes it, or throws. -/
theorem longClientEvent_ends {hup : Bool} {read : Option Input} {write : Bool}
    (h : (Event.longClient l hup read write).EndsClient (w.longs.objects l)) :
    w.longClientEvent l hup read write = (w.closeLong l, none) ∨
    (w.longClientEvent l hup read write).2 ≠ none ∧
      (w.longClientEvent l hup read write).1.descriptors = w.descriptors := by
  unfold Event.EndsClient at h
  unfold longClientEvent
  split
  · exact Or.inl rfl
  · rename_i hup
    have hrest := h.resolve_left hup
    cases read with
    | none =>
        dsimp only at hrest ⊢
        rw [if_pos hrest]
        exact Or.inl rfl
    | some inp =>
        dsimp only at hrest ⊢
        split
        · exact Or.inr ⟨Option.some_ne_none _, rfl⟩
        · split
          · exact Or.inr ⟨Option.some_ne_none _, rfl⟩
          · rename_i hread
            have hends := hrest.resolve_left (not_not.mpr hread)
            rw [← List.isEmpty_iff] at hends
            rw [if_pos hends]
            exact Or.inl rfl

theorem event_spares {hup : Bool} {read : Option Input} {write : Bool}
    (h : Conn.longClient l ∉ w.closedConns →
      ¬ (Event.longClient l hup read write).EndsClient (w.longs.objects l)) :
    (w.event cfg (.longClient l hup read write)).1.descriptors = w.descriptors := by
  unfold event
  split
  · rfl
  · split
    · rfl
    · rename_i hconn
      have hends := h hconn
      dsimp only
      split
      · rename_i hio
        exact absurd (longClientEvent_io hio _) hends
      · exact longClientEvent_spares (w := { w with activeConns := _ }) hends

theorem event_closes {hup : Bool} {read : Option Input} {write : Bool} (hconn : Conn.longClient l ∉ w.closedConns)
    (hends : (Event.longClient l hup read write).EndsClient (w.longs.objects l))
    (hret : (w.event cfg (.longClient l hup read write)).2 = none) :
    (w.event cfg (.longClient l hup read write)).1.descriptors = w.descriptors.close (.longClient l) := by
  have hcases := longClientEvent_ends (w := { w with activeConns := w.activeConns.insert (.longClient l) }) hends
  have hpresent := event_present hret
  unfold event at hret ⊢
  rw [if_neg (not_not.mpr hpresent)] at hret ⊢
  rw [if_neg (show ¬ (Event.longClient l hup read write).conn ∈ w.closedConns from hconn)] at hret ⊢
  dsimp only [onEvents, Event.conn] at hret ⊢
  rcases hcases with hclose | ⟨hthrow, hsame⟩
  · rw [hclose]
    rfl
  · split at hret
    · exact congrArg (Descriptors.close (.longClient l)) hsame
    · exact absurd hret hthrow

/-- Where the descriptor of the client half is closed. -/
theorem frees_longClient (hw : w.Tallied) (h : st.Frees cfg w (.longClient l)) : st.Raises w ∨ st.ClosesLong w := by
  rcases frees_cases (c := .longClient l) hw trivial h with ⟨e, rfl, he | ⟨l', hl', he⟩⟩ | ⟨-, -, hcloses⟩
  · obtain ⟨n, hheld, hnone, -⟩ := h
    by_contra hnot
    rw [not_or] at hnot
    cases e with
    | longClient l' hup read write =>
        cases he
        have hspares : (w.event cfg (.longClient l hup read write)).1.descriptors = w.descriptors := by
          refine event_spares fun hconn hends => hnot.2 ⟨hconn, l, rfl, ?_, hends⟩
          rw [hheld]
          rfl
        have hkept : (w.event cfg (.longClient l hup read write)).1.descriptors.held (.longClient l) = some n := by
          rw [hspares]
          exact hheld
        exact nomatch hnone.symm.trans hkept
    | _ => cases he
  · cases hl'
    exact (longServer_not_frees hw he h).elim
  · exact hcloses

theorem closesLong_frees (hret : (w.step cfg st).2 = none) (h : st.ClosesLong w) :
    ∃ l, st.Frees cfg w (.longClient l) := by
  cases st with
  | event e =>
      obtain ⟨hconn, l, he, hsome, hends⟩ := h
      obtain ⟨n, hheld⟩ := Option.isSome_iff_exists.mp hsome
      cases e with
      | longClient l' hup read write =>
          cases he
          have hclose : (w.step cfg (.event (.longClient l hup read write))).1.descriptors =
            w.descriptors.close (.longClient l) := event_closes hconn hends hret
          refine ⟨l, n, hheld, ?_, fun c' hc' => ?_⟩
          · rw [hclose, Descriptors.held_close, if_pos rfl]
          · rw [hclose, Descriptors.held_close] at hc'
            split at hc'
            · cases hc'
            · exact hc'
      | _ => cases he
  | afterEvents a =>
      obtain ⟨hactive, hclosed, l, hl, hsome⟩ := h
      obtain ⟨n, hheld⟩ := Option.isSome_iff_exists.mp hsome
      have hpresent := afterEvents_present hret hactive
      have hclose : (w.step cfg (.afterEvents a)).1.descriptors =
          (w.descriptors.close (.longServer l)).close (.longClient l) := by
        show (w.afterEvents a).1.descriptors = _
        unfold afterEvents
        rw [if_neg (not_not.mpr hactive), if_neg (not_not.mpr hpresent), if_neg (not_not.mpr hclosed)]
        cases a <;> cases hl <;> rfl
      refine ⟨l, n, hheld, ?_, fun c' hc' => ?_⟩
      · rw [hclose, Descriptors.held_close, if_pos rfl]
      · rw [hclose, Descriptors.held_close, Descriptors.held_close] at hc'
        split at hc'
        · cases hc'
        · split at hc'
          · cases hc'
          · exact hc'
  | _ => exact h.elim

/-! ### Clients -/

/-- The client holds the descriptor, or a long connection that is new has got it. -/
def Converted (i : ClientId) (n : Fd) (m : ℕ) (w : World) : Prop :=
  m ≤ w.longs.count ∧ (w.descriptors.held (.client i) = some n ∨
    ∃ l, m ≤ l ∧ l < w.longs.count ∧ w.descriptors.held (.longClient l) = some n)

theorem Converted.of_held {i : ClientId} {n : Fd} {m : ℕ} {w' : World} (h : w.Converted i n m)
    (hcount : w'.longs.count = w.longs.count)
    (hheld : ∀ c : Conn, c.FacesClient → w'.descriptors.held c = w.descriptors.held c) : w'.Converted i n m := by
  refine ⟨hcount ▸ h.1, h.2.imp (fun hc => (hheld (.client i) trivial).trans hc) ?_⟩
  rintro ⟨l, hm, hl, hc⟩
  exact ⟨l, hm, hcount ▸ hl, (hheld (.longClient l) trivial).trans hc⟩

theorem converted_deliverClient {i : ClientId} {n : Fd} {m : ℕ} (h : w.Converted i n m) (conv : Conversion)
    (g : GroupId) : (w.deliverClient cfg conv i g).Converted i n m := by
  have hserver : ∀ {c : Conn}, c.FacesClient → ∀ l, c ≠ .longServer l := by
    rintro c hc l rfl
    exact hc
  unfold deliverClient
  dsimp only
  split
  · exact h.of_held rfl fun _ _ => rfl
  · split
    · unfold convert
      have hheld : ∀ c : Conn, c.FacesClient →
          ((w.descriptors.create cfg.chooser (.longServer w.longs.count)).give (.client i)
            (.longClient w.longs.count)).held c = if c = .client i then none
              else if c = .longClient w.longs.count then w.descriptors.held (.client i) else w.descriptors.held c := by
        intro c hc
        rw [Descriptors.held_give, Descriptors.held_create, Descriptors.held_create,
          if_neg (hserver (c := .client i) trivial _), if_neg (hserver hc _)]
      refine ⟨Nat.le_succ_of_le h.1, Or.inr ?_⟩
      rcases h.2 with hclient | ⟨l, hm, hl, hlong⟩
      · refine ⟨w.longs.count, h.1, Nat.lt_succ_self _, ?_⟩
        exact (hheld (.longClient w.longs.count) trivial).trans ((if_neg nofun).trans ((if_pos rfl).trans hclient))
      · refine ⟨l, hm, Nat.lt_succ_of_lt hl, (hheld (.longClient l) trivial).trans ?_⟩
        rw [if_neg nofun, if_neg fun heq => ?_, hlong]
        cases heq
        exact lt_irrefl _ hl
    · exact h.of_held rfl fun _ _ => Descriptors.held_closeCopy ..
    · refine h.of_held rfl fun c hc => (Descriptors.held_closeCopy ..).trans ?_
      exact (Descriptors.held_tryOut ..).trans (if_neg (hserver hc _))

/-- A client that is not closed by an event has its descriptor, or has been converted. -/
theorem clientEvent_cases (cfg : Config) {i : ClientId} {n : Fd} (hi : i < w.clientCount)
    (hheld : w.descriptors.held (.client i) = some n) (hup : Bool) (read : Option Input)
    (write : Option (List WriteAnswer)) (conv : Conversion) :
    (w.clientEvent cfg i hup read write conv).1.Shut i ∨
    (w.clientEvent cfg i hup read write conv).1.Converted i n w.longs.count := by
  unfold clientEvent
  dsimp only
  generalize w.thrown conv _ = d
  have hself := Session.onEvents_self cfg.env d hup read write.isSome (w.session i (write.getD []))
  generalize ((w.session i (write.getD [])).onEvents cfg.env d hup read write.isSome).1 = t at hself
  have hself' : t.self = i := hself
  unfold settle
  dsimp only
  rw [hself']
  split
  · rename_i hclosed
    have hshut : (w.toTraffic.store t).Shut i := by
      refine ⟨hi, ?_⟩
      show (Function.update w.clients t.self t.client i).closed = true
      rw [hself', Function.update_self]
      exact hclosed
    have hcalls := hshut.calm (Traffic.calm_calls i t.calls _)
    have htraffic : (t.calls.foldl (clientCall cfg conv i) { w with toTraffic := w.toTraffic.store t }).toTraffic = _ :=
      foldl_clientCall_toTraffic conv i t.calls _
    rw [← htraffic] at hcalls
    exact Or.inl hcalls
  · refine Or.inr (kept_clientCalls (J := fun w' => w'.Converted i n w.longs.count) ?_ ?_ ?_ t.calls ?_)
    · exact fun h hcalm => h.of_held (by rw [hcalm.longs]) fun _ _ => by rw [hcalm.descriptors]
    · exact fun h g => converted_deliverClient h conv g
    · exact fun h => h
    · exact ⟨le_rfl, Or.inl hheld⟩

theorem event_client_cases (cfg : Config) {i : ClientId} {n : Fd} (hi : i < w.clientCount)
    (hheld : w.descriptors.held (.client i) = some n) (he : e.conn = .client i) :
    (w.event cfg e).1.descriptors = w.descriptors ∨
    (e.conn ∉ w.closedConns ∧ (w.event cfg e).1.Shut i) ∨ (w.event cfg e).1.Converted i n w.longs.count := by
  cases e with
  | client i' hup read write conv =>
      cases he
      unfold event
      split
      · exact Or.inl rfl
      · split
        · exact Or.inl rfl
        · rename_i hconn
          have hcases := clientEvent_cases cfg
            (w := { w with activeConns := w.activeConns.insert (.client i) }) hi hheld hup read write conv
          refine Or.inr ?_
          dsimp only
          split
          · exact hcases.imp_left (And.intro hconn)
          · exact hcases.imp_left (And.intro hconn)
  | _ => cases he

/-- The descriptor of a client is closed with the client, which has had an event then. -/
theorem frees_client {i : ClientId} (hw : w.Tallied) (hret : (w.step cfg st).2 = none)
    (h : st.Frees cfg w (.client i)) : (∃ e, st = .event e) ∧
      (w.step cfg st).1.Shut i ∧ .client i ∈ (w.step cfg st).1.activeConns := by
  rcases frees_cases (c := .client i) hw trivial h with ⟨e, rfl, he | ⟨l, hl, -⟩⟩ | ⟨l, hl, -⟩
  · obtain ⟨n, hheld, hnone, hothers⟩ := h
    have hi := hw.clients i (by rw [hheld]; rfl)
    rcases event_client_cases cfg hi hheld he with hsame | ⟨hconn, hshut⟩ | ⟨-, hclient | ⟨l, hm, -, hlong⟩⟩
    · have hkept : (w.event cfg e).1.descriptors.held (.client i) = some n := by
        rw [hsame]
        exact hheld
      exact nomatch hnone.symm.trans hkept
    · refine ⟨⟨e, rfl⟩, hshut, ?_⟩
      show .client i ∈ (w.event cfg e).1.activeConns
      rw [(event_conns cfg e w).1, if_pos ⟨event_present hret, hconn⟩, ← he]
      exact List.mem_insert_self
    · exact nomatch hnone.symm.trans hclient
    · have hl := hw.created l (hw.halves (.longClient l) l rfl (by rw [hothers _ hlong]; rfl))
      exact absurd hl (Nat.not_lt.mpr hm)
  · cases hl
  · cases hl

/-! ### The flag -/

/-- As long as nothing is raised, and up to the end of the call. -/
theorem rules_off (cfg : Config) (x : Bool) :
    EventRules cfg (fun _ => True) (fun _ => True) (fun _ => True) fun w => w.fdClosed = x ∧ w.accepting = false where
  calm h hcalm := ⟨hcalm.fdClosed.trans h.1, hcalm.accepting.trans h.2⟩
  routes h _ := h
  serverCall h a := by cases a <;> exact h
  newClient h := h
  store h _ := h
  deliver h _ _ g := by
    unfold deliverClient
    dsimp only
    split
    · exact h
    · split <;> exact h
  closeClient h _ := h
  badClient h _ := h
  finished h _ _ := h
  failed h := h
  newUpdater h := h
  tryUpdater h := h
  exhausted h := ⟨h.1, rfl⟩
  closeLong h _ := h
  closeLongServer h _ := h
  restored h _ _ _ := h
  buffer h _ _ := h
  badLong h _ _ := h

theorem closeInactive_flag : ∀ (ls : List LongId) {w : World}, (closeInactive ls w).2 = none →
    (closeInactive ls w).1.accepting = w.accepting ∧
    ((closeInactive ls w).1.fdClosed = true ↔ w.fdClosed = true ∨ ls ≠ [])
  | [], _, _ => ⟨rfl, (or_iff_left (not_not.mpr rfl)).symm⟩
  | l :: ls, w, h => by
      unfold closeInactive at h ⊢
      split at h
      · rename_i hl
        rw [if_pos hl]
        have ih := closeInactive_flag ls h
        exact ⟨ih.1, iff_of_true (ih.2.mpr (Or.inl rfl)) (Or.inr (List.cons_ne_nil _ _))⟩
      · cases h

theorem afterEvents_raises {i : ClientId} (hret : (w.afterEvents (.client i)).2 = none)
    (hactive : .client i ∈ w.activeConns) (hclosed : w.closed (.client i) = true) :
    (w.afterEvents (.client i)).1 = { w with
      toTraffic := w.toTraffic.destroyClient i
      clientsCount := w.clientsCount - 1
      fdClosed := true } := by
  have hpresent := afterEvents_present hret hactive
  unfold afterEvents
  rw [if_neg (not_not.mpr hactive), if_neg (not_not.mpr hpresent), if_neg (not_not.mpr hclosed)]

/-- A piece before the last one raises the flag, or leaves it as it is. -/
theorem step_flag (hret : (w.step cfg st).2 = none) (hst : st ≠ .resume) (hoff : w.accepting = false) :
    (w.step cfg st).1.accepting = false ∧ ((w.step cfg st).1.fdClosed = true ↔ w.fdClosed = true ∨ st.Raises w) := by
  have hsame : ∀ {w' : World}, w'.fdClosed = w.fdClosed ∧ w'.accepting = false →
      w'.accepting = false ∧ (w'.fdClosed = true ↔ w.fdClosed = true ∨ False) :=
    fun h => ⟨h.2, by rw [h.1, or_false]⟩
  cases st with
  | start =>
      obtain ⟨hclose, heq⟩ := andThen_none hret
      have hflag := closeInactive_flag w.longs.inactive hclose
      show w.start.1.accepting = false ∧ (w.start.1.fdClosed = true ↔ _)
      unfold start
      rw [heq]
      exact ⟨hflag.1.trans hoff, hflag.2⟩
  | event e =>
      refine hsame ((rules_off cfg w.fdClosed).event (fun h _ _ => h) ⟨rfl, hoff⟩ ?_ fun _ _ => trivial)
      exact ⟨fun _ _ => trivial, fun _ _ _ _ _ _ => trivial⟩
  | pollCtl => exact hsame ⟨(calm_pollCtl w).fdClosed, (calm_pollCtl w).accepting.trans hoff⟩
  | afterEvents c =>
      show (w.afterEvents c).1.accepting = false ∧ ((w.afterEvents c).1.fdClosed = true ↔ _)
      by_cases hraises : Step.Raises w (.afterEvents c)
      · obtain ⟨hactive, hclosed, i, rfl⟩ := hraises
        rw [afterEvents_raises hret hactive hclosed]
        exact ⟨hoff, iff_of_true rfl (Or.inr ⟨hactive, hclosed, i, rfl⟩)⟩
      · rw [or_iff_left hraises]
        cases afterEvents_cases c w with
        | idle same => rw [same]; exact ⟨hoff, Iff.rfl⟩
        | server s conn same => rw [same]; exact ⟨hoff, Iff.rfl⟩
        | client i conn active closed same => exact absurd ⟨active, closed, i, conn⟩ hraises
        | long l other conn half active closed same => rw [same]; exact ⟨hoff, Iff.rfl⟩
  | clearFinished => exact hsame ⟨rfl, hoff⟩
  | update remotes connects => exact hsame (kept_update (rules_off cfg w.fdClosed) ⟨rfl, hoff⟩ remotes connects)
  | resume => exact absurd rfl hst
  | expire => exact hsame ⟨rfl, hoff⟩

/-! ### A call -/

/-- One of the pieces of the call of `handle_events` is like this. -/
def During (cfg : Config) (w : World) (b : Batch) (P : World → Step → Prop) : Prop :=
  Runs.Sometime (fun w st => (w.step cfg st).1) P w ((Turn.handle b).pieces cfg w)

instance (w : World) (b : Batch) (P : World → Step → Prop) [∀ w st, Decidable (P w st)] : Decidable (w.During cfg b P) :=
  inferInstanceAs (Decidable (Runs.Sometime _ P w _))

/-- Pieces that all return, one after the other. -/
theorem steps_run : ∀ (sts : List Step) {w : World}, (w.steps cfg sts).2 = none →
    (w.steps cfg sts).1 = sts.foldl (fun w st => (w.step cfg st).1) w ∧
    Runs.Along (fun w st => (w.step cfg st).1) (fun w st => (w.step cfg st).2 = none) w sts
  | [], _, _ => ⟨rfl, trivial⟩
  | st :: sts, w, h => by
      obtain ⟨hst, heq⟩ := steps_cons_none h
      rw [heq] at h ⊢
      have ih := steps_run sts h
      exact ⟨ih.1, hst, ih.2⟩

theorem steps_flag : ∀ (sts : List Step) {w : World}, (w.steps cfg sts).2 = none → .resume ∉ sts →
    w.accepting = false → (w.steps cfg sts).1.accepting = false ∧ ((w.steps cfg sts).1.fdClosed = true ↔
      w.fdClosed = true ∨ Runs.Sometime (fun w st => (w.step cfg st).1) (fun w st => st.Raises w) w sts)
  | [], _, _, _, hoff => ⟨hoff, (or_iff_left id).symm⟩
  | st :: sts, w, h, hmem, hoff => by
      rw [List.mem_cons, not_or] at hmem
      obtain ⟨hst, heq⟩ := steps_cons_none h
      rw [heq] at h ⊢
      obtain ⟨hoff', hflag⟩ := step_flag hst (Ne.symm hmem.1) hoff
      have ih := steps_flag sts h hmem.2 hoff'
      exact ⟨ih.1, ih.2.trans ((or_congr_left hflag).trans or_assoc)⟩

/-- The pieces of a call but for the last one. -/
theorem pieces_resume (cfg : Config) (w : World) (b : Batch) :
    ∃ sts : List Step, .resume ∉ sts ∧ (Turn.handle b).pieces cfg w = sts ++ [.resume] := by
  refine ⟨b.firstPieces ++ ((inOrder cfg (w.steps cfg b.firstPieces).1.activeConns).map .afterEvents ++
    [.clearFinished, .update b.remotes b.connects]), ?_, ?_⟩
  · simp [Batch.firstPieces]
  · simp [Turn.pieces]

theorem resume_accepting (hoff : w.accepting = false) : w.resume.accepting = true ↔ w.fdClosed = true := by
  unfold resume turnOnAccepting
  cases w.fdClosed with
  | true =>
      rw [if_pos rfl, if_neg (hoff ▸ Bool.false_ne_true)]
  | false =>
      rw [if_neg Bool.false_ne_true, hoff]

theorem resume_fdClosed (w : World) : w.resume.fdClosed = false := by
  unfold resume turnOnAccepting
  split
  · split <;> rfl
  · rename_i h
    exact Bool.not_eq_true _ ▸ h

/-- The call switches the acceptor on if and only if a piece raises the flag. -/
theorem accepting_iff_raises (hflag : w.fdClosed = false) (hoff : w.accepting = false)
    (hret : (w.handleEvents cfg b).2 = none) :
    (w.handleEvents cfg b).1.accepting = true ↔ w.During cfg b fun w st => st.Raises w := by
  have heq : w.handleEvents cfg b = _ := turn_eq_steps cfg w (.handle b)
  obtain ⟨sts, hmem, hpieces⟩ := pieces_resume cfg w b
  unfold During
  rw [heq, hpieces] at hret ⊢
  obtain ⟨hsts, heq'⟩ := steps_append_none hret
  obtain ⟨hoff', hflag'⟩ := steps_flag sts hsts hmem hoff
  rw [hflag, or_iff_right Bool.false_ne_true] at hflag'
  rw [heq', Runs.sometime_append, or_iff_left (by rintro (h | h) <;> exact h), ← hflag']
  exact resume_accepting hoff'

/-- Between two calls the flag is down. -/
theorem reached_idle
    (h : Runs.Reachable (fun w t => (w.turn cfg t).1) (fun w t => (w.turn cfg t).2 = none) (new cfg) w) :
    Reached cfg w ∧ w.fdClosed = false := by
  refine h.inv (I := fun w => Reached cfg w ∧ w.fdClosed = false) ⟨.refl, rfl⟩ fun w t hw ht => ⟨hw.1.turn ht, ?_⟩
  cases t with
  | expire => exact hw.2
  | handle b =>
      obtain ⟨sts, -, hpieces⟩ := pieces_resume cfg w b
      rw [turn_eq_steps, hpieces] at ht ⊢
      rw [(steps_append_none ht).2]
      exact resume_fdClosed _

/-- The client is closed and it is active, so that `after_events` will destroy it. -/
structure Doomed (cfg : Config) (i : ClientId) (w : World) : Prop where
  reached : Reached cfg w
  shut : w.Shut i
  active : .client i ∈ w.activeConns

theorem Doomed.step {i : ClientId} (h : w.Doomed cfg i) (hret : (w.step cfg st).2 = none) (hst : st ≠ .start) :
    (w.step cfg st).1.Doomed cfg i := by
  refine ⟨h.reached.step hret, shut_step h.reached h.shut st, ?_⟩
  cases st with
  | start => exact absurd rfl hst
  | event e =>
      show .client i ∈ (w.event cfg e).1.activeConns
      rw [(event_conns cfg e w).1]
      split
      · exact List.mem_insert_of_mem h.active
      · exact h.active
  | pollCtl =>
      show .client i ∈ w.pollCtl.1.activeConns
      rw [(calm_pollCtl w).activeConns]
      exact h.active
  | afterEvents c =>
      show .client i ∈ (w.afterEvents c).1.activeConns
      cases afterEvents_cases c w with
      | idle same => rw [same]; exact h.active
      | server s conn same => rw [same]; exact h.active
      | client i' conn active closed same => rw [same]; exact h.active
      | long l other conn half active closed same =>
          rw [same]
          refine (List.mem_erase_of_ne ?_).mpr h.active
          rintro rfl
          cases half
  | clearFinished => exact h.active
  | update remotes connects =>
      have hsame := kept_update (rules_conns cfg w.activeConns w.closedConns).events ⟨rfl, rfl⟩ remotes connects
      show .client i ∈ (w.update cfg remotes connects).1.activeConns
      rw [hsame.1]
      exact h.active
  | resume =>
      show .client i ∈ w.resume.activeConns
      unfold resume turnOnAccepting
      split
      · split <;> exact h.active
      · exact h.active
  | expire => exact h.active

theorem Doomed.steps {i : ClientId} : ∀ (sts : List Step) {w : World}, w.Doomed cfg i → .start ∉ sts →
    (w.steps cfg sts).2 = none → (w.steps cfg sts).1.Doomed cfg i
  | [], _, h, _, _ => h
  | st :: sts, w, h, hmem, hret => by
      rw [List.mem_cons, not_or] at hmem
      obtain ⟨hst, heq⟩ := steps_cons_none hret
      rw [heq] at hret ⊢
      exact Doomed.steps sts (h.step hst (Ne.symm hmem.1)) hmem.2 hret

/-- The client whose descriptor was closed is then destroyed. -/
theorem doomed_of_frees : ∀ (sts : List Step) {w : World}, Reached cfg w → .start ∉ sts → (w.steps cfg sts).2 = none →
    Runs.Sometime (fun w st => (w.step cfg st).1) (fun w st => ∃ i, st.Frees cfg w (.client i)) w sts →
    ∃ i, (w.steps cfg sts).1.Doomed cfg i
  | [], _, _, _, _, h => h.elim
  | st :: sts, w, hw, hmem, hret, h => by
      rw [List.mem_cons, not_or] at hmem
      obtain ⟨hst, heq⟩ := steps_cons_none hret
      rw [heq] at hret ⊢
      rcases h with ⟨i, hfrees⟩ | h
      · obtain ⟨-, hshut, hactive⟩ := frees_client hw.tallied hst hfrees
        exact ⟨i, Doomed.steps sts ⟨hw.step hst, hshut, hactive⟩ hmem.2 hret⟩
      · exact doomed_of_frees sts (hw.step hst) hmem.2 hret h

theorem Doomed.raises {i : ClientId} : ∀ (cs : List Conn) {w : World}, w.Doomed cfg i → .client i ∈ cs →
    (w.steps cfg (cs.map .afterEvents)).2 = none →
    Runs.Sometime (fun w st => (w.step cfg st).1) (fun w st => st.Raises w) w (cs.map .afterEvents)
  | [], _, _, hmem, _ => absurd hmem List.not_mem_nil
  | c :: cs, w, h, hmem, hret => by
      obtain ⟨hst, heq⟩ := steps_cons_none hret
      rw [List.map_cons, heq] at hret
      rcases List.mem_cons.mp hmem with hc | hmem
      · exact Or.inl ⟨hc ▸ h.active, hc ▸ h.shut.2, i, hc.symm⟩
      · exact Or.inr (Doomed.raises cs (h.step hst nofun) hmem hret)

theorem raises_of_frees (hw : Reached cfg w) (hret : (w.handleEvents cfg b).2 = none)
    (h : w.During cfg b fun w st => ∃ i, st.Frees cfg w (.client i)) : w.During cfg b fun w st => st.Raises w := by
  have hret' : (w.steps cfg ((Turn.handle b).pieces cfg w)).2 = none := by
    rw [← turn_eq_steps]
    exact hret
  unfold During Turn.pieces at *
  dsimp only at *
  obtain ⟨hfirst, heq⟩ := steps_append_none hret'
  rw [heq] at hret'
  rw [Runs.sometime_append, ← (steps_run _ hfirst).1] at h ⊢
  refine Or.inr ?_
  rcases h with h | h
  · -- in the loop over the events
    have hrest : .start ∉ b.events.map Step.event ++ [.pollCtl] := by simp
    have hstart : (w.step cfg .start).2 = none := (steps_cons_none hfirst).1
    have hsame : w.steps cfg b.firstPieces = (w.step cfg .start).1.steps cfg (b.events.map .event ++ [.pollCtl]) :=
      (steps_cons_none hfirst).2
    rcases h with ⟨i, hfrees⟩ | h
    · obtain ⟨⟨e, he⟩, -⟩ := frees_client hw.tallied hstart hfrees
      cases he
    · rw [hsame] at hfirst
      obtain ⟨i, hdoomed⟩ := doomed_of_frees _ (hw.step hstart) hrest hfirst h
      rw [← hsame] at hdoomed
      have hmem : .client i ∈ inOrder cfg (w.steps cfg b.firstPieces).1.activeConns :=
        (List.mem_insertionSort _).mpr hdoomed.active
      rw [Runs.sometime_append]
      exact Or.inl (hdoomed.raises _ hmem (steps_append_none hret').1)
  · -- there are no events behind it
    have hevent := h.imp (I := Reached cfg) (Q := fun _ st => ∃ e, st = .event e)
      (fun w st hw hst hfrees => (frees_client hw.tallied hst hfrees.choose_spec).1) (fun _ _ hw hst => hw.step hst) _
      (Reached.steps _ hw hfirst) (steps_run _ hret').2
    obtain ⟨st, hmem, -, e, rfl⟩ := hevent.exists_mem
    simp at hmem

/-- The acceptor is off, and the call closes the descriptor of a client, of a subscriber or of a client
that waits in a pop: then the acceptor is on when the call returns, if and only if the call raises
`_fd_closed` or does not close the client half of a long connection. -/
theorem accepting_resumes_iff
    (hw : Runs.Reachable (fun w t => (w.turn cfg t).1) (fun w t => (w.turn cfg t).2 = none) (new cfg) w)
    (hoff : w.accepting = false) (hret : (w.handleEvents cfg b).2 = none) :
    ((w.During cfg b fun w st => ∃ c : Conn, c.FacesClient ∧ st.Frees cfg w c) →
        (w.handleEvents cfg b).1.accepting = true) ↔
      (w.During cfg b fun w st => st.Raises w) ∨ ¬ w.During cfg b fun w st => st.ClosesLong w := by
  obtain ⟨hreached, hflag⟩ := reached_idle hw
  have hret' : (w.steps cfg ((Turn.handle b).pieces cfg w)).2 = none := by
    rw [← turn_eq_steps]
    exact hret
  have halong := (steps_run _ hret').2
  rw [accepting_iff_raises hflag hoff hret]
  constructor
  · intro hresumes
    by_contra hnot
    rw [not_or, not_not] at hnot
    refine hnot.1 (hresumes ?_)
    refine hnot.2.imp (I := Reached cfg) (fun w st _ hst hcloses => ?_) (fun _ _ hw hst => hw.step hst) _ hreached halong
    obtain ⟨l, hfrees⟩ := closesLong_frees hst hcloses
    exact ⟨.longClient l, trivial, hfrees⟩
  · rintro hcond hfrees
    have hsplit : w.During cfg b fun w st => (∃ i, st.Frees cfg w (.client i)) ∨ st.Raises w ∨ st.ClosesLong w := by
      refine hfrees.imp (I := Reached cfg) (fun w st hw hst => ?_) (fun _ _ hw hst => hw.step hst) _ hreached halong
      rintro ⟨c, hc, hfrees⟩
      cases c with
      | client i => exact Or.inl ⟨i, hfrees⟩
      | longClient l => exact Or.inr (frees_longClient hw.tallied hfrees)
      | _ => exact hc.elim
    unfold During at hsplit
    rw [Runs.sometime_or, Runs.sometime_or] at hsplit
    rcases hsplit with hclient | hraises | hcloses
    · exact raises_of_frees hreached hret hclient
    · exact hraises
    · exact hcond.resolve_right (not_not.mpr hcloses)

/-- The first event of a call. -/
theorem during_first {P : World → Step → Prop} {es : List Event} (hb : b.events = e :: es)
    (h : P w.start.1 (.event e)) : w.During cfg b P := by
  unfold During Turn.pieces Batch.firstPieces
  dsimp only
  rw [hb]
  exact Or.inr (Or.inl h)

/-- There is a subscriber, and another client takes the last descriptor. -/
def crowd : List Turn := subscription ++ [.handle ⟨[.accept 1 .exhausted], [], fun _ => .opened⟩]

def crowded : World := crowd.foldl (fun w t => (w.turn plainConfig t).1) (new plainConfig)

/-- The subscriber hangs up, and then what other events there are. -/
def subscriberLeaves (es : List Event) : Batch := ⟨.longClient 0 true none false :: es, [], fun _ => .opened⟩

def otherLeaves : Event := .client 1 true none none ⟨0, .opened⟩

theorem crowded_run :
    Runs.Along (fun w t => (w.turn plainConfig t).1) (fun w t => (w.turn plainConfig t).2 = none)
      (new plainConfig) crowd ∧
    (.longClient 0 ∉ crowded.start.1.closedConns ∧ (crowded.start.1.descriptors.held (.longClient 0)).isSome ∧
      (crowded.start.1.event plainConfig (.longClient 0 true none false)).2 = none) ∧
    ((crowded.handleEvents plainConfig (subscriberLeaves [otherLeaves])).2 = none ∧
      crowded.During plainConfig (subscriberLeaves [otherLeaves]) fun w st => st.Raises w) ∧
    crowded.accepting = false ∧ (crowded.handleEvents plainConfig (subscriberLeaves [])).2 = none ∧
    crowded.descriptors.opened = [5, 4, 3, 2, 1] ∧
    (crowded.handleEvents plainConfig (subscriberLeaves [])).1.descriptors.opened = [5, 3, 1] ∧
    (crowded.handleEvents plainConfig (subscriberLeaves [])).1.accepting = false := by
  decide +kernel

theorem crowded_reached : Runs.Reachable (fun w t => (w.turn plainConfig t).1)
    (fun w t => (w.turn plainConfig t).2 = none) (new plainConfig) crowded :=
  Runs.Reachable.run crowd .refl crowded_run.1

theorem subscriberLeaves_frees (es : List Event) :
    crowded.During plainConfig (subscriberLeaves es) fun w st => ∃ c : Conn, c.FacesClient ∧ st.Frees plainConfig w c := by
  obtain ⟨hconn, hsome, hret⟩ := crowded_run.2.1
  have hcloses : Step.ClosesLong crowded.start.1 (.event (.longClient 0 true none false)) :=
    ⟨hconn, 0, rfl, hsome, Or.inl rfl⟩
  generalize hw : crowded.start.1 = w at *
  have hstep : (w.step plainConfig (.event (.longClient 0 true none false))).2 = none := hret
  obtain ⟨l, hfrees⟩ := closesLong_frees hstep hcloses
  exact during_first rfl ⟨.longClient l, trivial, hw ▸ hfrees⟩

/-- If the other client goes away too, the acceptor is switched on. -/
theorem accepting_resumes_both : crowded.accepting = false ∧
    (crowded.handleEvents plainConfig (subscriberLeaves [otherLeaves])).1.accepting = true := by
  obtain ⟨-, -, ⟨hret, hraises⟩, hoff, -⟩ := crowded_run
  exact ⟨hoff, (accepting_resumes_iff crowded_reached hoff hret).mpr (Or.inl hraises) (subscriberLeaves_frees _)⟩

/-- If only the subscriber goes away, it stays off although its descriptor, 2, is free. -/
theorem accepting_stays_off :
    Runs.Reachable (fun w t => (w.turn plainConfig t).1) (fun w t => (w.turn plainConfig t).2 = none) (new plainConfig)
      crowded ∧
    (crowded.During plainConfig (subscriberLeaves []) fun w st => ∃ c : Conn, c.FacesClient ∧ st.Frees plainConfig w c) ∧
    crowded.accepting = false ∧ (crowded.handleEvents plainConfig (subscriberLeaves [])).2 = none ∧
    crowded.descriptors.opened = [5, 4, 3, 2, 1] ∧
    (crowded.handleEvents plainConfig (subscriberLeaves [])).1.descriptors.opened = [5, 3, 1] ∧
    (crowded.handleEvents plainConfig (subscriberLeaves [])).1.accepting = false :=
  ⟨crowded_reached, subscriberLeaves_frees [], crowded_run.2.2.2⟩

end World

end Cerberus
