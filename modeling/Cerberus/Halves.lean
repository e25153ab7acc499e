import Cerberus.Lifetimes

/-! # The two halves of a long connection

The client half and the server half of a `Subscription` or a `BlockedListPop` are called by the
poller one by one, and each acts on the descriptor of the other.  The state a half finds depends
on the events of the same batch that came before (`World.Follows`), and from that it is known
which batches make a handler read from or write to a descriptor that is `-1`
(`World.io_on_halves_iff`). -/

namespace Cerberus

namespace World

variable {cfg : Config} {w : World} {l : LongId}

/-! ### Halves that are registered -/

/-- A half that the poller knows exists and has a descriptor. -/
structure Registered (w : World) : Prop where
  client : ∀ l, (w.poller.interest (.longClient l)).isSome → l ∈ w.longs.live ∧ (w.longs.objects l).closed = false
  server : ∀ l, (w.poller.interest (.longServer l)).isSome → l ∈ w.longs.live ∧ (w.longs.objects l).serverClosed = false
  created : ∀ l ∈ w.longs.live, l < w.longs.count

/-- Nothing happens to the halves. -/
theorem Registered.of_eq {w' : World} (h : w.Registered) (hlongs : w'.longs = w.longs)
    (hpoll : ∀ c : Conn, c.long.isSome → (w'.poller.interest c).isSome = (w.poller.interest c).isSome) :
    w'.Registered := by
  refine ⟨fun l hl => ?_, fun l hl => ?_, ?_⟩
  · rw [hpoll _ rfl] at hl
    rw [hlongs]
    exact h.client l hl
  · rw [hpoll _ rfl] at hl
    rw [hlongs]
    exact h.server l hl
  · rw [hlongs]
    exact h.created

theorem interest_register (c c' : Conn) (i : Option Bool) (p : Poller) :
    (p.register c i).interest c' = if c' = c then i else p.interest c' := Function.update_apply ..

/-- A connection that is no half of a long connection is registered in another way. -/
theorem register_halves {c : Conn} (hc : c.long = none) (i : Option Bool) (p : Poller) (c' : Conn) (hc' : c'.long.isSome) :
    ((p.register c i).interest c').isSome = (p.interest c').isSome := by
  rw [interest_register, if_neg]
  rintro rfl
  rw [hc] at hc'
  cases hc'

theorem clearFinished_halves (c : Conn) (hc : c.long.isSome) : ∀ (us : List UpdaterId) (p : Poller),
    ((us.foldl (fun p u => p.del (.updater u)) p).interest c).isSome = (p.interest c).isSome
  | [], _ => rfl
  | _ :: us, p => (clearFinished_halves c hc us _).trans (register_halves rfl none p c hc)

theorem Registered.inactivate (h : w.Registered) (s : ServerId) (i : Option Bool) :
    ({ w with longs := w.longs.inactivate s, poller := w.poller.register (.server s) i } : World).Registered := by
  have hpoll := register_halves (c := .server s) rfl i w.poller
  refine ⟨fun l hl => h.client l ?_, fun l hl => h.server l ?_, h.created⟩
  · exact (hpoll _ rfl).symm.trans hl
  · exact (hpoll _ rfl).symm.trans hl

theorem Registered.convert (h : w.Registered) (c : ClientId) (kind : LongKind) (s : ServerId) :
    (w.convert cfg c kind s).Registered := by
  have hold : ∀ l ∈ w.longs.live, (w.convert cfg c kind s).longs.objects l = w.longs.objects l :=
    fun l hl => Function.update_of_ne (Nat.ne_of_lt (h.created l hl)) ..
  have hnew : (w.convert cfg c kind s).longs.objects w.longs.count = ⟨kind, s, false, false, []⟩ :=
    Function.update_self ..
  have hlive : ∀ l ∈ w.longs.live, l ∈ (w.convert cfg c kind s).longs.live := fun l hl => List.mem_append_left _ hl
  have hlast : w.longs.count ∈ (w.convert cfg c kind s).longs.live :=
    List.mem_append_right _ (List.mem_singleton_self _)
  have hpoll : ∀ c', ((w.convert cfg c kind s).poller.interest c').isSome →
      c'.long = some w.longs.count ∨ (w.poller.interest c').isSome := by
    intro c' hc'
    unfold World.convert Poller.addRo at hc'
    dsimp only at hc'
    rw [interest_register, interest_register] at hc'
    split at hc'
    · rename_i heq
      exact Or.inl (heq ▸ rfl)
    · split at hc'
      · rename_i heq
        exact Or.inl (heq ▸ rfl)
      · exact Or.inr hc'
  refine ⟨fun l hl => ?_, fun l hl => ?_, fun l hl => ?_⟩
  · rcases hpoll _ hl with heq | hl
    · cases heq
      rw [hnew]
      exact ⟨hlast, rfl⟩
    · obtain ⟨hmem, hopen⟩ := h.client l hl
      rw [hold l hmem]
      exact ⟨hlive l hmem, hopen⟩
  · rcases hpoll _ hl with heq | hl
    · cases heq
      rw [hnew]
      exact ⟨hlast, rfl⟩
    · obtain ⟨hmem, hopen⟩ := h.server l hl
      rw [hold l hmem]
      exact ⟨hlive l hmem, hopen⟩
  · rcases List.mem_append.mp hl with hl | hl
    · exact Nat.lt_succ_of_lt (h.created l hl)
    · rw [List.mem_singleton.mp hl]
      exact Nat.lt_succ_self _

/-- A half is given up, and its registration with it. -/
theorem Registered.set (h : w.Registered) {v : Long} {p : Poller}
    (hclient : (p.interest (.longClient l)).isSome → (w.longs.objects l).closed = false → v.closed = false)
    (hserver : (p.interest (.longServer l)).isSome → (w.longs.objects l).serverClosed = false → v.serverClosed = false)
    (hpoll : ∀ c : Conn, c.long.isSome → (p.interest c).isSome → (w.poller.interest c).isSome) :
    ({ w with longs := w.longs.set l v, poller := p } : World).Registered := by
  have hobject : ∀ l', (w.longs.set l v).objects l' = if l' = l then v else w.longs.objects l' :=
    fun l' => Function.update_apply ..
  refine ⟨fun l' hl' => ?_, fun l' hl' => ?_, h.created⟩
  · obtain ⟨hlive, hopen⟩ := h.client l' (hpoll _ rfl hl')
    refine ⟨hlive, ?_⟩
    rw [hobject]
    split
    · rename_i heq
      rw [heq] at hl' hopen
      exact hclient hl' hopen
    · exact hopen
  · obtain ⟨hlive, hopen⟩ := h.server l' (hpoll _ rfl hl')
    refine ⟨hlive, ?_⟩
    rw [hobject]
    split
    · rename_i heq
      rw [heq] at hl' hopen
      exact hserver hl' hopen
    · exact hopen

/-- What `del` leaves registered was registered before. -/
theorem interest_del {c c' : Conn} {p : Poller} (h : ((p.del c).interest c').isSome) : c' ≠ c ∧ (p.interest c').isSome := by
  rw [Poller.del, interest_register] at h
  split at h
  · cases h
  · rename_i hne
    exact ⟨hne, h⟩

theorem Registered.closeLong (h : w.Registered) (l : LongId) : (w.closeLong l).Registered := by
  have hset := h.set (l := l) (v := { w.longs.objects l with closed := true }) (p := w.poller.del (.longClient l))
    (fun hl => absurd rfl (interest_del hl).1) (fun _ hopen => hopen) fun _ _ hsome => (interest_del hsome).2
  exact hset.of_eq rfl fun _ _ => rfl

theorem Registered.closeLongServer (h : w.Registered) (l : LongId) : (w.closeLongServer l).Registered := by
  have hset := h.set (l := l) (v := { w.longs.objects l with serverClosed := true }) (p := w.poller.del (.longServer l))
    (fun _ hopen => hopen) (fun hl => absurd rfl (interest_del hl).1) fun _ _ hsome => (interest_del hsome).2
  exact hset.of_eq rfl fun _ _ => rfl

theorem Registered.restored (h : w.Registered) (l : LongId) (b : Bool) : (w.restored l b).Registered := by
  refine (h.closeLong l).of_eq rfl fun c hc => ?_
  exact register_halves (c := .client w.clientCount) rfl _ _ c hc

theorem Registered.buffer (h : w.Registered) (l : LongId) (b : Bytes) :
    ({ w with longs := w.longs.set l { w.longs.objects l with buffer := b } } : World).Registered :=
  h.set (fun _ hopen => hopen) (fun _ hopen => hopen) fun _ _ hsome => hsome

theorem Registered.destroyLong (h : w.Registered) (l : LongId) : (w.destroyLong l).Registered := by
  have hother : ∀ l' ∈ w.longs.live, l' ≠ l → l' ∈ w.longs.live.erase l :=
    fun l' hl' hne => (List.mem_erase_of_ne hne).mpr hl'
  refine ⟨fun l' hl' => ?_, fun l' hl' => ?_, fun l' hl' => h.created l' (List.mem_of_mem_erase hl')⟩
  · obtain ⟨hne, hl'⟩ := interest_del hl'
    obtain ⟨hlive, hopen⟩ := h.client l' (interest_del hl').2
    exact ⟨hother l' hlive fun heq => hne (heq ▸ rfl), hopen⟩
  · obtain ⟨-, hl'⟩ := interest_del hl'
    obtain ⟨hne, hl'⟩ := interest_del hl'
    obtain ⟨hlive, hopen⟩ := h.server l' hl'
    exact ⟨hother l' hlive fun heq => hne (heq ▸ rfl), hopen⟩

theorem Registered.deliverClient (h : w.Registered) (conv : Conversion) (c : ClientId) (g : GroupId) :
    (w.deliverClient cfg conv c g).Registered := by
  have hdel : ({ w with poller := w.poller.del (.client c) } : World).Registered :=
    h.of_eq rfl fun c' hc' => register_halves rfl none _ c' hc'
  unfold World.deliverClient
  dsimp only
  split
  · exact hdel
  · split
    · exact hdel.convert c _ _
    · exact hdel.of_eq rfl fun _ _ => rfl
    · exact hdel.of_eq rfl fun _ _ => rfl

theorem rules_registered (cfg : Config) : StepRules cfg (fun _ => True) (fun _ => True) Registered where
  calm h hcalm := h.of_eq hcalm.longs fun c _ => hcalm.registered c
  routes h _ := h.of_eq rfl fun _ _ => rfl
  serverCall h a := by
    cases a with
    | opened s => exact h.of_eq rfl fun c hc => register_halves (c := .server s) rfl _ _ c hc
    | closed s => exact (h.inactivate s none).of_eq rfl fun _ _ => rfl
  newClient h := h.of_eq rfl fun c hc => register_halves rfl _ _ c hc
  store h _ := h.of_eq rfl fun _ _ => rfl
  deliver h _ c g := h.deliverClient _ c g
  closeClient h _ := h.of_eq rfl fun c hc => register_halves rfl _ _ c hc
  badClient h _ := h.of_eq rfl fun _ _ => rfl
  finished h _ _ := h.of_eq rfl fun c hc => register_halves rfl _ _ c hc
  failed h := h.of_eq rfl fun _ _ => rfl
  newUpdater h := h.of_eq rfl fun c hc => register_halves rfl _ _ c hc
  tryUpdater h := h.of_eq rfl fun _ _ => rfl
  acceptor h _ _ := h.of_eq rfl fun c hc => register_halves rfl _ _ c hc
  closeLong h _ := h.closeLong _
  closeLongServer h _ := h.closeLongServer _
  restored h _ _ b := h.restored _ b
  buffer h _ b := h.buffer _ b
  badLong h _ _ := h.of_eq rfl fun _ _ => rfl
  sets h _ _ := h.of_eq rfl fun _ _ => rfl
  fdClosed h _ := h.of_eq rfl fun _ _ => rfl
  destroyClient h _ := h.of_eq rfl fun _ _ => rfl
  clearFinished h := h.of_eq rfl fun c hc => clearFinished_halves c hc _ _

theorem Reached.registered (h : Reached cfg w) : w.Registered := by
  have hnew : (new cfg).Registered := by
    have hnone : ∀ c : Conn, c.long.isSome → (new cfg).poller.interest c = none := by
      intro c hc
      cases c with
      | longClient l => rfl
      | longServer l => rfl
      | _ => cases hc
    refine ⟨fun l hl => ?_, fun l hl => ?_, nofun⟩
    · rw [hnone _ rfl] at hl
      cases hl
    · rw [hnone _ rfl] at hl
      cases hl
  refine Runs.Reachable.inv (I := Registered) h hnew fun w st hw _ => ?_
  refine kept_step (rules_registered cfg) hw ?_
  cases st with
  | start =>
      refine kept_start (rules_registered cfg) hw (fun _ _ => trivial) fun _ hw => ?_
      exact ⟨hw.client, hw.server, hw.created⟩
  | event e => exact ⟨fun _ _ => trivial, fun _ _ _ _ _ _ => trivial⟩
  | afterEvents c => exact fun l a _ _ _ hw => hw.destroyLong l
  | _ => trivial

end World

/-! ### What an event does to the halves -/

namespace Event

/-- The event takes the descriptor of the client half of `v` away: the client half closes it, or
`restore_client` gives it back. -/
def EndsClient (v : Long) : Event → Prop
  | .longClient _ hup read write => hup = true ∨
      match read with
      | none => write = true
      | some inp => (readInto [] inp).2 ≠ none ∨ inp.bytes = [] ∨ write = true
  | .longServer _ hup read write _ _ => v.kind = .blockedListPop ∧ (hup = true ∨
      match read with
      | none => write = true
      | some inp => (readInto [] inp).2 ≠ none ∨ inp.bytes = [] ∨
          ∃ rest rsp rsps, splitServerResponse (v.buffer ++ inp.bytes) inp.guard = .split rest (rsp :: rsps))
  | _ => False

/-- The server half of a `Subscription` gets a message. -/
def Publishes (v : Long) (inp : Input) : Prop :=
  v.kind = .subscription ∧ (readInto [] inp).2 = none ∧ inp.bytes ≠ []

/-- The handler reads from or writes to a descriptor that is `-1`, if the event finds `v`. -/
def Touches (v : Long) : Event → Prop
  | .longClient _ hup read _ => hup = false ∧ read.isSome ∧ v.closed = true
  | .longServer _ hup (some inp) _ _ _ => hup = false ∧ (v.serverClosed = true ∨ Publishes v inp ∧ v.closed = true)
  | _ => False

end Event

namespace World

variable {cfg : Config} {w u : World} {l : LongId} {e : Event}

/-- The halves of long connections that called `read` or `write` with a descriptor that is `-1`. -/
def longIo (w : World) : List Conn := w.badIo.filter (·.long.isSome)

theorem restoreClient_badIo (l : LongId) (b : Bool) (answer : Option ConnThrow) (w : World) :
    (w.restoreClient l b answer).1.badIo = w.badIo := by
  unfold restoreClient
  split
  · rfl
  · split <;> rfl

theorem longServerError_badIo (l : LongId) (answer : Option ConnThrow) (w : World) :
    (w.longServerError l answer).1.badIo = w.badIo := by
  unfold longServerError
  split
  · rfl
  · exact restoreClient_badIo ..

theorem unexpectedWrite_badIo (l : LongId) (write : Bool) (answer : Option ConnThrow) (w : World) :
    (w.unexpectedWrite l write answer).1.badIo = w.badIo := by
  unfold unexpectedWrite
  split
  · exact longServerError_badIo ..
  · rfl

theorem popped_badIo (l : LongId) (inp : Input) (write : Bool) (answer : Option ConnThrow) (w : World) :
    (w.popped l inp write answer).1.badIo = w.badIo := by
  unfold popped
  split
  · rfl
  · rfl
  · dsimp only
    split
    · rfl
    · refine andThen_inv (I := fun w' => w'.badIo = w.badIo) (restoreClient_badIo ..) fun w' hw' => ?_
      exact (unexpectedWrite_badIo ..).trans hw'

theorem longClientEvent_badIo {hup : Bool} {read : Option Input} {write : Bool}
    (h : ¬ (Event.longClient l hup read write).Touches (w.longs.objects l)) :
    (w.longClientEvent l hup read write).1.badIo = w.badIo := by
  have hclose : ∀ b : Prop, [Decidable b] → (if b then w.closeLong l else w).badIo = w.badIo := by
    intro b _
    split <;> rfl
  unfold longClientEvent
  split
  · rfl
  · rename_i hhup
    split
    · exact hclose _
    · split
      · rename_i hclosed
        exact absurd ⟨Bool.not_eq_true _ ▸ hhup, rfl, hclosed⟩ h
      · split
        · rfl
        · exact hclose _

theorem longServerEvent_badIo {hup : Bool} {read : Option Input} {write : Bool} {first second : Option ConnThrow}
    (h : ¬ (Event.longServer l hup read write first second).Touches (w.longs.objects l)) :
    (w.longServerEvent l hup read write first).1.badIo = w.badIo := by
  unfold longServerEvent
  split
  · exact longServerError_badIo ..
  · rename_i hhup
    rw [Bool.not_eq_true] at hhup
    split
    · exact unexpectedWrite_badIo ..
    · unfold longServerRead
      split
      · rename_i hclosed
        exact absurd ⟨hhup, Or.inl hclosed⟩ h
      · split
        · rfl
        · rename_i hread
          split
          · exact longServerError_badIo ..
          · rename_i hbytes
            split
            · rename_i hkind
              refine andThen_inv (I := fun w' => w'.badIo = w.badIo) ?_ fun w' hw' => (unexpectedWrite_badIo ..).trans hw'
              unfold publish
              split
              · rename_i hclosed
                refine absurd ⟨hhup, Or.inr ⟨⟨hkind, hread, ?_⟩, hclosed⟩⟩ h
                exact fun hnil => hbytes (List.isEmpty_iff.mpr hnil)
              · rfl
            · exact popped_badIo ..

theorem onError_badIo_long (he : e.conn.long = some l) (w : World) : (w.onError cfg e).1.badIo = w.badIo := by
  cases e with
  | longClient l hup read write => rfl
  | longServer l hup read write first second => exact longServerError_badIo ..
  | _ => cases he

/-- An event that is not passed over. -/
theorem event_eq (hpresent : w.Present e.conn) (hconn : e.conn ∉ w.closedConns) : w.event cfg e =
    match (({ w with activeConns := w.activeConns.insert e.conn } : World).onEvents cfg e).2 with
    | some .io => andThen ((({ w with activeConns := w.activeConns.insert e.conn } : World).onEvents cfg e).1.onError cfg e)
        fun w => ({ w with closedConns := e.conn :: w.closedConns }, none)
    | _ => ({ w with activeConns := w.activeConns.insert e.conn } : World).onEvents cfg e :=
  (if_neg (not_not.mpr hpresent)).trans (if_neg hconn)

/-- One of a connection that had an exception is passed over. -/
theorem event_passed (hconn : e.conn ∈ w.closedConns) : (w.event cfg e).1 = w := by
  by_cases hpresent : w.Present e.conn
  · exact congrArg Prod.fst ((if_neg (not_not.mpr hpresent)).trans (if_pos hconn))
  · exact congrArg Prod.fst (if_pos hpresent)

theorem event_longIo (he : e.conn.long = some l) (ht : ¬ e.Touches (w.longs.objects l)) :
    (w.event cfg e).1.longIo = w.longIo := by
  have hon : ∀ a, (({ w with activeConns := a } : World).onEvents cfg e).1.badIo = w.badIo := by
    intro a
    cases e with
    | longClient l hup read write =>
        cases he
        exact longClientEvent_badIo (w := { w with activeConns := a }) ht
    | longServer l hup read write first second =>
        cases he
        exact longServerEvent_badIo (w := { w with activeConns := a }) ht
    | _ => cases he
  refine congrArg (List.filter _) ?_
  unfold event
  split
  · rfl
  · split
    · rfl
    · dsimp only
      split
      · refine andThen_inv (I := fun w' => w'.badIo = w.badIo) ?_ fun w' hw' => hw'
        exact (onError_badIo_long he _).trans (hon _)
      · exact hon _

theorem event_touches (cfg : Config) (he : e.conn.long = some l) (hpresent : w.Present e.conn) (hconn : e.conn ∉ w.closedConns)
    (ht : e.Touches (w.longs.objects l)) : (w.event cfg e).2 ≠ none ∧ (w.event cfg e).1.longIo ≠ w.longIo := by
  have hlonger : ∀ {w' : World} {c : Conn}, c.long = some l → w'.badIo = w.badIo ++ [c] → w'.longIo ≠ w.longIo := by
    intro w' c hc hio heq
    unfold longIo at heq
    rw [hio, List.filter_append, List.filter_singleton, hc] at heq
    have := congrArg List.length heq
    simp at this
  rw [event_eq hpresent hconn]
  cases e with
  | longClient l' hup read write =>
      cases he
      obtain ⟨rfl, hread, hclosed⟩ := ht
      obtain ⟨inp, rfl⟩ := Option.isSome_iff_exists.mp hread
      have hbad : ∀ a, longClientEvent l false (some inp) write { w with activeConns := a } =
          ({ w with activeConns := a, badIo := w.badIo ++ [.longClient l] }, some .fatal) := fun a => by
        unfold longClientEvent
        dsimp only
        rw [if_neg Bool.false_ne_true, if_pos hclosed]
      unfold onEvents
      dsimp only
      rw [hbad]
      exact ⟨nofun, hlonger (c := .longClient l) rfl rfl⟩
  | longServer l' hup read write first second =>
      cases he
      cases read with
      | none => exact ht.elim
      | some inp =>
          obtain ⟨rfl, ht⟩ := ht
          have hbad : ∃ c, c.long = some l ∧ ∀ a,
              longServerEvent l false (some inp) write first { w with activeConns := a } =
                ({ w with activeConns := a, badIo := w.badIo ++ [c] }, some .fatal) := by
            by_cases hserver : (w.longs.objects l).serverClosed = true
            · refine ⟨.longServer l, rfl, fun a => ?_⟩
              unfold longServerEvent longServerRead
              dsimp only
              rw [if_neg Bool.false_ne_true, if_pos hserver]
            · obtain ⟨⟨hkind, hread, hbytes⟩, hclosed⟩ := ht.resolve_left hserver
              refine ⟨.longClient l, rfl, fun a => ?_⟩
              unfold longServerEvent longServerRead publish
              dsimp only
              rw [if_neg Bool.false_ne_true, if_neg hserver, hread]
              dsimp only
              rw [if_neg (fun h => hbytes (List.isEmpty_iff.mp h)), hkind, if_pos hclosed]
              rfl
          obtain ⟨c, hc, hbad⟩ := hbad
          unfold onEvents
          dsimp only
          rw [hbad]
          exact ⟨nofun, hlonger hc rfl⟩
  | _ => cases he

/-! ### Which half is left -/

theorem objects_set (x : Longs) (l l' : LongId) (v : Long) :
    (x.set l v).objects l' = if l' = l then v else x.objects l' := Function.update_apply ..

theorem create_objects {x : Longs} (hl : l < x.count) (kind : LongKind) (s : ServerId) :
    (x.create kind s).objects l = x.objects l := Function.update_of_ne (Nat.ne_of_lt hl) ..

theorem closeLong_closed (l : LongId) (w : World) : ((w.closeLong l).longs.objects l).closed = true := by
  show ((w.longs.set l _).objects l).closed = true
  rw [objects_set, if_pos rfl]

theorem closeLongServer_closed (l : LongId) (w : World) :
    ((w.closeLongServer l).longs.objects l).closed = (w.longs.objects l).closed := by
  show ((w.longs.set l _).objects l).closed = _
  rw [objects_set, if_pos rfl]

theorem restoreClient_closed {b : Bool} {answer : Option ConnThrow} (h : (w.restoreClient l b answer).2 = none) :
    ((w.restoreClient l b answer).1.longs.objects l).closed = true := by
  unfold restoreClient at h ⊢
  split at h
  · rename_i hclosed
    rw [if_pos hclosed]
    exact hclosed
  · rename_i hopen
    rw [if_neg hopen]
    cases answer with
    | some e => cases h
    | none => exact closeLong_closed l w

theorem longServerError_closed {answer : Option ConnThrow} (h : (w.longServerError l answer).2 = none) :
    ((w.longServerError l answer).1.longs.objects l).closed = true ↔
      (w.longs.objects l).closed = true ∨ (w.longs.objects l).kind = .blockedListPop := by
  unfold longServerError at h ⊢
  cases hkind : (w.longs.objects l).kind with
  | subscription =>
      dsimp only
      rw [closeLongServer_closed]
      exact (or_iff_left nofun).symm
  | blockedListPop =>
      rw [hkind] at h
      exact iff_of_true (restoreClient_closed h) (Or.inr rfl)

/-- The client half. -/
theorem longClientEvent_closed {hup : Bool} {read : Option Input} {write : Bool}
    (h : (w.longClientEvent l hup read write).2 = none) :
    ((w.longClientEvent l hup read write).1.longs.objects l).closed = true ↔
      (w.longs.objects l).closed = true ∨ (Event.longClient l hup read write).EndsClient (w.longs.objects l) := by
  have hclose : ∀ b : Prop, [Decidable b] → (((if b then w.closeLong l else w).longs.objects l).closed = true ↔
      (w.longs.objects l).closed = true ∨ b) := by
    intro b _
    split
    · rename_i hb
      exact iff_of_true (closeLong_closed l w) (Or.inr hb)
    · rename_i hb
      exact (or_iff_left hb).symm
  unfold longClientEvent at h ⊢
  cases hup with
  | true => exact iff_of_true (closeLong_closed l w) (Or.inr (Or.inl rfl))
  | false =>
      rw [if_neg Bool.false_ne_true] at h ⊢
      cases read with
      | none =>
          refine (hclose (write = true)).trans (or_congr_right ?_)
          exact (or_iff_right Bool.false_ne_true).symm
      | some inp =>
          dsimp only at h ⊢
          split at h
          · cases h
          · rename_i hopen
            rw [if_neg hopen]
            split at h
            · cases h
            · rename_i hread
              refine (hclose _).trans (or_congr_right ?_)
              unfold Event.EndsClient
              dsimp only
              rw [hread, List.isEmpty_iff]
              simp only [Bool.false_eq_true, ne_eq, not_true_eq_false, false_or]

theorem longClientEvent_io {hup : Bool} {read : Option Input} {write : Bool}
    (h : (w.longClientEvent l hup read write).2 = some .io) (v : Long) :
    (Event.longClient l hup read write).EndsClient v := by
  unfold longClientEvent at h
  split at h
  · cases h
  · split at h
    · cases h
    · split at h
      · cases h
      · split at h
        · rename_i hread
          refine Or.inr (Or.inl ?_)
          rw [hread]
          exact Option.some_ne_none _
        · cases h

theorem unexpectedWrite_closed {write : Bool} {answer : Option ConnThrow} (h : (w.unexpectedWrite l write answer).2 = none) :
    ((w.unexpectedWrite l write answer).1.longs.objects l).closed = true ↔
      (w.longs.objects l).closed = true ∨ ((w.longs.objects l).kind = .blockedListPop ∧ write = true) := by
  unfold unexpectedWrite at h ⊢
  cases write with
  | true =>
      rw [if_pos rfl] at h ⊢
      rw [longServerError_closed h]
      exact or_congr_right (and_iff_left rfl).symm
  | false =>
      rw [if_neg Bool.false_ne_true]
      exact (or_iff_left fun hw => Bool.false_ne_true hw.2).symm

/-- The server half of a `Subscription` leaves the client half alone. -/
theorem longServerEvent_subscription (hkind : (w.longs.objects l).kind = .subscription) (hup : Bool)
    (read : Option Input) (write : Bool) (answer : Option ConnThrow) :
    ((w.longServerEvent l hup read write answer).1.longs.objects l).closed = (w.longs.objects l).closed := by
  have herror : ∀ answer, ((w.longServerError l answer).1.longs.objects l).closed = (w.longs.objects l).closed := by
    intro answer
    unfold longServerError
    rw [hkind]
    exact closeLongServer_closed l w
  have hwrite : ((w.unexpectedWrite l write answer).1.longs.objects l).closed = (w.longs.objects l).closed := by
    unfold unexpectedWrite
    split
    · exact herror answer
    · rfl
  unfold longServerEvent
  split
  · exact herror answer
  · split
    · exact hwrite
    · unfold longServerRead
      split
      · rfl
      · split
        · rfl
        · split
          · exact herror answer
          · rw [hkind]
            dsimp only
            unfold publish
            split
            · rfl
            · unfold andThen
              split
              · exact hwrite
              · rfl

theorem popped_closed {inp : Input} {write : Bool} {answer : Option ConnThrow} (h : (w.popped l inp write answer).2 = none) :
    ((w.popped l inp write answer).1.longs.objects l).closed = true ↔ (w.longs.objects l).closed = true ∨
      ∃ rest rsp rsps, splitServerResponse ((w.longs.objects l).buffer ++ inp.bytes) inp.guard = .split rest (rsp :: rsps) := by
  unfold popped at h ⊢
  split at h
  · cases h
  · cases h
  · rename_i rest rsps hsplit
    dsimp only at h ⊢
    rw [hsplit]
    cases rsps with
    | nil =>
        dsimp only
        rw [objects_set, if_pos rfl]
        refine (or_iff_left ?_).symm
        rintro ⟨_, _, _, heq⟩
        cases heq
    | cons rsp rsps =>
        dsimp only at h ⊢
        obtain ⟨hrestore, heq⟩ := andThen_none h
        rw [heq] at h ⊢
        refine iff_of_true ?_ (Or.inr ⟨rest, rsp, rsps, rfl⟩)
        exact (unexpectedWrite_closed h).mpr (Or.inl (restoreClient_closed hrestore))

/-- That of a `BlockedListPop` gives it up with the first response, and with an error. -/
theorem longServerEvent_pop (hkind : (w.longs.objects l).kind = .blockedListPop) {hup : Bool}
    {read : Option Input} {write : Bool} {first second : Option ConnThrow}
    (h : (w.longServerEvent l hup read write first).2 = none) :
    ((w.longServerEvent l hup read write first).1.longs.objects l).closed = true ↔ (w.longs.objects l).closed = true ∨
      (Event.longServer l hup read write first second).EndsClient (w.longs.objects l) := by
  unfold longServerEvent at h ⊢
  cases hup with
  | true =>
      rw [if_pos rfl] at h ⊢
      exact iff_of_true ((longServerError_closed h).mpr (Or.inr hkind)) (Or.inr ⟨hkind, Or.inl rfl⟩)
  | false =>
      rw [if_neg Bool.false_ne_true] at h ⊢
      cases read with
      | none =>
          rw [unexpectedWrite_closed h]
          refine or_congr_right (and_congr_right fun _ => ?_)
          exact (or_iff_right Bool.false_ne_true).symm
      | some inp =>
          dsimp only at h ⊢
          unfold longServerRead at h ⊢
          split at h
          · cases h
          · rename_i hopen
            rw [if_neg hopen]
            split at h
            · cases h
            · rename_i hread
              unfold Event.EndsClient
              dsimp only
              split at h
              · rename_i hempty
                rw [if_pos hempty]
                rw [List.isEmpty_iff] at hempty
                exact iff_of_true ((longServerError_closed h).mpr (Or.inr hkind))
                  (Or.inr ⟨hkind, Or.inr (Or.inr (Or.inl hempty))⟩)
              · rename_i hbytes
                rw [if_neg hbytes, hkind]
                rw [hkind] at h
                rw [List.isEmpty_iff] at hbytes
                dsimp only
                rw [popped_closed h, hread]
                simp only [hbytes, Bool.false_eq_true, ne_eq, not_true_eq_false, false_or, true_and]

theorem popped_io {inp : Input} {write : Bool} {answer : Option ConnThrow} (h : (w.popped l inp write answer).2 = some .io) :
    ∃ rest rsp rsps, splitServerResponse ((w.longs.objects l).buffer ++ inp.bytes) inp.guard = .split rest (rsp :: rsps) := by
  unfold popped at h
  split at h
  · cases h
  · cases h
  · rename_i rest rsps hsplit
    cases rsps with
    | nil => cases h
    | cons rsp rsps => exact ⟨rest, rsp, rsps, hsplit⟩

theorem longServerEvent_io (hkind : (w.longs.objects l).kind = .blockedListPop) {hup : Bool}
    {read : Option Input} {write : Bool} {first second : Option ConnThrow}
    (h : (w.longServerEvent l hup read write first).2 = some .io) :
    (Event.longServer l hup read write first second).EndsClient (w.longs.objects l) := by
  refine ⟨hkind, ?_⟩
  unfold longServerEvent at h
  split at h
  · rename_i hhup
    exact Or.inl hhup
  · refine Or.inr ?_
    split at h
    · unfold unexpectedWrite at h
      split at h
      · rename_i hwrite
        exact hwrite
      · cases h
    · unfold longServerRead at h
      split at h
      · cases h
      · split at h
        · rename_i hread
          refine Or.inl ?_
          rw [hread]
          exact Option.some_ne_none _
        · split at h
          · rename_i hempty
            exact Or.inr (Or.inl (List.isEmpty_iff.mp hempty))
          · rw [hkind] at h
            exact Or.inr (Or.inr (popped_io h))

/-- An event that does not end the batch is handled, by `on_error` after an exception. -/
theorem event_none (h : (w.event cfg e).2 = none) (hconn : e.conn ∉ w.closedConns) :
    ∃ u : World, u.longs = w.longs ∧ (((u.onEvents cfg e).2 = none ∧ w.event cfg e = u.onEvents cfg e) ∨
      ((u.onEvents cfg e).2 = some .io ∧ ((u.onEvents cfg e).1.onError cfg e).2 = none ∧
        (w.event cfg e).1.longs = ((u.onEvents cfg e).1.onError cfg e).1.longs)) := by
  by_cases hpresent : w.Present e.conn
  · rw [event_eq hpresent hconn] at h ⊢
    refine ⟨{ w with activeConns := w.activeConns.insert e.conn }, rfl, ?_⟩
    generalize ({ w with activeConns := w.activeConns.insert e.conn } : World).onEvents cfg e = r at h ⊢
    split at h
    · rename_i hio
      obtain ⟨herror, heq⟩ := andThen_none h
      exact Or.inr ⟨hio, herror, congrArg (fun r => r.1.longs) heq⟩
    · exact Or.inl ⟨h, rfl⟩
  · unfold event at h
    rw [if_pos hpresent] at h
    cases h

theorem rules_kind (l : LongId) (k : LongKind) : StepRules cfg (fun _ => True) (fun _ => True) fun w =>
    (w.longs.objects l).kind = k ∧ l < w.longs.count := by
  refine rules_longs (J := fun x => (x.objects l).kind = k ∧ l < x.count) ?_ ?_ ?_
  · rintro x ⟨hkind, hl⟩ kind s
    rw [create_objects hl]
    exact ⟨hkind, Nat.lt_succ_of_lt hl⟩
  · exact fun h _ => h
  · rintro x l' ⟨hkind, hl⟩ - v hv
    refine ⟨?_, hl⟩
    rw [objects_set]
    split
    · rename_i heq
      rw [hv.kind, ← heq]
      exact hkind
    · exact hkind

theorem onEvents_kind (cfg : Config) (hl : l < w.longs.count) (e : Event) :
    ((w.onEvents cfg e).1.longs.objects l).kind = (w.longs.objects l).kind :=
  (kept_onEvents (rules_kind l _).toRules ⟨rfl, hl⟩ ⟨fun _ _ => trivial, fun _ _ _ _ _ _ => trivial⟩).1

/-- Whether the client half has its descriptor after an event. -/
theorem event_closed (he : e.conn.long = some l) (hl : l < w.longs.count) (hconn : e.conn ∉ w.closedConns)
    (h : (w.event cfg e).2 = none) : ((w.event cfg e).1.longs.objects l).closed = true ↔
      (w.longs.objects l).closed = true ∨ e.EndsClient (w.longs.objects l) := by
  obtain ⟨u, hlongs, hcases⟩ := event_none h hconn
  rw [← hlongs] at hl ⊢
  have hkind := onEvents_kind cfg hl e
  cases e with
  | longClient l' hup read write =>
      cases he
      rcases hcases with ⟨hnone, heq⟩ | ⟨hio, -, heq⟩
      · rw [heq]
        exact longClientEvent_closed hnone
      · rw [heq]
        exact iff_of_true (closeLong_closed l _) (Or.inr (longClientEvent_io hio _))
  | longServer l' hup read write first second =>
      cases he
      cases hpop : (u.longs.objects l).kind with
      | subscription =>
          have hsame := longServerEvent_subscription hpop hup read write first
          have hends : ¬ (Event.longServer l hup read write first second).EndsClient (u.longs.objects l) :=
            fun hends => nomatch hpop.symm.trans hends.1
          rw [or_iff_left hends]
          rcases hcases with ⟨-, heq⟩ | ⟨-, herror, heq⟩
          · rw [heq]
            exact iff_of_eq (congrArg (· = true) hsame)
          · rw [heq]
            refine (longServerError_closed herror).trans ?_
            rw [hkind, hpop, or_iff_left nofun]
            exact iff_of_eq (congrArg (· = true) hsame)
      | blockedListPop =>
          rcases hcases with ⟨hnone, heq⟩ | ⟨hio, herror, heq⟩
          · rw [heq]
            exact longServerEvent_pop hpop hnone
          · rw [heq]
            exact iff_of_true ((longServerError_closed herror).mpr (Or.inr (hkind.trans hpop)))
              (Or.inr (longServerEvent_io hpop hio))
  | _ => cases he

/-! ### What an event leaves alone -/

/-- An event changes only the long connection it is about. -/
theorem event_others (hl : l < w.longs.count) (he : e.conn.long ≠ some l) :
    (w.event cfg e).1.longs.objects l = w.longs.objects l := by
  have R : StepRules cfg (· ≠ l) (fun _ => True) fun w' =>
      w'.longs.objects l = w.longs.objects l ∧ l < w'.longs.count := by
    refine rules_longs (J := fun x => x.objects l = w.longs.objects l ∧ l < x.count) ?_ ?_ ?_
    · exact fun h kind s => ⟨(create_objects h.2 kind s).trans h.1, Nat.lt_succ_of_lt h.2⟩
    · exact fun h _ => h
    · intro x l' h hne v _
      refine ⟨?_, h.2⟩
      rw [objects_set, if_neg (Ne.symm hne)]
      exact h.1
  refine (kept_event R ⟨rfl, hl⟩ ⟨fun l' hl' => ?_, fun _ _ _ _ _ _ => trivial⟩).1
  rintro rfl
  exact he hl'

theorem event_kind (hl : l < w.longs.count) (e : Event) :
    ((w.event cfg e).1.longs.objects l).kind = (w.longs.objects l).kind :=
  (kept_event (rules_kind l _) ⟨rfl, hl⟩ ⟨fun _ _ => trivial, fun _ _ _ _ _ _ => trivial⟩).1

/-- No long connection is destroyed. -/
theorem event_live (hl : l ∈ w.longs.live) (e : Event) : l ∈ (w.event cfg e).1.longs.live := by
  have R : StepRules cfg (fun _ => True) (fun _ => True) fun w' => l ∈ w'.longs.live :=
    rules_longs (J := fun x => l ∈ x.live) (fun h _ _ => List.mem_append_left _ h) (fun h _ => h) fun h _ _ _ => h
  exact kept_event R hl ⟨fun _ _ => trivial, fun _ _ _ _ _ _ => trivial⟩

theorem event_count (hl : l < w.longs.count) (e : Event) : l < (w.event cfg e).1.longs.count :=
  (kept_event (rules_kind l _) ⟨rfl, hl⟩ ⟨fun _ _ => trivial, fun _ _ _ _ _ _ => trivial⟩).2

/-- The client half does nothing to the other one. -/
theorem event_client (he : e.conn = .longClient l) (hconn : e.conn ∉ w.closedConns) (h : (w.event cfg e).2 = none) :
    ((w.event cfg e).1.longs.objects l).serverClosed = (w.longs.objects l).serverClosed ∧
      ((w.event cfg e).1.longs.objects l).buffer = (w.longs.objects l).buffer := by
  have hclose : ∀ w : World, ((w.closeLong l).longs.objects l).serverClosed = (w.longs.objects l).serverClosed ∧
      ((w.closeLong l).longs.objects l).buffer = (w.longs.objects l).buffer := by
    intro w
    show ((w.longs.set l _).objects l).serverClosed = _ ∧ ((w.longs.set l _).objects l).buffer = _
    rw [objects_set, if_pos rfl]
    exact ⟨rfl, rfl⟩
  have hon : ∀ (hup : Bool) (read : Option Input) (write : Bool) (w : World),
      ((w.longClientEvent l hup read write).1.longs.objects l).serverClosed = (w.longs.objects l).serverClosed ∧
      ((w.longClientEvent l hup read write).1.longs.objects l).buffer = (w.longs.objects l).buffer := by
    intro hup read write w
    have hif : ∀ b : Prop, [Decidable b] →
        ((if b then w.closeLong l else w).longs.objects l).serverClosed = (w.longs.objects l).serverClosed ∧
        ((if b then w.closeLong l else w).longs.objects l).buffer = (w.longs.objects l).buffer := by
      intro b _
      split
      · exact hclose w
      · exact ⟨rfl, rfl⟩
    unfold longClientEvent
    split
    · exact hclose w
    · split
      · exact hif _
      · split
        · exact ⟨rfl, rfl⟩
        · split
          · exact ⟨rfl, rfl⟩
          · exact hif _
  obtain ⟨u, hlongs, hcases⟩ := event_none h hconn
  rw [← hlongs]
  cases e with
  | longClient l' hup read write =>
      cases he
      rcases hcases with ⟨-, heq⟩ | ⟨-, -, heq⟩
      · rw [heq]
        exact hon hup read write u
      · rw [heq]
        obtain ⟨hserver, hbuffer⟩ := hclose (u.longClientEvent l hup read write).1
        exact ⟨hserver.trans (hon hup read write u).1, hbuffer.trans (hon hup read write u).2⟩
  | _ => cases he

/-- The handlers leave the local variables of `handle_events` alone. -/
theorem rules_conns (cfg : Config) (a c : List Conn) : Rules cfg (fun _ => True) (fun _ => True) fun w =>
    w.activeConns = a ∧ w.closedConns = c where
  calm h hcalm := ⟨hcalm.activeConns.trans h.1, hcalm.closedConns.trans h.2⟩
  routes h _ := h
  serverCall h a := by cases a <;> exact h
  newClient h := h
  store h _ := h
  deliver h _ c g := by
    unfold deliverClient
    dsimp only
    split
    · exact h
    · split <;> exact h
  closeClient h _ := h
  badClient h _ := h
  finished h _ _ := h
  failed h := h
  newUpdater h := h
  tryUpdater h := h
  acceptor h _ _ := h
  closeLong h _ := h
  closeLongServer h _ := h
  restored h _ _ _ := h
  buffer h _ _ := h
  badLong h _ _ := h

/-- An event that is not passed over makes its connection active, and perhaps one to pass over. -/
theorem event_conns (cfg : Config) (e : Event) (w : World) :
    (w.event cfg e).1.activeConns =
        (if w.Present e.conn ∧ e.conn ∉ w.closedConns then w.activeConns.insert e.conn else w.activeConns) ∧
      ((w.event cfg e).1.closedConns = w.closedConns ∨ (w.event cfg e).1.closedConns = e.conn :: w.closedConns) := by
  have hmeets : e.Meets (fun _ => True) (fun _ => True) := ⟨fun _ _ => trivial, fun _ _ _ _ _ _ => trivial⟩
  have hon := kept_onEvents (rules_conns cfg (w.activeConns.insert e.conn) w.closedConns)
    (w := { w with activeConns := w.activeConns.insert e.conn }) ⟨rfl, rfl⟩ hmeets
  unfold event
  split
  · rename_i hpresent
    rw [if_neg fun h => hpresent h.1]
    exact ⟨rfl, Or.inl rfl⟩
  · rename_i hpresent
    split
    · rename_i hconn
      rw [if_neg fun h => h.2 hconn]
      exact ⟨rfl, Or.inl rfl⟩
    · rename_i hconn
      rw [if_pos ⟨not_not.mp hpresent, hconn⟩]
      dsimp only
      split
      · have herror := kept_onError (rules_conns cfg _ _) hon hmeets
        unfold andThen
        split
        · exact ⟨herror.1, Or.inr (congrArg (List.cons _) herror.2)⟩
        · exact ⟨herror.1, Or.inl herror.2⟩
      · exact ⟨hon.1, Or.inl hon.2⟩

/-! ### The events of a batch, one after the other -/

/-- The client half is without its descriptor when these events have been handled. -/
def Gone (w : World) (done : List Event) (l : LongId) : Prop :=
  (w.longs.objects l).closed = true ∨ l ∈ w.longs.inactive ∨
    ∃ e ∈ done, e.conn.long = some l ∧ e.EndsClient (w.longs.objects l)

theorem gone_append (done : List Event) (e : Event) (l : LongId) : w.Gone (done ++ [e]) l ↔
    w.Gone done l ∨ (e.conn.long = some l ∧ e.EndsClient (w.longs.objects l)) := by
  unfold Gone
  simp only [List.mem_append, List.mem_singleton, or_and_right, exists_or, exists_eq_left, or_assoc]

/-- The state `u` of the proxy after some events of a batch that began with `w`. -/
structure Follows (w : World) (done : List Event) (u : World) : Prop where
  live : ∀ l ∈ w.longs.live, l ∈ u.longs.live
  created : ∀ l ∈ w.longs.live, l < u.longs.count
  skipped : ∀ l ∈ w.longs.inactive, .longClient l ∈ u.closedConns
  passed : ∀ c ∈ u.closedConns, (∃ l ∈ w.longs.inactive, c = .longClient l) ∨ c ∈ done.map Event.conn
  kind : ∀ l ∈ w.longs.live, (u.longs.objects l).kind = (w.longs.objects l).kind
  closed : ∀ l ∈ w.longs.live, (u.longs.objects l).closed = true ↔ w.Gone done l
  server : ∀ l ∈ w.longs.live, .longServer l ∉ done.map Event.conn →
    (u.longs.objects l).serverClosed = (w.longs.objects l).serverClosed ∧
      (u.longs.objects l).buffer = (w.longs.objects l).buffer

theorem closeInactive_longs : ∀ (ls : List LongId) (w : World), (closeInactive ls w).2 = none →
    (closeInactive ls w).1.longs = { w.longs with
      objects := fun l => if l ∈ ls then { w.longs.objects l with closed := true } else w.longs.objects l }
  | [], w, _ => by simp [closeInactive]
  | l :: ls, w, h => by
      unfold closeInactive at h ⊢
      split at h
      · rename_i hl
        rw [if_pos hl, closeInactive_longs ls _ h]
        have hobject : ∀ l', (w.closeLong l).longs.objects l' =
            if l' = l then { w.longs.objects l with closed := true } else w.longs.objects l' :=
          fun l' => objects_set _ l l' _
        refine congrArg (fun f => { w.longs with objects := f }) (funext fun l' => ?_)
        show (if l' ∈ ls then { (w.closeLong l).longs.objects l' with closed := true }
          else (w.closeLong l).longs.objects l') = _
        rw [hobject]
        by_cases heq : l' = l
        · subst heq
          rw [if_pos rfl, if_pos List.mem_cons_self]
          split <;> rfl
        · rw [if_neg heq]
          simp only [List.mem_cons, heq, false_or]
      · cases h

theorem follows_start (hw : w.Registered) (h : w.start.2 = none) : w.Follows [] w.start.1 := by
  obtain ⟨hclose, heq⟩ := andThen_none h
  have hlongs : w.start.1.longs = { w.longs with
      objects := fun l => if l ∈ w.longs.inactive then { w.longs.objects l with closed := true } else w.longs.objects l
      inactive := [] } := by
    rw [start, heq]
    dsimp only
    rw [closeInactive_longs _ w hclose]
  have hconns : w.start.1.closedConns = w.longs.inactive.map .longClient := by
    rw [start, heq]
  have hobject : ∀ l, w.start.1.longs.objects l =
      if l ∈ w.longs.inactive then { w.longs.objects l with closed := true } else w.longs.objects l := by
    intro l
    rw [hlongs]
  refine ⟨fun l hl => ?_, fun l hl => ?_, fun l hl => ?_, fun c hc => ?_, fun l _ => ?_, fun l _ => ?_, fun l _ _ => ?_⟩
  · rw [hlongs]
    exact hl
  · rw [hlongs]
    exact hw.created l hl
  · rw [hconns]
    exact List.mem_map_of_mem hl
  · rw [hconns] at hc
    obtain ⟨l, hl, rfl⟩ := List.mem_map.mp hc
    exact Or.inl ⟨l, hl, rfl⟩
  · rw [hobject]
    split <;> rfl
  · rw [hobject]
    unfold Gone
    split
    · rename_i hl
      exact iff_of_true rfl (Or.inr (Or.inl hl))
    · rename_i hl
      simp [hl]
  · rw [hobject]
    split <;> exact ⟨rfl, rfl⟩

theorem Follows.step {done : List Event} (h : w.Follows done u) (hdone : e.conn ∉ done.map Event.conn)
    (hnone : (u.event cfg e).2 = none) : w.Follows (done ++ [e]) (u.event cfg e).1 := by
  have hmap : (done ++ [e]).map Event.conn = done.map Event.conn ++ [e.conn] := List.map_append ..
  refine ⟨fun l hl => ?_, fun l hl => ?_, fun l hl => ?_, fun c hc => ?_, fun l hl => ?_, fun l hl => ?_,
    fun l hl hserver => ?_⟩
  · exact event_live (h.live l hl) e
  · exact event_count (h.created l hl) e
  · have hmem := h.skipped l hl
    rcases (event_conns cfg e u).2 with heq | heq
    · rw [heq]
      exact hmem
    · rw [heq]
      exact List.mem_cons_of_mem _ hmem
  · rw [hmap, List.mem_append, List.mem_singleton]
    rcases (event_conns cfg e u).2 with heq | heq
    · rw [heq] at hc
      exact (h.passed c hc).imp_right Or.inl
    · rw [heq] at hc
      rcases List.mem_cons.mp hc with hc | hc
      · exact Or.inr (Or.inr hc)
      · exact (h.passed c hc).imp_right Or.inl
  · rw [event_kind (h.created l hl)]
    exact h.kind l hl
  · rw [gone_append]
    by_cases hel : e.conn.long = some l
    · by_cases hconn : e.conn ∈ u.closedConns
      · -- passed over, and the client half was closed at the start
        obtain ⟨l', hl', heq⟩ := (h.passed _ hconn).resolve_right hdone
        rw [heq] at hel
        cases hel
        have hgone : w.Gone done l := Or.inr (Or.inl hl')
        rw [event_passed hconn, h.closed l hl]
        exact iff_of_true hgone (Or.inl hgone)
      · rw [event_closed hel (h.created l hl) hconn hnone, h.closed l hl, and_iff_right hel]
        refine or_congr_right ?_
        cases e with
        | longClient l' hup read write => exact Iff.rfl
        | longServer l' hup read write first second =>
            cases hel
            have hkind := h.kind l hl
            have hbuffer := (h.server l hl hdone).2
            unfold Event.EndsClient
            rw [hkind, hbuffer]
        | _ => cases hel
    · rw [event_others (h.created l hl) hel, h.closed l hl]
      exact (or_iff_left fun hends => hel hends.1).symm
  · rw [hmap, List.mem_append, List.mem_singleton, not_or] at hserver
    have hold := h.server l hl hserver.1
    by_cases hel : e.conn.long = some l
    · have hclient : e.conn = .longClient l := by
        cases e with
        | longClient l' hup read write =>
            cases hel
            rfl
        | longServer l' hup read write first second =>
            cases hel
            exact absurd rfl hserver.2
        | _ => cases hel
      by_cases hconn : e.conn ∈ u.closedConns
      · rw [event_passed hconn]
        exact hold
      · obtain ⟨hs, hb⟩ := event_client hclient hconn hnone
        exact ⟨hs.trans hold.1, hb.trans hold.2⟩
    · rw [event_others (h.created l hl) hel]
      exact hold

/-! ### I/O with a descriptor that is gone -/

/-- After these events of the batch, the handler of `e` reads from or writes to a descriptor that
is `-1`: the client half of a long connection has given it back, or a message is published to a
client half that has none. -/
def Reaches (w : World) (done : List Event) : Event → Prop
  | .longClient l hup read _ => hup = false ∧ read.isSome ∧ l ∉ w.longs.inactive ∧ w.Gone done l
  | .longServer l hup (some inp) _ _ _ => hup = false ∧ Event.Publishes (w.longs.objects l) inp ∧ w.Gone done l
  | _ => False

theorem Follows.touches_iff {done : List Event} (h : w.Follows done u) (hw : w.Registered)
    (hreg : (w.poller.interest e.conn).isSome) (hel : e.conn.long = some l) (hdone : e.conn ∉ done.map Event.conn)
    (hconn : e.conn ∉ u.closedConns) : e.Touches (u.longs.objects l) ↔ w.Reaches done e := by
  cases e with
  | longClient l' hup read write =>
      cases hel
      obtain ⟨hlive, -⟩ := hw.client l hreg
      have hactive : l ∉ w.longs.inactive := fun hl => hconn (h.skipped l hl)
      unfold Event.Touches Reaches
      dsimp only
      rw [h.closed l hlive, and_iff_right hactive]
  | longServer l' hup read write first second =>
      cases hel
      obtain ⟨hlive, hopen⟩ := hw.server l hreg
      cases read with
      | none => exact Iff.rfl
      | some inp =>
          have hserver : ¬ (u.longs.objects l).serverClosed = true := by
            rw [(h.server l hlive hdone).1, hopen]
            exact Bool.false_ne_true
          unfold Event.Touches Reaches Event.Publishes
          dsimp only
          rw [h.closed l hlive, h.kind l hlive, or_iff_right hserver]
  | _ => cases hel

theorem Follows.not_reaches {done : List Event} (h : w.Follows done u) (hdone : e.conn ∉ done.map Event.conn)
    (hconn : e.conn ∈ u.closedConns) : ¬ w.Reaches done e := by
  obtain ⟨l, hl, heq⟩ := (h.passed _ hconn).resolve_right hdone
  cases e with
  | longClient l' hup read write =>
      cases heq
      exact fun hreach => hreach.2.2.1 hl
  | _ => cases heq

theorem rules_longIo (x : List Conn) : StepRules cfg (fun _ => False) (fun _ => True) fun w => w.longIo = x where
  calm h hcalm := (congrArg (List.filter _) hcalm.badIo).trans h
  routes h _ := h
  serverCall h a := by cases a <;> exact h
  newClient h := h
  store h _ := h
  deliver h _ c g := by
    unfold deliverClient
    dsimp only
    split
    · exact h
    · split <;> exact h
  closeClient h _ := h
  badClient h _ := by
    unfold longIo at h ⊢
    rw [List.filter_append, h]
    exact List.append_nil x
  finished h _ _ := h
  failed h := h
  newUpdater h := h
  tryUpdater h := h
  acceptor h _ _ := h
  closeLong _ hl := hl.elim
  closeLongServer _ hl := hl.elim
  restored _ hl _ _ := hl.elim
  buffer _ hl _ := hl.elim
  badLong _ hl _ := hl.elim
  sets h _ _ := h
  fdClosed h _ := h
  destroyClient h _ := h
  clearFinished h := h

/-- One event: it does such I/O if and only if it reaches a descriptor that is gone, and then it
ends the batch. -/
theorem Follows.event_longIo (cfg : Config) {done : List Event} (h : w.Follows done u) (hw : w.Registered)
    (hreg : (w.poller.interest e.conn).isSome) (hdone : e.conn ∉ done.map Event.conn) :
    ((u.event cfg e).1.longIo = u.longIo ↔ ¬ w.Reaches done e) ∧ (w.Reaches done e → (u.event cfg e).2 ≠ none) := by
  cases hel : e.conn.long with
  | none =>
      have hnot : ¬ w.Reaches done e := by
        cases e with
        | longClient l hup read write => cases hel
        | longServer l hup read write first second => cases hel
        | _ => exact id
      have hsame : (u.event cfg e).1.longIo = u.longIo := by
        refine kept_event (rules_longIo _) rfl ⟨fun l hl => ?_, fun _ _ _ _ _ _ => trivial⟩
        exact nomatch hel.symm.trans hl
      exact ⟨iff_of_true hsame hnot, fun hreach => absurd hreach hnot⟩
  | some l =>
      by_cases hconn : e.conn ∈ u.closedConns
      · have hnot := h.not_reaches hdone hconn
        rw [event_passed hconn]
        exact ⟨iff_of_true rfl hnot, fun hreach => absurd hreach hnot⟩
      · have htouches := h.touches_iff hw hreg hel hdone hconn
        by_cases hreach : w.Reaches done e
        · have hpresent : u.Present e.conn := by
            cases e with
            | longClient l' hup read write => exact h.live _ (hw.client _ hreg).1
            | longServer l' hup read write first second => exact h.live _ (hw.server _ hreg).1
            | _ => cases hel
          obtain ⟨hthrew, hio⟩ := event_touches cfg hel hpresent hconn (htouches.mpr hreach)
          exact ⟨iff_of_false hio (not_not.mpr hreach), fun _ => hthrew⟩
        · have hsame : (u.event cfg e).1.longIo = u.longIo :=
            World.event_longIo hel fun ht => hreach (htouches.mp ht)
          exact ⟨iff_of_true hsame hreach, fun hr => absurd hr hreach⟩

/-- The events of a batch, by induction on those that are left. -/
theorem Follows.events_longIo (cfg : Config) (hw : w.Registered) : ∀ (rest : List Event) {done : List Event} {u : World},
    w.Follows done u → u.longIo = w.longIo → ((done ++ rest).map Event.conn).Nodup →
    (∀ e ∈ rest, (w.poller.interest e.conn).isSome) →
    ((u.steps cfg (rest.map .event)).1.longIo = w.longIo ↔ ∀ before e after, rest = before ++ e :: after →
      (u.steps cfg (before.map .event)).2 = none → ¬ w.Reaches (done ++ before) e)
  | [], done, u, _, hio, _, _ => iff_of_true hio fun before e after heq => by simp at heq
  | e :: rest, done, u, h, hio, hnodup, hreg => by
      have hdone : e.conn ∉ done.map Event.conn := by
        rw [List.map_append, List.nodup_append] at hnodup
        exact fun hmem => hnodup.2.2 _ hmem _ List.mem_cons_self rfl
      obtain ⟨hiff, hends⟩ := h.event_longIo cfg hw (hreg e List.mem_cons_self) hdone
      rw [hio] at hiff
      have hsteps : ∀ before : List Event, u.steps cfg ((e :: before).map .event) =
        andThen (u.event cfg e) (steps cfg (before.map .event)) := fun _ => rfl
      rw [hsteps]
      cases hthrew : (u.event cfg e).2 with
      | none =>
          have hnot : ¬ w.Reaches done e := fun hreach => hends hreach hthrew
          have hrun : ∀ before : List Event, u.steps cfg ((e :: before).map .event) =
              (u.event cfg e).1.steps cfg (before.map .event) := by
            intro before
            rw [hsteps, andThen, hthrew]
          have hassoc : done ++ [e] ++ rest = done ++ e :: rest := by rw [List.append_assoc]; rfl
          have ih := Follows.events_longIo cfg hw rest (h.step hdone hthrew) (hiff.mpr hnot)
            (hassoc ▸ hnodup) fun e he => hreg e (List.mem_cons_of_mem _ he)
          rw [← hsteps, hrun, ih]
          constructor
          · intro hall before e' after heq hnone
            cases before with
            | nil =>
                cases heq
                rw [List.append_nil]
                exact hnot
            | cons e₀ before =>
                cases heq
                rw [hrun] at hnone
                have := hall before e' after rfl hnone
                rw [List.append_assoc] at this
                exact this
          · intro hall before e' after heq hnone
            rw [List.append_assoc]
            refine hall (e :: before) e' after (heq ▸ rfl) ?_
            rw [hrun]
            exact hnone
      | some t =>
          have hstop : ∀ before : List Event, andThen (u.event cfg e) (steps cfg (before.map .event)) = u.event cfg e := by
            intro before
            rw [andThen, hthrew]
          rw [hstop, hiff]
          constructor
          · intro hnot before e' after heq hnone
            cases before with
            | nil =>
                cases heq
                rw [List.append_nil]
                exact hnot
            | cons e₀ before =>
                cases heq
                rw [hsteps, hstop, hthrew] at hnone
                cases hnone
          · intro hall
            have := hall [] e rest rfl rfl
            rw [List.append_nil] at this
            exact this

theorem closeInactive_badIo : ∀ (ls : List LongId) (w : World), (closeInactive ls w).1.badIo = w.badIo
  | [], _ => rfl
  | l :: ls, w => by
      unfold closeInactive
      split
      · exact closeInactive_badIo ls _
      · rfl

theorem start_longIo (w : World) : w.start.1.longIo = w.longIo := by
  refine congrArg (List.filter _) ?_
  exact andThen_inv (I := fun w' => w'.badIo = w.badIo) (closeInactive_badIo _ w) fun _ hw' => hw'

/-- The pieces of `handle_events` that are not events. -/
theorem steps_longIo : ∀ (sts : List Step) (w : World), .start ∉ sts → (∀ e, .event e ∉ sts) →
    (w.steps cfg sts).1.longIo = w.longIo
  | [], _, _, _ => rfl
  | st :: sts, w, hstart, hevent => by
      have hst : (w.step cfg st).1.longIo = w.longIo := by
        refine kept_step (rules_longIo _) rfl ?_
        cases st with
        | start => exact absurd List.mem_cons_self hstart
        | event e => exact absurd List.mem_cons_self (hevent e)
        | afterEvents c => exact fun _ _ _ _ _ hw => hw
        | _ => trivial
      refine andThen_inv (I := fun w' => w'.longIo = w.longIo) hst fun w' hw' => ?_
      refine (steps_longIo sts w' ?_ fun e he => ?_).trans hw'
      · exact fun hmem => hstart (List.mem_cons_of_mem _ hmem)
      · exact hevent e (List.mem_cons_of_mem _ he)

/-- A batch as the poller delivers it: it knows the connections, and reports each of them once. -/
structure Delivered (w : World) (b : Batch) : Prop where
  once : (b.events.map Event.conn).Nodup
  registered : ∀ e ∈ b.events, (w.poller.interest e.conn).isSome

/-- No handler reads from or writes to a half of a long connection that has no descriptor, if and
only if the batch has no event, among those it gets to, that reaches one. -/
theorem io_on_halves_iff (hw : Reached cfg w) {b : Batch} (hb : w.Delivered b) :
    (w.handleEvents cfg b).1.longIo = w.longIo ↔ ∀ before e after, b.events = before ++ e :: after →
      (w.steps cfg (.start :: before.map .event)).2 = none → ¬ w.Reaches before e := by
  have hsteps : ∀ sts, w.steps cfg (.start :: sts) = andThen w.start (steps cfg sts) := fun _ => rfl
  have hpieces := turn_eq_steps cfg w (.handle b)
  generalize hrest : (inOrder cfg (w.steps cfg b.firstPieces).1.activeConns).map Step.afterEvents ++
    [.clearFinished, .update b.remotes b.connects, .resume] = rest at hpieces
  have hlist : (Turn.handle b).pieces cfg w = .start :: (b.events.map .event ++ (.pollCtl :: rest)) := by
    show b.firstPieces ++ _ = _
    rw [hrest, Batch.firstPieces]
    simp
  rw [hlist, hsteps] at hpieces
  rw [show w.handleEvents cfg b = _ from hpieces]
  simp only [hsteps]
  cases hstart : w.start.2 with
  | some t =>
      have hstop : ∀ sts, andThen w.start (steps cfg sts) = w.start := by
        intro sts
        rw [andThen, hstart]
      simp only [hstop, hstart]
      exact iff_of_true (start_longIo w) fun _ _ _ _ hnone => absurd hnone (Option.some_ne_none t)
  | none =>
      have hgo : ∀ sts, andThen w.start (steps cfg sts) = w.start.1.steps cfg sts := by
        intro sts
        rw [andThen, hstart]
      have hquiet : ∀ u : World, (u.steps cfg (.pollCtl :: rest)).1.longIo = u.longIo := by
        intro u
        refine steps_longIo _ u ?_ fun e => ?_
        · rw [← hrest]
          simp
        · rw [← hrest]
          simp
      have hevents := (follows_start hw.registered hstart).events_longIo cfg hw.registered b.events (start_longIo w)
        hb.once hb.registered
      simp only [hgo, steps_append]
      refine Iff.trans (iff_of_eq (congrArg (· = w.longIo) ?_)) hevents
      exact andThen_inv (I := fun w' => w'.longIo = _) rfl fun w' hw' => (hquiet w').trans hw'

/-- The proxy with a subscriber. -/
def subscribed : World := subscription.foldl (fun w t => (w.turn plainConfig t).1) (new plainConfig)

/-- A message is published just after the subscriber has left. -/
def lateMessage : Batch where
  events := [.longClient 0 true none false, .longServer 0 false (some ⟨ascii "*0\r\n", .again, 0⟩) false none none]
  remotes := []
  connects _ := .opened

theorem subscribed_reached : Reached plainConfig subscribed := by
  have hrun : Runs.Along (fun w t => (w.turn plainConfig t).1) (fun w t => (w.turn plainConfig t).2 = none)
      (new plainConfig) subscription := by decide +kernel
  exact Reached.turns subscription .refl hrun

theorem delivered_lateMessage : subscribed.Delivered lateMessage ∧
    (subscribed.longs.objects 0).kind = .subscription ∧
    (subscribed.steps plainConfig [.start, .event (.longClient 0 true none false)]).2 = none := by
  have hrun : ((lateMessage.events.map Event.conn).Nodup ∧
      ∀ e ∈ lateMessage.events, (subscribed.poller.interest e.conn).isSome) ∧
      (subscribed.longs.objects 0).kind = .subscription ∧
      (subscribed.steps plainConfig [.start, .event (.longClient 0 true none false)]).2 = none := by decide +kernel
  exact ⟨⟨hrun.1.1, hrun.1.2⟩, hrun.2⟩

theorem io_on_halves_late : subscribed.Delivered lateMessage ∧
    (subscribed.handleEvents plainConfig lateMessage).1.longIo ≠ subscribed.longIo := by
  obtain ⟨hdelivered, hkind, hrun⟩ := delivered_lateMessage
  refine ⟨hdelivered, fun hsame => ?_⟩
  refine (io_on_halves_iff subscribed_reached hdelivered).mp hsame [.longClient 0 true none false] _ [] rfl hrun ?_
  refine ⟨rfl, ⟨hkind, rfl, ?_⟩, Or.inr (Or.inr ⟨_, List.mem_singleton_self _, rfl, Or.inl rfl⟩)⟩
  decide

/-- The message is written to the descriptor of the subscriber, which is `-1`, and the exception
ends the process. -/
theorem message_to_closed_half : subscribed.longIo = [] ∧
    (subscribed.handleEvents plainConfig lateMessage).1.longIo = [.longClient 0] ∧
    (subscribed.handleEvents plainConfig lateMessage).2 = some .fatal := by
  decide +kernel

end World

end Cerberus
