import Cerberus.Rounds

/-! # What is left of a blocking pop

A `BlockedListPop` ends when `restore_client` has given the descriptor back to a client.  It is then
without a client half, but it is the server half whose event is handled, and `after_events` of that
half looks at its own descriptor only.  So the object, the connection to the backend and the count
stay, unless the event has closed the server half as well, or the client half is active too
(`World.finished_pop_iff`). -/

namespace Cerberus

namespace Event

/-- The event closes the server half of a `BlockedListPop` that it finishes: a hang-up, an event for
writing, the end of the stream or an error when reading, or an error when the response is written. -/
def EndsServer : Event → Prop
  | .longServer _ hup read write first _ => hup = true ∨ write = true ∨ first = some .io ∨
      ∃ inp, read = some inp ∧ ((readInto [] inp).2 ≠ none ∨ inp.bytes = [])
  | _ => False

end Event

namespace World

variable {cfg : Config} {w u v : World} {l : LongId} {e : Event} {b : Batch}

/-! ### The server half -/

theorem closeLongServer_serverClosed (l : LongId) (w : World) :
    ((w.closeLongServer l).longs.objects l).serverClosed = true := by
  unfold closeLongServer Longs.closeServer
  rw [objects_set, if_pos rfl]

theorem restoreClient_serverClosed (l : LongId) (b : Bool) (answer : Option ConnThrow) (w : World) :
    ((w.restoreClient l b answer).1.longs.objects l).serverClosed = (w.longs.objects l).serverClosed := by
  unfold restoreClient
  split
  · rfl
  · cases answer with
    | some e => rfl
    | none =>
        dsimp only
        unfold Longs.close
        rw [objects_set, if_pos rfl]

theorem longServerError_serverClosed (l : LongId) (answer : Option ConnThrow) (w : World) :
    ((w.longServerError l answer).1.longs.objects l).serverClosed = true := by
  unfold longServerError
  split
  · exact closeLongServer_serverClosed l w
  · rw [restoreClient_serverClosed]
    exact closeLongServer_serverClosed l w

theorem unexpectedWrite_serverClosed {write : Bool} {answer : Option ConnThrow}
    (hserver : (w.longs.objects l).serverClosed = false) :
    ((w.unexpectedWrite l write answer).1.longs.objects l).serverClosed = true ↔ write = true := by
  unfold unexpectedWrite
  cases write with
  | true => exact iff_of_true (longServerError_serverClosed l answer w) rfl
  | false => exact iff_of_false (by rw [if_neg Bool.false_ne_true, hserver]; exact Bool.false_ne_true) Bool.false_ne_true

/-- What a response does to the server half, when it finishes the pop. -/
theorem popped_serverClosed {inp : Input} {write : Bool} {first : Option ConnThrow}
    (hopen : (w.longs.objects l).closed = false) (hserver : (w.longs.objects l).serverClosed = false)
    (h : (w.popped l inp write first).2 = none) (hclosed : ((w.popped l inp write first).1.longs.objects l).closed = true) :
    first = none ∧ (((w.popped l inp write first).1.longs.objects l).serverClosed = true ↔ write = true) := by
  unfold popped at h hclosed ⊢
  split at h
  · cases h
  · cases h
  · rename_i rest rsps hsplit
    rw [hsplit] at hclosed
    dsimp only at h hclosed ⊢
    have hobject : (w.longs.set l { w.longs.objects l with buffer := rest }).objects l =
        { w.longs.objects l with buffer := rest } := by
      rw [objects_set, if_pos rfl]
    cases rsps with
    | nil =>
        dsimp only at hclosed
        rw [hobject] at hclosed
        exact nomatch hopen.symm.trans hclosed
    | cons rsp rsps =>
        dsimp only at h ⊢
        obtain ⟨hrestore, heq⟩ := andThen_none h
        rw [heq]
        refine ⟨?_, unexpectedWrite_serverClosed ?_⟩
        · unfold restoreClient at hrestore
          dsimp only at hrestore
          rw [hobject, if_neg (by rw [hopen]; exact Bool.false_ne_true)] at hrestore
          cases first with
          | none => rfl
          | some t => cases hrestore
        · rw [restoreClient_serverClosed]
          dsimp only
          rw [hobject]
          exact hserver

/-- Whether the handler of the server half closes it, when it finishes the pop. -/
theorem longServerEvent_serverClosed (hkind : (w.longs.objects l).kind = .blockedListPop)
    (hopen : (w.longs.objects l).closed = false) (hserver : (w.longs.objects l).serverClosed = false) {hup : Bool}
    {read : Option Input} {write : Bool} {first second : Option ConnThrow}
    (h : (w.longServerEvent l hup read write first).2 = none)
    (hclosed : ((w.longServerEvent l hup read write first).1.longs.objects l).closed = true) :
    ((w.longServerEvent l hup read write first).1.longs.objects l).serverClosed = true ↔
      (Event.longServer l hup read write first second).EndsServer := by
  have hopen' : ¬ (w.longs.objects l).closed = true := by rw [hopen]; exact Bool.false_ne_true
  unfold longServerEvent at h hclosed ⊢
  cases hup with
  | true =>
      rw [if_pos rfl]
      exact iff_of_true (longServerError_serverClosed l first w) (Or.inl rfl)
  | false =>
      rw [if_neg Bool.false_ne_true] at h hclosed ⊢
      cases read with
      | none =>
          dsimp only at h hclosed ⊢
          have hwrite : write = true := by
            cases write with
            | true => rfl
            | false => exact absurd hclosed hopen'
          exact iff_of_true ((unexpectedWrite_serverClosed hserver).mpr hwrite) (Or.inr (Or.inl hwrite))
      | some inp =>
          dsimp only at h hclosed ⊢
          unfold longServerRead at h hclosed ⊢
          rw [if_neg (by rw [hserver]; exact Bool.false_ne_true)] at h hclosed ⊢
          cases hread : (readInto [] inp).2 with
          | some t =>
              rw [hread] at h
              cases h
          | none =>
              rw [hread] at h hclosed
              dsimp only at h hclosed ⊢
              by_cases hbytes : inp.bytes = []
              · rw [if_pos (List.isEmpty_iff.mpr hbytes)]
                refine iff_of_true (longServerError_serverClosed l first w) ?_
                exact Or.inr (Or.inr (Or.inr ⟨inp, rfl, Or.inr hbytes⟩))
              · rw [if_neg (by rwa [List.isEmpty_iff]), hkind] at h hclosed ⊢
                obtain ⟨hfirst, hiff⟩ := popped_serverClosed hopen hserver h hclosed
                rw [hiff]
                refine ⟨fun hwrite => Or.inr (Or.inl hwrite), fun hends => ?_⟩
                rcases hends with hup | hwrite | hio | ⟨inp', heq, hends⟩
                · cases hup
                · exact hwrite
                · rw [hfirst] at hio
                  cases hio
                · cases heq
                  rcases hends with hthrew | hnil
                  · exact absurd hread hthrew
                  · exact absurd hnil hbytes

/-- What throws an `IOErrorBase` in the handler of the server half. -/
theorem longServerEvent_io_ends (hkind : (w.longs.objects l).kind = .blockedListPop) {hup : Bool} {read : Option Input}
    {write : Bool} {first second : Option ConnThrow} (h : (w.longServerEvent l hup read write first).2 = some .io) :
    (Event.longServer l hup read write first second).EndsServer := by
  have hunexpected : ∀ w' : World, (w'.unexpectedWrite l write first).2 = some .io → write = true := by
    intro w' hio
    unfold unexpectedWrite at hio
    split at hio
    · assumption
    · cases hio
  unfold longServerEvent at h
  split at h
  · rename_i hhup
    exact Or.inl hhup
  · cases read with
    | none => exact Or.inr (Or.inl (hunexpected w h))
    | some inp =>
        dsimp only at h
        unfold longServerRead at h
        split at h
        · cases h
        · split at h
          · rename_i hread
            refine Or.inr (Or.inr (Or.inr ⟨inp, rfl, Or.inl ?_⟩))
            rw [hread]
            exact Option.some_ne_none _
          · split at h
            · rename_i hempty
              exact Or.inr (Or.inr (Or.inr ⟨inp, rfl, Or.inr (List.isEmpty_iff.mp hempty)⟩))
            · rw [hkind] at h
              dsimp only at h
              unfold popped at h
              split at h
              · cases h
              · cases h
              · dsimp only at h
                split at h
                · cases h
                · unfold andThen at h
                  split at h
                  · exact Or.inr (Or.inl (hunexpected _ h))
                  · unfold restoreClient at h
                    split at h
                    · cases h
                    · cases first with
                      | none => cases h
                      | some t => exact Or.inr (Or.inr (Or.inl h))

/-- One event of the server half that finishes the pop. -/
theorem event_serverClosed (he : e.conn = .longServer l) (hkind : (w.longs.objects l).kind = .blockedListPop)
    (hopen : (w.longs.objects l).closed = false) (hserver : (w.longs.objects l).serverClosed = false)
    (hconn : e.conn ∉ w.closedConns) (h : (w.event cfg e).2 = none)
    (hclosed : ((w.event cfg e).1.longs.objects l).closed = true) :
    ((w.event cfg e).1.longs.objects l).serverClosed = true ↔ e.EndsServer := by
  obtain ⟨u, hlongs, hcases⟩ := event_none h hconn
  rw [← hlongs] at hkind hopen hserver
  cases e with
  | longServer l' hup read write first second =>
      cases he
      rcases hcases with ⟨hnone, heq⟩ | ⟨hio, -, heq⟩
      · rw [heq] at hclosed ⊢
        exact longServerEvent_serverClosed hkind hopen hserver hnone hclosed
      · rw [heq]
        exact iff_of_true (longServerError_serverClosed l second _) (longServerEvent_io_ends hkind hio)
  | _ => cases he

/-- The other events of a batch leave the server half alone. -/
theorem events_serverClosed : ∀ (es : List Event) {u : World}, l < u.longs.count → .longServer l ∉ es.map Event.conn →
    (u.steps cfg (es.map .event)).2 = none →
    ((u.steps cfg (es.map .event)).1.longs.objects l).serverClosed = (u.longs.objects l).serverClosed
  | [], _, _, _, _ => rfl
  | e :: es, u, hl, hes, hnone => by
      obtain ⟨he, heq⟩ := steps_cons_none hnone
      rw [List.map_cons, heq] at hnone ⊢
      rw [List.map_cons, List.mem_cons, not_or] at hes
      refine (events_serverClosed es (event_count hl e) hes.2 hnone).trans ?_
      by_cases hel : e.conn.long = some l
      · have hclient : e.conn = .longClient l := by
          cases hc : e.conn with
          | longClient l' => rw [hc] at hel; cases hel; rfl
          | longServer l' => rw [hc] at hel; cases hel; exact absurd hc.symm hes.1
          | _ => rw [hc] at hel; cases hel
        by_cases hconn : e.conn ∈ u.closedConns
        · exact congrArg (fun w => (w.longs.objects l).serverClosed) (event_passed hconn)
        · exact (event_client hclient hconn he).1
      · exact congrArg Long.serverClosed (event_others hl hel)

/-! ### The whole call -/

/-- In this call `restore_client` gives the descriptor of the pop `l` back to a client: the event `e`
of its server half finds the client half with a descriptor, and leaves it without. -/
def Restored (cfg : Config) (w : World) (b : Batch) (l : LongId) (e : Event) : Prop :=
  e.conn = .longServer l ∧ (w.longs.objects l).kind = .blockedListPop ∧
  ∃ before after, b.events = before ++ e :: after ∧
    ((w.steps cfg (.start :: before.map .event)).1.longs.objects l).closed = false ∧
    ((w.steps cfg (.start :: (before ++ [e]).map .event)).1.longs.objects l).closed = true

/-- The pop is destroyed, its connection to the backend is closed, and only the other long
connections are counted. -/
structure LeavesNothing (w : World) (l : LongId) : Prop where
  destroyed : l ∉ w.longs.live
  closed : w.descriptors.held (.longServer l) = none
  count : w.longConnsCount = ((w.longs.live.filter (· ≠ l)).length : ℤ)

theorem leavesNothing_iff (hw : w.Tallied) : w.LeavesNothing l ↔ l ∉ w.longs.live := by
  refine ⟨LeavesNothing.destroyed, fun hl => ⟨hl, ?_, ?_⟩⟩
  · rw [← Option.not_isSome_iff_eq_none]
    exact fun hsome => hl (hw.halves (.longServer l) l rfl hsome)
  · rw [List.filter_eq_self.mpr fun l' hl' => ?_, hw.count]
    rw [decide_eq_true_iff]
    rintro rfl
    exact hl hl'

/-- The state `u` after the events of a call in which `restore_client` has given the descriptor
back. -/
theorem restored_halves (hw : Reached cfg w) (hb : w.Delivered b) (hpop : w.Restored cfg b l e)
    (hphases : Phases cfg w b u v) : l ∈ u.longs.live ∧ u.closed (.longClient l) = true ∧
      (u.closed (.longServer l) = true ↔ e.EndsServer) ∧ .longServer l ∈ u.activeConns ∧
      (.longClient l ∈ u.activeConns ↔ .longClient l ∈ b.events.map Event.conn) := by
  obtain ⟨he, hkind, before, after, hevents, hopen, hclosed⟩ := hpop
  rw [steps_start cfg hphases.start] at hopen hclosed
  have honce := hb.once
  rw [hevents, List.map_append, List.map_cons, he] at honce
  have hdone : Conn.longServer l ∉ before.map Event.conn := fun hmem =>
    (List.nodup_append.mp honce).2.2 _ hmem _ List.mem_cons_self rfl
  have hlater : Conn.longServer l ∉ after.map Event.conn :=
    (List.nodup_cons.mp (List.nodup_append.mp honce).2.1).1
  have hregistered : (w.poller.interest (.longServer l)).isSome := by
    rw [← he]
    exact hb.registered e (hevents ▸ List.mem_append_right _ List.mem_cons_self)
  obtain ⟨hlive, hserver⟩ := hw.registered.server l hregistered
  have hrun := hphases.events
  have hnone : (w.start.1.steps cfg (b.events.map .event)).2 = none := by rw [hrun]
  have hstart := follows_start hw.registered hphases.start
  have hall : w.Follows b.events _ := hstart.run b.events hb.once hnone
  have hactive := fun c hc => hstart.active (c := c) hc b.events hb.once hnone
  rw [hrun] at hall
  rw [hrun, start_activeConns hphases.start] at hactive
  -- the call up to the event, the event, and the events after it
  rw [hevents] at hrun hnone
  obtain ⟨hbefore, hnone', heq, heq'⟩ := events_split hnone
  have hfollows : w.Follows before _ := hstart.run before (List.nodup_append.mp honce).1 hbefore
  rw [heq'] at hrun hnone
  rw [heq] at hclosed
  generalize (w.start.1.steps cfg (before.map .event)).1 = u₀ at *
  have hconn : e.conn ∉ u₀.closedConns := by
    intro hmem
    rcases hfollows.passed _ hmem with ⟨l', -, hl'⟩ | hmem
    · rw [he] at hl'
      cases hl'
    · exact hdone (he ▸ hmem)
  have hgone : ¬ w.Gone before l := by
    rw [← hfollows.closed l hlive, hopen]
    exact Bool.false_ne_true
  have hends := event_serverClosed he ((hfollows.kind l hlive).trans hkind) hopen
    ((hfollows.server l hlive hdone).1.trans hserver) hconn hnone' hclosed
  have hafter := events_serverClosed after (event_count (hfollows.created l hlive) e) hlater hnone
  rw [hrun] at hafter
  refine ⟨hall.live l hlive, ?_, ?_, ?_, ?_⟩
  · refine (hall.closed l hlive).mpr ?_
    have hstep := (hfollows.step (he ▸ hdone) hnone').closed l hlive
    rcases hstep.mp hclosed with h | h | ⟨e', he', hends'⟩
    · exact Or.inl h
    · exact Or.inr (Or.inl h)
    · refine Or.inr (Or.inr ⟨e', ?_, hends'⟩)
      rw [hevents]
      rw [List.mem_append, List.mem_singleton] at he'
      rw [List.mem_append, List.mem_cons]
      exact he'.imp_right Or.inl
  · exact (iff_of_eq (congrArg (· = true) hafter)).trans hends
  · refine (hactive (.longServer l) fun _ _ h => nomatch h).mpr (Or.inr ?_)
    rw [hevents, List.map_append, List.map_cons, he]
    exact List.mem_append_right _ List.mem_cons_self
  · rw [hactive (.longClient l) ?_, or_iff_right List.not_mem_nil]
    rintro l' hl' heq
    cases heq
    exact hgone (Or.inr (Or.inl hl'))

/-- When `restore_client` has given the descriptor back, nothing is left of the pop at the end of the
call, if and only if the client half had an event too or the event of the server half was one that
closes it. -/
theorem finished_pop_iff (hw : Reached cfg w) (hb : w.Delivered b) (hret : (w.handleEvents cfg b).2 = none)
    (hpop : w.Restored cfg b l e) : (w.handleEvents cfg b).1.LeavesNothing l ↔
      .longClient l ∈ b.events.map Event.conn ∨ e.EndsServer := by
  obtain ⟨u, v, hphases⟩ := phases hret
  obtain ⟨hlive, hclient, hserver, hactive, hactive'⟩ := restored_halves hw hb hpop hphases
  have hnodup : u.longs.live.Nodup := (hphases.reached hw).tallied.nodup
  have hreached : Reached cfg (w.handleEvents cfg b).1 := hw.turn (t := .handle b) hret
  rw [leavesNothing_iff hreached.tallied, hphases.live_iff hnodup, ← hactive', ← hserver]
  constructor
  · intro hleft
    by_contra hnot
    rw [not_or] at hnot
    refine hleft ⟨hlive, fun c hc hmem => ?_⟩
    cases c with
    | longClient l' =>
        cases hc
        exact absurd hmem hnot.1
    | longServer l' =>
        cases hc
        exact Bool.not_eq_true _ ▸ hnot.2
    | _ => cases hc
  · rintro (hmem | hclosed) ⟨-, hall⟩
    · exact nomatch hclient.symm.trans (hall (.longClient l) rfl hmem)
    · exact nomatch hclosed.symm.trans (hall (.longServer l) rfl hactive)

/-- A client is accepted, the slot map comes, and the client waits for an element of a list. -/
def blockedPop : List Turn :=
  [.handle ⟨[.accept 1 .again], [(⟨ascii "h", 6379⟩, .opened)], fun _ => .opened⟩,
    .handle ⟨[.updater 0 (.nodes [Tracked.master "h" (3656, 3656)]) fun _ => .opened], [], fun _ => .opened⟩,
    .handle ⟨[.client 0 false (some ⟨ascii "*3\r\n$5\r\nBLPOP\r\n$1\r\na\r\n$1\r\n0\r\n", .again, 0⟩) none
      ⟨0, .opened⟩], [], fun _ => .opened⟩]

def popping : World := blockedPop.foldl (fun w t => (w.turn plainConfig t).1) (new plainConfig)

theorem popping_reached : Reached plainConfig popping := by
  have hrun : Runs.Along (fun w t => (w.turn plainConfig t).1) (fun w t => (w.turn plainConfig t).2 = none)
      (new plainConfig) blockedPop := by decide +kernel
  exact Reached.turns blockedPop .refl hrun

/-- The backend hangs up. -/
def backendHangup : Batch where
  events := [.longServer 0 true none false none none]
  remotes := [(⟨ascii "h", 6379⟩, .opened)]
  connects _ := .opened

theorem restored_hangup : popping.Delivered backendHangup ∧
    popping.Restored plainConfig backendHangup 0 (.longServer 0 true none false none none) := by
  have hrun : (((backendHangup.events.map Event.conn).Nodup ∧
      ∀ e ∈ backendHangup.events, (popping.poller.interest e.conn).isSome) ∧
      (popping.longs.objects 0).kind = .blockedListPop) ∧
      ((popping.steps plainConfig (.start :: List.map .event [])).1.longs.objects 0).closed = false ∧
      ((popping.steps plainConfig (.start :: List.map .event ([] ++ [.longServer 0 true none false none none]))).1.longs.objects
        0).closed = true := by decide +kernel
  obtain ⟨⟨⟨honce, hregistered⟩, hkind⟩, hopen, hclosed⟩ := hrun
  exact ⟨⟨honce, hregistered⟩, rfl, hkind, [], [], rfl, hopen, hclosed⟩

theorem finished_pop_hangup : (popping.handleEvents plainConfig backendHangup).1.LeavesNothing 0 := by
  have hret : (popping.handleEvents plainConfig backendHangup).2 = none := by decide +kernel
  obtain ⟨hdelivered, hrestored⟩ := restored_hangup
  exact (finished_pop_iff popping_reached hdelivered hret hrestored).mpr (Or.inr (Or.inl rfl))

/-- The backend sends an element: the client gets it and its descriptor back, and the rest of the pop
stays. -/
def poppedValue : Batch where
  events := [.longServer 0 false (some ⟨ascii "*2\r\n$1\r\na\r\n$1\r\nx\r\n", .again, 0⟩) false none none]
  remotes := []
  connects _ := .opened

theorem finished_pop_stays :
    popping.longConnsCount = 1 ∧ popping.descriptors.held (.longClient 0) = some 2 ∧
    (popping.handleEvents plainConfig poppedValue).2 = none ∧
    (popping.handleEvents plainConfig poppedValue).1.descriptors.held (.client 1) = some 2 ∧
    0 ∈ (popping.handleEvents plainConfig poppedValue).1.longs.live ∧
    (popping.handleEvents plainConfig poppedValue).1.descriptors.held (.longServer 0) = some 4 ∧
    (popping.handleEvents plainConfig poppedValue).1.longConnsCount = 1 := by
  decide +kernel

end World

end Cerberus
