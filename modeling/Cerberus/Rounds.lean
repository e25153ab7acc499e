import Cerberus.Halves

/-! # A call of `handle_events` and what it destroys

After the events of a batch `handle_events` calls `after_events` of the connections that had one.
A half of a long connection that is closed then destroys the whole of it, and a client that is
closed is destroyed; nothing else is looked at.  `Phases` cuts a call that returns into these parts,
and `after_live_iff` says which long connections are left. -/

namespace Cerberus

namespace World

variable {cfg : Config} {w u v : World} {l : LongId} {e : Event} {b : Batch}

/-! ### Long connections are counted -/

/-- The long connections that exist are counted, and no other one holds a descriptor; nor does a
client that has not been created. -/
structure Tallied (w : World) : Prop where
  created : ∀ l ∈ w.longs.live, l < w.longs.count
  nodup : w.longs.live.Nodup
  count : w.longConnsCount = w.longs.live.length
  halves : ∀ c l, c.long = some l → (w.descriptors.held c).isSome → l ∈ w.longs.live
  clients : ∀ c, (w.descriptors.held (.client c)).isSome → c < w.clientCount

/-- Nothing happens to the long connections, and no descriptor gets to one or to a client. -/
theorem Tallied.of_eq {w' : World} (h : w.Tallied) (hcreated : w'.longs.count = w.longs.count)
    (hlive : w'.longs.live = w.longs.live) (hcount : w'.longConnsCount = w.longConnsCount)
    (hclients : w.clientCount ≤ w'.clientCount)
    (hheld : ∀ c : Conn, c.long.isSome ∨ (∃ i, c = .client i) → (w'.descriptors.held c).isSome →
      (w.descriptors.held c).isSome) : w'.Tallied where
  created l hl := by
    rw [hlive] at hl
    rw [hcreated]
    exact h.created l hl
  nodup := hlive ▸ h.nodup
  count := by rw [hcount, hlive, h.count]
  halves c l hc hl := by
    rw [hlive]
    exact h.halves c l hc (hheld c (Or.inl (hc ▸ rfl)) hl)
  clients c hc := lt_of_lt_of_le (h.clients c (hheld _ (Or.inr ⟨c, rfl⟩) hc)) hclients

theorem held_create_other {d : Descriptors} {ch : Descriptors.Chooser} {c a : Conn} (hne : a ≠ c)
    (h : ((d.create ch c).held a).isSome) : (d.held a).isSome := by
  rwa [Descriptors.held_create, if_neg hne] at h

theorem held_close_some {d : Descriptors} {c a : Conn} (h : ((d.close c).held a).isSome) :
    a ≠ c ∧ (d.held a).isSome := by
  rw [Descriptors.held_close] at h
  split at h
  · cases h
  · rename_i hne
    exact ⟨hne, h⟩

theorem held_tryOut_some {d : Descriptors} {ch : Descriptors.Chooser} {c a : Conn}
    (h : ((d.tryOut ch c).held a).isSome) : (d.held a).isSome := by
  rw [Descriptors.held_tryOut] at h
  split at h
  · cases h
  · exact h

theorem held_closes_some : ∀ (us : List UpdaterId) {d : Descriptors} {a : Conn},
    ((us.foldl (fun d u => d.close (.updater u)) d).held a).isSome → (d.held a).isSome
  | [], _, _, h => h
  | _ :: us, _, _, h => (held_close_some (held_closes_some us h)).2

theorem ne_server {c : Conn} {s : ServerId} (h : c.long.isSome ∨ ∃ i, c = .client i) : c ≠ .server s := by
  rintro rfl
  rcases h with h | ⟨i, h⟩ <;> cases h

theorem ne_updater {c : Conn} {i : UpdaterId} (h : c.long.isSome ∨ ∃ i, c = .client i) : c ≠ .updater i := by
  rintro rfl
  rcases h with h | ⟨i, h⟩ <;> cases h

theorem tallied_serverCall (h : w.Tallied) (a : ServerCall) : (w.serverCall cfg a).Tallied := by
  cases a with
  | opened s =>
      exact h.of_eq rfl rfl rfl le_rfl fun c hc hsome => held_create_other (ne_server hc) hsome
  | closed s =>
      refine h.of_eq rfl rfl rfl le_rfl fun c hc hsome => ?_
      unfold serverCall at hsome
      dsimp only at hsome
      split at hsome
      · exact (held_close_some hsome).2
      · exact held_tryOut_some hsome

theorem tallied_convert (h : w.Tallied) (c : ClientId) (kind : LongKind) (s : ServerId) :
    (w.convert cfg c kind s).Tallied := by
  have hheld : ∀ a, ((w.convert cfg c kind s).descriptors.held a).isSome →
      a.long = some w.longs.count ∨ (w.descriptors.held a).isSome := by
    intro a ha
    unfold convert at ha
    dsimp only at ha
    rw [Descriptors.held_give] at ha
    split at ha
    · cases ha
    · split at ha
      · rename_i heq
        rw [heq]
        exact Or.inl rfl
      · rw [Descriptors.held_create] at ha
        split at ha
        · rename_i heq
          rw [heq]
          exact Or.inl rfl
        · exact Or.inr ha
  refine ⟨fun l hl => ?_, ?_, ?_, fun a l ha hsome => ?_, fun i hi => ?_⟩
  · rcases List.mem_append.mp hl with hl | hl
    · exact Nat.lt_succ_of_lt (h.created l hl)
    · rw [List.mem_singleton.mp hl]
      exact Nat.lt_succ_self _
  · refine List.nodup_append.mpr ⟨h.nodup, List.nodup_singleton _, fun a ha b hb => ?_⟩
    rw [List.mem_singleton.mp hb]
    exact Nat.ne_of_lt (h.created a ha)
  · show w.longConnsCount + 1 = ((w.longs.live ++ [w.longs.count]).length : ℤ)
    rw [h.count, List.length_append, List.length_singleton]
    push_cast
    rfl
  · rcases hheld a hsome with hnew | hold
    · rw [ha] at hnew
      cases hnew
      exact List.mem_append_right _ (List.mem_singleton_self _)
    · exact List.mem_append_left _ (h.halves a l ha hold)
  · rcases hheld _ hi with hnew | hold
    · cases hnew
    · exact h.clients i hold

theorem tallied_deliverClient (h : w.Tallied) (conv : Conversion) (c : ClientId) (g : GroupId) :
    (w.deliverClient cfg conv c g).Tallied := by
  have hdel : ({ w with poller := w.poller.del (.client c) } : World).Tallied :=
    h.of_eq rfl rfl rfl le_rfl fun _ _ => id
  unfold deliverClient
  dsimp only
  split
  · exact hdel
  · split
    · exact tallied_convert hdel c _ _
    · refine hdel.of_eq rfl rfl rfl le_rfl fun a _ ha => ?_
      rwa [Descriptors.held_closeCopy] at ha
    · refine hdel.of_eq rfl rfl rfl le_rfl fun a _ ha => ?_
      rw [Descriptors.held_closeCopy] at ha
      exact held_tryOut_some ha

theorem tallied_restored (h : w.Tallied) (l : LongId) (b : Bool) : (w.restored l b).Tallied := by
  have hheld : ∀ a, ((w.restored l b).descriptors.held a).isSome →
      a = .client w.clientCount ∨ (w.descriptors.held a).isSome := by
    intro a ha
    unfold restored at ha
    dsimp only at ha
    rw [Descriptors.held_give] at ha
    split at ha
    · cases ha
    · split at ha
      · rename_i heq
        exact Or.inl heq
      · exact Or.inr ha
  refine ⟨h.created, h.nodup, h.count, fun a l' ha hsome => ?_, fun i hi => ?_⟩
  · rcases hheld a hsome with heq | hold
    · rw [heq] at ha
      cases ha
    · exact h.halves a l' ha hold
  · rcases hheld _ hi with heq | hold
    · cases heq
      exact Nat.lt_succ_self _
    · exact Nat.lt_succ_of_lt (h.clients i hold)

theorem tallied_newClient (h : w.Tallied) : (w.newClient cfg).Tallied := by
  refine ⟨h.created, h.nodup, h.count, fun a l ha hsome => ?_, fun i hi => ?_⟩
  · refine h.halves a l ha (held_create_other ?_ hsome)
    rintro rfl
    cases ha
  · by_cases heq : i = w.clientCount
    · rw [heq]
      exact Nat.lt_succ_self _
    · refine Nat.lt_succ_of_lt (h.clients i (held_create_other (fun hc => heq ?_) hi))
      cases hc
      rfl

theorem tallied_destroyLong (h : w.Tallied) (hl : l ∈ w.longs.live) : (w.destroyLong l).Tallied := by
  refine ⟨fun l' hl' => h.created l' (List.mem_of_mem_erase hl'), h.nodup.erase l, ?_, fun c l' hc hsome => ?_,
    fun i hi => h.clients i (held_close_some (held_close_some hi).2).2⟩
  · show w.longConnsCount - 1 = ((w.longs.live.erase l).length : ℤ)
    have hpos := List.length_pos_of_mem hl
    rw [h.count, List.length_erase_of_mem hl]
    omega
  · obtain ⟨hclient, hsome⟩ := held_close_some hsome
    obtain ⟨hserver, hsome⟩ := held_close_some hsome
    refine (h.nodup.mem_erase_iff).mpr ⟨?_, h.halves c l' hc hsome⟩
    rintro rfl
    cases c with
    | longClient l => cases hc; exact hclient rfl
    | longServer l => cases hc; exact hserver rfl
    | _ => cases hc

theorem rules_tallied (cfg : Config) : StepRules cfg (fun _ => True) (fun _ => True) Tallied where
  calm h hcalm := h.of_eq (by rw [hcalm.longs]) (by rw [hcalm.longs]) hcalm.longConnsCount
    (le_of_eq hcalm.traffic.clientCount.symm) fun _ _ hc => by rwa [hcalm.descriptors] at hc
  routes h _ := h.of_eq rfl rfl rfl le_rfl fun _ _ => id
  serverCall := tallied_serverCall
  newClient h := tallied_newClient h
  store h _ := h.of_eq rfl rfl rfl le_rfl fun _ _ => id
  deliver h _ c g := tallied_deliverClient h _ c g
  closeClient h _ := h.of_eq rfl rfl rfl le_rfl fun _ _ hc => (held_close_some hc).2
  badClient h _ := h.of_eq rfl rfl rfl le_rfl fun _ _ => id
  finished h _ _ := h.of_eq rfl rfl rfl le_rfl fun _ _ hc => (held_close_some hc).2
  failed h := h.of_eq rfl rfl rfl le_rfl fun _ _ => id
  newUpdater h := h.of_eq rfl rfl rfl le_rfl fun _ hc => held_create_other (ne_updater hc)
  tryUpdater h := h.of_eq rfl rfl rfl le_rfl fun _ _ => held_tryOut_some
  acceptor h _ _ := h.of_eq rfl rfl rfl le_rfl fun _ _ => id
  closeLong h _ := h.of_eq rfl rfl rfl le_rfl fun _ _ hc => (held_close_some hc).2
  closeLongServer h _ := h.of_eq rfl rfl rfl le_rfl fun _ _ hc => (held_close_some hc).2
  restored h _ _ b := tallied_restored h _ b
  buffer h _ _ := h.of_eq rfl rfl rfl le_rfl fun _ _ => id
  badLong h _ _ := h.of_eq rfl rfl rfl le_rfl fun _ _ => id
  sets h _ _ := h.of_eq rfl rfl rfl le_rfl fun _ _ => id
  fdClosed h _ := h.of_eq rfl rfl rfl le_rfl fun _ _ => id
  destroyClient h _ := h.of_eq rfl rfl rfl le_rfl fun _ _ => id
  clearFinished h := h.of_eq rfl rfl rfl le_rfl fun _ _ => held_closes_some _

theorem afterEvents_present {c : Conn} (h : (w.afterEvents c).2 = none) (hc : c ∈ w.activeConns) : w.Present c := by
  unfold afterEvents at h
  rw [if_neg (not_not.mpr hc)] at h
  split at h
  · cases h
  · rename_i hpresent
    exact not_not.mp hpresent

theorem present_long {c : Conn} (hc : c.long = some l) : w.Present c ↔ l ∈ w.longs.live := by
  cases c <;> cases hc <;> exact Iff.rfl

theorem Reached.tallied (h : Reached cfg w) : w.Tallied := by
  have hnew : (new cfg).Tallied := by
    have hnone : ∀ c, c ≠ .acceptor → (new cfg).descriptors.held c = none := by
      intro c hc
      show (Descriptors.new.create cfg.chooser .acceptor).held c = none
      rw [Descriptors.held_create, if_neg hc]
      rfl
    refine ⟨nofun, .nil, rfl, fun c l hc hsome => ?_, fun c hc => ?_⟩
    · rw [hnone c (by rintro rfl; cases hc)] at hsome
      cases hsome
    · rw [hnone (.client c) nofun] at hc
      cases hc
  refine Runs.Reachable.inv (I := Tallied) h hnew fun w st hw hst => ?_
  refine kept_step (rules_tallied cfg) hw ?_
  cases st with
  | start =>
      exact kept_start (rules_tallied cfg) hw (fun _ _ => trivial) fun _ hw => hw.of_eq rfl rfl rfl le_rfl fun _ _ => id
  | event e => exact ⟨fun _ _ => trivial, fun _ _ _ _ _ _ => trivial⟩
  | afterEvents c =>
      intro l a hl hactive _ hw'
      have hpresent : w.Present c := afterEvents_present hst hactive
      exact tallied_destroyLong hw' ((present_long hl).mp hpresent)
  | _ => trivial

/-! ### The parts of a call -/

/-- A call of `handle_events` that returns: `u` is the state after the events, `v` the state after
`after_events` of all connections. -/
structure Phases (cfg : Config) (w : World) (b : Batch) (u v : World) : Prop where
  start : w.start.2 = none
  events : w.start.1.steps cfg (b.events.map .event) = (u, none)
  polled : u.pollCtl.2 = none
  after : u.pollCtl.1.steps cfg ((inOrder cfg u.activeConns).map .afterEvents) = (v, none)
  rest : w.handleEvents cfg b = v.steps cfg [.clearFinished, .update b.remotes b.connects, .resume]

theorem phases (h : (w.handleEvents cfg b).2 = none) : ∃ u v, Phases cfg w b u v := by
  obtain ⟨hfirst, hlast⟩ := andThen_none h
  unfold handleEvents at h
  rw [hlast] at h
  obtain ⟨hafter, hrest⟩ := steps_append_none h
  have hfirst' : (w.steps cfg (.start :: (b.events.map .event ++ [.pollCtl]))).2 = none := hfirst
  obtain ⟨hstart, heq⟩ := steps_cons_none hfirst'
  rw [heq] at hfirst'
  obtain ⟨hevents, heq'⟩ := steps_append_none hfirst'
  rw [heq'] at hfirst'
  obtain ⟨hpoll, heq''⟩ := steps_cons_none hfirst'
  have hstate : w.steps cfg (.start :: b.events.map .event ++ [.pollCtl]) =
      (((w.start.1.steps cfg (b.events.map .event)).1.pollCtl.1), none) :=
    heq.trans (heq'.trans heq'')
  rw [hstate] at hlast hafter hrest
  have hactive := (calm_pollCtl (w.start.1.steps cfg (b.events.map .event)).1).activeConns
  dsimp only at hlast hafter hrest
  rw [hactive] at hlast hafter hrest
  refine ⟨_, _, hstart, Prod.ext rfl hevents, hpoll, Prod.ext rfl hafter, ?_⟩
  unfold handleEvents
  rw [hstate]
  exact hlast.trans hrest

theorem steps_start (cfg : Config) (h : w.start.2 = none) (sts : List Step) : w.steps cfg (.start :: sts) = w.start.1.steps cfg sts := by
  show andThen w.start (steps cfg sts) = _
  rw [andThen, h]

theorem Phases.reached (h : Phases cfg w b u v) (hw : Reached cfg w) : Reached cfg u := by
  have hrun := steps_start cfg h.start (b.events.map .event)
  rw [h.events] at hrun
  have := Reached.steps (.start :: b.events.map .event) hw (by rw [hrun])
  rwa [hrun] at this

theorem start_activeConns (h : w.start.2 = none) : w.start.1.activeConns = [] := by
  obtain ⟨-, heq⟩ := andThen_none h
  rw [start, heq]

/-- The events of a batch, one after the other. -/
theorem Follows.run : ∀ (es : List Event) {done : List Event} {u : World}, w.Follows done u →
    ((done ++ es).map Event.conn).Nodup → (u.steps cfg (es.map .event)).2 = none →
    w.Follows (done ++ es) (u.steps cfg (es.map .event)).1
  | [], done, u, h, _, _ => by
      rw [List.append_nil]
      exact h
  | e :: es, done, u, h, hnodup, hnone => by
      have hdone : e.conn ∉ done.map Event.conn := by
        rw [List.map_append, List.nodup_append] at hnodup
        exact fun hmem => hnodup.2.2 _ hmem _ List.mem_cons_self rfl
      have hassoc : done ++ e :: es = done ++ [e] ++ es := by rw [List.append_assoc]; rfl
      rw [hassoc] at hnodup ⊢
      obtain ⟨he, heq⟩ := steps_cons_none hnone
      rw [List.map_cons, heq] at hnone ⊢
      exact Follows.run es (h.step hdone he) hnodup hnone

/-- One of the events of a batch: the state it finds, what it does, and the events after it. -/
theorem events_split {before after : List Event} (h : (w.steps cfg ((before ++ e :: after).map .event)).2 = none) :
    (w.steps cfg (before.map .event)).2 = none ∧
    ((w.steps cfg (before.map .event)).1.event cfg e).2 = none ∧
    (w.steps cfg ((before ++ [e]).map .event)).1 = ((w.steps cfg (before.map .event)).1.event cfg e).1 ∧
    w.steps cfg ((before ++ e :: after).map .event) =
      ((w.steps cfg (before.map .event)).1.event cfg e).1.steps cfg (after.map .event) := by
  rw [List.map_append, List.map_cons] at h
  obtain ⟨hbefore, heq⟩ := steps_append_none h
  rw [heq] at h
  obtain ⟨he, heq'⟩ := steps_cons_none h
  refine ⟨hbefore, he, ?_, ?_⟩
  · rw [List.map_append, steps_append, andThen, hbefore]
    show (andThen (event cfg e _) (steps cfg [])).1 = _
    rw [andThen, show (event cfg e _).2 = none from he]
    rfl
  · rw [List.map_append, List.map_cons, heq, heq']
    rfl

theorem event_present (h : (w.event cfg e).2 = none) : w.Present e.conn := by
  unfold event at h
  split at h
  · cases h
  · rename_i hpresent
    exact not_not.mp hpresent

/-- The active connections are those that had an event, unless they were passed over. -/
theorem Follows.active {c : Conn} (hc : ∀ l ∈ w.longs.inactive, c ≠ .longClient l) :
    ∀ (es : List Event) {done : List Event} {u : World}, w.Follows done u → ((done ++ es).map Event.conn).Nodup →
    (u.steps cfg (es.map .event)).2 = none →
    (c ∈ (u.steps cfg (es.map .event)).1.activeConns ↔ c ∈ u.activeConns ∨ c ∈ es.map Event.conn)
  | [], _, _, _, _, _ => (or_iff_left List.not_mem_nil).symm
  | e :: es, done, u, h, hnodup, hnone => by
      have hdone : e.conn ∉ done.map Event.conn := by
        rw [List.map_append, List.nodup_append] at hnodup
        exact fun hmem => hnodup.2.2 _ hmem _ List.mem_cons_self rfl
      have hassoc : done ++ e :: es = done ++ [e] ++ es := by rw [List.append_assoc]; rfl
      rw [hassoc] at hnodup
      obtain ⟨he, heq⟩ := steps_cons_none hnone
      rw [List.map_cons, heq] at hnone ⊢
      have hstep : c ∈ (u.event cfg e).1.activeConns ↔ c ∈ u.activeConns ∨ c = e.conn := by
        rw [(event_conns cfg e u).1]
        by_cases hec : c = e.conn
        · have hconn : e.conn ∉ u.closedConns := by
            intro hmem
            obtain ⟨l, hl, hlong⟩ := (h.passed _ hmem).resolve_right hdone
            exact hc l hl (hec.trans hlong)
          rw [if_pos ⟨event_present he, hconn⟩, List.mem_insert_iff, hec]
          exact or_comm
        · rw [or_iff_left hec]
          split
          · rw [List.mem_insert_iff, or_iff_right hec]
          · rfl
      have ih := Follows.active hc es (h.step hdone he) hnodup hnone
      refine ih.trans ?_
      rw [hstep, List.map_cons, List.mem_cons, or_assoc]

/-! ### `after_events` -/

/-- What `after_events` of a connection does, if anything. -/
inductive AfterCase (w : World) (c : Conn) (w' : World) : Prop
  | idle (same : w' = w)
  | server (s : ServerId) (conn : c = .server s) (same : w' = { w with slotMapExpired := true })
  | client (i : ClientId) (conn : c = .client i) (active : c ∈ w.activeConns) (closed : w.closed c = true)
      (same : w' = { w with
        toTraffic := w.toTraffic.destroyClient i
        clientsCount := w.clientsCount - 1
        fdClosed := true })
  | long (l : LongId) (other : Conn) (conn : c.long = some l) (half : other.long = some l)
      (active : c ∈ w.activeConns) (closed : w.closed c = true)
      (same : w' = destroyLong l { w with activeConns := w.activeConns.erase other })

theorem afterEvents_cases (c : Conn) (w : World) : w.AfterCase c (w.afterEvents c).1 := by
  unfold afterEvents
  split
  · exact .idle rfl
  · rename_i hactive
    rw [not_not] at hactive
    split
    · exact .idle rfl
    · split
      · exact .idle rfl
      · rename_i hclosed
        rw [not_not] at hclosed
        cases c with
        | server s => exact .server s rfl rfl
        | client i => exact .client i rfl hactive hclosed rfl
        | longClient l => exact .long l (.longServer l) rfl rfl hactive hclosed rfl
        | longServer l => exact .long l (.longClient l) rfl rfl hactive hclosed rfl
        | _ => exact .idle rfl

/-- A closed half that is active destroys its long connection. -/
theorem afterEvents_destroys {c : Conn} (hc : c.long = some l) (hactive : c ∈ w.activeConns)
    (hclosed : w.closed c = true) (h : (w.afterEvents c).2 = none) :
    (w.afterEvents c).1.longs.live = w.longs.live.erase l := by
  have hpresent := afterEvents_present h hactive
  unfold afterEvents
  rw [if_neg (not_not.mpr hactive), if_neg (not_not.mpr hpresent), if_neg (not_not.mpr hclosed)]
  cases c <;> cases hc <;> rfl

/-- What is left of a long connection is the same. -/
structure SameHalves (l : LongId) (w w' : World) : Prop where
  live : l ∈ w'.longs.live ↔ l ∈ w.longs.live
  active : ∀ c : Conn, c.long = some l → (c ∈ w'.activeConns ↔ c ∈ w.activeConns)
  closed : ∀ c : Conn, c.long = some l → w'.closed c = w.closed c

theorem SameHalves.of_eq {w' : World} (hlongs : w'.longs = w.longs) (hactive : w'.activeConns = w.activeConns) :
    SameHalves l w w' where
  live := by rw [hlongs]
  active _ _ := by rw [hactive]
  closed c hc := by
    cases c with
    | longClient l' => exact congrArg (fun x => (x.objects l').closed) hlongs
    | longServer l' => exact congrArg (fun x => (x.objects l').serverClosed) hlongs
    | _ => cases hc

theorem afterEvents_same {c : Conn} (h : c.long = some l → c ∈ w.activeConns → w.closed c = false) :
    SameHalves l w (w.afterEvents c).1 := by
  cases afterEvents_cases c w with
  | idle same => rw [same]; exact .of_eq rfl rfl
  | server s conn same => rw [same]; exact .of_eq rfl rfl
  | client i conn active closed same => rw [same]; exact .of_eq rfl rfl
  | long l' other conn half active closed same =>
      have hne : l ≠ l' := by
        rintro rfl
        rw [h conn active] at closed
        cases closed
      rw [same]
      refine ⟨List.mem_erase_of_ne hne, fun d hd => ?_, fun d hd => ?_⟩
      · refine List.mem_erase_of_ne ?_
        rintro rfl
        rw [hd] at half
        exact hne (Option.some.inj half)
      · cases d <;> cases hd <;> rfl

/-- After the loop a long connection is left, unless one of its halves was active and closed. -/
theorem after_live_iff : ∀ (cs : List Conn) {w : World}, w.longs.live.Nodup →
    (w.steps cfg (cs.map .afterEvents)).2 = none →
    (l ∈ (w.steps cfg (cs.map .afterEvents)).1.longs.live ↔
      l ∈ w.longs.live ∧ ∀ c ∈ cs, c.long = some l → c ∈ w.activeConns → w.closed c = false)
  | [], _, _, _ => (and_iff_left (fun _ hc => nomatch hc)).symm
  | c :: cs, w, hnodup, hnone => by
      obtain ⟨hc, heq⟩ := steps_cons_none hnone
      rw [List.map_cons, heq] at hnone ⊢
      have hnodup' : (w.afterEvents c).1.longs.live.Nodup := by
        cases afterEvents_cases c w with
        | idle same => rw [same]; exact hnodup
        | server s conn same => rw [same]; exact hnodup
        | client i conn active closed same => rw [same]; exact hnodup
        | long l' other conn half active closed same => rw [same]; exact hnodup.erase l'
      refine (after_live_iff cs hnodup' hnone).trans ?_
      by_cases hends : c.long = some l ∧ c ∈ w.activeConns ∧ w.closed c = true
      · obtain ⟨hlong, hactive, hclosed⟩ := hends
        refine iff_of_false (fun h => ?_) fun h => ?_
        · have hlive := h.1
          rw [afterEvents_destroys hlong hactive hclosed hc] at hlive
          exact (hnodup.mem_erase_iff.mp hlive).1 rfl
        · have := h.2 c List.mem_cons_self hlong hactive
          rw [hclosed] at this
          cases this
      · have hopen : c.long = some l → c ∈ w.activeConns → w.closed c = false := by
          intro hlong hactive
          rw [← Bool.not_eq_true]
          exact fun hclosed => hends ⟨hlong, hactive, hclosed⟩
        have hsame := afterEvents_same hopen
        rw [List.forall_mem_cons, and_iff_right hopen]
        refine and_congr hsame.live (forall₃_congr fun d _ hd => ?_)
        exact imp_congr (hsame.active d hd) (by rw [hsame.closed d hd])

/-- The last lines of a call do not destroy a long connection. -/
theorem rules_live (x : List LongId) : StepRules cfg (fun _ => True) (fun _ => False) fun w => w.longs.live = x where
  calm h hcalm := hcalm.longs ▸ h
  routes h _ := h
  serverCall h a := by cases a <;> exact h
  newClient h := h
  store h _ := h
  deliver _ hD _ _ := hD.elim
  closeClient h _ := h
  badClient h _ := h
  finished h _ _ := h
  failed h := h
  newUpdater h := h
  tryUpdater h := h
  acceptor h _ _ := h
  closeLong h _ := h
  closeLongServer h _ := h
  restored h _ _ _ := h
  buffer h _ _ := h
  badLong h _ _ := h
  sets h _ _ := h
  fdClosed h _ := h
  destroyClient h _ := h
  clearFinished h := h

/-- Which of the long connections that exist after the events are left by the call. -/
theorem Phases.live_iff (h : Phases cfg w b u v) (hnodup : u.longs.live.Nodup) :
    l ∈ (w.handleEvents cfg b).1.longs.live ↔
      l ∈ u.longs.live ∧ ∀ c, c.long = some l → c ∈ u.activeConns → u.closed c = false := by
  have hrest : (w.handleEvents cfg b).1.longs.live = v.longs.live := by
    rw [h.rest]
    refine andThen_inv (I := fun w' => w'.longs.live = v.longs.live) ?_ fun w₁ h₁ => ?_
    · exact kept_step (rules_live _) rfl trivial
    refine andThen_inv (I := fun w' => w'.longs.live = v.longs.live) ?_ fun w₂ h₂ => ?_
    · exact kept_step (rules_live _) h₁ trivial
    refine andThen_inv (I := fun w' => w'.longs.live = v.longs.live) ?_ fun w₃ h₃ => h₃
    exact kept_step (rules_live _) h₂ trivial
  have hcalm := calm_pollCtl u
  have hloop := @after_live_iff cfg l (inOrder cfg u.activeConns) u.pollCtl.1
    (by rw [hcalm.longs]; exact hnodup) (by rw [h.after])
  rw [h.after, hcalm.longs, hcalm.activeConns] at hloop
  rw [hrest]
  refine hloop.trans (and_congr_right fun _ => ?_)
  have hclosed := (SameHalves.of_eq (l := l) hcalm.longs hcalm.activeConns).closed
  constructor
  · intro hall c hc hactive
    rw [← hclosed c hc]
    exact hall c ((List.mem_insertionSort _).mpr hactive) hc hactive
  · intro hall c _ hc hactive
    rw [hclosed c hc]
    exact hall c hc hactive

end World

end Cerberus
