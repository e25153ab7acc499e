import Cerberus.Watch

/-! # Write interest when `handle_events` returns

The pieces of `handle_events` around the events: `poll_ctl` turns wishes into registrations, and
`after_events` destroys the clients that are closed, and with them the commands that nobody has been
woken for.  What is pending then has write interest, in every run in which no slot map is installed
between a backend's own event and `poll_ctl`. -/

namespace Cerberus

namespace World

open Traffic (Alert)

variable {cfg : Config} {w w' : World} {A : ClientId → Prop}

/-! ### `poll_ctl` -/

theorem closed_poller (w : World) (p : Poller) (c : Conn) : closed { w with poller := p } c = w.closed c := by
  cases c <;> rfl

/-- The registrations after the loop: wishes of connections that are closed are skipped. -/
theorem pollEach_interest : ∀ (ps : List (Conn × Bool)) {w : World}, (ps.map Prod.fst).Nodup → (pollEach ps w).2 = none →
    ∀ c, w.closed c = false → (pollEach ps w).1.poller.interest c = (ps.lookup c).elim (w.poller.interest c) some
  | [], _, _, _, _, _ => rfl
  | (d, b) :: ps, w, hkeys, hnone, c, hopen => by
      obtain ⟨hd, hkeys⟩ := List.nodup_cons.mp hkeys
      rw [List.lookup_cons]
      unfold pollEach at hnone ⊢
      by_cases hclosed : w.closed d = true
      · have hne : c ≠ d := by
          rintro rfl
          rw [hclosed] at hopen
          cases hopen
        rw [if_pos hclosed] at hnone ⊢
        rw [pollEach_interest ps hkeys hnone c hopen, beq_eq_false_iff_ne.mpr hne]
      · rw [if_neg hclosed] at hnone ⊢
        obtain ⟨hmod, heq⟩ := andThen_none hnone
        rw [heq, pollMod_none hmod] at hnone ⊢
        rw [pollEach_interest ps hkeys hnone c ((closed_poller ..).trans hopen)]
        by_cases hcd : c = d
        · have hlookup : ps.lookup c = none := by
            refine List.lookup_eq_none_iff.mpr fun e he => ?_
            rw [bne_iff_ne, hcd]
            rintro rfl
            exact hd (List.mem_map.mpr ⟨e, he, rfl⟩)
          rw [hlookup, hcd, BEq.rfl]
          exact Function.update_self ..
        · rw [beq_eq_false_iff_ne.mpr hcd]
          dsimp only
          rw [show (w.poller.register d (some b)).interest c = w.poller.interest c from Function.update_of_ne hcd ..]

theorem pollEach_connPollType : ∀ (ps : List (Conn × Bool)) (w : World),
    (pollEach ps w).1.poller.connPollType = w.poller.connPollType
  | [], _ => rfl
  | (d, b) :: ps, w => by
      unfold pollEach
      split
      · exact pollEach_connPollType ps w
      · refine andThen_cases (P := fun r => r.1.poller.connPollType = w.poller.connPollType) (fun hmod => ?_) fun _ => ?_
        · rw [pollEach_connPollType ps, pollMod_none hmod]
          rfl
        · unfold pollMod
          split
          · rfl
          · rfl

theorem pollCtl_connPollType (w : World) : w.pollCtl.1.poller.connPollType = [] := pollEach_connPollType ..

theorem watchful_pollCtl (h : w.Watchful A) (hnone : w.pollCtl.2 = none) : w.pollCtl.1.Watchful A := by
  have hwants : ∀ c, w.closed c = false → w.poller.wants c = true → w.pollCtl.1.poller.wants c = true := by
    intro c hopen hc
    unfold Poller.wants at hc ⊢
    rw [pollCtl_connPollType]
    have hinterest := pollEach_interest w.poller.connPollType
      (w := { w with poller := { w.poller with connPollType := [] } }) h.keyed hnone c ((closed_poller ..).trans hopen)
    show (w.pollCtl.1.poller.interest c == some true) = true
    unfold pollCtl
    rw [hinterest]
    cases hb : w.poller.connPollType.lookup c with
    | none =>
        rw [hb] at hc
        exact hc
    | some b =>
        rw [hb] at hc
        obtain rfl : b = true := hc
        rfl
  have hraised : Alert A w.routes.registry.closed (fun c => (w.clients c).closed) (fun _ _ => False) w.toTraffic
      w.pollCtl.1.poller := by
    refine Alert.raise h ⟨fun _ => ?_, fun s hs => hwants (.server s) hs, fun c hc => hwants (.client c) hc⟩
    unfold Poller.Keyed
    rw [pollCtl_connPollType]
    exact List.nodup_nil
  unfold Watchful
  rw [pollCtl_toTraffic]
  exact hraised

/-! ### `after_events` -/

theorem watchful_destroyClient (h : w.Watchful A) (c : ClientId) :
    Watchful (fun c' => A c' ∧ c' ∈ w.liveClients.erase c) { w with toTraffic := w.toTraffic.destroyClient c } := by
  have hqueues : ∀ s, ((w.toTraffic.destroyClient c).servers s).outputBufferSet = (w.servers s).outputBufferSet ∧
      ∀ k ∈ ((w.toTraffic.destroyClient c).servers s).commands, k ∈ (w.servers s).commands := by
    intro s
    unfold Traffic.destroyClient
    dsimp only
    split
    · exact ⟨rfl, fun k hk => List.mem_of_mem_filter hk⟩
    · exact ⟨rfl, fun k hk => hk⟩
  have hmove : Alert A w.routes.registry.closed (fun c => (w.clients c).closed) (fun _ _ => False)
      (w.toTraffic.destroyClient c) w.poller :=
    Alert.move h ⟨le_rfl, le_rfl, le_rfl, fun _ _ => rfl, fun _ _ => rfl, fun _ _ => id⟩ (fun s _ => (hqueues s).1)
      (fun s _ k hk => Or.inl ((hqueues s).2 k hk)) (fun _ _ => Or.inl) fun c' hc' => h.parting c' (List.mem_of_mem_erase hc')
  exact hmove.allow fun c' hc' _ hA => ⟨hA, hc'⟩

/-- A client that is closed and has had an event is still in front of the loop. -/
def Ending (cs : List Conn) (w : World) : Prop :=
  w.Watchful fun c => .client c ∈ cs ∧ .client c ∈ w.activeConns

theorem ending_afterEvents {a : Conn} {cs : List Conn} (hnodup : w.liveClients.Nodup) (h : w.Ending (a :: cs))
    (hnone : (w.afterEvents a).2 = none) : (w.afterEvents a).1.Ending cs := by
  -- the clients other than the one at hand
  have hrest : ∀ c, Conn.client c ≠ a → Conn.client c ∈ a :: cs → Conn.client c ∈ cs :=
    fun c hne hmem => (List.mem_cons.mp hmem).resolve_left hne
  have hlong : ∀ l b, a.long = some l → b.long = some l →
      Ending cs (destroyLong l { w with activeConns := w.activeConns.erase b }) := by
    intro l b ha hb
    have hdel := watchful_register (d := .longClient l) (watchful_register (d := .longServer l) h nofun nofun none)
      nofun nofun none
    refine hdel.allow fun c _ _ hc => ⟨hrest c ?_ hc.1, (List.mem_erase_of_ne ?_).mpr hc.2⟩
    · rintro rfl
      cases ha
    · rintro rfl
      cases hb
  revert hnone
  unfold afterEvents
  split
  · rename_i hactive
    refine fun _ => Alert.allow h fun c _ _ hc => ⟨hrest c ?_ hc.1, hc.2⟩
    rintro rfl
    exact hactive hc.2
  · split
    · nofun
    · split
      · rename_i hopen
        refine fun _ => Alert.allow h fun c _ hclosed hc => ⟨hrest c ?_ hc.1, hc.2⟩
        rintro rfl
        exact hopen hclosed
      · intro _
        cases a with
        | acceptor => exact Alert.allow h fun c _ _ hc => ⟨hrest c nofun hc.1, hc.2⟩
        | server s => exact Alert.allow h fun c _ _ hc => ⟨hrest c nofun hc.1, hc.2⟩
        | updater u => exact Alert.allow h fun c _ _ hc => ⟨hrest c nofun hc.1, hc.2⟩
        | longClient l => exact hlong l (.longServer l) rfl rfl
        | longServer l => exact hlong l (.longClient l) rfl rfl
        | client c =>
            refine Alert.allow (watchful_destroyClient h c) fun c' _ _ hc' => ⟨hrest c' ?_ hc'.1.1, hc'.1.2⟩
            intro heq
            exact (hnodup.mem_erase_iff.mp hc'.2).1 (Conn.client.inj heq)

theorem afterEvents_frame (c : Conn) (w : World) : (w.afterEvents c).1.poller.connPollType = w.poller.connPollType ∧
    (w.liveClients.Nodup → (w.afterEvents c).1.liveClients.Nodup) := by
  unfold afterEvents
  split
  · exact ⟨rfl, id⟩
  · split
    · exact ⟨rfl, id⟩
    · split
      · exact ⟨rfl, id⟩
      · split
        · exact ⟨rfl, id⟩
        · exact ⟨rfl, fun h => h.erase _⟩
        · exact ⟨rfl, id⟩
        · exact ⟨rfl, id⟩
        · exact ⟨rfl, id⟩

/-- Between the calls of `handle_events`: no client is closed, and no wish is open. -/
structure Rest (w : World) : Prop where
  watchful : w.Watchful fun _ => False
  polled : w.poller.connPollType = []

theorem rest_afterEvents : ∀ (cs : List Conn) {w : World}, w.liveClients.Nodup → w.Ending cs → w.poller.connPollType = [] →
    (w.steps cfg (cs.map .afterEvents)).2 = none → (w.steps cfg (cs.map .afterEvents)).1.Rest
  | [], _, _, h, hpolled, _ => ⟨Alert.allow h fun _ _ _ hc => absurd hc.1 List.not_mem_nil, hpolled⟩
  | c :: cs, w, hnodup, h, hpolled, hnone => by
      obtain ⟨hc, heq⟩ := andThen_none hnone
      obtain ⟨htype, hlive⟩ := afterEvents_frame c w
      rw [List.map_cons, steps, heq] at hnone ⊢
      exact rest_afterEvents cs (hlive hnodup) (ending_afterEvents hnodup h hc) (htype.trans hpolled) hnone

/-! ### The last lines -/

theorem undecided_of_nil (h : w.poller.connPollType = []) : w.poller.Undecided := by
  intro s
  rw [h]
  nofun

theorem Rest.clearFinished (h : w.Rest) : w.clearFinished.Rest := by
  have hfold : ∀ (us : List UpdaterId) (p : Poller), Poller.Raises w.routes.registry.closed
      (fun c => (w.clients c).closed) p (us.foldl (fun p u => p.del (.updater u)) p) ∧
      (us.foldl (fun p u => p.del (.updater u)) p).connPollType = p.connPollType := by
    intro us
    induction us with
    | nil => exact fun p => ⟨.refl p, rfl⟩
    | cons u us ih =>
        intro p
        refine ⟨Poller.Raises.trans ?_ (ih _).1, (ih _).2⟩
        exact Poller.raises_register (fun _ _ => by nofun) (fun _ _ => by nofun) none
  obtain ⟨hraises, htype⟩ := hfold w.updaters.finishedSlotUpdaters w.poller
  exact ⟨h.watchful.raise hraises, htype.trans h.polled⟩

theorem newUpdaters_connPollType : ∀ (rs : List (Address × Connect)) (w : World),
    (newUpdaters cfg rs w).1.poller.connPollType = w.poller.connPollType
  | [], _ => rfl
  | (_, .opened) :: rs, _ => newUpdaters_connPollType rs _
  | (_, .socketError) :: _, _ => rfl
  | (_, .refused) :: rs, _ => newUpdaters_connPollType rs _
  | (_, .unknownHost) :: rs, _ => newUpdaters_connPollType rs _

theorem watchful_retrieveSlotMap (hinv : w.Inv []) (h : w.Rest) {remotes : List (Address × Connect)} {connects : ℕ → Connect}
    (hnone : (w.retrieveSlotMap cfg remotes connects).2 = none) :
    (w.retrieveSlotMap cfg remotes connects).1.Watchful fun _ => False := by
  have hfailed : ∀ {w : World}, w.Inv [] → w.Rest → (w.updateSlotMapFailed cfg connects).2 = none →
      (w.updateSlotMapFailed cfg connects).1.Watchful fun _ => False := by
    intro w hinv h hnone
    exact watchful_outcome (w := { w with updaters := (w.updaters.updateSlotMapFailed cfg.fullCov).1 }) hinv h.watchful
      (fun _ _ _ => undecided_of_nil h.polled) hnone
  have hnew : (w.newUpdaters cfg remotes).1.Rest :=
    ⟨watchful_newUpdaters remotes h.watchful, (newUpdaters_connPollType ..).trans h.polled⟩
  have hinv' : Traffic.Inv [] (w.newUpdaters cfg remotes).1.toTraffic := by
    rw [newUpdaters_toTraffic]
    exact hinv
  revert hnone
  unfold retrieveSlotMap
  split
  · exact hfailed hinv h
  · intro hnone
    obtain ⟨-, heq⟩ := andThen_none hnone
    rw [heq] at hnone ⊢
    revert hnone
    split
    · exact hfailed hinv' hnew
    · exact fun _ => hnew.watchful

theorem Rest.update (h : w.Rest) (hinv : w.Inv []) {remotes : List (Address × Connect)} {connects : ℕ → Connect}
    (hnone : (w.update cfg remotes connects).2 = none) : (w.update cfg remotes connects).1.Rest := by
  revert hnone
  unfold World.update
  split
  · intro hnone
    obtain ⟨hdone, heq⟩ := andThen_none hnone
    rw [heq] at hnone ⊢
    exact ⟨watchful_pollCtl (watchful_retrieveSlotMap hinv h hdone) hnone, pollCtl_connPollType _⟩
  · exact fun _ => h

theorem Rest.resume (h : w.Rest) : w.resume.Rest := by
  unfold World.resume turnOnAccepting
  split
  · split
    · exact ⟨h.watchful, h.polled⟩
    · exact ⟨watchful_register (d := .acceptor) h.watchful nofun nofun _, h.polled⟩
  · exact h

/-! ### Calls of `handle_events` -/

/-- No event of the call is in the way of `poll_ctl`. -/
def Turn.Clear (cfg : Config) (w : World) : Turn → Prop
  | .handle b => Runs.Along (fun w e => (w.event cfg e).1) (Event.Clear cfg) w.start.1 b.events
  | .expire => True

theorem attentive_start (h : w.Rest) : w.start.1.Attentive := by
  have hinactive : ∀ (ls : List LongId) {w : World}, (w.Watchful fun _ => False) →
      (closeInactive ls w).1.Watchful fun _ => False := by
    intro ls
    induction ls with
    | nil => exact fun h => h
    | cons l ls ih =>
        intro w h
        unfold closeInactive
        split
        · refine ih (watchful_register (d := .longClient l) h (fun s hd => ?_) (fun c hd => ?_) none)
          · cases hd
          · cases hd
        · exact h
  refine Alert.allow (A := fun _ => False) ?_ fun _ _ _ hc => hc.elim
  exact andThen_inv (I := fun w => w.Watchful fun _ => False) (hinactive _ h.watchful) fun _ hw => hw

theorem attentive_events : ∀ (es : List Event) {w : World}, Reached cfg w → w.Attentive →
    (w.steps cfg (es.map .event)).2 = none → Runs.Along (fun w e => (w.event cfg e).1) (Event.Clear cfg) w es →
    (w.steps cfg (es.map .event)).1.Attentive
  | [], _, _, h, _, _ => h
  | e :: es, w, hreached, h, hnone, hclear => by
      obtain ⟨he, heq⟩ := andThen_none hnone
      rw [List.map_cons, steps, heq] at hnone ⊢
      exact attentive_events es (hreached.step he) (attentive_event hreached.inv h hclear.1 he) hnone hclear.2

/-- The events and `poll_ctl`. -/
theorem ending_firstPieces (hreached : Reached cfg w) (h : w.Rest) {b : Batch} (hnone : (w.steps cfg b.firstPieces).2 = none)
    (hclear : Turn.Clear cfg w (.handle b)) :
    (w.steps cfg b.firstPieces).1.Ending (inOrder cfg (w.steps cfg b.firstPieces).1.activeConns) ∧
      (w.steps cfg b.firstPieces).1.poller.connPollType = [] := by
  unfold Batch.firstPieces at hnone ⊢
  rw [List.cons_append] at hnone ⊢
  obtain ⟨hstart, heq⟩ := steps_cons_none hnone
  rw [heq] at hnone ⊢
  obtain ⟨hevents, heq'⟩ := steps_append_none hnone
  rw [heq'] at hnone ⊢
  obtain ⟨hpoll, heq''⟩ := steps_cons_none hnone
  rw [heq'']
  have hstarted : (w.step cfg .start).1.Attentive := attentive_start h
  have hevent := attentive_events b.events (hreached.step hstart) hstarted hevents hclear
  generalize (steps cfg (b.events.map .event) (w.step cfg .start).1).1 = w₁ at *
  have hdone : w₁.pollCtl.1.Watchful fun c => .client c ∈ w₁.activeConns := watchful_pollCtl hevent hpoll
  refine ⟨Alert.allow hdone fun c _ _ hc => ?_, pollCtl_connPollType _⟩
  rw [← (calm_pollCtl w₁).activeConns] at hc
  exact ⟨(List.mem_insertionSort _).mpr hc, hc⟩

theorem rest_handleEvents (hreached : Reached cfg w) (h : w.Rest) {b : Batch} (hnone : (w.handleEvents cfg b).2 = none)
    (hclear : Turn.Clear cfg w (.handle b)) : (w.handleEvents cfg b).1.Rest := by
  rw [show w.handleEvents cfg b = w.steps cfg (Turn.pieces cfg w (.handle b)) from turn_eq_steps cfg w (.handle b),
    Turn.pieces] at hnone ⊢
  obtain ⟨hfirst, hlast⟩ := steps_append_none hnone
  rw [hlast] at hnone ⊢
  obtain ⟨hending, hpolled⟩ := ending_firstPieces hreached h hfirst hclear
  have hreached' := Reached.steps _ hreached hfirst
  generalize (w.steps cfg b.firstPieces).1 = w₁ at *
  obtain ⟨hafter, heq⟩ := steps_append_none hnone
  rw [heq] at hnone ⊢
  have hrest := rest_afterEvents (inOrder cfg w₁.activeConns) hreached'.inv.nodup hending hpolled hafter
  have hreached'' := Reached.steps _ hreached' hafter
  generalize (w₁.steps cfg ((inOrder cfg w₁.activeConns).map .afterEvents)).1 = w₂ at *
  obtain ⟨-, heq'⟩ := steps_cons_none hnone
  rw [heq'] at hnone ⊢
  obtain ⟨hupdate, heq''⟩ := steps_cons_none hnone
  rw [heq'']
  exact (hrest.clearFinished.update hreached''.inv hupdate).resume

/-! ### Write interest -/

/-- What has something to write is registered with write interest. -/
structure Interested (w : World) : Prop where
  servers : ∀ s, w.closed (.server s) = false →
    (w.servers s).commands ≠ [] ∨ (w.servers s).outputBufferSet.empty = false → w.poller.interest (.server s) = some true
  clients : ∀ c, w.closed (.client c) = false → (w.clients c).outputBufferSet.empty = false →
    w.poller.interest (.client c) = some true

theorem Rest.interested (h : w.Rest) (hinv : w.Inv []) : w.Interested := by
  have hwants : ∀ c, w.poller.wants c = true → w.poller.interest c = some true := by
    intro c hc
    unfold Poller.wants at hc
    rw [h.polled] at hc
    exact beq_iff_eq.mp hc
  refine ⟨fun s hs hpending => hwants _ ?_, fun c hc ho => hwants _ (h.watchful.clients c hc ho)⟩
  rcases hpending with hne | ho
  · obtain ⟨k, hk⟩ := List.exists_mem_of_ne_nil _ hne
    rcases h.watchful.commands s hs k hk with hw | hl | he
    · exact hw
    · have hout := hinv.outstanding_of_copies (Server.copies_pos_iff.mpr (Or.inl hk))
      exact (h.watchful.parting _ (hinv.outstanding_owner hout).1 hl.closed).elim
    · exact he.elim
  · exact h.watchful.output s hs ho

theorem rest_new (cfg : Config) : (new cfg).Rest :=
  ⟨⟨List.nodup_nil, nofun, nofun, nofun, nofun⟩, rfl⟩

theorem rest_turn (hreached : Reached cfg w) (h : w.Rest) {t : Turn} (hnone : (w.turn cfg t).2 = none)
    (hclear : t.Clear cfg w) : (w.turn cfg t).1.Rest := by
  cases t with
  | handle b => exact rest_handleEvents hreached h hnone hclear
  | expire => exact ⟨h.watchful, h.polled⟩

/-- When `handle_events` returns, what has something to write is registered with write interest, if
up to then no slot map was installed while a backend was to be polled for read events only. -/
theorem write_interest (h : Runs.Reachable (fun w t => (w.turn cfg t).1)
    (fun w t => (w.turn cfg t).2 = none ∧ t.Clear cfg w) (new cfg) w) : w.Interested := by
  have hrest : Reached cfg w ∧ w.Rest := by
    refine Runs.Reachable.inv (I := fun w => Reached cfg w ∧ w.Rest) h ⟨.refl, rest_new cfg⟩ fun w t hw ht => ?_
    exact ⟨Reached.turn hw.1 ht.1, rest_turn hw.1 hw.2 ht.1 ht.2⟩
  exact hrest.2.interested (Reached.inv hrest.1)

/-- Only the first event of the call is one of an updater. -/
def Turn.orderly : Turn → Bool
  | .handle b => b.events.tail.all fun
      | .updater _ _ _ => false
      | _ => true
  | .expire => true

theorem start_connPollType (w : World) : w.start.1.poller.connPollType = w.poller.connPollType := by
  have hinactive : ∀ (ls : List LongId) (w : World), (closeInactive ls w).1.poller.connPollType = w.poller.connPollType := by
    intro ls
    induction ls with
    | nil => exact fun _ => rfl
    | cons l ls ih =>
        intro w
        unfold closeInactive
        split
        · exact ih _
        · rfl
  exact andThen_inv (I := fun w' => w'.poller.connPollType = w.poller.connPollType) (hinactive _ w) fun _ hw => hw

theorem Turn.clear_of_orderly {t : Turn} (ht : t.orderly = true) (hpolled : w.poller.connPollType = []) : t.Clear cfg w := by
  have hrest : ∀ (es : List Event) (w : World), (es.all fun
      | .updater _ _ _ => false
      | _ => true) = true → Runs.Along (fun w e => (w.event cfg e).1) (Event.Clear cfg) w es := by
    intro es
    induction es with
    | nil => exact fun _ _ => trivial
    | cons e es ih =>
        intro w h
        rw [List.all_cons, Bool.and_eq_true] at h
        refine ⟨?_, ih _ h.2⟩
        cases e with
        | updater u reply connects => exact nomatch h.1
        | _ => trivial
  cases t with
  | expire => trivial
  | handle b =>
      obtain ⟨_ | ⟨e, es⟩, remotes, connects⟩ := b
      · trivial
      · refine ⟨?_, hrest es _ ht⟩
        cases e with
        | updater u reply connects =>
            exact fun _ _ _ _ _ => undecided_of_nil ((start_connPollType w).trans hpolled)
        | _ => trivial

def getB : Input := ⟨ascii "*2\r\n$3\r\nGET\r\n$1\r\nb\r\n", .again, 0⟩

/-- Two clients ask for a key each; there is a backend for the first key only, so that the other
command waits for a slot map. -/
def uncovered : List Turn :=
  [.handle ⟨[.accept 2 .again], [(⟨ascii "h", 6379⟩, .opened)], fun _ => .opened⟩,
    .handle ⟨[.updater 0 (.nodes [Tracked.master "h" (15495, 15495)]) fun _ => .opened], [], fun _ => .opened⟩,
    .handle ⟨[.client 0 false (some getA) none ⟨0, .opened⟩, .client 1 false (some getB) none ⟨0, .opened⟩],
      [(⟨ascii "h", 6379⟩, .opened)], fun _ => .opened⟩]

/-- The map in which the backend has both keys. -/
def covering : RedisNode := { Tracked.master "h" (15495, 15495) with slotRanges := [(3300, 3300), (15495, 15495)] }

/-- It arrives, and then the backend can write a part of both requests. -/
def mapFirst : List Turn :=
  uncovered ++ [.handle ⟨[.updater 1 (.nodes [covering]) fun _ => .opened, .server 7 false none (some [.took 30, .again])],
    [], fun _ => .opened⟩]

/-- The backend writes its request, and then the map arrives. -/
def mapLast : List Turn :=
  uncovered ++ [.handle ⟨[.server 7 false none (some [.took 100]), .updater 1 (.nodes [covering]) fun _ => .opened],
    [], fun _ => .opened⟩]

theorem write_interest_mapFirst :
    ((mapFirst.foldl (fun w t => (w.turn plainConfig t).1) (new plainConfig)).servers 7).outputBufferSet.empty = false ∧
    (mapFirst.foldl (fun w t => (w.turn plainConfig t).1) (new plainConfig)).poller.interest (.server 7) = some true := by
  have hrun : Runs.Along (fun w t => (w.turn plainConfig t).1)
        (fun w t => (w.turn plainConfig t).2 = none ∧ t.orderly = true ∧ w.poller.connPollType = []) (new plainConfig) mapFirst ∧
      ((mapFirst.foldl (fun w t => (w.turn plainConfig t).1) (new plainConfig)).servers 7).outputBufferSet.empty = false ∧
      (mapFirst.foldl (fun w t => (w.turn plainConfig t).1) (new plainConfig)).closed (.server 7) = false := by
    decide +kernel
  obtain ⟨horderly, hout, hopen⟩ := hrun
  have hclear := Runs.Along.imp (Q := fun w t => (w.turn plainConfig t).2 = none ∧ t.Clear plainConfig w)
    (fun w t ht => ⟨ht.1, Turn.clear_of_orderly ht.2.1 ht.2.2⟩) mapFirst horderly
  exact ⟨hout, (write_interest (Runs.Reachable.run mapFirst .refl hclear)).servers 7 hopen (Or.inr hout)⟩

theorem retried_without_interest :
    Runs.Along (fun w t => (w.turn plainConfig t).1) (fun w t => (w.turn plainConfig t).2 = none) (new plainConfig)
      mapLast ∧
    ¬ (mapLast.foldl (fun w t => (w.turn plainConfig t).1) (new plainConfig)).Interested := by
  have hrun : Runs.Along (fun w t => (w.turn plainConfig t).1) (fun w t => (w.turn plainConfig t).2 = none)
        (new plainConfig) mapLast ∧
      (mapLast.foldl (fun w t => (w.turn plainConfig t).1) (new plainConfig)).closed (.server 7) = false ∧
      ((mapLast.foldl (fun w t => (w.turn plainConfig t).1) (new plainConfig)).servers 7).commands = [1] ∧
      (mapLast.foldl (fun w t => (w.turn plainConfig t).1) (new plainConfig)).poller.interest (.server 7) = some false := by
    decide +kernel
  obtain ⟨hnone, hopen, hcommands, hinterest⟩ := hrun
  refine ⟨hnone, fun h => ?_⟩
  have htrue := h.servers 7 hopen (Or.inl (by rw [hcommands]; exact List.cons_ne_nil _ _))
  rw [hinterest] at htrue
  cases htrue

end World

end Cerberus
