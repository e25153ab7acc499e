import Cerberus.Pieces

/-! # Descriptors and long connections

A descriptor goes from a client to a long connection and back, and each owner closes what it
holds.  A `LongConnection` is known to its server and, when the server has closed its connection,
to the proxy; it is destroyed by `after_events` of one of its halves.

The first part shows that no descriptor is closed twice as long as every connection for a
conversion is made (`World.descriptors_owned`): if the backend cannot be connected, the destructor
of the base class closes the descriptor that the client still holds.  The second part says when
the pointers to long connections stay valid (`World.long_pointers_iff`). -/

namespace Cerberus

namespace Descriptors

variable {d : Descriptors} {c c' : Conn} {n : Fd}

/-- Every descriptor that is held is open and has one holder; none was closed twice. -/
structure Ok (d : Descriptors) : Prop where
  single : ∀ {c c' n}, d.held c = some n → d.held c' = some n → c = c'
  held_opened : ∀ {c n}, d.held c = some n → n ∈ d.opened
  nodup : d.opened.Nodup
  once : d.strayCloses = []

theorem ok_new : new.Ok := ⟨nofun, nofun, .nil, rfl⟩

theorem held_create (ch : Chooser) (a : Conn) : (d.create ch c).held a =
    if a = c then some (ch.pick d.count d.opened) else d.held a := Function.update_apply ..

theorem held_hold (v : Option Fd) (a : Conn) : (d.hold c v).held a = if a = c then v else d.held a :=
  Function.update_apply ..

theorem held_shut (n : Fd) (d : Descriptors) : (d.shut n).held = d.held := by
  unfold shut
  split <;> rfl

theorem held_close (a : Conn) : (d.close c).held a = if a = c then none else d.held a := by
  unfold close
  split
  · rename_i hnone
    split
    · rename_i heq
      rw [heq, hnone]
    · rfl
  · rw [held_hold, held_shut]

theorem held_tryOut (ch : Chooser) (a : Conn) : (d.tryOut ch c).held a = if a = c then none else d.held a := by
  unfold tryOut
  rw [held_close]
  split
  · rfl
  · rename_i hne
    rw [held_create, if_neg hne]

theorem held_give (a : Conn) : (d.give c c').held a =
    if a = c then none else if a = c' then d.held c else d.held a := by
  unfold give
  rw [held_hold, held_hold]

theorem held_closeCopy (a : Conn) : (d.closeCopy c).held a = d.held a := by
  unfold closeCopy
  split
  · rfl
  · rw [held_shut]

theorem Ok.create (h : d.Ok) (ch : Chooser) (c : Conn) : (d.create ch c).Ok := by
  have hfresh : ch.pick d.count d.opened ∉ d.opened := ch.fresh _ _
  have hheld : ∀ {a n}, (d.create ch c).held a = some n →
      (a = c ∧ n = ch.pick d.count d.opened) ∨ (a ≠ c ∧ d.held a = some n) := by
    intro a n ha
    rw [held_create] at ha
    split at ha
    · rename_i hac
      exact Or.inl ⟨hac, (Option.some.inj ha).symm⟩
    · rename_i hac
      exact Or.inr ⟨hac, ha⟩
  refine ⟨fun {a b n} ha hb => ?_, fun {a n} ha => ?_, List.nodup_cons.mpr ⟨hfresh, h.nodup⟩, h.once⟩
  · rcases hheld ha with ⟨hac, hn⟩ | ⟨-, hold⟩
    · rcases hheld hb with ⟨hbc, -⟩ | ⟨-, hold⟩
      · exact hac.trans hbc.symm
      · exact absurd (hn ▸ h.held_opened hold) hfresh
    · rcases hheld hb with ⟨-, hn⟩ | ⟨-, hold'⟩
      · exact absurd (hn ▸ h.held_opened hold) hfresh
      · exact h.single hold hold'
  · rcases hheld ha with ⟨-, hn⟩ | ⟨-, hold⟩
    · rw [hn]
      exact List.mem_cons_self
    · exact List.mem_cons_of_mem _ (h.held_opened hold)

/-- A holder gives up what it holds, whatever becomes of it. -/
theorem held_hold_none {a : Conn} (ha : (d.hold c none).held a = some n) : a ≠ c ∧ d.held a = some n := by
  rw [held_hold] at ha
  split at ha
  · cases ha
  · rename_i hac
    exact ⟨hac, ha⟩

theorem Ok.close (h : d.Ok) (c : Conn) : (d.close c).Ok := by
  unfold Descriptors.close
  split
  · exact h
  · rename_i n hc
    have hshut : d.shut n = { d with opened := d.opened.erase n } := if_pos (h.held_opened hc)
    rw [hshut]
    refine ⟨fun ha hb => ?_, fun ha => ?_, h.nodup.erase n, h.once⟩
    · exact h.single (held_hold_none ha).2 (held_hold_none hb).2
    · obtain ⟨hac, ha⟩ := held_hold_none ha
      refine (List.mem_erase_of_ne ?_).mpr (h.held_opened ha)
      rintro rfl
      exact hac (h.single ha hc)

theorem Ok.tryOut (h : d.Ok) (ch : Chooser) (c : Conn) : (d.tryOut ch c).Ok := (h.create ch c).close c

theorem Ok.give (h : d.Ok) (c c' : Conn) : (d.give c c').Ok := by
  -- who holds a descriptor afterwards got it from `c`, or held it before
  have hheld : ∀ {a n}, (d.give c c').held a = some n →
      (a = c' ∧ d.held c = some n) ∨ (a ≠ c ∧ d.held a = some n) := by
    intro a n ha
    obtain ⟨hac, ha⟩ := held_hold_none ha
    rw [held_hold] at ha
    split at ha
    · rename_i hac'
      exact Or.inl ⟨hac', ha⟩
    · exact Or.inr ⟨hac, ha⟩
  refine ⟨fun ha hb => ?_, fun ha => ?_, h.nodup, h.once⟩
  · rcases hheld ha with ⟨hac', hgot⟩ | ⟨hac, hkept⟩
    · rcases hheld hb with ⟨hbc', -⟩ | ⟨hbc, hkept⟩
      · exact hac'.trans hbc'.symm
      · exact absurd (h.single hkept hgot) hbc
    · rcases hheld hb with ⟨-, hgot⟩ | ⟨-, hkept'⟩
      · exact absurd (h.single hkept hgot) hac
      · exact h.single hkept hkept'
  · rcases hheld ha with ⟨-, hgot⟩ | ⟨-, hkept⟩
    · exact h.held_opened hgot
    · exact h.held_opened hkept

theorem Ok.closes {α : Type} (f : α → Conn) : ∀ (l : List α) {d : Descriptors}, d.Ok →
    (l.foldl (fun d a => d.close (f a)) d).Ok
  | [], _, h => h
  | a :: l, _, h => Ok.closes f l (h.close (f a))

end Descriptors

namespace World

variable {cfg : Config} {w : World}

/-! ### Owners of descriptors -/

theorem ok_serverCall (h : w.descriptors.Ok) (a : ServerCall) : (w.serverCall cfg a).descriptors.Ok := by
  cases a with
  | opened s => exact h.create _ _
  | closed s =>
      unfold serverCall
      dsimp only
      split
      · exact h.close _
      · exact h.tryOut _ _

theorem ok_deliverClient (h : w.descriptors.Ok) {conv : Conversion} (hconn : conv.connect = .opened)
    (c : ClientId) (g : GroupId) : (w.deliverClient cfg conv c g).descriptors.Ok := by
  unfold deliverClient
  dsimp only
  rw [hconn]
  split
  · exact h
  · exact (h.create _ _).give _ _

theorem rules_descriptors (cfg : Config) : StepRules cfg (fun _ => True) (· = .opened) fun w => w.descriptors.Ok where
  calm h hcalm := hcalm.descriptors ▸ h
  routes h _ := h
  serverCall := ok_serverCall
  newClient h := h.create _ _
  store h _ := h
  deliver h hD c g := ok_deliverClient h hD c g
  closeClient h _ := h.close _
  badClient h _ := h
  finished h _ _ := h.close _
  failed h := h
  newUpdater h := h.create _ _
  tryUpdater h := h.tryOut _ _
  acceptor h _ _ := h
  closeLong h _ := h.close _
  closeLongServer h _ := h.close _
  restored h _ _ _ := h.give _ _
  buffer h _ _ := h
  badLong h _ _ := h
  sets h _ _ := h
  fdClosed h _ := h
  destroyClient h _ := h
  clearFinished h := h.closes _ _

/-- In this piece the connection for a conversion, if there is one, is made. -/
def Step.Connects : Step → Prop
  | .event (.client _ _ _ _ conv) => conv.connect = .opened
  | _ => True

theorem ok_step (h : w.descriptors.Ok) {st : Step} (hst : st.Connects) : (w.step cfg st).1.descriptors.Ok := by
  refine kept_step (rules_descriptors cfg) h ?_
  cases st with
  | start => exact kept_start (rules_descriptors cfg) h (fun _ _ => trivial) fun _ hw => hw
  | event e =>
      refine ⟨fun _ _ => trivial, ?_⟩
      rintro c hup read write conv rfl
      exact hst
  | afterEvents c => exact fun l a _ _ _ hw => (hw.close _).close _
  | _ => trivial

/-- If every connection for a conversion is made, no two connections hold the same descriptor, and
no descriptor is closed that is not open. -/
theorem descriptors_owned (hw : Runs.Reachable (fun w st => (w.step cfg st).1)
      (fun w st => (w.step cfg st).2 = none ∧ st.Connects) (new cfg) w) :
    (∀ c c' n, w.descriptors.held c = some n → w.descriptors.held c' = some n → c = c') ∧
      w.descriptors.strayCloses = [] := by
  have hok : w.descriptors.Ok := by
    refine Runs.Reachable.inv (I := fun w => w.descriptors.Ok) hw ?_ fun w st h hst => ok_step h hst.2
    exact Descriptors.ok_new.create _ _
  exact ⟨fun _ _ _ => hok.single, hok.once⟩

def subscribe : Input := ⟨ascii "*2\r\n$9\r\nSUBSCRIBE\r\n$2\r\nch\r\n", .again, 0⟩

/-- A client subscribes, and the connection to the backend ends in some way. -/
def subscribing (connect : Connect) : List Step :=
  [.start, .event (.accept 1 .again), .update [(⟨ascii "h", 6379⟩, .opened)] fun _ => .opened,
    .start, .event (.updater 0 (.nodes [Tracked.master "h" (15495, 15495)]) fun _ => .opened), .clearFinished,
    .start, .event (.client 0 false (some subscribe) none ⟨15495, connect⟩)]

/-- The descriptor of the client is that of the subscription. -/
theorem descriptors_owned_subscribing :
    ((new plainConfig).steps plainConfig (subscribing .opened)).1.descriptors.held (.longClient 0) = some 2 ∧
    ((new plainConfig).steps plainConfig (subscribing .opened)).1.descriptors.strayCloses = [] := by
  have hrun : ((new plainConfig).steps plainConfig (subscribing .opened)).2 = none ∧
      ((new plainConfig).steps plainConfig (subscribing .opened)).1.descriptors.held (.longClient 0) = some 2 := by
    decide +kernel
  refine ⟨hrun.2, (descriptors_owned (Reached.steps_of _ .refl hrun.1 ?_)).2⟩
  simp [subscribing, Step.Connects]

/-- The backend refuses the connection: the descriptor of the client is closed twice, though no
piece throws. -/
theorem descriptor_closed_twice :
    ((new plainConfig).steps plainConfig (subscribing .refused)).2 = none ∧
    ((new plainConfig).steps plainConfig ((subscribing .refused).take 7)).1.descriptors.held (.client 0) = some 2 ∧
    ((new plainConfig).steps plainConfig (subscribing .refused)).1.descriptors.strayCloses = [2] := by
  decide +kernel

end World

/-! ### Pointers to long connections -/

/-- A long connection may lose its halves, nothing else but its buffer changes. -/
structure Long.Later (v v' : Long) : Prop where
  kind : v'.kind = v.kind
  attachedServer : v'.attachedServer = v.attachedServer
  closed : v.closed = true → v'.closed = true
  serverClosed : v.serverClosed = true → v'.serverClosed = true

namespace Longs

variable {x : Longs} {l : LongId}

/-- Those on the list of the proxy and those attached to servers exist. -/
structure Ok (x : Longs) : Prop where
  inactive : ∀ l ∈ x.inactive, l ∈ x.live
  attached : ∀ s, ∀ l ∈ x.attached s, l ∈ x.live ∧ (x.objects l).attachedServer = s
  created : ∀ l ∈ x.live, l < x.count
  nodup : x.live.Nodup

theorem ok_new : new.Ok := ⟨nofun, nofun, nofun, .nil⟩

theorem Ok.create (h : x.Ok) (kind : LongKind) (s : ServerId) : (x.create kind s).Ok := by
  refine ⟨fun l hl => List.mem_append_left _ (h.inactive l hl), fun s' l hl => ?_, fun l hl => ?_, ?_⟩
  · by_cases hold : l ∈ x.attached s'
    · obtain ⟨hlive, hserver⟩ := h.attached s' l hold
      refine ⟨List.mem_append_left _ hlive, ?_⟩
      show (Function.update x.objects x.count _ l).attachedServer = s'
      rw [Function.update_of_ne (Nat.ne_of_lt (h.created l hlive))]
      exact hserver
    · have hnew : s' = s ∧ l = x.count := by
        rw [show (x.create kind s).attached s' = if s' = s then x.attached s ++ [x.count] else x.attached s' from
          Function.update_apply ..] at hl
        split at hl
        · rename_i heq
          rcases List.mem_append.mp hl with hl | hl
          · exact absurd (heq ▸ hl) hold
          · exact ⟨heq, List.mem_singleton.mp hl⟩
        · exact absurd hl hold
      obtain ⟨rfl, rfl⟩ := hnew
      refine ⟨List.mem_append_right _ (List.mem_singleton_self _), ?_⟩
      show (Function.update x.objects x.count _ x.count).attachedServer = s'
      rw [Function.update_self]
  · rcases List.mem_append.mp hl with hl | hl
    · exact Nat.lt_succ_of_lt (h.created l hl)
    · rw [List.mem_singleton.mp hl]
      exact Nat.lt_succ_self _
  · refine List.nodup_append.mpr ⟨h.nodup, List.nodup_singleton _, fun l hl l' hl' => ?_⟩
    rw [List.mem_singleton.mp hl']
    exact Nat.ne_of_lt (h.created l hl)

theorem Ok.set (h : x.Ok) {v : Long} (hv : (x.objects l).Later v) : (x.set l v).Ok := by
  refine ⟨h.inactive, fun s l' hl' => ⟨(h.attached s l' hl').1, ?_⟩, h.created, h.nodup⟩
  show (Function.update x.objects l v l').attachedServer = s
  by_cases heq : l' = l
  · rw [heq, Function.update_self, hv.attachedServer, ← heq]
    exact (h.attached s l' hl').2
  · rw [Function.update_of_ne heq]
    exact (h.attached s l' hl').2

theorem Ok.inactivate (h : x.Ok) (s : ServerId) : (x.inactivate s).Ok := by
  refine ⟨fun l hl => ?_, fun s' l hl => ?_, h.created, h.nodup⟩
  · rcases List.mem_append.mp hl with hl | hl
    · exact h.inactive l hl
    · exact (h.attached s l (List.mem_of_mem_filter hl)).1
  · refine h.attached s' l ?_
    rw [show (x.inactivate s).attached s' = if s' = s then [] else x.attached s' from Function.update_apply ..] at hl
    split at hl
    · cases hl
    · exact hl

/-- The destructor takes the long connection off the list of its server, but not off that of the
proxy. -/
theorem Ok.destroy (h : x.Ok) (hl : l ∉ x.inactive) : (x.destroy l).Ok := by
  have hother : ∀ l' ∈ x.live, l' ≠ l → l' ∈ x.live.erase l := fun l' hl' hne => (List.mem_erase_of_ne hne).mpr hl'
  refine ⟨fun l' hl' => ?_, fun s l' hl' => ?_, fun l' hl' => h.created l' (List.mem_of_mem_erase hl'), h.nodup.erase l⟩
  · refine hother l' (h.inactive l' hl') ?_
    rintro rfl
    exact hl hl'
  · rw [show (x.destroy l).attached s = if s = (x.objects l).attachedServer then
        (x.attached (x.objects l).attachedServer).filter (· ≠ l) else x.attached s from Function.update_apply ..] at hl'
    split at hl'
    · rename_i heq
      rw [← heq, List.mem_filter, decide_eq_true_iff] at hl'
      obtain ⟨hlive, hserver⟩ := h.attached s l' hl'.1
      exact ⟨hother l' hlive hl'.2, hserver⟩
    · rename_i hne
      obtain ⟨hlive, hserver⟩ := h.attached s l' hl'
      refine ⟨hother l' hlive ?_, hserver⟩
      rintro rfl
      exact hne hserver.symm

/-- The proxy has a pointer to a long connection that is gone. -/
structure Dangling (l : LongId) (x : Longs) : Prop where
  listed : l ∈ x.inactive
  gone : l ∉ x.live
  old : l < x.count

theorem Dangling.create (h : x.Dangling l) (kind : LongKind) (s : ServerId) : (x.create kind s).Dangling l := by
  refine ⟨h.listed, fun hl => ?_, Nat.lt_succ_of_lt h.old⟩
  rcases List.mem_append.mp hl with hl | hl
  · exact h.gone hl
  · exact Nat.ne_of_lt h.old (List.mem_singleton.mp hl)

end Longs

namespace World

variable {cfg : Config} {w : World} {l : LongId}

theorem kept_longs_deliverClient {J : Longs → Prop} (hcreate : ∀ {x : Longs}, J x → ∀ kind s, J (x.create kind s))
    (h : J w.longs) (conv : Conversion) (c : ClientId) (g : GroupId) : J (w.deliverClient cfg conv c g).longs := by
  unfold deliverClient
  dsimp only
  split
  · exact h
  · split
    · exact hcreate h _ _
    · exact h
    · exact h

/-- For a property of the long connections alone. -/
theorem rules_longs {T : LongId → Prop} {J : Longs → Prop}
    (hcreate : ∀ {x : Longs}, J x → ∀ kind s, J (x.create kind s))
    (hinactivate : ∀ {x : Longs}, J x → ∀ s, J (x.inactivate s))
    (hset : ∀ {x : Longs} {l}, J x → T l → ∀ {v : Long}, (x.objects l).Later v → J (x.set l v)) :
    StepRules cfg T (fun _ => True) fun w => J w.longs where
  calm h hcalm := hcalm.longs ▸ h
  routes h _ := h
  serverCall h a := by
    cases a with
    | opened s => exact h
    | closed s => exact hinactivate h s
  newClient h := h
  store h _ := h
  deliver h _ c g := kept_longs_deliverClient hcreate h _ c g
  closeClient h _ := h
  badClient h _ := h
  finished h _ _ := h
  failed h := h
  newUpdater h := h
  tryUpdater h := h
  acceptor h _ _ := h
  closeLong h hT := hset h hT ⟨rfl, rfl, fun _ => rfl, id⟩
  closeLongServer h hT := hset h hT ⟨rfl, rfl, id, fun _ => rfl⟩
  restored h hT _ _ := hset h hT ⟨rfl, rfl, fun _ => rfl, id⟩
  buffer h hT _ := hset h hT ⟨rfl, rfl, id, id⟩
  badLong h _ _ := h
  sets h _ _ := h
  fdClosed h _ := h
  destroyClient h _ := h
  clearFinished h := h

/-- Every pointer to a long connection, on the list of the proxy or in a server, is to one that
exists. -/
def LongsLive (w : World) : Prop :=
  (∀ l ∈ w.longs.inactive, l ∈ w.longs.live) ∧ ∀ s, ∀ l ∈ w.longs.attached s, l ∈ w.longs.live

theorem longsLive_of_ok (h : w.longs.Ok) : w.LongsLive := ⟨h.inactive, fun s l hl => (h.attached s l hl).1⟩

/-- The piece does not destroy a long connection that is on the list of the proxy. -/
def Step.Spares (w : World) : Step → Prop
  | .afterEvents c => ∀ l, c.long = some l → c ∈ w.activeConns → w.closed c = true → l ∉ w.longs.inactive
  | _ => True

theorem ok_longs_step (h : w.longs.Ok) {st : Step} (hst : st.Spares w) : (w.step cfg st).1.longs.Ok := by
  have R : StepRules cfg (fun _ => True) (fun _ => True) fun w => w.longs.Ok :=
    rules_longs Longs.Ok.create Longs.Ok.inactivate fun h _ _ hv => h.set hv
  refine kept_step R h ?_
  cases st with
  | start => exact kept_start R h (fun _ _ => trivial) fun _ hw => ⟨nofun, hw.attached, hw.created, hw.nodup⟩
  | event e => exact ⟨fun _ _ => trivial, fun _ _ _ _ _ _ => trivial⟩
  | afterEvents c => exact fun l a hl hactive hclosed hw => hw.destroy (hst l hl hactive hclosed)
  | _ => trivial

/-- A pointer that dangles does so until `handle_events` is called again. -/
theorem dangling_step (h : w.longs.Dangling l) {st : Step} (hst : st ≠ .start) : (w.step cfg st).1.longs.Dangling l := by
  have R : StepRules cfg (fun _ => True) (fun _ => True) fun w => w.longs.Dangling l :=
    rules_longs Longs.Dangling.create (fun h _ => ⟨List.mem_append_left _ h.listed, h.gone, h.old⟩)
      fun h _ _ _ => ⟨h.listed, h.gone, h.old⟩
  refine kept_step R h ?_
  cases st with
  | start => exact absurd rfl hst
  | event e => exact ⟨fun _ _ => trivial, fun _ _ _ _ _ _ => trivial⟩
  | afterEvents c => exact fun l a _ _ _ hw => ⟨hw.listed, fun hl => hw.gone (List.mem_of_mem_erase hl), hw.old⟩
  | _ => trivial

theorem dangling_of_not_spares (cfg : Config) (h : w.longs.Ok) {st : Step} (hst : ¬ st.Spares w) :
    ∃ l, (w.step cfg st).1.longs.Dangling l := by
  cases st with
  | afterEvents c =>
      unfold Step.Spares at hst
      push Not at hst
      obtain ⟨l, hl, hactive, hclosed, hlisted⟩ := hst
      have hlive := h.inactive l hlisted
      have hdestroyed : (w.longs.destroy l).Dangling l :=
        ⟨hlisted, fun hmem => (h.nodup.mem_erase_iff.mp hmem).1 rfl, h.created l hlive⟩
      refine ⟨l, ?_⟩
      have hpresent : w.Present c := by
        cases c <;> cases hl <;> exact hlive
      unfold step afterEvents
      dsimp only
      rw [if_neg (not_not.mpr hactive), if_neg (not_not.mpr hpresent), if_neg (not_not.mpr hclosed)]
      cases c <;> cases hl <;> exact hdestroyed
  | _ => exact absurd trivial hst

theorem ok_longs_run : ∀ (sts : List Step) {w : World}, w.longs.Ok → (w.steps cfg sts).2 = none →
    Runs.Along (fun w st => (w.step cfg st).1) Step.Spares w sts → (w.steps cfg sts).1.longs.Ok
  | [], _, h, _, _ => h
  | st :: sts, w, h, hrun, hspare => by
      obtain ⟨-, heq⟩ := andThen_none hrun
      rw [World.steps, heq] at hrun ⊢
      exact ok_longs_run sts (ok_longs_step h hspare.1) hrun hspare.2

theorem dangling_run : ∀ (sts : List Step) {w : World}, w.longs.Dangling l → (w.steps cfg sts).2 = none →
    Step.start ∉ sts → (w.steps cfg sts).1.longs.Dangling l
  | [], _, h, _, _ => h
  | st :: sts, w, h, hrun, hstart => by
      obtain ⟨-, heq⟩ := andThen_none hrun
      rw [World.steps, heq] at hrun ⊢
      rw [List.mem_cons, not_or] at hstart
      exact dangling_run sts (dangling_step h (Ne.symm hstart.1)) hrun hstart.2

theorem spares_of_live : ∀ (sts : List Step) {w : World}, w.longs.Ok → (w.steps cfg sts).2 = none →
    Step.start ∉ sts → (w.steps cfg sts).1.LongsLive → Runs.Along (fun w st => (w.step cfg st).1) Step.Spares w sts
  | [], _, _, _, _, _ => trivial
  | st :: sts, w, h, hrun, hstart, hlive => by
      obtain ⟨-, heq⟩ := andThen_none hrun
      rw [World.steps, heq] at hrun hlive
      rw [List.mem_cons, not_or] at hstart
      by_cases hst : st.Spares w
      · exact ⟨hst, spares_of_live sts (ok_longs_step h hst) hrun hstart.2 hlive⟩
      · obtain ⟨l, hl⟩ := dangling_of_not_spares cfg h hst
        have hend := dangling_run sts hl hrun hstart.2
        exact absurd (hlive.1 l hend.listed) hend.gone

/-- No piece of the call destroys a long connection that is on the list of the proxy. -/
def Turn.Spares (cfg : Config) (w : World) (t : Turn) : Prop :=
  Runs.Along (fun w st => (w.step cfg st).1) Step.Spares w (t.pieces cfg w)

theorem turn_longsLive_iff (h : w.longs.Ok) {t : Turn} (ht : (w.turn cfg t).2 = none) :
    (w.turn cfg t).1.LongsLive ↔ t.Spares cfg w := by
  rw [turn_eq_steps] at ht ⊢
  refine ⟨fun hlive => ?_, fun hspare => longsLive_of_ok (ok_longs_run _ h ht hspare)⟩
  cases t with
  | expire => exact ⟨trivial, trivial⟩
  | handle b =>
      obtain ⟨-, heq⟩ := andThen_none ht
      have hok : (w.step cfg .start).1.longs.Ok := ok_longs_step h trivial
      refine ⟨trivial, spares_of_live _ hok (heq ▸ ht) ?_ (heq ▸ hlive)⟩
      simp [Batch.firstPieces]

/-- At the start of every call of `handle_events` all pointers to long connections are valid, if
and only if none of the calls before destroyed a long connection after its server had put it on
the list of the proxy. -/
theorem long_pointers_iff (cfg : Config) (ts : List Turn) :
    Runs.Along (fun w t => (w.turn cfg t).1) (fun w t => (w.turn cfg t).2 = none ∧ (w.turn cfg t).1.LongsLive)
        (new cfg) ts ↔
      Runs.Along (fun w t => (w.turn cfg t).1) (fun w t => (w.turn cfg t).2 = none ∧ t.Spares cfg w) (new cfg) ts := by
  refine Runs.along_iff (I := fun w => w.longs.Ok) (fun w t hw => ?_) (fun w t hw ht => ?_) ts Longs.ok_new
  · exact and_congr_right fun ht => turn_longsLive_iff hw ht
  · obtain ⟨hnone, hspare⟩ := ht
    rw [turn_eq_steps] at hnone ⊢
    exact ok_longs_run _ hw hnone hspare

/-- A client is accepted, the slot map comes, and the client subscribes. -/
def subscription : List Turn :=
  [.handle ⟨[.accept 1 .again], [(⟨ascii "h", 6379⟩, .opened)], fun _ => .opened⟩,
    .handle ⟨[.updater 0 (.nodes [Tracked.master "h" (15495, 15495)]) fun _ => .opened], [], fun _ => .opened⟩,
    .handle ⟨[.client 0 false (some subscribe) none ⟨15495, .opened⟩], [], fun _ => .opened⟩]

/-- Then the backend goes away, and both the server and the subscription find a hang-up. -/
def backendGone : List Turn :=
  subscription ++ [.handle ⟨[.server 7 true none none, .longServer 0 true none false none none],
    [(⟨ascii "h", 6379⟩, .opened)], fun _ => .opened⟩]

theorem long_pointer_dangles :
    Runs.Along (fun w t => (w.turn plainConfig t).1) (fun w t => (w.turn plainConfig t).2 = none) (new plainConfig)
      backendGone ∧
    ¬ (backendGone.foldl (fun w t => (w.turn plainConfig t).1) (new plainConfig)).LongsLive := by
  have hrun : Runs.Along (fun w t => (w.turn plainConfig t).1) (fun w t => (w.turn plainConfig t).2 = none)
        (new plainConfig) backendGone ∧
      0 ∈ (backendGone.foldl (fun w t => (w.turn plainConfig t).1) (new plainConfig)).longs.inactive ∧
      0 ∉ (backendGone.foldl (fun w t => (w.turn plainConfig t).1) (new plainConfig)).longs.live := by
    decide +kernel
  exact ⟨hrun.1, fun hlive => hrun.2.2 (hlive.1 0 hrun.2.1)⟩

end World

end Cerberus
