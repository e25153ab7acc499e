import Cerberus.Pieces

/-! # Commands that wait for a slot map

A command without a backend waits in `_retrying_commands` until a slot map arrives.  The updaters
of a round are never all closed while the round lasts (`Updaters.Ok`), and the last lines of
`handle_events` begin a round, or give the commands up, when there is none. -/

namespace Cerberus

namespace Updaters

variable {x : Updaters} {fullCov : Bool} {p : UpdaterId × Option (List RedisNode)}

/-- The updaters of a round have not been told that it is over. -/
structure Waiting (x : Updaters) : Prop where
  created : ∀ u ∈ x.slotUpdaters, u < x.count
  flag : ∀ u ∈ x.slotUpdaters, (x.objects u).proxyAlreadyUpdated = false

/-- One of them is open. -/
structure Ok (x : Updaters) : Prop extends Waiting x where
  awake : x.slotUpdaters ≠ [] → ∃ u ∈ x.slotUpdaters, (x.objects u).closed = false

theorem ok_of_nil (h : x.slotUpdaters = []) : x.Ok := by
  refine ⟨⟨fun u hu => ?_, fun u hu => ?_⟩, fun hne => absurd h hne⟩
  · rw [h] at hu
    cases hu
  · rw [h] at hu
    cases hu

theorem Waiting.closing (h : x.Waiting) : (x.closing p).Waiting := by
  have hcount : (x.closing p).count = x.count := by
    obtain ⟨u, _ | nodes⟩ := p <;> rfl
  refine ⟨fun u hu => ?_, fun u hu => ?_⟩
  · rw [closing_slotUpdaters] at hu
    rw [hcount]
    exact h.created u hu
  · rw [closing_slotUpdaters] at hu
    by_cases heq : u = p.1
    · rw [heq, closing_flag, ← heq]
      exact h.flag u hu
    · rw [closing_of_ne heq]
      exact h.flag u hu

theorem Waiting.updateSlotMapFailed (h : x.Waiting) : (x.updateSlotMapFailed fullCov).1.Ok := by
  unfold Updaters.updateSlotMapFailed
  split
  · rename_i hopen
    exact ⟨h, fun _ => hopen⟩
  · exact ok_of_nil rfl

/-- An updater that finishes leaves another one open, or the round is over. -/
theorem Ok.finish (h : x.Ok) (u : UpdaterId) (answer : Option (List RedisNode)) : (x.finish fullCov u answer).1.Ok := by
  have hclosing : (x.closing (u, answer)).Waiting := h.toWaiting.closing
  rw [finish_eq (p := (u, answer))]
  split
  · rename_i hflag
    rw [closing_flag] at hflag
    refine ⟨hclosing, fun hne => ?_⟩
    rw [closing_slotUpdaters] at hne ⊢
    obtain ⟨v, hv, hopen⟩ := h.awake hne
    -- `u` knows that its round is over, so that it is not one of these
    have hvu : v ≠ u := by
      rintro rfl
      rw [h.flag v hv] at hflag
      cases hflag
    refine ⟨v, hv, ?_⟩
    rw [closing_of_ne hvu]
    exact hopen
  · unfold notifySlotMapUpdated
    split
    · exact hclosing.updateSlotMapFailed
    · exact ok_of_nil rfl

end Updaters

namespace World

variable {cfg : Config} {w : World}

theorem deliverClient_updaters (cfg : Config) (conv : Conversion) (c : ClientId) (g : GroupId) (w : World) :
    (w.deliverClient cfg conv c g).updaters = w.updaters := by
  unfold deliverClient
  dsimp only
  split
  · rfl
  · split <;> rfl

theorem ok_newUpdater (h : w.updaters.Ok) : (w.newUpdater cfg).updaters.Ok := by
  have hold : ∀ u ∈ w.updaters.slotUpdaters, Function.update w.updaters.objects w.updaters.count Updater.new u =
      w.updaters.objects u := fun u hu => Function.update_of_ne (Nat.ne_of_lt (h.created u hu)) ..
  have hnew : Function.update w.updaters.objects w.updaters.count Updater.new w.updaters.count = Updater.new :=
    Function.update_self ..
  refine ⟨⟨fun u hu => ?_, fun u hu => ?_⟩, fun _ => ?_⟩
  · rcases List.mem_append.mp hu with hu | hu
    · exact Nat.lt_succ_of_lt (h.created u hu)
    · rw [List.mem_singleton.mp hu]
      exact Nat.lt_succ_self _
  · show (Function.update w.updaters.objects w.updaters.count Updater.new u).proxyAlreadyUpdated = false
    rcases List.mem_append.mp hu with hu | hu
    · rw [hold u hu]
      exact h.flag u hu
    · rw [List.mem_singleton.mp hu, hnew]
      rfl
  · refine ⟨w.updaters.count, List.mem_append_right _ (List.mem_singleton_self _), ?_⟩
    show (Function.update w.updaters.objects w.updaters.count Updater.new w.updaters.count).closed = false
    rw [hnew]
    rfl

/-- What the updaters keep whatever they do, the world keeps. -/
theorem rules_of_updaters {P : Updaters → Prop}
    (finish : ∀ {x : Updaters}, P x → ∀ u answer, P (x.finish cfg.fullCov u answer).1)
    (failed : ∀ {x : Updaters}, P x → P (x.updateSlotMapFailed cfg.fullCov).1)
    (newUpdater : ∀ {w : World}, P w.updaters → P (w.newUpdater cfg).updaters)
    (clear : ∀ {x : Updaters}, P x → P { x with finishedSlotUpdaters := [] }) :
    StepRules cfg (fun _ => True) (fun _ => True) fun w => P w.updaters where
  calm h hcalm := hcalm.updaters ▸ h
  routes h _ := h
  serverCall h a := by cases a <;> exact h
  newClient h := h
  store h _ := h
  deliver h _ c g := by
    rw [deliverClient_updaters]
    exact h
  closeClient h _ := h
  badClient h _ := h
  finished h u answer := finish h u answer
  failed h := failed h
  newUpdater h := newUpdater h
  tryUpdater h := h
  acceptor h _ _ := h
  closeLong h _ := h
  closeLongServer h _ := h
  restored h _ _ _ := h
  buffer h _ _ := h
  badLong h _ _ := h
  sets h _ _ := h
  fdClosed h _ := h
  destroyClient h _ := h
  clearFinished h := clear h

theorem Reached.of_updaters {P : Updaters → Prop} (h : Reached cfg w) (hnew : P (new cfg).updaters)
    (R : StepRules cfg (fun _ => True) (fun _ => True) fun w => P w.updaters) : P w.updaters := by
  refine Runs.Reachable.inv (I := fun w => P w.updaters) h hnew fun w st hw _ => ?_
  refine kept_step R hw ?_
  cases st with
  | start => exact kept_start R hw (fun _ _ => trivial) fun _ hw => hw
  | event e => exact ⟨fun _ _ => trivial, fun _ _ _ _ _ _ => trivial⟩
  | afterEvents c => exact fun _ _ _ _ _ hw => hw
  | _ => trivial

theorem rules_updaters (cfg : Config) : StepRules cfg (fun _ => True) (fun _ => True) fun w => w.updaters.Ok :=
  rules_of_updaters (fun h u answer => h.finish u answer) (fun h => h.updateSlotMapFailed) ok_newUpdater
    fun h => ⟨⟨h.created, h.flag⟩, h.awake⟩

theorem Reached.updaters (h : Reached cfg w) : w.updaters.Ok :=
  h.of_updaters (Updaters.ok_of_nil rfl) (rules_updaters cfg)

end World

/-! ### Giving up -/

/-- A command that is answered with an error does not go to a queue again. -/
theorem Cmd.onRemoteResponsed_error (c : Cmd) (rsp : Bytes) : (c.onRemoteResponsed rsp true).2 = true := by
  unfold Cmd.onRemoteResponsed
  split <;> rfl

namespace Session

theorem pushAwaitingsToReady_calls (s : Session) : ∀ a ∈ s.pushAwaitingsToReady.calls, a ∈ s.calls ∨ a = .pollRw := by
  intro a ha
  unfold pushAwaitingsToReady at ha
  split at ha
  · exact Or.inl ha
  · rw [appendAll_eq] at ha
    dsimp only at ha
    split at ha
    · exact Or.inl ha
    · rcases List.mem_append.mp ha with ha | ha
      · exact Or.inl ha
      · exact Or.inr (List.mem_singleton.mp ha)

theorem onRemoteResponsed_error_calls (k : CmdId) (rsp : Bytes) (s : Session) :
    ∀ a ∈ (s.onRemoteResponsed k rsp true).calls, a ∈ s.calls ∨ a = .pollRw := by
  intro a ha
  unfold onRemoteResponsed at ha
  dsimp only at ha
  rw [if_pos ((s.objects.cmds k).onRemoteResponsed_error rsp)] at ha
  split at ha
  · exact (pushAwaitingsToReady_calls _ a ha :)
  · exact Or.inl ha

end Session

namespace World

variable {cfg : Config} {w : World}

theorem foldl_call_pollRw (c : ClientId) : ∀ (cs : List ClientCall) (w : World), (∀ a ∈ cs, a = .pollRw) →
    (cs.foldl (call c) w).toTraffic = w.toTraffic
  | [], _, _ => rfl
  | a :: cs, w, h => by
      rw [List.foldl_cons, h a List.mem_cons_self]
      exact foldl_call_pollRw c cs _ fun b hb => h b (List.mem_cons_of_mem _ hb)

theorem respond_error_retrying (k : CmdId) (rsp : Bytes) (w : World) :
    (w.respond k rsp true).retryingCommands = w.retryingCommands := by
  unfold respond
  dsimp only
  rw [foldl_call_pollRw]
  · rfl
  · intro a ha
    exact (Session.onRemoteResponsed_error_calls _ _ _ a ha).resolve_left List.not_mem_nil

theorem clusterDown_retrying (cfg : Config) (w : World) : (w.clusterDown cfg).retryingCommands = [] := by
  have hfold : ∀ (ks : List CmdId) (w : World),
      (ks.foldl (fun w k => respond k clusterDownRsp true w) w).retryingCommands = w.retryingCommands := by
    intro ks
    induction ks with
    | nil => exact fun _ => rfl
    | cons k ks ih => exact fun w => (ih _).trans (respond_error_retrying k _ w)
  unfold clusterDown
  dsimp only
  rw [hfold]

/-! ### The end of a round of the event loop -/

/-- No command waits, or there is a round of updaters. -/
def Provided (w : World) : Prop := w.retryingCommands = [] ∨ w.updaters.slotUpdaters ≠ []

theorem provided_updateSlotMapFailed (h : w.updaters.slotUpdaters = []) (connects : ℕ → Connect) :
    (w.updateSlotMapFailed cfg connects).1.Provided := by
  have hfailed : w.updaters.updateSlotMapFailed cfg.fullCov = (w.updaters.moveClosedSlotUpdaters, some .clusterDown) := by
    unfold Updaters.updateSlotMapFailed Updaters.decision
    rw [h]
    exact if_neg fun ⟨u, hu, _⟩ => List.not_mem_nil hu
  unfold updateSlotMapFailed
  dsimp only
  rw [hfailed]
  exact Or.inl (clusterDown_retrying cfg _)

theorem provided_retrieveSlotMap (h : w.updaters.slotUpdaters = []) (remotes : List (Address × Connect))
    (connects : ℕ → Connect) (hnone : (w.retrieveSlotMap cfg remotes connects).2 = none) :
    (w.retrieveSlotMap cfg remotes connects).1.Provided := by
  unfold retrieveSlotMap at hnone ⊢
  split at hnone
  · rename_i hempty
    rw [if_pos hempty]
    exact provided_updateSlotMapFailed h connects
  · rename_i hempty
    rw [if_neg hempty, (andThen_none hnone).2]
    split
    · rename_i hnil
      exact provided_updateSlotMapFailed (List.isEmpty_iff.mp hnil) connects
    · rename_i hsome
      exact Or.inr fun hnil => hsome (List.isEmpty_iff.mpr hnil)

theorem provided_update (remotes : List (Address × Connect)) (connects : ℕ → Connect)
    (hnone : (w.update cfg remotes connects).2 = none) : (w.update cfg remotes connects).1.Provided := by
  unfold update at hnone ⊢
  split at hnone
  · rename_i hshould
    have hnil := List.isEmpty_iff.mp (Bool.and_eq_true_iff.mp hshould).1
    obtain ⟨hdone, heq⟩ := andThen_none hnone
    have hprovided := provided_retrieveSlotMap hnil remotes connects hdone
    rw [if_pos hshould, heq]
    unfold Provided at hprovided ⊢
    rw [pollCtl_toTraffic, (calm_pollCtl _).updaters]
    exact hprovided
  · rename_i hshould
    rw [if_neg hshould]
    unfold shouldUpdateSlotMap at hshould
    by_cases hslots : w.updaters.slotUpdaters = []
    · refine Or.inl ?_
      rw [hslots] at hshould
      by_contra hne
      refine hshould ?_
      rw [List.isEmpty_eq_false_iff.mpr hne]
      rfl
    · exact Or.inr hslots

/-- A call ends with the update of the slot map, and `resume`. -/
theorem handleEvents_end {b : Batch} (hb : (w.handleEvents cfg b).2 = none) :
    ∃ w' : World, (w'.update cfg b.remotes b.connects).2 = none ∧
      (w.handleEvents cfg b).1 = (w'.update cfg b.remotes b.connects).1.resume := by
  obtain ⟨-, heq⟩ := andThen_none hb
  rw [handleEvents, heq, List.append_cons] at hb ⊢
  rw [steps_append] at hb ⊢
  obtain ⟨-, heq'⟩ := andThen_none hb
  rw [heq'] at hb ⊢
  obtain ⟨hupdate, hlast⟩ := andThen_none hb
  exact ⟨_, hupdate, congrArg Prod.fst hlast⟩

theorem resume_provided (w : World) : w.resume.Provided ↔ w.Provided := by
  unfold resume turnOnAccepting
  split
  · split <;> exact Iff.rfl
  · exact Iff.rfl

/-- A command that waits when `handle_events` returns waits for an updater that is open. -/
theorem retries_awaited (hw : Reached cfg w) (b : Batch) (hb : (w.handleEvents cfg b).2 = none)
    (hretry : (w.handleEvents cfg b).1.retryingCommands ≠ []) :
    ∃ u ∈ (w.handleEvents cfg b).1.updaters.slotUpdaters,
      ((w.handleEvents cfg b).1.updaters.objects u).closed = false := by
  have hprovided : (w.handleEvents cfg b).1.Provided := by
    obtain ⟨w', hupdate, heq⟩ := handleEvents_end hb
    rw [heq, resume_provided]
    exact provided_update b.remotes b.connects hupdate
  have hreached : Reached cfg (w.handleEvents cfg b).1 := Reached.turn hw (t := Turn.handle b) hb
  exact hreached.updaters.awake (hprovided.resolve_left hretry)

/-- A client is accepted, and the first round of updaters begins. -/
def greeting : Batch := ⟨[.accept 1 .again], [(⟨ascii "h", 6379⟩, .opened)], fun _ => .opened⟩

/-- It asks for a key. -/
def asking : Batch := ⟨[.client 0 false (some getA) none ⟨0, .opened⟩], [], fun _ => .opened⟩

theorem retries_awaited_asking :
    (((new plainConfig).handleEvents plainConfig greeting).1.handleEvents plainConfig asking).1.retryingCommands = [0] ∧
    ∃ u ∈ (((new plainConfig).handleEvents plainConfig greeting).1.handleEvents plainConfig asking).1.updaters.slotUpdaters,
      ((((new plainConfig).handleEvents plainConfig greeting).1.handleEvents plainConfig asking).1.updaters.objects u).closed
        = false := by
  have hwaits : (((new plainConfig).handleEvents plainConfig greeting).1.handleEvents plainConfig
      asking).1.retryingCommands = [0] := by decide +kernel
  have hreached : Reached plainConfig ((new plainConfig).handleEvents plainConfig greeting).1 :=
    Reached.turn .refl (t := Turn.handle greeting) (by decide +kernel)
  refine ⟨hwaits, retries_awaited hreached asking (by decide +kernel) ?_⟩
  rw [hwaits]
  exact List.cons_ne_nil _ _

end World

end Cerberus
