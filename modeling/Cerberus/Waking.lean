import Cerberus.Ledger

/-! # Waking the peers

A backend that has got a command writes it when the poller says that it can, so that a client that
gives out commands has to ask for write events of its peers.  `_process` does so with `wakePeers`
after it has called `select_server`, unless it comes to a request that converts the client.  At
the end `on_events` asks for write events of the client itself, if there is something to write
(`Ledger.onEvents_settles`). -/

namespace Cerberus

namespace Session

variable {s s₀ : Session} {delivery : Option ConnThrow}

/-- Whether commands have been given out since the peers were last woken. -/
def owing (b : Bool) : List ClientCall → Bool
  | [] => b
  | .selectServer _ :: cs => owing true cs
  | .wakePeers :: cs => owing false cs
  | _ :: cs => owing b cs

theorem owing_append : ∀ (cs cs' : List ClientCall) (b : Bool), owing b (cs ++ cs') = owing (owing b cs) cs'
  | [], _, _ => rfl
  | a :: cs, cs', b => by
      cases a with
      | selectServer k => exact owing_append cs cs' true
      | wakePeers => exact owing_append cs cs' false
      | reactivate k => exact owing_append cs cs' b
      | clearPeers => exact owing_append cs cs' b
      | pollRo => exact owing_append cs cs' b
      | pollRw => exact owing_append cs cs' b
      | deliverClient g => exact owing_append cs cs' b
      | effect e => exact owing_append cs cs' b
      | badDescriptor => exact owing_append cs cs' b

theorem owing_effects : ∀ (es : List Effect) (b : Bool), owing b (es.map .effect) = b
  | [], _ => rfl
  | _ :: es, b => owing_effects es b

/-! ### A client that is closed -/

theorem process_shut (h : s.client.closed = true) : s.process delivery = (s, some .undefined) := if_pos h

theorem allSent_shut (h : s.client.closed = true) : (s.allSent delivery).1.client.closed = true := by
  have hcleared : s.cleared.client.closed = true := by
    rw [cleared_client]
    exact h
  rw [allSent_eq]
  split
  · exact hcleared
  · rw [process_shut hcleared]
    exact hcleared

theorem sendBufferSet_shut (h : s.client.closed = true) : (s.sendBufferSet delivery).1.client.closed = true := by
  have htouch : (if s.client.closed ∧ ¬ s.client.outputBufferSet.empty then s.call .badDescriptor
      else s).client.closed = true := by
    split
    · exact h
    · exact h
  unfold sendBufferSet
  dsimp only
  generalize (if s.client.closed ∧ ¬ s.client.outputBufferSet.empty then s.call .badDescriptor else s) = t at *
  generalize s.client.outputBufferSet.writev s.objects.content _ = r
  have hwrote : (t.wrote r).client.closed = true := htouch
  cases r.ended with
  | threw e => exact hwrote
  | blocked => exact hwrote
  | all => exact allSent_shut hwrote

theorem writeResponse_shut (h : s.client.closed = true) : (s.writeResponse delivery).1.client.closed = true := by
  have hfirst : (if s.client.outputBufferSet.empty then (s, none) else s.sendBufferSet delivery).1.client.closed = true := by
    split
    · exact h
    · exact sendBufferSet_shut h
  unfold writeResponse
  generalize (if s.client.outputBufferSet.empty then (s, none) else s.sendBufferSet delivery) = r at *
  refine andThen_cases (P := fun r => r.1.client.closed = true) (fun _ => ?_) fun _ => hfirst
  split
  · exact hfirst
  · refine sendBufferSet_shut ?_
    rw [pushAwaitingsToReady_closed]
    exact hfirst

/-- It does not become open again. -/
theorem onEvents_shut (env : Env) (hup : Bool) (read : Option Input) (write : Bool) (h : s.client.closed = true) :
    (s.onEvents env delivery hup read write).1.client.closed = true := by
  have hread : (s.readEvent env delivery read).1.client.closed = true := by
    cases read with
    | none => exact h
    | some inp =>
        rw [readEvent, readRequest, if_pos h]
        exact h
  have hhandle : (s.handle env delivery read write).1.client.closed = true := by
    unfold handle
    generalize s.readEvent env delivery read = r at *
    refine andThen_cases (P := fun r => r.1.client.closed = true) (fun _ => ?_) fun _ => hread
    rw [if_pos hread]
    exact hread
  unfold onEvents
  split
  · rfl
  · dsimp only
    split
    · rfl
    · rfl
    · exact hhandle

/-! ### Commands that are given out -/

/-- If the function returns and the client is open, the peers have been woken. -/
def Settles (r : Session × Option ConnThrow) : Prop :=
  r.2 = none → r.1.client.closed = false → owing false r.1.calls = false

theorem pushAwaitingsToReady_owing (s : Session) : owing false s.pushAwaitingsToReady.calls = owing false s.calls := by
  rcases (pushAwaitingsToReady_frame s).2.2 with hcalls | hcalls
  · rw [hcalls]
  · rw [hcalls, owing_append]
    rfl

/-- If none of the groups that are taken waits for a response, no command has been given out. -/
theorem Ledger.taken_owing (h : s.Ledger s₀) (hcount : ¬ 0 < s.taken.client.awaitingCount) :
    owing false s.taken.calls = owing false s.calls := by
  have hzero : ((s.client.parsedGroups.take maxPipe).filter fun g => (s.objects.groups g).kind.waitRemote).length = 0 := by
    have hsum : s.taken.client.awaitingCount = s.client.awaitingCount +
        ((s.client.parsedGroups.take maxPipe).filter fun g => (s.objects.groups g).kind.waitRemote).length := rfl
    rw [hsum, h.tidy.count] at hcount
    omega
  have hnil : (s.client.parsedGroups.take maxPipe).flatMap s.objects.selects = [] := by
    refine List.flatMap_eq_nil_iff.mpr fun g hg => if_neg ?_
    exact List.filter_eq_nil_iff.mp (List.length_eq_zero_iff.mp hzero) g hg
  show owing false (s.calls ++ _) = _
  rw [hnil, List.append_nil]

theorem Ledger.process_settles (h : s.Ledger s₀) (howe : owing false s.calls = false) : Settles (s.process delivery) := by
  intro hnone hopen
  cases hclosed : s.client.closed with
  | true =>
      rw [process_shut hclosed] at hnone
      cases hnone
  | false =>
      cases hg : s.converts with
      | some g =>
          rw [process_converts delivery hclosed hg] at hnone hopen
          dsimp only at hnone
          rw [if_pos hnone] at hopen
          cases hopen
      | none =>
          rw [process_takes delivery hclosed hg]
          split
          · show owing false (s.taken.calls ++ [.wakePeers]) = false
            rw [owing_append]
            rfl
          · rename_i hcount
            rw [pushAwaitingsToReady_owing, h.taken_owing hcount]
            exact howe

theorem Ledger.allSent_settles (h : s.Ledger s₀) (howe : owing false s.calls = false) : Settles (s.allSent delivery) := by
  have hcleared : owing false s.cleared.calls = false := by
    unfold Session.cleared
    dsimp only
    split
    · show owing false (s.calls ++ [.clearPeers]) = false
      rw [owing_append]
      exact howe
    · exact howe
  rw [allSent_eq]
  split
  · exact fun _ _ => hcleared
  · exact h.cleared.process_settles hcleared

theorem Ledger.sendBufferSet_settles (h : s.Ledger s₀) (howe : s.client.closed = false → owing false s.calls = false) :
    Settles (s.sendBufferSet delivery) := by
  cases hclosed : s.client.closed with
  | true =>
      intro _ hopen
      rw [sendBufferSet_shut hclosed] at hopen
      cases hopen
  | false =>
      obtain ⟨hthrew, hblocked, hall⟩ := sendBufferSet_open delivery hclosed rfl
      generalize s.client.outputBufferSet.writev s.objects.content s.script = r at *
      have hwrote : (s.wrote r).Ledger s₀ := h.same rfl rfl rfl rfl rfl rfl rfl
      cases hended : r.ended with
      | threw e =>
          rw [hthrew e hended]
          exact nofun
      | blocked =>
          rw [hblocked hended]
          exact fun _ _ => howe hclosed
      | all =>
          rw [hall hended]
          exact hwrote.allSent_settles (howe hclosed)

theorem Ledger.writeResponse_settles (h : s.Ledger s₀) (howe : s.client.closed = false → owing false s.calls = false) :
    Settles (s.writeResponse delivery) := by
  have hfirst : Settles (if s.client.outputBufferSet.empty then (s, none) else s.sendBufferSet delivery) := by
    split
    · exact fun _ hopen => howe hopen
    · exact h.sendBufferSet_settles howe
  have hledger : (if s.client.outputBufferSet.empty then (s, none) else s.sendBufferSet delivery).1.Ledger s₀ := by
    split
    · exact h
    · exact h.sendBufferSet delivery
  unfold Session.writeResponse
  generalize (if s.client.outputBufferSet.empty then (s, none) else s.sendBufferSet delivery) = r at *
  refine andThen_cases (P := Settles) (fun hnone => ?_) fun _ => hfirst
  split
  · exact fun _ hopen => hfirst hnone hopen
  · refine hledger.pushAwaitingsToReady.sendBufferSet_settles fun hopen => ?_
    rw [pushAwaitingsToReady_closed] at hopen
    rw [pushAwaitingsToReady_owing]
    exact hfirst hnone hopen

theorem foldl_pushCommand_calls : ∀ (kinds : List CommandGroup) (s : Session),
    (kinds.foldl pushCommand s).calls = s.calls
  | [], _ => rfl
  | kind :: kinds, s => foldl_pushCommand_calls kinds (s.pushCommand kind)

theorem output_owing (out : Output) (s : Session) : owing false (s.output out).calls = owing false s.calls := by
  show owing false ((out.groups.foldl pushCommand s).calls ++ out.effects.map .effect) = _
  rw [owing_append, owing_effects, foldl_pushCommand_calls]

theorem Ledger.readRequest_settles (env : Env) (inp : Input) (h : s.Ledger s₀) (howe : owing false s.calls = false) :
    Settles (s.readRequest env delivery inp) := by
  unfold Session.readRequest
  split
  · exact nofun
  · split
    · exact nofun
    · split
      · exact fun _ _ => howe
      · split
        · exact nofun
        · rename_i rest out _
          have hout : owing false (({ s with client := { s.client with buffer := rest } } : Session).output out).calls = false := by
            rw [output_owing]
            exact howe
          dsimp only
          split
          · exact ((h.buffer rest).output out).process_settles hout
          · exact fun _ _ => hout

/-- The last thing `on_events` does for a client that stays open. -/
def Polls (r : Session × Option ConnThrow) : Prop :=
  r.2 = none → r.1.client.closed = false →
    ∃ cs, r.1.calls = cs ++ [if r.1.client.outputBufferSet.empty then .pollRo else .pollRw]

theorem Ledger.handle_settles (delivery : Option ConnThrow) (env : Env) (read : Option Input) (write : Bool)
    (h : s.Ledger s₀) (howe : owing false s.calls = false) :
    Settles (s.handle env delivery read write) ∧ Polls (s.handle env delivery read write) := by
  have hread : Settles (s.readEvent env delivery read) := by
    cases read with
    | none => exact fun _ _ => howe
    | some inp => exact h.readRequest_settles env inp howe
  have hledger : (s.readEvent env delivery read).1.Ledger s₀ := by
    cases read with
    | none => exact h
    | some inp => exact h.readRequest env delivery inp
  unfold Session.handle
  generalize s.readEvent env delivery read = r at *
  refine andThen_cases (P := fun r => Settles r ∧ Polls r) (fun hnone => ?_) fun hthrew =>
    ⟨hread, fun hnone => absurd hnone hthrew⟩
  split
  · rename_i hclosed
    refine ⟨fun _ hopen => ?_, fun _ hopen => ?_⟩
    · exact nomatch hclosed.symm.trans hopen
    · exact nomatch hclosed.symm.trans hopen
  · rename_i hopen
    rw [Bool.not_eq_true] at hopen
    have hwrite : Settles (if write then r.1.writeResponse delivery else (r.1, none)) := by
      split
      · exact hledger.writeResponse_settles fun _ => hread hnone hopen
      · exact fun _ _ => hread hnone hopen
    generalize (if write then r.1.writeResponse delivery else (r.1, none)) = q at *
    refine andThen_cases (P := fun r => Settles r ∧ Polls r) (fun hdone => ?_) fun hthrew =>
      ⟨hwrite, fun hnone => absurd hnone hthrew⟩
    refine ⟨fun _ hq => ?_, fun _ _ => ⟨q.1.calls, rfl⟩⟩
    show owing false (q.1.calls ++ [_]) = false
    rw [owing_append, hwrite hdone hq]
    split <;> rfl

/-- A client that is open when `on_events` has returned has woken its peers, and has asked for
write events if there is something to write. -/
theorem Ledger.onEvents_settles (delivery : Option ConnThrow) (env : Env) (hup : Bool) (read : Option Input)
    (write : Bool) (h : s.Ledger s₀) (howe : owing false s.calls = false) :
    Settles (s.onEvents env delivery hup read write) ∧ Polls (s.onEvents env delivery hup read write) := by
  have hclose : ∀ t : Session, Settles (t.close, none) ∧ Polls (t.close, none) :=
    fun t => ⟨nofun, nofun⟩
  have hhandle := h.handle_settles delivery env read write howe
  unfold Session.onEvents
  generalize s.handle env delivery read write = r at *
  split
  · exact hclose s
  · dsimp only
    split
    · exact hclose r.1
    · exact hclose r.1
    · exact hhandle

end Session

end Cerberus
