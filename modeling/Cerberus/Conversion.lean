import Cerberus.Pipeline

/-! # Clients that turn into long connections

`_process` stops at a request that subscribes or pops with a timeout, hands the descriptor of
the client over and closes the client.  It is called from `_read_request` and from
`_send_buffer_set`, and the latter is called by `_write_response` twice.

`untouched_iff` says when `_write_response` goes on to write to a client that has been closed in
this way: when requests that wait for nothing were in front of the one that converts it. -/

namespace Cerberus

namespace Session

/-! ### The steps of a client -/

/-- The parts of `on_events`, with what the system answers and what `deliver_client` throws if it
is called, and a response to a command. -/
inductive Step where
  | hup
  | read (inp : Input) (delivery : Option ConnThrow)
  | write (script : List WriteAnswer) (delivery : Option ConnThrow)
  | respond (k : CmdId) (rsp : Bytes) (error : Bool)

/-- The `catch` clauses of `on_events`. -/
def caught (r : Session × Option ConnThrow) : Session :=
  match r.2 with
  | some .bad => r.1.close
  | some .io => r.1.close
  | _ => r.1

def step (env : Env) (s : Session) : Step → Session
  | .hup => s.close
  | .read inp delivery => caught (s.readRequest env delivery inp)
  | .write script delivery => caught (({ s with script := script } : Session).writeResponse delivery)
  | .respond k rsp error => s.onRemoteResponsed k rsp error

/-- A client that is closed gets no more events, and is destroyed when those of its last batch
have been handled. -/
def Step.Enabled (s : Session) : Step → Prop
  | .respond _ _ _ => True
  | _ => s.client.closed = false

/-! ### What `_process` does -/

/-- The groups `_process` takes. -/
def batch (s : Session) : List GroupId :=
  (s.client.parsedGroups.take maxPipe).takeWhile s.objects.short

/-- The group `_process` converts the client for. -/
def converts (s : Session) : Option GroupId :=
  ((s.client.parsedGroups.take maxPipe).dropWhile s.objects.short).head?

/-- The session when `deliver_client` of the group has been called. -/
def converted (g : GroupId) (s : Session) : Session :=
  { s with
    client := { s.client with
      parsedGroups := s.client.parsedGroups.dropWhile (· ≠ g)
      awaitingCount := s.client.awaitingCount +
        (s.batch.filter fun g => (s.objects.groups g).kind.waitRemote).length
      awaitingGroups := s.client.awaitingGroups ++ s.batch }
    calls := s.calls ++ s.batch.flatMap s.objects.selects ++ [.deliverClient g] }

variable {s s' : Session}

theorem process_converts {g : GroupId} (delivery : Option ConnThrow) (hclosed : s.client.closed = false)
    (hg : s.converts = some g) : s.process delivery =
      (if delivery = none then (s.converted g).close else s.converted g, delivery) := by
  unfold converts at hg
  unfold Session.process
  rw [if_neg (by rw [hclosed]; nofun), takeGroups_eq, hg]
  cases delivery <;> rfl

theorem process_takes (delivery : Option ConnThrow) (hclosed : s.client.closed = false)
    (hg : s.converts = none) : s.process delivery =
      if 0 < s.taken.client.awaitingCount then (s.taken.call .wakePeers, none)
      else (s.taken.pushAwaitingsToReady, none) :=
  process_short delivery hclosed
    (List.dropWhile_eq_nil_iff.mp (List.head?_eq_none_iff.mp hg))

theorem process_script (delivery : Option ConnThrow) (s : Session) :
    (s.process delivery).1.script = s.script := by
  cases hclosed : s.client.closed with
  | true => rw [Session.process, if_pos hclosed]
  | false =>
      cases hg : s.converts with
      | some g =>
          rw [process_converts delivery hclosed hg]
          dsimp only
          split <;> rfl
      | none =>
          rw [process_takes delivery hclosed hg]
          split
          · rfl
          · unfold Session.pushAwaitingsToReady
            split
            · rfl
            · rw [appendAll_eq]
              dsimp only
              split <;> rfl

theorem readRequest_script (env : Env) (delivery : Option ConnThrow) (inp : Input) (s : Session) :
    (s.readRequest env delivery inp).1.script = s.script := by
  unfold Session.readRequest
  split
  · rfl
  · split
    · rfl
    · split
      · rfl
      · split
        · rw [output_eq]
        · dsimp only
          split
          · rw [process_script, output_eq]
          · rw [output_eq]

/-- `on_events` takes its steps one after the other, unless the first throws what nobody
catches; the interest it sets in the end is added to the calls. -/
theorem onEvents_steps (env : Env) (delivery : Option ConnThrow) (inp : Input) (s : Session)
    (hfatal : (s.readRequest env delivery inp).2 ≠ some .fatal)
    (hundef : (s.readRequest env delivery inp).2 ≠ some .undefined) :
    ∃ polls, polls ⊆ [ClientCall.pollRo, .pollRw] ∧
      (s.onEvents env delivery false (some inp) true).1 =
        if (s.step env (.read inp delivery)).client.closed then s.step env (.read inp delivery)
        else
          { (s.step env (.read inp delivery)).step env (.write s.script delivery) with
            calls := ((s.step env (.read inp delivery)).step env (.write s.script delivery)).calls ++ polls } := by
  have hscript := readRequest_script env delivery inp s
  rcases hr : s.readRequest env delivery inp with ⟨t, _ | _ | _ | _ | _⟩ <;> rw [hr] at hfatal hundef hscript
  · cases hclosed : t.client.closed with
    | true =>
        refine ⟨[], List.nil_subset _, ?_⟩
        simp [Session.onEvents, Session.handle, Session.readEvent, step, hr, andThen, caught, hclosed]
    | false =>
        have hwrite : ({ t with script := s.script } : Session) = t := by rw [← hscript]
        rcases hw : t.writeResponse delivery with ⟨u, _ | _ | _ | _ | _⟩
        · refine ⟨[if u.client.outputBufferSet.empty then .pollRo else .pollRw], ?_, ?_⟩
          · split <;> simp
          · simp [Session.onEvents, Session.handle, Session.readEvent, step, hr, andThen, caught, hclosed,
              hwrite, hw, Session.call]
        all_goals
          refine ⟨[], List.nil_subset _, ?_⟩
          simp [Session.onEvents, Session.handle, Session.readEvent, step, hr, andThen, caught, hclosed,
            hwrite, hw, Session.close]
  · refine ⟨[], List.nil_subset _, ?_⟩
    simp [Session.onEvents, Session.handle, Session.readEvent, step, hr, andThen, caught, Session.close]
  · refine ⟨[], List.nil_subset _, ?_⟩
    simp [Session.onEvents, Session.handle, Session.readEvent, step, hr, andThen, caught, Session.close]
  · exact absurd rfl hfatal
  · exact absurd rfl hundef

/-! ### Groups move on -/

/-- Nothing is parsed, groups only move from `_parsed_groups` to `_awaiting_groups`, and no
system call is made with a descriptor that is closed. -/
structure Shifts (s s' : Session) : Prop where
  alike : Objects.Alike s.objects s'.objects
  parsed : ∀ g ∈ s'.client.parsedGroups, g ∈ s.client.parsedGroups
  awaiting : ∀ g ∈ s'.client.awaitingGroups, g ∈ s.client.awaitingGroups ∨
    g ∈ s.client.parsedGroups ∧ s.objects.short g = true
  calls : ∃ cs, s'.calls = s.calls ++ cs ∧ ClientCall.badDescriptor ∉ cs

/-- Nothing happens to other groups than those in the queues. -/
structure Moves (s s' : Session) : Prop extends s.Shifts s' where
  same : ∀ g, g ∉ s.client.parsedGroups ++ s.client.awaitingGroups → Objects.SameOn s.objects s'.objects g

/-- A system call has been made with a descriptor that is closed. -/
def Touched (s : Session) : Prop := ClientCall.badDescriptor ∈ s.calls

theorem Shifts.mem (hm : s.Shifts s') {g : GroupId} (hg : g ∈ s'.client.parsedGroups ++ s'.client.awaitingGroups) :
    g ∈ s.client.parsedGroups ++ s.client.awaitingGroups := by
  rw [List.mem_append] at hg ⊢
  rcases hg with hg | hg
  · exact Or.inl (hm.parsed g hg)
  · exact (hm.awaiting g hg).symm.imp_left And.left

theorem Shifts.trans {s'' : Session} (h : s.Shifts s') (h' : s'.Shifts s'') : s.Shifts s'' := by
  refine ⟨h.alike.trans h'.alike, fun g hg => h.parsed g (h'.parsed g hg), fun g hg => ?_, ?_⟩
  · rcases h'.awaiting g hg with hg | ⟨hg, hs⟩
    · exact h.awaiting g hg
    · exact Or.inr ⟨h.parsed g hg, by rw [← hs, h.alike.short]⟩
  · obtain ⟨cs, heq, hcs⟩ := h.calls
    obtain ⟨cs', heq', hcs'⟩ := h'.calls
    refine ⟨cs ++ cs', by rw [heq', heq, List.append_assoc], ?_⟩
    rw [List.mem_append, not_or]
    exact ⟨hcs, hcs'⟩

theorem Shifts.touched (h : s.Shifts s') : s'.Touched ↔ s.Touched := by
  obtain ⟨cs, heq, hcs⟩ := h.calls
  rw [Touched, heq, List.mem_append, or_iff_left hcs]
  rfl

theorem Moves.of_eq (ho : s'.objects = s.objects) (hp : s'.client.parsedGroups = s.client.parsedGroups)
    (ha : s'.client.awaitingGroups = s.client.awaitingGroups) (hc : s'.calls = s.calls) : s.Moves s' := by
  refine ⟨⟨ho ▸ .refl _, fun g hg => hp ▸ hg, fun g hg => Or.inl (ha ▸ hg), [], ?_, nofun⟩, fun g _ => ?_⟩
  · rw [hc, List.append_nil]
  · rw [ho]
    exact .refl _ _

theorem Moves.trans {s'' : Session} (h : s.Moves s') (h' : s'.Moves s'') : s.Moves s'' := by
  refine ⟨h.toShifts.trans h'.toShifts, fun g hg => ?_⟩
  exact (h.same g hg).trans (h'.same g fun hmem => hg (h.mem hmem))

theorem moves_call {c : ClientCall} (hc : c ≠ .badDescriptor) (s : Session) : s.Moves (s.call c) :=
  ⟨⟨.refl _, fun _ hg => hg, fun _ hg => Or.inl hg, [c], rfl, by simpa using hc.symm⟩,
    fun _ _ => .refl _ _⟩

theorem alike_appendBuffersTo : ∀ (gs : List GroupId) (o : Objects),
    Objects.Alike o (o.appendBuffersTo gs)
  | [], o => .refl o
  | g :: gs, o => (Objects.Alike.appendBufferTo g o).trans (alike_appendBuffersTo gs _)

theorem same_appendBuffersTo : ∀ (gs : List GroupId) (o : Objects) {g : GroupId}, g ∉ gs →
    Objects.SameOn o (o.appendBuffersTo gs) g
  | [], _, _, _ => .refl _ _
  | g' :: gs, o, g, hg => by
      rw [List.mem_cons, not_or] at hg
      exact (Objects.appendBufferTo_same hg.1).trans (same_appendBuffersTo gs (o.appendBufferTo g').1 hg.2)

theorem moves_pushAwaitingsToReady (s : Session) : s.Moves s.pushAwaitingsToReady := by
  unfold Session.pushAwaitingsToReady
  split
  · exact .of_eq rfl rfl rfl rfl
  · rw [appendAll_eq]
    have hsame : ∀ g, g ∉ s.client.parsedGroups ++ s.client.awaitingGroups →
        Objects.SameOn s.objects (s.objects.appendBuffersTo s.client.awaitingGroups) g :=
      fun g hg => same_appendBuffersTo _ _ fun hmem => hg (List.mem_append_right _ hmem)
    dsimp only
    split
    · exact ⟨⟨alike_appendBuffersTo _ _, fun _ hg => hg, nofun, [], (List.append_nil _).symm, nofun⟩, hsame⟩
    · exact ⟨⟨alike_appendBuffersTo _ _, fun _ hg => hg, nofun, [.pollRw], rfl, by simp⟩, hsame⟩

theorem not_mem_selects (o : Objects) (gs : List GroupId) :
    ClientCall.badDescriptor ∉ gs.flatMap o.selects := by
  intro hmem
  obtain ⟨g, -, hg⟩ := List.mem_flatMap.mp hmem
  unfold Objects.selects at hg
  split at hg
  · simp at hg
  · cases hg

theorem mem_batch {g : GroupId} (hg : g ∈ s.batch) : g ∈ s.client.parsedGroups ∧ s.objects.short g = true :=
  ⟨List.mem_of_mem_take (List.takeWhile_subset _ hg), List.mem_takeWhile_imp hg⟩

theorem moves_converted (g : GroupId) (s : Session) : s.Moves (s.converted g) := by
  refine ⟨⟨.refl _, fun g' hg' => List.dropWhile_subset _ hg', fun g' hg' => ?_,
    s.batch.flatMap s.objects.selects ++ [.deliverClient g], ?_, ?_⟩, fun _ _ => .refl _ _⟩
  · exact (List.mem_append.mp hg').imp_right mem_batch
  · rw [← List.append_assoc]
    rfl
  · rw [List.mem_append, not_or]
    exact ⟨not_mem_selects _ _, by simp⟩

theorem moves_taken (hg : s.converts = none) : s.Moves s.taken := by
  have hshort := List.dropWhile_eq_nil_iff.mp (List.head?_eq_none_iff.mp hg)
  refine ⟨⟨.refl _, fun g' hg' => List.mem_of_mem_drop hg', fun g' hg' => ?_, _, rfl, not_mem_selects _ _⟩,
    fun _ _ => .refl _ _⟩
  exact (List.mem_append.mp hg').imp_right fun hg' => ⟨List.mem_of_mem_take hg', hshort g' hg'⟩

theorem moves_process (delivery : Option ConnThrow) (s : Session) : s.Moves (s.process delivery).1 := by
  cases hclosed : s.client.closed with
  | true =>
      rw [Session.process, if_pos hclosed]
      exact .of_eq rfl rfl rfl rfl
  | false =>
      cases hg : s.converts with
      | some g =>
          rw [process_converts delivery hclosed hg]
          refine (moves_converted g s).trans ?_
          dsimp only
          split
          · exact .of_eq rfl rfl rfl rfl
          · exact .of_eq rfl rfl rfl rfl
      | none =>
          rw [process_takes delivery hclosed hg]
          refine (moves_taken hg).trans ?_
          split
          · exact moves_call (by nofun) _
          · exact moves_pushAwaitingsToReady _

theorem moves_allSent (delivery : Option ConnThrow) (s : Session) : s.Moves (s.allSent delivery).1 := by
  have hready : s.Moves { s with client := { s.client with readyGroups := [] } } := .of_eq rfl rfl rfl rfl
  have hcleared : s.Moves s.cleared := by
    unfold Session.cleared
    dsimp only
    split
    · exact hready.trans (moves_call (by nofun) _)
    · exact hready
  rw [allSent_eq]
  split
  · exact hcleared
  · exact hcleared.trans (moves_process delivery _)

/-- The session with the system call that `_send_buffer_set` makes for a closed client. -/
def written (s : Session) : Session :=
  if s.client.closed ∧ ¬ s.client.outputBufferSet.empty then s.call .badDescriptor else s

theorem moves_sendBufferSet (delivery : Option ConnThrow) (s : Session) :
    s.written.Moves (s.sendBufferSet delivery).1 := by
  have hwrote : ∀ r, s.written.Moves (s.written.wrote r) := fun r => .of_eq rfl rfl rfl rfl
  unfold Session.sendBufferSet
  dsimp only
  rw [show (if s.client.closed ∧ ¬ s.client.outputBufferSet.empty then s.call .badDescriptor else s) = s.written
    from rfl]
  split
  · exact hwrote _
  · exact hwrote _
  · exact (hwrote _).trans (moves_allSent delivery _)

theorem written_of_open (hclosed : s.client.closed = false) : s.written = s :=
  if_neg fun h => by rw [hclosed] at h; cases h.1

theorem shifts_onRemoteResponsed (k : CmdId) (rsp : Bytes) (error : Bool) (s : Session) :
    s.Shifts (s.onRemoteResponsed k rsp error) := by
  unfold Session.onRemoteResponsed
  dsimp only
  generalize (s.objects.cmds k).onRemoteResponsed rsp error = r
  have hobjects : ∀ o n, Objects.Alike s.objects o → s.Shifts
      { s with objects := o, client := { s.client with awaitingCount := n } } := fun o n ho =>
    ⟨ho, fun _ hg => hg, fun _ hg => Or.inl hg, [], (List.append_nil _).symm, nofun⟩
  split
  · have ho := Objects.Alike.respond s.objects k r.1
    unfold Objects.respond at ho
    split
    · exact (hobjects _ _ ho).trans (moves_pushAwaitingsToReady _).toShifts
    · exact hobjects _ _ ho
  · exact (hobjects _ _ (Objects.Alike.setCmd _ _ _)).trans (moves_call (by nofun) _).toShifts

/-! ### Groups that have something to write -/

/-- The groups in the queues have been built, and those that do not convert the client have a
reply. -/
structure WellQueued (s : Session) : Prop where
  built : ∀ g ∈ s.client.parsedGroups ++ s.client.awaitingGroups, g < s.objects.groupCount
  short : ∀ g ∈ s.client.awaitingGroups, s.objects.short g = true
  refs : ∀ g ∈ s.client.parsedGroups ++ s.client.awaitingGroups, s.objects.short g = true →
    s.objects.refs g ≠ []

theorem WellQueued.shifts (h : s.WellQueued) (hm : s.Shifts s') : s'.WellQueued := by
  refine ⟨fun g hg => ?_, fun g hg => ?_, fun g hg hs => ?_⟩
  · rw [hm.alike.groupCount]
    exact h.built g (hm.mem hg)
  · rw [hm.alike.short]
    rcases hm.awaiting g hg with hg | ⟨-, hs⟩
    · exact h.short g hg
    · exact hs
  · rw [hm.alike.short] at hs
    rw [hm.alike.refs]
    exact h.refs g (hm.mem hg) hs

theorem WellQueued.pushCommand (h : s.WellQueued) (kind : CommandGroup) : (s.pushCommand kind).WellQueued := by
  have hold : ∀ g ∈ s.client.parsedGroups ++ s.client.awaitingGroups,
      (s.objects.build s.self kind).groups g = s.objects.groups g :=
    fun g hg => Function.update_of_ne (h.built g hg).ne _ _
  have hmem : ∀ g ∈ (s.pushCommand kind).client.parsedGroups ++ (s.pushCommand kind).client.awaitingGroups,
      g ∈ s.client.parsedGroups ++ s.client.awaitingGroups ∨ g = s.objects.groupCount := by
    intro g hg
    simpa [Session.pushCommand, or_assoc, or_comm, or_left_comm] using hg
  refine ⟨fun g hg => ?_, fun g hg => ?_, fun g hg hs => ?_⟩
  · show g < s.objects.groupCount + 1
    rcases hmem g hg with hg | rfl
    · exact Nat.lt_succ_of_lt (h.built g hg)
    · exact Nat.lt_succ_self _
  · show (s.objects.build s.self kind).short g = true
    rw [Objects.short, hold g (List.mem_append_right _ hg)]
    exact h.short g hg
  · rcases hmem g hg with hg | rfl
    · have heq := hold g hg
      rw [show (s.pushCommand kind).objects.refs g = s.objects.refs g from
        Objects.refs_congr (by rw [← heq]; rfl) (by rw [← heq]; rfl)]
      refine h.refs g hg ?_
      rw [← hs, Objects.short, Objects.short, ← heq]
      rfl
    · exact (Objects.build_groupOk s.objects s.self kind).refs_ne_nil hs

theorem WellQueued.output (h : s.WellQueued) (out : Output) : (s.output out).WellQueued := by
  have hall : ∀ (kinds : List CommandGroup) (t : Session), t.WellQueued →
      (kinds.foldl Session.pushCommand t).WellQueued := by
    intro kinds
    induction kinds with
    | nil => exact fun t ht => ht
    | cons kind kinds ih => exact fun t ht => ih _ (ht.pushCommand kind)
  obtain ⟨hbuilt, hshort, hrefs⟩ := hall out.groups s h
  exact ⟨hbuilt, hshort, hrefs⟩

/-! ### Reading and writing -/

theorem moves_caught (r : Session × Option ConnThrow) : r.1.Moves (caught r) := by
  unfold caught
  split <;> exact .of_eq rfl rfl rfl rfl

theorem touched_output (out : Output) (s : Session) : (s.output out).Touched ↔ s.Touched := by
  rw [output_eq]
  simp [Touched]

/-- No read of an open client is made with a closed descriptor. -/
theorem WellQueued.readRequest (h : s.WellQueued) (hclosed : s.client.closed = false) (env : Env)
    (delivery : Option ConnThrow) (inp : Input) :
    (s.readRequest env delivery inp).1.WellQueued ∧
      ((s.readRequest env delivery inp).1.Touched ↔ s.Touched) := by
  have hbuffer : ∀ buf b, s.Moves { s with client := { s.client with buffer := buf, closed := b } } :=
    fun buf b => .of_eq rfl rfl rfl rfl
  have houtput : ∀ buf out,
      (Session.output out { s with client := { s.client with buffer := buf } }).WellQueued ∧
        ((Session.output out { s with client := { s.client with buffer := buf } }).Touched ↔ s.Touched) :=
    fun buf out => ⟨(h.shifts (hbuffer buf s.client.closed).toShifts).output out, touched_output out _⟩
  unfold Session.readRequest
  rw [if_neg (by rw [hclosed]; nofun)]
  split
  · exact ⟨h.shifts (hbuffer _ _).toShifts, (hbuffer _ _).touched⟩
  · split
    · exact ⟨h.shifts (hbuffer _ _).toShifts, (hbuffer _ _).touched⟩
    · split
      · exact houtput _ _
      · dsimp only
        obtain ⟨hq, ht⟩ := houtput ‹Bytes› ‹Output›
        split
        · exact ⟨hq.shifts (moves_process _ _).toShifts, (moves_process _ _).touched.trans ht⟩
        · exact ⟨hq, ht⟩

/-- A client that is closed writes to its descriptor: everything has been written, the next
request converts the client, and groups are in front of it none of which waits. -/
def Hazard (s : Session) : Step → Prop
  | .write script delivery =>
      delivery = none ∧ s.client.outputBufferSet.bufArr ≠ [] ∧
      (s.client.outputBufferSet.writev s.objects.content script).ended = .all ∧
      s.converts ≠ none ∧ s.client.awaitingGroups ++ s.batch ≠ [] ∧
      s.client.awaitingCount + (s.batch.filter fun g => (s.objects.groups g).kind.waitRemote).length = 0
  | _ => False

theorem pushAwaitingsToReady_closed (s : Session) :
    s.pushAwaitingsToReady.client.closed = s.client.closed := by
  by_cases hheld : s.Held
  · rw [pushAwaitingsToReady_of_held hheld]
  · rw [pushAwaitingsToReady_client hheld]

/-- The second half of `_write_response`. -/
def pushAndSend (delivery : Option ConnThrow) (s : Session) : Session × Option ConnThrow :=
  if s.client.awaitingGroups.isEmpty ∨ s.client.awaitingCount ≠ 0 then (s, none)
  else s.pushAwaitingsToReady.sendBufferSet delivery

theorem moves_pushAndSend (delivery : Option ConnThrow) (hclosed : s.client.closed = false) :
    s.Moves (s.pushAndSend delivery).1 := by
  unfold pushAndSend
  split
  · exact .of_eq rfl rfl rfl rfl
  · have hsend := moves_sendBufferSet delivery s.pushAwaitingsToReady
    rw [written_of_open ((pushAwaitingsToReady_closed s).trans hclosed)] at hsend
    exact (moves_pushAwaitingsToReady s).trans hsend

/-- The groups of a closed client that wait for nothing are written. -/
theorem touched_pushAndSend (delivery : Option ConnThrow) (h : s.WellQueued)
    (hclosed : s.client.closed = true) (hready : s.client.readyGroups = []) :
    (s.pushAndSend delivery).1.Touched ↔
      s.Touched ∨ s.client.awaitingGroups ≠ [] ∧ s.client.awaitingCount = 0 := by
  unfold pushAndSend
  split
  · rename_i hc
    rw [List.isEmpty_iff] at hc
    refine (or_iff_left ?_).symm
    rintro ⟨hne, h0⟩
    exact hc.elim hne fun hn => hn h0
  · rename_i hc
    rw [not_or, List.isEmpty_iff, not_not] at hc
    obtain ⟨hne, h0⟩ := hc
    have hheld : ¬ s.Held := by
      rintro (hn | ⟨hr, -⟩)
      · exact hn h0
      · exact hr hready
    obtain ⟨g, gs, hgs⟩ := List.exists_cons_of_ne_nil hne
    have hout : ¬ s.pushAwaitingsToReady.client.outputBufferSet.empty := by
      rw [pushAwaitingsToReady_client hheld]
      show ¬ (s.client.outputBufferSet.bufArr ++ s.client.awaitingGroups.flatMap s.objects.refs).isEmpty = true
      rw [List.isEmpty_iff, List.append_eq_nil_iff, hgs, List.flatMap_cons, List.append_eq_nil_iff]
      rintro ⟨-, hg, -⟩
      have hmem : g ∈ s.client.awaitingGroups := hgs ▸ List.mem_cons_self
      exact h.refs g (List.mem_append_right _ hmem) (h.short g hmem) hg
    have hwritten : s.pushAwaitingsToReady.written = s.pushAwaitingsToReady.call .badDescriptor :=
      if_pos ⟨(pushAwaitingsToReady_closed s).trans hclosed, hout⟩
    rw [(moves_sendBufferSet delivery s.pushAwaitingsToReady).touched, hwritten]
    refine iff_of_true ?_ (Or.inr ⟨hne, h0⟩)
    exact List.mem_append_right _ List.mem_cons_self

/-- What `_send_buffer_set` leaves of an open client: it is open, or it has been converted. -/
theorem sendBufferSet_converts (delivery : Option ConnThrow) (hclosed : s.client.closed = false)
    {r : Flushed BufRef} (hr : s.client.outputBufferSet.writev s.objects.content s.script = r) :
    (s.sendBufferSet delivery).1.client.closed = false ∧
        ¬ (delivery = none ∧ r.ended = .all ∧ s.converts ≠ none) ∨
      ∃ g, delivery = none ∧ r.ended = .all ∧ s.converts = some g ∧
        s.sendBufferSet delivery = (((s.wrote r).cleared.converted g).close, none) := by
  obtain ⟨hthrew, hblocked, hall⟩ := sendBufferSet_open delivery hclosed hr
  cases hend : r.ended with
  | threw e =>
      rw [hthrew e hend]
      exact Or.inl ⟨hclosed, by rintro ⟨-, h, -⟩; cases h⟩
  | blocked =>
      rw [hblocked hend]
      exact Or.inl ⟨hclosed, by rintro ⟨-, h, -⟩; cases h⟩
  | all =>
      have hclient := (s.wrote r).cleared_client
      have hopen : (s.wrote r).cleared.client.closed = false := by
        rw [hclient]
        exact hclosed
      have hobjects : (s.wrote r).cleared.objects = s.objects := (s.wrote r).cleared_objects
      have hconv : (s.wrote r).cleared.converts = s.converts := by
        rw [converts, converts, hclient, hobjects]
        rfl
      rw [hall hend, allSent_eq]
      split
      · rename_i hempty
        refine Or.inl ⟨hopen, ?_⟩
        rintro ⟨-, -, hne⟩
        refine hne ?_
        rw [← hconv, converts, List.isEmpty_iff.mp hempty]
        rfl
      · cases hg : s.converts with
        | none =>
            refine Or.inl ⟨?_, fun hc => hc.2.2 rfl⟩
            rw [process_takes delivery hopen (hconv.trans hg)]
            split
            · exact hopen
            · exact (pushAwaitingsToReady_closed _).trans hopen
        | some g =>
            rw [process_converts delivery hopen (hconv.trans hg)]
            cases delivery with
            | none => exact Or.inr ⟨g, rfl, rfl, rfl, rfl⟩
            | some e => exact Or.inl ⟨hopen, by rintro ⟨h, -⟩; cases h⟩

theorem WellQueued.writeResponse (h : s.WellQueued) (hclosed : s.client.closed = false)
    (delivery : Option ConnThrow) :
    (s.writeResponse delivery).1.WellQueued ∧
      ((s.writeResponse delivery).1.Touched ↔ s.Touched ∨ s.Hazard (.write s.script delivery)) := by
  have hwhole : s.writeResponse delivery =
      andThen (if s.client.outputBufferSet.empty then (s, none) else s.sendBufferSet delivery)
        (pushAndSend delivery) := rfl
  rw [hwhole]
  by_cases hempty : s.client.outputBufferSet.empty = true
  · have hm : s.Moves (s.pushAndSend delivery).1 := moves_pushAndSend delivery hclosed
    rw [if_pos hempty, andThen_none rfl]
    refine ⟨h.shifts hm.toShifts, hm.touched.trans (or_iff_left ?_).symm⟩
    rintro ⟨-, hne, -⟩
    exact hne (List.isEmpty_iff.mp hempty)
  · rw [if_neg hempty]
    have hfirst := moves_sendBufferSet delivery s
    rw [written_of_open hclosed] at hfirst
    generalize hr : s.client.outputBufferSet.writev s.objects.content s.script = r
    rcases sendBufferSet_converts delivery hclosed hr with ⟨hopen, hnot⟩ | ⟨g, hnone, hend, hg, heq⟩
    · -- the client has not been converted
      have hm : s.Moves (andThen (s.sendBufferSet delivery) (pushAndSend delivery)).1 := by
        unfold andThen
        split
        · exact hfirst.trans (moves_pushAndSend delivery hopen)
        · exact hfirst
      refine ⟨h.shifts hm.toShifts, hm.touched.trans (or_iff_left ?_).symm⟩
      rintro ⟨hnone, -, hend, hconv, -⟩
      exact hnot ⟨hnone, hr ▸ hend, hconv⟩
    · rw [heq] at hfirst ⊢
      rw [andThen_none rfl]
      have hclient := (s.wrote r).cleared_client
      have hobjects : (s.wrote r).cleared.objects = s.objects := (s.wrote r).cleared_objects
      have hbatch : (s.wrote r).cleared.batch = s.batch := by
        rw [batch, batch, hclient, hobjects]
        rfl
      have hready : ((s.wrote r).cleared.converted g).close.client.readyGroups = [] := by
        show (s.wrote r).cleared.client.readyGroups = []
        rw [hclient]
      have hawaiting : ((s.wrote r).cleared.converted g).close.client.awaitingGroups =
          s.client.awaitingGroups ++ s.batch := by
        show (s.wrote r).cleared.client.awaitingGroups ++ (s.wrote r).cleared.batch = _
        rw [hclient, hbatch]
        rfl
      have hcount : ((s.wrote r).cleared.converted g).close.client.awaitingCount =
          s.client.awaitingCount +
            (s.batch.filter fun g => (s.objects.groups g).kind.waitRemote).length := by
        show (s.wrote r).cleared.client.awaitingCount + (((s.wrote r).cleared.batch.filter fun g =>
          ((s.wrote r).cleared.objects.groups g).kind.waitRemote).length : ℤ) = _
        rw [hclient, hbatch, hobjects]
        rfl
      have hsecond := touched_pushAndSend delivery (h.shifts hfirst.toShifts) rfl hready
      rw [hawaiting, hcount, hfirst.touched] at hsecond
      refine ⟨?_, ?_⟩
      · unfold pushAndSend
        split
        · exact h.shifts hfirst.toShifts
        · refine WellQueued.shifts ?_ (moves_sendBufferSet delivery _).toShifts
          have hpush := (h.shifts hfirst.toShifts).shifts (moves_pushAwaitingsToReady _).toShifts
          unfold written
          split
          · exact ⟨hpush.built, hpush.short, hpush.refs⟩
          · exact hpush
      · rw [hsecond]
        refine or_congr_right ⟨fun hz => ?_, fun hz => hz.2.2.2.2⟩
        refine ⟨hnone, fun hnil => hempty (List.isEmpty_iff.mpr hnil), hr ▸ hend, ?_, hz⟩
        rw [hg]
        nofun

/-! ### Runs -/

theorem WellQueued.step (env : Env) (e : Step) (h : s.WellQueued) (he : e.Enabled s) :
    (s.step env e).WellQueued ∧ ((s.step env e).Touched ↔ s.Touched ∨ s.Hazard e) := by
  have hfalse : ∀ {t : Session}, s.Shifts t → t.WellQueued ∧ (t.Touched ↔ s.Touched ∨ False) :=
    fun hm => ⟨h.shifts hm, hm.touched.trans (or_iff_left nofun).symm⟩
  cases e with
  | hup =>
      have hclose : s.Moves s.close := .of_eq rfl rfl rfl rfl
      exact hfalse hclose.toShifts
  | respond k rsp error => exact hfalse (shifts_onRemoteResponsed k rsp error s)
  | read inp delivery =>
      obtain ⟨hq, ht⟩ := h.readRequest he env delivery inp
      exact ⟨hq.shifts (moves_caught _).toShifts, ((moves_caught _).touched.trans ht).trans (or_iff_left nofun).symm⟩
  | write script delivery =>
      have hscript : s.Moves { s with script := script } := .of_eq rfl rfl rfl rfl
      have hopen : ({ s with script := script } : Session).client.closed = false := he
      obtain ⟨hq, ht⟩ := (h.shifts hscript.toShifts).writeResponse hopen delivery
      exact ⟨hq.shifts (moves_caught _).toShifts, (moves_caught _).touched.trans ht⟩

theorem Touched.run (env : Env) : ∀ (es : List Step) {s : Session}, s.WellQueued → s.Touched →
    Runs.Along (step env) (fun s e => e.Enabled s) s es → (es.foldl (step env) s).Touched
  | [], _, _, ht, _ => ht
  | e :: es, _, h, ht, ⟨he, hes⟩ => by
      obtain ⟨hq, htouched⟩ := h.step env e he
      exact Touched.run env es hq (htouched.mpr (Or.inl ht)) hes

theorem touched_run (env : Env) : ∀ (es : List Step) {s : Session}, s.WellQueued → ¬ s.Touched →
    Runs.Along (step env) (fun s e => e.Enabled s) s es →
    (¬ (es.foldl (step env) s).Touched ↔ Runs.Along (step env) (fun s e => ¬ s.Hazard e) s es)
  | [], _, _, ht, _ => iff_of_true ht trivial
  | e :: es, s, h, ht, ⟨he, hes⟩ => by
      obtain ⟨hq, htouched⟩ := h.step env e he
      by_cases hz : s.Hazard e
      · have hrun := Touched.run env es hq (htouched.mpr (Or.inr hz)) hes
        exact iff_of_false (fun hn => hn hrun) fun hn => hn.1 hz
      · have hstep : ¬ (s.step env e).Touched := fun hn => (htouched.mp hn).elim ht hz
        exact (touched_run env es hq hstep hes).trans (and_iff_right hz).symm

/-- A client is not touched after it has been closed, in a run of any requests, writes and
responses, exactly if none of the writes is hazardous. -/
theorem untouched_iff (env : Env) (self : ClientId) (o : Objects) (es : List Step)
    (h : Runs.Along (step env) (fun s e => e.Enabled s) (connected self o) es) :
    ClientCall.badDescriptor ∉ (es.foldl (step env) (connected self o)).calls ↔
      Runs.Along (step env) (fun s e => ¬ s.Hazard e) (connected self o) es :=
  touched_run env es ⟨nofun, nofun, nofun⟩ nofun h

/-- `GET a` is read, then `PING` and `SUBSCRIBE ch`, the value comes, and the socket takes it. -/
def subscribing : List Step :=
  [.read ⟨ascii "*2\r\n$3\r\nGET\r\n$1\r\na\r\n", .again, 0⟩ none,
    .read ⟨ascii "*1\r\n$4\r\nPING\r\n*2\r\n$9\r\nSUBSCRIBE\r\n$2\r\nch\r\n", .again, 0⟩ none,
    .respond 0 (ascii "$1\r\nv\r\n") false,
    .write [.took 100] none]

theorem enabled_subscribing :
    Runs.Along (step plainEnv) (fun s e => e.Enabled s) (connected 0 .empty) subscribing := by
  refine ⟨rfl, ?_, trivial, ?_, trivial⟩
  · show ((connected 0 .empty).step plainEnv _).client.closed = false
    decide +kernel
  · show ((((connected 0 .empty).step plainEnv _).step plainEnv _).step plainEnv _).client.closed = false
    decide +kernel

theorem untouched_iff_answered :
    Runs.Along (step plainEnv) (fun s e => e.Enabled s) (connected 0 .empty) (subscribing.take 3) ∧
    (ClientCall.badDescriptor ∉ ((subscribing.take 3).foldl (step plainEnv) (connected 0 .empty)).calls ↔
      Runs.Along (step plainEnv) (fun s e => ¬ s.Hazard e) (connected 0 .empty) (subscribing.take 3)) ∧
    ((subscribing.take 3).foldl (step plainEnv) (connected 0 .empty)).client.parsedGroups = [1, 2] := by
  obtain ⟨hget, hping, hrespond, -⟩ := enabled_subscribing
  have h : Runs.Along (step plainEnv) (fun s e => e.Enabled s) (connected 0 .empty) (subscribing.take 3) :=
    ⟨hget, hping, hrespond, trivial⟩
  exact ⟨h, untouched_iff plainEnv 0 .empty (subscribing.take 3) h, by decide +kernel⟩

/-- The client is closed when it subscribes, and the reply to `PING` is written. -/
theorem touched_subscribing :
    Runs.Along (step plainEnv) (fun s e => e.Enabled s) (connected 0 .empty) subscribing ∧
    (subscribing.foldl (step plainEnv) (connected 0 .empty)).client.closed = true ∧
    ClientCall.badDescriptor ∈ (subscribing.foldl (step plainEnv) (connected 0 .empty)).calls :=
  ⟨enabled_subscribing, by decide +kernel, by decide +kernel⟩

end Session

end Cerberus
