import Cerberus.Groups

/-! # The replies of a client

One client, from its connection on: requests are read, commands get their responses in any
order, and the socket takes the replies in pieces.  Groups move from `_parsed_groups` to
`_awaiting_groups` to `_ready_groups` in the order of the requests, and only groups that wait
for nothing reach the output set.  `replies_in_order` says what this comes to: what the socket
has taken and what is still in the output set are the replies to the first requests, one
after the other. -/

namespace Cerberus

/-! ### The queues of a client -/

namespace Session

/-- The groups of the requests of a client, if the first of them is the `start`-th of all. -/
def requests (start : ℕ) (s : Session) : List GroupId :=
  List.range' start (s.objects.groupCount - start)

/-- The groups of the requests are in the queues, in order; the queues of `awaiting` and
`parsed` groups are given apart, for the loops that empty them.  The requests from the first one
on that converts the client are `late`. -/
structure Inv (start : ℕ) (flushed awaiting parsed late : List GroupId) (s : Session) : Prop where
  closed : s.client.closed = false
  start_le : start ≤ s.objects.groupCount
  order : flushed ++ s.client.readyGroups ++ awaiting ++ parsed ++ late = s.requests start
  ok : ∀ g ∈ s.requests start, s.objects.GroupOk g
  short : ∀ g ∈ flushed ++ s.client.readyGroups ++ awaiting ++ parsed, s.objects.short g = true
  long : ∀ g ∈ late.head?, s.objects.short g = false
  fresh : ∀ g ∈ parsed, (s.objects.groups g).complete = false
  done : ∀ g ∈ flushed ++ s.client.readyGroups, ¬ s.objects.Pending g
  count : s.client.awaitingCount = (awaiting.filter (s.objects.Pending ·)).length
  refs : s.client.outputBufferSet.bufArr <:+ s.client.readyGroups.flatMap s.objects.refs
  offset : s.client.outputBufferSet.OffsetOk s.objects.content
  bytes : s.sent ++ s.client.outputBufferSet.pending s.objects.content =
    ((flushed ++ s.client.readyGroups).map s.objects.reply).flatten

/-- The invariant between the calls. -/
def Good (start : ℕ) (late : List GroupId) (s : Session) : Prop :=
  ∃ flushed parsed, s.client.parsedGroups = parsed ++ late ∧
    s.Inv start flushed s.client.awaitingGroups parsed late

variable {start : ℕ} {flushed awaiting parsed late : List GroupId} {s s' : Session}

theorem Inv.same (h : s.Inv start flushed awaiting parsed late) (ho : s'.objects = s.objects)
    (hs : s'.sent = s.sent) (hc : s'.client.closed = s.client.closed)
    (hr : s'.client.readyGroups = s.client.readyGroups)
    (hn : s'.client.awaitingCount = s.client.awaitingCount)
    (hb : s'.client.outputBufferSet = s.client.outputBufferSet) :
    s'.Inv start flushed awaiting parsed late := by
  constructor
  · rw [hc]; exact h.closed
  · rw [ho]; exact h.start_le
  · rw [hr, requests, ho]; exact h.order
  · rw [requests, ho]; exact h.ok
  · rw [hr, ho]; exact h.short
  · rw [ho]; exact h.long
  · rw [ho]; exact h.fresh
  · rw [hr, ho]; exact h.done
  · rw [hn, ho]; exact h.count
  · rw [hb, hr, ho]; exact h.refs
  · rw [hb, ho]; exact h.offset
  · rw [hs, hb, hr, ho]; exact h.bytes

theorem Good.closed (h : s.Good start late) : s.client.closed = false := by
  obtain ⟨flushed, parsed, -, h⟩ := h
  exact h.closed

/-- Nothing the invariant is about has changed. -/
theorem Good.same (h : s.Good start late) (hc : s'.client = s.client) (ho : s'.objects = s.objects)
    (hs : s'.sent = s.sent) : s'.Good start late := by
  obtain ⟨flushed, parsed, hlate, h⟩ := h
  refine ⟨flushed, parsed, hc ▸ hlate, ?_⟩
  rw [hc]
  exact h.same ho hs (by rw [hc]) (by rw [hc]) (by rw [hc]) (by rw [hc])

theorem Inv.mem_requests (h : s.Inv start flushed awaiting parsed late) {g : GroupId}
    (hg : g ∈ flushed ++ s.client.readyGroups ++ awaiting ++ parsed) : g ∈ s.requests start :=
  h.order ▸ List.mem_append_left _ hg

/-- The objects may change outside of the groups whose replies are on their way. -/
theorem Inv.sameOn {o : Objects} (h : s.Inv start flushed awaiting parsed late)
    (hsame : ∀ g ∈ flushed ++ s.client.readyGroups, Objects.SameOn s.objects o g) :
    (∀ g ∈ flushed ++ s.client.readyGroups, ¬ o.Pending g) ∧
    s.client.outputBufferSet.bufArr <:+ s.client.readyGroups.flatMap o.refs ∧
    s.client.outputBufferSet.OffsetOk o.content ∧
    s.sent ++ s.client.outputBufferSet.pending o.content =
      ((flushed ++ s.client.readyGroups).map o.reply).flatten := by
  have hready : ∀ g ∈ s.client.readyGroups, Objects.SameOn s.objects o g :=
    fun g hg => hsame g (List.mem_append_right _ hg)
  have hcontent : ∀ r ∈ s.client.outputBufferSet.bufArr, o.content r = s.objects.content r := by
    intro r hr
    obtain ⟨g, hg, hrg⟩ := List.mem_flatMap.mp (h.refs.subset hr)
    exact (hready g hg).content hrg
  refine ⟨?_, ?_, ?_, ?_⟩
  · intro g hg
    rw [(hsame g hg).pending]
    exact h.done g hg
  · rw [List.flatMap_congr fun g hg => (hready g hg).refs]
    exact h.refs
  · exact h.offset.congr hcontent
  · rw [BufferSet.pending_congr hcontent, h.bytes, List.map_congr_left fun g hg => (hsame g hg).reply]

theorem count_congr {o : Objects} (h : ∀ g ∈ awaiting, o.Pending g ↔ s.objects.Pending g) :
    awaiting.filter (o.Pending ·) = awaiting.filter (s.objects.Pending ·) :=
  List.filter_congr fun g hg => decide_eq_decide.mpr (h g hg)

/-- Where a request that is parsed goes. -/
def Joins (kind : CommandGroup) (g : GroupId) (late parsed' late' : List GroupId) : Prop :=
  (late = [] ∧ kind.longConnection = false ∧ parsed' = [g] ∧ late' = []) ∨
    ((late ≠ [] ∨ kind.longConnection = true) ∧ parsed' = [] ∧ late' = [g])

theorem Inv.pushCommand (h : s.Inv start flushed awaiting parsed late) {kind : CommandGroup}
    {parsed' late' : List GroupId} (hjoin : Joins kind s.objects.groupCount late parsed' late') :
    (s.pushCommand kind).Inv start flushed awaiting (parsed ++ parsed') (late ++ late') := by
  have hsame : ∀ g ∈ s.requests start, Objects.SameOn s.objects (s.objects.build s.self kind) g := by
    intro g hg
    obtain ⟨i, hi, rfl⟩ := List.mem_range'.mp hg
    have hlt : start + 1 * i < s.objects.groupCount := by omega
    exact Objects.build_same _ _ hlt (h.ok _ hg)
  have hsub : ∀ g, g ∈ flushed ++ s.client.readyGroups ++ awaiting ++ parsed →
      Objects.SameOn s.objects (s.objects.build s.self kind) g :=
    fun g hg => hsame g (h.mem_requests hg)
  have hnew : (s.objects.build s.self kind).groups s.objects.groupCount = _ := Function.update_self ..
  have hreq : (s.pushCommand kind).requests start = s.requests start ++ [s.objects.groupCount] := by
    have hle := h.start_le
    rw [requests, requests, show (s.pushCommand kind).objects.groupCount - start =
      s.objects.groupCount - start + 1 by show s.objects.groupCount + 1 - start = _; omega,
      List.range'_concat]
    congr 2
    omega
  obtain ⟨hdone, hrefs, hoff, hbytes⟩ := h.sameOn fun g hg =>
    hsub g (List.mem_append_left _ (List.mem_append_left _ hg))
  refine ⟨h.closed, ?_, ?_, ?_, ?_, ?_, ?_, hdone, ?_, hrefs, hoff, hbytes⟩
  · exact h.start_le.trans (Nat.le_succ _)
  · rw [hreq, ← h.order]
    show flushed ++ s.client.readyGroups ++ awaiting ++ _ ++ _ = _
    rcases hjoin with ⟨rfl, -, rfl, rfl⟩ | ⟨-, rfl, rfl⟩ <;> simp
  · intro g hg
    rw [hreq] at hg
    rcases List.mem_append.mp hg with hg | hg
    · exact (hsame g hg).groupOk (Nat.le_add_right _ _) (h.ok g hg)
    · rw [List.mem_singleton.mp hg]
      exact Objects.build_groupOk _ _ kind
  · intro g hg
    rw [← List.append_assoc] at hg
    rcases List.mem_append.mp hg with hg | hg
    · exact (hsub g hg).short.trans (h.short g hg)
    · rcases hjoin with ⟨-, hkind, rfl, -⟩ | ⟨-, rfl, -⟩
      · rw [List.mem_singleton.mp hg]
        show (s.objects.build s.self kind).short s.objects.groupCount = true
        rw [Objects.short, hnew, hkind]
        rfl
      · cases hg
  · intro g hg
    cases late with
    | cons g' late =>
        cases hg
        exact (hsame g (h.order ▸ by simp)).short.trans (h.long g rfl)
    | nil =>
        rcases hjoin with ⟨-, -, -, rfl⟩ | ⟨hkind, -, rfl⟩
        · cases hg
        · cases hg
          show (s.objects.build s.self kind).short s.objects.groupCount = false
          rw [Objects.short, hnew, hkind.resolve_left fun hne => hne rfl]
          rfl
  · intro g hg
    rcases List.mem_append.mp hg with hg | hg
    · show ((s.objects.build s.self kind).groups g).complete = false
      rw [(hsub g (List.mem_append_right _ hg)).1]
      exact h.fresh g hg
    · rcases hjoin with ⟨-, -, rfl, -⟩ | ⟨-, rfl, -⟩
      · rw [List.mem_singleton.mp hg]
        show ((s.objects.build s.self kind).groups s.objects.groupCount).complete = false
        rw [hnew]
      · cases hg
  · have hcongr := count_congr fun g hg =>
      (hsub g (List.mem_append_left _ (List.mem_append_right _ hg))).pending
    rw [show (s.pushCommand kind).objects = s.objects.build s.self kind from rfl, hcongr]
    exact h.count

/-- The requests from the first one on that converts the client. -/
def lateFrom : List GroupId → ℕ → List CommandGroup → List GroupId
  | late, _, [] => late
  | late, n, kind :: kinds =>
      lateFrom (if late = [] ∧ kind.longConnection = false then [] else late ++ [n]) (n + 1) kinds

theorem Good.foldl_pushCommand : ∀ (kinds : List CommandGroup) {late : List GroupId} {s : Session},
    s.Good start late →
    (kinds.foldl Session.pushCommand s).Good start (lateFrom late s.objects.groupCount kinds)
  | [], _, _, h => h
  | kind :: kinds, late, s, ⟨flushed, parsed, hparsed, h⟩ => by
      refine Good.foldl_pushCommand kinds (s := s.pushCommand kind) ?_
      by_cases hc : late = [] ∧ kind.longConnection = false
      · rw [if_pos hc]
        refine ⟨flushed, parsed ++ [s.objects.groupCount], ?_, ?_⟩
        · show s.client.parsedGroups ++ [s.objects.groupCount] = _
          rw [hparsed, hc.1, List.append_nil, List.append_nil]
        · have hpush := h.pushCommand (Or.inl ⟨hc.1, hc.2, rfl, rfl⟩)
          rw [hc.1] at hpush
          exact hpush
      · rw [if_neg hc]
        rw [not_and_or, Bool.not_eq_false] at hc
        refine ⟨flushed, parsed, ?_, ?_⟩
        · show s.client.parsedGroups ++ [s.objects.groupCount] = _
          rw [hparsed, List.append_assoc]
        · have hpush := h.pushCommand (Or.inr ⟨hc, rfl, rfl⟩)
          rw [List.append_nil] at hpush
          exact hpush

theorem lateFrom_short : ∀ {kinds : List CommandGroup} {n : ℕ},
    (∀ kind ∈ kinds, kind.longConnection = false) → lateFrom [] n kinds = []
  | [], _, _ => rfl
  | kind :: kinds, n, h => by
      rw [lateFrom, if_pos ⟨rfl, h kind List.mem_cons_self⟩]
      exact lateFrom_short fun k hk => h k (List.mem_cons_of_mem _ hk)

/-- The groups of several requests, built one after the other. -/
def buildAll (kinds : List CommandGroup) (cli : ClientId) (o : Objects) : Objects :=
  kinds.foldl (fun o kind => o.build cli kind) o

theorem foldl_pushCommand : ∀ (kinds : List CommandGroup) (s : Session),
    kinds.foldl Session.pushCommand s =
      { s with
        objects := buildAll kinds s.self s.objects
        client := { s.client with
          parsedGroups := s.client.parsedGroups ++ List.range' s.objects.groupCount kinds.length } }
  | [], s => by
      rw [List.length_nil, List.range'_zero, List.append_nil]
      rfl
  | kind :: kinds, s => by
      rw [List.foldl_cons, foldl_pushCommand kinds, List.length_cons, List.range'_succ]
      simp only [Session.pushCommand, List.append_assoc, List.singleton_append]
      rfl

theorem output_eq (out : Output) (s : Session) : s.output out =
    { s with
      objects := buildAll out.groups s.self s.objects
      client := { s.client with
        parsedGroups := s.client.parsedGroups ++ List.range' s.objects.groupCount out.groups.length }
      calls := s.calls ++ out.effects.map .effect
      statsCalls := out.statsCalls
      randCalls := out.randCalls } := by
  rw [Session.output, foldl_pushCommand]

/-! ### Groups that are ready -/

theorem Inv.nodup (h : s.Inv start flushed awaiting parsed late) :
    (flushed ++ s.client.readyGroups ++ awaiting ++ parsed ++ late).Nodup :=
  h.order ▸ List.nodup_range'

theorem Inv.not_pending (h : s.Inv start flushed awaiting parsed late) (h0 : s.client.awaitingCount = 0) :
    ∀ g ∈ awaiting, ¬ s.objects.Pending g := by
  have hcount := h.count
  rw [h0] at hcount
  have hnil := List.length_eq_zero_iff.mp (Int.ofNat_eq_zero.mp hcount.symm)
  intro g hg
  simpa using List.filter_eq_nil_iff.mp hnil g hg

/-- The reply of a group that waits for nothing goes to the output set. -/
theorem Inv.append {g : GroupId} {gs : List GroupId} (h : s.Inv start flushed (g :: gs) parsed late)
    (h0 : s.client.awaitingCount = 0) :
    Inv start flushed gs parsed late
      { s with
        objects := (s.objects.appendBufferTo g).1
        client := { s.client with
          outputBufferSet := { s.client.outputBufferSet with
            bufArr := s.client.outputBufferSet.bufArr ++ (s.objects.appendBufferTo g).2 }
          readyGroups := s.client.readyGroups ++ [g] } } := by
  have hpend := h.not_pending h0
  obtain ⟨-, -, hcount⟩ := Objects.appendBufferTo_cmds g s.objects
  have hg : g ∉ flushed ++ s.client.readyGroups := by
    have hnd := h.nodup
    rw [List.append_assoc, List.append_assoc, List.append_assoc, ← List.append_assoc] at hnd
    intro hmem
    exact (List.nodup_append.mp hnd).2.2 g hmem g (by simp) rfl
  have hne : ∀ g' ∈ flushed ++ s.client.readyGroups, g' ≠ g := fun g' hg' heq => hg (heq ▸ hg')
  obtain ⟨hdone, hrefs, hoff, hbytes⟩ := h.sameOn fun g' hg' => Objects.appendBufferTo_same (hne g' hg')
  have hok := h.ok g (h.mem_requests (by simp))
  have hreq : List.range' start ((s.objects.appendBufferTo g).1.groupCount - start) = s.requests start := by
    rw [hcount]
    rfl
  refine ⟨h.closed, ?_, ?_, ?_, ?_, ?_, ?_, ?_, ?_, ?_, hoff.append _, ?_⟩
  · rw [hcount]
    exact h.start_le
  · rw [requests, hreq, ← h.order]
    simp
  · rw [requests, hreq]
    exact fun g' hg' => (h.ok g' hg').appendBufferTo
  · intro g' hg'
    rw [(Objects.Alike.appendBufferTo g s.objects).short]
    exact h.short g' (by simpa using hg')
  · intro g' hg'
    rw [(Objects.Alike.appendBufferTo g s.objects).short]
    exact h.long g' hg'
  · intro g' hg'
    rw [Objects.appendBufferTo_complete]
    exact h.fresh g' hg'
  · rw [← List.append_assoc]
    intro g' hg'
    rcases List.mem_append.mp hg' with hg' | hg'
    · exact hdone g' hg'
    · rw [List.mem_singleton.mp hg', Objects.appendBufferTo_pending]
      exact hpend g List.mem_cons_self
  · show s.client.awaitingCount = _
    rw [h0, count_congr fun g' _ => Objects.appendBufferTo_pending g g' s.objects,
      List.filter_eq_nil_iff.mpr fun g' hg' => by simpa using hpend g' (List.mem_cons_of_mem _ hg')]
    rfl
  · obtain ⟨t, ht⟩ := hrefs
    refine ⟨t, ?_⟩
    rw [← List.append_assoc, ht, List.flatMap_append]
    congr 1
    simp only [List.flatMap_cons, List.flatMap_nil, List.append_nil, Objects.appendBufferTo_refs]
    rfl
  · show s.sent ++ BufferSet.pending _ { s.client.outputBufferSet with
      bufArr := s.client.outputBufferSet.bufArr ++ (s.objects.appendBufferTo g).2 } = _
    rw [BufferSet.pending_append hoff, ← List.append_assoc, hbytes, hok.appended (hpend g List.mem_cons_self),
      ← List.append_assoc flushed, List.map_append, List.flatten_append]
    simp [Objects.appendBufferTo_reply]

/-- By induction on the groups that are appended. -/
theorem Inv.appendAll : ∀ (gs : List GroupId) {s : Session}, s.Inv start flushed gs parsed late →
    s.client.awaitingCount = 0 → (s.appendAll gs).Inv start flushed [] parsed late
  | [], _, h, _ => h
  | _ :: gs, _, h, h0 => Inv.appendAll gs (h.append h0) h0

theorem appendAll_parsedGroups : ∀ (gs : List GroupId) (s : Session),
    (s.appendAll gs).client.parsedGroups = s.client.parsedGroups ∧ (s.appendAll gs).script = s.script
  | [], _ => ⟨rfl, rfl⟩
  | _ :: gs, _ => appendAll_parsedGroups gs _

theorem Good.pushAwaitingsToReady (h : s.Good start late) :
    s.pushAwaitingsToReady.Good start late ∧ s.pushAwaitingsToReady.script = s.script := by
  obtain ⟨flushed, parsed, hlate, h⟩ := h
  unfold Session.pushAwaitingsToReady
  split
  · exact ⟨⟨flushed, parsed, hlate, h⟩, rfl⟩
  · rename_i hc
    rw [not_or, ne_eq, not_not] at hc
    have happ := Inv.appendAll s.client.awaitingGroups h hc.1
    obtain ⟨hparsed, hscript⟩ := appendAll_parsedGroups s.client.awaitingGroups s
    dsimp only
    split
    · exact ⟨⟨flushed, parsed, hparsed.trans hlate, happ.same rfl rfl rfl rfl rfl rfl⟩, hscript⟩
    · exact ⟨⟨flushed, parsed, hparsed.trans hlate, happ.same rfl rfl rfl rfl rfl rfl⟩, hscript⟩

/-! ### Groups that are processed -/

/-- A group that waits for a response counts from now on. -/
theorem Inv.take {g : GroupId} {rest : List GroupId}
    (h : s.Inv start flushed s.client.awaitingGroups (g :: rest) late) :
    Inv start flushed (s.client.awaitingGroups ++ [g]) rest late
      { s with client := { s.client with
        awaitingCount := s.client.awaitingCount + if s.objects.Pending g then 1 else 0 } } := by
  refine ⟨h.closed, h.start_le, ?_, h.ok, ?_, h.long, fun g' hg' => h.fresh g' (List.mem_cons_of_mem _ hg'),
    h.done, ?_, h.refs, h.offset, h.bytes⟩
  · show flushed ++ s.client.readyGroups ++ (s.client.awaitingGroups ++ [g]) ++ rest ++ late = s.requests start
    rw [← h.order]
    simp
  · intro g' hg'
    exact h.short g' (by simpa using hg')
  · show s.client.awaitingCount + _ = _
    rw [h.count, List.filter_append, List.length_append]
    by_cases hp : s.objects.Pending g <;> simp [hp]

theorem Inv.takeGroups : ∀ (gs : List GroupId) {rest : List GroupId} {s : Session},
    s.Inv start flushed s.client.awaitingGroups (gs ++ rest) late →
    (s.takeGroups gs).2 = none ∧
      (s.takeGroups gs).1.Inv start flushed (s.takeGroups gs).1.client.awaitingGroups rest late ∧
      (s.takeGroups gs).1.client.parsedGroups = s.client.parsedGroups ∧
      (s.takeGroups gs).1.script = s.script
  | [], _, _, h => ⟨rfl, h, rfl, rfl⟩
  | g :: gs, rest, s, h => by
      have hshort : (s.objects.groups g).kind.longConnection = false := by
        simpa [Objects.short] using h.short g (by simp)
      have hfresh := h.fresh g (by simp)
      have htake := Inv.take h
      unfold Session.takeGroups
      simp only [hshort, Bool.false_eq_true, if_false]
      split
      · rename_i hw
        rw [if_pos ⟨hw, hfresh⟩] at htake
        exact Inv.takeGroups gs (htake.same rfl rfl rfl rfl rfl rfl)
      · rename_i hw
        rw [if_neg fun hp => hw hp.1, add_zero] at htake
        exact Inv.takeGroups gs (htake.same rfl rfl rfl rfl rfl rfl)

/-- The groups `_process` takes are short if none of them is one of the `late` ones. -/
theorem Good.take_parsed (hlate : s.client.parsedGroups = parsed ++ late)
    (h : s.Inv start flushed awaiting parsed late)
    (hshort : ∀ g ∈ s.client.parsedGroups.take maxPipe, s.objects.short g = true) :
    s.client.parsedGroups.take maxPipe = parsed.take maxPipe ∧
      s.client.parsedGroups.drop maxPipe = parsed.drop maxPipe ++ late := by
  rw [hlate, List.take_append, List.drop_append]
  cases late with
  | nil => simp
  | cons g late =>
      have hle : maxPipe ≤ parsed.length := by
        by_contra hlt
        have hmem : g ∈ s.client.parsedGroups.take maxPipe := by
          rw [hlate, List.take_append]
          refine List.mem_append_right _ ?_
          obtain ⟨n, hn⟩ := Nat.exists_eq_add_of_lt (Nat.not_le.mp hlt)
          rw [hn, show parsed.length + n + 1 - parsed.length = n + 1 by omega]
          exact List.mem_cons_self
        exact Bool.false_ne_true ((h.long g rfl).symm.trans (hshort g hmem))
      simp [Nat.sub_eq_zero_of_le hle]

theorem Good.process (delivery : Option ConnThrow) (h : s.Good start late)
    (hshort : ∀ g ∈ s.client.parsedGroups.take maxPipe, s.objects.short g = true) :
    (s.process delivery).2 = none ∧ (s.process delivery).1.Good start late ∧
      (s.process delivery).1.script = s.script := by
  obtain ⟨flushed, parsed, hlate, h⟩ := h
  have hclosed := h.closed
  obtain ⟨htake, hdrop⟩ := Good.take_parsed hlate h hshort
  rw [← List.take_append_drop maxPipe parsed] at h
  obtain ⟨hnone, htaken, hparsed, hscript⟩ := Inv.takeGroups _ h
  unfold Session.process
  simp only [hclosed, Bool.false_eq_true, if_false, htake]
  generalize s.takeGroups (parsed.take maxPipe) = r at *
  obtain ⟨t, g⟩ := r
  obtain rfl : g = none := hnone
  dsimp only at *
  rw [hparsed]
  split
  · exact ⟨rfl, ⟨flushed, _, hdrop, htaken.same rfl rfl rfl rfl rfl rfl⟩, hscript⟩
  · have hgood : Good start late { t with client := { t.client with
        parsedGroups := s.client.parsedGroups.drop maxPipe } } :=
      ⟨flushed, _, hdrop, htaken.same rfl rfl rfl rfl rfl rfl⟩
    obtain ⟨hpush, hs⟩ := hgood.pushAwaitingsToReady
    exact ⟨rfl, hpush, hs.trans hscript⟩

/-- A client none of whose requests converts it. -/
theorem Good.short (h : s.Good start []) : ∀ g ∈ s.client.parsedGroups, s.objects.short g = true := by
  obtain ⟨flushed, parsed, hlate, h⟩ := h
  rw [hlate, List.append_nil]
  exact fun g hg => h.short g (List.mem_append_right _ hg)

/-! ### Writing -/

theorem andThen_none {r : Session × Option ConnThrow} {f : Session → Session × Option ConnThrow}
    (h : r.2 = none) : andThen r f = f r.1 := by
  rw [andThen, h]

/-- The session when everything has been written. -/
def cleared (s : Session) : Session :=
  let s := { s with client := { s.client with readyGroups := [] } }
  if s.client.awaitingGroups.isEmpty then s.call .clearPeers else s

theorem allSent_eq (delivery : Option ConnThrow) (s : Session) : s.allSent delivery =
    if s.cleared.client.parsedGroups.isEmpty then (s.cleared, none) else s.cleared.process delivery := rfl

theorem cleared_client (s : Session) : s.cleared.client = { s.client with readyGroups := [] } := by
  unfold cleared
  dsimp only
  split <;> rfl

theorem cleared_objects (s : Session) : s.cleared.objects = s.objects := by
  unfold cleared
  dsimp only
  split <;> rfl

/-- The groups that were ready are those of replies that have been sent. -/
theorem Inv.cleared (h : s.Inv start flushed s.client.awaitingGroups parsed late)
    (hlate : s.client.parsedGroups = parsed ++ late)
    (hset : s.client.outputBufferSet = ⟨[], 0⟩) :
    s.cleared.Good start late ∧ s.cleared.script = s.script := by
  have hinv : Inv start (flushed ++ s.client.readyGroups) s.client.awaitingGroups parsed late
      { s with client := { s.client with readyGroups := [] } } := by
    refine ⟨h.closed, h.start_le, ?_, h.ok, ?_, h.long, h.fresh, ?_, h.count, ?_, h.offset, ?_⟩
    · show flushed ++ s.client.readyGroups ++ [] ++ _ ++ _ ++ _ = s.requests start
      rw [List.append_nil]
      exact h.order
    · show ∀ g ∈ flushed ++ s.client.readyGroups ++ [] ++ _ ++ _, _
      rw [List.append_nil]
      exact h.short
    · show ∀ g ∈ flushed ++ s.client.readyGroups ++ [], _
      rw [List.append_nil]
      exact h.done
    · rw [hset]
      exact List.nil_suffix
    · show s.sent ++ _ = ((flushed ++ s.client.readyGroups ++ []).map _).flatten
      rw [List.append_nil]
      exact h.bytes
  unfold Session.cleared
  dsimp only
  split
  · exact ⟨⟨_, _, hlate, hinv.same rfl rfl rfl rfl rfl rfl⟩, rfl⟩
  · exact ⟨⟨_, _, hlate, hinv⟩, rfl⟩

/-- What `_send_buffer_set` of an open client does when `writev` has come back. -/
theorem sendBufferSet_open (delivery : Option ConnThrow) (hclosed : s.client.closed = false)
    {r : Flushed BufRef} (hr : s.client.outputBufferSet.writev s.objects.content s.script = r) :
    (∀ e, r.ended = .threw e → s.sendBufferSet delivery = (s.wrote r, some e.thrown)) ∧
      (r.ended = .blocked → s.sendBufferSet delivery = (s.wrote r, none)) ∧
      (r.ended = .all → s.sendBufferSet delivery = (s.wrote r).allSent delivery) := by
  unfold Session.sendBufferSet
  refine ⟨fun e hend => ?_, fun hend => ?_, fun hend => ?_⟩ <;>
    simp only [hclosed, Bool.false_eq_true, false_and, if_false, hr, hend]

/-- What `_send_buffer_set` comes to: the socket has no more room, or everything has been
written. -/
theorem Good.sendBufferSet_cases (delivery : Option ConnThrow) (h : s.Good start late)
    (hq : Quiet s.script) :
    ∃ r, r = s.client.outputBufferSet.writev s.objects.content s.script ∧ Quiet r.script ∧
      ((r.ended = .blocked ∧ r.set.pending s.objects.content ≠ [] ∧ (s.wrote r).Good start late ∧
          s.sendBufferSet delivery = (s.wrote r, none)) ∨
        (r.ended = .all ∧ r.set = ⟨[], 0⟩ ∧ (s.wrote r).cleared.Good start late ∧
          (s.wrote r).cleared.script = r.script ∧
          s.sendBufferSet delivery = (s.wrote r).allSent delivery)) := by
  obtain ⟨flushed, parsed, hlate, h⟩ := h
  have hfl := BufferSet.writev_flushes s.script h.offset
  obtain ⟨hthrow, hquiet⟩ := BufferSet.writev_quiet hq h.offset
  obtain ⟨-, hblocked, hall⟩ := sendBufferSet_open delivery h.closed rfl
  refine ⟨_, rfl, hquiet, ?_⟩
  generalize s.client.outputBufferSet.writev s.objects.content s.script = r at *
  have hinv : (s.wrote r).Inv start flushed s.client.awaitingGroups parsed late := by
    refine ⟨h.closed, h.start_le, h.order, h.ok, h.short, h.long, h.fresh, h.done, h.count, hfl.suffix.trans h.refs,
      hfl.offset hthrow, ?_⟩
    show s.sent ++ r.taken ++ r.set.pending s.objects.content = _
    rw [List.append_assoc, hfl.bytes hthrow]
    exact h.bytes
  cases hend : r.ended with
  | threw e => exact absurd hend (hthrow e)
  | blocked => exact Or.inl ⟨rfl, hfl.blocked hend, ⟨flushed, parsed, hlate, hinv⟩, hblocked hend⟩
  | all =>
      have hset : r.set = ⟨[], 0⟩ := by
        have harr := hfl.all hend
        have hoff := hfl.offset hthrow
        rw [BufferSet.OffsetOk, harr] at hoff
        rw [← harr, ← hoff]
      obtain ⟨hgood, hs⟩ := Inv.cleared (s := s.wrote r) hinv hlate hset
      exact Or.inr ⟨rfl, hset, hgood, hs, hall hend⟩

theorem Good.sendBufferSet (delivery : Option ConnThrow) (h : s.Good start []) (hq : Quiet s.script) :
    (s.sendBufferSet delivery).2 = none ∧ (s.sendBufferSet delivery).1.Good start [] ∧
      Quiet (s.sendBufferSet delivery).1.script := by
  obtain ⟨r, -, hquiet, ⟨-, -, hgood, heq⟩ | ⟨-, -, hgood, hs, heq⟩⟩ := h.sendBufferSet_cases delivery hq
  · rw [heq]
    exact ⟨rfl, hgood, hquiet⟩
  · rw [heq, allSent_eq]
    split
    · exact ⟨rfl, hgood, hs ▸ hquiet⟩
    · obtain ⟨hnone, hprocess, hscript⟩ := hgood.process delivery fun g hg => hgood.short g (List.mem_of_mem_take hg)
      refine ⟨hnone, hprocess, ?_⟩
      rw [hscript, hs]
      exact hquiet

theorem Good.writeResponse (delivery : Option ConnThrow) (h : s.Good start []) (hq : Quiet s.script) :
    (s.writeResponse delivery).2 = none ∧ (s.writeResponse delivery).1.Good start [] := by
  have hfirst : (if s.client.outputBufferSet.empty then (s, none) else s.sendBufferSet delivery).2 = none ∧
      (if s.client.outputBufferSet.empty then (s, none) else s.sendBufferSet delivery).1.Good start [] ∧
      Quiet (if s.client.outputBufferSet.empty then (s, none) else s.sendBufferSet delivery).1.script := by
    split
    · exact ⟨rfl, h, hq⟩
    · exact h.sendBufferSet delivery hq
  unfold Session.writeResponse
  generalize (if s.client.outputBufferSet.empty then (s, none) else s.sendBufferSet delivery) = r at *
  obtain ⟨hnone, hgood, hquiet⟩ := hfirst
  rw [andThen_none hnone]
  split
  · exact ⟨rfl, hgood⟩
  · obtain ⟨hpush, hs⟩ := hgood.pushAwaitingsToReady
    obtain ⟨hnone, hsent, -⟩ := hpush.sendBufferSet delivery (hs ▸ hquiet)
    exact ⟨hnone, hsent⟩

/-! ### Runs -/

/-- What happens to a client: `on_events` with what is read and what the socket answers, and a
response to one of its commands. -/
inductive Event where
  | onEvents (read : Option Input) (write : Option (List WriteAnswer))
  | respond (k : CmdId) (rsp : Bytes) (error : Bool)

/-- A read finds requests none of which converts the client; the socket takes bytes or none; the
command belongs to a group that has been processed and has not been answered. -/
def Enabled (env : Env) (s : Session) : Event → Prop
  | .onEvents read write =>
      (∀ inp ∈ read, inp.bytes ≠ [] ∧ (inp.ended = .again ∨ inp.ended = .eof) ∧
        ∃ rest out, splitClientCommand env (s.client.buffer ++ inp.bytes) inp.guard
            ⟨[], [], s.statsCalls, s.randCalls⟩ = .split rest out ∧
          ∀ kind ∈ out.groups, kind.longConnection = false) ∧
      ∀ script ∈ write, Quiet script
  | .respond k _ _ =>
      (s.objects.cmds k).group ∈ s.client.awaitingGroups ∧
      k ∈ (s.objects.groups (s.objects.cmds k).group).commands ∧ (s.objects.cmds k).responsed = false

def next (env : Env) (s : Session) : Event → Session
  | .onEvents read write =>
      (({ s with script := write.getD [] } : Session).onEvents env none false read write.isSome).1
  | .respond k rsp error => s.onRemoteResponsed k rsp error

/-- A client that has just connected. -/
def connected (self : ClientId) (o : Objects) : Session where
  self := self
  client := .new
  objects := o
  script := []
  sent := []
  calls := []
  statsCalls := 0
  randCalls := 0

inductive Reachable (env : Env) (init : Session) : Session → Prop
  | refl : Reachable env init init
  | step {s : Session} {e : Event} : Reachable env init s → s.Enabled env e →
      Reachable env init (s.next env e)

variable {env : Env}

/-- A read that finds whole requests, and the beginning of another one. -/
theorem readRequest_split {inp : Input} (delivery : Option ConnThrow) (hclosed : s.client.closed = false)
    (hbytes : inp.bytes ≠ []) (hended : inp.ended = .again ∨ inp.ended = .eof) {rest : Bytes}
    {out : Output} (hsplit : splitClientCommand env (s.client.buffer ++ inp.bytes) inp.guard
      ⟨[], [], s.statsCalls, s.randCalls⟩ = .split rest out) :
    s.readRequest env delivery inp =
      if s.client.awaitingGroups.isEmpty then
        (Session.output out { s with client := { s.client with buffer := rest } }).process delivery
      else (Session.output out { s with client := { s.client with buffer := rest } }, none) := by
  have hread : readInto s.client.buffer inp = (s.client.buffer ++ inp.bytes, none) := by
    rcases hended with h | h <;> simp [readInto, h]
  have hne : inp.bytes.isEmpty = false := by simpa using hbytes
  unfold Session.readRequest
  rw [if_neg (by rw [hclosed]; nofun), hread]
  dsimp only
  rw [if_neg (by rw [hne]; nofun), hsplit]
  dsimp only
  rw [output_eq]

theorem Good.buffer (rest : Bytes) (h : s.Good start late) :
    Good start late { s with client := { s.client with buffer := rest } } := by
  obtain ⟨flushed, parsed, hlate, h⟩ := h
  exact ⟨flushed, parsed, hlate, h.same rfl rfl rfl rfl rfl rfl⟩

theorem Good.output (out : Output) (rest : Bytes) (h : s.Good start late) :
    (Session.output out { s with client := { s.client with buffer := rest } }).Good start
      (lateFrom late s.objects.groupCount out.groups) := by
  obtain ⟨flushed, parsed, hlate, h⟩ := Good.foldl_pushCommand out.groups (h.buffer rest)
  exact ⟨flushed, parsed, hlate, h.same rfl rfl rfl rfl rfl rfl⟩

theorem Good.readRequest {inp : Input} (delivery : Option ConnThrow) (h : s.Good start [])
    (hbytes : inp.bytes ≠ []) (hended : inp.ended = .again ∨ inp.ended = .eof) {rest : Bytes}
    {out : Output} (hsplit : splitClientCommand env (s.client.buffer ++ inp.bytes) inp.guard
      ⟨[], [], s.statsCalls, s.randCalls⟩ = .split rest out)
    (hshort : ∀ kind ∈ out.groups, kind.longConnection = false) :
    (s.readRequest env delivery inp).2 = none ∧ (s.readRequest env delivery inp).1.Good start [] ∧
      (s.readRequest env delivery inp).1.script = s.script := by
  have hgood := lateFrom_short hshort ▸ h.output out rest
  have hscript : (Session.output out { s with client := { s.client with buffer := rest } }).script = s.script := by
    rw [output_eq]
  rw [readRequest_split delivery h.closed hbytes hended hsplit]
  split
  · obtain ⟨hnone, hprocess, hs⟩ := hgood.process delivery fun g hg => hgood.short g (List.mem_of_mem_take hg)
    exact ⟨hnone, hprocess, hs.trans hscript⟩
  · exact ⟨rfl, hgood, hscript⟩

theorem Good.handle {read : Option Input} {write : Bool} (h : s.Good start []) (hq : Quiet s.script)
    (hread : ∀ inp ∈ read, inp.bytes ≠ [] ∧ (inp.ended = .again ∨ inp.ended = .eof) ∧
      ∃ rest out, splitClientCommand env (s.client.buffer ++ inp.bytes) inp.guard
          ⟨[], [], s.statsCalls, s.randCalls⟩ = .split rest out ∧
        ∀ kind ∈ out.groups, kind.longConnection = false) :
    (s.handle env none read write).2 = none ∧ (s.handle env none read write).1.Good start [] := by
  have hfirst : (s.readEvent env none read).2 = none ∧ (s.readEvent env none read).1.Good start [] ∧
      (s.readEvent env none read).1.script = s.script := by
    cases read with
    | none => exact ⟨rfl, h, rfl⟩
    | some inp =>
        obtain ⟨hbytes, hended, rest, out, hsplit, hshort⟩ := hread inp rfl
        exact h.readRequest none hbytes hended hsplit hshort
  unfold Session.handle
  generalize s.readEvent env none read = r at *
  obtain ⟨hnone, hgood, hscript⟩ := hfirst
  have hsecond : (if write then r.1.writeResponse none else (r.1, none)).2 = none ∧
      (if write then r.1.writeResponse none else (r.1, none)).1.Good start [] := by
    split
    · exact hgood.writeResponse none (hscript ▸ hq)
    · exact ⟨rfl, hgood⟩
  rw [andThen_none hnone, hgood.closed, if_neg Bool.false_ne_true]
  generalize (if write then r.1.writeResponse none else (r.1, none)) = r₂ at *
  obtain ⟨hnone₂, hgood₂⟩ := hsecond
  rw [andThen_none hnone₂]
  exact ⟨rfl, hgood₂.same rfl rfl rfl⟩

theorem Good.onEvents {read : Option Input} {write : Option (List WriteAnswer)} (h : s.Good start [])
    (he : s.Enabled env (.onEvents read write)) : (s.next env (.onEvents read write)).Good start [] := by
  obtain ⟨hread, hwrite⟩ := he
  have hgood : Good start [] { s with script := write.getD [] } := h.same rfl rfl rfl
  have hq : Quiet (write.getD []) := by
    cases write with
    | none => nofun
    | some script => exact hwrite script rfl
  obtain ⟨hnone, hhandle⟩ := @Good.handle _ _ env read write.isSome hgood hq hread
  simp only [next, Session.onEvents, Bool.false_eq_true, if_false]
  generalize Session.handle env none read write.isSome { s with script := write.getD [] } = r at *
  rw [hnone]
  exact hhandle

/-! ### Responses -/

/-- One group that has been processed changes. -/
theorem Inv.objects {o : Objects} {g : GroupId} (h : s.Inv start flushed awaiting parsed late)
    (hg : g ∈ awaiting) (hsame : ∀ g' ∈ s.requests start, g' ≠ g → Objects.SameOn s.objects o g')
    (hok : o.GroupOk g) (hshort : o.short g = true) (hgroups : o.groupCount = s.objects.groupCount)
    (hcmds : o.cmdCount = s.objects.cmdCount) :
    Inv start flushed awaiting parsed late
      { s with
        objects := o
        client := { s.client with awaitingCount := (awaiting.filter (o.Pending ·)).length } } := by
  have hnd := h.nodup
  have hgone : ∀ g' ∈ flushed ++ s.client.readyGroups, g' ≠ g := by
    rintro g' hg' rfl
    rw [List.append_assoc, List.append_assoc] at hnd
    exact (List.nodup_append.mp hnd).2.2 g' hg' g' (List.mem_append_left _ hg) rfl
  have hparsed : ∀ g' ∈ parsed ++ late, g' ≠ g := by
    rintro g' hg' rfl
    rw [List.append_assoc] at hnd
    exact (List.nodup_append.mp hnd).2.2 g' (List.mem_append_right _ hg) g' hg' rfl
  have hsub : ∀ g', g' ∈ flushed ++ s.client.readyGroups ++ awaiting ++ parsed ++ late → g' ≠ g →
      Objects.SameOn s.objects o g' :=
    fun g' hg' hne => hsame g' (h.order ▸ hg') hne
  obtain ⟨hdone, hrefs, hoff, hbytes⟩ := h.sameOn fun g' hg' =>
    hsub g' (List.mem_append_left _ (List.mem_append_left _ (List.mem_append_left _ hg'))) (hgone g' hg')
  have hreq : List.range' start (o.groupCount - start) = s.requests start := by
    rw [hgroups]
    rfl
  refine ⟨h.closed, ?_, ?_, ?_, ?_, ?_, ?_, hdone, rfl, hrefs, hoff, hbytes⟩
  · rw [hgroups]
    exact h.start_le
  · rw [requests, hreq]
    exact h.order
  · rw [requests, hreq]
    intro g' hg'
    by_cases hne : g' = g
    · rw [hne]
      exact hok
    · exact (hsame g' hg' hne).groupOk hcmds.ge (h.ok g' hg')
  · intro g' hg'
    by_cases hne : g' = g
    · rw [hne]
      exact hshort
    · exact (hsub g' (List.mem_append_left _ hg') hne).short.trans (h.short g' hg')
  · intro g' hg'
    have hmem := List.mem_of_head? hg'
    exact (hsub g' (List.mem_append_right _ hmem) (hparsed g' (List.mem_append_right _ hmem))).short.trans
      (h.long g' hg')
  · intro g' hg'
    rw [(hsub g' (List.mem_append_left _ (List.mem_append_right _ hg')) (hparsed g' (List.mem_append_left _ hg'))).1]
    exact h.fresh g' hg'

/-- A response completes its group, which then stops counting, or only changes the objects. -/
theorem Good.respond_cases {k : CmdId} {rsp : Bytes} {error : Bool} (h : s.Good start late)
    (he : s.Enabled env (.respond k rsp error)) : ∃ t, t.Good start late ∧
      ((t.client = { s.client with awaitingCount := s.client.awaitingCount - 1 } ∧
          s.next env (.respond k rsp error) = t.pushAwaitingsToReady) ∨
        (t.client = s.client ∧ s.next env (.respond k rsp error) = t)) := by
  obtain ⟨hawaiting, hk, hu⟩ := he
  obtain ⟨flushed, parsed, hlate, h⟩ := h
  obtain ⟨hgroup, -, hresp⟩ := (s.objects.cmds k).onRemoteResponsed_same rsp error
  have hok := h.ok _ (h.mem_requests (List.mem_append_left _ (List.mem_append_right _ hawaiting)))
  have hndup : s.client.awaitingGroups.Nodup :=
    (List.nodup_append.mp (List.nodup_append.mp (List.nodup_append.mp h.nodup).1).1).2.1
  have hshort := h.short _ (List.mem_append_left _ (List.mem_append_right _ hawaiting))
  simp only [next, Session.onRemoteResponsed]
  generalize (s.objects.cmds k).onRemoteResponsed rsp error = r at *
  generalize hgk : (s.objects.cmds k).group = g at *
  split
  · -- the last response
    have hsame : ∀ g' ∈ s.requests start, g' ≠ g →
        Objects.SameOn s.objects (s.objects.respond k r.1).1 g' :=
      fun g' hg' hne => Objects.respond_same (hgroup.trans hgk.symm) (h.ok g' hg') (hgroup ▸ hne)
    obtain ⟨hok', hpend, hnotify⟩ := hok.respond hk hu hgroup
    have hinv := h.objects hawaiting hsame hok' ((congrFun (Objects.Alike.respond s.objects k r.1).short g).trans hshort) rfl rfl
    have hothers : ∀ g' ∈ s.client.awaitingGroups, g' ≠ g →
        ((s.objects.respond k r.1).1.Pending g' ↔ s.objects.Pending g') := fun g' hg' hne =>
      (hsame g' (h.mem_requests (List.mem_append_left _ (List.mem_append_right _ hg'))) hne).pending
    have hcount := h.count
    show ∃ t : Session, t.Good start late ∧ (_ ∧ (if (s.objects.respond k r.1).2 = true then
      Session.groupResponsed { s with objects := (s.objects.respond k r.1).1 }
      else { s with objects := (s.objects.respond k r.1).1 }) = _ ∨ _ ∧
      (if (s.objects.respond k r.1).2 = true then
      Session.groupResponsed { s with objects := (s.objects.respond k r.1).1 }
      else { s with objects := (s.objects.respond k r.1).1 }) = _)
    split
    · rename_i hcalled
      -- it was the last one of the group, which stops counting
      have hoff := Objects.length_filter_off (p := (s.objects.Pending ·))
        (q := ((s.objects.respond k r.1).1.Pending ·)) hndup hawaiting (decide_eq_true hpend)
        (decide_eq_false (hnotify.mp hcalled)) fun g' hg' hne => decide_eq_decide.mpr (hothers g' hg' hne)
      have hgood : Good start late { s with
          objects := (s.objects.respond k r.1).1
          client := { s.client with awaitingCount := s.client.awaitingCount - 1 } } := by
        refine ⟨flushed, parsed, hlate, hinv.same rfl rfl rfl rfl ?_ rfl⟩
        show s.client.awaitingCount - 1 = _
        rw [hcount, hoff, Nat.cast_add, Nat.cast_one, add_sub_cancel_right]
      exact ⟨_, hgood, Or.inl ⟨rfl, rfl⟩⟩
    · rename_i hcalled
      have hstill : (s.objects.respond k r.1).1.Pending g := by
        by_contra hnot
        exact hcalled (hnotify.mpr hnot)
      have hsame : ∀ g' ∈ s.client.awaitingGroups,
          (s.objects.respond k r.1).1.Pending g' ↔ s.objects.Pending g' := by
        intro g' hg'
        by_cases hne : g' = g
        · rw [hne]
          exact iff_of_true hstill hpend
        · exact hothers g' hg' hne
      refine ⟨{ s with objects := (s.objects.respond k r.1).1 },
        ⟨flushed, parsed, hlate, hinv.same rfl rfl rfl rfl ?_ rfl⟩, Or.inr ⟨rfl, rfl⟩⟩
      show s.client.awaitingCount = ((s.client.awaitingGroups.filter _).length : ℤ)
      rw [count_congr hsame]
      exact hcount
  · have hsame : ∀ g' ∈ s.requests start, g' ≠ g → Objects.SameOn s.objects (s.objects.setCmd k r.1) g' := by
      intro g' hg' hne
      refine ⟨rfl, fun j hj => Objects.setCmd_of_ne _ ?_ _⟩
      rintro rfl
      exact hne (((h.ok g' hg').owned j hj).1.symm.trans hgk)
    have hinv := h.objects hawaiting hsame (hok.setCmd (hgroup.trans hgk.symm) hresp) hshort rfl rfl
    exact ⟨({ s with objects := s.objects.setCmd k r.1 } : Session).call (.reactivate k),
      ⟨flushed, parsed, hlate, hinv.same rfl rfl rfl rfl h.count rfl⟩, Or.inr ⟨rfl, rfl⟩⟩

theorem Good.respond {k : CmdId} {rsp : Bytes} {error : Bool} (h : s.Good start late)
    (he : s.Enabled env (.respond k rsp error)) : (s.next env (.respond k rsp error)).Good start late := by
  obtain ⟨t, ht, ⟨-, heq⟩ | ⟨-, heq⟩⟩ := h.respond_cases he
  · rw [heq]
    exact ht.pushAwaitingsToReady.1
  · rw [heq]
    exact ht

theorem good_connected (self : ClientId) (o : Objects) : (connected self o).Good o.groupCount [] := by
  have hreq : (connected self o).requests o.groupCount = [] := by
    rw [requests, show (connected self o).objects.groupCount = o.groupCount from rfl, Nat.sub_self]
    rfl
  refine ⟨[], [], rfl, rfl, le_rfl, hreq.symm, ?_, nofun, nofun, nofun, nofun, rfl, List.nil_suffix, rfl, rfl⟩
  rw [hreq]
  nofun

theorem reachable_good {self : ClientId} {o : Objects} (h : Reachable env (connected self o) s) :
    s.Good o.groupCount [] := by
  induction h with
  | refl => exact good_connected self o
  | @step s e _ he ih =>
      cases e with
      | onEvents read write => exact ih.onEvents he
      | respond k rsp error => exact ih.respond he

/-- Ordered replies, each exactly once: what the socket has taken, and what it has still to
take, are the replies to the first requests in the order of the requests; none of these waits
for a response, and `_awaiting_count` is the number of those in `_awaiting_groups` that do. -/
theorem replies_in_order {self : ClientId} {o : Objects} (h : Reachable env (connected self o) s) :
    (∃ n, s.sent ++ s.client.outputBufferSet.pending s.objects.content =
        (((s.requests o.groupCount).take n).map s.objects.reply).flatten ∧
      ∀ g ∈ (s.requests o.groupCount).take n, ¬ s.objects.Pending g) ∧
    s.client.awaitingCount = (s.client.awaitingGroups.filter (s.objects.Pending ·)).length := by
  obtain ⟨flushed, parsed, -, h⟩ := reachable_good h
  refine ⟨⟨(flushed ++ s.client.readyGroups).length, ?_⟩, h.count⟩
  have htake : (s.requests o.groupCount).take (flushed ++ s.client.readyGroups).length =
      flushed ++ s.client.readyGroups := by
    rw [← h.order, List.append_assoc, List.append_assoc, List.take_left]
  rw [htake]
  exact ⟨h.bytes, h.done⟩

def plainEnv : Env := ⟨true, fun _ => [], fun _ => 0, 0⟩

/-- `GET a` and `PING` are read, the value comes, and the socket takes nine bytes of the
replies. -/
def answered : Session :=
  [.onEvents (some ⟨ascii "*2\r\n$3\r\nGET\r\n$1\r\na\r\n*1\r\n$4\r\nPING\r\n", .again, 0⟩) none,
    .respond 0 (ascii "$1\r\nv\r\n") false, .onEvents none (some [.took 9, .again])].foldl
    (next plainEnv) (connected 0 .empty)

theorem reachable_answered : Reachable plainEnv (connected 0 .empty) answered := by
  rw [answered]
  simp only [List.foldl_cons, List.foldl_nil]
  refine .step (.step (.step .refl ⟨?_, nofun⟩) ?_) ⟨nofun, ?_⟩
  · rintro inp ⟨rfl⟩
    refine ⟨by decide, Or.inl rfl, [], ⟨[.single (.oneSlot (ascii "*2\r\n$3\r\nGET\r\n$1\r\na\r\n") 15495),
      .direct (ascii "+PONG\r\n")], [], 0, 0⟩, by decide +kernel, by decide⟩
  · rw [Enabled]
    decide +kernel
  · rintro script ⟨rfl⟩
    simp [Quiet]

theorem replies_in_order_get_ping :
    ((∃ n, answered.sent ++ answered.client.outputBufferSet.pending answered.objects.content =
        (((answered.requests Objects.empty.groupCount).take n).map answered.objects.reply).flatten ∧
      ∀ g ∈ (answered.requests Objects.empty.groupCount).take n, ¬ answered.objects.Pending g) ∧
    answered.client.awaitingCount = (answered.client.awaitingGroups.filter (answered.objects.Pending ·)).length) ∧
    answered.sent = ascii "$1\r\nv\r\n+P" :=
  ⟨replies_in_order reachable_answered, by decide +kernel⟩

end Session

end Cerberus
