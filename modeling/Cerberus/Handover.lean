import Cerberus.Conversion

/-! # Handing a connection over

A connection from `accept` to its end: a client serves it until a request converts it; after
`SUBSCRIBE` the subscription keeps it, after `BLPOP` or `BRPOP` `restore_client` writes the
response and makes a new client, which starts with empty queues and an empty buffer.

`_process` does not look at what is in front of the request that converts the client or behind
it.  `in_order` says what holds if it finds the client idle, with nothing behind a pop: the
replies to all requests before are written when the connection is handed over, and the replies
go on in order when it has been restored. -/

namespace Cerberus

/-- `BLPOP` and `BRPOP` -/
def CommandGroup.pops : CommandGroup → Bool
  | .blockedPop _ _ => true
  | _ => false

namespace Session

/-- The group of the last call of `deliver_client`. -/
def delivered (s : Session) : Option GroupId :=
  s.calls.reverse.findSome? fun
    | .deliverClient g => some g
    | _ => none

/-- What has been parsed and not been processed. -/
def kinds (s : Session) : List CommandGroup := s.client.parsedGroups.map fun g => (s.objects.groups g).kind

/-- `_process` would not convert the client. -/
def Stays (kinds : List CommandGroup) : Prop := ∀ kind ∈ kinds.take maxPipe, kind.longConnection = false

/-- The first request converts the client, and nothing is behind it if it pops; `buf` is what is
left in the buffer. -/
def Alone (kinds : List CommandGroup) (buf : Bytes) : Prop :=
  ∃ kind rest, kinds = kind :: rest ∧ kind.longConnection = true ∧ (kind.pops = true → rest = [] ∧ buf = [])

/-- A step finds the client idle when it converts it. -/
def Orderly (env : Env) (s : Session) : Step → Prop
  | .read inp _ => ∀ rest out, splitClientCommand env (s.client.buffer ++ inp.bytes) inp.guard
        ⟨[], [], s.statsCalls, s.randCalls⟩ = .split rest out →
      s.client.awaitingGroups ≠ [] ∨ Stays (s.kinds ++ out.groups) ∨
      (s.client.readyGroups = [] ∧ s.client.outputBufferSet.bufArr = [] ∧ Alone (s.kinds ++ out.groups) rest)
  | .write script _ =>
      Stays s.kinds ∨ (s.client.awaitingGroups = [] ∧ Alone s.kinds s.client.buffer) ∨
      (s.client.awaitingCount ≠ 0 ∧ (s.client.outputBufferSet.bufArr = [] ∨
        (s.client.outputBufferSet.writev s.objects.content script).ended ≠ .all))
  | _ => True

/-- The client has been closed for `g`, and the replies to all requests in front of it have been
written; nothing has been read behind a pop. -/
structure HandedOver (start g : ℕ) (s : Session) : Prop where
  closed : s.client.closed = true
  delivered : s.delivered = some g
  start_le : start ≤ g
  built : g < s.objects.groupCount
  ok : ∀ g' ∈ s.requests start, s.objects.GroupOk g'
  done : ∀ g' ∈ List.range' start (g - start), ¬ s.objects.Pending g'
  bytes : s.sent = ((List.range' start (g - start)).map s.objects.reply).flatten
  awaiting : s.client.awaitingGroups = []
  output : s.client.outputBufferSet.bufArr = []
  last : (s.objects.groups g).kind.pops = true →
    s.objects.groupCount = g + 1 ∧ s.client.buffer = []

variable {start : ℕ} {late : List GroupId} {s s' : Session}

/-! ### Idle clients are handed over -/

theorem alone_kinds {buf : Bytes} (h : Alone s.kinds buf) : ∃ g rest, s.client.parsedGroups = g :: rest ∧
    s.objects.short g = false ∧ ((s.objects.groups g).kind.pops = true → rest = [] ∧ buf = []) := by
  obtain ⟨kind, rest, hkinds, hlong, hpop⟩ := h
  obtain ⟨g, gs, hparsed, hkind, hrest⟩ := List.map_eq_cons_iff.mp hkinds
  refine ⟨g, gs, hparsed, ?_, fun hp => ?_⟩
  · rw [Objects.short, hkind, hlong]
    rfl
  · obtain ⟨hnil, hbuf⟩ := hpop (hkind ▸ hp)
    rw [hnil, List.map_eq_nil_iff] at hrest
    exact ⟨hrest, hbuf⟩

theorem stays_kinds (h : Stays s.kinds) : ∀ g ∈ s.client.parsedGroups.take maxPipe, s.objects.short g = true := by
  intro g hg
  have hlong := h _ (by
    rw [kinds, ← List.map_take]
    exact List.mem_map_of_mem hg)
  rw [Objects.short, hlong]
  rfl

theorem Good.process_idle (h : s.Good start late) (hawaiting : s.client.awaitingGroups = [])
    (hready : s.client.readyGroups = []) (hout : s.client.outputBufferSet.bufArr = [])
    (halone : Alone s.kinds s.client.buffer) :
    (s.process none).2 = none ∧ ∃ g, (s.process none).1.HandedOver start g := by
  obtain ⟨g, rest, hparsed, hlong, hpop⟩ := alone_kinds halone
  obtain ⟨flushed, parsed, hlate, h⟩ := h
  have hnil : parsed = [] := by
    cases parsed with
    | nil => rfl
    | cons g' parsed =>
        rw [hparsed] at hlate
        cases hlate
        have hs := h.short g (by simp)
        rw [hlong] at hs
        cases hs
  subst hnil
  have hbatch : s.batch = [] := by
    rw [batch, hparsed, maxPipe, List.take_succ_cons, List.takeWhile_cons_of_neg (by rw [hlong]; exact Bool.false_ne_true)]
  have hconv : s.converts = some g := by
    rw [converts, hparsed, maxPipe, List.take_succ_cons, List.dropWhile_cons_of_neg (by rw [hlong]; exact Bool.false_ne_true)]
    rfl
  have horder := h.order
  rw [hready, hawaiting, List.append_nil, List.append_nil, List.append_nil, ← List.nil_append late, ← hlate,
    hparsed] at horder
  obtain ⟨n, hn, hflushed, htail⟩ := List.range'_eq_append_iff.mp horder.symm
  obtain ⟨hg, hpos, hrest⟩ := List.range'_eq_cons_iff.mp htail.symm
  rw [Nat.mul_one] at hg
  have hlt : start + n < s.objects.groupCount := by
    have hle := h.start_le
    omega
  have hsub : g - start = n := by rw [← hg, Nat.add_sub_cancel_left]
  have hbytes := h.bytes
  rw [BufferSet.pending, hout, hready, List.map_nil, List.flatten_nil, List.drop_nil, List.append_nil,
    List.append_nil, hflushed] at hbytes
  have hdone := h.done
  rw [hready, List.append_nil, hflushed] at hdone
  rw [process_converts none h.closed hconv]
  refine ⟨rfl, g, rfl, ?_, hg ▸ Nat.le_add_right _ _, hg ▸ hlt, h.ok, hsub ▸ hdone, hsub ▸ hbytes, ?_, hout, fun hp => ?_⟩
  · show (s.calls ++ s.batch.flatMap s.objects.selects ++ [ClientCall.deliverClient g]).reverse.findSome? _ = some g
    rw [List.reverse_append]
    rfl
  · show s.client.awaitingGroups ++ s.batch = []
    rw [hawaiting, hbatch]
    rfl
  · obtain ⟨hr, hbuf⟩ := hpop hp
    refine ⟨?_, hbuf⟩
    rw [hr] at hrest
    have hlen := congrArg List.length hrest
    rw [List.length_range', List.length_nil] at hlen
    show s.objects.groupCount = g + 1
    rw [← hg]
    omega

/-! ### Reading -/

theorem Good.start_le (h : s.Good start late) : start ≤ s.objects.groupCount := by
  obtain ⟨flushed, parsed, -, h⟩ := h
  exact h.start_le

theorem Good.mem_queues (h : s.Good start late) {g : ℕ}
    (hg : g ∈ s.client.parsedGroups ++ s.client.awaitingGroups) : start ≤ g ∧ g < s.objects.groupCount := by
  obtain ⟨flushed, parsed, hlate, h⟩ := h
  have hmem : g ∈ s.requests start := by
    rw [← h.order]
    rw [hlate] at hg
    simp only [List.mem_append] at hg ⊢
    tauto
  obtain ⟨i, hi, rfl⟩ := List.mem_range'.mp hmem
  omega

theorem Good.kinds_pushCommand (h : s.Good start late) (kind : CommandGroup) :
    (s.pushCommand kind).kinds = s.kinds ++ [kind] := by
  show (s.client.parsedGroups ++ [s.objects.groupCount]).map _ = _
  rw [List.map_append, List.map_singleton]
  congr 1
  · refine List.map_congr_left fun g hg => ?_
    rw [show (s.pushCommand kind).objects.groups g = s.objects.groups g from
      Function.update_of_ne (h.mem_queues (List.mem_append_left _ hg)).2.ne _ _]
  · rw [show (s.pushCommand kind).objects.groups s.objects.groupCount = _ from Function.update_self ..]

theorem Good.kinds_foldl : ∀ (ks : List CommandGroup) {late : List GroupId} {s : Session},
    s.Good start late → (ks.foldl Session.pushCommand s).kinds = s.kinds ++ ks
  | [], _, s, _ => (List.append_nil s.kinds).symm
  | kind :: ks, late, s, h => by
      have hpush : (s.pushCommand kind).Good start _ := Good.foldl_pushCommand [kind] h
      rw [List.foldl_cons, Good.kinds_foldl ks hpush, h.kinds_pushCommand, List.append_assoc]
      rfl

/-- A read leaves the queues in order, or hands the connection over. -/
theorem Good.read {env : Env} {inp : Input} (h : s.Good start late) (hbytes : inp.bytes ≠ [])
    (hended : inp.ended = .again ∨ inp.ended = .eof) {rest : Bytes} {out : Output}
    (hsplit : splitClientCommand env (s.client.buffer ++ inp.bytes) inp.guard
      ⟨[], [], s.statsCalls, s.randCalls⟩ = .split rest out)
    (horderly : s.Orderly env (.read inp none)) :
    (∃ late', (s.step env (.read inp none)).Good start late') ∨
      ∃ g, (s.step env (.read inp none)).HandedOver start g := by
  have hgood := h.output out rest
  have hkinds : (Session.output out { s with client := { s.client with buffer := rest } }).kinds =
      s.kinds ++ out.groups :=
    Good.kinds_foldl out.groups (h.buffer rest)
  have hclient := congrArg Session.client
    (output_eq out { s with client := { s.client with buffer := rest } })
  have horderly := horderly rest out hsplit
  rw [← hkinds] at horderly
  show (∃ late', (caught (s.readRequest env none inp)).Good start late') ∨
    ∃ g, (caught (s.readRequest env none inp)).HandedOver start g
  rw [readRequest_split none h.closed hbytes hended hsplit]
  generalize Session.output out { s with client := { s.client with buffer := rest } } = t at *
  split
  · rename_i hempty
    rw [List.isEmpty_iff] at hempty
    rcases horderly with hne | hstays | ⟨hready, hout, halone⟩
    · exact absurd hempty hne
    · obtain ⟨hnone, hprocess, -⟩ := hgood.process none (stays_kinds hstays)
      rw [caught, hnone]
      exact Or.inl ⟨_, hprocess⟩
    · have hbuf : t.client.buffer = rest := by rw [hclient]
      obtain ⟨hnone, g, hg⟩ := hgood.process_idle (by rw [hclient]; exact hempty) (by rw [hclient]; exact hready)
        (by rw [hclient]; exact hout) (hbuf.symm ▸ halone)
      rw [caught, hnone]
      exact Or.inr ⟨g, hg⟩
  · exact Or.inl ⟨_, hgood⟩

/-! ### Writing -/

/-- What `_send_buffer_set` does to a client that it does not convert: no group that is complete
is held back then, or what has been parsed is still there. -/
theorem Good.send_stays (h : s.Good start late) (hq : Quiet s.script) (hstays : Stays s.kinds) :
    (s.sendBufferSet none).2 = none ∧ (s.sendBufferSet none).1.Good start late ∧
      Quiet (s.sendBufferSet none).1.script ∧
      ((s.sendBufferSet none).1.Settled ∨ (s.sendBufferSet none).1.kinds = s.kinds) := by
  obtain ⟨r, -, hquiet, ⟨-, -, hgood, heq⟩ | ⟨-, -, hgood, hs, heq⟩⟩ := h.sendBufferSet_cases none hq
  · rw [heq]
    exact ⟨rfl, hgood, hquiet, Or.inr rfl⟩
  · have hclient := (s.wrote r).cleared_client
    have hobjects := (s.wrote r).cleared_objects
    have hkinds : (s.wrote r).cleared.kinds = s.kinds := by
      rw [kinds, kinds, hclient, hobjects]
      rfl
    have hready : (s.wrote r).cleared.client.readyGroups = [] := by rw [hclient]
    rw [heq, allSent_eq]
    split
    · exact ⟨rfl, hgood, hs ▸ hquiet, Or.inr hkinds⟩
    · have hshort := stays_kinds (hkinds.symm ▸ hstays)
      obtain ⟨hnone, hprocess, hscript⟩ := hgood.process none hshort
      refine ⟨hnone, hprocess, ?_, Or.inl (process_settled none hgood.closed hready hshort)⟩
      rw [hscript, hs]
      exact hquiet

theorem kinds_pushAwaitingsToReady (s : Session) : s.pushAwaitingsToReady.kinds = s.kinds := by
  have halike := (moves_pushAwaitingsToReady s).alike
  have hparsed : s.pushAwaitingsToReady.client.parsedGroups = s.client.parsedGroups := by
    by_cases hheld : s.Held
    · rw [pushAwaitingsToReady_of_held hheld]
    · rw [pushAwaitingsToReady_client hheld]
  rw [kinds, kinds, hparsed]
  exact List.map_congr_left fun g _ => halike.kind g

theorem pushAndSend_of_settled {delivery : Option ConnThrow} (h : s.Settled) :
    s.pushAndSend delivery = (s, none) :=
  if_pos (h.imp_left List.isEmpty_iff.mpr)

theorem Good.pushAndSend_stays (h : s.Good start late) (hq : Quiet s.script)
    (hstays : s.Settled ∨ Stays s.kinds) :
    (s.pushAndSend none).2 = none ∧ (s.pushAndSend none).1.Good start late := by
  by_cases hsettled : s.Settled
  · rw [pushAndSend_of_settled hsettled]
    exact ⟨rfl, h⟩
  · obtain ⟨hpush, hs⟩ := h.pushAwaitingsToReady
    obtain ⟨hnone, hgood, -, -⟩ := hpush.send_stays (hs ▸ hq)
      (kinds_pushAwaitingsToReady s ▸ hstays.resolve_left hsettled)
    have heq : s.pushAndSend none = s.pushAwaitingsToReady.sendBufferSet none :=
      if_neg fun hc => hsettled (hc.imp_left List.isEmpty_iff.mp)
    rw [heq]
    exact ⟨hnone, hgood⟩

/-- A write leaves the queues in order, or hands the connection over. -/
theorem Good.writeResponse_orderly (h : s.Good start late) (hq : Quiet s.script)
    (horderly : Stays s.kinds ∨ (s.client.awaitingGroups = [] ∧ Alone s.kinds s.client.buffer) ∨
      (s.client.awaitingCount ≠ 0 ∧ (s.client.outputBufferSet.bufArr = [] ∨
        (s.client.outputBufferSet.writev s.objects.content s.script).ended ≠ .all))) :
    (s.writeResponse none).2 = none ∧
      ((s.writeResponse none).1.Good start late ∨ ∃ g, (s.writeResponse none).1.HandedOver start g) := by
  have hwhole : s.writeResponse none =
      andThen (if s.client.outputBufferSet.empty then (s, none) else s.sendBufferSet none)
        (pushAndSend none) := rfl
  rw [hwhole]
  by_cases hempty : s.client.outputBufferSet.empty = true
  · rw [if_pos hempty, andThen_none rfl]
    have hsettled : s.Settled ∨ Stays s.kinds := by
      rcases horderly with hstays | ⟨hnil, -⟩ | ⟨hcount, -⟩
      · exact Or.inr hstays
      · exact Or.inl (Or.inl hnil)
      · exact Or.inl (Or.inr hcount)
    exact (h.pushAndSend_stays hq hsettled).imp_right Or.inl
  · rw [if_neg hempty]
    rcases horderly with hstays | hrest
    · obtain ⟨hnone, hgood, hquiet, hkinds⟩ := h.send_stays hq hstays
      have hnext : (s.sendBufferSet none).1.Settled ∨ Stays (s.sendBufferSet none).1.kinds := by
        rcases hkinds with hsettled | heq
        · exact Or.inl hsettled
        · exact Or.inr (heq.symm ▸ hstays)
      rw [andThen_none hnone]
      exact (hgood.pushAndSend_stays hquiet hnext).imp_right Or.inl
    · obtain ⟨r, hr, hquiet, ⟨-, -, hgood, heq⟩ | ⟨hend, hset, hgood, hs, heq⟩⟩ := h.sendBufferSet_cases none hq
      · -- the socket has no more room
        have hsettled : (s.wrote r).Settled := by
          rcases hrest with ⟨hnil, -⟩ | ⟨hcount, -⟩
          · exact Or.inl hnil
          · exact Or.inr hcount
        rw [heq, andThen_none rfl, pushAndSend_of_settled hsettled]
        exact ⟨rfl, Or.inl hgood⟩
      · rcases hrest with ⟨hnil, halone⟩ | ⟨-, hnil | hne⟩
        · have hclient := (s.wrote r).cleared_client
          have hkinds : (s.wrote r).cleared.kinds = s.kinds := by
            rw [kinds, kinds, hclient, (s.wrote r).cleared_objects]
            rfl
          have hbuffer : (s.wrote r).cleared.client.buffer = s.client.buffer := by
            rw [hclient]
            rfl
          have hparsed : ¬ (s.wrote r).cleared.client.parsedGroups.isEmpty = true := by
            obtain ⟨g, rest, hp, -⟩ := alone_kinds halone
            rw [hclient]
            show ¬ s.client.parsedGroups.isEmpty = true
            rw [hp]
            nofun
          obtain ⟨hnone, g, hg⟩ := hgood.process_idle (by rw [hclient]; exact hnil) (by rw [hclient])
            (by rw [hclient]; show r.set.bufArr = []; rw [hset]) (hkinds.symm ▸ hbuffer.symm ▸ halone)
          rw [heq, allSent_eq, if_neg hparsed, andThen_none hnone, pushAndSend_of_settled (Or.inl hg.awaiting)]
          exact ⟨rfl, Or.inr ⟨g, hg⟩⟩
        · exact absurd (List.isEmpty_iff.mpr hnil) hempty
        · exact absurd (hr ▸ hend) hne

theorem Good.write {env : Env} {script : List WriteAnswer} (h : s.Good start late) (hq : Quiet script)
    (horderly : s.Orderly env (.write script none)) :
    (s.step env (.write script none)).Good start late ∨
      ∃ g, (s.step env (.write script none)).HandedOver start g := by
  have hgood : Good start late { s with script := script } := h.same rfl rfl rfl
  obtain ⟨hnone, hstep⟩ := hgood.writeResponse_orderly hq horderly
  rw [step, caught, hnone]
  exact hstep

/-! ### Earlier requests -/

theorem caught_objects (r : Session × Option ConnThrow) : (caught r).objects = r.1.objects := by
  unfold caught
  split <;> rfl

/-- The group has been built, and nothing of it has changed. -/
structure Kept (o o' : Objects) (g : GroupId) : Prop where
  groupCount : o.groupCount ≤ o'.groupCount
  cmdCount : o.cmdCount ≤ o'.cmdCount
  same : Objects.SameOn o o' g

theorem Kept.trans {o o' o'' : Objects} {g : GroupId} (h : Kept o o' g) (h' : Kept o' o'' g) : Kept o o'' g :=
  ⟨h.groupCount.trans h'.groupCount, h.cmdCount.trans h'.cmdCount, h.same.trans h'.same⟩

theorem Moves.kept (hm : s.Moves s') {g : GroupId}
    (hg : g ∉ s.client.parsedGroups ++ s.client.awaitingGroups) : Kept s.objects s'.objects g :=
  ⟨hm.alike.groupCount.ge, hm.alike.cmdCount.ge, hm.same g hg⟩

theorem kept_sendBufferSet (delivery : Option ConnThrow) {g : GroupId}
    (hg : g ∉ s.client.parsedGroups ++ s.client.awaitingGroups) :
    Kept s.objects (s.sendBufferSet delivery).1.objects g := by
  have hm := moves_sendBufferSet delivery s
  have hwritten : s.written.objects = s.objects ∧ s.written.client = s.client := by
    unfold written
    split <;> exact ⟨rfl, rfl⟩
  have hkept := @Moves.kept _ _ hm g (by rw [hwritten.2]; exact hg)
  rw [hwritten.1] at hkept
  exact hkept

theorem kept_writeResponse (delivery : Option ConnThrow) (hclosed : s.client.closed = false) {g : GroupId}
    (hg : g ∉ s.client.parsedGroups ++ s.client.awaitingGroups) :
    Kept s.objects (s.writeResponse delivery).1.objects g := by
  have hfirst : s.Moves (if s.client.outputBufferSet.empty then (s, none) else s.sendBufferSet delivery).1 := by
    split
    · exact .of_eq rfl rfl rfl rfl
    · have hm := moves_sendBufferSet delivery s
      rw [written_of_open hclosed] at hm
      exact hm
  unfold Session.writeResponse
  generalize (if s.client.outputBufferSet.empty then (s, none) else s.sendBufferSet delivery) = r at *
  unfold andThen
  split
  · dsimp only
    split
    · exact hfirst.kept hg
    · have hpush := hfirst.trans (moves_pushAwaitingsToReady r.1)
      exact (hpush.kept hg).trans (kept_sendBufferSet delivery fun hmem => hg (hpush.mem hmem))
  · exact hfirst.kept hg

theorem kept_foldl_pushCommand : ∀ (ks : List CommandGroup) {s : Session} {g : ℕ},
    g < s.objects.groupCount → s.objects.GroupOk g →
    Kept s.objects (ks.foldl Session.pushCommand s).objects g
  | [], _, _, _, _ => ⟨le_rfl, le_rfl, .refl _ _⟩
  | kind :: ks, s, g, hlt, hok => by
      have hsame : Objects.SameOn s.objects (s.pushCommand kind).objects g :=
        Objects.build_same s.self kind hlt hok
      have hkept : Kept s.objects (s.pushCommand kind).objects g :=
        ⟨Nat.le_succ _, Nat.le_add_right _ _, hsame⟩
      exact hkept.trans (kept_foldl_pushCommand ks (hlt.trans_le hkept.groupCount)
        (hsame.groupOk hkept.cmdCount hok))

theorem Good.kept_read {env : Env} {inp : Input} (h : s.Good start late) (hbytes : inp.bytes ≠ [])
    (hended : inp.ended = .again ∨ inp.ended = .eof) {rest : Bytes} {out : Output}
    (hsplit : splitClientCommand env (s.client.buffer ++ inp.bytes) inp.guard
      ⟨[], [], s.statsCalls, s.randCalls⟩ = .split rest out) {g : ℕ} (hg : g < start)
    (hok : s.objects.GroupOk g) : Kept s.objects (s.step env (.read inp none)).objects g := by
  have hgood := h.output out rest
  have hout : Kept s.objects
      (Session.output out { s with client := { s.client with buffer := rest } }).objects g :=
    kept_foldl_pushCommand out.groups (s := { s with client := { s.client with buffer := rest } })
      (hg.trans_le h.start_le) hok
  show Kept s.objects (caught (s.readRequest env none inp)).objects g
  rw [readRequest_split none h.closed hbytes hended hsplit]
  generalize Session.output out { s with client := { s.client with buffer := rest } } = t at *
  have hnot : g ∉ t.client.parsedGroups ++ t.client.awaitingGroups :=
    fun hmem => absurd (hgood.mem_queues hmem).1 (Nat.not_le.mpr hg)
  split
  · exact hout.trans (((moves_process none t).trans (moves_caught _)).kept hnot)
  · exact hout

theorem kept_respond {k : CmdId} (rsp : Bytes) (error : Bool)
    (hk : (s.objects.cmds k).group ∈ s.client.awaitingGroups) {g : GroupId}
    (hg : g ∉ s.client.parsedGroups ++ s.client.awaitingGroups) (hok : s.objects.GroupOk g) :
    Kept s.objects (s.onRemoteResponsed k rsp error).objects g := by
  obtain ⟨hgroup, -, -⟩ := (s.objects.cmds k).onRemoteResponsed_same rsp error
  have hne : g ≠ (s.objects.cmds k).group := fun heq => hg (List.mem_append_right _ (heq ▸ hk))
  unfold Session.onRemoteResponsed
  dsimp only
  generalize (s.objects.cmds k).onRemoteResponsed rsp error = r at *
  split
  · have hsame := Objects.respond_same hgroup hok (hgroup ▸ hne)
    have hrespond : Kept s.objects (s.objects.respond k r.1).1 g := ⟨le_rfl, le_rfl, hsame⟩
    unfold Objects.respond at hrespond
    split
    · have hpush := moves_pushAwaitingsToReady { s with
        objects := ((s.objects.setCmd k { r.1 with responsed := true }).commandResponsed r.1.group).1
        client := { s.client with awaitingCount := s.client.awaitingCount - 1 } }
      exact hrespond.trans (hpush.kept hg)
    · exact hrespond
  · refine ⟨le_rfl, le_rfl, rfl, fun j hj => Objects.setCmd_of_ne _ ?_ _⟩
    rintro rfl
    exact hne (hok.owned j hj).1.symm

end Session

/-! ### Connections -/

/-- A connection: the client that serves it, or the one that has been converted, and the number
of its first request; what was written before, and the responses to the pops. -/
structure Line where
  session : Session
  start : ℕ
  written : Bytes
  popped : GroupId → Option Bytes

namespace Line

inductive Event where
  | step (e : Session.Step)
  /-- `restore_client(rsp)` -/
  | restore (rsp : Bytes)

/-- The request that has converted the client. -/
def handed (l : Line) : Option GroupId := if l.session.client.closed then l.session.delivered else none

/-- The reply to a request. -/
def reply (l : Line) (g : GroupId) : Bytes := (l.popped g).getD (l.session.objects.reply g)

/-- A connection that has just been accepted. -/
def accepted (self : ClientId) (o : Objects) : Line :=
  ⟨.connected self o, o.groupCount, [], fun _ => none⟩

def next (env : Env) (l : Line) : Event → Line
  | .step e => { l with session := l.session.step env e }
  | .restore rsp =>
      { session :=
          { Session.connected l.session.self l.session.objects with
            statsCalls := l.session.statsCalls
            randCalls := l.session.randCalls }
        start := l.session.objects.groupCount
        written := l.written ++ l.session.sent ++ rsp
        popped := match l.handed with
          | some g => Function.update l.popped g (some rsp)
          | none => l.popped }

/-- A read finds requests, the socket takes bytes or none, `deliver_client` does not throw, and
only pops are restored; the command belongs to a group that has been processed and has not been
answered. -/
def Enabled (env : Env) (l : Line) : Event → Prop
  | .step .hup => False
  | .step (.read inp delivery) =>
      l.session.client.closed = false ∧ delivery = none ∧ inp.bytes ≠ [] ∧
      (inp.ended = .again ∨ inp.ended = .eof) ∧
      ∃ rest out, splitClientCommand env (l.session.client.buffer ++ inp.bytes) inp.guard
        ⟨[], [], l.session.statsCalls, l.session.randCalls⟩ = .split rest out
  | .step (.write script delivery) => l.session.client.closed = false ∧ delivery = none ∧ Quiet script
  | .step (.respond k _ _) =>
      (l.session.objects.cmds k).group ∈ l.session.client.awaitingGroups ∧
      k ∈ (l.session.objects.groups (l.session.objects.cmds k).group).commands ∧
      (l.session.objects.cmds k).responsed = false
  | .restore _ => ∃ g, l.handed = some g ∧ (l.session.objects.groups g).kind.pops = true

/-- The steps that convert the client find it idle. -/
def Orderly (env : Env) (l : Line) : Event → Prop
  | .step e => l.session.Orderly env e
  | .restore _ => True

/-- The requests of the connection; the first of them is the `first`-th of all. -/
def requests (first : ℕ) (l : Line) : List GroupId := l.session.requests first

/-- What has been written are the replies to the first requests, and no request is lost: when
the connection is handed over all those in front have been answered, and nothing has been read
behind a pop; before that, all that have not been answered are in the queues. -/
structure InOrder (first : ℕ) (l : Line) : Prop where
  replies : ∃ n, l.written ++ l.session.sent ++
      l.session.client.outputBufferSet.pending l.session.objects.content =
        (((l.requests first).take n).map l.reply).flatten ∧
    (∀ g ∈ (l.requests first).take n, ¬ l.session.objects.Pending g) ∧
    (l.handed = none →
      (l.requests first).drop n = l.session.client.awaitingGroups ++ l.session.client.parsedGroups)
  handed : ∀ g, l.handed = some g → g ∈ l.requests first ∧
    (∀ g' ∈ (l.requests first).take (g - first), ¬ l.session.objects.Pending g') ∧
    l.written ++ l.session.sent = (((l.requests first).take (g - first)).map l.reply).flatten ∧
    ((l.session.objects.groups g).kind.pops = true →
      l.session.objects.groupCount = g + 1 ∧ l.session.client.buffer = [])

/-- The invariant: the requests before `start` have been answered. -/
structure Inv (first : ℕ) (l : Line) : Prop where
  first_le : first ≤ l.start
  now : (∃ late, l.session.Good l.start late) ∨ ∃ g, l.session.HandedOver l.start g
  ok : ∀ g, first ≤ g → g < l.start → l.session.objects.GroupOk g ∧ ¬ l.session.objects.Pending g
  written : l.written = ((List.range' first (l.start - first)).map l.reply).flatten
  popped : ∀ g, l.start ≤ g → l.popped g = none

variable {first : ℕ} {l : Line} {env : Env}

/-- The requests before one of the present client, and the others. -/
theorem Inv.requests_split (h : l.Inv first) {g : ℕ} (hle : l.start ≤ g) (hlt : g ≤ l.session.objects.groupCount) :
    (l.requests first).take (g - first) =
        List.range' first (l.start - first) ++ List.range' l.start (g - l.start) ∧
      (l.requests first).drop (g - first) = List.range' g (l.session.objects.groupCount - g) := by
  have hfirst := h.first_le
  have hall : l.session.objects.groupCount - first =
      (l.start - first) + ((g - l.start) + (l.session.objects.groupCount - g)) := by omega
  have hstart : first + 1 * (l.start - first) = l.start := by omega
  have hg : l.start + 1 * (g - l.start) = g := by omega
  have hreq : l.requests first = List.range' first (l.start - first) ++ List.range' l.start (g - l.start) ++
      List.range' g (l.session.objects.groupCount - g) := by
    rw [requests, Session.requests, hall, ← List.range'_append, ← List.range'_append, ← List.append_assoc,
      hstart, hg]
  have hlen : (List.range' first (l.start - first) ++ List.range' l.start (g - l.start)).length = g - first := by
    rw [List.length_append, List.length_range', List.length_range']
    omega
  rw [hreq]
  exact ⟨List.take_left' hlen, List.drop_left' hlen⟩

/-- The replies to them. -/
theorem Inv.replies_take (h : l.Inv first) {g : ℕ} (hle : l.start ≤ g) (hlt : g ≤ l.session.objects.groupCount) :
    (((l.requests first).take (g - first)).map l.reply).flatten =
      l.written ++ ((List.range' l.start (g - l.start)).map l.session.objects.reply).flatten := by
  rw [(h.requests_split hle hlt).1, List.map_append, List.flatten_append, ← h.written]
  congr 2
  refine List.map_congr_left fun g' hg' => ?_
  obtain ⟨i, -, rfl⟩ := List.mem_range'.mp hg'
  rw [reply, h.popped _ (Nat.le_add_right _ _)]
  rfl

theorem Inv.not_pending (h : l.Inv first) {g : ℕ} (hle : l.start ≤ g) (hlt : g ≤ l.session.objects.groupCount)
    (hdone : ∀ g' ∈ List.range' l.start (g - l.start), ¬ l.session.objects.Pending g') :
    ∀ g' ∈ (l.requests first).take (g - first), ¬ l.session.objects.Pending g' := by
  intro g' hg'
  rw [(h.requests_split hle hlt).1] at hg'
  rcases List.mem_append.mp hg' with hg' | hg'
  · obtain ⟨i, hi, rfl⟩ := List.mem_range'.mp hg'
    exact (h.ok _ (by omega) (by omega)).2
  · exact hdone g' hg'

theorem Inv.inOrder (h : l.Inv first) : l.InOrder first := by
  rcases h.now with ⟨late, flushed, parsed, hlate, hg⟩ | ⟨g, hg⟩
  · have hnone : l.handed = none := if_neg (by rw [hg.closed]; nofun)
    refine ⟨?_, fun g hsome => by rw [hnone] at hsome; cases hsome⟩
    have horder := hg.order
    rw [List.append_assoc, List.append_assoc, ← hlate] at horder
    obtain ⟨m, hm, hpre, hpost⟩ := List.range'_eq_append_iff.mp horder.symm
    rw [Nat.mul_one] at hpost
    have hle : l.start + m ≤ l.session.objects.groupCount := by
      have := hg.start_le
      omega
    have htake := h.replies_take (Nat.le_add_right l.start m) hle
    rw [Nat.add_sub_cancel_left, ← hpre, ← hg.bytes, ← List.append_assoc] at htake
    have hdone := hg.done
    rw [hpre] at hdone
    refine ⟨l.start + m - first, htake.symm, ?_, fun _ => ?_⟩
    · exact h.not_pending (Nat.le_add_right _ _) hle (by rw [Nat.add_sub_cancel_left]; exact hdone)
    · rw [(h.requests_split (Nat.le_add_right _ _) hle).2, hpost, Nat.sub_sub]
  · have hsome : l.handed = some g := (if_pos hg.closed).trans hg.delivered
    have htake := h.replies_take hg.start_le hg.built.le
    have hpend := h.not_pending hg.start_le hg.built.le hg.done
    rw [← hg.bytes] at htake
    refine ⟨⟨g - first, ?_, hpend, fun hnone => by rw [hsome] at hnone; cases hnone⟩, ?_⟩
    · rw [htake, BufferSet.pending, hg.output, List.map_nil, List.flatten_nil, List.drop_nil, List.append_nil]
    · rintro g' hg'
      rw [hsome] at hg'
      cases hg'
      refine ⟨?_, hpend, htake.symm, hg.last⟩
      have hle := h.first_le.trans hg.start_le
      have hlt := hg.built
      exact List.mem_range'.mpr ⟨g - first, by omega, by omega⟩

/-! ### Runs -/

/-- A step that keeps the requests before. -/
theorem Inv.step (h : l.Inv first) {t : Session}
    (hnow : (∃ late, t.Good l.start late) ∨ ∃ g, t.HandedOver l.start g)
    (hkept : ∀ g < l.start, l.session.objects.GroupOk g → Session.Kept l.session.objects t.objects g) :
    Inv first { l with session := t } := by
  have hold : ∀ g, first ≤ g → g < l.start → Session.Kept l.session.objects t.objects g :=
    fun g hle hlt => hkept g hlt (h.ok g hle hlt).1
  refine ⟨h.first_le, hnow, fun g hle hlt => ?_, ?_, h.popped⟩
  · obtain ⟨hok, hpend⟩ := h.ok g hle hlt
    have hk := hold g hle hlt
    exact ⟨hk.same.groupOk hk.cmdCount hok, fun hp => hpend (hk.same.pending.mp hp)⟩
  · show l.written = _
    rw [h.written]
    congr 1
    refine List.map_congr_left fun g hg => ?_
    obtain ⟨i, hi, rfl⟩ := List.mem_range'.mp hg
    show (l.popped _).getD _ = (l.popped _).getD _
    rw [(hold _ (by omega) (by omega)).same.reply]

theorem Inv.restore (h : l.Inv first) {g : ℕ} (hg : l.session.HandedOver l.start g)
    (hpop : (l.session.objects.groups g).kind.pops = true) (rsp : Bytes) :
    (l.next env (.restore rsp)).Inv first := by
  obtain ⟨hcount, -⟩ := hg.last hpop
  have hhanded : l.handed = some g := (if_pos hg.closed).trans hg.delivered
  have hle := h.first_le.trans hg.start_le
  have hlt := hg.built
  have hpopped : (l.next env (.restore rsp)).popped = Function.update l.popped g (some rsp) := by
    show (match l.handed with | some g => _ | none => _) = _
    rw [hhanded]
  have hold : ∀ g' : ℕ, first ≤ g' → g' < g →
      l.session.objects.GroupOk g' ∧ ¬ l.session.objects.Pending g' := by
    intro g' hfirst hlt'
    by_cases hstart : g' < l.start
    · exact h.ok g' hfirst hstart
    · have hmem : ∀ n, g' < l.start + n → g' ∈ List.range' l.start n := fun n hn =>
        List.mem_range'.mpr ⟨g' - l.start, by omega, by omega⟩
      have hsum := hg.start_le
      exact ⟨hg.ok g' (hmem _ (by omega)), hg.done g' (hmem _ (by omega))⟩
  refine ⟨?_, Or.inl ⟨[], ?_⟩, ?_, ?_, ?_⟩
  · show first ≤ l.session.objects.groupCount
    omega
  · exact (Session.good_connected l.session.self l.session.objects).same rfl rfl rfl
  · intro g' hfirst hlt'
    by_cases heq : g' = g
    · have hstart := hg.start_le
      have hmem : g ∈ l.session.requests l.start := List.mem_range'.mpr ⟨g - l.start, by omega, by omega⟩
      rw [heq]
      refine ⟨hg.ok g hmem, fun hp => ?_⟩
      have hwait : (l.session.objects.groups g).kind.waitRemote = true := hp.1
      cases hkind : (l.session.objects.groups g).kind <;> rw [hkind] at hpop hwait <;> contradiction
    · exact hold g' hfirst (by
        have : g' < l.session.objects.groupCount := hlt'
        omega)
  · have hreq : List.range' first (l.session.objects.groupCount - first) =
        List.range' first (g - first) ++ [g] := by
      rw [hcount, show g + 1 - first = g - first + 1 by omega, List.range'_concat]
      congr 2
      omega
    have htake : (l.requests first).take (g - first) = List.range' first (g - first) := by
      rw [requests, Session.requests, hreq, List.take_left' (by simp)]
    have hreplies := h.replies_take hg.start_le hlt.le
    rw [htake, ← hg.bytes] at hreplies
    show l.written ++ l.session.sent ++ rsp =
      ((List.range' first (l.session.objects.groupCount - first)).map (l.next env (.restore rsp)).reply).flatten
    rw [← hreplies, hreq, List.map_append, List.flatten_append]
    congr 2
    · refine List.map_congr_left fun g' hg' => ?_
      obtain ⟨i, hi, rfl⟩ := List.mem_range'.mp hg'
      rw [reply, reply, hpopped, Function.update_of_ne (show first + 1 * i ≠ g by omega)]
      rfl
    · rw [List.map_singleton, List.flatten_singleton, reply, hpopped, Function.update_self]
      rfl
  · intro g' hle'
    have hlt' : g < g' := by
      have : l.session.objects.groupCount ≤ g' := hle'
      omega
    rw [hpopped, Function.update_of_ne hlt'.ne']
    exact h.popped g' (hg.start_le.trans hlt'.le)

theorem Inv.next (h : l.Inv first) {e : Event} (he : l.Enabled env e) (horderly : l.Orderly env e) :
    (l.next env e).Inv first := by
  cases e with
  | step e =>
      have hgood : l.session.client.closed = false → ∃ late, l.session.Good l.start late := by
        intro hopen
        rcases h.now with hgood | ⟨g, hg⟩
        · exact hgood
        · have := hg.closed
          rw [hopen] at this
          cases this
      have hnot : ∀ {late}, l.session.Good l.start late → ∀ g < l.start,
          g ∉ l.session.client.parsedGroups ++ l.session.client.awaitingGroups :=
        fun hg g hlt hmem => absurd (hg.mem_queues hmem).1 (Nat.not_le.mpr hlt)
      cases e with
      | hup => exact absurd he id
      | read inp delivery =>
          obtain ⟨hopen, rfl, hbytes, hended, rest, out, hsplit⟩ := he
          obtain ⟨late, hg⟩ := hgood hopen
          refine h.step (hg.read hbytes hended hsplit horderly) fun g hlt hok => ?_
          exact hg.kept_read hbytes hended hsplit hlt hok
      | write script delivery =>
          obtain ⟨hopen, rfl, hq⟩ := he
          obtain ⟨late, hg⟩ := hgood hopen
          refine h.step ((hg.write hq horderly).imp_left fun hg' => ⟨late, hg'⟩) fun g hlt hok => ?_
          have hkept := Session.kept_writeResponse (s := { l.session with script := script }) none hopen
            (hnot hg g hlt)
          rw [← Session.caught_objects] at hkept
          exact hkept
      | respond k rsp error =>
          obtain ⟨hk, hmem, hu⟩ := he
          rcases h.now with ⟨late, hg⟩ | ⟨g, hg⟩
          · refine h.step (Or.inl ⟨late, ?_⟩) fun g hlt hok => ?_
            · exact hg.respond (show l.session.Enabled env (.respond k rsp error) from ⟨hk, hmem, hu⟩)
            · exact Session.kept_respond rsp error hk (hnot hg g hlt) hok
          · rw [hg.awaiting] at hk
            cases hk
  | restore rsp =>
      obtain ⟨g, hhanded, hpop⟩ := he
      rcases h.now with ⟨late, hg⟩ | ⟨g', hg⟩
      · rw [handed, if_neg (by rw [hg.closed]; nofun)] at hhanded
        cases hhanded
      · rw [handed, if_pos hg.closed, hg.delivered] at hhanded
        cases hhanded
        exact h.restore hg hpop rsp


def blpop : Bytes := ascii "*3\r\n$5\r\nBLPOP\r\n$1\r\nk\r\n$1\r\n0\r\n"

def readOf (b : Bytes) : Event := .step (.read ⟨b, .again, 0⟩ none)

/-- `BLPOP` is read, and the response comes. -/
def restored : Line :=
  ((accepted 0 .empty).next Session.plainEnv (readOf blpop)).next Session.plainEnv (.restore (ascii "*-1\r\n"))

/-- `GET a` and `SUBSCRIBE ch`. -/
def subscription : Bytes :=
  ascii "*2\r\n$3\r\nGET\r\n$1\r\na\r\n*2\r\n$9\r\nSUBSCRIBE\r\n$2\r\nch\r\n"

def subscribed : Line := (accepted 0 .empty).next Session.plainEnv (readOf subscription)

end Line

end Cerberus
