import Cerberus.Conversion
import Mathlib.Data.List.Nodup

/-! # The commands a client waits for

A client waits for the commands of the groups in `_awaiting_groups` that have not been answered
(`Objects.due`).  In a call of `on_events` it gives out exactly those by which they have grown, and
it forgets its peers only when there are none (`Plays`).  This holds for every read and every
answer of the socket, whatever the call throws (`Ledger.onEvents`). -/

namespace Cerberus

namespace Objects

/-- Every group is as the code keeps it, and every command is in its group. -/
structure Built (o : Objects) : Prop where
  ok : ∀ g < o.groupCount, o.GroupOk g
  home : ∀ k < o.cmdCount, (o.cmds k).group < o.groupCount ∧ k ∈ (o.groups (o.cmds k).group).commands

/-- The commands of some groups that have not been answered. -/
def due (o : Objects) (gs : List GroupId) : List CmdId :=
  gs.flatMap fun g => (o.groups g).commands.filter fun k => !(o.cmds k).responsed

/-- Requests of a client have been parsed and groups have been appended to its output; what has
been built before is the same but for payloads. -/
structure Grows (c : ClientId) (o o' : Objects) : Prop where
  groupCount : o.groupCount ≤ o'.groupCount
  cmdCount : o.cmdCount ≤ o'.cmdCount
  client : ∀ g < o.groupCount, (o'.groups g).client = (o.groups g).client
  kind : ∀ g < o.groupCount, (o'.groups g).kind = (o.groups g).kind
  commands : ∀ g < o.groupCount, (o'.groups g).commands = (o.groups g).commands
  complete : ∀ g < o.groupCount, (o'.groups g).complete = (o.groups g).complete
  cmds : ∀ k < o.cmdCount, o'.cmds k = o.cmds k
  newGroups : ∀ g < o'.groupCount, o.groupCount ≤ g → (o'.groups g).client = c
  newCmds : ∀ k < o'.cmdCount, o.cmdCount ≤ k → (o'.cmds k).selected = false

/-- What a queue looks at in a group is the same. -/
structure Agrees (o o' : Objects) (g : GroupId) : Prop where
  client : (o'.groups g).client = (o.groups g).client
  kind : (o'.groups g).kind = (o.groups g).kind
  commands : (o'.groups g).commands = (o.groups g).commands
  complete : (o'.groups g).complete = (o.groups g).complete
  responsed : ∀ k ∈ (o.groups g).commands, (o'.cmds k).responsed = (o.cmds k).responsed

variable {c : ClientId} {o o' : Objects} {g : GroupId} {k : CmdId} {gs gs' : List GroupId}

theorem SameOn.agrees (h : SameOn o o' g) : Agrees o o' g := by
  obtain ⟨hg, hk⟩ := h
  exact ⟨by rw [hg], by rw [hg], by rw [hg], by rw [hg], fun k hmem => by rw [hk k hmem]⟩

theorem Agrees.pending (h : Agrees o o' g) : o'.Pending g ↔ o.Pending g := by
  rw [Pending, Pending, h.kind, h.complete]

theorem due_congr (h : ∀ g ∈ gs, Agrees o o' g) : o'.due gs = o.due gs := by
  refine List.flatMap_congr fun g hg => ?_
  rw [(h g hg).commands]
  refine List.filter_congr fun k hk => ?_
  rw [(h g hg).responsed k hk]

theorem built_empty : Built empty := ⟨nofun, nofun⟩

theorem mem_due : k ∈ o.due gs ↔ ∃ g ∈ gs, k ∈ (o.groups g).commands ∧ (o.cmds k).responsed = false := by
  simp only [due, List.mem_flatMap, List.mem_filter, Bool.not_eq_true']

theorem due_append : o.due (gs ++ gs') = o.due gs ++ o.due gs' := List.flatMap_append

theorem Built.group_of_mem (h : o.Built) (hg : g < o.groupCount) (hk : k ∈ (o.groups g).commands) :
    (o.cmds k).group = g ∧ k < o.cmdCount :=
  (h.ok g hg).owned k hk

theorem Built.due_nodup (h : o.Built) (hgs : gs.Nodup) (hlt : ∀ g ∈ gs, g < o.groupCount) :
    (o.due gs).Nodup := by
  refine List.nodup_flatMap.mpr ⟨fun g hg => (h.ok g (hlt g hg)).nodup.filter _, ?_⟩
  refine hgs.imp_of_mem fun {g g'} hg hg' hne => ?_
  refine List.disjoint_left.mpr fun k hk hk' => ?_
  apply hne
  rw [← (h.group_of_mem (hlt g hg) (List.mem_of_mem_filter hk)).1]
  exact (h.group_of_mem (hlt g' hg') (List.mem_of_mem_filter hk')).1

/-- A group without commands of its own waits for nothing. -/
theorem GroupOk.commands_of_not_wait (h : o.GroupOk g) (hw : (o.groups g).kind.waitRemote = false) :
    (o.groups g).commands = [] := by
  have hsize := h.size
  cases hk : (o.groups g).kind <;> rw [hk] at hw hsize
  case direct b => exact List.length_eq_zero_iff.mp hsize
  case subscribe b => exact List.length_eq_zero_iff.mp hsize
  case blockedPop b ks => exact List.length_eq_zero_iff.mp hsize
  all_goals cases hw

/-- Nothing is due of groups none of which is pending. -/
theorem Built.due_eq_nil (h : o.Built) (hlt : ∀ g ∈ gs, g < o.groupCount)
    (hp : ∀ g ∈ gs, ¬ o.Pending g) : o.due gs = [] := by
  refine List.eq_nil_iff_forall_not_mem.mpr fun k hk => ?_
  obtain ⟨g, hg, hmem, hr⟩ := mem_due.mp hk
  have hok := h.ok g (hlt g hg)
  cases hw : (o.groups g).kind.waitRemote with
  | false =>
      rw [hok.commands_of_not_wait hw] at hmem
      cases hmem
  | true =>
      have hc : (o.groups g).complete = true := by
        by_contra hc
        exact hp g hg ⟨hw, by simpa using hc⟩
      rw [hok.responsed hc k hmem] at hr
      cases hr

/-! ### Objects that grow -/

theorem Grows.refl (c : ClientId) (o : Objects) : Grows c o o where
  groupCount := le_rfl
  cmdCount := le_rfl
  client _ _ := rfl
  kind _ _ := rfl
  commands _ _ := rfl
  complete _ _ := rfl
  cmds _ _ := rfl
  newGroups _ hlt hle := absurd hlt (Nat.not_lt.mpr hle)
  newCmds _ hlt hle := absurd hlt (Nat.not_lt.mpr hle)

theorem Grows.trans {o'' : Objects} (h : Grows c o o') (h' : Grows c o' o'') : Grows c o o'' where
  groupCount := h.groupCount.trans h'.groupCount
  cmdCount := h.cmdCount.trans h'.cmdCount
  client g hg := (h'.client g (hg.trans_le h.groupCount)).trans (h.client g hg)
  kind g hg := (h'.kind g (hg.trans_le h.groupCount)).trans (h.kind g hg)
  commands g hg := (h'.commands g (hg.trans_le h.groupCount)).trans (h.commands g hg)
  complete g hg := (h'.complete g (hg.trans_le h.groupCount)).trans (h.complete g hg)
  cmds k hk := (h'.cmds k (hk.trans_le h.cmdCount)).trans (h.cmds k hk)
  newGroups g hlt hle := by
    rcases Nat.lt_or_ge g o'.groupCount with hg | hg
    · rw [h'.client g hg]
      exact h.newGroups g hg hle
    · exact h'.newGroups g hlt hg
  newCmds k hlt hle := by
    rcases Nat.lt_or_ge k o'.cmdCount with hk | hk
    · rw [h'.cmds k hk]
      exact h.newCmds k hk hle
    · exact h'.newCmds k hlt hk

theorem Grows.agrees (h : Grows c o o') (hb : o.Built) (hg : g < o.groupCount) : Agrees o o' g where
  client := h.client g hg
  kind := h.kind g hg
  commands := h.commands g hg
  complete := h.complete g hg
  responsed k hk := by rw [h.cmds k (hb.group_of_mem hg hk).2]

theorem Grows.due (h : Grows c o o') (hb : o.Built) (hlt : ∀ g ∈ gs, g < o.groupCount) :
    o'.due gs = o.due gs :=
  due_congr fun g hg => h.agrees hb (hlt g hg)

/-- The group that is built. -/
theorem build_new (c : ClientId) (kind : CommandGroup) (o : Objects) :
    ((o.build c kind).groups o.groupCount).client = c ∧
      ((o.build c kind).groups o.groupCount).complete = false ∧
      ∀ k ∈ ((o.build c kind).groups o.groupCount).commands, ((o.build c kind).cmds k).responsed = false := by
  have hnew : (o.build c kind).groups o.groupCount = _ := Function.update_self ..
  rw [hnew]
  refine ⟨rfl, rfl, fun k hk => ?_⟩
  obtain ⟨i, hi, rfl⟩ := List.mem_range'.mp hk
  have hcmd : (o.build c kind).cmds (o.cmdCount + 1 * i) = Cmd.new o.groupCount kind.commands[i] := by
    simp [build, hi]
  rw [hcmd]
  rfl

theorem build_grows (c : ClientId) (kind : CommandGroup) (o : Objects) : Grows c o (o.build c kind) := by
  have hold : ∀ g < o.groupCount, (o.build c kind).groups g = o.groups g :=
    fun g hg => Function.update_of_ne hg.ne _ _
  refine ⟨Nat.le_succ _, Nat.le_add_right _ _, ?_, ?_, ?_, ?_, fun k hk => if_pos hk, ?_, ?_⟩
  · intro g hg
    rw [hold g hg]
  · intro g hg
    rw [hold g hg]
  · intro g hg
    rw [hold g hg]
  · intro g hg
    rw [hold g hg]
  · intro g hlt hle
    obtain rfl : g = o.groupCount := Nat.le_antisymm (Nat.lt_succ_iff.mp hlt) hle
    exact (build_new c kind o).1
  · intro k hlt hle
    have hk : k - o.cmdCount < kind.commands.length := by
      have : k < o.cmdCount + kind.commands.length := hlt
      omega
    simp [build, Nat.not_lt.mpr hle, hk, Cmd.new]

theorem Built.build (h : o.Built) (c : ClientId) (kind : CommandGroup) : (o.build c kind).Built := by
  have hnew : (o.build c kind).groups o.groupCount = _ := Function.update_self ..
  refine ⟨fun g hg => ?_, fun k hk => ?_⟩
  · rcases Nat.lt_succ_iff_lt_or_eq.mp hg with hlt | rfl
    · exact (build_same c kind hlt (h.ok g hlt)).groupOk (Nat.le_add_right _ _) (h.ok g hlt)
    · exact build_groupOk o c kind
  · rcases Nat.lt_or_ge k o.cmdCount with hlt | hle
    · obtain ⟨hg, hmem⟩ := h.home k hlt
      rw [(build_grows c kind o).cmds k hlt, (build_grows c kind o).commands _ hg]
      exact ⟨hg.trans (Nat.lt_succ_self _), hmem⟩
    · have hk' : k - o.cmdCount < kind.commands.length := by
        have : k < o.cmdCount + kind.commands.length := hk
        omega
      have hgroup : ((o.build c kind).cmds k).group = o.groupCount := by
        simp [Objects.build, Nat.not_lt.mpr hle, hk', Cmd.new]
      rw [hgroup, hnew]
      refine ⟨Nat.lt_succ_self _, ?_⟩
      exact List.mem_range'.mpr ⟨k - o.cmdCount, hk', by omega⟩

theorem appendBufferTo_grows (c : ClientId) (g : GroupId) (o : Objects) :
    Grows c o (o.appendBufferTo g).1 := by
  have halike := Alike.appendBufferTo g o
  refine ⟨halike.groupCount.ge, halike.cmdCount.ge, fun g' _ => halike.client g', fun g' _ => halike.kind g',
    fun g' _ => halike.commands g', fun g' _ => appendBufferTo_complete g g' o,
    fun k _ => by rw [(appendBufferTo_cmds g o).1], fun g' hlt hle => ?_, fun k hlt hle => ?_⟩
  · exact absurd (halike.groupCount ▸ hlt) (Nat.not_lt.mpr hle)
  · exact absurd (halike.cmdCount ▸ hlt) (Nat.not_lt.mpr hle)

theorem Built.appendBufferTo (h : o.Built) (g : GroupId) : (o.appendBufferTo g).1.Built := by
  have halike := Alike.appendBufferTo g o
  refine ⟨fun g' hg' => (h.ok g' (halike.groupCount ▸ hg')).appendBufferTo, fun k hk => ?_⟩
  rw [(appendBufferTo_cmds g o).1, halike.groupCount, halike.commands]
  exact h.home k (halike.cmdCount ▸ hk)

theorem Built.appendBuffersTo : ∀ (gs : List GroupId) {o : Objects}, o.Built → (o.appendBuffersTo gs).Built
  | [], _, h => h
  | g :: gs, _, h => Built.appendBuffersTo gs (h.appendBufferTo g)

theorem appendBuffersTo_grows (c : ClientId) : ∀ (gs : List GroupId) (o : Objects),
    Grows c o (o.appendBuffersTo gs)
  | [], o => .refl c o
  | g :: gs, o => (appendBufferTo_grows c g o).trans (appendBuffersTo_grows c gs _)

end Objects

namespace Session

/-! ### The calls of a client -/

/-- Played one after the other, the calls make the commands that are due from `q` into `d`; the
peers are cleared only when none is due, and no command takes another step. -/
def Plays : List ClientCall → List CmdId → List CmdId → Prop
  | [], q, d => q = d
  | .selectServer k :: cs, q, d => Plays cs (q ++ [k]) d
  | .clearPeers :: cs, q, d => q = [] ∧ Plays cs q d
  | .reactivate _ :: _, _, _ => False
  | _ :: cs, q, d => Plays cs q d

/-- The commands that are given to `select_server`. -/
def selected (cs : List ClientCall) : List CmdId :=
  cs.filterMap fun
    | .selectServer k => some k
    | _ => none

theorem plays_append : ∀ {cs cs' : List ClientCall} {q m d : List CmdId}, Plays cs q m → Plays cs' m d →
    Plays (cs ++ cs') q d
  | [], _, _, _, _, rfl, h' => h'
  | a :: cs, cs', q, m, d, h, h' => by
      cases a with
      | selectServer k => exact @plays_append cs _ _ _ _ h h'
      | clearPeers => exact ⟨h.1, @plays_append cs _ _ _ _ h.2 h'⟩
      | reactivate k => exact h.elim
      | wakePeers => exact @plays_append cs _ _ _ _ h h'
      | pollRo => exact @plays_append cs _ _ _ _ h h'
      | pollRw => exact @plays_append cs _ _ _ _ h h'
      | deliverClient g => exact @plays_append cs _ _ _ _ h h'
      | effect e => exact @plays_append cs _ _ _ _ h h'
      | badDescriptor => exact @plays_append cs _ _ _ _ h h'

theorem Plays.eq : ∀ {cs : List ClientCall} {q d : List CmdId}, Plays cs q d → d = q ++ selected cs
  | [], _, _, rfl => (List.append_nil _).symm
  | a :: cs, q, d, h => by
      cases a with
      | selectServer k =>
          rw [@Plays.eq cs _ _ h, List.append_assoc]
          rfl
      | clearPeers => exact @Plays.eq cs _ _ h.2
      | reactivate k => exact h.elim
      | wakePeers => exact @Plays.eq cs _ _ h
      | pollRo => exact @Plays.eq cs _ _ h
      | pollRw => exact @Plays.eq cs _ _ h
      | deliverClient g => exact @Plays.eq cs _ _ h
      | effect e => exact @Plays.eq cs _ _ h
      | badDescriptor => exact @Plays.eq cs _ _ h

theorem plays_map_selectServer : ∀ (ks q : List CmdId), Plays (ks.map .selectServer) q (q ++ ks)
  | [], q => (List.append_nil q).symm
  | k :: ks, q => by
      have h := plays_map_selectServer ks (q ++ [k])
      rw [List.append_assoc] at h
      exact h

theorem plays_effects : ∀ (es : List Effect) (q : List CmdId), Plays (es.map .effect) q q
  | [], _ => rfl
  | _ :: es, q => plays_effects es q

/-! ### The queues of a client -/

/-- The groups a client has not answered: each is in one queue once and belongs to it, those
that are parsed have no responses, and `_awaiting_count` is the number of those that wait. -/
structure Tidy (c : ClientId) (o : Objects) (x : Client) : Prop where
  nodup : (x.awaitingGroups ++ x.parsedGroups).Nodup
  mine : ∀ g ∈ x.awaitingGroups ++ x.parsedGroups, g < o.groupCount ∧ (o.groups g).client = c
  fresh : ∀ g ∈ x.parsedGroups, (o.groups g).complete = false ∧
    ∀ k ∈ (o.groups g).commands, (o.cmds k).responsed = false
  count : x.awaitingCount = (x.awaitingGroups.filter (o.Pending ·)).length

theorem tidy_new (c : ClientId) (o : Objects) : Tidy c o .new :=
  ⟨List.nodup_nil, nofun, nofun, rfl⟩

section
variable {c : ClientId} {o o' : Objects} {x : Client}

theorem Tidy.awaiting_lt (h : Tidy c o x) : ∀ g ∈ x.awaitingGroups, g < o.groupCount :=
  fun g hg => (h.mine g (List.mem_append_left _ hg)).1

theorem Tidy.due_nodup (h : Tidy c o x) (hb : o.Built) : (o.due x.awaitingGroups).Nodup :=
  hb.due_nodup (List.nodup_append.mp h.nodup).1 h.awaiting_lt

theorem Tidy.of_due (h : Tidy c o x) (hb : o.Built) {k : CmdId} (hk : k ∈ o.due x.awaitingGroups) :
    (o.groups (o.cmds k).group).client = c ∧ k < o.cmdCount ∧ (o.cmds k).group < o.groupCount ∧
      (o.cmds k).responsed = false := by
  obtain ⟨g, hg, hmem, hr⟩ := Objects.mem_due.mp hk
  obtain ⟨hlt, hmine⟩ := h.mine g (List.mem_append_left _ hg)
  obtain ⟨rfl, hkc⟩ := hb.group_of_mem hlt hmem
  exact ⟨hmine, hkc, hlt, hr⟩

theorem Tidy.congr (h : Tidy c o x) (hlt : o.groupCount ≤ o'.groupCount)
    (ha : ∀ g ∈ x.awaitingGroups ++ x.parsedGroups, Objects.Agrees o o' g) : Tidy c o' x := by
  refine ⟨h.nodup, fun g hmem => ?_, fun g hmem => ?_, ?_⟩
  · rw [(ha g hmem).client]
    exact ⟨(h.mine g hmem).1.trans_le hlt, (h.mine g hmem).2⟩
  · have hg := ha g (List.mem_append_right _ hmem)
    rw [hg.complete, hg.commands]
    refine ⟨(h.fresh g hmem).1, fun k hk => ?_⟩
    rw [hg.responsed k hk]
    exact (h.fresh g hmem).2 k hk
  · rw [h.count, List.filter_congr fun g hmem =>
      decide_eq_decide.mpr (ha g (List.mem_append_left _ hmem)).pending.symm]

/-- The requests of a client do not touch the queues of others. -/
theorem Tidy.grows {c' : ClientId} (h : Tidy c o x) (hb : o.Built) (hg : Objects.Grows c' o o') :
    Tidy c o' x :=
  h.congr hg.groupCount fun g hmem => hg.agrees hb (h.mine g hmem).1

theorem Tidy.not_pending (h : Tidy c o x) (h0 : x.awaitingCount = 0) :
    ∀ g ∈ x.awaitingGroups, ¬ o.Pending g := by
  have hcount := h.count
  rw [h0] at hcount
  have hnil := List.length_eq_zero_iff.mp (Int.ofNat_eq_zero.mp hcount.symm)
  intro g hg
  simpa using List.filter_eq_nil_iff.mp hnil g hg

end

/-- The client has come from `s₀`. -/
structure Ledger (s s₀ : Session) : Prop where
  self : s.self = s₀.self
  peers : s.client.peers = s₀.client.peers
  built : s.objects.Built
  grows : Objects.Grows s.self s₀.objects s.objects
  tidy : Tidy s.self s.objects s.client
  plays : Plays s.calls (s₀.objects.due s₀.client.awaitingGroups) (s.objects.due s.client.awaitingGroups)

variable {s₀ s s' : Session}

theorem Ledger.same (h : s.Ledger s₀) (hself : s'.self = s.self) (ho : s'.objects = s.objects)
    (hpeers : s'.client.peers = s.client.peers) (hp : s'.client.parsedGroups = s.client.parsedGroups)
    (ha : s'.client.awaitingGroups = s.client.awaitingGroups)
    (hn : s'.client.awaitingCount = s.client.awaitingCount) (hc : s'.calls = s.calls) : s'.Ledger s₀ := by
  refine ⟨hself.trans h.self, hpeers.trans h.peers, ho ▸ h.built, ?_, ⟨?_, ?_, ?_, ?_⟩, ?_⟩
  · rw [hself, ho]
    exact h.grows
  · rw [ha, hp]
    exact h.tidy.nodup
  · rw [ha, hp, ho, hself]
    exact h.tidy.mine
  · rw [hp, ho]
    exact h.tidy.fresh
  · rw [hn, ha, ho]
    exact h.tidy.count
  · rw [hc, ho, ha]
    exact h.plays

/-- A call that is neither `select_server` nor the loss of the peers. -/
theorem Ledger.call (h : s.Ledger s₀) {a : ClientCall}
    (ha : ∀ d, Plays [a] d d) : (s.call a).Ledger s₀ :=
  ⟨h.self, h.peers, h.built, h.grows, h.tidy, plays_append h.plays (ha _)⟩

theorem Ledger.close (h : s.Ledger s₀) : s.close.Ledger s₀ := h.same rfl rfl rfl rfl rfl rfl rfl

theorem Ledger.buffer (h : s.Ledger s₀) (buf : Bytes) :
    Ledger { s with client := { s.client with buffer := buf } } s₀ :=
  h.same rfl rfl rfl rfl rfl rfl rfl

theorem Ledger.pushCommand (h : s.Ledger s₀) (kind : CommandGroup) : (s.pushCommand kind).Ledger s₀ := by
  have hgrows := Objects.build_grows s.self kind s.objects
  obtain ⟨hclient, hfresh⟩ := Objects.build_new s.self kind s.objects
  have htidy := h.tidy.grows h.built hgrows
  refine ⟨h.self, h.peers, h.built.build s.self kind, h.grows.trans hgrows, ⟨?_, ?_, ?_, htidy.count⟩, ?_⟩
  · show (s.client.awaitingGroups ++ (s.client.parsedGroups ++ [s.objects.groupCount])).Nodup
    rw [← List.append_assoc]
    refine List.nodup_append.mpr ⟨h.tidy.nodup, List.nodup_singleton _, fun g hg g' hg' => ?_⟩
    rw [List.mem_singleton.mp hg']
    exact ((h.tidy.mine g hg).1).ne
  · intro g hg
    rw [show (s.pushCommand kind).client.awaitingGroups ++ (s.pushCommand kind).client.parsedGroups =
      (s.client.awaitingGroups ++ s.client.parsedGroups) ++ [s.objects.groupCount] from
        (List.append_assoc _ _ _).symm] at hg
    rcases List.mem_append.mp hg with hg | hg
    · exact htidy.mine g hg
    · rw [List.mem_singleton.mp hg]
      exact ⟨Nat.lt_succ_self _, hclient⟩
  · intro g hg
    rcases List.mem_append.mp hg with hg | hg
    · exact htidy.fresh g hg
    · rw [List.mem_singleton.mp hg]
      exact hfresh
  · show Plays s.calls _ ((s.objects.build s.self kind).due s.client.awaitingGroups)
    rw [hgrows.due h.built h.tidy.awaiting_lt]
    exact h.plays

theorem Ledger.foldl_pushCommand : ∀ (kinds : List CommandGroup) {s : Session}, s.Ledger s₀ →
    (kinds.foldl Session.pushCommand s).Ledger s₀
  | [], _, h => h
  | kind :: kinds, _, h => Ledger.foldl_pushCommand kinds (h.pushCommand kind)

theorem Ledger.output (h : s.Ledger s₀) (out : Output) : (s.output out).Ledger s₀ := by
  have hf := Ledger.foldl_pushCommand out.groups h
  exact ⟨hf.self, hf.peers, hf.built, hf.grows, hf.tidy, plays_append hf.plays (plays_effects _ _)⟩

/-! ### Groups that are processed and answered -/

theorem plays_selects : ∀ (gs : List GroupId) (d : List CmdId) {o : Objects},
    (∀ g ∈ gs, o.GroupOk g ∧ ∀ k ∈ (o.groups g).commands, (o.cmds k).responsed = false) →
    Plays (gs.flatMap o.selects) d (d ++ o.due gs)
  | [], d, _, _ => (List.append_nil d).symm
  | g :: gs, d, o, h => by
      obtain ⟨hok, hfresh⟩ := h g List.mem_cons_self
      have hdue : o.due (g :: gs) = (o.groups g).commands ++ o.due gs := by
        rw [Objects.due, List.flatMap_cons, List.filter_eq_self.mpr fun k hk => by rw [hfresh k hk]; rfl]
        rfl
      have hrest := plays_selects gs (d ++ (o.groups g).commands) fun g' hg' => h g' (List.mem_cons_of_mem _ hg')
      rw [List.flatMap_cons, hdue, ← List.append_assoc]
      refine plays_append ?_ hrest
      unfold Objects.selects
      cases hw : (o.groups g).kind.waitRemote with
      | true => exact plays_map_selectServer _ d
      | false =>
          rw [hok.commands_of_not_wait hw, List.append_nil]
          rfl

/-- `_process` takes some of the parsed groups. -/
theorem Ledger.moveOn (h : s.Ledger s₀) {gs rest : List GroupId} (hp : s.client.parsedGroups = gs ++ rest) :
    Ledger { s with
      client := { s.client with
        parsedGroups := rest
        awaitingCount := s.client.awaitingCount +
          (gs.filter fun g => (s.objects.groups g).kind.waitRemote).length
        awaitingGroups := s.client.awaitingGroups ++ gs }
      calls := s.calls ++ gs.flatMap s.objects.selects } s₀ := by
  have hmem : ∀ g ∈ gs, g ∈ s.client.parsedGroups := fun g hg => hp ▸ List.mem_append_left _ hg
  have happ : (s.client.awaitingGroups ++ gs) ++ rest = s.client.awaitingGroups ++ s.client.parsedGroups := by
    rw [hp, List.append_assoc]
  refine ⟨h.self, h.peers, h.built, h.grows, ⟨?_, ?_, ?_, ?_⟩, ?_⟩
  · show ((s.client.awaitingGroups ++ gs) ++ rest).Nodup
    rw [happ]
    exact h.tidy.nodup
  · show ∀ g ∈ (s.client.awaitingGroups ++ gs) ++ rest, _
    rw [happ]
    exact h.tidy.mine
  · exact fun g hg => h.tidy.fresh g (hp ▸ List.mem_append_right _ hg)
  · show s.client.awaitingCount + _ = (((s.client.awaitingGroups ++ gs).filter (s.objects.Pending ·)).length : ℤ)
    have hwait : gs.filter (s.objects.Pending ·) = gs.filter fun g => (s.objects.groups g).kind.waitRemote := by
      refine List.filter_congr fun g hg => ?_
      simp [Objects.Pending, (h.tidy.fresh g (hmem g hg)).1]
    rw [List.filter_append, List.length_append, hwait, h.tidy.count]
    push_cast
    rfl
  · show Plays (s.calls ++ gs.flatMap s.objects.selects) _ (s.objects.due (s.client.awaitingGroups ++ gs))
    rw [Objects.due_append]
    refine plays_append h.plays (plays_selects gs _ fun g hg => ⟨?_, (h.tidy.fresh g (hmem g hg)).2⟩)
    exact h.built.ok g (h.tidy.mine g (List.mem_append_right _ (hmem g hg))).1

theorem Ledger.pushAwaitingsToReady (h : s.Ledger s₀) : s.pushAwaitingsToReady.Ledger s₀ := by
  unfold Session.pushAwaitingsToReady
  split
  · exact h
  · rename_i hc
    rw [not_or, ne_eq, not_not] at hc
    have hgrows := Objects.appendBuffersTo_grows s.self s.client.awaitingGroups s.objects
    have htidy := h.tidy.grows h.built hgrows
    have hnil := h.built.due_eq_nil h.tidy.awaiting_lt (h.tidy.not_pending hc.1)
    have hplays := h.plays
    rw [hnil] at hplays
    have hdone : Ledger { s with
        objects := s.objects.appendBuffersTo s.client.awaitingGroups
        client := { s.client with awaitingGroups := [] } } s₀ := by
      refine ⟨h.self, h.peers, h.built.appendBuffersTo _, h.grows.trans hgrows, ⟨?_, ?_, htidy.fresh, hc.1⟩, hplays⟩
      · exact (List.nodup_append.mp h.tidy.nodup).2.1
      · exact fun g hg => htidy.mine g (List.mem_append_right _ hg)
    rw [appendAll_eq]
    dsimp only
    split
    · exact hdone.same rfl rfl rfl rfl rfl rfl rfl
    · refine Ledger.call (a := .pollRw) ?_ fun _ => rfl
      exact hdone.same rfl rfl rfl rfl rfl rfl rfl

/-- The groups in front of the one that converts the client, and the rest. -/
theorem converts_split {g : GroupId} (hg : s.converts = some g) :
    s.client.parsedGroups = s.batch ++ s.client.parsedGroups.dropWhile (· ≠ g) := by
  obtain ⟨t, ht⟩ := List.head?_eq_some_iff.mp hg
  have hsplit : s.client.parsedGroups = s.batch ++ g :: (t ++ s.client.parsedGroups.drop maxPipe) := by
    conv_lhs => rw [← List.take_append_drop maxPipe s.client.parsedGroups,
      ← List.takeWhile_append_dropWhile (p := s.objects.short) (l := s.client.parsedGroups.take maxPipe), ht]
    rw [List.append_assoc]
    rfl
  have hlong : s.objects.short g = false := by
    have hne : (s.client.parsedGroups.take maxPipe).dropWhile s.objects.short ≠ [] := by
      rw [ht]
      nofun
    have := List.head_dropWhile_not s.objects.short hne
    simpa [ht] using this
  have hbatch : ∀ g' ∈ s.batch, g' ≠ g := by
    rintro g' hg' rfl
    rw [(mem_batch hg').2] at hlong
    cases hlong
  conv_rhs => rw [hsplit, List.dropWhile_append_of_pos (by simpa using hbatch)]
  rw [List.dropWhile_cons_of_neg (by simp)]
  exact hsplit

theorem Ledger.process (delivery : Option ConnThrow) (h : s.Ledger s₀) :
    (s.process delivery).1.Ledger s₀ := by
  cases hclosed : s.client.closed with
  | true =>
      rw [Session.process, if_pos hclosed]
      exact h
  | false =>
      cases hg : s.converts with
      | some g =>
          have hconv : (s.converted g).Ledger s₀ := by
            have := (h.moveOn (converts_split hg)).call (a := .deliverClient g) fun _ => rfl
            exact this.same rfl rfl rfl rfl rfl rfl rfl
          rw [process_converts delivery hclosed hg]
          dsimp only
          split
          · exact hconv.close
          · exact hconv
      | none =>
          have htaken : s.taken.Ledger s₀ :=
            (h.moveOn (List.take_append_drop maxPipe _).symm).same rfl rfl rfl rfl rfl rfl rfl
          rw [process_takes delivery hclosed hg]
          split
          · exact htaken.call fun _ => rfl
          · exact htaken.pushAwaitingsToReady

/-! ### Calls of `on_events` -/

theorem Ledger.cleared (h : s.Ledger s₀) : s.cleared.Ledger s₀ := by
  unfold Session.cleared
  dsimp only
  split
  · rename_i hnil
    have hplays := h.plays
    rw [List.isEmpty_iff.mp hnil] at hplays
    refine ⟨h.self, h.peers, h.built, h.grows, ⟨h.tidy.nodup, h.tidy.mine, h.tidy.fresh, h.tidy.count⟩, ?_⟩
    show Plays (s.calls ++ [.clearPeers]) _ (s.objects.due s.client.awaitingGroups)
    rw [List.isEmpty_iff.mp hnil]
    exact plays_append hplays ⟨rfl, rfl⟩
  · exact h.same rfl rfl rfl rfl rfl rfl rfl

theorem Ledger.allSent (delivery : Option ConnThrow) (h : s.Ledger s₀) :
    (s.allSent delivery).1.Ledger s₀ := by
  rw [allSent_eq]
  split
  · exact h.cleared
  · exact h.cleared.process delivery

theorem Ledger.sendBufferSet (delivery : Option ConnThrow) (h : s.Ledger s₀) :
    (s.sendBufferSet delivery).1.Ledger s₀ := by
  have htouch : (if s.client.closed ∧ ¬ s.client.outputBufferSet.empty then s.call .badDescriptor else s).Ledger s₀ := by
    split
    · exact h.call fun _ => rfl
    · exact h
  unfold Session.sendBufferSet
  dsimp only
  generalize (if s.client.closed ∧ ¬ s.client.outputBufferSet.empty then s.call .badDescriptor else s) = t at *
  generalize s.client.outputBufferSet.writev s.objects.content _ = r
  have hwrote : (t.wrote r).Ledger s₀ := htouch.same rfl rfl rfl rfl rfl rfl rfl
  cases r.ended with
  | threw e => exact hwrote
  | blocked => exact hwrote
  | all => exact hwrote.allSent delivery

theorem Ledger.andThen {r : Session × Option ConnThrow} {f : Session → Session × Option ConnThrow}
    (h : r.1.Ledger s₀) (hf : ∀ s : Session, s.Ledger s₀ → (f s).1.Ledger s₀) :
    (Session.andThen r f).1.Ledger s₀ := by
  unfold Session.andThen
  split
  · exact hf _ h
  · exact h

theorem Ledger.writeResponse (delivery : Option ConnThrow) (h : s.Ledger s₀) :
    (s.writeResponse delivery).1.Ledger s₀ := by
  refine Ledger.andThen ?_ fun t ht => ?_
  · split
    · exact h
    · exact h.sendBufferSet delivery
  · split
    · exact ht
    · exact ht.pushAwaitingsToReady.sendBufferSet delivery

theorem Ledger.readRequest (env : Env) (delivery : Option ConnThrow) (inp : Input) (h : s.Ledger s₀) :
    (s.readRequest env delivery inp).1.Ledger s₀ := by
  unfold Session.readRequest
  split
  · exact h.call fun _ => rfl
  · split
    · exact h.same rfl rfl rfl rfl rfl rfl rfl
    · split
      · exact h.same rfl rfl rfl rfl rfl rfl rfl
      · split
        · exact (h.buffer _).output _
        · rename_i rest out _
          have hout := (h.buffer rest).output out
          dsimp only
          split
          · exact hout.process delivery
          · exact hout

theorem Ledger.handle (env : Env) (delivery : Option ConnThrow) (read : Option Input) (write : Bool)
    (h : s.Ledger s₀) : (s.handle env delivery read write).1.Ledger s₀ := by
  refine Ledger.andThen ?_ fun t ht => ?_
  · cases read with
    | none => exact h
    | some inp => exact h.readRequest env delivery inp
  · split
    · exact ht
    · refine Ledger.andThen ?_ fun u hu => ?_
      · split
        · exact ht.writeResponse delivery
        · exact ht
      · split
        · exact hu.call fun _ => rfl
        · exact hu.call fun _ => rfl

/-- A client gives out the commands it begins to wait for, and forgets its peers only when it
waits for none. -/
theorem Ledger.onEvents (env : Env) (delivery : Option ConnThrow) (hup : Bool) (read : Option Input)
    (write : Bool) (h : s.Ledger s₀) : (s.onEvents env delivery hup read write).1.Ledger s₀ := by
  have hhandle := h.handle env delivery read write
  unfold Session.onEvents
  split
  · exact h.close
  · dsimp only
    split
    · exact hhandle.close
    · exact hhandle.close
    · exact hhandle

end Session

/-! ### Responses -/

namespace Objects

variable {o : Objects} {g : GroupId} {k : CmdId} {v : Cmd}

theorem setCmd_responsed (hr : v.responsed = (o.cmds k).responsed) (j : CmdId) :
    ((o.setCmd k v).cmds j).responsed = (o.cmds j).responsed := by
  by_cases hj : j = k
  · rw [hj, setCmd_self, hr]
  · rw [setCmd_of_ne o hj]

theorem setCmd_group (hg : v.group = (o.cmds k).group) (j : CmdId) :
    ((o.setCmd k v).cmds j).group = (o.cmds j).group := by
  by_cases hj : j = k
  · rw [hj, setCmd_self, hg]
  · rw [setCmd_of_ne o hj]

theorem agrees_setCmd (hr : v.responsed = (o.cmds k).responsed) (g : GroupId) : Agrees o (o.setCmd k v) g :=
  ⟨rfl, rfl, rfl, rfl, fun j _ => setCmd_responsed hr j⟩

theorem Built.setCmd (h : o.Built) (hg : v.group = (o.cmds k).group)
    (hr : v.responsed = (o.cmds k).responsed) : (o.setCmd k v).Built := by
  refine ⟨fun g' hg' => (h.ok g' hg').setCmd hg hr, fun j hj => ?_⟩
  rw [setCmd_group hg]
  exact h.home j hj

/-- What the last response to a command changes. -/
theorem respond_cmds (hg : v.group = (o.cmds k).group) (j : CmdId) :
    ((o.respond k v).1.cmds j).group = (o.cmds j).group ∧
      (j ≠ k → (o.respond k v).1.cmds j = o.cmds j) ∧
      (j = k → ((o.respond k v).1.cmds j) = { v with responsed := true }) := by
  refine ⟨setCmd_group (v := { v with responsed := true }) hg j, fun hj => setCmd_of_ne o hj _, fun hj => ?_⟩
  rw [hj]
  exact setCmd_self ..

theorem Built.respond (h : o.Built) (hk : k ∈ (o.groups (o.cmds k).group).commands)
    (hlt : (o.cmds k).group < o.groupCount) (hu : (o.cmds k).responsed = false)
    (hg : v.group = (o.cmds k).group) : (o.respond k v).1.Built := by
  have halike := Alike.respond o k v
  refine ⟨fun g' hg' => ?_, fun j hj => ?_⟩
  · by_cases hne : g' = (o.cmds k).group
    · rw [hne]
      exact ((h.ok _ hlt).respond hk hu hg).1
    · exact (respond_same hg (h.ok g' hg') (hg ▸ hne)).groupOk le_rfl (h.ok g' hg')
  · rw [(respond_cmds hg j).1, halike.commands]
    exact h.home j hj

end Objects

namespace Session

variable {s : Session} {k : CmdId} {rsp : Bytes} {error : Bool}

/-- The call of a client that gets the last response to a command; the second half is
`_push_awaitings_to_ready`, if the group has got its last one. -/
theorem onRemoteResponsed_last (hb : s.objects.Built) (ht : Tidy s.self s.objects s.client)
    (hk : k ∈ s.objects.due s.client.awaitingGroups)
    (hlast : ((s.objects.cmds k).onRemoteResponsed rsp error).2 = true) :
    ∃ t : Session, t.self = s.self ∧ t.calls = s.calls ∧
      t.client = { s.client with awaitingCount := t.client.awaitingCount } ∧
      t.objects = (s.objects.respond k ((s.objects.cmds k).onRemoteResponsed rsp error).1).1 ∧
      t.objects.Built ∧ Tidy t.self t.objects t.client ∧
      (s.onRemoteResponsed k rsp error = t ∨ s.onRemoteResponsed k rsp error = t.pushAwaitingsToReady) := by
  obtain ⟨g, hawaiting, hmem, hu⟩ := Objects.mem_due.mp hk
  have hlt := ht.awaiting_lt g hawaiting
  obtain ⟨hgk, -⟩ := hb.group_of_mem hlt hmem
  subst hgk
  obtain ⟨hgroup, -, -⟩ := (s.objects.cmds k).onRemoteResponsed_same rsp error
  obtain ⟨-, hpend, hnotify⟩ := (hb.ok _ hlt).respond hmem hu hgroup
  have hbuilt := hb.respond hmem hlt hu hgroup
  have hothers : ∀ g' ∈ s.client.awaitingGroups ++ s.client.parsedGroups, g' ≠ (s.objects.cmds k).group →
      Objects.Agrees s.objects (s.objects.respond k ((s.objects.cmds k).onRemoteResponsed rsp error).1).1 g' :=
    fun g' hg' hne =>
      (Objects.respond_same hgroup (hb.ok g' (ht.mine g' hg').1) (hgroup ▸ hne)).agrees
  have halike := Objects.Alike.respond s.objects k ((s.objects.cmds k).onRemoteResponsed rsp error).1
  have hnotparsed : ∀ g' ∈ s.client.parsedGroups, g' ≠ (s.objects.cmds k).group := by
    rintro g' hg' rfl
    exact (List.nodup_append.mp ht.nodup).2.2 _ hawaiting _ hg' rfl
  -- everything but the count
  have htidy : ∀ n : ℤ, n = (s.client.awaitingGroups.filter ((s.objects.respond k
      ((s.objects.cmds k).onRemoteResponsed rsp error).1).1.Pending ·)).length →
      Tidy s.self (s.objects.respond k ((s.objects.cmds k).onRemoteResponsed rsp error).1).1
        { s.client with awaitingCount := n } := by
    intro n hn
    refine ⟨ht.nodup, fun g' hg' => ?_, fun g' hg' => ?_, hn⟩
    · rw [halike.client]
      exact ht.mine g' hg'
    · have ha := hothers g' (List.mem_append_right _ hg') (hnotparsed g' hg')
      rw [ha.complete, ha.commands]
      refine ⟨(ht.fresh g' hg').1, fun j hj => ?_⟩
      rw [ha.responsed j hj]
      exact (ht.fresh g' hg').2 j hj
  have hpending : ∀ g' ∈ s.client.awaitingGroups, g' ≠ (s.objects.cmds k).group →
      ((s.objects.respond k ((s.objects.cmds k).onRemoteResponsed rsp error).1).1.Pending g' ↔
        s.objects.Pending g') :=
    fun g' hg' hne => (hothers g' (List.mem_append_left _ hg') hne).pending
  have heq : s.onRemoteResponsed k rsp error =
      if (s.objects.respond k ((s.objects.cmds k).onRemoteResponsed rsp error).1).2 then
        Session.groupResponsed { s with
          objects := (s.objects.respond k ((s.objects.cmds k).onRemoteResponsed rsp error).1).1 }
      else { s with objects := (s.objects.respond k ((s.objects.cmds k).onRemoteResponsed rsp error).1).1 } := by
    unfold Session.onRemoteResponsed
    dsimp only
    rw [if_pos hlast]
    rfl
  rw [heq]
  generalize ((s.objects.cmds k).onRemoteResponsed rsp error).1 = v at *
  split
  · rename_i hcalled
    -- it was the last one of the group, which stops counting
    have hoff := Objects.length_filter_off (p := (s.objects.Pending ·))
      (q := ((s.objects.respond k v).1.Pending ·)) (List.nodup_append.mp ht.nodup).1 hawaiting
      (decide_eq_true hpend) (decide_eq_false (hnotify.mp hcalled))
      fun g' hg' hne => decide_eq_decide.mpr (hpending g' hg' hne)
    refine ⟨{ s with
      objects := (s.objects.respond k v).1
      client := { s.client with awaitingCount := s.client.awaitingCount - 1 } },
      rfl, rfl, rfl, rfl, hbuilt, htidy _ ?_, Or.inr rfl⟩
    rw [ht.count, hoff, Nat.cast_add, Nat.cast_one, add_sub_cancel_right]
  · rename_i hcalled
    have hstill : (s.objects.respond k v).1.Pending (s.objects.cmds k).group := by
      by_contra hnot
      exact hcalled (hnotify.mpr hnot)
    refine ⟨{ s with objects := (s.objects.respond k v).1 }, rfl, rfl, rfl, rfl, hbuilt, htidy _ ?_, Or.inl rfl⟩
    rw [ht.count, List.filter_congr fun g' hg' => decide_eq_decide.mpr ?_]
    by_cases hne : g' = (s.objects.cmds k).group
    · rw [hne]
      exact iff_of_true hpend hstill
    · exact (hpending g' hg' hne).symm

theorem pushAwaitingsToReady_frame (s : Session) :
    s.pushAwaitingsToReady.self = s.self ∧ s.pushAwaitingsToReady.client.peers = s.client.peers ∧
      (s.pushAwaitingsToReady.calls = s.calls ∨ s.pushAwaitingsToReady.calls = s.calls ++ [.pollRw]) := by
  unfold Session.pushAwaitingsToReady
  split
  · exact ⟨rfl, rfl, Or.inl rfl⟩
  · rw [appendAll_eq]
    dsimp only
    split
    · exact ⟨rfl, rfl, Or.inl rfl⟩
    · exact ⟨rfl, rfl, Or.inr rfl⟩

theorem andThen_cases {P : Session × Option ConnThrow → Prop} {r : Session × Option ConnThrow}
    {f : Session → Session × Option ConnThrow} (hf : r.2 = none → P (f r.1)) (hr : r.2 ≠ none → P r) :
    P (Session.andThen r f) := by
  unfold Session.andThen
  split
  · rename_i hnone
    exact hf hnone
  · rename_i e hthrew
    refine hr ?_
    rw [hthrew]
    exact Option.some_ne_none e

theorem takeGroups_self : ∀ (gs : List GroupId) (s : Session), (s.takeGroups gs).1.self = s.self
  | [], _ => rfl
  | g :: gs, s => by
      rw [takeGroups]
      dsimp only
      split
      · rfl
      · split
        · exact takeGroups_self gs _
        · exact takeGroups_self gs _

theorem process_self (delivery : Option ConnThrow) (s : Session) : (s.process delivery).1.self = s.self := by
  have htake := takeGroups_self (s.client.parsedGroups.take maxPipe) s
  unfold process
  split
  · rfl
  · split
    · rename_i heq
      rw [heq] at htake
      cases delivery <;> exact htake
    · rename_i heq
      rw [heq] at htake
      dsimp only
      split
      · exact htake
      · exact (pushAwaitingsToReady_frame _).1.trans htake

theorem allSent_self (delivery : Option ConnThrow) (s : Session) : (s.allSent delivery).1.self = s.self := by
  unfold allSent
  dsimp only
  split
  · split
    · rfl
    · exact process_self ..
  · split
    · rfl
    · exact process_self ..

theorem sendBufferSet_self (delivery : Option ConnThrow) (s : Session) : (s.sendBufferSet delivery).1.self = s.self := by
  have hbad : ∀ (b : Prop) [Decidable b], (if b then s.call .badDescriptor else s).self = s.self := by
    intro b _
    split <;> rfl
  unfold sendBufferSet
  dsimp only
  split
  · exact hbad _
  · exact hbad _
  · rw [allSent_self]
    exact hbad _

theorem writeResponse_self (delivery : Option ConnThrow) (s : Session) : (s.writeResponse delivery).1.self = s.self := by
  have hfirst : (if s.client.outputBufferSet.empty then (s, none) else s.sendBufferSet delivery).1.self = s.self := by
    split
    · rfl
    · exact sendBufferSet_self delivery s
  unfold writeResponse
  generalize (if s.client.outputBufferSet.empty then (s, none) else s.sendBufferSet delivery) = r at *
  refine andThen_cases (P := fun r => r.1.self = s.self) (fun _ => ?_) fun _ => hfirst
  split
  · exact hfirst
  · rw [sendBufferSet_self]
    exact (pushAwaitingsToReady_frame _).1.trans hfirst

theorem output_self (out : Output) (s : Session) : (s.output out).self = s.self := by
  have hfold : ∀ (ks : List CommandGroup) (s : Session), (ks.foldl pushCommand s).self = s.self := by
    intro ks
    induction ks with
    | nil => exact fun _ => rfl
    | cons k ks ih => exact fun s => ih (s.pushCommand k)
  exact hfold out.groups s

theorem readRequest_self (env : Env) (delivery : Option ConnThrow) (inp : Input) (s : Session) :
    (s.readRequest env delivery inp).1.self = s.self := by
  unfold readRequest
  split
  · rfl
  · split
    · rfl
    · split
      · rfl
      · split
        · exact output_self ..
        · dsimp only
          split
          · rw [process_self]
            exact output_self ..
          · exact output_self ..

/-- The client stays the same one. -/
theorem onEvents_self (env : Env) (delivery : Option ConnThrow) (hup : Bool) (read : Option Input) (write : Bool)
    (s : Session) : (s.onEvents env delivery hup read write).1.self = s.self := by
  have hhandle : (s.handle env delivery read write).1.self = s.self := by
    have hread : (s.readEvent env delivery read).1.self = s.self := by
      cases read with
      | none => rfl
      | some inp => exact readRequest_self env delivery inp s
    unfold handle
    generalize s.readEvent env delivery read = r at *
    refine andThen_cases (P := fun r => r.1.self = s.self) (fun _ => ?_) fun _ => hread
    split
    · exact hread
    · have hwrite : (if write then r.1.writeResponse delivery else (r.1, none)).1.self = s.self := by
        split
        · exact (writeResponse_self ..).trans hread
        · exact hread
      exact andThen_cases (P := fun r => r.1.self = s.self) (fun _ => hwrite) fun _ => hwrite
  unfold onEvents
  split
  · rfl
  · dsimp only
    split <;> exact hhandle
/-- The client has got the last response to a command: it waits for the others. -/
structure Answered (k : CmdId) (s s' : Session) : Prop where
  self : s'.self = s.self
  peers : s'.client.peers = s.client.peers
  calls : s'.calls = [] ∨ s'.calls = [.pollRw]
  built : s'.objects.Built
  tidy : Tidy s'.self s'.objects s'.client
  due : ∀ j, j ∈ s'.objects.due s'.client.awaitingGroups ↔ j ∈ s.objects.due s.client.awaitingGroups ∧ j ≠ k
  groupCount : s'.objects.groupCount = s.objects.groupCount
  cmdCount : s'.objects.cmdCount = s.objects.cmdCount
  client : ∀ g < s.objects.groupCount, (s'.objects.groups g).client = (s.objects.groups g).client
  agrees : ∀ g < s.objects.groupCount, g ≠ (s.objects.cmds k).group → Objects.Agrees s.objects s'.objects g
  group : ∀ j < s.objects.cmdCount, (s'.objects.cmds j).group = (s.objects.cmds j).group
  selected : ∀ j < s.objects.cmdCount, (s'.objects.cmds j).selected = (s.objects.cmds j).selected
  others : ∀ j < s.objects.cmdCount, j ≠ k → (s'.objects.cmds j).responsed = (s.objects.cmds j).responsed
  last : (s'.objects.cmds k).responsed = true

theorem answered_onRemoteResponsed (hcalls : s.calls = []) (hb : s.objects.Built)
    (ht : Tidy s.self s.objects s.client) (hk : k ∈ s.objects.due s.client.awaitingGroups)
    (hlast : ((s.objects.cmds k).onRemoteResponsed rsp error).2 = true) :
    s.Answered k (s.onRemoteResponsed k rsp error) := by
  obtain ⟨t, hself, htc, hclient, ho, hbuilt, htidy, heq⟩ := onRemoteResponsed_last hb ht hk hlast
  obtain ⟨g, hawaiting, hmem, -⟩ := Objects.mem_due.mp hk
  obtain ⟨-, hkc⟩ := hb.group_of_mem (ht.awaiting_lt g hawaiting) hmem
  obtain ⟨hgroup, hsel, -⟩ := (s.objects.cmds k).onRemoteResponsed_same rsp error
  generalize ((s.objects.cmds k).onRemoteResponsed rsp error).1 = v at *
  have halike := Objects.Alike.respond s.objects k v
  rw [← ho] at halike
  have hcmds := Objects.respond_cmds (o := s.objects) hgroup
  rw [← ho] at hcmds
  have hq : t.client.awaitingGroups = s.client.awaitingGroups := by rw [hclient]
  have hdue : ∀ j, j ∈ t.objects.due t.client.awaitingGroups ↔
      j ∈ s.objects.due s.client.awaitingGroups ∧ j ≠ k := by
    intro j
    rw [hq, Objects.mem_due, Objects.mem_due]
    simp only [halike.commands]
    by_cases hj : j = k
    · rw [(hcmds j).2.2 hj]
      simp [hj]
    · rw [(hcmds j).2.1 hj]
      simp [hj]
  have hagrees : ∀ g < s.objects.groupCount, g ≠ (s.objects.cmds k).group → Objects.Agrees s.objects t.objects g := by
    intro g hlt hne
    rw [ho]
    exact (Objects.respond_same hgroup (hb.ok g hlt) (hgroup ▸ hne)).agrees
  have hstay : s.Answered k t := by
    refine ⟨hself, by rw [hclient], Or.inl (htc.trans hcalls), hbuilt, htidy, hdue, halike.groupCount,
      halike.cmdCount, fun g _ => halike.client g, hagrees, fun j _ => (hcmds j).1, fun j _ => ?_,
      fun j _ hj => by rw [(hcmds j).2.1 hj], by rw [(hcmds k).2.2 rfl]⟩
    by_cases hj : j = k
    · rw [(hcmds j).2.2 hj, hj]
      exact hsel
    · rw [(hcmds j).2.1 hj]
  rcases heq with heq | heq
  · rw [heq]
    exact hstay
  · rw [heq]
    have hledger : t.Ledger t := by
      refine ⟨rfl, rfl, hbuilt, .refl _ _, htidy, ?_⟩
      rw [htc, hcalls]
      rfl
    obtain ⟨-, -, hb', hg', ht', hp'⟩ := hledger.pushAwaitingsToReady
    obtain ⟨hs', hpeers', hcalls'⟩ := t.pushAwaitingsToReady_frame
    rw [htc, hcalls, List.nil_append] at hcalls'
    have hsame : t.pushAwaitingsToReady.objects.due t.pushAwaitingsToReady.client.awaitingGroups =
        t.objects.due t.client.awaitingGroups := by
      rcases hcalls' with hc | hc <;> rw [hc] at hp' <;> exact hp'.symm
    have hcount : t.pushAwaitingsToReady.objects.groupCount = t.objects.groupCount ∧
        t.pushAwaitingsToReady.objects.cmdCount = t.objects.cmdCount := by
      have := (moves_pushAwaitingsToReady t).alike
      exact ⟨this.groupCount, this.cmdCount⟩
    have hlt : ∀ {g}, g < s.objects.groupCount → g < t.objects.groupCount :=
      fun h => hstay.groupCount.symm ▸ h
    have hltc : ∀ {j}, j < s.objects.cmdCount → j < t.objects.cmdCount := fun h => hstay.cmdCount.symm ▸ h
    refine ⟨hs'.trans hself, hpeers'.trans hstay.peers, hcalls', hb', ht', fun j => ?_,
      hcount.1.trans hstay.groupCount, hcount.2.trans hstay.cmdCount, fun g hg => ?_, fun g hg hne => ?_,
      fun j hj => ?_, fun j hj => ?_, fun j hj hne => ?_, ?_⟩
    · rw [hsame]
      exact hdue j
    · rw [hg'.client g (hlt hg)]
      exact hstay.client g hg
    · have ha := hagrees g hg hne
      have ha' := hg'.agrees hbuilt (hlt hg)
      exact ⟨ha'.client.trans ha.client, ha'.kind.trans ha.kind, ha'.commands.trans ha.commands,
        ha'.complete.trans ha.complete, fun j hj =>
          (ha'.responsed j (ha.commands.symm ▸ hj)).trans (ha.responsed j hj)⟩
    · rw [hg'.cmds j (hltc hj)]
      exact hstay.group j hj
    · rw [hg'.cmds j (hltc hj)]
      exact hstay.selected j hj
    · rw [hg'.cmds j (hltc hj)]
      exact hstay.others j hj hne
    · rw [hg'.cmds k (hltc hkc)]
      exact hstay.last

/-- A command that takes another step. -/
theorem onRemoteResponsed_again (hagain : ((s.objects.cmds k).onRemoteResponsed rsp error).2 = false) :
    s.onRemoteResponsed k rsp error =
      ({ s with objects := s.objects.setCmd k ((s.objects.cmds k).onRemoteResponsed rsp error).1 } : Session).call
        (.reactivate k) := by
  unfold Session.onRemoteResponsed
  dsimp only
  rw [if_neg (by rw [hagain]; exact Bool.false_ne_true)]

end Session

end Cerberus
