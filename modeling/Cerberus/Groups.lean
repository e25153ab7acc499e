import Cerberus.Client

/-! # Command groups

What a group keeps: its commands are its own, it is complete only when they have all been
answered, and it counts those that have not (`GroupOk`).  Building a group, appending its
buffers to an output set and a response to one of its commands keep this, and change nothing
of other groups (`SameOn`).  The buffers of a group that waits for nothing are its reply
(`GroupOk.appended`). -/

namespace Cerberus

/-! ### Replies -/

theorem Cmd.onRemoteResponsed_same (c : Cmd) (rsp : Bytes) (error : Bool) :
    (c.onRemoteResponsed rsp error).1.group = c.group ∧
      (c.onRemoteResponsed rsp error).1.selected = c.selected ∧
      (c.onRemoteResponsed rsp error).1.responsed = c.responsed := by
  unfold onRemoteResponsed
  split
  · exact ⟨rfl, rfl, rfl⟩
  · split
    · exact ⟨rfl, rfl, rfl⟩
    · split <;> exact ⟨rfl, rfl, rfl⟩
  · split <;> exact ⟨rfl, rfl, rfl⟩
  · exact ⟨rfl, rfl, rfl⟩

/-- The response to a command of a group of several. -/
theorem Group.commandResponsed_several {x : Group} (hs : ∀ c, x.kind ≠ .single c)
    (hw : x.kind.waitRemote = true) : x.commandResponsed =
      if x.awaitingCount - 1 = 0 then
        ({ x with
          awaitingCount := 0
          payload := chr '*' :: (decimal x.commands.length ++ [CR, LF])
          complete := true }, true)
      else ({ x with awaitingCount := x.awaitingCount - 1 }, false) := by
  unfold commandResponsed
  cases hk : x.kind with
  | single c => exact absurd hk (hs c)
  | multiple cs => rfl
  | del cs => rfl
  | mset cs => rfl
  | direct b => rw [hk] at hw; cases hw
  | subscribe b => rw [hk] at hw; cases hw
  | blockedPop b ks => rw [hk] at hw; cases hw

namespace Objects

/-- The group waits for a response that has not come. -/
def Pending (o : Objects) (g : GroupId) : Prop :=
  (o.groups g).kind.waitRemote = true ∧ (o.groups g).complete = false

instance (o : Objects) : DecidablePred o.Pending := fun _ => inferInstanceAs (Decidable (_ ∧ _))

/-- The request does not convert the client. -/
def short (o : Objects) (g : GroupId) : Bool := !(o.groups g).kind.longConnection

/-- The reply to a request, made of the responses to its commands. -/
def reply (o : Objects) (g : GroupId) : Bytes :=
  let x := o.groups g
  let responses := x.commands.map fun k => (o.cmds k).buffer
  match x.kind with
  | .direct b => b
  | .single _ => responses.flatten
  | .multiple _ => chr '*' :: (decimal x.commands.length ++ [CR, LF]) ++ responses.flatten
  | .del _ => chr ':' :: (decimal (o.countOnes x.commands) ++ [CR, LF])
  | .mset _ => rspOkStr
  | _ => []

/-- The buffers `append_buffer_to` appends. -/
def refs (o : Objects) (g : GroupId) : List BufRef := (o.appendBufferTo g).2

/-- A group as the code keeps it: its commands are its own, those of a group that is complete
have been answered, and a group of several commands counts the others. -/
structure GroupOk (o : Objects) (g : GroupId) : Prop where
  size : (o.groups g).commands.length = (o.groups g).kind.commands.length
  owned : ∀ k ∈ (o.groups g).commands, (o.cmds k).group = g ∧ k < o.cmdCount
  nodup : (o.groups g).commands.Nodup
  direct : ∀ b, (o.groups g).kind = .direct b → (o.groups g).payload = b
  responsed : (o.groups g).complete = true → ∀ k ∈ (o.groups g).commands, (o.cmds k).responsed = true
  counted : (∀ c, (o.groups g).kind ≠ .single c) → (o.groups g).awaitingCount =
    ((o.groups g).commands.filter fun k => !(o.cmds k).responsed).length
  header : ∀ cs, (o.groups g).kind = .multiple cs → (o.groups g).complete = true →
    (o.groups g).payload = chr '*' :: (decimal (o.groups g).commands.length ++ [CR, LF])

/-- Nothing of a group has changed. -/
def SameOn (o o' : Objects) (g : GroupId) : Prop :=
  o'.groups g = o.groups g ∧ ∀ k ∈ (o.groups g).commands, o'.cmds k = o.cmds k

variable {o o' : Objects} {g : GroupId}

theorem SameOn.refl (o : Objects) (g : GroupId) : SameOn o o g := ⟨rfl, fun _ _ => rfl⟩

theorem SameOn.trans {o'' : Objects} (h : SameOn o o' g) (h' : SameOn o' o'' g) : SameOn o o'' g := by
  refine ⟨h'.1.trans h.1, fun k hk => ?_⟩
  rw [h'.2 k (by rw [h.1]; exact hk), h.2 k hk]

theorem buffers_congr {ks : List CmdId} (h : ∀ k ∈ ks, o'.cmds k = o.cmds k) :
    (ks.map fun k => (o'.cmds k).buffer) = ks.map fun k => (o.cmds k).buffer :=
  List.map_congr_left fun k hk => by rw [h k hk]

theorem countOnes_congr {ks : List CmdId} (h : ∀ k ∈ ks, o'.cmds k = o.cmds k) :
    o'.countOnes ks = o.countOnes ks := by
  rw [countOnes, countOnes]
  congr 1
  apply List.filter_congr
  intro k hk
  rw [h k hk]

theorem SameOn.reply (h : SameOn o o' g) : o'.reply g = o.reply g := by
  simp only [Objects.reply, h.1, buffers_congr h.2, countOnes_congr h.2]

theorem refs_congr (hk : (o'.groups g).kind = (o.groups g).kind)
    (hc : (o'.groups g).commands = (o.groups g).commands) : o'.refs g = o.refs g := by
  simp only [refs, appendBufferTo, hk, hc]
  cases (o.groups g).kind <;> rfl

theorem SameOn.refs (h : SameOn o o' g) : o'.refs g = o.refs g :=
  refs_congr (by rw [h.1]) (by rw [h.1])

theorem mem_refs {r : BufRef} (h : r ∈ o.refs g) :
    r = .payload g ∨ r = .rspOk ∨ ∃ k ∈ (o.groups g).commands, r = .command k := by
  rw [Objects.refs, appendBufferTo] at h
  cases hk : (o.groups g).kind <;> rw [hk] at h <;> simp at h <;> grind

theorem SameOn.content (h : SameOn o o' g) {r : BufRef} (hr : r ∈ o.refs g) :
    o'.content r = o.content r := by
  rcases mem_refs hr with rfl | rfl | ⟨k, hk, rfl⟩
  · simp only [Objects.content, h.1]
  · rfl
  · simp only [Objects.content, h.2 k hk]

theorem SameOn.pending (h : SameOn o o' g) : o'.Pending g ↔ o.Pending g := by
  rw [Pending, Pending, h.1]

theorem SameOn.short (h : SameOn o o' g) : o'.short g = o.short g := by
  rw [Objects.short, Objects.short, h.1]

theorem SameOn.groupOk (h : SameOn o o' g) (hc : o.cmdCount ≤ o'.cmdCount) (hg : o.GroupOk g) :
    o'.GroupOk g := by
  obtain ⟨h₁, h₂⟩ := h
  constructor <;> rw [h₁]
  · exact hg.size
  · intro k hk
    rw [h₂ k hk]
    exact ⟨(hg.owned k hk).1, (hg.owned k hk).2.trans_le hc⟩
  · exact hg.nodup
  · exact hg.direct
  · intro hcomp k hk
    rw [h₂ k hk]
    exact hg.responsed hcomp k hk
  · intro hs
    rw [hg.counted hs]
    congr 2
    apply List.filter_congr
    intro k hk
    rw [h₂ k hk]
  · exact hg.header

/-- A command of another group is none of this one. -/
theorem GroupOk.not_mem (h : o.GroupOk g) {k : CmdId} (hk : (o.cmds k).group ≠ g) :
    k ∉ (o.groups g).commands :=
  fun hmem => hk (h.owned k hmem).1

/-! ### Building a group -/

theorem build_same (cli : ClientId) (kind : CommandGroup) (hlt : g < o.groupCount) (h : o.GroupOk g) :
    SameOn o (o.build cli kind) g := by
  refine ⟨Function.update_of_ne hlt.ne _ _, fun k hk => ?_⟩
  exact if_pos (h.owned k hk).2

theorem build_groupOk (o : Objects) (cli : ClientId) (kind : CommandGroup) :
    (o.build cli kind).GroupOk o.groupCount := by
  have hg : (o.build cli kind).groups o.groupCount = _ := Function.update_self ..
  have hcmd : ∀ k ∈ List.range' o.cmdCount kind.commands.length, ∃ c ∈ kind.commands,
      (o.build cli kind).cmds k = Cmd.new o.groupCount c := by
    intro k hk
    obtain ⟨i, hi, rfl⟩ := List.mem_range'.mp hk
    refine ⟨kind.commands[i], List.getElem_mem hi, ?_⟩
    simp [build, hi]
  constructor <;> rw [hg]
  · exact List.length_range'
  · intro k hk
    obtain ⟨c, -, hc⟩ := hcmd k hk
    rw [hc]
    refine ⟨rfl, ?_⟩
    obtain ⟨i, hi, rfl⟩ := List.mem_range'.mp hk
    show _ < o.cmdCount + _
    omega
  · exact List.nodup_range'
  · rintro b rfl
    rfl
  · nofun
  · intro hs
    have hall : (List.range' o.cmdCount kind.commands.length).filter
        (fun k => !((o.build cli kind).cmds k).responsed) =
        List.range' o.cmdCount kind.commands.length := by
      rw [List.filter_eq_self]
      intro k hk
      obtain ⟨c, -, hc⟩ := hcmd k hk
      rw [hc]
      rfl
    rw [hall, List.length_range']
    cases kind with
    | single c => exact absurd rfl (hs c)
    | direct b => rfl
    | multiple cs => rfl
    | del cs => rfl
    | mset cs => rfl
    | subscribe b => rfl
    | blockedPop b ks => rfl
  · nofun

/-! ### Appending a group -/

theorem appendBufferTo_cmds (g : GroupId) (o : Objects) :
    (o.appendBufferTo g).1.cmds = o.cmds ∧ (o.appendBufferTo g).1.cmdCount = o.cmdCount ∧
      (o.appendBufferTo g).1.groupCount = o.groupCount := by
  unfold appendBufferTo
  dsimp only
  cases (o.groups g).kind <;> exact ⟨rfl, rfl, rfl⟩

/-- At most the payload is replaced, that of a `DelCommandGroup`. -/
theorem appendBufferTo_groups (g : GroupId) (o : Objects) :
    (o.appendBufferTo g).1.groups = o.groups ∨ (∃ cs p, (o.groups g).kind = .del cs ∧
      (o.appendBufferTo g).1.groups = Function.update o.groups g { o.groups g with payload := p }) := by
  unfold appendBufferTo
  dsimp only
  cases (o.groups g).kind with
  | del cs => exact Or.inr ⟨cs, _, rfl, rfl⟩
  | direct b => exact Or.inl rfl
  | single c => exact Or.inl rfl
  | multiple cs => exact Or.inl rfl
  | mset cs => exact Or.inl rfl
  | subscribe b => exact Or.inl rfl
  | blockedPop b ks => exact Or.inl rfl

theorem appendBufferTo_same {g' : GroupId} (hne : g' ≠ g) : SameOn o (o.appendBufferTo g).1 g' := by
  rw [SameOn, (appendBufferTo_cmds g o).1]
  refine ⟨?_, fun _ _ => rfl⟩
  rcases appendBufferTo_groups g o with h | ⟨cs, p, -, h⟩
  · rw [h]
  · rw [h, Function.update_of_ne hne]

theorem appendBufferTo_reply (g g' : GroupId) (o : Objects) :
    (o.appendBufferTo g).1.reply g' = o.reply g' := by
  by_cases hne : g' = g
  · subst hne
    rcases appendBufferTo_groups g' o with h | ⟨cs, p, -, h⟩
    · simp only [reply, countOnes, h, (appendBufferTo_cmds g' o).1]
    · simp only [reply, countOnes, h, (appendBufferTo_cmds g' o).1, Function.update_self]
  · exact (appendBufferTo_same hne).reply

theorem appendBufferTo_pending (g g' : GroupId) (o : Objects) :
    (o.appendBufferTo g).1.Pending g' ↔ o.Pending g' := by
  by_cases hne : g' = g
  · subst hne
    rcases appendBufferTo_groups g' o with h | ⟨cs, p, -, h⟩
    · rw [Pending, Pending, h]
    · rw [Pending, Pending, h, Function.update_self]
  · exact (appendBufferTo_same hne).pending

theorem appendBufferTo_complete (g g' : GroupId) (o : Objects) :
    ((o.appendBufferTo g).1.groups g').complete = (o.groups g').complete := by
  by_cases hne : g' = g
  · subst hne
    rcases appendBufferTo_groups g' o with h | ⟨cs, p, -, h⟩
    · rw [h]
    · rw [h, Function.update_self]
  · rw [(appendBufferTo_same hne).1]

theorem appendBufferTo_refs (g g' : GroupId) (o : Objects) :
    (o.appendBufferTo g).1.refs g' = o.refs g' := by
  by_cases hne : g' = g
  · subst hne
    rcases appendBufferTo_groups g' o with h | ⟨cs, p, -, h⟩
    · exact refs_congr (by rw [h]) (by rw [h])
    · exact refs_congr (by rw [h, Function.update_self]) (by rw [h, Function.update_self])
  · exact (appendBufferTo_same hne).refs

theorem GroupOk.appendBufferTo {g' : GroupId} (h : o.GroupOk g') : (o.appendBufferTo g).1.GroupOk g' := by
  obtain ⟨hc, hcc, -⟩ := appendBufferTo_cmds g o
  by_cases hne : g' = g
  · subst hne
    rcases appendBufferTo_groups g' o with hg | ⟨cs, p, hk, hg⟩
    · exact SameOn.groupOk ⟨by rw [hg], fun k _ => by rw [hc]⟩ hcc.ge h
    · constructor <;> rw [hg, Function.update_self] <;> dsimp only
      · exact h.size
      · rw [hc, hcc]
        exact h.owned
      · exact h.nodup
      · intro b hb
        rw [hk] at hb
        cases hb
      · rw [hc]
        exact h.responsed
      · rw [hc]
        exact h.counted
      · intro cs' hcs'
        rw [hk] at hcs'
        cases hcs'
  · exact (appendBufferTo_same hne).groupOk hcc.ge h

/-- What is appended for a group that waits for nothing is its reply. -/
theorem GroupOk.appended (h : o.GroupOk g) (hp : ¬ o.Pending g) :
    (((o.appendBufferTo g).2.map (o.appendBufferTo g).1.content).flatten) = o.reply g := by
  have hcomp : (o.groups g).kind.waitRemote = true → (o.groups g).complete = true := by
    intro hw
    by_contra hc
    exact hp ⟨hw, by simpa using hc⟩
  unfold Objects.appendBufferTo reply
  dsimp only
  cases hk : (o.groups g).kind with
  | direct b => simp [content, h.direct b hk]
  | single c => simp [content, List.map_map, Function.comp_def]
  | multiple cs =>
      have hpay := h.header cs hk (hcomp (by rw [hk]; rfl))
      simp [content, hpay, List.map_map, Function.comp_def]
  | del cs => simp [content, setGroup]
  | mset cs => simp [content]
  | subscribe b => rfl
  | blockedPop b ks => rfl

/-! ### A response -/

/-- One element of a list stops counting. -/
theorem length_filter_off {l : List ℕ} (hl : l.Nodup) {k : ℕ} (hk : k ∈ l) {p q : ℕ → Bool}
    (hp : p k = true) (hq : q k = false) (hpq : ∀ j ∈ l, j ≠ k → q j = p j) :
    (l.filter p).length = (l.filter q).length + 1 := by
  have hfilter : l.filter q = (l.filter p).erase k := by
    rw [List.Nodup.erase_eq_filter (hl.filter p), List.filter_filter]
    apply List.filter_congr
    intro j hl
    by_cases hj : j = k
    · rw [hj, hq, bne_self_eq_false, Bool.false_and]
    · rw [hpq j hl hj, bne_iff_ne.mpr hj, Bool.true_and]
  rw [hfilter, List.length_erase_of_mem (List.mem_filter.mpr ⟨hk, hp⟩)]
  have := List.length_pos_of_mem (List.mem_filter.mpr ⟨hk, hp⟩)
  omega

/-- A command that takes another step. -/
theorem GroupOk.setCmd (h : o.GroupOk g) {k : CmdId} {c : Cmd} (hg : c.group = (o.cmds k).group)
    (hr : c.responsed = (o.cmds k).responsed) : (o.setCmd k c).GroupOk g := by
  have hgroup : ∀ j, ((o.setCmd k c).cmds j).group = (o.cmds j).group := by
    intro j
    by_cases hj : j = k
    · rw [hj, setCmd_self, hg]
    · rw [setCmd_of_ne o hj]
  have hresp : ∀ j, ((o.setCmd k c).cmds j).responsed = (o.cmds j).responsed := by
    intro j
    by_cases hj : j = k
    · rw [hj, setCmd_self, hr]
    · rw [setCmd_of_ne o hj]
  constructor
  · exact h.size
  · intro j hj
    rw [hgroup]
    exact h.owned j hj
  · exact h.nodup
  · exact h.direct
  · intro hc j hj
    rw [hresp]
    exact h.responsed hc j hj
  · intro hs
    simp only [hresp]
    exact h.counted hs
  · exact h.header

/-- The objects after the last response to a command. -/
def respond (o : Objects) (k : CmdId) (c : Cmd) : Objects × Bool :=
  (o.setCmd k { c with responsed := true }).commandResponsed c.group

theorem respond_same {k : CmdId} {c : Cmd} (hc : c.group = (o.cmds k).group) (h : o.GroupOk g)
    (hne : g ≠ c.group) : SameOn o (o.respond k c).1 g := by
  refine ⟨setGroup_of_ne _ hne _, fun j hj => ?_⟩
  have hjk : j ≠ k := by
    rintro rfl
    exact hne ((h.owned j hj).1.symm.trans hc.symm)
  exact setCmd_of_ne o hjk _

/-- What is left to check of a group when one of its commands has been answered. -/
theorem GroupOk.answered {k : CmdId} {c : Cmd} {x : Group} (h : o.GroupOk g) (hc : c.group = g)
    (hkind : x.kind = (o.groups g).kind) (hcmds : x.commands = (o.groups g).commands)
    (hdirect : ∀ b, x.kind ≠ .direct b)
    (hresp : x.complete = true → ∀ j ∈ x.commands, j ≠ k → (o.cmds j).responsed = true)
    (hcount : (∀ c, x.kind ≠ .single c) → x.awaitingCount = (x.commands.filter fun j =>
      !((o.setCmd k { c with responsed := true }).cmds j).responsed).length)
    (hheader : ∀ cs, x.kind = .multiple cs → x.complete = true →
      x.payload = chr '*' :: (decimal x.commands.length ++ [CR, LF])) :
    ((o.setCmd k { c with responsed := true }).setGroup g x).GroupOk g := by
  constructor <;> rw [setGroup_self]
  · rw [hkind, hcmds]
    exact h.size
  · intro j hj
    rw [hcmds] at hj
    refine ⟨?_, (h.owned j hj).2⟩
    by_cases hjk : j = k
    · rw [hjk, setGroup_cmds, setCmd_self]
      exact hc
    · rw [setGroup_cmds, setCmd_of_ne o hjk]
      exact (h.owned j hj).1
  · rw [hcmds]
    exact h.nodup
  · intro b hb
    exact absurd hb (hdirect b)
  · intro hcomp j hj
    by_cases hjk : j = k
    · rw [hjk, setGroup_cmds, setCmd_self]
    · rw [setGroup_cmds, setCmd_of_ne o hjk]
      exact hresp hcomp j hj hjk
  · exact hcount
  · exact hheader

/-- The last response to a command of a group that waits for it. -/
theorem GroupOk.respond {k : CmdId} {c : Cmd} (h : o.GroupOk g) (hk : k ∈ (o.groups g).commands)
    (hu : (o.cmds k).responsed = false) (hc : c.group = g) :
    (o.respond k c).1.GroupOk g ∧ o.Pending g ∧
      ((o.respond k c).2 = true ↔ ¬ (o.respond k c).1.Pending g) := by
  subst hc
  have hincomplete : (o.groups c.group).complete = false := by
    by_contra hcomp
    rw [Bool.not_eq_false] at hcomp
    rw [h.responsed hcomp k hk] at hu
    cases hu
  have hpos : 0 < (o.groups c.group).kind.commands.length := h.size ▸ List.length_pos_of_mem hk
  -- the others that have not been answered
  let rest := (o.groups c.group).commands.filter fun j =>
    !((o.setCmd k { c with responsed := true }).cmds j).responsed
  have hrest : ((o.groups c.group).commands.filter fun j => !(o.cmds j).responsed).length = rest.length + 1 := by
    refine length_filter_off h.nodup hk (by rw [hu]; rfl) (by rw [setCmd_self]; rfl) fun j _ hj => ?_
    rw [setCmd_of_ne o hj]
  have hmulti : (∀ d, (o.groups c.group).kind ≠ .single d) → (o.groups c.group).awaitingCount - 1 = rest.length := by
    intro hs
    rw [h.counted hs, hrest]
    omega
  have hall : rest.length = 0 → ∀ j ∈ (o.groups c.group).commands, j ≠ k → (o.cmds j).responsed = true := by
    intro h0 j hj hjk
    have hnil := List.filter_eq_nil_iff.mp (List.length_eq_zero_iff.mp h0) j hj
    rw [setCmd_of_ne o hjk] at hnil
    simpa using hnil
  have hseveral : (∀ d, (o.groups c.group).kind ≠ .single d) → (o.groups c.group).kind.waitRemote = true →
      (o.respond k c).1.GroupOk c.group ∧ o.Pending c.group ∧
        ((o.respond k c).2 = true ↔ ¬ (o.respond k c).1.Pending c.group) := by
    intro hs hw
    have hdirect : ∀ b, (o.groups c.group).kind ≠ .direct b := by
      intro b hb
      rw [hb] at hw
      cases hw
    simp only [Objects.respond, commandResponsed, setCmd_groups, Group.commandResponsed_several hs hw,
      hmulti hs]
    by_cases h0 : (rest.length : ℤ) = 0
    · rw [if_pos h0]
      let x := { o.groups c.group with
        awaitingCount := 0
        payload := chr '*' :: (decimal (o.groups c.group).commands.length ++ [CR, LF])
        complete := true }
      refine ⟨h.answered (x := x) rfl rfl rfl hdirect (fun _ => hall (by exact_mod_cast h0))
        (fun _ => h0.symm) fun _ _ _ => rfl, ⟨hw, hincomplete⟩, ?_⟩
      rw [Pending, setGroup_self]
      simp
    · rw [if_neg h0]
      let x := { o.groups c.group with awaitingCount := rest.length }
      refine ⟨h.answered (x := x) rfl rfl rfl hdirect (fun hcomp => ?_) (fun _ => rfl) fun cs hcs hcomp => ?_,
        ⟨hw, hincomplete⟩, ?_⟩
      · exact absurd hcomp (by simp [x, hincomplete])
      · exact absurd hcomp (by simp [x, hincomplete])
      · rw [Pending, setGroup_self]
        simp [hw, hincomplete]
  cases hkind : (o.groups c.group).kind with
  | direct b => rw [hkind] at hpos; exact absurd hpos (lt_irrefl 0)
  | subscribe b => rw [hkind] at hpos; exact absurd hpos (lt_irrefl 0)
  | blockedPop b ks => rw [hkind] at hpos; exact absurd hpos (lt_irrefl 0)
  | multiple cs => exact hseveral (by simp [hkind]) (by rw [hkind]; rfl)
  | del cs => exact hseveral (by simp [hkind]) (by rw [hkind]; rfl)
  | mset cs => exact hseveral (by simp [hkind]) (by rw [hkind]; rfl)
  | single d =>
      have hone : ∀ j ∈ (o.groups c.group).commands, j ≠ k → (o.cmds j).responsed = true := by
        intro j hj hjk
        have hlen := h.size
        rw [hkind] at hlen
        obtain ⟨a, ha⟩ := List.length_eq_one_iff.mp hlen
        rw [ha, List.mem_singleton] at hj hk
        exact absurd (hj.trans hk.symm) hjk
      have hresult : (o.groups c.group).commandResponsed = ({ o.groups c.group with complete := true }, true) := by
        simp only [Group.commandResponsed, hkind]
      simp only [Objects.respond, commandResponsed, setCmd_groups, hresult]
      refine ⟨h.answered (x := { o.groups c.group with complete := true }) rfl rfl rfl ?_ (fun _ => hone) (fun hs => absurd hkind (hs d)) ?_,
        ⟨by rw [hkind]; rfl, hincomplete⟩, ?_⟩
      · intro b hb
        rw [hkind] at hb
        cases hb
      · intro cs hcs
        rw [hkind] at hcs
        cases hcs
      · rw [Pending, setGroup_self]
        simp

/-! ### What a group is built with -/

/-- No group is built, and those there are keep their client, their kind and their commands. -/
structure Alike (o o' : Objects) : Prop where
  groupCount : o'.groupCount = o.groupCount
  cmdCount : o'.cmdCount = o.cmdCount
  client : ∀ g, (o'.groups g).client = (o.groups g).client
  kind : ∀ g, (o'.groups g).kind = (o.groups g).kind
  commands : ∀ g, (o'.groups g).commands = (o.groups g).commands

theorem Alike.refl (o : Objects) : Alike o o := ⟨rfl, rfl, fun _ => rfl, fun _ => rfl, fun _ => rfl⟩

theorem Alike.trans {o'' : Objects} (h : Alike o o') (h' : Alike o' o'') : Alike o o'' :=
  ⟨h'.groupCount.trans h.groupCount, h'.cmdCount.trans h.cmdCount,
    fun g => (h'.client g).trans (h.client g), fun g => (h'.kind g).trans (h.kind g),
    fun g => (h'.commands g).trans (h.commands g)⟩

theorem Alike.short (h : Alike o o') : o'.short = o.short := by
  funext g
  rw [Objects.short, Objects.short, h.kind]

theorem Alike.refs (h : Alike o o') : o'.refs = o.refs := by
  funext g
  exact refs_congr (h.kind g) (h.commands g)

theorem Alike.setGroup {x : Group} (hclient : x.client = (o.groups g).client)
    (hkind : x.kind = (o.groups g).kind) (hcommands : x.commands = (o.groups g).commands) :
    Alike o (o.setGroup g x) := by
  refine ⟨rfl, rfl, fun g' => ?_, fun g' => ?_, fun g' => ?_⟩ <;> by_cases hne : g' = g
  · rw [hne, setGroup_self, hclient]
  · rw [setGroup_of_ne o hne]
  · rw [hne, setGroup_self, hkind]
  · rw [setGroup_of_ne o hne]
  · rw [hne, setGroup_self, hcommands]
  · rw [setGroup_of_ne o hne]

theorem Alike.setCmd (o : Objects) (k : CmdId) (c : Cmd) : Alike o (o.setCmd k c) :=
  ⟨rfl, rfl, fun _ => rfl, fun _ => rfl, fun _ => rfl⟩

theorem Alike.appendBufferTo (g : GroupId) (o : Objects) : Alike o (o.appendBufferTo g).1 := by
  unfold Objects.appendBufferTo
  dsimp only
  split
  · exact .refl o
  · exact .refl o
  · exact .refl o
  · exact .setGroup rfl rfl rfl
  · exact .refl o
  · exact .refl o
  · exact .refl o

theorem Alike.commandResponsed (g : GroupId) (o : Objects) : Alike o (o.commandResponsed g).1 := by
  have h : (o.groups g).commandResponsed.1.client = (o.groups g).client ∧
      (o.groups g).commandResponsed.1.kind = (o.groups g).kind ∧
      (o.groups g).commandResponsed.1.commands = (o.groups g).commands := by
    unfold Group.commandResponsed
    split
    · exact ⟨rfl, rfl, rfl⟩
    · split <;> exact ⟨rfl, rfl, rfl⟩
    · split <;> exact ⟨rfl, rfl, rfl⟩
    · split <;> exact ⟨rfl, rfl, rfl⟩
    · exact ⟨rfl, rfl, rfl⟩
  exact .setGroup h.1 h.2.1 h.2.2

theorem Alike.respond (o : Objects) (k : CmdId) (c : Cmd) : Alike o (o.respond k c).1 :=
  (Alike.setCmd o k _).trans (Alike.commandResponsed _ _)

end Objects

end Cerberus
