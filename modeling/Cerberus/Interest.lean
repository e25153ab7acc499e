import Cerberus.Reuse
import Cerberus.Waking
import Cerberus.Pieces

/-! # Who is waiting to write

A connection with something to write needs write events.  Most of the proxy asks for them through
`_conn_poll_type`, where write interest is never taken back, and `poll_ctl` carries out the wishes at
the end of the events; some ask the poller at once.  `Poller.wants` is what comes of both, and
`Traffic.Alert` says that it includes write events wherever something is pending, up to what a
function is still about to do.  Here it is shown for the moves of commands and connections. -/

namespace Cerberus

/-! ### Wishes -/

namespace Poller

/-- The connection is polled for write events once `poll_ctl` has run. -/
def wants (p : Poller) (c : Conn) : Bool := (p.connPollType.lookup c).getD (p.interest c == some true)

/-- `_conn_poll_type` is a map. -/
def Keyed (p : Poller) : Prop := (p.connPollType.map Prod.fst).Nodup

/-- No backend is to be polled for read events only. -/
def Undecided (p : Poller) : Prop := ∀ s : ServerId, p.connPollType.lookup (.server s) ≠ some false

variable {p p' p'' : Poller} {c d : Conn}

theorem register_wants_of_ne (h : d ≠ c) (b : Option Bool) : (p.register c b).wants d = p.wants d := by
  show (p.connPollType.lookup d).getD (Function.update p.interest c b d == some true) = _
  rw [Function.update_of_ne h]
  rfl

theorem addRw_wants (h : p.connPollType.lookup c ≠ some false) : (p.addRw c).wants c = true := by
  show (p.connPollType.lookup c).getD (Function.update p.interest c (some true) c == some true) = true
  rw [Function.update_self]
  cases hb : p.connPollType.lookup c with
  | none => rfl
  | some b =>
      cases b with
      | true => rfl
      | false => exact absurd hb h

theorem lookup_filter_ne (h : d ≠ c) : ∀ l : List (Conn × Bool), (l.filter fun e => e.1 ≠ c).lookup d = l.lookup d
  | [] => rfl
  | (e, b) :: l => by
      have ih := lookup_filter_ne h l
      by_cases he : e = c
      · have hde : (d == e) = false := beq_eq_false_iff_ne.mpr (he ▸ h)
        rw [List.filter_cons_of_neg (by simpa using he), ih, List.lookup_cons, hde]
      · rw [List.filter_cons_of_pos (by simpa using he), List.lookup_cons, List.lookup_cons, ih]

theorem setConnPollRw_wants_self : (p.setConnPollRw c).wants c = true := by
  show (List.lookup c ((c, true) :: _)).getD _ = true
  rw [List.lookup_cons_self]
  rfl

theorem setConnPollRw_wants_of_ne (h : d ≠ c) : (p.setConnPollRw c).wants d = p.wants d := by
  show (List.lookup d ((c, true) :: _)).getD _ = _
  rw [List.lookup_cons, beq_eq_false_iff_ne.mpr h]
  dsimp only
  rw [lookup_filter_ne h]
  rfl

theorem setConnPollRo_wants_of_ne (h : d ≠ c) : (p.setConnPollRo c).wants d = p.wants d := by
  unfold setConnPollRo
  split
  · rfl
  · show (List.lookup d ((c, false) :: _)).getD _ = _
    rw [List.lookup_cons, beq_eq_false_iff_ne.mpr h]
    rfl

theorem Keyed.setConnPollRw (h : p.Keyed) (c : Conn) : (p.setConnPollRw c).Keyed := by
  refine List.nodup_cons.mpr ⟨fun hmem => ?_, ?_⟩
  · obtain ⟨e, he, heq⟩ := List.mem_map.mp hmem
    simpa [heq] using List.of_mem_filter he
  · exact h.sublist (List.filter_sublist.map _)

theorem Keyed.setConnPollRo (h : p.Keyed) (c : Conn) : (p.setConnPollRo c).Keyed := by
  unfold Poller.setConnPollRo
  split
  · exact h
  · rename_i hnone
    refine List.nodup_cons.mpr ⟨fun hmem => ?_, h⟩
    obtain ⟨e, he, heq⟩ := List.mem_map.mp hmem
    have hne := List.lookup_eq_none_iff.mp hnone e he
    simp [heq] at hne

/-- No wish to write is lost, but for those of the backends with `f` and the clients with `g`. -/
structure Raises (f : ServerId → Bool) (g : ClientId → Bool) (p p' : Poller) : Prop where
  keyed : p.Keyed → p'.Keyed
  server : ∀ s : ServerId, f s = false → p.wants (.server s) = true → p'.wants (.server s) = true
  client : ∀ c : ClientId, g c = false → p.wants (.client c) = true → p'.wants (.client c) = true

variable {f : ServerId → Bool} {g : ClientId → Bool}

theorem Raises.refl (p : Poller) : Raises f g p p := ⟨id, fun _ _ => id, fun _ _ => id⟩

theorem Raises.trans (h : Raises f g p p') (h' : Raises f g p' p'') : Raises f g p p'' :=
  ⟨fun hk => h'.keyed (h.keyed hk), fun s hs hw => h'.server s hs (h.server s hs hw),
    fun c hc hw => h'.client c hc (h.client c hc hw)⟩

theorem raises_register (hs : ∀ s, f s = false → Conn.server s ≠ c) (hc : ∀ c', g c' = false → Conn.client c' ≠ c)
    (b : Option Bool) : Raises f g p (p.register c b) := by
  refine ⟨id, fun s hf hw => ?_, fun c' hg hw => ?_⟩
  · rw [register_wants_of_ne (hs s hf)]
    exact hw
  · rw [register_wants_of_ne (hc c' hg)]
    exact hw

/-- The wish of a backend that is polled for write events at once. -/
theorem raises_addRw {s : ServerId} (h : p.connPollType.lookup (.server s) ≠ some false) :
    Raises f g p (p.addRw (.server s)) := by
  refine ⟨id, fun t _ hw => ?_, fun c _ hw => ?_⟩
  · by_cases heq : t = s
    · rw [heq]
      exact addRw_wants h
    · exact (register_wants_of_ne (fun h => heq (Conn.server.inj h)) _).trans hw
  · exact (register_wants_of_ne (by nofun) _).trans hw

theorem raises_setConnPollRw (c : Conn) : Raises f g p (p.setConnPollRw c) := by
  have hraise : ∀ d, p.wants d = true → (p.setConnPollRw c).wants d = true := by
    intro d hd
    by_cases heq : d = c
    · rw [heq]
      exact setConnPollRw_wants_self
    · rw [setConnPollRw_wants_of_ne heq]
      exact hd
  exact ⟨fun h => h.setConnPollRw c, fun s _ => hraise _, fun c' _ => hraise _⟩

theorem raises_setConnPollRo (hs : ∀ s, f s = false → Conn.server s ≠ c) (hc : ∀ c', g c' = false → Conn.client c' ≠ c) :
    Raises f g p (p.setConnPollRo c) := by
  refine ⟨fun h => h.setConnPollRo c, fun s hf hw => ?_, fun c' hg hw => ?_⟩
  · rw [setConnPollRo_wants_of_ne (hs s hf)]
    exact hw
  · rw [setConnPollRo_wants_of_ne (hc c' hg)]
    exact hw

theorem raises_wakePeers : ∀ (ss : List ServerId) (p : Poller),
    Raises f g p (ss.foldl (fun p s => p.setConnPollRw (.server s)) p)
  | [], p => .refl p
  | s :: ss, _ => (raises_setConnPollRw (.server s)).trans (raises_wakePeers ss _)

theorem wakePeers_wants {s : ServerId} : ∀ (ss : List ServerId) (p : Poller), s ∈ ss →
    (ss.foldl (fun p s => p.setConnPollRw (.server s)) p).wants (.server s) = true
  | t :: ss, p, h => by
      rcases List.mem_cons.mp h with rfl | h
      · exact (raises_wakePeers (f := fun _ => false) (g := fun _ => false) ss _).server s rfl setConnPollRw_wants_self
      · exact wakePeers_wants ss _ h

end Poller

/-! ### Commands of clients that are about to be destroyed -/

namespace Traffic

/-- The client of the command is closed. -/
structure Leaving (x : Traffic) (k : CmdId) : Prop where
  built : k < x.objects.cmdCount
  grouped : (x.objects.cmds k).group < x.objects.groupCount
  owned : x.owner k < x.clientCount
  closed : (x.clients (x.owner k)).closed = true

/-- Commands stay with their clients, and no client becomes open again. -/
structure Keeps (x x' : Traffic) : Prop where
  cmdCount : x.objects.cmdCount ≤ x'.objects.cmdCount
  groupCount : x.objects.groupCount ≤ x'.objects.groupCount
  clientCount : x.clientCount ≤ x'.clientCount
  group : ∀ k < x.objects.cmdCount, (x'.objects.cmds k).group = (x.objects.cmds k).group
  client : ∀ g < x.objects.groupCount, (x'.objects.groups g).client = (x.objects.groups g).client
  closed : ∀ c < x.clientCount, (x.clients c).closed = true → (x'.clients c).closed = true

variable {x x' : Traffic} {p p' : Poller} {k : CmdId} {s : ServerId} {c : ClientId}

theorem Leaving.keeps (h : x.Leaving k) (hx : x.Keeps x') : x'.Leaving k := by
  have hgroup := hx.group k h.built
  have howner : x'.owner k = x.owner k := by
    show (x'.objects.groups (x'.objects.cmds k).group).client = _
    rw [hgroup]
    exact hx.client _ h.grouped
  refine ⟨h.built.trans_le hx.cmdCount, ?_, ?_, ?_⟩
  · rw [hgroup]
    exact h.grouped.trans_le hx.groupCount
  · rw [howner]
    exact h.owned.trans_le hx.clientCount
  · rw [howner]
    exact hx.closed _ h.owned h.closed

/-- The objects are the same, and so are the clients but for members that do not matter here. -/
theorem Keeps.of_calm (h : x.Calm x') (ho : Objects.Alike x.objects x'.objects)
    (hgroup : ∀ k < x.objects.cmdCount, (x'.objects.cmds k).group = (x.objects.cmds k).group) : x.Keeps x' where
  cmdCount := ho.cmdCount.ge
  groupCount := ho.groupCount.ge
  clientCount := h.clientCount.ge
  group := hgroup
  client g _ := ho.client g
  closed c _ hc := (h.closed c).trans hc

/-! ### Pending writes -/

/-- Where something is pending there is write interest.  `f` and `g` say which backends and which
clients are out of the question; the commands with `E` still have to be seen to, and those of a
client that is closed go away with it.  `A` says which clients may be closed. -/
structure Alert (A : ClientId → Prop) (f : ServerId → Bool) (g : ClientId → Bool) (E : ServerId → CmdId → Prop)
    (x : Traffic) (p : Poller) : Prop where
  keyed : p.Keyed
  output : ∀ s, f s = false → (x.servers s).outputBufferSet.empty = false → p.wants (.server s) = true
  commands : ∀ s, f s = false → ∀ k ∈ (x.servers s).commands, p.wants (.server s) = true ∨ x.Leaving k ∨ E s k
  clients : ∀ c, g c = false → (x.clients c).outputBufferSet.empty = false → p.wants (.client c) = true
  parting : ∀ c ∈ x.liveClients, (x.clients c).closed = true → A c

section Alert

variable {A B : ClientId → Prop} {f f' : ServerId → Bool} {g o : ClientId → Bool} {E D : ServerId → CmdId → Prop}

theorem Alert.raise (h : Alert A f g E x p) (hp : Poller.Raises f g p p') : Alert A f g E x p' where
  keyed := hp.keyed h.keyed
  output s hs ho := hp.server s hs (h.output s hs ho)
  commands s hs k hk := (h.commands s hs k hk).imp_left (hp.server s hs)
  clients c hc ho := hp.client c hc (h.clients c hc ho)
  parting := h.parting

theorem Alert.mono (h : Alert A f g E x p) (hf : ∀ s, f' s = false → f s = false) (hg : ∀ c, o c = false → g c = false) :
    Alert A f' o E x p where
  keyed := h.keyed
  output s hs := h.output s (hf s hs)
  commands s hs := h.commands s (hf s hs)
  clients c hc := h.clients c (hg c hc)
  parting := h.parting

theorem Alert.allow (h : Alert A f g E x p) (hA : ∀ c ∈ x.liveClients, (x.clients c).closed = true → A c → B c) :
    Alert B f g E x p :=
  { h with parting := fun c hc hclosed => hA c hc hclosed (h.parting c hc hclosed) }

/-- Some commands have been seen to. -/
theorem Alert.settle (h : Alert A f g E x p) (hE : ∀ s, f s = false → ∀ k ∈ (x.servers s).commands, E s k →
    p.wants (.server s) = true ∨ x.Leaving k ∨ D s k) : Alert A f g D x p :=
  { h with
    commands := fun s hs k hk => by
      rcases h.commands s hs k hk with hw | hl | he
      · exact Or.inl hw
      · exact Or.inr (Or.inl hl)
      · exact hE s hs k hk he }

/-- Something happens to commands and clients. -/
theorem Alert.move (h : Alert A f g E x p) (hx : x.Keeps x')
    (houtput : ∀ s, f s = false → (x'.servers s).outputBufferSet = (x.servers s).outputBufferSet)
    (hcommands : ∀ s, f s = false → ∀ k ∈ (x'.servers s).commands,
      k ∈ (x.servers s).commands ∨ p.wants (.server s) = true ∨ E s k)
    (hclients : ∀ c, g c = false → (x'.clients c).outputBufferSet.empty = false →
      (x.clients c).outputBufferSet.empty = false ∨ p.wants (.client c) = true)
    (hparting : ∀ c ∈ x'.liveClients, (x'.clients c).closed = true → A c) : Alert A f g E x' p where
  keyed := h.keyed
  output s hs ho := by
    rw [houtput s hs] at ho
    exact h.output s hs ho
  commands s hs k hk := by
    rcases hcommands s hs k hk with hk | hw | he
    · exact (h.commands s hs k hk).imp_right (Or.imp_left fun hl => hl.keeps hx)
    · exact Or.inl hw
    · exact Or.inr (Or.inr he)
  clients c hc ho := by
    rcases hclients c hc ho with ho | hw
    · exact h.clients c hc ho
    · exact hw
  parting := hparting

theorem Keeps.refl (x : Traffic) : x.Keeps x := ⟨le_rfl, le_rfl, le_rfl, fun _ _ => rfl, fun _ _ => rfl, fun _ _ => id⟩

/-- Commands that wait for a slot map, and the map itself, are not looked at. -/
theorem Alert.same (h : Alert A f g E x p) (y : Routes) (l : List CmdId) :
    Alert A f g E { x with routes := y, retryingCommands := l } p :=
  h.move ⟨le_rfl, le_rfl, le_rfl, fun _ _ => rfl, fun _ _ => rfl, fun _ _ => id⟩ (fun _ _ => rfl) (fun _ _ _ => Or.inl)
    (fun _ _ => Or.inl) h.parting

/-- A backend comes into the question. -/
theorem Alert.add (h : Alert A f g E x p) (hf : ∀ t ≠ s, f' t = false → f t = false)
    (houtput : (x.servers s).outputBufferSet.empty = false → p.wants (.server s) = true)
    (hcommands : ∀ k ∈ (x.servers s).commands, p.wants (.server s) = true) : Alert A f' g E x p where
  keyed := h.keyed
  output t ht := by
    by_cases heq : t = s
    · rw [heq]
      exact houtput
    · exact h.output t (hf t heq ht)
  commands t ht := by
    by_cases heq : t = s
    · rw [heq]
      exact fun k hk => Or.inl (hcommands k hk)
    · exact h.commands t (hf t heq ht)
  clients := h.clients
  parting := h.parting

/-- A client comes into the question. -/
theorem Alert.addClient (h : Alert A f g E x p) (hg : ∀ c' ≠ c, o c' = false → g c' = false)
    (hc : o c = false → (x.clients c).outputBufferSet.empty = false → p.wants (.client c) = true) :
    Alert A f o E x p where
  keyed := h.keyed
  output := h.output
  commands := h.commands
  clients c' hc' := by
    by_cases heq : c' = c
    · rw [heq] at hc' ⊢
      exact hc hc'
    · exact h.clients c' (hg c' heq hc')
  parting := h.parting

/-- Nothing is asked of a backend that is out of the question. -/
theorem Alert.setServer (h : Alert A f g E x p) (hs : f s = true) (v : Server) : Alert A f g E (x.setServer s v) p := by
  have hother : ∀ t, f t = false → (x.setServer s v).servers t = x.servers t := by
    intro t ht
    refine Function.update_of_ne ?_ ..
    rintro rfl
    exact nomatch hs.symm.trans ht
  refine h.move ⟨le_rfl, le_rfl, le_rfl, fun _ _ => rfl, fun _ _ => rfl, fun _ _ => id⟩ (fun t ht => ?_)
    (fun t ht k hk => ?_) (fun _ _ => Or.inl) h.parting
  · rw [hother t ht]
  · rw [hother t ht] at hk
    exact Or.inl hk

/-- The queues to be written are the same. -/
theorem Alert.setServer_same (h : Alert A f g E x p) {v : Server} (ho : v.outputBufferSet = (x.servers s).outputBufferSet)
    (hk : v.commands = (x.servers s).commands) : Alert A f g E (x.setServer s v) p := by
  have hsame : ∀ t, ((x.setServer s v).servers t).outputBufferSet = (x.servers t).outputBufferSet ∧
      ((x.setServer s v).servers t).commands = (x.servers t).commands := by
    intro t
    show (Function.update x.servers s v t).outputBufferSet = _ ∧ (Function.update x.servers s v t).commands = _
    by_cases heq : t = s
    · rw [heq, Function.update_self]
      exact ⟨ho, hk⟩
    · rw [Function.update_of_ne heq]
      exact ⟨rfl, rfl⟩
  refine h.move ⟨le_rfl, le_rfl, le_rfl, fun _ _ => rfl, fun _ _ => rfl, fun _ _ => id⟩ (fun t _ => (hsame t).1)
    (fun t _ k hk => ?_) (fun _ _ => Or.inl) h.parting
  rw [(hsame t).2] at hk
  exact Or.inl hk

/-! ### Commands that are given to a backend -/

theorem selectServer_objects (k : CmdId) (x : Traffic) : (x.selectServer k).1.objects = (x.markSelected k).objects := by
  unfold selectServer
  split <;> rfl

theorem selectServer_output (k : CmdId) (x : Traffic) (c : ClientId) :
    ((x.selectServer k).1.clients c).outputBufferSet = (x.clients c).outputBufferSet := by
  unfold selectServer
  split
  · rfl
  · show (Function.update x.clients _ _ c).outputBufferSet = _
    by_cases heq : c = (x.markSelected k).owner k
    · rw [heq, Function.update_self]
      rfl
    · rw [Function.update_of_ne heq]

theorem selectServer_servers (k : CmdId) (x : Traffic) : (x.selectServer k).1.servers =
    match (x.selectServer k).2 with
    | none => x.servers
    | some s => Function.update x.servers s ((x.servers s).pushClientCommand k) := by
  unfold selectServer
  split <;> rfl

theorem keeps_selectServer (k : CmdId) (x : Traffic) : x.Keeps (x.selectServer k).1 := by
  refine .of_calm (calm_selectServer k x) ?_ fun j _ => ?_
  · rw [selectServer_objects]
    exact Objects.Alike.setCmd ..
  · rw [selectServer_objects]
    exact Objects.setCmd_group (v := { x.objects.cmds k with selected := true }) rfl j

theorem Alert.selectServer (h : Alert A f g E x p) (k : CmdId)
    (hk : ∀ s, (x.selectServer k).2 = some s → p.wants (.server s) = true ∨ E s k) :
    Alert A f g E (x.selectServer k).1 p := by
  have hcalm := calm_selectServer k x
  have hqueues : ∀ t, ((x.selectServer k).1.servers t).outputBufferSet = (x.servers t).outputBufferSet ∧
      ∀ j ∈ ((x.selectServer k).1.servers t).commands,
        j ∈ (x.servers t).commands ∨ p.wants (.server t) = true ∨ E t j := by
    intro t
    rw [selectServer_servers]
    split
    · exact ⟨rfl, fun j => Or.inl⟩
    · rename_i s hs
      by_cases heq : t = s
      · rw [heq, Function.update_self]
        refine ⟨rfl, fun j hj => ?_⟩
        rcases List.mem_append.mp hj with hj | hj
        · exact Or.inl hj
        · rw [List.mem_singleton.mp hj]
          exact Or.inr (hk s hs)
      · rw [Function.update_of_ne heq]
        exact ⟨rfl, fun j => Or.inl⟩
  refine h.move (keeps_selectServer k x) (fun t _ => (hqueues t).1) (fun t _ => (hqueues t).2) (fun c _ ho => ?_)
    fun c hc hclosed => ?_
  · rw [selectServer_output] at ho
    exact Or.inl ho
  · rw [hcalm.liveClients] at hc
    rw [hcalm.closed] at hclosed
    exact h.parting c hc hclosed

end Alert

end Traffic

/-! ### Responses -/

namespace Session

variable {s : Session}

theorem pushAwaitingsToReady_cmds (s : Session) : ∀ j < s.objects.cmdCount,
    s.pushAwaitingsToReady.objects.cmds j = s.objects.cmds j := by
  intro j hj
  unfold pushAwaitingsToReady
  split
  · rfl
  · rw [appendAll_eq]
    dsimp only
    split
    · exact (Objects.appendBuffersTo_grows s.self _ s.objects).cmds j hj
    · exact (Objects.appendBuffersTo_grows s.self _ s.objects).cmds j hj

theorem onRemoteResponsed_group (k : CmdId) (rsp : Bytes) (error : Bool) (s : Session) : ∀ j < s.objects.cmdCount,
    ((s.onRemoteResponsed k rsp error).objects.cmds j).group = (s.objects.cmds j).group := by
  intro j hj
  obtain ⟨hgroup, -, -⟩ := (s.objects.cmds k).onRemoteResponsed_same rsp error
  unfold onRemoteResponsed
  dsimp only
  generalize (s.objects.cmds k).onRemoteResponsed rsp error = r at *
  have hresp : ((s.objects.respond k r.1).1.cmds j).group = (s.objects.cmds j).group := (Objects.respond_cmds hgroup j).1
  unfold Objects.respond at hresp
  split
  · split
    · show ((pushAwaitingsToReady _).objects.cmds j).group = _
      rw [pushAwaitingsToReady_cmds]
      · exact hresp
      · exact hj
    · exact hresp
  · exact Objects.setCmd_group hgroup j

/-- Something to write that a response leads to is announced. -/
theorem onRemoteResponsed_pending (k : CmdId) (rsp : Bytes) (error : Bool) (hs : s.calls = []) :
    ((s.onRemoteResponsed k rsp error).calls = [] ∧
      ((s.onRemoteResponsed k rsp error).client.outputBufferSet.empty = false → s.client.outputBufferSet.empty = false)) ∨
    (s.onRemoteResponsed k rsp error).calls = [.pollRw] ∨
    ((s.onRemoteResponsed k rsp error).calls = [.reactivate k] ∧ (s.onRemoteResponsed k rsp error).client = s.client) := by
  have hpush : ∀ t : Session, t.calls = [] → t.client.outputBufferSet = s.client.outputBufferSet →
      (t.pushAwaitingsToReady.calls = [] ∧
        (t.pushAwaitingsToReady.client.outputBufferSet.empty = false → s.client.outputBufferSet.empty = false)) ∨
      t.pushAwaitingsToReady.calls = [.pollRw] := by
    intro t hcalls hout
    unfold pushAwaitingsToReady
    split
    · exact Or.inl ⟨hcalls, fun h => hout ▸ h⟩
    · rw [appendAll_eq]
      dsimp only
      split
      · rename_i hempty
        exact Or.inl ⟨hcalls, fun h => nomatch hempty.symm.trans h⟩
      · refine Or.inr ?_
        show t.calls ++ [.pollRw] = _
        rw [hcalls]
        rfl
  unfold onRemoteResponsed
  dsimp only
  split
  · split
    · rcases hpush { s with
          objects := ((s.objects.setCmd k { ((s.objects.cmds k).onRemoteResponsed rsp error).1 with
            responsed := true }).commandResponsed ((s.objects.cmds k).onRemoteResponsed rsp error).1.group).1
          client := { s.client with awaitingCount := s.client.awaitingCount - 1 } } hs rfl with h | h
      · exact Or.inl h
      · exact Or.inr (Or.inl h)
    · exact Or.inl ⟨hs, id⟩
  · refine Or.inr (Or.inr ⟨?_, rfl⟩)
    show s.calls ++ [.reactivate k] = _
    rw [hs]
    rfl

end Session

namespace World

open Traffic (Alert)

variable {cfg : Config} {w : World} {A B : ClientId → Prop} {f f' : ServerId → Bool} {g o : ClientId → Bool}
  {E D : ServerId → CmdId → Prop}

theorem alert_reactivate (h : Alert A f g E w.toTraffic w.poller) (c : ClientId) (k : CmdId) :
    Alert A f g E (w.call c (.reactivate k)).toTraffic (w.call c (.reactivate k)).poller := by
  have hselect := fun p' (hp : Poller.Raises f g w.poller p') => (h.raise hp).selectServer k
  unfold call
  dsimp only
  split
  · rename_i heq
    rw [heq] at hselect
    exact hselect _ (.refl _) nofun
  · rename_i s heq
    rw [heq] at hselect
    refine hselect _ (Poller.raises_setConnPollRw (.server s)) fun t ht => Or.inl ?_
    cases ht
    exact Poller.setConnPollRw_wants_self

theorem keeps_respond (k : CmdId) (rsp : Bytes) (error : Bool) (w : World) (r : List CmdId) : w.toTraffic.Keeps
    { w.toTraffic.store ((w.session (w.owner k) []).onRemoteResponsed k rsp error) with responsed := r } := by
  have hclosed := Session.onRemoteResponsed_closed k rsp error (w.session (w.owner k) [])
  have hself := Session.onRemoteResponsed_self k rsp error (w.session (w.owner k) [])
  have halike := (Session.shifts_onRemoteResponsed k rsp error (w.session (w.owner k) [])).alike
  have hgroup := Session.onRemoteResponsed_group k rsp error (w.session (w.owner k) [])
  generalize (w.session (w.owner k) []).onRemoteResponsed k rsp error = t at *
  refine .of_calm ⟨rfl, rfl, rfl, fun c => ?_⟩ halike hgroup
  show (Function.update w.clients t.self t.client c).closed = _
  rw [show t.self = w.owner k from hself]
  exact Traffic.update_closed hclosed c

theorem alert_respond (h : Alert A f g E w.toTraffic w.poller) (k : CmdId) (rsp : Bytes) (error : Bool) :
    Alert A f g E (w.respond k rsp error).toTraffic (w.respond k rsp error).poller := by
  have hclosed := Session.onRemoteResponsed_closed k rsp error (w.session (w.owner k) [])
  have hself := Session.onRemoteResponsed_self k rsp error (w.session (w.owner k) [])
  have hkeeps := keeps_respond k rsp error w
  have hpending := Session.onRemoteResponsed_pending (s := w.session (w.owner k) []) k rsp error rfl
  unfold respond
  dsimp only
  generalize (w.session (w.owner k) []).onRemoteResponsed k rsp error = t at *
  generalize (if ((w.objects.cmds k).onRemoteResponsed rsp error).2 then w.responsed ++ [k] else w.responsed) = r
  have hself : t.self = w.owner k := hself
  -- what the client has to write is announced by `pollRw`, if it was not before
  have hmove : ∀ {p : Poller}, Alert A f g E w.toTraffic p →
      ((t.client.outputBufferSet.empty = false → (w.clients (w.owner k)).outputBufferSet.empty = false) ∨
        p.wants (.client (w.owner k)) = true) → Alert A f g E { w.toTraffic.store t with responsed := r } p := by
    intro p hp hout
    refine hp.move (hkeeps r) (fun _ _ => rfl) (fun _ _ _ => Or.inl) (fun c _ ho => ?_) fun c hc hcl => ?_
    · replace ho : (Function.update w.clients t.self t.client c).outputBufferSet.empty = false := ho
      rw [hself] at ho
      by_cases heq : c = w.owner k
      · rw [heq, Function.update_self] at ho
        rw [heq]
        exact hout.imp_left fun hout => hout ho
      · rw [Function.update_of_ne heq] at ho
        exact Or.inl ho
    · refine h.parting c hc ?_
      rw [← hcl]
      show _ = (Function.update w.clients t.self t.client c).closed
      rw [hself]
      exact (Traffic.update_closed hclosed c).symm
  rcases hpending with ⟨hcalls, hout⟩ | hcalls | ⟨hcalls, hclient⟩
  · rw [hcalls]
    exact hmove h (Or.inl hout)
  · rw [hcalls]
    refine hmove (h.raise (Poller.raises_setConnPollRw (.client t.self))) (Or.inr ?_)
    rw [hself]
    exact Poller.setConnPollRw_wants_self
  · rw [hcalls]
    refine alert_reactivate (w := { w with toTraffic := _ }) (hmove h (Or.inl fun ho => ?_)) t.self k
    rw [hclient] at ho
    exact ho

theorem alert_rspTo (h : Alert A f g E w.toTraffic w.poller) (a : CmdId × Response) :
    Alert A f g E (w.rspTo a).toTraffic (w.rspTo a).poller := by
  unfold rspTo
  split
  · exact alert_respond h _ _ _
  · exact h.same ..

theorem alert_foldl {α : Type} {m : World → α → World}
    (hm : ∀ {w : World} (a : α), Alert A f g E w.toTraffic w.poller → Alert A f g E (m w a).toTraffic (m w a).poller) :
    ∀ (l : List α) {w : World}, Alert A f g E w.toTraffic w.poller →
      Alert A f g E (l.foldl m w).toTraffic (l.foldl m w).poller
  | [], _, h => h
  | a :: l, _, h => alert_foldl hm l (hm a h)

/-! ### Backends -/

theorem alert_opened (h : Alert A f g E w.toTraffic w.poller) {s : ServerId}
    (hs : w.poller.connPollType.lookup (.server s) ≠ some false) :
    Alert A (Function.update f s false) g E (w.serverCall cfg (.opened s)).toTraffic (w.serverCall cfg (.opened s)).poller := by
  have hconnected : ((w.servers s).onServerConnected cfg.mode.isSome).outputBufferSet = (w.servers s).outputBufferSet ∧
      ((w.servers s).onServerConnected cfg.mode.isSome).commands = (w.servers s).commands := by
    unfold Server.onServerConnected
    split
    · exact ⟨rfl, rfl⟩
    · exact ⟨rfl, rfl⟩
  have hopened := (h.setServer_same hconnected.1 hconnected.2).raise (Poller.raises_addRw hs)
  refine hopened.add (s := s) (fun t hne ht => ?_) (fun _ => Poller.addRw_wants hs) fun _ _ => Poller.addRw_wants hs
  rw [Function.update_of_ne hne] at ht
  exact ht

theorem update_true_of_false {f : ServerId → Bool} {s t : ServerId} (h : Function.update f s true t = false) :
    t ≠ s ∧ f t = false := by
  have hne : t ≠ s := by
    rintro rfl
    rw [Function.update_self] at h
    cases h
  rw [Function.update_of_ne hne] at h
  exact ⟨hne, h⟩

theorem alert_closed (h : Alert A f g E w.toTraffic w.poller) (s : ServerId) :
    Alert A (Function.update f s true) g E (w.serverCall cfg (.closed s)).toTraffic (w.serverCall cfg (.closed s)).poller := by
  have hspared : Alert A (Function.update f s true) g E w.toTraffic w.poller :=
    h.mono (fun t ht => (update_true_of_false ht).2) fun _ => id
  have hclosed := (hspared.setServer (Function.update_self ..) (w.servers s).closeConn).same w.routes
    (w.retryingCommands ++ (w.servers s).retried)
  refine hclosed.raise (Poller.raises_register (fun t ht heq => ?_) (fun _ _ => by nofun) none)
  exact (update_true_of_false ht).1 (Conn.server.inj heq)

/-- The connections are made and closed as the registry says.  A backend that gets a new connection
must not be waiting for read events only. -/
theorem alert_serverCalls : ∀ (cs : List ServerCall) {f : ServerId → Bool} {w : World}, ServerCall.Plays f cs f' →
    (∀ s, .opened s ∈ cs → w.poller.connPollType.lookup (.server s) ≠ some false) →
    Alert A f g E w.toTraffic w.poller →
    Alert A f' g E (cs.foldl (serverCall cfg) w).toTraffic (cs.foldl (serverCall cfg) w).poller
  | [], _, _, hplays, _, h => hplays ▸ h
  | .opened s :: cs, _, _, hplays, hopen, h =>
      alert_serverCalls cs hplays.2 (fun t ht => hopen t (List.mem_cons_of_mem _ ht))
        (alert_opened h (hopen s List.mem_cons_self))
  | .closed s :: cs, _, _, hplays, hopen, h =>
      alert_serverCalls cs hplays (fun t ht => hopen t (List.mem_cons_of_mem _ ht)) (alert_closed h s)

theorem serverCalls_routes : ∀ (cs : List ServerCall) (w : World), (cs.foldl (serverCall cfg) w).routes = w.routes ∧
    (cs.foldl (serverCall cfg) w).clients = w.clients ∧
    (cs.foldl (serverCall cfg) w).poller.connPollType = w.poller.connPollType
  | [], _ => ⟨rfl, rfl, rfl⟩
  | .opened _ :: cs, _ => serverCalls_routes cs _
  | .closed _ :: cs, _ => serverCalls_routes cs _

theorem alert_reroute (h : Alert A f g E w.toTraffic w.poller) {y : Routes}
    (hplays : ServerCall.Plays f y.registry.calls y.registry.closed)
    (hopen : ∀ s, .opened s ∈ y.registry.calls → w.poller.connPollType.lookup (.server s) ≠ some false) :
    Alert A (w.reroute cfg y).routes.registry.closed g E (w.reroute cfg y).toTraffic (w.reroute cfg y).poller := by
  unfold reroute
  rw [(serverCalls_routes _ _).1]
  exact alert_serverCalls y.registry.calls hplays hopen (h.same ..)

/-- Nothing is pending without write interest, but for the commands of clients that are closed. -/
def Watchful (A : ClientId → Prop) (w : World) : Prop :=
  Alert A w.routes.registry.closed (fun c => (w.clients c).closed) (fun _ _ => False) w.toTraffic w.poller

variable {w' : World} {s : ServerId}

theorem Watchful.of_calm (hcalm : w.toTraffic.Calm w'.toTraffic) (h : Alert A w.routes.registry.closed
    (fun c => (w.clients c).closed) (fun _ _ => False) w'.toTraffic w'.poller) : w'.Watchful A := by
  have hclosed : (fun c => (w'.clients c).closed) = fun c => (w.clients c).closed := funext hcalm.closed
  unfold Watchful
  rw [hcalm.routes, hclosed]
  exact h

/-- The same when one backend is about to be closed. -/
def WatchfulBut (s : ServerId) (A : ClientId → Prop) (w : World) : Prop :=
  Alert A (Function.update w.routes.registry.closed s true) (fun c => (w.clients c).closed) (fun _ _ => False)
    w.toTraffic w.poller

theorem Watchful.but (h : w.Watchful A) (s : ServerId) : w.WatchfulBut s A :=
  Alert.mono h (fun _ ht => (update_true_of_false ht).2) fun _ => id

theorem WatchfulBut.of_calm (hcalm : w.toTraffic.Calm w'.toTraffic) (h : Alert A
    (Function.update w.routes.registry.closed s true) (fun c => (w.clients c).closed) (fun _ _ => False)
    w'.toTraffic w'.poller) : w'.WatchfulBut s A := by
  have hclosed : (fun c => (w'.clients c).closed) = fun c => (w.clients c).closed := funext hcalm.closed
  unfold WatchfulBut
  rw [hcalm.routes, hclosed]
  exact h

theorem WatchfulBut.closeServer (h : w.WatchfulBut s A) (cfg : Config) (hcalls : w.routes.registry.calls = []) :
    (w.closeServer cfg s).Watchful A := by
  unfold Watchful
  rw [show (w.closeServer cfg s).clients = w.clients from (serverCalls_routes ..).2.1]
  cases hs : w.routes.registry.closed s with
  | true =>
      have hsame := Registry.closeConn_of_closed hs
      refine alert_reroute h ?_ fun t ht => ?_
      · dsimp only
        rw [hsame, hcalls, ← hs]
        exact (Function.update_eq_self ..).symm
      · dsimp only at ht
        rw [hsame, hcalls] at ht
        cases ht
  | false =>
      have hopened := Registry.closeConn_of_open hs
      refine alert_reroute h ?_ fun t ht => ?_
      · dsimp only
        rw [hopened, hcalls]
        exact (Function.update_idem ..).symm
      · dsimp only at ht
        rw [hopened, hcalls] at ht
        simp at ht

theorem recvFrom_commands (s : Server) (inp : Input) : (s.recvFrom inp).1.commands = s.commands := by
  unfold Server.recvFrom
  repeat' split
  all_goals rfl

/-- What has been read goes to the clients, or the connection is given up. -/
theorem watchful_serverRead (cfg : Config) (hcalls : w.routes.registry.calls = []) (h : w.Watchful A) (s : ServerId) (inp : Input) :
    ((w.serverRead cfg s inp).2 = none → (w.serverRead cfg s inp).1.Watchful A) ∧
    ((w.serverRead cfg s inp).2 ≠ none → (w.serverRead cfg s inp).1.WatchfulBut s A ∧
      (w.serverRead cfg s inp).1.routes.registry.calls = []) := by
  have hset : Watchful A { w with toTraffic := w.toTraffic.setServer s ((w.servers s).recvFrom inp).1 } :=
    Alert.setServer_same h (Reused.recvFrom_outputBufferSet ..) (recvFrom_commands ..)
  unfold serverRead
  dsimp only
  split
  · rename_i rsps _
    refine ⟨fun _ => ?_, fun hne => absurd rfl hne⟩
    exact .of_calm (calm_foldl calm_rspTo rsps _).traffic (alert_foldl (fun a ha => alert_rspTo ha a) rsps hset)
  · exact ⟨fun _ => (hset.but s).closeServer cfg hcalls, fun hne => absurd rfl hne⟩
  · exact ⟨nofun, fun _ => ⟨hset.but s, hcalls⟩⟩

theorem andThen_cases {P : World × Option ConnThrow → Prop} {r : World × Option ConnThrow}
    {m : World → World × Option ConnThrow} (hm : r.2 = none → P (m r.1)) (hr : r.2 ≠ none → P r) : P (andThen r m) := by
  unfold andThen
  split
  · rename_i hnone
    exact hm hnone
  · rename_i e hthrew
    refine hr ?_
    rw [hthrew]
    exact Option.some_ne_none e

/-- A backend that has written what it could asks for what is left. -/
theorem alert_serverSend (h : Alert A f g E w.toTraffic w.poller) (s : ServerId) (write : Option (List WriteAnswer)) :
    ((w.serverSend s write).2 = none → Alert A f g E (w.serverSend s write).1.toTraffic (w.serverSend s write).1.poller) ∧
    ((w.serverSend s write).2 ≠ none →
      Alert A (Function.update f s true) g E (w.serverSend s write).1.toTraffic (w.serverSend s write).1.poller) := by
  have hself : Function.update f s true s = true := Function.update_self ..
  have hpush : Alert A (Function.update f s true) g E (w.toTraffic.setServer s (w.servers s).pushToBufferSet) w.poller :=
    (h.mono (fun _ ht => (update_true_of_false ht).2) fun _ => id).setServer hself _
  have hadd : ∀ t ≠ s, f t = false → Function.update f s true t = false := by
    intro t hne ht
    rw [Function.update_of_ne hne]
    exact ht
  have hlast : ∀ r : World × Option ConnThrow,
      Alert A (Function.update f s true) g E r.1.toTraffic r.1.poller → (r.1.servers s).commands = [] →
      ∀ q, q = andThen r (fun w =>
        if (w.servers s).outputBufferSet.empty then ({ w with poller := w.poller.setConnPollRo (.server s) }, none)
        else ({ w with poller := w.poller.setConnPollRw (.server s) }, none)) →
      (q.2 = none → Alert A f g E q.1.toTraffic q.1.poller) ∧
      (q.2 ≠ none → Alert A (Function.update f s true) g E q.1.toTraffic q.1.poller) := by
    rintro r hr hnil q rfl
    refine andThen_cases (P := fun q => (q.2 = none → Alert A f g E q.1.toTraffic q.1.poller) ∧
      (q.2 ≠ none → Alert A (Function.update f s true) g E q.1.toTraffic q.1.poller)) (fun _ => ?_)
      fun hthrew => ⟨fun hnone => absurd hnone hthrew, fun _ => hr⟩
    split
    · rename_i hempty
      refine ⟨fun _ => ?_, fun hne => absurd rfl hne⟩
      have hro := hr.raise (Poller.raises_setConnPollRo (c := .server s)
        (fun t ht heq => (update_true_of_false ht).1 (Conn.server.inj heq)) fun _ _ => by nofun)
      refine hro.add hadd (fun ho => ?_) fun k hk => ?_
      · exact nomatch hempty.symm.trans ho
      · rw [hnil] at hk
        cases hk
    · refine ⟨fun _ => ?_, fun hne => absurd rfl hne⟩
      exact (hr.raise (Poller.raises_setConnPollRw (.server s))).add hadd
        (fun _ => Poller.setConnPollRw_wants_self) fun _ _ => Poller.setConnPollRw_wants_self
  have hnil : (Function.update w.servers s (w.servers s).pushToBufferSet s).commands = [] := by
    rw [Function.update_self]
    rfl
  cases write with
  | none => exact hlast (_, none) hpush hnil _ rfl
  | some script =>
      refine hlast (serverWrite s script { w with
        toTraffic := w.toTraffic.setServer s (w.servers s).pushToBufferSet }) (hpush.setServer hself _) ?_ _ rfl
      refine (congrArg Server.commands (Function.update_self ..)).trans ?_
      exact hnil

theorem watchful_serverEvent (cfg : Config) (hcalls : w.routes.registry.calls = []) (h : w.Watchful A) (s : ServerId) (hup : Bool)
    (read : Option Input) (write : Option (List WriteAnswer)) :
    ((w.serverEvent cfg s hup read write).2 = none → (w.serverEvent cfg s hup read write).1.Watchful A) ∧
    ((w.serverEvent cfg s hup read write).2 ≠ none → (w.serverEvent cfg s hup read write).1.WatchfulBut s A) := by
  obtain heq | heq | ⟨r, hread, hrest⟩ := serverEvent_cases cfg s hup read write w
  · rw [heq]
    exact ⟨fun _ => h, fun hne => absurd rfl hne⟩
  · rw [heq]
    exact ⟨fun _ => (h.but s).closeServer cfg hcalls, fun hne => absurd rfl hne⟩
  · have hr : (r.2 = none → r.1.Watchful A) ∧
        (r.2 ≠ none → r.1.WatchfulBut s A ∧ r.1.routes.registry.calls = []) := by
      rcases hread with rfl | ⟨inp, -, rfl⟩
      · exact ⟨fun _ => h, fun hne => absurd rfl hne⟩
      · exact watchful_serverRead cfg hcalls h s inp
    rcases hrest with ⟨hnone, heq⟩ | ⟨hthrew, heq | heq⟩
    · have hsend := alert_serverSend (hr.1 hnone) s write
      have hcalm := (calm_serverSend s write r.1).traffic
      rw [heq]
      exact ⟨fun h => .of_calm hcalm (hsend.1 h), fun h => .of_calm hcalm (hsend.2 h)⟩
    · obtain ⟨hbut, hcalls⟩ := hr.2 hthrew
      rw [heq]
      exact ⟨fun _ => hbut.closeServer cfg hcalls, fun hne => absurd rfl hne⟩
    · rw [heq]
      exact ⟨fun hnone => absurd hnone hthrew, fun _ => (hr.2 hthrew).1⟩

end World

end Cerberus
