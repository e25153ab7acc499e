import Cerberus.Routing

/-! # Connections that are opened and closed

What a lookup, a new slot map or the loss of a server makes of the connections, without any
assumption on how connecting ends.  The calls that are logged tell the whole story: played one
after the other they turn the connections that were open into those that are (`Plays`), a
connection is opened only for a server that is closed, and all servers are ones that have been
allocated (`Follows`). -/

namespace Cerberus

namespace ServerCall

def server : ServerCall → ServerId
  | opened s => s
  | closed s => s

/-- The calls make the connections that are closed from `f` into `f'`. -/
def Plays : (ServerId → Bool) → List ServerCall → (ServerId → Bool) → Prop
  | f, [], f' => f' = f
  | f, opened s :: cs, f' => f s = true ∧ Plays (Function.update f s false) cs f'
  | f, closed s :: cs, f' => Plays (Function.update f s true) cs f'

theorem plays_append : ∀ {cs cs' : List ServerCall} {f m f' : ServerId → Bool}, Plays f cs m →
    Plays m cs' f' → Plays f (cs ++ cs') f'
  | [], _, _, _, _, rfl, h' => h'
  | opened _ :: cs, _, _, _, _, ⟨hs, h⟩, h' => ⟨hs, @plays_append cs _ _ _ _ h h'⟩
  | closed _ :: cs, _, _, _, _, h, h' => @plays_append cs _ _ _ _ h h'

end ServerCall

namespace Registry

/-- The servers in the pool are closed, and those that are open have been allocated. -/
structure Sound (r : Registry) : Prop where
  nodup : r.serversPool.Nodup
  pool : ∀ s ∈ r.serversPool, r.closed s = true ∧ s < r.allocated
  opened : ∀ s, r.closed s = false → s < r.allocated

/-- What has happened to the connections from `r` to `r'`. -/
structure Follows (r : Registry) (cs : List ServerCall) (r' : Registry) : Prop where
  sound : r'.Sound
  allocated : r.allocated ≤ r'.allocated
  calls : r'.calls = r.calls ++ cs
  plays : ServerCall.Plays r.closed cs r'.closed
  bound : ∀ c ∈ cs, c.server < r'.allocated

variable {r r' r'' : Registry} {s : ServerId} {a : Address} {c : Connect} {cs cs' : List ServerCall}

theorem sound_new : Sound new := ⟨List.nodup_nil, nofun, nofun⟩

theorem Follows.refl (h : r.Sound) : r.Follows [] r :=
  ⟨h, le_rfl, (List.append_nil _).symm, rfl, nofun⟩

theorem Follows.trans (h : r.Follows cs r') (h' : r'.Follows cs' r'') : r.Follows (cs ++ cs') r'' where
  sound := h'.sound
  allocated := h.allocated.trans h'.allocated
  calls := by rw [h'.calls, h.calls, List.append_assoc]
  plays := ServerCall.plays_append h.plays h'.plays
  bound c hc := by
    rcases List.mem_append.mp hc with hc | hc
    · exact (h.bound c hc).trans_le h'.allocated
    · exact h'.bound c hc

theorem Sound.not_mem_pool (h : r.Sound) (hs : r.closed s = false) : s ∉ r.serversPool := by
  intro hmem
  rw [(h.pool s hmem).1] at hs
  cases hs

theorem Sound.closeConn (h : r.Sound) (s : ServerId) : ∃ cs, r.Follows cs (r.closeConn s) := by
  cases hs : r.closed s with
  | true =>
      rw [closeConn_of_closed hs]
      exact ⟨[], .refl h⟩
  | false =>
      rw [closeConn_of_open hs]
      refine ⟨[.closed s], ⟨List.nodup_cons.mpr ⟨h.not_mem_pool hs, h.nodup⟩, fun t ht => ?_, fun t ht => ?_⟩,
        le_rfl, rfl, rfl, fun c hc => ?_⟩
      · rcases List.mem_cons.mp ht with rfl | ht
        · exact ⟨Function.update_self .., h.opened t hs⟩
        · refine ⟨?_, (h.pool t ht).2⟩
          have hne : t ≠ s := fun heq => h.not_mem_pool hs (heq ▸ ht)
          exact (Function.update_of_ne hne ..).trans (h.pool t ht).1
      · have ht : Function.update r.closed s true t = false := ht
        refine h.opened t ?_
        by_cases heq : t = s
        · rw [heq, Function.update_self] at ht
          cases ht
        · rw [Function.update_of_ne heq] at ht
          exact ht
      · rw [List.mem_singleton.mp hc]
        exact h.opened s hs

theorem Sound.closeAll : ∀ (l : List ServerId) {r : Registry}, r.Sound →
    ∃ cs, r.Follows cs (l.foldl (fun r s => r.closeConn s) r)
  | [], _, h => ⟨[], .refl h⟩
  | s :: l, r, h => by
      obtain ⟨cs, hcs⟩ := h.closeConn s
      obtain ⟨cs', hcs'⟩ := Sound.closeAll l hcs.sound
      exact ⟨cs ++ cs', hcs.trans hcs'⟩

theorem Sound.fillPool (h : r.Sound) : r.Follows [] r.fillPool := by
  unfold Registry.fillPool
  split
  · refine ⟨⟨List.nodup_reverse.mpr List.nodup_range', fun s hs => ?_, fun s hs => ?_⟩,
      Nat.le_add_right _ _, (List.append_nil _).symm, rfl, nofun⟩
    · obtain ⟨i, hi, rfl⟩ := List.mem_range'.mp (List.mem_reverse.mp hs)
      refine ⟨?_, ?_⟩
      · by_contra hc
        have hlt : r.allocated + 1 * i < r.allocated := h.opened _ (by simpa using hc)
        omega
      · show r.allocated + 1 * i < r.allocated + 8
        omega
    · exact (h.opened s hs).trans_le (Nat.le_add_right _ _)
  · exact .refl h

theorem insert_calls : (r.insert a s).calls = r.calls := by
  unfold Registry.insert
  split <;> rfl

theorem Sound.insert (h : r.Sound) (a : Address) (s : ServerId) : r.Follows [] (r.insert a s) := by
  refine ⟨⟨?_, ?_, ?_⟩, ?_, ?_, ?_, nofun⟩
  · rw [insert_serversPool]
    exact h.nodup
  · rw [insert_serversPool, insert_closed, insert_allocated]
    exact h.pool
  · rw [insert_closed, insert_allocated]
    exact h.opened
  · rw [insert_allocated]
  · rw [insert_calls, List.append_nil]
  · exact insert_closed

/-- The server on top of the pool is opened and taken. -/
theorem Sound.take_opened (h : r.Sound) {rest : List ServerId} (htop : r.serversPool = s :: rest)
    (a : Address) : r.Follows [.opened s]
      { (r.reconnect a .opened s).popPool with calls := (r.reconnect a .opened s).calls ++ [.opened s] } := by
  have hnd := htop ▸ h.nodup
  obtain ⟨hclosed, hlt⟩ := h.pool s (by rw [htop]; exact List.mem_cons_self)
  refine ⟨⟨?_, fun t ht => ?_, fun t ht => ?_⟩, le_rfl, rfl, ⟨hclosed, rfl⟩, fun c hc => ?_⟩
  · show r.serversPool.tail.Nodup
    rw [htop]
    exact (List.nodup_cons.mp hnd).2
  · have hmem : t ∈ rest := by
      rw [show ({ (r.reconnect a .opened s).popPool with
        calls := (r.reconnect a .opened s).calls ++ [.opened s] } : Registry).serversPool =
          r.serversPool.tail from rfl, htop] at ht
      exact ht
    have hpool := h.pool t (by rw [htop]; exact List.mem_cons_of_mem _ hmem)
    refine ⟨?_, hpool.2⟩
    have hne : t ≠ s := fun heq => (List.nodup_cons.mp hnd).1 (heq ▸ hmem)
    exact (Function.update_of_ne hne ..).trans hpool.1
  · by_cases heq : t = s
    · rw [heq]
      exact hlt
    · refine h.opened t ?_
      rw [← ht]
      exact (Function.update_of_ne heq ..).symm
  · rw [List.mem_singleton.mp hc]
    exact hlt

/-- A connection that is refused leaves its server in the pool. -/
theorem Sound.take_refused (h : r.Sound) {rest : List ServerId} (htop : r.serversPool = s :: rest)
    (a : Address) : r.Follows [.closed s] ((r.reconnect a .refused s).closeConn s).popPool := by
  obtain ⟨hclosed, hlt⟩ := h.pool s (by rw [htop]; exact List.mem_cons_self)
  have hopen : (r.reconnect a .refused s).closed s = false := Function.update_self ..
  have hsame : Function.update (Function.update r.closed s false) s true = r.closed := by
    rw [Function.update_idem, ← hclosed, Function.update_eq_self]
  rw [closeConn_of_open hopen]
  refine ⟨⟨?_, ?_, ?_⟩, le_rfl, rfl, ?_, fun c hc => ?_⟩
  · exact h.nodup
  · show ∀ t ∈ r.serversPool, Function.update (Function.update r.closed s false) s true t = true ∧ _
    rw [hsame]
    exact h.pool
  · show ∀ t, Function.update (Function.update r.closed s false) s true t = false → _
    rw [hsame]
    exact h.opened
  · show Function.update (Function.update r.closed s false) s true = Function.update r.closed s true
    exact Function.update_idem ..
  · rw [List.mem_singleton.mp hc]
    exact hlt

theorem Sound.take_socketError (h : r.Sound) {rest : List ServerId} (htop : r.serversPool = s :: rest)
    (a : Address) : r.Follows [] ((r.reconnect a .socketError s).closeConn s).popPool := by
  obtain ⟨hclosed, -⟩ := h.pool s (by rw [htop]; exact List.mem_cons_self)
  rw [show r.reconnect a .socketError s = r from rfl, closeConn_of_closed hclosed]
  refine ⟨⟨?_, fun t ht => h.pool t (List.mem_of_mem_tail ht), h.opened⟩, le_rfl, (List.append_nil _).symm,
    rfl, nofun⟩
  exact h.nodup.sublist (List.tail_sublist _)

theorem Sound.getServer (h : r.Sound) (a : Address) (c : Connect) {r' : Registry}
    (he : r.getServer a c = (r', some s)) : ∃ cs, r.Follows cs r' := by
  obtain ⟨t, rest, htop⟩ := r.exists_top
  have hnew : r.newServer a c = (r', some s) → ∃ cs, r.Follows cs r' := by
    intro he
    have hf := h.fillPool
    unfold Registry.newServer Registry.allocServer at he
    dsimp only at he
    rw [htop] at he
    cases c with
    | opened =>
        have htake := hf.trans (hf.sound.take_opened htop a)
        dsimp only at he
        cases he
        exact ⟨_, htake.trans (htake.sound.insert _ _)⟩
    | socketError =>
        have htake := hf.trans (hf.sound.take_socketError htop a)
        dsimp only at he
        cases he
        exact ⟨_, htake.trans (htake.sound.insert _ _)⟩
    | refused =>
        have htake := hf.trans (hf.sound.take_refused htop a)
        dsimp only at he
        cases he
        exact ⟨_, htake.trans (htake.sound.insert _ _)⟩
    | unknownHost =>
        dsimp only at he
        cases he
  unfold Registry.getServer at he
  split at he
  · split at he
    · exact hnew he
    · cases he
      exact ⟨[], .refl h⟩
  · exact hnew he

end Registry

/-! ### The slot map -/

theorem Replacing.mapNodes_follows : ∀ {plan : List (Address × List (ℕ × ℕ))} {connects : ℕ → Connect}
    {x y : Replacing}, x.registry.Sound → Replacing.mapNodes plan connects x = some y →
    ∃ cs, x.registry.Follows cs y.registry
  | [], _, x, _, h, he => by
      cases he
      exact ⟨[], .refl h⟩
  | (a, rgs) :: plan, connects, x, y, h, he => by
      unfold Replacing.mapNodes at he
      split at he
      · cases he
      · rename_i r s hget
        obtain ⟨cs, hcs⟩ := h.getServer a _ hget
        have hreg := mapRange_registry s rgs { x with registry := r }
        obtain ⟨cs', hcs'⟩ := mapNodes_follows (by rw [hreg]; exact hcs.sound) he
        rw [hreg] at hcs'
        exact ⟨cs ++ cs', hcs.trans hcs'⟩

namespace Routes

theorem replaceMap_follows {rank : ServerId → ℕ} {mode : Option Bytes} {nodes : List RedisNode}
    {connects : ℕ → Connect} {x : Routes} (hx : x.registry.Sound)
    (h : (x.replaceMap rank mode nodes connects).2 = none) :
    ∃ cs, x.registry.Follows cs (x.replaceMap rank mode nodes connects).1.registry := by
  obtain ⟨y, hy, heq⟩ := replaceMap_eq h
  obtain ⟨cs, hcs⟩ := Replacing.mapNodes_follows (x := ⟨x, [], []⟩) hx hy
  obtain ⟨cs', hcs'⟩ := hcs.sound.closeAll (inOrder rank (y.removed.filter (· ∉ y.newMapped)))
  rw [heq]
  exact ⟨cs ++ cs', hcs.trans hcs'⟩

theorem clear_follows {x : Routes} (rank : ServerId → ℕ) (hx : x.registry.Sound) :
    ∃ cs, x.registry.Follows cs (x.clear rank).registry := by
  unfold clear closeAll
  generalize inOrder rank ((List.range clusterSlotCount).filterMap x.slots) = l
  exact hx.closeAll l

/-- A server that is looked up is open. -/
theorem getServerBySlot_open {x : Routes} {i : ℕ} {s : ServerId} (h : x.getServerBySlot i = some s) :
    x.registry.closed s = false := by
  have := (Option.filter_eq_some_iff.mp h).2
  simpa using this

end Routes

end Cerberus
