import Cerberus.Registry
import Mathlib.Data.List.Dedup
import Mathlib.Data.List.Sort

/-! # The slot map

`core/slot_map.cpp`: which server has a slot, and how a map that a backend has sent is put in
place.  `replace_map` closes the servers that have lost all their slots in the order of their
addresses in memory, which is given by `rank`. -/

namespace Cerberus

/-- `slot_ranges` is the list of the elements of the set. -/
structure RedisNode where
  addr : Address
  nodeId : Bytes
  masterId : Bytes
  slotRanges : List (ℕ × ℕ)
deriving DecidableEq, Repr

def RedisNode.isMaster (n : RedisNode) : Bool := n.masterId.isEmpty

/-- `slave_of_map`: the address of the slave that stands for a master. -/
def slaveOfMap (hostBeginning : Bytes) (nodes : List RedisNode) : List (Bytes × Address) :=
  nodes.foldl (fun m n =>
    if n.isMaster then m
    else match m.lookup n.masterId with
    | some a => if stristartswith a.host hostBeginning then m else (n.masterId, n.addr) :: m
    | none => (n.masterId, n.addr) :: m) []

/-- The calls of `get_server`, each with the ranges of slots its result gets.  The mode is that
of `select_slave_if_possible`, if it was called. -/
def mapPlan (mode : Option Bytes) (nodes : List RedisNode) : List (Address × List (ℕ × ℕ)) :=
  nodes.filterMap fun n =>
    if n.slotRanges.isEmpty then none
    else some (match mode with
      | none => n.addr
      | some host => ((slaveOfMap host nodes).lookup n.nodeId).getD n.addr, n.slotRanges)

/-- All slots are slots of the array. -/
def PlanInRange (plan : List (Address × List (ℕ × ℕ))) : Prop :=
  ∀ p ∈ plan, ∀ rg ∈ p.2, rg.1 ≤ rg.2 → rg.2 < clusterSlotCount

instance (plan : List (Address × List (ℕ × ℕ))) : Decidable (PlanInRange plan) := by
  unfold PlanInRange
  infer_instance

structure Routes where
  registry : Registry
  slots : ℕ → Option ServerId

/-- The local variables of `replace_map`. -/
structure Replacing extends Routes where
  removed : List ServerId
  newMapped : List ServerId

/-- The loop over a range of slots. -/
def Replacing.mapRange (s : ServerId) (x : Replacing) (rg : ℕ × ℕ) : Replacing :=
  { x with
    slots := fun i => if rg.1 ≤ i ∧ i ≤ rg.2 then some s else x.slots i
    removed := x.removed ++ (List.range' rg.1 (rg.2 + 1 - rg.1)).filterMap x.slots
    newMapped := if rg.1 ≤ rg.2 then x.newMapped ++ [s] else x.newMapped }

/-- The loop over the nodes; `connects` says how the connections end.  Nothing is returned if an
exception escapes. -/
def Replacing.mapNodes : List (Address × List (ℕ × ℕ)) → (ℕ → Connect) → Replacing → Option Replacing
  | [], _, x => some x
  | (a, rgs) :: plan, connects, x =>
      match x.registry.getServer a (connects 0) with
      | (_, none) => none
      | (r, some s) =>
          mapNodes plan (fun n => connects (n + 1)) (rgs.foldl (mapRange s) { x with registry := r })

namespace Routes

def new : Routes := ⟨.new, fun _ => none⟩

/-- The elements of a set of servers in the order of the set. -/
def inOrder (rank : ServerId → ℕ) (l : List ServerId) : List ServerId :=
  l.dedup.insertionSort fun s t => rank s ≤ rank t

theorem mem_inOrder {rank : ServerId → ℕ} {l : List ServerId} {s : ServerId} : s ∈ inOrder rank l ↔ s ∈ l := by
  unfold inOrder
  rw [List.mem_insertionSort, List.mem_dedup]

/-- Call `close_conn` of all of them. -/
def closeAll (l : List ServerId) (x : Routes) : Routes :=
  { x with registry := l.foldl (fun r s => r.closeConn s) x.registry }

/-- `replace_map(nodes, proxy)` -/
def replaceMap (rank : ServerId → ℕ) (mode : Option Bytes) (nodes : List RedisNode)
    (connects : ℕ → Connect) (x : Routes) : Routes × Option ConnThrow :=
  if PlanInRange (mapPlan mode nodes) then
    match Replacing.mapNodes (mapPlan mode nodes) connects ⟨x, [], []⟩ with
    | none => (x, some .fatal)
    | some y => (y.closeAll (inOrder rank (y.removed.filter (· ∉ y.newMapped))), none)
  else (x, some .undefined)

/-- `clear()` -/
def clear (rank : ServerId → ℕ) (x : Routes) : Routes :=
  { x.closeAll (inOrder rank ((List.range clusterSlotCount).filterMap x.slots)) with
    slots := fun _ => none }

/-- `get_server_by_slot(key_slot)` -/
def getServerBySlot (x : Routes) (keySlot : ℕ) : Option ServerId :=
  (x.slots keySlot).filter fun s => !x.registry.closed s

theorem replaceMap_eq {rank : ServerId → ℕ} {mode : Option Bytes} {nodes : List RedisNode}
    {connects : ℕ → Connect} {x : Routes} (h : (x.replaceMap rank mode nodes connects).2 = none) :
    ∃ y, Replacing.mapNodes (mapPlan mode nodes) connects ⟨x, [], []⟩ = some y ∧
      (x.replaceMap rank mode nodes connects).1 =
        y.closeAll (inOrder rank (y.removed.filter (· ∉ y.newMapped))) := by
  unfold replaceMap at h ⊢
  by_cases hrange : PlanInRange (mapPlan mode nodes)
  · rw [if_pos hrange] at h ⊢
    cases hy : Replacing.mapNodes (mapPlan mode nodes) connects ⟨x, [], []⟩ with
    | none =>
        rw [hy] at h
        cases h
    | some y => exact ⟨y, rfl, rfl⟩
  · rw [if_neg hrange] at h
    cases h

end Routes

/-! ### A lookup that is not refused -/

namespace Registry

/-- What `get_server` does: the server it returns is not in the pool; if it is another one than
before it comes from the pool or is new, and nothing else changes. -/
structure Got (a : Address) (r r' : Registry) (s : ServerId) : Prop where
  inv : r'.Inv
  notPooled : s ∉ r'.serversPool
  allocated : s < r'.allocated
  mono : r.allocated ≤ r'.allocated
  addr : r'.closed s = false → r'.addr s = a
  pool : ∀ t ∈ r'.serversPool, t ∈ r.serversPool ∨ r.allocated ≤ t
  others : ∀ t, (t ∈ r.serversPool ∨ r.allocated ≤ t) ∨ (r'.closed t = r.closed t ∧ r'.addr t = r.addr t)

theorem fillPool_allocated_le (r : Registry) : r.allocated ≤ r.fillPool.allocated := by
  unfold fillPool
  split
  · exact Nat.le_add_right _ _
  · exact le_rfl

theorem mem_fillPool {r : Registry} {t : ServerId} (h : t ∈ r.fillPool.serversPool) :
    t ∈ r.serversPool ∨ r.allocated ≤ t := by
  unfold fillPool at h
  split at h
  · obtain ⟨i, -, rfl⟩ := List.mem_range'.mp (List.mem_reverse.mp h)
    exact Or.inr (Nat.le_add_right _ _)
  · exact Or.inl h

theorem Inv.newServer_got {r r' : Registry} {a : Address} {c : Connect} {s : ServerId} (h : r.Inv)
    (hc : c ≠ .refused) (he : r.newServer a c = (r', some s)) : Got a r r' s := by
  obtain ⟨s', rest, htop⟩ := r.exists_top
  have hf := h.fillPool
  have hpool : ∀ t ∈ r.fillPool.popPool.serversPool, t ∈ r.serversPool ∨ r.allocated ≤ t :=
    fun t ht => mem_fillPool (List.mem_of_mem_tail ht)
  have hs' := mem_fillPool (top_mem htop)
  have hclosed := hf.pool s' (top_mem htop)
  cases c with
  | refused => exact absurd rfl hc
  | unknownHost =>
      have := @newServer_unknownHost r a
      rw [he] at this
      cases this
  | opened =>
      have hinv := h.newServer_opened a
      rw [Registry.newServer_opened htop] at he hinv
      cases he
      refine ⟨hinv, ?_, ?_, ?_, fun _ => ?_, ?_, fun t => ?_⟩
      · rw [insert_serversPool]
        exact h.top_not_mem htop
      · rw [insert_allocated]
        exact hf.poolAllocated _ (top_mem htop)
      · rw [insert_allocated]
        exact r.fillPool_allocated_le
      · rw [insert_addr]
        exact Function.update_self ..
      · rw [insert_serversPool]
        exact hpool
      · by_cases ht : t = s
        · exact Or.inl (ht ▸ hs')
        · refine Or.inr ⟨?_, ?_⟩
          · rw [insert_closed]
            exact (Function.update_of_ne ht ..).trans (congrFun fillPool_closed t)
          · rw [insert_addr]
            exact (Function.update_of_ne ht ..).trans (congrFun fillPool_addr t)
  | socketError =>
      have hinv := h.newServer_socketError a
      rw [Registry.newServer_socketError htop (by rwa [fillPool_closed] at hclosed)] at he hinv
      cases he
      refine ⟨hinv, ?_, ?_, ?_, fun hopen => ?_, ?_,
        fun t => Or.inr ⟨?_, ?_⟩⟩
      · rw [insert_serversPool]
        exact h.top_not_mem htop
      · rw [insert_allocated]
        exact hf.poolAllocated _ (top_mem htop)
      · rw [insert_allocated]
        exact r.fillPool_allocated_le
      · rw [insert_closed] at hopen
        exact absurd (hclosed.symm.trans hopen) (by decide)
      · rw [insert_serversPool]
        exact hpool
      · rw [insert_closed]
        exact congrFun fillPool_closed t
      · rw [insert_addr]
        exact congrFun fillPool_addr t

theorem Inv.getServer_got {r r' : Registry} {a : Address} {c : Connect} {s : ServerId} (h : r.Inv)
    (hc : c ≠ .refused) (he : r.getServer a c = (r', some s)) : Got a r r' s := by
  by_cases hfound : ∃ s, r.Found a s
  · obtain ⟨t, ht⟩ := hfound
    rw [ht.getServer] at he
    cases he
    refine ⟨h, fun hmem => ?_, h.openAllocated s ht.2, le_rfl, fun _ => h.addr a s ht.mem ht.2,
      fun _ => Or.inl, fun _ => Or.inr ⟨rfl, rfl⟩⟩
    have := h.pool s hmem
    rw [ht.2] at this
    cases this
  · rw [getServer_of_not_found (not_exists.mp hfound)] at he
    exact h.newServer_got hc he

end Registry

/-! ### Which address a slot has -/

/-- A range of the plan contains the slot. -/
def InRanges (rgs : List (ℕ × ℕ)) (i : ℕ) : Prop := ∃ rg ∈ rgs, rg.1 ≤ i ∧ i ≤ rg.2

def PlanCovers (plan : List (Address × List (ℕ × ℕ))) (i : ℕ) : Prop := ∃ p ∈ plan, InRanges p.2 i

instance (rgs : List (ℕ × ℕ)) (i : ℕ) : Decidable (InRanges rgs i) := by
  unfold InRanges
  infer_instance

instance (plan : List (Address × List (ℕ × ℕ))) (i : ℕ) : Decidable (PlanCovers plan i) := by
  unfold PlanCovers
  infer_instance

/-- The addresses of the slots after a map: the last node with a slot has it. -/
def assign : List (Address × List (ℕ × ℕ)) → (ℕ → Option Address) → ℕ → Option Address
  | [], assigned => assigned
  | (a, rgs) :: plan, assigned =>
      assign plan fun i => if InRanges rgs i then some a else assigned i

theorem PlanCovers.of_cons {a : Address} {rgs : List (ℕ × ℕ)} {plan : List (Address × List (ℕ × ℕ))}
    {i : ℕ} (h : PlanCovers ((a, rgs) :: plan) i) (hi : ¬ InRanges rgs i) : PlanCovers plan i := by
  obtain ⟨p, hp, hin⟩ := h
  rcases List.mem_cons.mp hp with rfl | hp
  · exact absurd hin hi
  · exact ⟨p, hp, hin⟩

namespace Replacing

theorem mapRange_registry (s : ServerId) : ∀ (rgs : List (ℕ × ℕ)) (x : Replacing),
    (rgs.foldl (mapRange s) x).registry = x.registry
  | [], _ => rfl
  | rg :: rgs, x => mapRange_registry s rgs (x.mapRange s rg)

theorem mapRange_slots (s : ServerId) (i : ℕ) : ∀ (rgs : List (ℕ × ℕ)) (x : Replacing),
    (rgs.foldl (mapRange s) x).slots i = if InRanges rgs i then some s else x.slots i
  | [], x => by
      rw [if_neg fun ⟨_, h, _⟩ => List.not_mem_nil h]
      rfl
  | rg :: rgs, x => by
      rw [List.foldl_cons, mapRange_slots s i rgs]
      by_cases hrest : InRanges rgs i
      · obtain ⟨rg', hmem, hin⟩ := hrest
        rw [if_pos ⟨rg', hmem, hin⟩]
        exact (if_pos ⟨rg', List.mem_cons_of_mem _ hmem, hin⟩).symm
      · rw [if_neg hrest]
        by_cases hrg : rg.1 ≤ i ∧ i ≤ rg.2
        · rw [if_pos ⟨rg, List.mem_cons_self, hrg⟩]
          exact if_pos hrg
        · have hnot : ¬ InRanges (rg :: rgs) i := by
            rintro ⟨rg', hmem, hin⟩
            rcases List.mem_cons.mp hmem with rfl | hmem
            · exact hrg hin
            · exact hrest ⟨rg', hmem, hin⟩
          rw [if_neg hnot]
          exact if_neg hrg

/-- While the nodes of `plan` are still to come: a slot that has a server of the pool, or an open
server for another address than it should have, is one of theirs. -/
structure Inv (plan : List (Address × List (ℕ × ℕ))) (assigned : ℕ → Option Address)
    (x : Replacing) : Prop where
  registry : x.registry.Inv
  allocated : ∀ i s, x.slots i = some s → s < x.registry.allocated
  pooled : ∀ i s, x.slots i = some s → s ∈ x.registry.serversPool → PlanCovers plan i
  routed : ∀ i s, x.slots i = some s → x.registry.closed s = false →
    assigned i = some (x.registry.addr s) ∨ PlanCovers plan i

theorem Inv.step {a : Address} {rgs : List (ℕ × ℕ)} {plan : List (Address × List (ℕ × ℕ))}
    {assigned : ℕ → Option Address} {x : Replacing} {r : Registry} {s : ServerId}
    (h : x.Inv ((a, rgs) :: plan) assigned) (hg : Registry.Got a x.registry r s) :
    Inv plan (fun i => if InRanges rgs i then some a else assigned i)
      (rgs.foldl (mapRange s) { x with registry := r }) := by
  have hslots := fun i => mapRange_slots s i rgs { x with registry := r }
  have hreg := mapRange_registry s rgs { x with registry := r }
  -- a server of the pool, or a new one, is not that of a slot the plan leaves alone
  have hold : ∀ i t, ¬ InRanges rgs i → x.slots i = some t →
      t ∈ x.registry.serversPool ∨ x.registry.allocated ≤ t → PlanCovers plan i := by
    intro i t hi ht hor
    rcases hor with hpool | hnew
    · exact (h.pooled i t ht hpool).of_cons hi
    · exact absurd (h.allocated i t ht) (Nat.not_lt.mpr hnew)
  constructor
  · rw [hreg]
    exact hg.inv
  · intro i t ht
    rw [hreg]
    rw [hslots] at ht
    split at ht
    · cases ht
      exact hg.allocated
    · exact (h.allocated i t ht).trans_le hg.mono
  · intro i t ht hpool
    rw [hreg] at hpool
    rw [hslots] at ht
    split at ht
    · cases ht
      exact absurd hpool hg.notPooled
    · rename_i hi
      exact hold i t hi ht (hg.pool t hpool)
  · intro i t ht hopen
    rw [hreg] at hopen ⊢
    rw [hslots] at ht
    split at ht
    · rename_i hi
      cases ht
      rw [if_pos hi, hg.addr hopen]
      exact Or.inl rfl
    · rename_i hi
      rw [if_neg hi]
      rcases hg.others t with hor | ⟨hclosed, haddr⟩
      · exact Or.inr (hold i t hi ht hor)
      · rw [hclosed] at hopen
        rw [haddr]
        exact (h.routed i t ht hopen).imp_right fun hcov => hcov.of_cons hi

theorem Inv.mapNodes : ∀ {plan : List (Address × List (ℕ × ℕ))} {connects : ℕ → Connect}
    {assigned : ℕ → Option Address} {x y : Replacing}, x.Inv plan assigned →
    (∀ n < plan.length, connects n ≠ .refused) → x.mapNodes plan connects = some y →
    y.Inv [] (assign plan assigned)
  | [], _, _, x, y, h, _, he => by
      cases he
      exact h
  | (a, rgs) :: plan, connects, assigned, x, y, h, hc, he => by
      unfold Replacing.mapNodes at he
      split at he
      · cases he
      · rename_i r s hget
        have hg := h.registry.getServer_got (hc 0 (Nat.zero_lt_succ _)) hget
        exact (h.step hg).mapNodes (fun n hn => hc (n + 1) (Nat.succ_lt_succ hn)) he

end Replacing

/-! ### Runs -/

/-- The routes, and the address that the last map with a slot gave to it. -/
structure Tracked where
  routes : Routes
  assigned : ℕ → Option Address

namespace Tracked

inductive Event where
  | replaceMap (nodes : List RedisNode) (connects : ℕ → Connect)
  | closeConn (s : ServerId)
  | clear

section
variable (rank : ServerId → ℕ) (mode : Option Bytes)

def new : Tracked := ⟨.new, fun _ => none⟩

def next (x : Tracked) : Event → Tracked
  | .replaceMap nodes connects =>
      ⟨(x.routes.replaceMap rank mode nodes connects).1, assign (mapPlan mode nodes) x.assigned⟩
  | .closeConn s => { x with routes := x.routes.closeAll [s] }
  | .clear => { x with routes := x.routes.clear rank }

/-- The call comes back. -/
def Enabled (x : Tracked) : Event → Prop
  | .replaceMap nodes connects => (x.routes.replaceMap rank mode nodes connects).2 = none
  | _ => True

instance (x : Tracked) : ∀ e, Decidable (x.Enabled rank mode e)
  | .replaceMap _ _ => inferInstanceAs (Decidable ((x.routes.replaceMap _ _ _ _).2 = none))
  | .closeConn _ => inferInstanceAs (Decidable True)
  | .clear => inferInstanceAs (Decidable True)

/-- No connection is refused, and the map has every slot whose server is closed. -/
def Meets (x : Tracked) : Event → Prop
  | .replaceMap nodes connects => (∀ n < (mapPlan mode nodes).length, connects n ≠ .refused) ∧
      ∀ i s, x.routes.slots i = some s → x.routes.registry.closed s = true →
        PlanCovers (mapPlan mode nodes) i
  | _ => True

/-- The server of a slot has the address that the slot was given. -/
structure Inv (x : Tracked) : Prop where
  registry : x.routes.registry.Inv
  allocated : ∀ i s, x.routes.slots i = some s → s < x.routes.registry.allocated
  routed : ∀ i s, x.routes.slots i = some s → x.routes.registry.closed s = false →
    x.assigned i = some (x.routes.registry.addr s)

variable {rank mode}

theorem inv_new : new.Inv := ⟨Registry.inv_new, nofun, nofun⟩

/-- Servers that are closed are no longer looked at. -/
theorem Inv.closeAll : ∀ {x : Tracked} (l : List ServerId), x.Inv →
    Inv { x with routes := x.routes.closeAll l }
  | _, [], h => h
  | x, s :: l, h => by
      have hs : Inv { x with routes := x.routes.closeAll [s] } := by
        refine ⟨h.registry.closeConn s, fun i t ht => ?_, fun i t ht hopen => ?_⟩
        · show t < (x.routes.registry.closeConn s).allocated
          rw [Registry.closeConn_allocated]
          exact h.allocated i t ht
        · change (x.routes.registry.closeConn s).closed t = false at hopen
          rw [Registry.closeConn_closed, Bool.or_eq_false_iff] at hopen
          show x.assigned i = some ((x.routes.registry.closeConn s).addr t)
          rw [Registry.closeConn_addr]
          exact h.routed i t ht hopen.1
      exact hs.closeAll l

theorem Inv.clearSlots {x : Tracked} (h : x.Inv) (l : List ServerId) :
    Inv { x with routes := { x.routes.closeAll l with slots := fun _ => none } } :=
  ⟨(h.closeAll l).registry, nofun, nofun⟩

theorem Inv.replaceMap {x : Tracked} (h : x.Inv) {nodes : List RedisNode} {connects : ℕ → Connect}
    (hen : x.Enabled rank mode (.replaceMap nodes connects))
    (hmeets : x.Meets mode (.replaceMap nodes connects)) :
    (x.next rank mode (.replaceMap nodes connects)).Inv := by
  obtain ⟨hrefused, hcovers⟩ := hmeets
  have h0 : Replacing.Inv (mapPlan mode nodes) x.assigned ⟨x.routes, [], []⟩ :=
    ⟨h.registry, h.allocated, fun i s hs hpool => hcovers i s hs (h.registry.pool s hpool),
      fun i s hs hopen => Or.inl (h.routed i s hs hopen)⟩
  obtain ⟨y, hy, heq⟩ := Routes.replaceMap_eq hen
  have hinv := h0.mapNodes hrefused hy
  have hnone : ∀ i, ¬ PlanCovers [] i := fun _ ⟨_, hp, _⟩ => List.not_mem_nil hp
  have hy' : Inv ⟨y.toRoutes, assign (mapPlan mode nodes) x.assigned⟩ :=
    ⟨hinv.registry, hinv.allocated, fun i s hs hopen =>
      (hinv.routed i s hs hopen).resolve_right (hnone i)⟩
  rw [Tracked.next, heq]
  exact hy'.closeAll _

theorem Inv.next {x : Tracked} (h : x.Inv) {e : Event} (hen : x.Enabled rank mode e)
    (hmeets : x.Meets mode e) : (x.next rank mode e).Inv := by
  cases e with
  | replaceMap nodes connects => exact h.replaceMap hen hmeets
  | closeConn s => exact h.closeAll [s]
  | clear => exact h.clearSlots _

end

/-- `get_server_by_slot` returns nothing, or an open server with the address that the last map
with the slot gave to it: in every run in which no connection is refused and every map has
the slots whose servers are closed at that time. -/
theorem getServerBySlot_routed {rank : ServerId → ℕ} {mode : Option Bytes} {x : Tracked}
    (h : Runs.Reachable (next rank mode) (fun x e => x.Enabled rank mode e ∧ x.Meets mode e) new x)
    (i : ℕ) :
    x.routes.getServerBySlot i = none ∨ ∃ s, x.routes.getServerBySlot i = some s ∧
      x.routes.registry.closed s = false ∧ some (x.routes.registry.addr s) = x.assigned i := by
  have hinv := h.inv inv_new fun x e hx he => hx.next he.1 he.2
  cases hs : x.routes.getServerBySlot i with
  | none => exact Or.inl rfl
  | some s =>
      obtain ⟨hslot, hopen⟩ := Option.filter_eq_some_iff.mp hs
      have hopen : x.routes.registry.closed s = false := by simpa using hopen
      exact Or.inr ⟨s, rfl, hopen, (hinv.routed i s hslot hopen).symm⟩

/-- A master with its slots. -/
def master (host : String) (slots : ℕ × ℕ) : RedisNode := ⟨⟨ascii host, 6379⟩, [], [], [slots]⟩

def allOpened : ℕ → Connect := fun _ => .opened

/-- Two masters, the first of which is lost. -/
def halfLost : Tracked :=
  (new.next id none (.replaceMap [master "10.0.0.1" (0, 1), master "10.0.0.2" (2, 3)] allOpened)).next
    id none (.closeConn 7)

/-- A third one gets the slots of the first; it uses the same server. -/
def remapped : Tracked :=
  halfLost.next id none (.replaceMap [master "10.0.0.3" (0, 1), master "10.0.0.2" (2, 3)] allOpened)

theorem reachable_remapped : Runs.Reachable (next id none)
    (fun x e => x.Enabled id none e ∧ x.Meets none e) new remapped := by
  refine .step (.step (.step .refl ⟨by decide +kernel, ?_⟩) ⟨trivial, trivial⟩) ⟨by decide +kernel, ?_⟩
  · exact ⟨fun _ _ => nofun, nofun⟩
  · refine ⟨fun _ _ => nofun, fun i s hs _ => ?_⟩
    have hi : i ≤ 3 := by
      by_contra hi
      have h01 : ¬ (0 ≤ i ∧ i ≤ 1) := by omega
      have h23 : ¬ (2 ≤ i ∧ i ≤ 3) := by omega
      have hnone : halfLost.routes.slots i = none := (if_neg h23).trans (if_neg h01)
      rw [show (_ : Tracked) = halfLost from rfl, hnone] at hs
      cases hs
    by_cases h01 : i ≤ 1
    · exact ⟨_, List.mem_cons_self, _, List.mem_cons_self, Nat.zero_le _, h01⟩
    · exact ⟨_, List.mem_cons_of_mem _ List.mem_cons_self, _, List.mem_cons_self, by
        show 2 ≤ i
        omega, hi⟩

theorem getServerBySlot_routed_remapped :
    (remapped.routes.getServerBySlot 0 = none ∨ ∃ s, remapped.routes.getServerBySlot 0 = some s ∧
      remapped.routes.registry.closed s = false ∧
      some (remapped.routes.registry.addr s) = remapped.assigned 0) ∧
    remapped.routes.getServerBySlot 0 = some 7 ∧ remapped.assigned 0 = some ⟨ascii "10.0.0.3", 6379⟩ :=
  ⟨getServerBySlot_routed reachable_remapped 0, by decide +kernel⟩

/-- The first connection of a map is refused. -/
def misrouted : Tracked :=
  new.next id none (.replaceMap [master "10.0.0.1" (0, 1), master "10.0.0.2" (2, 3)]
    fun n => if n = 0 then .refused else .opened)

/-- A map without the slots of the server that was lost. -/
def overlooked : Tracked :=
  halfLost.next id none (.replaceMap [master "10.0.0.3" (2, 3)] allOpened)

/-- A slot of the first master leads to the second one, whose connection uses the server that was
refused; a slot that a map leaves out leads to another master, whose connection uses the
server the slot had before. -/
theorem getServerBySlot_misrouted :
    (misrouted.routes.getServerBySlot 0 = some 7 ∧
      misrouted.assigned 0 = some ⟨ascii "10.0.0.1", 6379⟩ ∧
      misrouted.routes.registry.addr 7 = ⟨ascii "10.0.0.2", 6379⟩) ∧
    overlooked.routes.getServerBySlot 0 = some 7 ∧
      overlooked.assigned 0 = some ⟨ascii "10.0.0.1", 6379⟩ ∧
      overlooked.routes.registry.addr 7 = ⟨ascii "10.0.0.3", 6379⟩ := by
  decide +kernel

end Tracked

end Cerberus
