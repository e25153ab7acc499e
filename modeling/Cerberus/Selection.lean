import Cerberus.Classify
import Cerberus.ClusterNodes

/-! # The address a node's slots get

`replace_map` asks `get_server` for the node's own address, or after `select_slave_if_possible`
for that of one of its slaves.  The map of slaves is filled in one pass, in which an entry is
overwritten until its host begins as wished; what is left of it is the first slave with such a
host, or the last slave. -/

namespace Cerberus

instance (s pre : Bytes) : Decidable (StartsWith s pre) := inferInstanceAs (Decidable (_ <+: _))

/-! ### Slaves -/

/-- `n` is the master of `s`. -/
def RedisNode.SlaveOf (s n : RedisNode) : Prop := s.isMaster = false ∧ s.masterId = n.nodeId

instance (s n : RedisNode) : Decidable (s.SlaveOf n) := inferInstanceAs (Decidable (_ ∧ _))

/-- The slaves of `n` in the order of the list. -/
def slaves (nodes : List RedisNode) (n : RedisNode) : List RedisNode :=
  nodes.filter fun s => s.SlaveOf n

theorem mem_slaves {nodes : List RedisNode} {n s : RedisNode} :
    s ∈ slaves nodes n ↔ s ∈ nodes ∧ s.SlaveOf n := by
  rw [slaves, List.mem_filter, decide_eq_true_iff]

/-- The slave that stands for `n`: the first whose host begins as wished, else the last. -/
def chosenSlave (filter : Bytes) (nodes : List RedisNode) (n : RedisNode) : Option RedisNode :=
  ((slaves nodes n).find? fun s => StartsWith s.addr.host filter).or (slaves nodes n).getLast?

/-- What a slave does to the entry of its master. -/
def prefer (filter : Bytes) (cur : Option Address) (s : RedisNode) : Option Address :=
  match cur with
  | some a => if stristartswith a.host filter then some a else some s.addr
  | none => some s.addr

theorem lookup_slaveOfMap (filter : Bytes) (nodes : List RedisNode) (n : RedisNode) :
    (slaveOfMap filter nodes).lookup n.nodeId = (slaves nodes n).foldl (prefer filter) none := by
  rw [slaves, List.foldl_filter, slaveOfMap]
  refine (List.foldl_hom (fun m : List (Bytes × Address) => m.lookup n.nodeId) ?_).symm
  intro m s
  by_cases hsl : s.SlaveOf n
  · rw [if_pos (decide_eq_true hsl), if_neg (by rw [hsl.1]; decide), ← hsl.2]
    unfold prefer
    cases hl : m.lookup s.masterId with
    | none => simp
    | some a => by_cases ha : stristartswith a.host filter <;> simp [ha, hl]
  · rw [if_neg (by rwa [decide_eq_true_iff])]
    by_cases hm : s.isMaster = true
    · rw [if_pos hm]
    · -- the entry that may be overwritten is that of another master
      have hne : (n.nodeId == s.masterId) = false :=
        beq_eq_false_iff_ne.mpr fun hid => hsl ⟨by simpa using hm, hid.symm⟩
      rw [if_neg hm]
      cases m.lookup s.masterId with
      | none => simp [List.lookup_cons, hne]
      | some a => by_cases ha : stristartswith a.host filter <;> simp [ha, List.lookup_cons, hne]

/-- An entry stays once its host begins as wished. -/
theorem foldl_prefer_kept {filter : Bytes} {a : Address} (ha : StartsWith a.host filter) :
    ∀ l : List RedisNode, l.foldl (prefer filter) (some a) = some a
  | [] => rfl
  | s :: l => by
      rw [List.foldl_cons, prefer, if_pos ((stristartswith_iff _ _).mpr ha)]
      exact foldl_prefer_kept ha l

theorem foldl_prefer {filter : Bytes} : ∀ (l : List RedisNode) (cur : Option Address),
    (∀ a, cur = some a → ¬ StartsWith a.host filter) →
    l.foldl (prefer filter) cur =
      (((l.find? fun s => StartsWith s.addr.host filter).or l.getLast?).map (·.addr)).or cur
  | [], cur, _ => rfl
  | s :: l, cur, hcur => by
      have hstep : prefer filter cur s = some s.addr := by
        cases cur with
        | none => rfl
        | some a => rw [prefer, if_neg fun h => hcur a rfl ((stristartswith_iff _ _).mp h)]
      rw [List.foldl_cons, hstep, List.find?_cons, List.getLast?_cons]
      by_cases hs : StartsWith s.addr.host filter
      · rw [foldl_prefer_kept hs, decide_eq_true hs]
        rfl
      · rw [foldl_prefer l (some s.addr) (by rintro a ⟨⟩; exact hs), decide_eq_false hs]
        cases l.find? fun s => decide (StartsWith s.addr.host filter) with
        | some t => rfl
        | none => cases l.getLast? <;> rfl

/-- What the pass leaves for a node. -/
theorem lookup_chosenSlave (filter : Bytes) (nodes : List RedisNode) (n : RedisNode) :
    (slaveOfMap filter nodes).lookup n.nodeId = (chosenSlave filter nodes n).map (·.addr) := by
  rw [lookup_slaveOfMap, foldl_prefer _ none nofun, Option.or_none]
  rfl

/-! ### The addresses of the plan -/

/-- The address used for the slots of `n`. -/
def usedAddress (mode : Option Bytes) (nodes : List RedisNode) (n : RedisNode) : Address :=
  match mode with
  | none => n.addr
  | some filter => ((chosenSlave filter nodes n).map (·.addr)).getD n.addr

theorem mapPlan_eq (mode : Option Bytes) (nodes : List RedisNode) : mapPlan mode nodes =
    (nodes.filter fun n => !n.slotRanges.isEmpty).map fun n => (usedAddress mode nodes n, n.slotRanges) := by
  rw [← List.filterMap_eq_map, List.filterMap_filter]
  unfold mapPlan
  congr 1
  funext n
  cases n.slotRanges.isEmpty with
  | true => rfl
  | false =>
      cases mode with
      | none => rfl
      | some filter => simp [usedAddress, lookup_chosenSlave]

/-- What the choice of an address for `n` is to be. -/
structure Selected (filter : Bytes) (nodes : List RedisNode) (n : RedisNode) (a : Address) : Prop where
  own : (∀ s ∈ nodes, ¬ s.SlaveOf n) → a = n.addr
  slave : (∃ s ∈ nodes, s.SlaveOf n) → ∃ s ∈ nodes, s.SlaveOf n ∧ a = s.addr
  first : ∀ pre s post, nodes = pre ++ s :: post → s.SlaveOf n → StartsWith s.addr.host filter →
    (∀ t ∈ pre, t.SlaveOf n → ¬ StartsWith t.addr.host filter) → a = s.addr

theorem chosenSlave_mem {filter : Bytes} {nodes : List RedisNode} {n s : RedisNode}
    (h : chosenSlave filter nodes n = some s) : s ∈ nodes ∧ s.SlaveOf n := by
  rw [← mem_slaves]
  rcases Option.or_eq_some_iff.mp h with h | ⟨-, h⟩
  · exact List.mem_of_find?_eq_some h
  · exact List.mem_of_getLast? h

theorem chosenSlave_eq_none {filter : Bytes} {nodes : List RedisNode} {n : RedisNode}
    (h : chosenSlave filter nodes n = none) : ∀ s ∈ nodes, ¬ s.SlaveOf n := by
  intro s hs hsl
  have hnil := List.getLast?_eq_none_iff.mp (Option.or_eq_none_iff.mp h).2
  have hmem := mem_slaves.mpr ⟨hs, hsl⟩
  rw [hnil] at hmem
  cases hmem

theorem chosenSlave_first {filter : Bytes} {pre post : List RedisNode} {n s : RedisNode}
    (hsl : s.SlaveOf n) (hs : StartsWith s.addr.host filter)
    (hpre : ∀ t ∈ pre, t.SlaveOf n → ¬ StartsWith t.addr.host filter) :
    chosenSlave filter (pre ++ s :: post) n = some s := by
  have hnone : (slaves pre n).find? (fun s => StartsWith s.addr.host filter) = none := by
    rw [List.find?_eq_none]
    intro t ht
    rw [decide_eq_true_iff]
    exact hpre t (mem_slaves.mp ht).1 (mem_slaves.mp ht).2
  have hsplit : slaves (pre ++ s :: post) n = slaves pre n ++ s :: slaves post n := by
    rw [slaves, List.filter_append, List.filter_cons, if_pos (decide_eq_true hsl)]
    rfl
  rw [chosenSlave, hsplit, List.find?_append, hnone, List.find?_cons, decide_eq_true hs]
  rfl

theorem selected_usedAddress (filter : Bytes) (nodes : List RedisNode) (n : RedisNode) :
    Selected filter nodes n (usedAddress (some filter) nodes n) := by
  rw [usedAddress]
  refine ⟨fun hno => ?_, fun ⟨s, hs, hsl⟩ => ?_, fun pre s post hnodes hsl hs hpre => ?_⟩
  · cases hc : chosenSlave filter nodes n with
    | none => rfl
    | some s =>
        exact absurd (chosenSlave_mem hc).2 (hno s (chosenSlave_mem hc).1)
  · cases hc : chosenSlave filter nodes n with
    | none => exact absurd hsl (chosenSlave_eq_none hc s hs)
    | some t => exact ⟨t, (chosenSlave_mem hc).1, (chosenSlave_mem hc).2, rfl⟩
  · rw [hnodes]
    rw [chosenSlave_first hsl hs hpre]
    rfl

/-- In the mode that reads from slaves: every node with slots gets them at its own address if no
node has it as its master, else at that of a slave, and then of the first with a host that
begins with the filter if there is one. -/
theorem mapPlan_selected (filter : Bytes) (nodes : List RedisNode) :
    List.Forall₂ (fun n p => p.2 = n.slotRanges ∧ Selected filter nodes n p.1)
      (nodes.filter fun n => !n.slotRanges.isEmpty) (mapPlan (some filter) nodes) := by
  rw [mapPlan_eq, List.forall₂_map_right_iff, List.forall₂_same]
  intro n _
  exact ⟨rfl, selected_usedAddress filter nodes n⟩

/-! ### Hosts that are empty -/

/-- The addresses `get_server` is called with; the first call that throws is the last one. -/
def Replacing.calls : List (Address × List (ℕ × ℕ)) → (ℕ → Connect) → Replacing → List Address
  | [], _, _ => []
  | (a, rgs) :: plan, connects, x =>
      a :: match x.registry.getServer a (connects 0) with
      | (_, none) => []
      | (r, some s) =>
          calls plan (fun n => connects (n + 1)) (rgs.foldl (mapRange s) { x with registry := r })

theorem Replacing.mem_of_calls : ∀ (plan : List (Address × List (ℕ × ℕ))) (connects : ℕ → Connect)
    (x : Replacing), ∀ a ∈ x.calls plan connects, a ∈ plan.map Prod.fst
  | [], _, _, a, h => absurd h List.not_mem_nil
  | (b, rgs) :: plan, connects, x, a, h => by
      rw [List.map_cons, List.mem_cons]
      rcases List.mem_cons.mp h with h | h
      · exact Or.inl h
      · right
        split at h
        · cases h
        · exact mem_of_calls plan _ _ a h

theorem Registry.getServer_opened (r : Registry) (a : Address) : ∃ r' s, r.getServer a .opened = (r', some s) := by
  by_cases hfound : ∃ s, r.Found a s
  · obtain ⟨s, hs⟩ := hfound
    exact ⟨r, s, hs.getServer .opened⟩
  · obtain ⟨s, rest, htop⟩ := r.exists_top
    exact ⟨_, s, (getServer_of_not_found (not_exists.mp hfound)).trans (newServer_opened htop)⟩

/-- If all connections are opened, all calls are made. -/
theorem Replacing.calls_opened : ∀ (plan : List (Address × List (ℕ × ℕ))) (x : Replacing),
    x.calls plan (fun _ => .opened) = plan.map Prod.fst
  | [], _ => rfl
  | (a, rgs) :: plan, x => by
      obtain ⟨r, s, heq⟩ := x.registry.getServer_opened a
      rw [calls, heq, List.map_cons]
      exact congrArg (a :: ·) (calls_opened plan _)

/-- The nodes with slots have hosts where they are looked for: their own, or in the mode that
reads from slaves the first slave's if every host will do, and the last slave's if no slave
has a host that begins with the filter. -/
def Addressed (mode : Option Bytes) (nodes : List RedisNode) : Prop :=
  ∀ n ∈ nodes, n.slotRanges ≠ [] →
    match mode with
    | none => n.addr.host ≠ []
    | some filter =>
        (slaves nodes n = [] → n.addr.host ≠ []) ∧
        (filter = [] → ∀ s ∈ (slaves nodes n).head?, s.addr.host ≠ []) ∧
        ((∀ t ∈ slaves nodes n, ¬ StartsWith t.addr.host filter) →
          ∀ s ∈ (slaves nodes n).getLast?, s.addr.host ≠ [])

theorem startsWith_nil (host : Bytes) : StartsWith host [] := List.nil_prefix

theorem StartsWith.ne_nil {filter host : Bytes} (h : StartsWith host filter) (hf : filter ≠ []) : host ≠ [] := by
  rintro rfl
  exact hf (List.map_eq_nil_iff.mp (List.prefix_nil.mp h))

theorem usedAddress_host_iff (filter : Bytes) (nodes : List RedisNode) (n : RedisNode) :
    (usedAddress (some filter) nodes n).host ≠ [] ↔
      (slaves nodes n = [] → n.addr.host ≠ []) ∧
      (filter = [] → ∀ s ∈ (slaves nodes n).head?, s.addr.host ≠ []) ∧
      ((∀ t ∈ slaves nodes n, ¬ StartsWith t.addr.host filter) →
        ∀ s ∈ (slaves nodes n).getLast?, s.addr.host ≠ []) := by
  rw [usedAddress, chosenSlave]
  cases hl : slaves nodes n with
  | nil => simp
  | cons s l =>
      cases hfind : (s :: l).find? fun s => decide (StartsWith s.addr.host filter) with
      | none =>
          have hno : ∀ t ∈ s :: l, ¬ StartsWith t.addr.host filter := by simpa using hfind
          have hf : filter ≠ [] := by
            rintro rfl
            exact hno s (by simp) (startsWith_nil _)
          rw [Option.none_or, List.getLast?_cons]
          simp only [Option.map_some, Option.getD_some, reduceCtorEq, false_implies, hf, true_and,
            Option.mem_def, Option.some.injEq, forall_eq']
          exact ⟨fun h _ => h, fun h => h hno⟩
      | some t =>
          have ht : StartsWith t.addr.host filter := by simpa using List.find?_some hfind
          have hmem := List.mem_of_find?_eq_some hfind
          by_cases hf : filter = []
          · subst hf
            have hst : s = t := by
              rw [List.find?_cons, decide_eq_true (startsWith_nil _)] at hfind
              exact Option.some.inj hfind
            subst hst
            simp only [Option.some_or, Option.map_some, Option.getD_some, reduceCtorEq, false_implies,
              List.head?_cons, Option.mem_def, Option.some.injEq, forall_eq', true_and, forall_const]
            exact ⟨fun h => ⟨h, fun hno => absurd ht (hno s hmem)⟩, And.left⟩
          · simp only [Option.some_or, Option.map_some, Option.getD_some, reduceCtorEq, false_implies,
              hf, true_and]
            exact ⟨fun _ hno => absurd ht (hno t hmem), fun _ => ht.ne_nil hf⟩

/-- When an answer is put in place, `get_server` is never called with an empty host, however the
connections end: just if the nodes with slots have hosts where they are looked for. -/
theorem get_server_hosts_iff (mode : Option Bytes) (nodes : List RedisNode) (x : Routes) :
    (∀ connects, ∀ a ∈ Replacing.calls (mapPlan mode nodes) connects ⟨x, [], []⟩, a.host ≠ []) ↔
      Addressed mode nodes := by
  have hplan : (∀ a ∈ (mapPlan mode nodes).map Prod.fst, a.host ≠ []) ↔
      ∀ n ∈ nodes, n.slotRanges ≠ [] → (usedAddress mode nodes n).host ≠ [] := by
    rw [mapPlan_eq, List.map_map, List.forall_mem_map]
    simp
  have hused : (∀ n ∈ nodes, n.slotRanges ≠ [] → (usedAddress mode nodes n).host ≠ []) ↔
      Addressed mode nodes := by
    cases mode with
    | none => rfl
    | some filter => exact forall₃_congr fun n _ _ => usedAddress_host_iff filter nodes n
  rw [← hused, ← hplan]
  constructor
  · intro h a ha
    exact h (fun _ => .opened) a (by rwa [Replacing.calls_opened])
  · intro h connects a ha
    exact h a (Replacing.mem_of_calls _ _ _ a ha)

/-- A master with all slots, another node that has lost its address but not its slot, and a slave
without an address. -/
def noaddrInfo : Bytes := ascii
  "a 10.0.0.1:6379 myself,master - 0 0 1 connected 0-16383\nb :0 master,noaddr - 0 0 2 connected 16383\nc :0 slave,noaddr a 0 0 1 connected\n"

theorem parse_noaddrInfo : parseSlotMap (fun _ _ _ => 0) noaddrInfo [] =
    [⟨⟨ascii "10.0.0.1", 6379⟩, ascii "a", [], [(0, 16383)]⟩, ⟨⟨[], 0⟩, ascii "b", [], [(16383, 16383)]⟩,
      ⟨⟨[], 0⟩, ascii "c", ascii "a", []⟩] := by
  decide +kernel

/-- The answer has all slots and is installed; the connection to the empty host ends the process. -/
theorem get_server_noaddr : clusterSlotCount ≤ coveredSlots (parseSlotMap (fun _ _ _ => 0) noaddrInfo []) ∧
    (⟨[], 0⟩ ∈ Replacing.calls (mapPlan none (parseSlotMap (fun _ _ _ => 0) noaddrInfo []))
      (fun _ => .opened) ⟨.new, [], []⟩) ∧
    (⟨[], 0⟩ ∈ Replacing.calls (mapPlan (some []) (parseSlotMap (fun _ _ _ => 0) noaddrInfo []))
      (fun _ => .opened) ⟨.new, [], []⟩) ∧
    (Routes.new.replaceMap id none (parseSlotMap (fun _ _ _ => 0) noaddrInfo [])
      fun n => if n = 1 then .unknownHost else .opened).2 = some .fatal := by
  rw [parse_noaddrInfo, Replacing.calls_opened, Replacing.calls_opened]
  refine ⟨?_, by decide +kernel, by decide +kernel, by decide +kernel⟩
  exact (coveredCount_single (0, 16383)).ge

end Cerberus
