import Cerberus.Deliveries
import Cerberus.ClusterNodes

/-! # Installing a full map

`replace_map` asks for a server per node and then writes ranges of the array.  Both parts are
looked at for themselves: the lookups as a `Serving` of the addresses, and the writes as a list of
servers with a range each.  A server that is mapped before the call may be closed and in the
pool; then a lookup may return it, and it is one of the new ones. -/

namespace Cerberus

/-! ### The lookups -/

namespace Registry

instance (a : Address) (r : Registry) (s : ServerId) : Decidable (r.Found a s) :=
  inferInstanceAs (Decidable (_ ∧ _))

/-- `get_server` returns an open server that is registered under the address. -/
structure Serves (a : Address) (c : Connect) (r r' : Registry) (s : ServerId) : Prop where
  result : r.getServer a c = (r', some s)
  found : r'.Found a s
  addr : r'.addr s = a

theorem Serves.of_result {a : Address} {c : Connect} {r : Registry} {s : ServerId}
    (hs : (r.getServer a c).2 = some s) (hfound : (r.getServer a c).1.Found a s)
    (ha : (r.getServer a c).1.addr s = a) : Serves a c r (r.getServer a c).1 s :=
  ⟨Prod.ext rfl hs, hfound, ha⟩

/-- The lookups of the addresses, with the servers they return. -/
inductive Serving : List Address → (ℕ → Connect) → Registry → Registry → List ServerId → Prop
  | nil {connects : ℕ → Connect} {r : Registry} : Serving [] connects r r []
  | cons {a : Address} {as : List Address} {connects : ℕ → Connect} {r m r' : Registry} {s : ServerId}
      {ss : List ServerId} (first : Serves a (connects 0) r m s)
      (rest : Serving as (fun n => connects (n + 1)) m r' ss) : Serving (a :: as) connects r r' (s :: ss)

/-- Only the servers `ss` may have changed, and those that were open have not. -/
structure Opens (ss : List ServerId) (r r' : Registry) : Prop where
  sound : r'.Sound
  stays : ∀ t, r.closed t = false → r'.closed t = false ∧ r'.addr t = r.addr t
  others : ∀ t, t ∉ ss → r'.closed t = r.closed t
  calls : ∃ cs, r'.calls = r.calls ++ cs ∧ ∀ t, ServerCall.closed t ∉ cs

variable {a : Address} {c : Connect} {r r' m : Registry} {s : ServerId} {ss ss' : List ServerId}

theorem Opens.refl (h : r.Sound) : Opens [] r r :=
  ⟨h, fun _ ht => ⟨ht, rfl⟩, fun _ _ => rfl, [], (List.append_nil _).symm, nofun⟩

theorem Opens.trans (h : Opens ss r m) (h' : Opens ss' m r') : Opens (ss ++ ss') r r' where
  sound := h'.sound
  stays t ht := by
    obtain ⟨hopen, haddr⟩ := h.stays t ht
    obtain ⟨hopen', haddr'⟩ := h'.stays t hopen
    exact ⟨hopen', haddr'.trans haddr⟩
  others t ht := by
    rw [List.mem_append, not_or] at ht
    exact (h'.others t ht.2).trans (h.others t ht.1)
  calls := by
    obtain ⟨cs, heq, hcs⟩ := h.calls
    obtain ⟨cs', heq', hcs'⟩ := h'.calls
    refine ⟨cs ++ cs', by rw [heq', heq, List.append_assoc], fun t ht => ?_⟩
    rcases List.mem_append.mp ht with ht | ht
    · exact hcs t ht
    · exact hcs' t ht

theorem Sound.opens (h : r.Sound) (hs : Serves a c r r' s) : Opens [s] r r' := by
  obtain ⟨hres, hfound, -⟩ := hs
  by_cases hknown : ∃ t, r.Found a t
  · obtain ⟨t, ht⟩ := hknown
    rw [ht.getServer] at hres
    cases hres
    exact ⟨h, fun _ ht => ⟨ht, rfl⟩, fun _ _ => rfl, [], (List.append_nil _).symm, nofun⟩
  · have hsound : r'.Sound := by
      obtain ⟨cs, hcs⟩ := h.getServer a c hres
      exact hcs.sound
    rw [getServer_of_not_found (not_exists.mp hknown)] at hres
    obtain ⟨t, rest, htop⟩ := r.exists_top
    have hclosed : r.closed t = true := by
      rw [← fillPool_closed]
      exact (h.fillPool.sound.pool t (Inv.top_mem htop)).1
    cases c with
    | opened =>
        rw [newServer_opened htop] at hres
        cases hres
        refine ⟨hsound, fun u hu => ?_, fun u hu => ?_, [.opened s], ?_, fun u hu => ?_⟩
        · have hne : u ≠ s := by
            rintro rfl
            rw [hclosed] at hu
            cases hu
          rw [insert_closed, insert_addr]
          refine ⟨(Function.update_of_ne hne ..).trans ?_, (Function.update_of_ne hne ..).trans ?_⟩
          · rw [popPool, fillPool_closed]
            exact hu
          · exact congrFun fillPool_addr u
        · rw [insert_closed]
          refine (Function.update_of_ne (List.ne_of_not_mem_cons hu) ..).trans ?_
          exact congrFun fillPool_closed u
        · have hcalls : r.fillPool.calls = r.calls ++ [] := h.fillPool.calls
          rw [insert_calls, hcalls, List.append_nil]
        · cases List.mem_singleton.mp hu
    | socketError =>
        rw [newServer_socketError htop hclosed] at hres
        cases hres
        have hopen := hfound.2
        rw [insert_closed, popPool, fillPool_closed, hclosed] at hopen
        cases hopen
    | refused =>
        rw [newServer_refused htop hclosed] at hres
        cases hres
        have hopen : r.fillPool.closed s = false := hfound.2
        rw [fillPool_closed, hclosed] at hopen
        cases hopen
    | unknownHost =>
        have hnone := @newServer_unknownHost r a
        rw [hres] at hnone
        cases hnone

theorem Serving.opens {as : List Address} {connects : ℕ → Connect} (h : Serving as connects r r' ss)
    (hr : r.Sound) : Opens ss r r' := by
  induction h with
  | nil => exact .refl hr
  | cons first rest ih =>
      have hfirst := hr.opens first
      exact hfirst.trans (ih hfirst.sound)

theorem Serving.length {as : List Address} {connects : ℕ → Connect} (h : Serving as connects r r' ss) :
    ss.length = as.length := by
  induction h with
  | nil => rfl
  | cons first rest ih => rw [List.length_cons, List.length_cons, ih]

/-- The servers are open and have their addresses when all lookups are done. -/
theorem Serving.served {as : List Address} {connects : ℕ → Connect} (h : Serving as connects r r' ss)
    (hr : r.Sound) : ∀ p ∈ ss.zip as, r'.closed p.1 = false ∧ r'.addr p.1 = p.2 := by
  induction h with
  | nil => exact nofun
  | cons first rest ih =>
      have hfirst := hr.opens first
      intro p hp
      rw [List.zip_cons_cons, List.mem_cons] at hp
      rcases hp with rfl | hp
      · obtain ⟨hopen, haddr⟩ := (rest.opens hfirst.sound).stays _ first.found.2
        exact ⟨hopen, haddr.trans first.addr⟩
      · exact ih hfirst.sound p hp

/-! ### Servers that are closed -/

theorem closeAll_closed (t : ServerId) : ∀ (l : List ServerId) (r : Registry),
    (l.foldl (fun r s => r.closeConn s) r).closed t = (r.closed t || decide (t ∈ l))
  | [], r => by
      rw [decide_eq_false List.not_mem_nil, Bool.or_false]
      rfl
  | s :: l, r => by
      rw [List.foldl_cons, closeAll_closed t l, closeConn_closed, Bool.or_assoc, ← Bool.decide_or]
      simp only [List.mem_cons]

theorem closeAll_addr : ∀ (l : List ServerId) (r : Registry),
    (l.foldl (fun r s => r.closeConn s) r).addr = r.addr
  | [], _ => rfl
  | s :: l, r => by rw [List.foldl_cons, closeAll_addr l, closeConn_addr]

theorem closeAll_calls : ∀ {l : List ServerId} (r : Registry), l.Nodup →
    (l.foldl (fun r s => r.closeConn s) r).calls =
      r.calls ++ (l.filter fun s => !r.closed s).map ServerCall.closed
  | [], r, _ => (List.append_nil _).symm
  | s :: l, r, hnd => by
      obtain ⟨hs, hnd⟩ := List.nodup_cons.mp hnd
      have hrest : (l.filter fun t => !(r.closeConn s).closed t) = l.filter fun t => !r.closed t := by
        refine List.filter_congr fun t ht => ?_
        have hne : t ≠ s := fun heq => hs (heq ▸ ht)
        rw [closeConn_closed, decide_eq_false hne, Bool.or_false]
      rw [List.foldl_cons, closeAll_calls _ hnd, hrest]
      cases hc : r.closed s with
      | true =>
          rw [closeConn_of_closed hc, List.filter_cons_of_neg (by rw [hc]; decide)]
      | false =>
          rw [closeConn_of_open hc, List.filter_cons_of_pos (by rw [hc]; rfl), List.map_cons, List.append_assoc]
          rfl

end Registry

/-! ### The writes -/

namespace Replacing

/-- A server is written to a range. -/
def write (x : Replacing) (p : ServerId × (ℕ × ℕ)) : Replacing := x.mapRange p.1 p.2

def Covers (p : ServerId × (ℕ × ℕ)) (i : ℕ) : Prop := p.2.1 ≤ i ∧ i ≤ p.2.2

/-- The writes for nodes with their servers. -/
def writes (ps : List (ServerId × (Address × List (ℕ × ℕ)))) : List (ServerId × (ℕ × ℕ)) :=
  ps.flatMap fun p => p.2.2.map fun rg => (p.1, rg)

theorem writes_cons (p : ServerId × (Address × List (ℕ × ℕ))) (ps : List (ServerId × (Address × List (ℕ × ℕ)))) :
    writes (p :: ps) = (p.2.2.map fun rg => (p.1, rg)) ++ writes ps := rfl

theorem mem_writes {ps : List (ServerId × (Address × List (ℕ × ℕ)))} {q : ServerId × (ℕ × ℕ)} :
    q ∈ writes ps ↔ ∃ p ∈ ps, q.1 = p.1 ∧ q.2 ∈ p.2.2 := by
  rw [writes, List.mem_flatMap]
  refine exists_congr fun p => and_congr_right fun _ => ?_
  rw [List.mem_map]
  constructor
  · rintro ⟨rg, hrg, rfl⟩
    exact ⟨rfl, hrg⟩
  · rintro ⟨hs, hrg⟩
    exact ⟨q.2, hrg, Prod.ext hs.symm rfl⟩

theorem foldl_write_registry : ∀ (l : List (ServerId × (ℕ × ℕ))) (x : Replacing) (r : Registry),
    l.foldl write { x with registry := r } = { l.foldl write x with registry := r }
  | [], _, _ => rfl
  | p :: l, x, r => foldl_write_registry l (x.write p) r

theorem mapNodes_eq : ∀ {plan : List (Address × List (ℕ × ℕ))} {connects : ℕ → Connect} {x : Replacing}
    {r : Registry} {ss : List ServerId}, Registry.Serving (plan.map Prod.fst) connects x.registry r ss →
    mapNodes plan connects x = some ((writes (ss.zip plan)).foldl write { x with registry := r })
  | [], _, x, _, _, h => by
      cases h
      rfl
  | (a, rgs) :: plan, connects, x, r, _, h => by
      cases h with
      | @cons _ _ _ _ m _ s ss first rest =>
          have hone : rgs.foldl (mapRange s) { x with registry := m } =
              { (rgs.map fun rg => (s, rg)).foldl write x with registry := m } := by
            rw [← foldl_write_registry, List.foldl_map]
            rfl
          rw [mapNodes, first.result]
          show mapNodes plan (fun n => connects (n + 1)) (rgs.foldl (mapRange s) { x with registry := m }) = _
          rw [hone, mapNodes_eq (x := { (rgs.map fun rg => (s, rg)).foldl write x with registry := m }) rest]
          rw [List.zip_cons_cons, writes_cons, List.foldl_append, foldl_write_registry _ x r]

variable {x : Replacing} {s : ServerId} {i : ℕ}

instance (p : ServerId × (ℕ × ℕ)) (i : ℕ) : Decidable (Covers p i) := inferInstanceAs (Decidable (_ ∧ _))

theorem write_slots (x : Replacing) (p : ServerId × (ℕ × ℕ)) (i : ℕ) :
    (x.write p).slots i = if Covers p i then some p.1 else x.slots i := rfl

theorem mem_write_removed {p : ServerId × (ℕ × ℕ)} :
    s ∈ (x.write p).removed ↔ s ∈ x.removed ∨ ∃ i, Covers p i ∧ x.slots i = some s := by
  show s ∈ x.removed ++ (List.range' p.2.1 (p.2.2 + 1 - p.2.1)).filterMap x.slots ↔ _
  rw [List.mem_append, List.mem_filterMap]
  refine or_congr_right (exists_congr fun i => and_congr_left fun _ => ?_)
  rw [List.mem_range'_1, Covers]
  omega

/-- All writes to a slot are of one server. -/
theorem foldl_write_slots : ∀ (l : List (ServerId × (ℕ × ℕ))) (x : Replacing),
    (∀ p ∈ l, Covers p i → p.1 = s) → ((∃ p ∈ l, Covers p i) ∨ x.slots i = some s) →
    (l.foldl write x).slots i = some s
  | [], _, _, h => h.resolve_left fun ⟨_, hp, _⟩ => List.not_mem_nil hp
  | p :: l, x, hall, h => by
      refine foldl_write_slots l (x.write p) (fun q hq => hall q (List.mem_cons_of_mem _ hq)) ?_
      rw [write_slots]
      by_cases hp : Covers p i
      · rw [if_pos hp, hall p List.mem_cons_self hp]
        exact Or.inr rfl
      · rw [if_neg hp]
        refine h.imp_left ?_
        rintro ⟨q, hq, hcov⟩
        rcases List.mem_cons.mp hq with rfl | hq
        · exact absurd hcov hp
        · exact ⟨q, hq, hcov⟩

theorem foldl_write_newMapped : ∀ (l : List (ServerId × (ℕ × ℕ))) (x : Replacing),
    s ∈ (l.foldl write x).newMapped ↔ s ∈ x.newMapped ∨ ∃ p ∈ l, p.1 = s ∧ p.2.1 ≤ p.2.2
  | [], _ => ⟨Or.inl, fun h => h.resolve_right fun ⟨_, hp, _⟩ => List.not_mem_nil hp⟩
  | p :: l, x => by
      have hone : s ∈ (x.write p).newMapped ↔ s ∈ x.newMapped ∨ (p.1 = s ∧ p.2.1 ≤ p.2.2) := by
        show s ∈ (if p.2.1 ≤ p.2.2 then x.newMapped ++ [p.1] else x.newMapped) ↔ _
        split
        · rename_i hle
          rw [List.mem_append, List.mem_singleton, and_iff_left hle, eq_comm]
        · rename_i hle
          rw [or_iff_left fun h => hle h.2]
      rw [List.foldl_cons, foldl_write_newMapped l, hone, or_assoc, List.exists_mem_cons_iff]

/-- The servers that are taken out of the array were there at the beginning, or have been written by
this call. -/
theorem mem_of_foldl_write_removed : ∀ (l : List (ServerId × (ℕ × ℕ))) (x : Replacing),
    s ∈ (l.foldl write x).removed →
    s ∈ x.removed ∨ (∃ i, (∃ p ∈ l, Covers p i) ∧ x.slots i = some s) ∨ ∃ p ∈ l, p.1 = s ∧ p.2.1 ≤ p.2.2
  | [], _, h => Or.inl h
  | p :: l, x, h => by
      rcases mem_of_foldl_write_removed l (x.write p) h with h | ⟨i, ⟨q, hq, hcov⟩, hs⟩ | ⟨q, hq, h⟩
      · rcases mem_write_removed.mp h with h | ⟨i, hcov, hs⟩
        · exact Or.inl h
        · exact Or.inr (Or.inl ⟨i, ⟨p, List.mem_cons_self, hcov⟩, hs⟩)
      · rw [write_slots] at hs
        split at hs
        · rename_i hp
          cases hs
          exact Or.inr (Or.inr ⟨p, List.mem_cons_self, rfl, hp.1.trans hp.2⟩)
        · exact Or.inr (Or.inl ⟨i, ⟨q, List.mem_cons_of_mem _ hq, hcov⟩, hs⟩)
      · exact Or.inr (Or.inr ⟨q, List.mem_cons_of_mem _ hq, h⟩)

theorem mem_foldl_write_removed : ∀ (l : List (ServerId × (ℕ × ℕ))) (x : Replacing),
    (s ∈ x.removed ∨ ∃ i, (∃ p ∈ l, Covers p i) ∧ x.slots i = some s) → s ∈ (l.foldl write x).removed
  | [], _, h => h.resolve_right fun ⟨_, ⟨_, hp, _⟩, _⟩ => List.not_mem_nil hp
  | p :: l, x, h => by
      refine mem_foldl_write_removed l (x.write p) ?_
      rcases h with h | ⟨i, ⟨q, hq, hcov⟩, hs⟩
      · exact Or.inl (mem_write_removed.mpr (Or.inl h))
      · by_cases hp : Covers p i
        · exact Or.inl (mem_write_removed.mpr (Or.inr ⟨i, hp, hs⟩))
        · refine Or.inr ⟨i, ⟨q, (List.mem_cons.mp hq).resolve_left ?_, hcov⟩, ?_⟩
          · rintro rfl
            exact hp hcov
          · rw [write_slots, if_neg hp]
            exact hs

end Replacing

/-! ### The map -/

/-- The address that is asked for the slots of a node. -/
def nodeAddress (mode : Option Bytes) (nodes : List RedisNode) (n : RedisNode) : Address :=
  match mode with
  | none => n.addr
  | some host => ((slaveOfMap host nodes).lookup n.nodeId).getD n.addr

theorem mem_mapPlan {mode : Option Bytes} {nodes : List RedisNode} {p : Address × List (ℕ × ℕ)} :
    p ∈ mapPlan mode nodes ↔ ∃ n ∈ nodes, n.slotRanges ≠ [] ∧ p = (nodeAddress mode nodes n, n.slotRanges) := by
  have hplan : mapPlan mode nodes = nodes.filterMap fun n =>
    if n.slotRanges.isEmpty then none else some (nodeAddress mode nodes n, n.slotRanges) := rfl
  rw [hplan, List.mem_filterMap]
  refine exists_congr fun n => and_congr_right fun _ => ?_
  split
  · rename_i hempty
    exact iff_of_false nofun fun h => h.1 (List.isEmpty_iff.mp hempty)
  · rename_i hempty
    rw [Option.some_inj, eq_comm, and_iff_right]
    exact fun h => hempty (List.isEmpty_iff.mpr h)

/-- The nodes have different slots. -/
def Apart (nodes : List RedisNode) : Prop :=
  nodes.Pairwise fun m n => ∀ i, ¬ (InRanges m.slotRanges i ∧ InRanges n.slotRanges i)

theorem Apart.mapPlan {nodes : List RedisNode} (h : Apart nodes) (mode : Option Bytes) :
    (mapPlan mode nodes).Pairwise fun p q => ∀ i, ¬ (InRanges p.2 i ∧ InRanges q.2 i) := by
  refine List.Pairwise.filterMap _ (fun m n hmn p hp q hq => ?_) h
  split at hp
  · cases hp
  · split at hq
    · cases hq
    · cases hp
      cases hq
      exact hmn

namespace Routes

variable {rank : ServerId → ℕ} {mode : Option Bytes} {nodes : List RedisNode} {connects : ℕ → Connect}
  {x : Routes} {r : Registry} {ss : List ServerId}

theorem inOrder_nodup (l : List ServerId) : (inOrder rank l).Nodup :=
  (List.perm_insertionSort _ _).nodup_iff.mpr (List.nodup_dedup l)

theorem eq_of_inRanges (hapart : Apart nodes) (hlen : ss.length = (mapPlan mode nodes).length)
    {p q : ServerId × (Address × List (ℕ × ℕ))} (hp : p ∈ ss.zip (mapPlan mode nodes))
    (hq : q ∈ ss.zip (mapPlan mode nodes)) {i : ℕ} (hip : InRanges p.2.2 i) (hiq : InRanges q.2.2 i) : p = q := by
  have hpair := hapart.mapPlan mode
  rw [← List.map_snd_zip hlen.ge, List.pairwise_map] at hpair
  have : Std.Symm fun p q : ServerId × (Address × List (ℕ × ℕ)) => ∀ i, ¬ (InRanges p.2.2 i ∧ InRanges q.2.2 i) :=
    ⟨fun _ _ h i hi => h i hi.symm⟩
  by_contra hne
  exact hpair.forall hp hq hne i ⟨hip, hiq⟩

/-- The slots of a node belong to an element of the plan that has a server. -/
theorem exists_zip (hlen : ss.length = (mapPlan mode nodes).length) {n : RedisNode} (hn : n ∈ nodes) {i : ℕ}
    (hi : InRanges n.slotRanges i) : ∃ s, (s, (nodeAddress mode nodes n, n.slotRanges)) ∈ ss.zip (mapPlan mode nodes) := by
  obtain ⟨rg, hrg, -⟩ := hi
  have hmem : (nodeAddress mode nodes n, n.slotRanges) ∈ mapPlan mode nodes :=
    mem_mapPlan.mpr ⟨n, hn, List.ne_nil_of_mem hrg, rfl⟩
  rw [← List.map_snd_zip hlen.ge] at hmem
  obtain ⟨⟨s, p⟩, hp, rfl⟩ := List.mem_map.mp hmem
  exact ⟨s, hp⟩

/-- The array and the two sets after the writes of a full map. -/
theorem writes_full (hranges : ∀ n ∈ nodes, ∀ rg ∈ n.slotRanges, rg.1 ≤ rg.2 ∧ rg.2 < clusterSlotCount)
    (hapart : Apart nodes) (hcover : ∀ i < clusterSlotCount, ∃ n ∈ nodes, InRanges n.slotRanges i)
    (hlen : ss.length = (mapPlan mode nodes).length) {y : Replacing}
    (hy : y = (Replacing.writes (ss.zip (mapPlan mode nodes))).foldl Replacing.write ⟨x, [], []⟩) :
    (∀ p ∈ ss.zip (mapPlan mode nodes), ∀ i, InRanges p.2.2 i → y.slots i = some p.1) ∧
    (∀ s, s ∈ y.newMapped ↔ s ∈ ss) ∧
    (∀ s, (∃ i < clusterSlotCount, y.slots i = some s) ↔ s ∈ ss) ∧
    ∀ s, s ∈ y.removed ∧ s ∉ ss ↔ (∃ i < clusterSlotCount, x.slots i = some s) ∧ s ∉ ss := by
  -- every server of the zip has a range with a first slot
  have hfirst : ∀ s ∈ ss, ∃ p ∈ ss.zip (mapPlan mode nodes), p.1 = s ∧
      ∃ rg ∈ p.2.2, rg.1 ≤ rg.2 ∧ rg.2 < clusterSlotCount := by
    intro s hs
    rw [← List.map_fst_zip hlen.le] at hs
    obtain ⟨p, hp, rfl⟩ := List.mem_map.mp hs
    obtain ⟨n, hn, hne, heq⟩ := mem_mapPlan.mp (List.of_mem_zip hp).2
    obtain ⟨rg, hrg⟩ := List.exists_mem_of_ne_nil _ hne
    refine ⟨p, hp, rfl, rg, ?_, hranges n hn rg hrg⟩
    rw [heq]
    exact hrg
  have hcovers : ∀ i, (∃ q ∈ Replacing.writes (ss.zip (mapPlan mode nodes)), Replacing.Covers q i) ↔
      i < clusterSlotCount := by
    intro i
    constructor
    · rintro ⟨q, hq, hcov⟩
      obtain ⟨p, hp, -, hrg⟩ := Replacing.mem_writes.mp hq
      obtain ⟨n, hn, -, heq⟩ := mem_mapPlan.mp (List.of_mem_zip hp).2
      rw [heq] at hrg
      exact hcov.2.trans_lt (hranges n hn q.2 hrg).2
    · intro hi
      obtain ⟨n, hn, hin⟩ := hcover i hi
      obtain ⟨s, hs⟩ := exists_zip hlen hn hin
      obtain ⟨rg, hrg, hcov⟩ := hin
      exact ⟨(s, rg), Replacing.mem_writes.mpr ⟨_, hs, rfl, hrg⟩, hcov⟩
  have hslots : ∀ p ∈ ss.zip (mapPlan mode nodes), ∀ i, InRanges p.2.2 i → y.slots i = some p.1 := by
    intro p hp i hin
    rw [hy]
    refine Replacing.foldl_write_slots _ _ (fun q hq hcov => ?_) (Or.inl ?_)
    · obtain ⟨p', hp', heq, hrg⟩ := Replacing.mem_writes.mp hq
      rw [heq, eq_of_inRanges hapart hlen hp' hp ⟨q.2, hrg, hcov⟩ hin]
    · obtain ⟨rg, hrg, hcov⟩ := hin
      exact ⟨(p.1, rg), Replacing.mem_writes.mpr ⟨p, hp, rfl, hrg⟩, hcov⟩
  have hnew : ∀ s, s ∈ ss ↔ ∃ q ∈ Replacing.writes (ss.zip (mapPlan mode nodes)), q.1 = s ∧ q.2.1 ≤ q.2.2 := by
    intro s
    constructor
    · intro hs
      obtain ⟨p, hp, rfl, rg, hrg, hle, -⟩ := hfirst s hs
      exact ⟨(p.1, rg), Replacing.mem_writes.mpr ⟨p, hp, rfl, hrg⟩, rfl, hle⟩
    · rintro ⟨q, hq, rfl, -⟩
      obtain ⟨p, hp, heq, -⟩ := Replacing.mem_writes.mp hq
      rw [heq]
      exact (List.of_mem_zip hp).1
  refine ⟨hslots, fun s => ?_, fun s => ⟨?_, fun hs => ?_⟩, fun s => and_congr_left fun hs => ⟨fun h => ?_, ?_⟩⟩
  · rw [hy, Replacing.foldl_write_newMapped, hnew]
    exact or_iff_right List.not_mem_nil
  · rintro ⟨i, hi, hs⟩
    obtain ⟨n, hn, hin⟩ := hcover i hi
    obtain ⟨t, ht⟩ := exists_zip hlen hn hin
    rw [hslots _ ht i hin] at hs
    cases hs
    exact (List.of_mem_zip ht).1
  · obtain ⟨p, hp, rfl, rg, hrg, hle, hlt⟩ := hfirst s hs
    exact ⟨rg.1, hle.trans_lt hlt, hslots p hp rg.1 ⟨rg, hrg, le_rfl, hle⟩⟩
  · rw [hy] at h
    rcases Replacing.mem_of_foldl_write_removed _ _ h with h | ⟨i, hcov, h⟩ | h
    · exact absurd h List.not_mem_nil
    · exact ⟨i, (hcovers i).mp hcov, h⟩
    · exact absurd ((hnew s).mpr h) hs
  · rintro ⟨i, hi, h⟩
    rw [hy]
    exact Replacing.mem_foldl_write_removed _ _ (Or.inr ⟨i, (hcovers i).mpr hi, h⟩)

/-- What `replace_map` does with a full map. -/
theorem replaceMap_full (rank : ServerId → ℕ) (hx : x.registry.Sound)
    (hranges : ∀ n ∈ nodes, ∀ rg ∈ n.slotRanges, rg.1 ≤ rg.2 ∧ rg.2 < clusterSlotCount) (hapart : Apart nodes)
    (hcover : ∀ i < clusterSlotCount, ∃ n ∈ nodes, InRanges n.slotRanges i)
    (hserving : Registry.Serving ((mapPlan mode nodes).map Prod.fst) connects x.registry r ss) :
    ∃ y : Routes, x.replaceMap rank mode nodes connects = (y, none) ∧
      (∀ p ∈ ss.zip (mapPlan mode nodes), y.registry.closed p.1 = false ∧ y.registry.addr p.1 = p.2.1 ∧
        ∀ i, InRanges p.2.2 i → y.slots i = some p.1) ∧
      ∃ cs, y.registry.calls = x.registry.calls ++ cs ∧ ∀ s, cs.count (.closed s) ≤ 1 ∧
        (.closed s ∈ cs ↔ x.registry.closed s = false ∧ (∃ i < clusterSlotCount, x.slots i = some s) ∧
          ∀ i < clusterSlotCount, y.slots i ≠ some s) := by
  have hlen : ss.length = (mapPlan mode nodes).length := hserving.length.trans (List.length_map _)
  have hopens := hserving.opens hx
  have hserved := hserving.served hx
  rw [List.zip_map_right] at hserved
  have hrange : PlanInRange (mapPlan mode nodes) := by
    intro p hp rg hrg _
    obtain ⟨n, hn, -, rfl⟩ := mem_mapPlan.mp hp
    exact (hranges n hn rg hrg).2
  have hmap := Replacing.mapNodes_eq (x := ⟨x, [], []⟩) hserving
  rw [Replacing.foldl_write_registry] at hmap
  obtain ⟨hslots, hnew, hmapped, hremoved⟩ :=
    writes_full (x := x) hranges hapart hcover hlen rfl
  generalize (Replacing.writes (ss.zip (mapPlan mode nodes))).foldl Replacing.write ⟨x, [], []⟩ = y at *
  have hgone : ∀ s, s ∈ inOrder rank (y.removed.filter (· ∉ y.newMapped)) ↔
      (∃ i < clusterSlotCount, x.slots i = some s) ∧ s ∉ ss := by
    intro s
    rw [mem_inOrder, List.mem_filter, decide_eq_true_iff, hnew, hremoved]
  have hnodup : (inOrder rank (y.removed.filter (· ∉ y.newMapped))).Nodup := inOrder_nodup _
  have hrun : x.replaceMap rank mode nodes connects =
      (closeAll (inOrder rank (y.removed.filter (· ∉ y.newMapped))) ⟨r, y.slots⟩, none) := by
    rw [replaceMap, if_pos hrange, hmap]
  generalize inOrder rank (y.removed.filter (· ∉ y.newMapped)) = gone at *
  obtain ⟨cs, hcalls, hcs⟩ := hopens.calls
  refine ⟨_, hrun, fun p hp => ⟨?_, ?_, hslots p hp⟩, cs ++ (gone.filter fun s => !r.closed s).map .closed, ?_,
    fun s => ⟨?_, ?_⟩⟩
  · have hss : p.1 ∈ ss := (List.of_mem_zip hp).1
    rw [closeAll, Registry.closeAll_closed, decide_eq_false fun h => ((hgone p.1).mp h).2 hss, Bool.or_false]
    exact (hserved _ (List.mem_map_of_mem hp)).1
  · rw [closeAll, Registry.closeAll_addr]
    exact (hserved _ (List.mem_map_of_mem hp)).2
  · rw [closeAll, Registry.closeAll_calls _ hnodup]
    show r.calls ++ _ = _
    rw [hcalls, List.append_assoc]
  · rw [List.count_append, List.count_eq_zero.mpr (hcs s), Nat.zero_add]
    refine List.nodup_iff_count_le_one.mp (List.Nodup.map (fun _ _ h => ?_) (hnodup.filter _)) _
    cases h
    rfl
  · rw [List.mem_append, or_iff_right (hcs s), List.mem_map_of_injective fun _ _ h => by cases h; rfl,
      List.mem_filter, hgone, Bool.not_eq_true']
    have hafter : (∀ i < clusterSlotCount, y.slots i ≠ some s) ↔ s ∉ ss := by
      rw [← hmapped]
      exact ⟨fun h ⟨i, hi, hs⟩ => h i hi hs, fun h i hi hs => h ⟨i, hi, hs⟩⟩
    show _ ↔ _ ∧ _ ∧ ∀ i < clusterSlotCount, y.slots i ≠ some s
    rw [hafter]
    constructor
    · rintro ⟨⟨hbefore, hss⟩, hopen⟩
      exact ⟨(hopens.others s hss).symm.trans hopen, hbefore, hss⟩
    · rintro ⟨hopen, hbefore, hss⟩
      exact ⟨⟨hbefore, hss⟩, (hopens.others s hss).trans hopen⟩

end Routes

namespace World

/-- Whatever servers the slots had before, open or closed: with a full map whose lookups succeed
every slot gets the server of the node that has it, the open servers that have lost all their slots
are closed, no others, and none of those in the map is closed. -/
theorem replaceMap_exact {cfg : Config} {w : World} (hw : Reached cfg w) (slots : ℕ → Option ServerId)
    (rank : ServerId → ℕ) (mode : Option Bytes) {nodes : List RedisNode} {connects : ℕ → Connect} {r : Registry}
    {ss : List ServerId} (hranges : ∀ n ∈ nodes, ∀ rg ∈ n.slotRanges, rg.1 ≤ rg.2 ∧ rg.2 < clusterSlotCount)
    (hapart : Apart nodes) (hcover : ∀ i < clusterSlotCount, ∃ n ∈ nodes, InRanges n.slotRanges i)
    (hserving : Registry.Serving ((mapPlan mode nodes).map Prod.fst) connects w.routes.registry r ss) :
    ∃ y : Routes, Routes.replaceMap rank mode nodes connects ⟨w.routes.registry, slots⟩ = (y, none) ∧
      (∀ n ∈ nodes, ∀ i, InRanges n.slotRanges i →
        ∃ s, (s, (nodeAddress mode nodes n, n.slotRanges)) ∈ ss.zip (mapPlan mode nodes) ∧
          y.slots i = some s ∧ y.registry.addr s = nodeAddress mode nodes n) ∧
      (∀ s, y.registry.calls.count (.closed s) ≤ 1 ∧
        (.closed s ∈ y.registry.calls ↔ w.routes.registry.closed s = false ∧
          (∃ i < clusterSlotCount, slots i = some s) ∧ ∀ i < clusterSlotCount, y.slots i ≠ some s)) ∧
      ∀ i < clusterSlotCount, ∃ s, y.slots i = some s ∧ y.registry.closed s = false := by
  have hinv := hw.inv
  obtain ⟨y, hrun, hslots, cs, hcalls, hcs⟩ := Routes.replaceMap_full (x := ⟨w.routes.registry, slots⟩) rank
    hinv.sound hranges hapart hcover hserving
  have hlen : ss.length = (mapPlan mode nodes).length := hserving.length.trans (List.length_map _)
  rw [show (⟨w.routes.registry, slots⟩ : Routes).registry.calls = [] from hinv.calls, List.nil_append] at hcalls
  refine ⟨y, hrun, fun n hn i hin => ?_, fun s => hcalls ▸ hcs s, fun i hi => ?_⟩
  · obtain ⟨s, hs⟩ := Routes.exists_zip hlen hn hin
    obtain ⟨-, haddr, hall⟩ := hslots _ hs
    exact ⟨s, hs, hall i hin, haddr⟩
  · obtain ⟨n, hn, hin⟩ := hcover i hi
    obtain ⟨s, hs⟩ := Routes.exists_zip hlen hn hin
    obtain ⟨hopen, -, hall⟩ := hslots _ hs
    exact ⟨s, hall i hin, hopen⟩

/-- Two masters that share the slots. -/
def halves : List RedisNode :=
  [Tracked.master "10.0.0.1" (0, 8191), Tracked.master "10.0.0.2" (8192, 16383)]

theorem inRanges_master {host : String} {rg : ℕ × ℕ} {i : ℕ} :
    InRanges (Tracked.master host rg).slotRanges i ↔ rg.1 ≤ i ∧ i ≤ rg.2 := by
  constructor
  · rintro ⟨rg', hrg, hin⟩
    cases List.mem_singleton.mp hrg
    exact hin
  · intro hin
    exact ⟨rg, List.mem_singleton_self rg, hin⟩

theorem apart_halves : Apart halves := by
  refine List.pairwise_pair.mpr fun i hi => ?_
  rw [inRanges_master, inRanges_master] at hi
  omega

theorem cover_halves : ∀ i < clusterSlotCount, ∃ n ∈ halves, InRanges n.slotRanges i := by
  intro i hi
  by_cases hlt : i < 8192
  · exact ⟨_, List.mem_cons_self, inRanges_master.mpr ⟨Nat.zero_le i, Nat.le_of_lt_succ hlt⟩⟩
  · exact ⟨_, List.mem_cons_of_mem _ List.mem_cons_self,
      inRanges_master.mpr ⟨Nat.le_of_not_lt hlt, Nat.le_of_lt_succ hi⟩⟩

/-- All slots had the server 7, which is open. -/
theorem replaceMap_exact_halves :
    ((new plainConfig).steps plainConfig sending).2 = none ∧
    ∃ y, Routes.replaceMap id none halves (fun _ => .opened)
        ⟨((new plainConfig).steps plainConfig sending).1.routes.registry, fun _ => some 7⟩ = (y, none) ∧
      .closed 7 ∈ y.registry.calls ∧
      ∀ i < clusterSlotCount, ∃ s, y.slots i = some s ∧ y.registry.closed s = false := by
  have hrun : ((new plainConfig).steps plainConfig sending).2 = none := by decide +kernel
  have hserving : Registry.Serving ((mapPlan none halves).map Prod.fst) (fun _ => .opened)
      ((new plainConfig).steps plainConfig sending).1.routes.registry _ [6, 5] :=
    .cons (.of_result (by decide +kernel) (by decide +kernel) (by decide +kernel))
      (.cons (.of_result (by decide +kernel) (by decide +kernel) (by decide +kernel)) .nil)
  obtain ⟨y, hy, hslots, hclosed, hopen⟩ := replaceMap_exact (Reached.steps sending .refl hrun) (fun _ => some 7) id none
    (by decide +kernel) apart_halves cover_halves hserving
  refine ⟨hrun, y, hy, (hclosed 7).2.mpr ⟨by decide +kernel, ⟨0, by decide, rfl⟩, fun i hi hs => ?_⟩, hopen⟩
  obtain ⟨n, hn, hin⟩ := cover_halves i hi
  obtain ⟨s, hmem, hslot, -⟩ := hslots n hn i hin
  rw [hs] at hslot
  cases hslot
  exact absurd (List.of_mem_zip hmem).1 (by decide)

end World

end Cerberus
