import Cerberus.Proxy
import Mathlib.Data.List.Infix
import Mathlib.Data.List.Perm.Subperm

/-! # The answer to `CLUSTER NODES`

`parse_slot_map` of `core/slot_map.cpp` with the functions it uses, and `_recv_rsp` of the
updaters.  Each call of `util::atoi` may find another value where its result is not initialised:
`junk` gives it, by the line, the word and the number in the word. -/

namespace Cerberus

/-! ### Words -/

/-- What `util::split_str` keeps of a word. -/
def keepWord (trimEmpty : Bool) (word : Bytes) : List Bytes :=
  if word.isEmpty && trimEmpty then [] else [word]

/-- The loop of `util::split_str`, with the word that has been begun. -/
def splitStrLoop (delimiters : Bytes) (trimEmpty : Bool) : Bytes → Bytes → List Bytes
  | word, [] => keepWord trimEmpty word
  | word, b :: l =>
      if b ∈ delimiters then keepWord trimEmpty word ++ splitStrLoop delimiters trimEmpty [] l
      else splitStrLoop delimiters trimEmpty (word ++ [b]) l

/-- `util::split_str(str, delimiters, trimEmpty)` -/
def splitStr (str delimiters : Bytes) (trimEmpty : Bool) : List Bytes :=
  splitStrLoop delimiters trimEmpty [] str

/-- `Address::from_host_port(addr)`, `none` for an exception.  The port is passed as a C string. -/
def fromHostPort (junk : ℤ) (addr : Bytes) : Option Address :=
  match splitStr addr (ascii ":") false with
  | [host, port] =>
      let ports := splitStr port (ascii "@") false
      (atoi junk ((ports.headD []).takeWhile (· ≠ 0))).map fun p => ⟨host, p⟩
  | _ => none

/-! ### Lines -/

/-- Insertion into a `std::set<std::pair<slot, slot>>`, kept as the list of its elements in
order. -/
def insertRange (rg : ℕ × ℕ) : List (ℕ × ℕ) → List (ℕ × ℕ)
  | [] => [rg]
  | rg' :: l =>
      if rg = rg' then rg' :: l
      else if rg.1 < rg'.1 ∨ (rg.1 = rg'.1 ∧ rg.2 < rg'.2) then rg :: rg' :: l
      else rg' :: insertRange rg l

/-- What the lambda of `parse_node` makes of a word: no range if a slot is being moved or if there
is no number, and `none` for an exception. -/
def parseRange (junk : ℕ → ℤ) (rg : Bytes) : Option (Option (ℕ × ℕ)) :=
  if rg.head? = some (chr '[') then some none
  else match splitStr rg (ascii "-") true with
  | [] => some none
  | [s] => (atoi (junk 0) s).map fun s => some (toSlot s, toSlot s)
  | first :: last :: _ =>
      (atoi (junk 0) first).bind fun a => (atoi (junk 1) last).map fun b => some (toSlot a, toSlot b)

/-- The `for_each` of `parse_node`, from a set of ranges on. -/
def parseRanges : (ℕ → ℕ → ℤ) → List Bytes → List (ℕ × ℕ) → Option (List (ℕ × ℕ))
  | _, [], rgs => some rgs
  | junk, rg :: words, rgs =>
      (parseRange (junk 0) rg).bind fun r =>
        parseRanges (fun n => junk (n + 1)) words (r.elim rgs fun r => insertRange r rgs)

/-- `parse_node` -/
def parseNode (junk : ℕ → ℕ → ℤ) (address nodeId masterId : Bytes) (slotRanges : List Bytes) :
    Option RedisNode :=
  (fromHostPort (junk 0 0) address).bind fun addr =>
    (parseRanges (fun n => junk (n + 1)) slotRanges []).map fun rgs =>
      ⟨addr, nodeId, if masterId = ascii "-" then [] else masterId, rgs⟩

/-- The node that answers may leave out its host. -/
def fillHost (defaultHost flags : Bytes) (node : RedisNode) : RedisNode :=
  if node.addr.host = [] ∧ ascii "myself" <:+: flags then
    { node with addr := { node.addr with host := defaultHost } }
  else node

theorem fillHost_slotRanges (defaultHost flags : Bytes) (node : RedisNode) :
    (fillHost defaultHost flags node).slotRanges = node.slotRanges := by
  unfold fillHost
  split <;> rfl

/-- A round of the loop of `parse_slot_map`. -/
def parseLine (junk : ℕ → ℕ → ℤ) (defaultHost line : Bytes) : Option RedisNode :=
  match splitStr line (ascii " ") true with
  | nodeId :: address :: flags :: masterId :: _ :: _ :: _ :: _ :: slotRanges =>
      if ascii "fail" <:+: flags then none
      else (parseNode junk address nodeId masterId slotRanges).map (fillHost defaultHost flags)
  | _ => none

/-- `parse_slot_map(nodes_info, default_host)` -/
def parseSlotMap (junk : ℕ → ℕ → ℕ → ℤ) (nodesInfo defaultHost : Bytes) : List RedisNode :=
  (splitStr nodesInfo (ascii "\n") true).zipIdx.filterMap fun p => parseLine (junk p.2) defaultHost p.1

/-- `SlotsMapUpdater::_recv_rsp()`, up to what is done with the nodes; `host` is the one of the
updater, `rsp` what it has received before. -/
def recvRsp (junk : ℕ → ℕ → ℕ → ℤ) (host rsp : Bytes) (inp : Input) : Bytes × Reply :=
  match readInto rsp inp with
  | (buf, some e) => (buf, .threw e)
  | (buf, none) =>
      match splitServerResponse buf inp.guard with
      | .failed e _ => (buf, if e.thrown = .bad then .bad else .threw e.thrown)
      | .split rest [] => (rest, .more)
      | .split rest [r] => (rest, .nodes (parseSlotMap junk r.getBuffer host))
      | .split rest (_ :: _ :: _) => (rest, .bad)

theorem recvRsp_nodes {junk : ℕ → ℕ → ℕ → ℤ} {host rsp : Bytes} {inp : Input} {ns : List RedisNode}
    (h : (recvRsp junk host rsp inp).2 = .nodes ns) : ∃ info, ns = parseSlotMap junk info host := by
  unfold recvRsp at h
  split at h
  · cases h
  · split at h
    · split at h <;> cases h
    · cases h
    · cases h
      exact ⟨_, rfl⟩
    · cases h

/-! ### The ranges of a text -/

theorem mem_insertRange {rg r : ℕ × ℕ} : ∀ {l : List (ℕ × ℕ)}, r ∈ insertRange rg l ↔ r = rg ∨ r ∈ l
  | [] => by
      rw [insertRange, List.mem_singleton, List.mem_nil_iff, or_false]
  | rg' :: l => by
      unfold insertRange
      split
      · rename_i heq
        rw [heq, List.mem_cons]
        exact ⟨Or.inr, fun h => h.elim Or.inl id⟩
      · split
        · exact List.mem_cons
        · rw [List.mem_cons, mem_insertRange, List.mem_cons]
          exact or_left_comm

/-- All words can be read, and the ranges are theirs. -/
theorem parseRanges_eq_some : ∀ {words : List Bytes} {junk : ℕ → ℕ → ℤ} {rgs out : List (ℕ × ℕ)},
    parseRanges junk words rgs = some out →
    (∀ (j : ℕ) (t : Bytes), words[j]? = some t → (parseRange (junk j) t).isSome) ∧
      ∀ rg, rg ∈ out ↔ rg ∈ rgs ∨ ∃ (j : ℕ) (t : Bytes), words[j]? = some t ∧ parseRange (junk j) t = some (some rg)
  | [], _, rgs, out, h => by
      cases h
      exact ⟨nofun, fun rg => ⟨Or.inl, fun h => h.elim id fun ⟨_, _, hj, _⟩ => by cases hj⟩⟩
  | w :: words, junk, rgs, out, h => by
      obtain ⟨r, hr, h⟩ := Option.bind_eq_some_iff.mp h
      obtain ⟨hall, hmem⟩ := parseRanges_eq_some h
      refine ⟨fun j t ht => ?_, fun rg => ?_⟩
      · cases j with
        | zero =>
            cases ht
            rw [hr]
            rfl
        | succ j => exact hall j t ht
      · have hfirst : rg ∈ r.elim rgs (fun r => insertRange r rgs) ↔ rg ∈ rgs ∨ r = some rg := by
          cases r with
          | none => exact ⟨Or.inl, fun h => h.elim id nofun⟩
          | some r =>
              show rg ∈ insertRange r rgs ↔ _
              rw [mem_insertRange, or_comm, Option.some_inj, eq_comm]
        rw [hmem rg, hfirst, or_assoc]
        refine or_congr_right ⟨?_, ?_⟩
        · rintro (rfl | ⟨j, t, ht, hp⟩)
          · exact ⟨0, w, rfl, hr⟩
          · exact ⟨j + 1, t, ht, hp⟩
        · rintro ⟨j, t, ht, hp⟩
          cases j with
          | zero =>
              cases ht
              rw [hr] at hp
              exact Or.inl (Option.some_inj.mp hp)
          | succ j => exact Or.inr ⟨j, t, ht, hp⟩

theorem parseRanges_isSome : ∀ (words : List Bytes) (junk : ℕ → ℕ → ℤ) (rgs : List (ℕ × ℕ)),
    (∀ (j : ℕ) (t : Bytes), words[j]? = some t → (parseRange (junk j) t).isSome) →
    ∃ out, parseRanges junk words rgs = some out
  | [], _, rgs, _ => ⟨rgs, rfl⟩
  | w :: words, junk, rgs, h => by
      obtain ⟨r, hr⟩ := Option.isSome_iff_exists.mp (h 0 w rfl)
      obtain ⟨out, hout⟩ := parseRanges_isSome words (fun n => junk (n + 1))
        (r.elim rgs fun r => insertRange r rgs) fun j t ht => h (j + 1) t ht
      exact ⟨out, by rw [parseRanges, hr]; exact hout⟩

/-- A line with the words up to the eighth that `parse_slot_map` looks at, and those of the
slots. -/
def Words (line address flags : Bytes) (slotRanges : List Bytes) : Prop :=
  ∃ nodeId masterId a b c d,
    splitStr line (ascii " ") true = nodeId :: address :: flags :: masterId :: a :: b :: c :: d :: slotRanges

/-- The line is taken: it has eight words, the node has not failed, and its address and its slots
can be read. -/
def Taken (junk : ℕ → ℕ → ℤ) (line : Bytes) (slotRanges : List Bytes) : Prop :=
  ∃ address flags, Words line address flags slotRanges ∧ ¬ ascii "fail" <:+: flags ∧
    (fromHostPort (junk 0 0) address).isSome ∧
    ∀ (j : ℕ) (t : Bytes), slotRanges[j]? = some t → (parseRange (junk (j + 1)) t).isSome

/-- A line that is taken has the range. -/
def Lists (junk : ℕ → ℕ → ℤ) (line : Bytes) (rg : ℕ × ℕ) : Prop :=
  ∃ slotRanges, Taken junk line slotRanges ∧
    ∃ (j : ℕ) (t : Bytes), slotRanges[j]? = some t ∧ parseRange (junk (j + 1)) t = some (some rg)

theorem parseLine_lists {junk : ℕ → ℕ → ℤ} {host line : Bytes} {rg : ℕ × ℕ} :
    (∃ n, parseLine junk host line = some n ∧ rg ∈ n.slotRanges) ↔ Lists junk line rg := by
  constructor
  · rintro ⟨n, hn, hrg⟩
    unfold parseLine at hn
    split at hn
    · rename_i nodeId address flags masterId a b c d slotRanges heq
      split at hn
      · cases hn
      · rename_i hfail
        obtain ⟨m, hm, rfl⟩ := Option.map_eq_some_iff.mp hn
        obtain ⟨addr, haddr, hm⟩ := Option.bind_eq_some_iff.mp hm
        obtain ⟨rgs, hrgs, rfl⟩ := Option.map_eq_some_iff.mp hm
        obtain ⟨hall, hmem⟩ := parseRanges_eq_some hrgs
        rw [fillHost_slotRanges] at hrg
        refine ⟨slotRanges, ⟨address, flags, ⟨nodeId, masterId, a, b, c, d, heq⟩, hfail, ?_, hall⟩, ?_⟩
        · rw [haddr]
          rfl
        · exact ((hmem rg).mp hrg).resolve_left List.not_mem_nil
    · cases hn
  · rintro ⟨slotRanges, ⟨address, flags, ⟨nodeId, masterId, a, b, c, d, heq⟩, hfail, haddr, hall⟩, hrg⟩
    obtain ⟨addr, haddr⟩ := Option.isSome_iff_exists.mp haddr
    obtain ⟨rgs, hrgs⟩ := parseRanges_isSome slotRanges (fun n => junk (n + 1)) [] hall
    have hmem := ((parseRanges_eq_some hrgs).2 rg).mpr (Or.inr hrg)
    unfold parseLine
    rw [heq]
    dsimp only
    rw [if_neg hfail, parseNode, haddr, Option.bind_some, hrgs]
    refine ⟨_, rfl, ?_⟩
    rw [fillHost_slotRanges]
    exact hmem

theorem parseSlotMap_lists {junk : ℕ → ℕ → ℕ → ℤ} {info : Bytes} (host : Bytes) {rg : ℕ × ℕ} :
    (∃ n ∈ parseSlotMap junk info host, rg ∈ n.slotRanges) ↔
      ∃ (i : ℕ) (line : Bytes), (splitStr info (ascii "\n") true)[i]? = some line ∧ Lists (junk i) line rg := by
  constructor
  · rintro ⟨n, hn, hrg⟩
    obtain ⟨⟨line, i⟩, hp, hline⟩ := List.mem_filterMap.mp hn
    exact ⟨i, line, List.mem_zipIdx_iff_getElem?.mp hp, parseLine_lists.mp ⟨n, hline, hrg⟩⟩
  · rintro ⟨i, line, hi, hlists⟩
    obtain ⟨n, hline, hrg⟩ := parseLine_lists.mpr hlists
    exact ⟨n, List.mem_filterMap.mpr ⟨(line, i), List.mem_zipIdx_iff_getElem?.mpr hi, hline⟩, hrg⟩

/-! ### Coverage -/

/-- The elements of `_covered_slots`. -/
theorem exists_covered : ∀ rgs : List (ℕ × ℕ),
    ∃ l : List ℕ, l.Nodup ∧ (∀ i, i ∈ l ↔ InRanges rgs i) ∧ l.length = coveredCount rgs
  | [] => ⟨[], List.nodup_nil, fun i => ⟨nofun, fun ⟨_, h, _⟩ => absurd h List.not_mem_nil⟩, rfl⟩
  | rg :: rgs => by
      obtain ⟨l, hnd, hmem, hlen⟩ := exists_covered rgs
      have hin : ∀ i, InRanges (rg :: rgs) i ↔ InRanges rgs i ∨ (rg.1 ≤ i ∧ i ≤ rg.2) := by
        intro i
        unfold InRanges
        rw [List.exists_mem_cons_iff, or_comm]
      refine ⟨l ++ (List.range' rg.1 (rg.2 + 1 - rg.1)).filter fun i => ¬ InRanges rgs i, ?_, fun i => ?_, ?_⟩
      · refine List.nodup_append.mpr ⟨hnd, (List.nodup_range' (h := Nat.one_pos)).filter _, fun i hi j hj => ?_⟩
        rintro rfl
        have := (List.mem_filter.mp hj).2
        exact of_decide_eq_true this ((hmem i).mp hi)
      · rw [List.mem_append, hmem, hin, List.mem_filter, List.mem_range'_1, decide_eq_true_iff]
        constructor
        · rintro (h | ⟨⟨hle, hlt⟩, -⟩)
          · exact Or.inl h
          · exact Or.inr ⟨hle, by omega⟩
        · rintro (h | ⟨hle, hlt⟩)
          · exact Or.inl h
          · by_cases h : InRanges rgs i
            · exact Or.inl h
            · exact Or.inr ⟨⟨hle, by omega⟩, h⟩
      · rw [List.length_append, hlen, coveredCount]

theorem coveredCount_single (rg : ℕ × ℕ) : coveredCount [rg] = rg.2 + 1 - rg.1 := by
  rw [coveredCount, coveredCount, List.filter_eq_self.mpr, List.length_range', Nat.zero_add]
  rintro i -
  exact decide_eq_true fun ⟨_, h, _⟩ => List.not_mem_nil h

/-- As many slots as there are, none of them beyond the last one: these are all slots. -/
theorem inRanges_of_count {rgs : List (ℕ × ℕ)} {n : ℕ} (hlt : ∀ i, InRanges rgs i → i < n)
    (hcount : n ≤ coveredCount rgs) {i : ℕ} (hi : i < n) : InRanges rgs i := by
  obtain ⟨l, hnd, hmem, hlen⟩ := exists_covered rgs
  have hsub : l.Subperm (List.range n) :=
    List.subperm_of_subset hnd fun i hi => List.mem_range.mpr (hlt i ((hmem i).mp hi))
  have hperm := hsub.perm_of_length_le (by rw [List.length_range, hlen]; exact hcount)
  exact (hmem i).mp (hperm.mem_iff.mpr (List.mem_range.mpr hi))

/-! ### What a text must be like -/

/-- No range of a line that is taken goes beyond the last slot. -/
def SlotsInBounds (junk : ℕ → ℕ → ℕ → ℤ) (info : Bytes) : Prop :=
  ∀ (i : ℕ) (line : Bytes) (rg : ℕ × ℕ), (splitStr info (ascii "\n") true)[i]? = some line →
    Lists (junk i) line rg → rg.1 ≤ rg.2 → rg.2 < clusterSlotCount

theorem slotsInBounds_iff {junk : ℕ → ℕ → ℕ → ℤ} {info : Bytes} (host : Bytes) :
    SlotsInBounds junk info ↔
      ∀ n ∈ parseSlotMap junk info host, ∀ rg ∈ n.slotRanges, rg.1 ≤ rg.2 → rg.2 < clusterSlotCount := by
  constructor
  · intro h n hn rg hrg
    obtain ⟨i, line, hi, hlists⟩ := (parseSlotMap_lists host).mp ⟨n, hn, hrg⟩
    exact h i line rg hi hlists
  · intro h i line rg hi hlists
    obtain ⟨n, hn, hrg⟩ := (parseSlotMap_lists host).mpr ⟨i, line, hi, hlists⟩
    exact h n hn rg hrg

/-- The slots of the plan are those of the nodes, in both modes. -/
theorem planCovers_mapPlan {mode : Option Bytes} {ns : List RedisNode} {i : ℕ} :
    PlanCovers (mapPlan mode ns) i ↔ ∃ n ∈ ns, InRanges n.slotRanges i := by
  constructor
  · rintro ⟨p, hp, hin⟩
    obtain ⟨n, hn, heq⟩ := List.mem_filterMap.mp hp
    split at heq
    · cases heq
    · cases heq
      exact ⟨n, hn, hin⟩
  · rintro ⟨n, hn, rg, hrg, hin⟩
    have hne : n.slotRanges.isEmpty ≠ true := by
      rw [ne_eq, List.isEmpty_iff]
      exact List.ne_nil_of_mem hrg
    exact ⟨_, List.mem_filterMap.mpr ⟨n, hn, if_neg hne⟩, rg, hrg, hin⟩

theorem mem_knownNodes {ns : List RedisNode} {n : RedisNode} : n ∈ knownNodes ns ↔ n ∈ ns ∧ n.addr.host ≠ [] := by
  rw [knownNodes, List.mem_filter, Bool.not_eq_true', List.isEmpty_eq_false_iff]

/-- A slot is counted if a node with an address has it. -/
theorem inRanges_knownNodes {ns : List RedisNode} {i : ℕ} :
    InRanges ((knownNodes ns).flatMap (·.slotRanges)) i ↔ ∃ n ∈ ns, n.addr.host ≠ [] ∧ InRanges n.slotRanges i := by
  constructor
  · rintro ⟨rg, hrg, hin⟩
    obtain ⟨n, hn, hrg⟩ := List.mem_flatMap.mp hrg
    obtain ⟨hn, hhost⟩ := mem_knownNodes.mp hn
    exact ⟨n, hn, hhost, rg, hrg, hin⟩
  · rintro ⟨n, hn, hhost, rg, hrg, hin⟩
    exact ⟨rg, List.mem_flatMap.mpr ⟨n, mem_knownNodes.mpr ⟨hn, hhost⟩, hrg⟩, hin⟩

/-- The loops of `replace_map` stay within the array, only slots of the cluster are counted, and a
map with as many slots as there are has all of them: for every answer and in both modes just
if no range that is listed goes beyond the last slot. -/
theorem slotIndices_iff (junk : ℕ → ℕ → ℕ → ℤ) (info host : Bytes) (mode : Option Bytes) :
    ((∀ i, PlanCovers (mapPlan mode (parseSlotMap junk info host)) i → i < clusterSlotCount) ∧
      (∀ i, InRanges ((knownNodes (parseSlotMap junk info host)).flatMap (·.slotRanges)) i → i < clusterSlotCount) ∧
      (clusterSlotCount ≤ coveredSlots (parseSlotMap junk info host) → ∀ i < clusterSlotCount,
        ∃ n ∈ parseSlotMap junk info host, n.addr.host ≠ [] ∧ InRanges n.slotRanges i)) ↔
      SlotsInBounds junk info := by
  rw [slotsInBounds_iff host]
  generalize parseSlotMap junk info host = ns
  constructor
  · rintro ⟨hplan, -, -⟩ n hn rg hrg hle
    exact hplan rg.2 (planCovers_mapPlan.mpr ⟨n, hn, rg, hrg, hle, le_rfl⟩)
  · intro h
    have hlt : ∀ i, (∃ n ∈ ns, InRanges n.slotRanges i) → i < clusterSlotCount := by
      rintro i ⟨n, hn, rg, hrg, hle, hge⟩
      exact hge.trans_lt (h n hn rg hrg (hle.trans hge))
    have hcounted : ∀ i, InRanges ((knownNodes ns).flatMap (·.slotRanges)) i → i < clusterSlotCount := by
      intro i hi
      obtain ⟨n, hn, -, hin⟩ := inRanges_knownNodes.mp hi
      exact hlt i ⟨n, hn, hin⟩
    refine ⟨fun i hi => hlt i (planCovers_mapPlan.mp hi), hcounted, fun hcount i hi => ?_⟩
    exact inRanges_knownNodes.mp (inRanges_of_count hcounted hcount hi)

/-- A range that is one slot too far to the right. -/
def shiftedInfo : Bytes := ascii "a 10.0.0.1:6379@16379 myself,master - 0 0 1 connected 1-16384\n"

theorem parse_shiftedInfo : parseSlotMap (fun _ _ _ => 0) shiftedInfo [] =
    [⟨⟨ascii "10.0.0.1", 6379⟩, ascii "a", [], [(1, 16384)]⟩] := by
  decide +kernel

/-- The map is accepted without the first slot, and the last index is outside the array. -/
theorem slotIndices_shifted :
    PlanCovers (mapPlan none (parseSlotMap (fun _ _ _ => 0) shiftedInfo [])) clusterSlotCount ∧
    (Routes.new.replaceMap id none (parseSlotMap (fun _ _ _ => 0) shiftedInfo []) fun _ => .opened).2 =
      some .undefined ∧
    clusterSlotCount ≤ coveredSlots (parseSlotMap (fun _ _ _ => 0) shiftedInfo []) ∧
    ¬ ∃ n ∈ parseSlotMap (fun _ _ _ => 0) shiftedInfo [], n.addr.host ≠ [] ∧ InRanges n.slotRanges 0 := by
  rw [parse_shiftedInfo]
  refine ⟨by decide +kernel, by decide +kernel, ?_, by decide +kernel⟩
  exact (coveredCount_single (1, 16384)).ge

end Cerberus
