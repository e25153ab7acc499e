import Cerberus.Routing

/-! # Updates of the slot map

`SlotsMapUpdater` and the functions of `core/proxy.cpp` that decide what becomes of the answers.
A round begins with `_retrieve_slot_map`, which creates an updater for every remote, and each of
them finishes in its own time.  What the proxy does with the decision, `_set_slot_map` or the
cluster-down action of `_update_slot_map_failed`, does not look at the updaters; it is given
back as an `Outcome`. -/

namespace Cerberus

abbrev UpdaterId := ℕ

/-- The number of slots in the ranges. -/
def coveredCount : List (ℕ × ℕ) → ℕ
  | [] => 0
  | rg :: rgs =>
      coveredCount rgs + ((List.range' rg.1 (rg.2 + 1 - rg.1)).filter fun i => ¬ InRanges rgs i).length

/-- The nodes whose address is known. -/
def knownNodes (nodes : List RedisNode) : List RedisNode := nodes.filter fun n => !n.addr.host.isEmpty

/-- The size of `_covered_slots` -/
def coveredSlots (nodes : List RedisNode) : ℕ := coveredCount ((knownNodes nodes).flatMap (·.slotRanges))

/-- `_remotes` -/
def nodeRemotes (nodes : List RedisNode) : List Address :=
  ((knownNodes nodes).map (·.addr)).foldl insertAddress []

/-- A `SlotsMapUpdater`; `covered` is the size of `_covered_slots`. -/
structure Updater where
  closed : Bool
  proxyAlreadyUpdated : Bool
  rsp : Bytes
  nodes : List RedisNode
  remotes : List Address
  covered : ℕ
deriving DecidableEq, Repr

def Updater.new : Updater := ⟨false, false, [], [], [], 0⟩

inductive Outcome where
  | install (nodes : List RedisNode) (remotes : List Address)
  | clusterDown
deriving DecidableEq, Repr

structure Updaters where
  objects : UpdaterId → Updater
  count : ℕ
  slotUpdaters : List UpdaterId
  finishedSlotUpdaters : List UpdaterId

namespace Updaters

def set (x : Updaters) (u : UpdaterId) (o : Updater) : Updaters :=
  { x with objects := Function.update x.objects u o }

def close (x : Updaters) (u : UpdaterId) : Updaters := x.set u { x.objects u with closed := true }

/-- What `_recv_rsp` does with the map it has received. -/
def receive (x : Updaters) (u : UpdaterId) (nodes : List RedisNode) : Updaters :=
  x.set u { x.objects u with
    nodes := nodes
    remotes := nodeRemotes nodes
    covered := coveredSlots nodes }

/-- `_move_closed_slot_updaters()` -/
def moveClosedSlotUpdaters (x : Updaters) : Updaters :=
  { x with
    objects := fun u =>
      if u ∈ x.slotUpdaters then { x.objects u with proxyAlreadyUpdated := true } else x.objects u
    finishedSlotUpdaters := x.finishedSlotUpdaters ++ x.slotUpdaters
    slotUpdaters := [] }

/-- `max_element`, of a list that begins with `best`. -/
def maxElement (x : Updaters) (best : UpdaterId) (us : List UpdaterId) : UpdaterId :=
  us.foldl (fun best u => if (x.objects best).covered < (x.objects u).covered then u else best) best

/-- What is done when all updaters are closed. -/
def decision (fullCov : Bool) (x : Updaters) : Outcome :=
  match x.slotUpdaters with
  | [] => .clusterDown
  | u :: us =>
      let candidate := x.objects (x.maxElement u us)
      if fullCov = false ∧ candidate.covered ≠ 0 then .install candidate.nodes candidate.remotes
      else .clusterDown

/-- `_update_slot_map_failed()` -/
def updateSlotMapFailed (fullCov : Bool) (x : Updaters) : Updaters × Option Outcome :=
  if ∃ u ∈ x.slotUpdaters, (x.objects u).closed = false then (x, none)
  else (x.moveClosedSlotUpdaters, some (x.decision fullCov))

/-- `notify_slot_map_updated` -/
def notifySlotMapUpdated (fullCov : Bool) (o : Updater) (x : Updaters) : Updaters × Option Outcome :=
  if o.covered < clusterSlotCount then x.updateSlotMapFailed fullCov
  else (x.moveClosedSlotUpdaters, some (.install o.nodes o.remotes))

/-- `_notify_updated()` -/
def notifyUpdated (fullCov : Bool) (u : UpdaterId) (x : Updaters) : Updaters × Option Outcome :=
  let x := x.close u
  if (x.objects u).proxyAlreadyUpdated then (x, none)
  else x.notifySlotMapUpdated fullCov (x.objects u)

/-- An updater finishes: with a map, or because of a hang-up, an error or a bad message. -/
def finish (fullCov : Bool) (u : UpdaterId) (answer : Option (List RedisNode)) (x : Updaters) :
    Updaters × Option Outcome :=
  match answer with
  | some nodes => (x.receive u nodes).notifyUpdated fullCov u
  | none => x.notifyUpdated fullCov u

/-- The state after some have finished. -/
def after (fullCov : Bool) (x : Updaters) (fs : List (UpdaterId × Option (List RedisNode))) : Updaters :=
  fs.foldl (fun x p => (x.finish fullCov p.1 p.2).1) x

/-- What the `m`-th one that finishes makes the proxy do. -/
def outcomeAt (fullCov : Bool) (x : Updaters) (fs : List (UpdaterId × Option (List RedisNode)))
    (m : ℕ) : Option Outcome :=
  fs[m]?.bind fun p => ((x.after fullCov (fs.take m)).finish fullCov p.1 p.2).2

end Updaters

/-! ### What a round is to come to -/

/-- The map of an answer; that of an updater that failed is empty. -/
def answered (p : UpdaterId × Option (List RedisNode)) : List RedisNode := p.2.getD []

def mapOutcome (p : UpdaterId × Option (List RedisNode)) : Outcome :=
  .install (answered p) (nodeRemotes (answered p))

/-- The `n`-th one to finish decides the round: it is the first with all slots, or there is none
and it is the last. -/
inductive Decides (fullCov : Bool) (fs : List (UpdaterId × Option (List RedisNode))) :
    ℕ → Outcome → Prop
  | full {pre post : List (UpdaterId × Option (List RedisNode))}
      {p : UpdaterId × Option (List RedisNode)} (hfs : fs = pre ++ p :: post)
      (hp : clusterSlotCount ≤ coveredSlots (answered p))
      (hpre : ∀ q ∈ pre, coveredSlots (answered q) < clusterSlotCount) :
      Decides fullCov fs pre.length (mapOutcome p)
  | largest {n : ℕ} {p : UpdaterId × Option (List RedisNode)} (hn : n + 1 = fs.length)
      (hfew : ∀ q ∈ fs, coveredSlots (answered q) < clusterSlotCount) (hcov : fullCov = false)
      (hp : p ∈ fs) (hpos : 0 < coveredSlots (answered p))
      (hmax : ∀ q ∈ fs, coveredSlots (answered q) ≤ coveredSlots (answered p)) :
      Decides fullCov fs n (mapOutcome p)
  | none {n : ℕ} (hn : n + 1 = fs.length)
      (hfew : ∀ q ∈ fs, coveredSlots (answered q) < clusterSlotCount)
      (hcov : fullCov = true ∨ ∀ q ∈ fs, coveredSlots (answered q) = 0) :
      Decides fullCov fs n .clusterDown

namespace Updaters

/-! ### A round -/

section
variable (fullCov : Bool) {us : List UpdaterId} {done : List (UpdaterId × Option (List RedisNode))}
  {p : UpdaterId × Option (List RedisNode)} {x : Updaters}

/-- What an updater knows after it has received the nodes. -/
structure Knows (o : Updater) (nodes : List RedisNode) : Prop where
  map : o.nodes = nodes
  remotes : o.remotes = nodeRemotes nodes
  covered : o.covered = coveredSlots nodes

/-- The round is not decided: those of `done` have finished, the others are open. -/
structure Pending (us : List UpdaterId) (done : List (UpdaterId × Option (List RedisNode)))
    (x : Updaters) : Prop where
  updaters : x.slotUpdaters = us
  flag : ∀ u ∈ us, (x.objects u).proxyAlreadyUpdated = false
  finished : ∀ p ∈ done, (x.objects p.1).closed = true ∧ Knows (x.objects p.1) (answered p)
  waiting : ∀ u ∈ us, u ∉ done.map Prod.fst →
    (x.objects u).closed = false ∧ Knows (x.objects u) []

/-- The round is decided; those that have not finished know that. -/
structure Decided (us : List UpdaterId) (x : Updaters) : Prop where
  updaters : x.slotUpdaters = []
  flag : ∀ u ∈ us, (x.objects u).proxyAlreadyUpdated = true

/-- The updaters when `u` has closed its connection. -/
def closing (x : Updaters) (p : UpdaterId × Option (List RedisNode)) : Updaters :=
  match p.2 with
  | some nodes => (x.receive p.1 nodes).close p.1
  | none => x.close p.1

theorem finish_eq : x.finish fullCov p.1 p.2 =
    if ((x.closing p).objects p.1).proxyAlreadyUpdated then (x.closing p, none)
    else (x.closing p).notifySlotMapUpdated fullCov ((x.closing p).objects p.1) := by
  obtain ⟨u, _ | nodes⟩ := p <;> rfl

theorem closing_slotUpdaters : (x.closing p).slotUpdaters = x.slotUpdaters := by
  obtain ⟨u, _ | nodes⟩ := p <;> rfl

theorem closing_of_ne {u : UpdaterId} (h : u ≠ p.1) : (x.closing p).objects u = x.objects u := by
  obtain ⟨v, _ | nodes⟩ := p
  · exact Function.update_of_ne h ..
  · exact (Function.update_of_ne h ..).trans (Function.update_of_ne h ..)

theorem closing_flag :
    ((x.closing p).objects p.1).proxyAlreadyUpdated = (x.objects p.1).proxyAlreadyUpdated := by
  obtain ⟨v, _ | nodes⟩ := p <;> simp [closing, close, receive, set]

theorem closing_self (h : Knows (x.objects p.1) []) :
    ((x.closing p).objects p.1).closed = true ∧ Knows ((x.closing p).objects p.1) (answered p) := by
  obtain ⟨v, _ | nodes⟩ := p
  · refine ⟨by simp [closing, close, set], ?_⟩
    constructor <;> simp [closing, close, set, h.map, h.remotes, h.covered, answered]
  · refine ⟨by simp [closing, close, set], ?_⟩
    constructor <;> simp [closing, close, receive, set, answered]

theorem Pending.closing (h : Pending us done x) (hu : p.1 ∈ us) (hp : p.1 ∉ done.map Prod.fst) :
    Pending us (done ++ [p]) (x.closing p) := by
  refine ⟨closing_slotUpdaters.trans h.updaters, fun u hmem => ?_, fun q hq => ?_, fun u hmem hnot => ?_⟩
  · by_cases heq : u = p.1
    · rw [heq, closing_flag]
      exact h.flag _ hu
    · rw [closing_of_ne heq]
      exact h.flag u hmem
  · rcases List.mem_append.mp hq with hq | hq
    · have hne : q.1 ≠ p.1 := fun heq => hp (heq ▸ List.mem_map_of_mem hq)
      rw [closing_of_ne hne]
      exact h.finished q hq
    · rw [List.mem_singleton.mp hq]
      exact closing_self (h.waiting _ hu hp).2
  · rw [List.map_append, List.mem_append, not_or] at hnot
    have hne : u ≠ p.1 := fun heq => hnot.2 (heq ▸ List.mem_singleton_self _)
    rw [closing_of_ne hne]
    exact h.waiting u hmem hnot.1

theorem Pending.decided (h : Pending us done x) : Decided us x.moveClosedSlotUpdaters := by
  refine ⟨rfl, fun u hu => ?_⟩
  simp only [moveClosedSlotUpdaters, h.updaters, if_pos hu]

/-- Those that finish after the decision change nothing. -/
theorem Decided.finish (h : Decided us x) (hu : p.1 ∈ us) :
    (x.finish fullCov p.1 p.2).2 = none ∧ Decided us (x.finish fullCov p.1 p.2).1 := by
  have hflag : ((x.closing p).objects p.1).proxyAlreadyUpdated = true := by
    rw [closing_flag]
    exact h.flag _ hu
  rw [finish_eq, if_pos hflag]
  refine ⟨rfl, closing_slotUpdaters.trans h.updaters, fun u hmem => ?_⟩
  by_cases heq : u = p.1
  · rw [heq]
    exact hflag
  · rw [closing_of_ne heq]
    exact h.flag u hmem

/-- The first one with all slots decides. -/
theorem Pending.finish_full (h : Pending us done x) (hu : p.1 ∈ us) (hp : p.1 ∉ done.map Prod.fst)
    (hfull : clusterSlotCount ≤ coveredSlots (answered p)) :
    (x.finish fullCov p.1 p.2).2 = some (mapOutcome p) ∧ Decided us (x.finish fullCov p.1 p.2).1 := by
  have hc := h.closing hu hp
  obtain ⟨-, hk⟩ := hc.finished p (List.mem_append_right _ (List.mem_singleton_self _))
  have hflag : ¬ ((x.closing p).objects p.1).proxyAlreadyUpdated = true := by
    rw [hc.flag _ hu]
    decide
  have hcov : ¬ ((x.closing p).objects p.1).covered < clusterSlotCount := by
    rw [hk.covered]
    exact Nat.not_lt.mpr hfull
  rw [finish_eq, if_neg hflag, notifySlotMapUpdated, if_neg hcov, hk.map, hk.remotes]
  exact ⟨rfl, hc.decided⟩

theorem Pending.finish_few (h : Pending us done x) (hu : p.1 ∈ us) (hp : p.1 ∉ done.map Prod.fst)
    (hfew : coveredSlots (answered p) < clusterSlotCount) :
    x.finish fullCov p.1 p.2 = (x.closing p).updateSlotMapFailed fullCov := by
  have hc := h.closing hu hp
  obtain ⟨-, hk⟩ := hc.finished p (List.mem_append_right _ (List.mem_singleton_self _))
  have hflag : ¬ ((x.closing p).objects p.1).proxyAlreadyUpdated = true := by
    rw [hc.flag _ hu]
    decide
  rw [finish_eq, if_neg hflag, notifySlotMapUpdated, if_pos (by rw [hk.covered]; exact hfew)]

/-- While another one is open nothing is decided. -/
theorem Pending.updateSlotMapFailed_open (h : Pending us done x) {u : UpdaterId} (hu : u ∈ us)
    (hopen : u ∉ done.map Prod.fst) : x.updateSlotMapFailed fullCov = (x, none) := by
  refine if_pos ⟨u, ?_, (h.waiting u hu hopen).1⟩
  rw [h.updaters]
  exact hu

theorem maxElement_spec : ∀ (us : List UpdaterId) (best : UpdaterId),
    x.maxElement best us ∈ best :: us ∧
      ∀ u ∈ best :: us, (x.objects u).covered ≤ (x.objects (x.maxElement best us)).covered
  | [], best => ⟨List.mem_cons_self, fun u hu => by rw [List.mem_singleton.mp hu]; exact le_rfl⟩
  | v :: us, best => by
      obtain ⟨hmem, hmax⟩ := maxElement_spec us
        (if (x.objects best).covered < (x.objects v).covered then v else best)
      refine ⟨?_, fun u hu => ?_⟩
      · rcases List.mem_cons.mp hmem with heq | hmem
        · rw [show x.maxElement best (v :: us) = _ from heq]
          split
          · exact List.mem_cons_of_mem _ List.mem_cons_self
          · exact List.mem_cons_self
        · exact List.mem_cons_of_mem _ (List.mem_cons_of_mem _ hmem)
      · have hbest := hmax _ List.mem_cons_self
        rcases List.mem_cons.mp hu with rfl | hu
        · refine le_trans ?_ hbest
          split
          · rename_i hlt
            exact hlt.le
          · exact le_rfl
        rcases List.mem_cons.mp hu with rfl | hu
        · refine le_trans ?_ hbest
          split
          · exact le_rfl
          · rename_i hge
            exact Nat.not_lt.mp hge
        · exact hmax u (List.mem_cons_of_mem _ hu)

/-- When the last one has closed, the largest map decides, if it may. -/
theorem Pending.decides (h : Pending us done x) (hus : us ≠ []) (hall : ∀ u, u ∈ us ↔ u ∈ done.map Prod.fst)
    (hfew : ∀ q ∈ done, coveredSlots (answered q) < clusterSlotCount) {n : ℕ} (hn : n + 1 = done.length) :
    x.updateSlotMapFailed fullCov = (x.moveClosedSlotUpdaters, some (x.decision fullCov)) ∧
      Decides fullCov done n (x.decision fullCov) := by
  have hclosed : ¬ ∃ u ∈ x.slotUpdaters, (x.objects u).closed = false := by
    rintro ⟨u, hu, hopen⟩
    rw [h.updaters, hall] at hu
    obtain ⟨q, hq, rfl⟩ := List.mem_map.mp hu
    rw [(h.finished q hq).1] at hopen
    cases hopen
  refine ⟨if_neg hclosed, ?_⟩
  obtain ⟨v, vs, hvs⟩ := List.exists_cons_of_ne_nil hus
  obtain ⟨hmem, hmax⟩ := @maxElement_spec x vs v
  rw [← hvs, hall] at hmem
  obtain ⟨q, hq, hqmax⟩ := List.mem_map.mp hmem
  have hkq := (h.finished q hq).2
  have hle : ∀ q' ∈ done, coveredSlots (answered q') ≤ coveredSlots (answered q) := by
    intro q' hq'
    rw [← (h.finished q' hq').2.covered, ← hkq.covered, hqmax]
    refine hmax _ ?_
    rw [← hvs, hall]
    exact List.mem_map_of_mem hq'
  have heq : x.decision fullCov =
      if fullCov = false ∧ coveredSlots (answered q) ≠ 0 then mapOutcome q else .clusterDown := by
    simp only [decision, h.updaters, hvs, ← hqmax, hkq.covered, hkq.map, hkq.remotes, mapOutcome]
  rw [heq]
  split
  · rename_i hcond
    exact .largest hn hfew hcond.1 hq (Nat.pos_of_ne_zero hcond.2) hle
  · rename_i hcond
    refine .none hn hfew ?_
    cases hf : fullCov with
    | true => exact Or.inl rfl
    | false =>
        refine Or.inr fun q' hq' => ?_
        have hzero : coveredSlots (answered q) = 0 := by
          by_contra hne
          exact hcond ⟨hf, hne⟩
        exact Nat.le_zero.mp (hzero ▸ hle q' hq')

/-! ### Any order of finishing -/

/-- What a run says about a round with the updaters `us`, of which `n` finish before it is
decided. -/
structure Settled (fullCov : Bool) (us : List UpdaterId) (x : Updaters)
    (fs : List (UpdaterId × Option (List RedisNode))) (n : ℕ) (o : Outcome) : Prop where
  lt : n < fs.length
  outcome : ∀ m, x.outcomeAt fullCov fs m = if m = n then some o else none
  before : ∀ m ≤ n, (x.after fullCov (fs.take m)).slotUpdaters = us
  afterwards : ∀ m, n < m → (x.after fullCov (fs.take m)).slotUpdaters = []

theorem Decided.run : ∀ {x : Updaters} (fs : List (UpdaterId × Option (List RedisNode))),
    Decided us x → (∀ p ∈ fs, p.1 ∈ us) →
    (∀ m, x.outcomeAt fullCov fs m = none) ∧ ∀ m, (x.after fullCov (fs.take m)).slotUpdaters = []
  | x, [], h, _ => ⟨fun _ => rfl, fun m => by rw [List.take_nil]; exact h.updaters⟩
  | x, p :: fs, h, hfs => by
      obtain ⟨hnone, hdec⟩ := h.finish fullCov (hfs p List.mem_cons_self)
      obtain ⟨hrun, hslots⟩ := hdec.run fs fun q hq => hfs q (List.mem_cons_of_mem _ hq)
      refine ⟨fun m => ?_, fun m => ?_⟩
      · cases m with
        | zero => exact hnone
        | succ m => exact hrun m
      · cases m with
        | zero => exact h.updaters
        | succ m => exact hslots m

/-- One that decides the round is followed by others that change nothing. -/
theorem Settled.now {o : Outcome} {fs : List (UpdaterId × Option (List RedisNode))}
    (hx : x.slotUpdaters = us) (ho : (x.finish fullCov p.1 p.2).2 = some o)
    (hdec : Decided us (x.finish fullCov p.1 p.2).1) (hfs : ∀ q ∈ fs, q.1 ∈ us) :
    Settled fullCov us x (p :: fs) 0 o := by
  obtain ⟨hrun, hslots⟩ := hdec.run fullCov fs hfs
  refine ⟨Nat.zero_lt_succ _, fun m => ?_, fun m hm => ?_, fun m hm => ?_⟩
  · cases m with
    | zero => exact ho
    | succ m => exact (hrun m).trans (if_neg (Nat.succ_ne_zero m)).symm
  · rw [Nat.le_zero.mp hm]
    exact hx
  · obtain ⟨m, rfl⟩ := Nat.exists_eq_succ_of_ne_zero (Nat.ne_of_gt hm)
    exact hslots m

theorem Settled.later {o : Outcome} {n : ℕ} {fs : List (UpdaterId × Option (List RedisNode))}
    (hx : x.slotUpdaters = us) (hnone : (x.finish fullCov p.1 p.2).2 = none)
    (h : Settled fullCov us (x.finish fullCov p.1 p.2).1 fs n o) :
    Settled fullCov us x (p :: fs) (n + 1) o := by
  refine ⟨Nat.succ_lt_succ h.lt, fun m => ?_, fun m hm => ?_, fun m hm => ?_⟩
  · cases m with
    | zero => exact hnone.trans (if_neg (Nat.succ_ne_zero n).symm).symm
    | succ m =>
        refine (h.outcome m).trans ?_
        simp only [Nat.add_right_cancel_iff]
  · cases m with
    | zero => exact hx
    | succ m => exact h.before m (Nat.succ_le_succ_iff.mp hm)
  · obtain ⟨m, rfl⟩ := Nat.exists_eq_succ_of_ne_zero (Nat.ne_zero_of_lt hm)
    exact h.afterwards m (Nat.succ_lt_succ_iff.mp hm)

/-- The induction is on those that are still to finish. -/
theorem Pending.settled (hus : us ≠ []) :
    ∀ {x : Updaters} (fs done : List (UpdaterId × Option (List RedisNode))), Pending us done x →
    fs ≠ [] → ((done ++ fs).map Prod.fst).Nodup → (∀ u, u ∈ us ↔ u ∈ (done ++ fs).map Prod.fst) →
    (∀ q ∈ done, coveredSlots (answered q) < clusterSlotCount) →
    ∃ n o, Decides fullCov (done ++ fs) (done.length + n) o ∧ Settled fullCov us x fs n o
  | x, [], done, _, hfs, _, _, _ => absurd rfl hfs
  | x, p :: fs, done, h, _, hnodup, hall, hfew => by
      have hp : p.1 ∈ us := (hall _).mpr (List.mem_map_of_mem (List.mem_append_right _ List.mem_cons_self))
      have hrest : ∀ q ∈ fs, q.1 ∈ us := fun q hq => (hall _).mpr
        (List.mem_map_of_mem (List.mem_append_right _ (List.mem_cons_of_mem _ hq)))
      have hnot : p.1 ∉ done.map Prod.fst := by
        rw [List.map_append] at hnodup
        exact fun hmem => (List.nodup_append.mp hnodup).2.2 _ hmem _ List.mem_cons_self rfl
      by_cases hfull : clusterSlotCount ≤ coveredSlots (answered p)
      · obtain ⟨ho, hdec⟩ := h.finish_full fullCov hp hnot hfull
        exact ⟨0, _, .full rfl hfull hfew, .now fullCov h.updaters ho hdec hrest⟩
      · have hlt := Nat.not_le.mp hfull
        have hc := h.closing hp hnot
        have hstep := h.finish_few fullCov hp hnot hlt
        have hassoc : done ++ p :: fs = done ++ [p] ++ fs := by rw [List.append_assoc]; rfl
        have hfew' : ∀ q ∈ done ++ [p], coveredSlots (answered q) < clusterSlotCount := by
          intro q hq
          rcases List.mem_append.mp hq with hq | hq
          · exact hfew q hq
          · rw [List.mem_singleton.mp hq]
            exact hlt
        rw [hassoc] at hnodup hall ⊢
        cases fs with
        | nil =>
            rw [List.append_nil] at hall ⊢
            obtain ⟨heq, hdec⟩ := hc.decides fullCov hus hall hfew'
              (n := done.length) (by rw [List.length_append]; rfl)
            refine ⟨0, _, hdec, .now fullCov h.updaters ?_ ?_ hrest⟩
            · rw [hstep, heq]
            · rw [hstep, heq]
              exact hc.decided
        | cons q fs =>
            have hq : q.1 ∉ (done ++ [p]).map Prod.fst := by
              rw [List.map_append] at hnodup
              exact fun hmem => (List.nodup_append.mp hnodup).2.2 _ hmem _ List.mem_cons_self rfl
            have hopen := hc.updateSlotMapFailed_open fullCov (hrest q List.mem_cons_self) hq
            rw [hopen] at hstep
            obtain ⟨n, o, hdec, hset⟩ := Pending.settled hus (q :: fs) (done ++ [p]) hc
              (List.cons_ne_nil _ _) hnodup hall hfew'
            refine ⟨n + 1, o, ?_, .later fullCov h.updaters (by rw [hstep]) (by rw [hstep]; exact hset)⟩
            rw [List.length_append, List.length_singleton] at hdec
            rw [show done.length + (n + 1) = done.length + 1 + n by omega]
            exact hdec

end

/-- The updaters of a round have been created. -/
structure Fresh (us : List UpdaterId) (x : Updaters) : Prop where
  updaters : x.slotUpdaters = us
  objects : ∀ u ∈ us, x.objects u = .new

/-- A round of updaters that finish in any order has one outcome, given by the first with all
slots or else by the last one. -/
theorem round_settled (fullCov : Bool) {us : List UpdaterId} {x : Updaters} (hx : Fresh us x)
    (hus : us ≠ []) {fs : List (UpdaterId × Option (List RedisNode))} (hnodup : us.Nodup)
    (hfs : (fs.map Prod.fst).Perm us) :
    ∃ n o, Decides fullCov fs n o ∧ Settled fullCov us x fs n o := by
  have hpending : Pending us [] x := by
    refine ⟨hx.updaters, fun u hu => ?_, nofun, fun u hu _ => ?_⟩
    · rw [hx.objects u hu]
      rfl
    · rw [hx.objects u hu]
      exact ⟨rfl, rfl, rfl, rfl⟩
  have hne : fs ≠ [] := by
    rintro rfl
    exact hus (List.nil_perm.mp hfs)
  obtain ⟨n, o, hdec, hset⟩ := hpending.settled fullCov hus fs [] hne
    (hfs.nodup_iff.mpr hnodup) (fun u => (hfs.mem_iff).symm) nofun
  refine ⟨n, o, ?_, hset⟩
  rw [List.length_nil, Nat.zero_add] at hdec
  exact hdec

/-- Two updaters, the second of which gets a map of three slots. -/
def twoUpdaters : Updaters := ⟨fun _ => .new, 2, [0, 1], []⟩

def partialMap : List RedisNode := [Tracked.master "10.0.0.1" (0, 2)]

theorem round_settled_partial :
    (∃ n o, Decides false [(1, some partialMap), (0, none)] n o ∧
      Settled false [0, 1] twoUpdaters [(1, some partialMap), (0, none)] n o) ∧
    twoUpdaters.outcomeAt false [(1, some partialMap), (0, none)] 0 = none ∧
    twoUpdaters.outcomeAt false [(1, some partialMap), (0, none)] 1 =
      some (.install partialMap [⟨ascii "10.0.0.1", 6379⟩]) := by
  refine ⟨@round_settled false [0, 1] twoUpdaters ⟨rfl, fun _ _ => rfl⟩ (by decide)
    [(1, some partialMap), (0, none)] (by decide) (by decide), ?_⟩
  decide +kernel

end Updaters

end Cerberus
