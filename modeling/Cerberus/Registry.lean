import Cerberus.Client
import Cerberus.Runs
import Mathlib.Data.List.Nodup

/-! # The registry of backends

`servers_map` and `servers_pool` of `core/server.cpp`, and the functions that use them.  Servers
are numbered in the order in which they are allocated.  The map is the list of its entries;
the last element of the vector is the first of the pool here.  What a function does to a
`Server` beyond its descriptor and its address is left to the caller, as a list of calls. -/

namespace Cerberus

/-- How `_reconnect` ends: `socket` fails, `connect` or the handshake fails with an
`IOErrorBase`, or the host is no address, for which nobody catches the exception. -/
inductive Connect where
  | opened
  | socketError
  | refused
  | unknownHost
deriving DecidableEq, Repr

/-- What happens to the other members of a server: those of a connection that is opened, and
those of one that is closed. -/
inductive ServerCall where
  | opened (s : ServerId)
  | closed (s : ServerId)
deriving DecidableEq, Repr

structure Registry where
  closed : ServerId → Bool
  addr : ServerId → Address
  allocated : ℕ
  serversMap : List (Address × ServerId)
  serversPool : List ServerId
  calls : List ServerCall

namespace Registry

def new : Registry := ⟨fun _ => true, fun _ => ⟨[], 0⟩, 0, [], [], []⟩

/-- `close_conn`, with `remove_entry` -/
def closeConn (s : ServerId) (r : Registry) : Registry :=
  if r.closed s then r
  else
    { r with
      closed := Function.update r.closed s true
      serversMap := r.serversMap.filter fun e => e.1 ≠ r.addr s
      serversPool := s :: r.serversPool
      calls := r.calls ++ [.closed s] }

/-- Eight more servers if there are none. -/
def fillPool (r : Registry) : Registry :=
  if r.serversPool.isEmpty then
    { r with
      serversPool := (List.range' r.allocated 8).reverse
      allocated := r.allocated + 8 }
  else r

/-- `_reconnect(addr, p)` -/
def reconnect (a : Address) (c : Connect) (s : ServerId) (r : Registry) : Registry :=
  match c with
  | .socketError => r
  | _ => { r with closed := Function.update r.closed s false, addr := Function.update r.addr s a }

def popPool (r : Registry) : Registry := { r with serversPool := r.serversPool.tail }

/-- `_alloc_server(addr, p)`; nothing is returned if an exception escapes. -/
def allocServer (a : Address) (c : Connect) (r : Registry) : Registry × Option ServerId :=
  let r := r.fillPool
  match r.serversPool with
  | [] => (r, none)
  | s :: _ =>
      match c with
      | .opened =>
          let r := r.reconnect a c s
          ({ r.popPool with calls := r.calls ++ [.opened s] }, some s)
      | .unknownHost => (r.reconnect a c s, none)
      | _ => (((r.reconnect a c s).closeConn s).popPool, some s)

/-- `std::map::insert` -/
def insert (a : Address) (s : ServerId) (r : Registry) : Registry :=
  if (r.serversMap.lookup a).isSome then r
  else { r with serversMap := (a, s) :: r.serversMap }

/-- The second branch of `get_server`. -/
def newServer (a : Address) (c : Connect) (r : Registry) : Registry × Option ServerId :=
  match r.allocServer a c with
  | (r, some s) => (r.insert a s, some s)
  | (r, none) => (r, none)

/-- `get_server(addr, p)` -/
def getServer (a : Address) (c : Connect) (r : Registry) : Registry × Option ServerId :=
  match r.serversMap.lookup a with
  | some s => if r.closed s then r.newServer a c else (r, some s)
  | none => r.newServer a c

/-! ### What the operations do -/

section
variable {r : Registry} {s : ServerId} {a : Address} {c : Connect}

theorem closeConn_of_closed (h : r.closed s = true) : r.closeConn s = r := if_pos h

theorem closeConn_of_open (h : r.closed s = false) : r.closeConn s =
    { r with
      closed := Function.update r.closed s true
      serversMap := r.serversMap.filter fun e => e.1 ≠ r.addr s
      serversPool := s :: r.serversPool
      calls := r.calls ++ [.closed s] } := by
  rw [closeConn, if_neg (by rw [h]; decide)]

@[simp] theorem closeConn_addr : (r.closeConn s).addr = r.addr := by
  unfold closeConn
  split <;> rfl

@[simp] theorem closeConn_allocated : (r.closeConn s).allocated = r.allocated := by
  unfold closeConn
  split <;> rfl

theorem closeConn_closed (t : ServerId) : (r.closeConn s).closed t = (r.closed t || decide (t = s)) := by
  cases h : r.closed s with
  | true =>
      rw [closeConn_of_closed h]
      by_cases ht : t = s
      · rw [ht, h]
        rfl
      · rw [decide_eq_false ht, Bool.or_false]
  | false =>
      rw [closeConn_of_open h]
      by_cases ht : t = s
      · rw [ht, decide_eq_true rfl, Bool.or_true]
        exact Function.update_self ..
      · rw [decide_eq_false ht, Bool.or_false]
        exact Function.update_of_ne ht ..

@[simp] theorem fillPool_closed : r.fillPool.closed = r.closed := by
  unfold fillPool
  split <;> rfl

@[simp] theorem fillPool_addr : r.fillPool.addr = r.addr := by
  unfold fillPool
  split <;> rfl

@[simp] theorem fillPool_serversMap : r.fillPool.serversMap = r.serversMap := by
  unfold fillPool
  split <;> rfl

theorem fillPool_ne_nil : r.fillPool.serversPool ≠ [] := by
  unfold fillPool
  split
  · exact fun h => absurd (congrArg List.length h) (by simp)
  · rename_i h
    simpa using h

theorem mem_insert {b : Address} {t : ServerId} (h : (b, t) ∈ (r.insert a s).serversMap) :
    (b, t) ∈ r.serversMap ∨ (b = a ∧ t = s) := by
  unfold insert at h
  split at h
  · exact Or.inl h
  · rcases List.mem_cons.mp h with h | h
    · cases h
      exact Or.inr ⟨rfl, rfl⟩
    · exact Or.inl h

@[simp] theorem insert_closed : (r.insert a s).closed = r.closed := by
  unfold insert
  split <;> rfl

@[simp] theorem insert_addr : (r.insert a s).addr = r.addr := by
  unfold insert
  split <;> rfl

@[simp] theorem insert_serversPool : (r.insert a s).serversPool = r.serversPool := by
  unfold insert
  split <;> rfl

@[simp] theorem insert_allocated : (r.insert a s).allocated = r.allocated := by
  unfold insert
  split <;> rfl

/-- `get_server` finds an open server. -/
def Found (a : Address) (r : Registry) (s : ServerId) : Prop :=
  r.serversMap.lookup a = some s ∧ r.closed s = false

theorem Found.mem (h : r.Found a s) : (a, s) ∈ r.serversMap := by
  obtain ⟨l₁, l₂, heq, -⟩ := List.lookup_eq_some_iff.mp h.1
  rw [heq]
  exact List.mem_append_right _ List.mem_cons_self

theorem Found.getServer (h : r.Found a s) (c : Connect) : r.getServer a c = (r, some s) := by
  simp [Registry.getServer, h.1, h.2]

theorem getServer_of_not_found (h : ∀ s, ¬ r.Found a s) : r.getServer a c = r.newServer a c := by
  unfold getServer
  split
  · rename_i s hs
    split
    · rfl
    · rename_i hc
      exact absurd ⟨hs, by simpa using hc⟩ (h s)
  · rfl

end

/-! ### Coherence -/

/-- The entries of open servers have their addresses; a server is not in the pool and in the
map, and not twice in the pool. -/
structure Coherent (r : Registry) : Prop where
  addr : ∀ a s, (a, s) ∈ r.serversMap → r.closed s = false → r.addr s = a
  apart : ∀ s ∈ r.serversPool, ∀ a, (a, s) ∉ r.serversMap
  nodup : r.serversPool.Nodup

/-- The servers in the pool are closed, and those that are in use have been allocated. -/
structure Inv (r : Registry) : Prop extends r.Coherent where
  pool : ∀ s ∈ r.serversPool, r.closed s = true
  poolAllocated : ∀ s ∈ r.serversPool, s < r.allocated
  mapAllocated : ∀ a s, (a, s) ∈ r.serversMap → s < r.allocated
  openAllocated : ∀ s, r.closed s = false → s < r.allocated

theorem inv_new : Inv new where
  addr := nofun
  apart := nofun
  nodup := List.nodup_nil
  pool := nofun
  poolAllocated := nofun
  mapAllocated := nofun
  openAllocated := nofun

section
variable {r : Registry} {s : ServerId} {a : Address}

theorem Inv.closeConn (h : r.Inv) (s : ServerId) : (r.closeConn s).Inv := by
  cases hc : r.closed s with
  | true =>
      rw [closeConn_of_closed hc]
      exact h
  | false =>
      have hs : s ∉ r.serversPool := fun hmem => by
        rw [h.pool s hmem] at hc
        cases hc
      have hclosed := @closeConn_closed r s
      rw [closeConn_of_open hc] at hclosed ⊢
      refine ⟨⟨?_, ?_, List.nodup_cons.mpr ⟨hs, h.nodup⟩⟩, ?_, ?_, ?_, ?_⟩
      · intro a t hmem ht
        rw [hclosed, Bool.or_eq_false_iff] at ht
        exact h.addr a t (List.mem_of_mem_filter hmem) ht.1
      · intro t ht a hmem
        obtain ⟨hin, ha⟩ := List.mem_filter.mp hmem
        rcases List.mem_cons.mp ht with rfl | ht
        · exact of_decide_eq_true ha (h.addr a t hin hc).symm
        · exact h.apart t ht a hin
      · intro t ht
        rw [hclosed]
        rcases List.mem_cons.mp ht with rfl | ht
        · simp
        · rw [h.pool t ht]
          rfl
      · intro t ht
        rcases List.mem_cons.mp ht with rfl | ht
        · exact h.openAllocated t hc
        · exact h.poolAllocated t ht
      · intro a t hmem
        exact h.mapAllocated a t (List.mem_of_mem_filter hmem)
      · intro t ht
        rw [hclosed, Bool.or_eq_false_iff] at ht
        exact h.openAllocated t ht.1

theorem Inv.fillPool (h : r.Inv) : r.fillPool.Inv := by
  unfold Registry.fillPool
  split
  · have hfresh : ∀ s ∈ (List.range' r.allocated 8).reverse, r.allocated ≤ s ∧ s < r.allocated + 8 := by
      intro s hs
      obtain ⟨i, hi, rfl⟩ := List.mem_range'.mp (List.mem_reverse.mp hs)
      omega
    refine ⟨⟨h.addr, ?_, List.nodup_reverse.mpr List.nodup_range'⟩, ?_, ?_, ?_, ?_⟩
    · intro s hs a hmem
      exact Nat.not_lt.mpr (hfresh s hs).1 (h.mapAllocated a s hmem)
    · intro s hs
      cases hc : r.closed s with
      | true => rfl
      | false => exact absurd (h.openAllocated s hc) (Nat.not_lt.mpr (hfresh s hs).1)
    · exact fun s hs => (hfresh s hs).2
    · exact fun a s hmem => Nat.lt_add_right 8 (h.mapAllocated a s hmem)
    · exact fun s hs => Nat.lt_add_right 8 (h.openAllocated s hs)
  · exact h

/-- The first server of the pool leaves it. -/
theorem Inv.popPool (h : r.Inv) : r.popPool.Inv where
  addr := h.addr
  apart s hs := h.apart s (List.mem_of_mem_tail hs)
  nodup := h.nodup.tail
  pool s hs := h.pool s (List.mem_of_mem_tail hs)
  poolAllocated s hs := h.poolAllocated s (List.mem_of_mem_tail hs)
  mapAllocated := h.mapAllocated
  openAllocated := h.openAllocated

/-- A server outside the pool gets an address and is opened. -/
theorem Inv.open (h : r.Inv) (hpool : s ∉ r.serversPool) (hmap : ∀ a, (a, s) ∉ r.serversMap)
    (hs : s < r.allocated) (calls : List ServerCall) :
    Inv { r with
      closed := Function.update r.closed s false
      addr := Function.update r.addr s a
      calls := calls } where
  addr b t hmem ht := by
    have hne : t ≠ s := by
      rintro rfl
      exact hmap b hmem
    simp only [Function.update_of_ne hne] at ht ⊢
    exact h.addr b t hmem ht
  apart := h.apart
  nodup := h.nodup
  pool t ht := by
    have hne : t ≠ s := by
      rintro rfl
      exact hpool ht
    exact (Function.update_of_ne hne ..).trans (h.pool t ht)
  poolAllocated := h.poolAllocated
  mapAllocated := h.mapAllocated
  openAllocated t ht := by
    by_cases hne : t = s
    · exact hne ▸ hs
    · simp only [Function.update_of_ne hne] at ht
      exact h.openAllocated t ht

theorem Inv.insert (h : r.Inv) (hpool : s ∉ r.serversPool) (hs : s < r.allocated)
    (ha : r.closed s = false → r.addr s = a) : (r.insert a s).Inv where
  addr b t hmem ht := by
    rw [insert_closed] at ht
    rw [insert_addr]
    rcases mem_insert hmem with hmem | ⟨rfl, rfl⟩
    · exact h.addr b t hmem ht
    · exact ha ht
  apart t ht b hmem := by
    rw [insert_serversPool] at ht
    rcases mem_insert hmem with hmem | ⟨rfl, rfl⟩
    · exact h.apart t ht b hmem
    · exact hpool ht
  nodup := by
    rw [insert_serversPool]
    exact h.nodup
  pool t ht := by
    rw [insert_serversPool] at ht
    rw [insert_closed]
    exact h.pool t ht
  poolAllocated t ht := by
    rw [insert_serversPool] at ht
    rw [insert_allocated]
    exact h.poolAllocated t ht
  mapAllocated b t hmem := by
    rw [insert_allocated]
    rcases mem_insert hmem with hmem | ⟨rfl, rfl⟩
    · exact h.mapAllocated b t hmem
    · exact hs
  openAllocated t ht := by
    rw [insert_closed] at ht
    rw [insert_allocated]
    exact h.openAllocated t ht

end

/-! ### Taking a server from the pool -/

section
variable {r : Registry} {s : ServerId} {rest : List ServerId} {a : Address}

theorem newServer_opened (htop : r.fillPool.serversPool = s :: rest) :
    r.newServer a .opened =
      (({ r.fillPool.popPool with
          closed := Function.update r.fillPool.popPool.closed s false
          addr := Function.update r.fillPool.popPool.addr s a
          calls := r.fillPool.calls ++ [.opened s] } : Registry).insert a s, some s) := by
  simp [newServer, allocServer, htop, reconnect, popPool]

theorem newServer_socketError (htop : r.fillPool.serversPool = s :: rest) (hs : r.closed s = true) :
    r.newServer a .socketError = (r.fillPool.popPool.insert a s, some s) := by
  simp [newServer, allocServer, htop, reconnect, closeConn, hs]

theorem newServer_refused (htop : r.fillPool.serversPool = s :: rest) (hs : r.closed s = true) :
    r.newServer a .refused =
      ({ r.fillPool with
          addr := Function.update r.addr s a
          serversMap := (a, s) :: r.serversMap.filter fun e => e.1 ≠ a
          calls := r.fillPool.calls ++ [.closed s] }, some s) := by
  have hclosed : Function.update (Function.update r.closed s false) s true = r.closed := by
    rw [Function.update_idem, ← hs, Function.update_eq_self]
  simp [newServer, allocServer, htop, reconnect, closeConn, popPool, insert, hclosed]

theorem newServer_unknownHost : (r.newServer a .unknownHost).2 = none := by
  obtain ⟨s, rest, htop⟩ := List.exists_cons_of_ne_nil (fillPool_ne_nil (r := r))
  simp [newServer, allocServer, htop]

/-- The server on top of the pool, which may have been allocated for this call. -/
theorem exists_top (r : Registry) : ∃ s rest, r.fillPool.serversPool = s :: rest :=
  List.exists_cons_of_ne_nil fillPool_ne_nil

theorem Inv.top_not_mem (h : r.Inv) (htop : r.fillPool.serversPool = s :: rest) :
    s ∉ r.fillPool.popPool.serversPool := by
  have hnodup := h.fillPool.nodup
  rw [htop] at hnodup
  rw [Registry.popPool, htop]
  exact (List.nodup_cons.mp hnodup).1

theorem Inv.top_mem (htop : r.fillPool.serversPool = s :: rest) : s ∈ r.fillPool.serversPool := by
  rw [htop]
  exact List.mem_cons_self

theorem Inv.newServer_opened (h : r.Inv) (a : Address) : (r.newServer a .opened).1.Inv := by
  obtain ⟨s, rest, htop⟩ := r.exists_top
  have hf := h.fillPool
  have hs := hf.poolAllocated s (top_mem htop)
  have hopen := hf.popPool.open (a := a) (h.top_not_mem htop) (hf.apart s (top_mem htop)) hs
    (r.fillPool.calls ++ [.opened s])
  rw [Registry.newServer_opened htop]
  exact hopen.insert (h.top_not_mem htop) hs fun _ => Function.update_self ..

theorem Inv.newServer_socketError (h : r.Inv) (a : Address) : (r.newServer a .socketError).1.Inv := by
  obtain ⟨s, rest, htop⟩ := r.exists_top
  have hf := h.fillPool
  have hclosed := hf.pool s (top_mem htop)
  rw [Registry.newServer_socketError htop (by rwa [fillPool_closed] at hclosed)]
  refine hf.popPool.insert (h.top_not_mem htop) (hf.poolAllocated s (top_mem htop)) fun hopen => ?_
  rw [show r.fillPool.popPool.closed s = r.fillPool.closed s from rfl, hclosed] at hopen
  cases hopen

end

/-! ### Runs -/

inductive Event where
  | getServer (a : Address) (c : Connect)
  | closeConn (s : ServerId)
deriving DecidableEq, Repr

def next (r : Registry) : Event → Registry
  | .getServer a c => (r.getServer a c).1
  | .closeConn s => r.closeConn s

/-- The result of the call. -/
def Returns (r : Registry) : Event → Prop
  | .getServer a c => ∃ s, (r.getServer a c).2 = some s ∧ (r.getServer a c).1.addr s = a
  | .closeConn _ => True

/-- The call returns a server with the address it was asked for and leaves a coherent registry. -/
def StepCoherent (r : Registry) (e : Event) : Prop := r.Returns e ∧ (r.next e).Coherent

/-- No connection fails, except for a socket that cannot be created for a server that had the
address before. -/
def Meets (r : Registry) : Event → Prop
  | .getServer a c => (∃ s, r.Found a s) ∨ c = .opened ∨
      (c = .socketError ∧ ∃ s ∈ r.fillPool.serversPool.head?, r.addr s = a)
  | .closeConn _ => True

theorem Inv.next {r : Registry} (h : r.Inv) {e : Event} (he : r.Meets e) : (r.next e).Inv := by
  cases e with
  | closeConn s => exact h.closeConn s
  | getServer a c =>
      show (r.getServer a c).1.Inv
      by_cases hfound : ∃ s, r.Found a s
      · obtain ⟨s, hs⟩ := hfound
        rw [hs.getServer]
        exact h
      · rw [getServer_of_not_found (not_exists.mp hfound)]
        rcases he with he | rfl | ⟨rfl, -⟩
        · exact absurd he hfound
        · exact h.newServer_opened a
        · exact h.newServer_socketError a

theorem Inv.returns {r : Registry} (h : r.Inv) {e : Event} (he : r.Meets e) : r.Returns e := by
  cases e with
  | closeConn s => trivial
  | getServer a c =>
      by_cases hfound : ∃ s, r.Found a s
      · obtain ⟨s, hs⟩ := hfound
        rw [Returns, hs.getServer]
        exact ⟨s, rfl, h.addr a s hs.mem hs.2⟩
      · obtain ⟨s, rest, htop⟩ := r.exists_top
        rw [Returns, getServer_of_not_found (not_exists.mp hfound)]
        rcases he with he | rfl | ⟨rfl, t, ht, ha⟩
        · exact absurd he hfound
        · rw [Registry.newServer_opened htop]
          refine ⟨s, rfl, ?_⟩
          rw [insert_addr]
          exact Function.update_self ..
        · rw [htop] at ht
          cases ht
          have hclosed := h.fillPool.pool s (top_mem htop)
          rw [fillPool_closed] at hclosed
          rw [Registry.newServer_socketError htop hclosed]
          refine ⟨s, rfl, ?_⟩
          rw [insert_addr]
          exact (congrFun fillPool_addr s).trans ha

/-- A step that does not meet the condition breaks the registry, or returns the wrong server. -/
theorem Inv.meets {r : Registry} (h : r.Inv) {e : Event} (he : r.StepCoherent e) : r.Meets e := by
  cases e with
  | closeConn s => trivial
  | getServer a c =>
      by_cases hfound : ∃ s, r.Found a s
      · exact Or.inl hfound
      obtain ⟨hret, hcoh⟩ := he
      obtain ⟨s, rest, htop⟩ := r.exists_top
      have hclosed := h.fillPool.pool s (top_mem htop)
      rw [fillPool_closed] at hclosed
      rw [Returns, getServer_of_not_found (not_exists.mp hfound)] at hret
      rw [Registry.next, getServer_of_not_found (not_exists.mp hfound)] at hcoh
      cases c with
      | opened => exact Or.inr (Or.inl rfl)
      | socketError =>
          rw [Registry.newServer_socketError htop hclosed] at hret
          obtain ⟨t, ht, ha⟩ := hret
          cases ht
          rw [insert_addr] at ha
          refine Or.inr (Or.inr ⟨rfl, s, by rw [htop]; rfl, ?_⟩)
          exact (congrFun fillPool_addr s).symm.trans ha
      | refused =>
          -- the server is in the map, and still on top of the pool
          rw [newServer_refused htop hclosed] at hcoh
          exact absurd List.mem_cons_self (hcoh.apart s (top_mem htop) a)
      | unknownHost =>
          obtain ⟨t, ht, -⟩ := hret
          rw [newServer_unknownHost] at ht
          cases ht

/-- Along a run of `get_server` and `close_conn` from the start every call returns a server with
the address it was asked for and leaves a coherent registry, exactly if no connection fails
but for a socket that cannot be created for a server that had the address before. -/
theorem coherent_iff (es : List Event) :
    Runs.Along next StepCoherent new es ↔ Runs.Along next Meets new es := by
  refine Runs.along_iff (I := Inv) ?_ ?_ es inv_new
  · intro r e h
    exact ⟨h.meets, fun he => ⟨h.returns he, (h.next he).toCoherent⟩⟩
  · intro r e h he
    exact h.next he

/-- A refused connection. -/
def afterRefused : Registry := new.next (.getServer ⟨ascii "10.0.0.1", 6379⟩ .refused)

/-- Another address is looked up next. -/
def afterReuse : Registry := afterRefused.next (.getServer ⟨ascii "10.0.0.2", 6379⟩ .opened)

/-- The server stays in the pool and enters the map; the next call connects it to another
address, and the first address leads there from then on. -/
theorem getServer_after_refused :
    7 ∈ afterRefused.serversPool ∧ (⟨ascii "10.0.0.1", 6379⟩, 7) ∈ afterRefused.serversMap ∧
    (⟨ascii "10.0.0.1", 6379⟩, 7) ∈ afterReuse.serversMap ∧ afterReuse.closed 7 = false ∧
    afterReuse.addr 7 = ⟨ascii "10.0.0.2", 6379⟩ ∧
    (afterReuse.getServer ⟨ascii "10.0.0.1", 6379⟩ .opened).2 = some 7 := by
  decide +kernel

end Registry

end Cerberus
