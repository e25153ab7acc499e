import Mathlib.Data.Finset.Card
import Mathlib.Data.Finset.Filter
import Mathlib.Data.List.Nodup
import Cerberus.Runs

/-! # Stores and the jobs that are done on them

A store has values under keys.  Jobs are done on it one at a time, each as a whole, while others
change it, too: a job is done and its response is kept, it fails with an error and does nothing, or
its response gets lost and it is to be done again.  So a job can be done more than once, and what is
said here of jobs that read, erase and write holds of every order in which they are done. -/

namespace Stores

variable {K V : Type*} [DecidableEq K]

/-- Values under keys. -/
abbrev Store (K V : Type*) := K → Option V

def put (x : K) (v : V) (db : Store K V) : Store K V := Function.update db x (some v)

def erase (x : K) (db : Store K V) : Store K V := Function.update db x none

section
variable (db : Store K V)

@[simp] theorem put_self (x : K) (v : V) : put x v db x = some v := Function.update_self ..

theorem put_of_ne {x y : K} (h : y ≠ x) (v : V) : put x v db y = db y := Function.update_of_ne h ..

@[simp] theorem erase_self (x : K) : erase x db x = none := Function.update_self ..

theorem erase_of_ne {x y : K} (h : y ≠ x) : erase x db y = db y := Function.update_of_ne h ..

end

/-- The number of the keys that have a value. -/
def present (keys : List K) (db : Store K V) : ℕ := (keys.toFinset.filter fun x => (db x).isSome).card

theorem present_congr {keys : List K} {db db' : Store K V} (h : ∀ x ∈ keys, db' x = db x) :
    present keys db' = present keys db := by
  unfold present
  congr 1
  refine Finset.filter_congr fun x hx => ?_
  rw [h x (List.mem_toFinset.mp hx)]

/-- A key that is erased is one key less, if it has a value. -/
theorem present_erase {keys : List K} {x : K} (hx : x ∈ keys) (db : Store K V) :
    (if (db x).isSome then 1 else 0) + present keys (erase x db) = present keys db := by
  have hfilter : (keys.toFinset.filter fun y => (erase x db y).isSome) =
      (keys.toFinset.filter fun y => (db y).isSome).erase x := by
    ext y
    rw [Finset.mem_erase, Finset.mem_filter, Finset.mem_filter]
    by_cases hy : y = x
    · simp [hy]
    · simp [erase_of_ne db hy, hy]
  unfold present
  rw [hfilter]
  split
  · rename_i hsome
    have hmem : x ∈ keys.toFinset.filter fun y => (db y).isSome :=
      Finset.mem_filter.mpr ⟨List.mem_toFinset.mpr hx, hsome⟩
    rw [Finset.card_erase_of_mem hmem]
    have hpos := Finset.card_pos.mpr ⟨x, hmem⟩
    omega
  · rename_i hnone
    have hmem : x ∉ keys.toFinset.filter fun y => (db y).isSome := fun hmem => hnone (Finset.mem_filter.mp hmem).2
    rw [Finset.erase_eq_of_notMem hmem, Nat.zero_add]

/-- The store, and the responses to the jobs that have one. -/
structure State (ι σ ρ : Type*) where
  db : σ
  got : ι → Option ρ

/-- A job is done, it fails, its response is lost, and others change the store. -/
inductive Event (ι σ ρ : Type*) where
  | run (i : ι)
  | fail (i : ι) (r : ρ)
  | forget (i : ι)
  | other (db : σ)

section Jobs

variable {ι σ ρ : Type*} [DecidableEq ι]

def next (op : ι → σ → σ × ρ) (s : State ι σ ρ) : Event ι σ ρ → State ι σ ρ
  | .run i => ⟨(op i s.db).1, Function.update s.got i (some (op i s.db).2)⟩
  | .fail i r => ⟨s.db, Function.update s.got i (some r)⟩
  | .forget i => ⟨s.db, Function.update s.got i none⟩
  | .other db => ⟨db, s.got⟩

/-- A job with a response is not done again. -/
def Due (Err : ρ → Prop) (s : State ι σ ρ) : Event ι σ ρ → Prop
  | .run i => s.got i = none
  | .fail i r => s.got i = none ∧ Err r
  | _ => True

/-- A response is lost. -/
def Loses (s : State ι σ ρ) : Event ι σ ρ → Prop
  | .forget i => s.got i ≠ none
  | _ => False

variable {op : ι → σ → σ × ρ} {Err : ρ → Prop} {s s' : State ι σ ρ}

/-- Where a response comes from. -/
theorem got_cases {e : Event ι σ ρ} {j : ι} {r : ρ} (h : (next op s e).got j = some r) :
    e = .run j ∧ r = (op j s.db).2 ∨ e = .fail j r ∨ s.got j = some r := by
  cases e with
  | run i =>
      have hj : Function.update s.got i (some (op i s.db).2) j = some r := h
      by_cases heq : j = i
      · rw [heq, Function.update_self] at hj
        rw [heq]
        exact Or.inl ⟨rfl, (Option.some.inj hj).symm⟩
      · rw [Function.update_of_ne heq] at hj
        exact Or.inr (Or.inr hj)
  | fail i r' =>
      have hj : Function.update s.got i (some r') j = some r := h
      by_cases heq : j = i
      · rw [heq, Function.update_self] at hj
        rw [heq, Option.some.inj hj]
        exact Or.inr (Or.inl rfl)
      · rw [Function.update_of_ne heq] at hj
        exact Or.inr (Or.inr hj)
  | forget i =>
      have hj : Function.update s.got i none j = some r := h
      by_cases heq : j = i
      · rw [heq, Function.update_self] at hj
        cases hj
      · rw [Function.update_of_ne heq] at hj
        exact Or.inr (Or.inr hj)
  | other db => exact Or.inr (Or.inr h)

/-- Every response is an error, or that of the job at some time. -/
theorem read_sometime {Q : σ → Prop} (h : Runs.Reachable (next op) (fun s e => Due Err s e ∧ Q (next op s e).db) s s')
    (hnone : ∀ i, s.got i = none) (hQ : Q s.db) {i : ι} {r : ρ} (hr : s'.got i = some r) :
    Err r ∨ ∃ db, Q db ∧ r = (op i db).2 := by
  have hinv : Q s'.db ∧ ∀ i r, s'.got i = some r → Err r ∨ ∃ db, Q db ∧ r = (op i db).2 := by
    refine h.inv (I := fun s => Q s.db ∧ ∀ i r, s.got i = some r → Err r ∨ ∃ db, Q db ∧ r = (op i db).2)
      ⟨hQ, fun i r hi => ?_⟩ fun s e hs he => ⟨he.2, fun j r hj => ?_⟩
    · rw [hnone i] at hi
      cases hi
    · rcases got_cases hj with ⟨-, hop⟩ | rfl | hold
      · exact Or.inr ⟨s.db, hs.1, hop⟩
      · exact Or.inl he.1.2
      · exact hs.2 j r hold
  exact hinv.2 i r hr

/-- What doing a job brings about, and every step keeps, is the case of the jobs that have a response
which is not an error. -/
theorem done_stays {A : State ι σ ρ → Event ι σ ρ → Prop} {D : ι → σ → Prop} (h : Runs.Reachable (next op) A s s')
    (hdue : ∀ s e, A s e → Due Err s e) (hdone : ∀ s i, A s (.run i) → D i (op i s.db).1)
    (hkeep : ∀ s e i, A s e → D i s.db → D i (next op s e).db) (hnone : ∀ i, s.got i = none) {i : ι} {r : ρ}
    (hr : s'.got i = some r) : Err r ∨ D i s'.db := by
  refine h.inv (I := fun s => ∀ i r, s.got i = some r → Err r ∨ D i s.db) (fun i r hi => ?_) (fun s e hs he j r hj => ?_)
    i r hr
  · rw [hnone i] at hi
    cases hi
  · rcases got_cases hj with ⟨rfl, -⟩ | rfl | hold
    · exact Or.inr (hdone s j he)
    · exact Or.inl (hdue s _ he).2
    · exact (hs j r hold).imp_right (hkeep s e j he)

/-- The number of jobs with this response. -/
def tally [DecidableEq ρ] (is : List ι) (r : ρ) (s : State ι σ ρ) : ℕ := (is.map s.got).count (some r)

omit [DecidableEq ι] in
theorem tally_eq [DecidableEq ρ] {is : List ι} {r : ρ} {p : ι → Bool} (h : ∀ i ∈ is, p i = true ↔ s.got i = some r) :
    is.countP p = tally is r s := by
  rw [tally, List.count, List.countP_map]
  refine List.countP_congr fun i hi => (h i hi).trans ?_
  exact beq_iff_eq.symm

omit [DecidableEq ι] in
theorem tally_none [DecidableEq ρ] (is : List ι) (r : ρ) (h : ∀ i, s.got i = none) : tally is r s = 0 := by
  refine (tally_eq (p := fun _ => false) fun i _ => ?_).symm.trans (congrFun List.countP_false is)
  rw [h i]
  exact iff_of_false Bool.false_ne_true (Option.some_ne_none r).symm

/-- When the response to one job changes, the tally changes by one at most. -/
theorem tally_update [DecidableEq ρ] {is : List ι} {r : ρ} (hnd : is.Nodup) {i : ι} (hi : i ∈ is) (db : σ) (o : Option ρ) :
    tally is r ⟨db, Function.update s.got i o⟩ + (if s.got i = some r then 1 else 0) =
      tally is r s + if o = some r then 1 else 0 := by
  have hrest : ∀ l : List ι, i ∉ l → l.map (Function.update s.got i o) = l.map s.got := fun l hl =>
    List.map_congr_left fun j hj => Function.update_of_ne (ne_of_mem_of_not_mem hj hl) ..
  obtain ⟨l, l', rfl⟩ := List.append_of_mem hi
  have hl : i ∉ l := fun hmem => (List.nodup_append.mp hnd).2.2 i hmem i List.mem_cons_self rfl
  have hl' : i ∉ l' := (List.nodup_cons.mp (List.nodup_append.mp hnd).2.1).1
  simp only [tally, List.map_append, List.map_cons, hrest l hl, hrest l' hl', Function.update_self,
    List.count_append, List.count_cons, beq_iff_eq]
  omega

theorem tally_of_notMem [DecidableEq ρ] {is : List ι} {r : ρ} {i : ι} (hi : i ∉ is) (db : σ) (o : Option ρ) :
    tally is r ⟨db, Function.update s.got i o⟩ = tally is r s := by
  have hrest : is.map (Function.update s.got i o) = is.map s.got :=
    List.map_congr_left fun j hj => Function.update_of_ne (ne_of_mem_of_not_mem hj hi) ..
  simp only [tally, hrest]

end Jobs

/-- Others do not change the keys. -/
def Spares {ι ρ : Type*} (keys : List K) (s : State ι (Store K V) ρ) : Event ι (Store K V) ρ → Prop
  | .other db => ∀ x ∈ keys, db x = s.db x
  | _ => True

/-- The jobs are done, and nobody else changes the keys. -/
structure Alone {ι ρ : Type*} (Err : ρ → Prop) (is : List ι) (keys : List K) (s : State ι (Store K V) ρ)
    (e : Event ι (Store K V) ρ) : Prop where
  due : Due Err s e
  spares : Spares keys s e
  mine : ∀ i, e = .run i → i ∈ is

section Erase

variable {ι ρ : Type*} [DecidableEq ι] [DecidableEq ρ] {Err : ρ → Prop} {key : ι → K} {flag : Bool → ρ}

/-- Erase a key and tell whether it had a value. -/
def eraseJob (key : ι → K) (flag : Bool → ρ) (i : ι) (db : Store K V) : Store K V × ρ :=
  (erase (key i) db, flag (db (key i)).isSome)

variable {is : List ι} {s s' : State ι (Store K V) ρ}
  (hflag : flag false ≠ flag true) (herr : ∀ r, Err r → r ≠ flag true) (hnd : is.Nodup)

include hflag herr hnd in
/-- What is told to be erased and what is still there do not grow together, and they stay as they
are unless a response is lost. -/
theorem erase_step {keys : List K} (hkeys : ∀ i ∈ is, key i ∈ keys) {e : Event ι (Store K V) ρ}
    (h : Alone Err is keys s e) :
    tally is (flag true) (next (eraseJob key flag) s e) + present keys (next (eraseJob key flag) s e).db ≤
      tally is (flag true) s + present keys s.db ∧
    (¬Loses s e → tally is (flag true) (next (eraseJob key flag) s e) +
      present keys (next (eraseJob key flag) s e).db = tally is (flag true) s + present keys s.db) := by
  cases e with
  | run i =>
      have hi := h.mine i rfl
      have hnone : s.got i = none := h.due
      have htally := tally_update (r := flag true) (s := s) hnd hi (erase (key i) s.db)
        (some (flag (s.db (key i)).isSome))
      have hpresent := present_erase (hkeys i hi) s.db
      have hone : (if some (flag (s.db (key i)).isSome) = some (flag true) then 1 else 0) =
          if (s.db (key i)).isSome then 1 else 0 := by
        cases (s.db (key i)).isSome with
        | true => rw [if_pos rfl, if_pos rfl]
        | false => rw [if_neg fun heq => hflag (Option.some.inj heq), if_neg Bool.false_ne_true]
      rw [hnone, if_neg (Option.some_ne_none _).symm, hone, Nat.add_zero] at htally
      have hsum : tally is (flag true) (next (eraseJob key flag) s (.run i)) +
          present keys (next (eraseJob key flag) s (.run i)).db = tally is (flag true) s + present keys s.db := by
        show tally is (flag true) ⟨erase (key i) s.db, Function.update s.got i (some (flag (s.db (key i)).isSome))⟩ +
          present keys (erase (key i) s.db) = _
        omega
      exact ⟨hsum.le, fun _ => hsum⟩
  | fail i r =>
      obtain ⟨hnone, hr⟩ := h.due
      have hsum : tally is (flag true) (next (eraseJob key flag) s (.fail i r)) = tally is (flag true) s := by
        by_cases hi : i ∈ is
        · have htally := tally_update (r := flag true) (s := s) hnd hi s.db (some r)
          rw [hnone, if_neg (Option.some_ne_none _).symm, if_neg fun heq => herr r hr (Option.some.inj heq)] at htally
          exact htally
        · exact tally_of_notMem hi _ _
      exact ⟨(congrArg (· + _) hsum).le, fun _ => congrArg (· + _) hsum⟩
  | forget i =>
      by_cases hi : i ∈ is
      · have htally := tally_update (r := flag true) (s := s) hnd hi s.db none
        rw [if_neg (Option.some_ne_none _).symm, Nat.add_zero] at htally
        refine ⟨Nat.add_le_add_right ?_ _, fun hkept => ?_⟩
        · exact (Nat.le_add_right _ _).trans htally.le
        · have hnone : s.got i = none := not_not.mp hkept
          rw [hnone, if_neg (Option.some_ne_none _).symm] at htally
          exact congrArg (· + _) htally
      · have hsum : tally is (flag true) (next (eraseJob key flag) s (.forget i)) = tally is (flag true) s :=
          tally_of_notMem hi _ _
        exact ⟨(congrArg (· + _) hsum).le, fun _ => congrArg (· + _) hsum⟩
  | other db =>
      have hsum : present keys db = present keys s.db := present_congr h.spares
      exact ⟨(congrArg (_ + ·) hsum).le, fun _ => congrArg (_ + ·) hsum⟩

include hflag herr hnd in
theorem erase_run {keys : List K} (hkeys : ∀ i ∈ is, key i ∈ keys)
    (h : Runs.Reachable (next (eraseJob key flag)) (Alone Err is keys) s s') :
    tally is (flag true) s' + present keys s'.db ≤ tally is (flag true) s + present keys s.db :=
  h.inv (I := fun t => tally is (flag true) t + present keys t.db ≤ tally is (flag true) s + present keys s.db) le_rfl
    fun _ _ ht he => (erase_step hflag herr hnd hkeys he).1.trans ht

include hflag herr hnd in
theorem erase_run_kept {keys : List K} (hkeys : ∀ i ∈ is, key i ∈ keys)
    (h : Runs.Reachable (next (eraseJob key flag)) (fun s e => Alone Err is keys s e ∧ ¬Loses s e) s s') :
    tally is (flag true) s' + present keys s'.db = tally is (flag true) s + present keys s.db :=
  h.inv (I := fun t => tally is (flag true) t + present keys t.db = tally is (flag true) s + present keys s.db) rfl
    fun _ _ ht he => ((erase_step hflag herr hnd hkeys he.1).2 he.2).trans ht

omit [DecidableEq ρ] in
/-- A key whose job is done is gone. -/
theorem erase_done {keys : List K} (hkeys : ∀ i ∈ is, key i ∈ keys)
    (h : Runs.Reachable (next (eraseJob key flag)) (Alone Err is keys) s s') (hnone : ∀ i, s.got i = none) {i : ι}
    (hi : i ∈ is) {r : ρ} (hr : s'.got i = some r) : Err r ∨ s'.db (key i) = none := by
  have hdone := done_stays (D := fun i db => i ∈ is → db (key i) = none) h (fun _ _ he => he.due)
    (fun s i _ _ => erase_self ..) (fun s e i he hs hi => ?_) hnone hr
  · exact hdone.imp_right fun h => h hi
  · cases e with
    | run j =>
        show erase (key j) s.db (key i) = none
        by_cases heq : key i = key j
        · rw [heq, erase_self]
        · rw [erase_of_ne _ heq]
          exact hs hi
    | fail j r => exact hs hi
    | forget j => exact hs hi
    | other db => exact (he.spares _ (hkeys i hi)).trans (hs hi)

end Erase

section Put

variable {ι ρ : Type*} [DecidableEq ι] {Err : ρ → Prop} {key : ι → K} {val : ι → V} {ok : ρ} {is : List ι}
  {s s' : State ι (Store K V) ρ}

/-- Write a value. -/
def putJob (key : ι → K) (val : ι → V) (ok : ρ) (i : ι) (db : Store K V) : Store K V × ρ :=
  (put (key i) (val i) db, ok)

/-- A key has the value that one of the jobs writes. -/
def Written (key : ι → K) (val : ι → V) (is : List ι) (x : K) (db : Store K V) : Prop :=
  ∃ i ∈ is, key i = x ∧ db x = some (val i)

theorem Written.next {keys : List K} {x : K} (hx : x ∈ keys) {e : Event ι (Store K V) ρ}
    (he : Alone Err is keys s e) (h : Written key val is x s.db) :
    Written key val is x (next (putJob key val ok) s e).db := by
  cases e with
  | run j =>
      by_cases heq : x = key j
      · subst heq
        exact ⟨j, he.mine j rfl, rfl, put_self ..⟩
      · obtain ⟨i, hi, hkey, hval⟩ := h
        exact ⟨i, hi, hkey, (put_of_ne s.db heq _).trans hval⟩
  | fail j r => exact h
  | forget j => exact h
  | other db =>
      obtain ⟨i, hi, hkey, hval⟩ := h
      exact ⟨i, hi, hkey, (he.spares x hx).trans hval⟩

end Put

end Stores
