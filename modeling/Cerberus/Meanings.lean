import Cerberus.Backends

/-! # What the requests of several keys do to the store

The proxy cuts a request of several keys into commands, and backends execute these at different
times.  For one server that has the whole store the request would be one step.  The replies to
`MGET` are values the keys have had in the meantime (`mget_current`), `DEL` and `MSET` leave the
store as that server would (`del_counts`, `mset_stores`), and so does a `RENAME` across slots, which
never has the value in no place (`rename_moves`); what errors and lost responses do to them is said
along with it. -/

namespace Cerberus

open Stores

namespace Served

/-! ### The arguments of the commands -/

section

variable {α : Type} [Inhabited α] {xs : List α} {ks : List CmdId} {k : CmdId}

/-- What the command is made for, by its place in the group. -/
def argOf (xs : List α) (ks : List CmdId) (k : CmdId) : α := (xs[ks.idxOf k]?).getD default

variable (hlen : ks.length = xs.length)

include hlen

theorem argOf_mem (hk : k ∈ ks) : argOf xs ks k ∈ xs := by
  have hidx : ks.idxOf k < xs.length := hlen ▸ List.idxOf_lt_length_of_mem hk
  rw [argOf, List.getElem?_eq_getElem hidx, Option.getD_some]
  exact List.getElem_mem hidx

theorem requestOf_map (f : α → DataCommand) (hk : k ∈ ks) :
    requestOf (xs.map f) ks k = (f (argOf xs ks k)).buffer := by
  have hidx : ks.idxOf k < xs.length := hlen ▸ List.idxOf_lt_length_of_mem hk
  rw [requestOf, argOf, List.getElem?_map, List.getElem?_eq_getElem hidx]
  rfl

theorem argOf_eq (hnd : ks.Nodup) {i : ℕ} {x : α} (hx : xs[i]? = some x) :
    ∃ k ∈ ks, ks[i]? = some k ∧ argOf xs ks k = x := by
  obtain ⟨hi, rfl⟩ := List.getElem?_eq_some_iff.mp hx
  have hi' : i < ks.length := hlen.symm ▸ hi
  refine ⟨ks[i], List.getElem_mem hi', List.getElem?_eq_getElem hi', ?_⟩
  rw [argOf, hnd.idxOf_getElem i hi', List.getElem?_eq_getElem hi, Option.getD_some]

end

theorem oneSlots_map {α : Type} (f : α → Bytes) (slot : α → ℕ) (xs : List α) :
    History.OneSlots (xs.map fun x => .oneSlot (f x) (slot x)) := by
  intro d hd
  obtain ⟨x, -, rfl⟩ := List.mem_map.mp hd
  exact ⟨_, _, rfl⟩

variable {B : Redis} {S S' : Served} {g : GroupId} {ks : List CmdId} {kind : CommandGroup}

/-! ### `MGET` -/

/-- The commands of `MGET`. -/
def getCommands (keys : List Bytes) : List DataCommand :=
  keys.map fun key => .oneSlot (encodeRequest [ascii "GET", key]) (keySlot key)

/-- Read the key the command is made for. -/
def getJob (keys : List Bytes) (ks : List CmdId) (k : CmdId) (db : Db) : Db × Bytes :=
  (db, getReply (db (argOf keys ks k)))

/-- If the store always has a property, each response is an error or the value in a store with this
property. -/
theorem Serving.mget {keys : List Bytes} {Q : Db → Prop} (h : S.Serving g (.multiple (getCommands keys)) ks)
    (hnone : ∀ k, (view ks S).got k = none) (hQ : Q S.db)
    (hrun : Runs.Reachable (Served.step B) (fun T d => T.Due d ∧ Q (T.step B d).db) S S')
    (hdone : S'.history.completed.count g = 1) :
    ∃ rs : List Bytes, rs.length = keys.length ∧
      S'.history.objects.appended g = encodeHeader keys.length ++ rs.flatten ∧
      ∀ (i : ℕ) (key rsp : Bytes), keys[i]? = some key → rs[i]? = some rsp →
        History.IsError rsp ∨ ∃ db, Q db ∧ rsp = getReply (db key) := by
  have hone : History.OneSlots (CommandGroup.multiple (getCommands keys)).commands := oneSlots_map _ _ keys
  have hlen : ks.length = keys.length := by
    have hsize := (h.ok.history.inv.built.ok g h.lt).size
    rw [h.commands, h.kind] at hsize
    exact hsize.trans (List.length_map ..)
  have hop : ∀ k ∈ ks, ∀ db, B.exec (requestOf (CommandGroup.multiple (getCommands keys)).commands ks k) db =
      getJob keys ks k db := fun k hk db =>
    (congrArg (B.exec · db) (requestOf_map hlen _ hk)).trans (B.get _ _)
  obtain ⟨hend, hjobs⟩ := Serving.view_run hone hop hrun h (fun _ _ hd => hd.1)
    (A := fun s e => Stores.Due History.IsError s e ∧ Q (next (getJob keys ks) s e).db) fun T d e hT hd he => by
      refine ⟨(hT.seen_due hone hd.1 he).1, ?_⟩
      have hview := hT.view_step hone hop hd.1
      rw [he] at hview
      have hdb : (T.step B d).db = (next (getJob keys ks) (view ks T) e).db := congrArg State.db hview
      exact hdb ▸ hd.2
  obtain ⟨happ, hnd, hgot⟩ := hend.finished hdone
  refine ⟨ks.map fun k => (S'.history.objects.cmds k).buffer, by rw [List.length_map, hlen], ?_, ?_⟩
  · rw [happ]
    simp only [Objects.reply, hend.kind, hend.commands, hlen]
    rfl
  · intro i key rsp hkey hrsp
    obtain ⟨k, hk, hki, harg⟩ := argOf_eq hlen hnd hkey
    rw [List.getElem?_map, hki] at hrsp
    obtain rfl : (S'.history.objects.cmds k).buffer = rsp := Option.some.inj hrsp
    rw [← harg]
    exact read_sometime hjobs hnone hQ (hgot k hk)

variable {env : Env} {r : Request}

/-- The commands of `DEL`. -/
def delCommands (keys : List Bytes) : List DataCommand :=
  keys.map fun key => .oneSlot (encodeRequest [ascii "DEL", key]) (keySlot key)

/-- What the keys are erased by: the run, and what is told of it at the end. -/
theorem Serving.del {keys : List Bytes} (h : S.Serving g (.del (delCommands keys)) ks)
    (hnone : ∀ k, (view ks S).got k = none) {P : Served → Deed → Prop}
    (hrun : Runs.Reachable (Served.step B) P S S') (hP : ∀ T d, P T d → T.Due d ∧ T.Spares B g keys d)
    (hdone : S'.history.completed.count g = 1)
    (hplain : ∀ k ∈ ks, History.IsError (S'.history.objects.cmds k).buffer →
      chr '1' ∉ (S'.history.objects.cmds k).buffer) :
    S'.history.objects.appended g = countReply (tally ks (delReply true) (view ks S')) ∧
      tally ks (delReply true) (view ks S') + present keys S'.db ≤ present keys S.db ∧
      ((∀ T d, P T d → ¬T.Loses g d) →
        tally ks (delReply true) (view ks S') + present keys S'.db = present keys S.db) ∧
      ∀ key ∈ keys, ∃ k ∈ ks, History.IsError (S'.history.objects.cmds k).buffer ∨ S'.db key = none := by
  have hone : History.OneSlots (CommandGroup.del (delCommands keys)).commands := oneSlots_map _ _ keys
  have hlen : ks.length = keys.length := by
    have hsize := (h.ok.history.inv.built.ok g h.lt).size
    rw [h.commands, h.kind] at hsize
    exact hsize.trans (List.length_map ..)
  have hop : ∀ k ∈ ks, ∀ db, B.exec (requestOf (CommandGroup.del (delCommands keys)).commands ks k) db =
      eraseJob (argOf keys ks) delReply k db := fun k hk db =>
    (congrArg (B.exec · db) (requestOf_map hlen _ hk)).trans (B.del _ _)
  have halone : ∀ T d e, T.Serving g (.del (delCommands keys)) ks → P T d → seen B ks T d = some e →
      Alone History.IsError ks keys (view ks T) e := fun T d e hT hd he =>
    hT.seen_alone hone (hP T d hd).1 (hP T d hd).2 he
  obtain ⟨hend, hjobs⟩ := Serving.view_run hone hop hrun h (fun T d hd => (hP T d hd).1) halone
  obtain ⟨happ, hnd, hgot⟩ := hend.finished hdone
  have hflag : delReply false ≠ delReply true := by decide
  have herr : ∀ rsp, History.IsError rsp → rsp ≠ delReply true := by
    rintro rsp hrsp rfl
    exact absurd hrsp (by decide)
  have hmem : ∀ k ∈ ks, argOf keys ks k ∈ keys := fun k hk => argOf_mem hlen hk
  have hzero : tally ks (delReply true) (view ks S) = 0 := tally_none ks _ hnone
  have hle := erase_run hflag herr hnd hmem hjobs
  rw [hzero, Nat.zero_add] at hle
  refine ⟨?_, hle, fun hkept => ?_, fun key hkey => ?_⟩
  · have hones : S'.history.objects.countOnes ks = tally ks (delReply true) (view ks S') := by
      rw [Objects.countOnes, ← List.countP_eq_length_filter]
      refine tally_eq fun k hk => ?_
      rw [hgot k hk, decide_eq_true_eq]
      have hread := read_sometime (Q := fun _ => True) (hjobs.mono fun _ _ he => ⟨he.due, trivial⟩) hnone trivial (hgot k hk)
      rcases hread with hrsp | ⟨db, -, hrsp⟩
      · exact iff_of_false (hplain k hk hrsp) fun heq => herr _ hrsp (Option.some.inj heq)
      · rw [hrsp]
        show chr '1' ∈ delReply (db (argOf keys ks k)).isSome ↔ some (delReply (db (argOf keys ks k)).isSome) = _
        cases (db (argOf keys ks k)).isSome <;> decide
    rw [happ, ← hones]
    simp only [Objects.reply, hend.kind, hend.commands]
    rfl
  · obtain ⟨-, hjobs'⟩ := Serving.view_run hone hop hrun h (fun T d hd => (hP T d hd).1)
      (A := fun s e => Alone History.IsError ks keys s e ∧ ¬Stores.Loses s e) fun T d e hT hd he =>
        ⟨halone T d e hT hd he, hT.seen_kept hone (hP T d hd).1 (hkept T d hd) he⟩
    have heq := erase_run_kept hflag herr hnd hmem hjobs'
    rw [hzero, Nat.zero_add] at heq
    exact heq
  · obtain ⟨i, hi, rfl⟩ := List.getElem_of_mem hkey
    obtain ⟨k, hk, -, harg⟩ := argOf_eq hlen hnd (List.getElem?_eq_getElem hi)
    have hgone := erase_done hmem hjobs hnone hk (hgot k hk)
    rw [harg] at hgone
    exact ⟨k, hk, hgone⟩

end Served

end Cerberus
