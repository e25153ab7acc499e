import Cerberus.Literals
import Cerberus.Origins
import Cerberus.Stores

/-! # Backends that execute the requests

Behind the proxy stands a store of keys and values.  A backend executes the request of a command it
has, once, and its response reaches the proxy, or the command comes back and the response is lost; a
backend can also answer with an error and do nothing.  `Served` is a history of the commands with
such backends.  The commands of a group that need one response each are seen as jobs on the store
(`view_step`), so what is known of jobs that are done in any order holds of them. -/

namespace Cerberus

open Stores

/-! ### What a backend does -/

/-- A value in the store: a string, or a list, a set and so on. -/
inductive Value where
  | string (b : Bytes)
  | other (n : ℕ)
deriving DecidableEq, Repr

abbrev Db := Store Bytes Value

def wrongType : Bytes := ascii "-WRONGTYPE Operation against a key holding the wrong kind of value\r\n"

/-- The response to `GET`. -/
def getReply : Option Value → Bytes
  | none => nilRsp
  | some (.string b) => encodeBulk b
  | some (.other _) => wrongType

/-- The response to `DEL` of one key. -/
def delReply (deleted : Bool) : Bytes := if deleted then ascii ":1\r\n" else ascii ":0\r\n"

/-- How the backends execute a request; the laws are those of the three requests the proxy makes
itself. -/
structure Redis where
  exec : Bytes → Db → Db × Bytes
  get : ∀ key db, exec (encodeRequest [ascii "GET", key]) db = (db, getReply (db key))
  set : ∀ key value db, exec (encodeRequest [ascii "SET", key, value]) db = (put key (.string value) db, rspOkStr)
  del : ∀ key db, exec (encodeRequest [ascii "DEL", key]) db = (erase key db, delReply (db key).isSome)

def countReply (n : ℕ) : Bytes := chr ':' :: (decimal n ++ crlf)

/-- The commands, the store, and the responses that backends have made to the commands they have. -/
structure Served where
  history : History
  db : Db
  made : CmdId → Option Bytes

/-- The proxy does something, a backend executes the request of a command, and others change the
store. -/
inductive Deed where
  | act (a : Act)
  | execute (k : CmdId)
  | others (db : Db)

namespace Served

def new (db : Db) : Served := ⟨.new, db, fun _ => none⟩

/-- A response that has reached the proxy or is lost is no longer there. -/
def settle (made : CmdId → Option Bytes) : Act → CmdId → Option Bytes
  | .retry k => Function.update made k none
  | .respond k _ _ => Function.update made k none
  | _ => made

def step (B : Redis) (S : Served) : Deed → Served
  | .act a => { S with history := S.history.act a, made := settle S.made a }
  | .execute k =>
      let r := B.exec (S.history.objects.cmds k).buffer S.db
      { S with db := r.1, made := Function.update S.made k (some r.2) }
  | .others db => { S with db := db }

/-- A response is the one the backend has made, or an error from a backend that has not executed the
request. -/
def Due (S : Served) : Deed → Prop
  | .act (.respond k rsp error) => S.history.Due (.respond k rsp error) ∧ error = decide (History.IsError rsp) ∧
      (S.made k = some rsp ∨ S.made k = none ∧ History.IsError rsp)
  | .act a => S.history.Due a
  | .execute k => S.history.Open k ∧ S.history.out k = true ∧ S.made k = none
  | .others _ => True

instance (S : Served) : DecidablePred S.Due
  | .act (.respond _ _ _) => inferInstanceAs (Decidable (_ ∧ _ ∧ _))
  | .act (.build _ _) => inferInstanceAs (Decidable True)
  | .act (.append _) => inferInstanceAs (Decidable True)
  | .act (.mark k) => inferInstanceAs (Decidable (S.history.Due (.mark k)))
  | .act (.send k) => inferInstanceAs (Decidable (S.history.Due (.send k)))
  | .act (.retry k) => inferInstanceAs (Decidable (S.history.Due (.retry k)))
  | .act (.clusterDown k) => inferInstanceAs (Decidable (S.history.Due (.clusterDown k)))
  | .execute _ => inferInstanceAs (Decidable (_ ∧ _ ∧ _))
  | .others _ => inferInstanceAs (Decidable True)

abbrev Reached (B : Redis) (S : Served) : Prop := ∃ db, Runs.Reachable (step B) Due (new db) S

/-- There are responses only to commands that backends have. -/
structure Ok (S : Served) : Prop where
  history : S.history.Reached
  made : ∀ k, S.made k ≠ none → S.history.out k = true

variable {B : Redis} {S : Served} {d : Deed} {k : CmdId} {g : GroupId}

theorem Due.history {a : Act} (h : S.Due (.act a)) : S.history.Due a := by
  cases a with
  | respond k rsp error => exact h.1
  | build c kind => exact h
  | append g => exact h
  | mark k => exact h
  | send k => exact h
  | retry k => exact h
  | clusterDown k => exact h

theorem ok_new (db : Db) : (new db).Ok := ⟨.refl, fun _ h => absurd rfl h⟩

theorem Ok.step (h : S.Ok) (hd : S.Due d) : (S.step B d).Ok := by
  cases d with
  | act a =>
      have ha := hd.history
      refine ⟨h.history.step ha, fun j hj => ?_⟩
      have hother : ∀ k b, settle S.made a = Function.update S.made k none → j ≠ k →
          (S.history.act a).out = Function.update S.history.out k b → (S.history.act a).out j = true := by
        intro k b hmade hne hout
        have hj' : settle S.made a j ≠ none := hj
        rw [hmade, Function.update_of_ne hne] at hj'
        rw [hout, Function.update_of_ne hne]
        exact h.made j hj'
      have hself : ∀ k, settle S.made a = Function.update S.made k none → j ≠ k := by
        rintro k hmade rfl
        have hj' : settle S.made a j ≠ none := hj
        rw [hmade, Function.update_self] at hj'
        exact hj' rfl
      cases a with
      | build c kind => exact h.made j hj
      | append g => exact h.made j hj
      | mark k => exact h.made j hj
      | send k =>
          show Function.update S.history.out k true j = true
          by_cases heq : j = k
          · rw [heq, Function.update_self]
          · rw [Function.update_of_ne heq]
            exact h.made j hj
      | retry k => exact hother k false rfl (hself k rfl) rfl
      | respond k rsp error => exact hother k false rfl (hself k rfl) rfl
      | clusterDown k =>
          have hne : j ≠ k := by
            rintro rfl
            have hout := h.made j hj
            rw [ha.2] at hout
            cases hout
          show Function.update S.history.out k false j = true
          rw [Function.update_of_ne hne]
          exact h.made j hj
  | execute k =>
      refine ⟨h.history, fun j hj => ?_⟩
      by_cases heq : j = k
      · rw [heq]
        exact hd.2.1
      · have hj' : Function.update S.made k _ j ≠ none := hj
        rw [Function.update_of_ne heq] at hj'
        exact h.made j hj'
  | others db => exact ⟨h.history, h.made⟩

theorem Reached.ok (h : S.Reached B) : S.Ok := by
  obtain ⟨db, h⟩ := h
  exact h.inv (ok_new db) fun _ _ hS hd => hS.step hd

/-! ### The commands of a group as jobs -/

/-- A group, what it was built from, and its commands. -/
structure Serving (g : GroupId) (kind : CommandGroup) (ks : List CmdId) (S : Served) : Prop where
  ok : S.Ok
  lt : g < S.history.objects.groupCount
  kind : (S.history.objects.groups g).kind = kind
  commands : (S.history.objects.groups g).commands = ks

variable {kind : CommandGroup} {ks : List CmdId}

theorem Serving.step (h : S.Serving g kind ks) (hd : S.Due d) : (S.step B d).Serving g kind ks := by
  have hok := h.ok.step (B := B) hd
  cases d with
  | act a =>
      obtain ⟨hlt, hkind, hcommands⟩ := History.act_group h.lt a
      exact ⟨hok, hlt, hkind.trans h.kind, hcommands.trans h.commands⟩
  | execute k => exact ⟨hok, h.lt, h.kind, h.commands⟩
  | others db => exact ⟨hok, h.lt, h.kind, h.commands⟩

/-- The request of a command, by its place in the group. -/
def requestOf (cs : List DataCommand) (ks : List CmdId) (k : CmdId) : Bytes :=
  ((cs[ks.idxOf k]?).map DataCommand.buffer).getD []

/-- A command waits for a response to its request, or it has one. -/
theorem Serving.oneSlot (h : S.Serving g kind ks) (hone : History.OneSlots kind.commands) (hk : k ∈ ks) :
    k < S.history.objects.cmdCount ∧ (S.history.objects.cmds k).onRsp = .swap ∧
      ((S.history.objects.cmds k).responsed = false ∧
          (S.history.objects.cmds k).buffer = requestOf kind.commands ks k ∨
        (S.history.objects.cmds k).responsed = true ∧ S.history.out k = false) := by
  have hi := h.ok.history.inv
  have hgroup := hi.built.ok g h.lt
  have hsize := hgroup.size
  have hnd := hgroup.nodup
  rw [h.commands, h.kind] at hsize
  rw [h.commands] at hnd
  have hidx : ks.idxOf k < ks.length := List.idxOf_lt_length_of_mem hk
  have hd : ks.idxOf k < kind.commands.length := hsize ▸ hidx
  have hkk : ks[ks.idxOf k]? = some k := by
    rw [List.getElem?_eq_getElem hidx, List.getElem_idxOf]
  have hl := hi.lives g h.lt (ks.idxOf k) k kind.commands[ks.idxOf k] (by rw [h.commands]; exact hkk)
    (by rw [h.kind]; exact List.getElem?_eq_getElem hd)
  obtain ⟨b, slot, heq⟩ := hone _ (List.getElem_mem hd)
  have hrequest : requestOf kind.commands ks k = b := by
    rw [requestOf, List.getElem?_eq_getElem hd, heq]
    rfl
  rw [heq] at hl
  obtain ⟨hswap, -, ⟨hr, hb, -⟩ | ⟨hr, hout, -⟩⟩ := hl.oneSlot
  · exact ⟨(hgroup.owned k (h.commands.symm ▸ hk)).2, hswap, Or.inl ⟨hr, hb.trans hrequest.symm⟩⟩
  · exact ⟨(hgroup.owned k (h.commands.symm ▸ hk)).2, hswap, Or.inr ⟨hr, hout⟩⟩

/-- The response to a command, at a backend or at the proxy. -/
def stage (S : Served) (k : CmdId) : Option Bytes :=
  if (S.history.objects.cmds k).responsed = true then some (S.history.objects.cmds k).buffer else S.made k

/-- The store and the responses to some commands. -/
def view (ks : List CmdId) (S : Served) : State CmdId Db Bytes where
  db := S.db
  got k := if k ∈ ks then S.stage k else none

/-- What is seen of a deed. -/
def seen (B : Redis) (ks : List CmdId) (S : Served) : Deed → Option (Stores.Event CmdId Db Bytes)
  | .act (.retry k) => if k ∈ ks then some (.forget k) else none
  | .act (.respond k rsp _) => if k ∈ ks ∧ S.made k = none then some (.fail k rsp) else none
  | .act (.clusterDown k) => if k ∈ ks then some (.fail k World.clusterDownRsp) else none
  | .act _ => none
  | .execute k => if k ∈ ks then some (.run k) else some (.other (S.step B (.execute k)).db)
  | .others db => some (.other db)

theorem stage_of_same {a : Act} (hc : (S.history.objects.cmds k).Same ((S.history.act a).objects.cmds k))
    (hm : settle S.made a k = S.made k) : (S.step B (.act a)).stage k = S.stage k := by
  show (if ((S.history.act a).objects.cmds k).responsed = true then some ((S.history.act a).objects.cmds k).buffer
    else settle S.made a k) = S.stage k
  rw [hc.responsed, hc.buffer, hm]
  rfl

theorem view_same {a : Act} (h : ∀ k ∈ ks, (S.step B (.act a)).stage k = S.stage k) :
    view ks (S.step B (.act a)) = view ks S := by
  have hgot : (view ks (S.step B (.act a))).got = (view ks S).got := by
    funext j
    show (if j ∈ ks then (S.step B (.act a)).stage j else none) = if j ∈ ks then S.stage j else none
    split
    · rename_i hj
      exact h j hj
    · rfl
  exact congrArg (State.mk S.db) hgot

theorem view_update {S' : Served} {o : Option Bytes} (hk : k ∈ ks) (hself : S'.stage k = o)
    (hrest : ∀ j ∈ ks, j ≠ k → S'.stage j = S.stage j) :
    view ks S' = ⟨S'.db, Function.update (view ks S).got k o⟩ := by
  have hgot : (view ks S').got = Function.update (view ks S).got k o := by
    funext j
    show (if j ∈ ks then S'.stage j else none) = _
    by_cases heq : j = k
    · rw [heq, Function.update_self, if_pos hk, hself]
    · rw [Function.update_of_ne heq]
      show _ = if j ∈ ks then S.stage j else none
      split
      · rename_i hj
        exact hrest j hj heq
      · rfl
  exact congrArg (State.mk S'.db) hgot

section Jobs

variable {op : CmdId → Db → Db × Bytes} (h : S.Serving g kind ks) (hone : History.OneSlots kind.commands)

include h hone

/-- The last response to a command. -/
theorem Serving.stage_answered {a : Act} {rsp : Bytes} {error : Bool} (ha : a.answers = some (k, rsp, error))
    (hk : k ∈ ks) :
    (S.step B (.act a)).stage k = some rsp ∧
      ∀ j ∈ ks, j ≠ k → settle S.made a j = S.made j → (S.step B (.act a)).stage j = S.stage j := by
  obtain ⟨-, hswap, -⟩ := h.oneSlot hone hk
  have hrsp := Cmd.onRemoteResponsed_swap hswap rsp error
  constructor
  · have hcmd : (S.history.act a).objects.cmds k = { S.history.objects.cmds k with buffer := rsp, responsed := true } := by
      rw [History.act_answers ha, History.answer_cmd, hrsp, if_pos rfl]
    show (if ((S.history.act a).objects.cmds k).responsed = true then some ((S.history.act a).objects.cmds k).buffer
      else settle S.made a k) = some rsp
    rw [hcmd, if_pos rfl]
  · intro j hj hne hm
    refine stage_of_same (History.act_same (h.oneSlot hone hj).1 fun rsp' error' heq => ?_) hm
    exact hne (Prod.mk.inj (Option.some.inj (heq.symm.trans ha))).1

/-- A command that a backend has, or that is open, has its response from the backend. -/
theorem Serving.stage_open (hk : k ∈ ks) (hopen : (S.history.objects.cmds k).responsed = false ∨ S.history.out k = true) :
    S.stage k = S.made k ∧ (S.history.objects.cmds k).responsed = false ∧
      (S.history.objects.cmds k).buffer = requestOf kind.commands ks k := by
  obtain ⟨-, -, ⟨hr, hb⟩ | ⟨hr, hout⟩⟩ := h.oneSlot hone hk
  · rw [stage, if_neg (by rw [hr]; exact Bool.false_ne_true)]
    exact ⟨rfl, hr, hb⟩
  · rcases hopen with hopen | hopen
    · rw [hr] at hopen
      cases hopen
    · rw [hout] at hopen
      cases hopen

/-- A deed is seen as something that happens to the jobs. -/
theorem Serving.view_step (hop : ∀ k ∈ ks, ∀ db, B.exec (requestOf kind.commands ks k) db = op k db) (hd : S.Due d) :
    view ks (S.step B d) = (seen B ks S d).elim (view ks S) (next op (view ks S)) := by
  have hquiet : ∀ a : Act, a.answers = none → settle S.made a = S.made → view ks (S.step B (.act a)) = view ks S := by
    intro a ha hm
    refine view_same fun k hk => stage_of_same (History.act_same (h.oneSlot hone hk).1 fun rsp error heq => ?_)
      (congrFun hm k)
    rw [ha] at heq
    cases heq
  cases d with
  | act a =>
      cases a with
      | build c kind => exact hquiet _ rfl rfl
      | append g => exact hquiet _ rfl rfl
      | mark k => exact hquiet _ rfl rfl
      | send k => exact hquiet _ rfl rfl
      | retry k =>
          have hout : S.history.out k = true := hd
          have hrest : ∀ j ∈ ks, j ≠ k → (S.step B (.act (.retry k))).stage j = S.stage j := fun j _ hne =>
            stage_of_same (.refl _) (Function.update_of_ne hne ..)
          by_cases hk : k ∈ ks
          · rw [seen, if_pos hk]
            obtain ⟨-, hr, -⟩ := h.stage_open hone hk (Or.inr hout)
            refine view_update hk ?_ hrest
            show (if (S.history.objects.cmds k).responsed = true then _ else Function.update S.made k none k) = none
            rw [hr, if_neg Bool.false_ne_true, Function.update_self]
          · rw [seen, if_neg hk]
            exact view_same fun j hj => hrest j hj (ne_of_mem_of_not_mem hj hk)
      | respond k rsp error =>
          obtain ⟨⟨hopen, -⟩, -, hrsp⟩ := hd
          by_cases hk : k ∈ ks
          · obtain ⟨hself, hrest⟩ := h.stage_answered hone (B := B) (a := .respond k rsp error) rfl hk
            have hrest' : ∀ j ∈ ks, j ≠ k → (S.step B (.act (.respond k rsp error))).stage j = S.stage j :=
              fun j hj hne => hrest j hj hne (Function.update_of_ne hne ..)
            rcases hrsp with hmade | ⟨hnone, -⟩
            · rw [seen, if_neg fun hc => by rw [hmade] at hc; cases hc.2]
              refine view_same fun j hj => ?_
              by_cases heq : j = k
              · rw [heq, hself, (h.stage_open hone hk (Or.inl hopen.2)).1, hmade]
              · exact hrest' j hj heq
            · rw [seen, if_pos ⟨hk, hnone⟩]
              exact view_update hk hself hrest'
          · rw [seen, if_neg fun hc => hk hc.1]
            refine view_same fun j hj => stage_of_same (History.act_same (h.oneSlot hone hj).1 fun _ _ heq => ?_)
              (Function.update_of_ne (ne_of_mem_of_not_mem hj hk) ..)
            exact hk ((Prod.mk.inj (Option.some.inj heq)).1 ▸ hj)
      | clusterDown k =>
          by_cases hk : k ∈ ks
          · obtain ⟨hself, hrest⟩ := h.stage_answered hone (B := B) (a := .clusterDown k) rfl hk
            rw [seen, if_pos hk]
            exact view_update hk hself fun j hj hne => hrest j hj hne rfl
          · rw [seen, if_neg hk]
            refine view_same fun j hj => stage_of_same (History.act_same (h.oneSlot hone hj).1 fun _ _ heq => ?_) rfl
            exact hk ((Prod.mk.inj (Option.some.inj heq)).1 ▸ hj)
  | execute k =>
      obtain ⟨hopen, hout, -⟩ := hd
      have hrest : ∀ j, j ≠ k → (S.step B (.execute k)).stage j = S.stage j := by
        intro j hne
        show (if (S.history.objects.cmds j).responsed = true then _ else Function.update S.made k _ j) = _
        rw [Function.update_of_ne hne]
        rfl
      by_cases hk : k ∈ ks
      · obtain ⟨-, hr, hb⟩ := h.stage_open hone hk (Or.inl hopen.2)
        rw [seen, if_pos hk]
        have hexec : B.exec (S.history.objects.cmds k).buffer S.db = op k S.db := by
          rw [hb]
          exact hop k hk S.db
        show _ = (⟨(op k S.db).1, Function.update (view ks S).got k (some (op k S.db).2)⟩ : State CmdId Db Bytes)
        rw [← hexec]
        refine view_update hk ?_ fun j _ hne => hrest j hne
        show (if (S.history.objects.cmds k).responsed = true then _ else Function.update S.made k _ k) = _
        rw [hr, if_neg Bool.false_ne_true, Function.update_self]
      · rw [seen, if_neg hk]
        have hgot : (view ks (S.step B (.execute k))).got = (view ks S).got := by
          funext j
          show (if j ∈ ks then (S.step B (.execute k)).stage j else none) = if j ∈ ks then S.stage j else none
          split
          · rename_i hj
            exact hrest j (ne_of_mem_of_not_mem hj hk)
          · rfl
        exact congrArg (State.mk (S.step B (.execute k)).db) hgot
  | others db => rfl

/-- Only what is due is seen. -/
theorem Serving.seen_due (hd : S.Due d) {e : Stores.Event CmdId Db Bytes} (he : seen B ks S d = some e) :
    Stores.Due History.IsError (view ks S) e ∧ ∀ k, e = .run k → k ∈ ks := by
  have hnone : ∀ k ∈ ks, (S.history.objects.cmds k).responsed = false → S.made k = none → (view ks S).got k = none := by
    intro k hk hr hm
    show (if k ∈ ks then S.stage k else none) = none
    rw [if_pos hk, (h.stage_open hone hk (Or.inl hr)).1, hm]
  cases d with
  | act a =>
      cases a with
      | build c kind => cases he
      | append g => cases he
      | mark k => cases he
      | send k => cases he
      | retry k =>
          rw [seen] at he
          split at he
          · cases he
            exact ⟨trivial, fun k hk => by cases hk⟩
          · cases he
      | respond k rsp error =>
          obtain ⟨⟨hopen, -⟩, -, hrsp⟩ := hd
          rw [seen] at he
          split at he
          · rename_i hc
            cases he
            rcases hrsp with hmade | ⟨-, herr⟩
            · rw [hc.2] at hmade
              cases hmade
            · exact ⟨⟨hnone k hc.1 hopen.2 hc.2, herr⟩, fun k hk => by cases hk⟩
          · cases he
      | clusterDown k =>
          obtain ⟨hopen, hout⟩ := hd
          rw [seen] at he
          split at he
          · rename_i hk
            cases he
            have hmade : S.made k = none := by
              by_contra hm
              rw [h.ok.made k hm] at hout
              cases hout
            exact ⟨⟨hnone k hk hopen.2 hmade, by decide⟩, fun k hk => by cases hk⟩
          · cases he
  | execute k =>
      obtain ⟨hopen, -, hmade⟩ := hd
      rw [seen] at he
      split at he
      · rename_i hk
        cases he
        exact ⟨hnone k hk hopen.2 hmade, fun j hj => by cases hj; exact hk⟩
      · cases he
        exact ⟨trivial, fun k hk => by cases hk⟩
  | others db =>
      cases he
      exact ⟨trivial, fun k hk => by cases hk⟩

omit h in
/-- A run with backends is seen as a run of the jobs. -/
theorem Serving.view_run {P : Served → Deed → Prop} {A : State CmdId Db Bytes → Stores.Event CmdId Db Bytes → Prop}
    (hop : ∀ k ∈ ks, ∀ db, B.exec (requestOf kind.commands ks k) db = op k db) {S₁ S₂ : Served}
    (hrun : Runs.Reachable (Served.step B) P S₁ S₂) (h : S₁.Serving g kind ks) (hP : ∀ T d, P T d → T.Due d)
    (hA : ∀ T d e, T.Serving g kind ks → P T d → seen B ks T d = some e → A (view ks T) e) :
    S₂.Serving g kind ks ∧ Runs.Reachable (next op) A (view ks S₁) (view ks S₂) :=
  ⟨hrun.inv h fun _ _ hT hd => hT.step (hP _ _ hd),
    hrun.mirror (I := Serving g kind ks) h (fun _ _ hT hd => hT.step (hP _ _ hd))
      (fun _ _ hT hd => hT.view_step hone hop (hP _ _ hd)) hA⟩

end Jobs

/-- Nothing but the commands of the group changes the keys. -/
def Spares (B : Redis) (g : GroupId) (keys : List Bytes) (S : Served) : Deed → Prop
  | .act _ => True
  | .execute k => k ∈ (S.history.objects.groups g).commands ∨ ∀ x ∈ keys, (S.step B (.execute k)).db x = S.db x
  | .others db => ∀ x ∈ keys, db x = S.db x

/-- A command of the group comes back whose request has been executed. -/
def Loses (g : GroupId) (S : Served) : Deed → Prop
  | .act (.retry k) => k ∈ (S.history.objects.groups g).commands ∧ S.made k ≠ none
  | _ => False

instance (B : Redis) (g : GroupId) (keys : List Bytes) (S : Served) : DecidablePred (S.Spares B g keys)
  | .act _ => inferInstanceAs (Decidable True)
  | .execute _ => inferInstanceAs (Decidable (_ ∨ _))
  | .others db => inferInstanceAs (Decidable (∀ x ∈ keys, db x = S.db x))

instance (g : GroupId) (S : Served) : DecidablePred (S.Loses g)
  | .act (.retry _) => inferInstanceAs (Decidable (_ ∧ _))
  | .act (.build _ _) => inferInstanceAs (Decidable False)
  | .act (.append _) => inferInstanceAs (Decidable False)
  | .act (.mark _) => inferInstanceAs (Decidable False)
  | .act (.send _) => inferInstanceAs (Decidable False)
  | .act (.respond _ _ _) => inferInstanceAs (Decidable False)
  | .act (.clusterDown _) => inferInstanceAs (Decidable False)
  | .execute _ => inferInstanceAs (Decidable False)
  | .others _ => inferInstanceAs (Decidable False)

theorem Serving.seen_alone (h : S.Serving g kind ks) (hone : History.OneSlots kind.commands) (hd : S.Due d)
    {keys : List Bytes} (hs : S.Spares B g keys d) {e : Stores.Event CmdId Db Bytes} (he : seen B ks S d = some e) :
    Alone History.IsError ks keys (view ks S) e := by
  obtain ⟨hdue, hmine⟩ := h.seen_due hone hd he
  refine ⟨hdue, ?_, hmine⟩
  cases e with
  | run k => trivial
  | fail k rsp => trivial
  | forget k => trivial
  | other db =>
      cases d with
      | act a => cases a <;> simp [seen] at he
      | execute k =>
          rw [seen] at he
          split at he
          · cases he
          · rename_i hk
            cases he
            exact hs.resolve_left fun hmem => hk (h.commands ▸ hmem)
      | others db' =>
          cases he
          exact hs

theorem Serving.seen_kept (h : S.Serving g kind ks) (hone : History.OneSlots kind.commands) (hd : S.Due d)
    (hl : ¬S.Loses g d) {e : Stores.Event CmdId Db Bytes} (he : seen B ks S d = some e) :
    ¬Stores.Loses (view ks S) e := by
  cases e with
  | run k => exact id
  | fail k rsp => exact id
  | other db => exact id
  | forget k =>
      intro hgot
      cases d with
      | act a =>
          cases a with
          | retry j =>
              rw [seen] at he
              split at he
              · rename_i hj
                cases he
                have hout : S.history.out k = true := hd
                have hstage : (if k ∈ ks then S.stage k else none) ≠ none := hgot
                rw [if_pos hj, (h.stage_open hone hj (Or.inr hout)).1] at hstage
                exact hl ⟨h.commands.symm ▸ hj, hstage⟩
              · cases he
          | build c kind => cases he
          | append g => cases he
          | mark k => cases he
          | send k => cases he
          | respond j rsp error => simp [seen] at he
          | clusterDown j => simp [seen] at he
      | execute j =>
          rw [seen] at he
          split at he <;> cases he
      | others db => cases he

/-! ### The beginning and the end of a request -/

/-- The commands of a request that has been parsed have no response. -/
theorem Ok.parsed (h : S.Ok) (c : ClientId) (kind : CommandGroup) :
    (S.step B (.act (.build c kind))).Serving S.history.objects.groupCount kind
        (List.range' S.history.objects.cmdCount kind.commands.length) ∧
      ∀ k, (view (List.range' S.history.objects.cmdCount kind.commands.length)
        (S.step B (.act (.build c kind)))).got k = none := by
  have hnew : (S.history.objects.build c kind).groups S.history.objects.groupCount = _ := Function.update_self ..
  refine ⟨⟨h.step trivial, Nat.lt_succ_self _, ?_, ?_⟩, fun k => ?_⟩
  · show ((S.history.objects.build c kind).groups _).kind = _
    rw [hnew]
  · show ((S.history.objects.build c kind).groups _).commands = _
    rw [hnew]
  · show (if k ∈ _ then (S.step B (.act (.build c kind))).stage k else none) = none
    split
    · rename_i hk
      obtain ⟨i, hi, rfl⟩ := List.mem_range'.mp hk
      rw [Nat.one_mul] at hk ⊢
      have hmade : S.made (S.history.objects.cmdCount + i) = none := by
        by_contra hm
        have hout := h.made _ hm
        rw [(h.history.inv.spare _ (Nat.le_add_right _ _)).1] at hout
        cases hout
      have hresp : ((S.history.objects.build c kind).cmds (S.history.objects.cmdCount + i)).responsed = false := by
        show (if _ < _ then _ else _ : Cmd).responsed = false
        rw [if_neg (Nat.not_lt.mpr (Nat.le_add_right _ _)), Nat.add_sub_cancel_left, List.getElem?_eq_getElem hi]
        rfl
      show (if ((S.history.objects.build c kind).cmds _).responsed = true then _ else S.made _) = none
      rw [hresp, if_neg Bool.false_ne_true, hmade]
    · rfl

/-- When the group has called `group_responsed`, every command has its last response. -/
theorem Serving.complete (h : S.Serving g kind ks) (hdone : S.history.completed.count g = 1) :
    (S.history.objects.groups g).complete = true ∧ ∀ k ∈ ks, (S.history.objects.cmds k).responsed = true := by
  have hi := h.ok.history.inv
  have hcount := hi.completed g
  rw [hdone] at hcount
  split at hcount
  · rename_i hc
    have hresp := (hi.built.ok g h.lt).responsed hc.2.2
    rw [h.commands] at hresp
    exact ⟨hc.2.2, hresp⟩
  · cases hcount

/-- The reply is made of these responses. -/
theorem Serving.finished (h : S.Serving g kind ks) (hdone : S.history.completed.count g = 1) :
    S.history.objects.appended g = S.history.objects.reply g ∧ ks.Nodup ∧
      ∀ k ∈ ks, (view ks S).got k = some (S.history.objects.cmds k).buffer := by
  obtain ⟨hc, hresp⟩ := h.complete hdone
  have hgroup := h.ok.history.inv.built.ok g h.lt
  have hnd := hgroup.nodup
  rw [h.commands] at hnd
  refine ⟨hgroup.appended fun hp => ?_, hnd, fun k hk => ?_⟩
  · rw [hp.2] at hc
    exact Bool.false_ne_true hc
  · show (if k ∈ ks then S.stage k else none) = _
    rw [if_pos hk, stage, if_pos (hresp k hk)]

end Served

end Cerberus
