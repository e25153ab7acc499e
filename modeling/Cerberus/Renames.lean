import Cerberus.Meanings

/-! # What a `RENAME` across slots does to the store

The proxy reads the value under the old key, writes it under the new one and deletes the old key,
each at the backend of the key.  `Moving` says how far it has come and what is under the two keys,
also when requests are executed more than once because their responses are lost. -/

namespace Cerberus

open Stores

namespace History

variable {h : History} {a : Act} {j k : CmdId} {rsp : Bytes} {error : Bool}

theorem answer_replies : replies ((h.answer k rsp error).log k) = replies (h.log k) ++ [(rsp, error)] := by
  show replies (Function.update h.log k (h.log k ++ [.replied rsp error]) k) = _
  rw [Function.update_self, replies_append]
  rfl

theorem note_replies (k j : CmdId) (e : Entry) (he : replies [e] = []) :
    replies (Function.update h.log k (h.log k ++ [e]) j) = replies (h.log j) := by
  by_cases heq : j = k
  · rw [heq, Function.update_self, replies_append, he, List.append_nil]
  · rw [Function.update_of_ne heq]

/-- Only an answer is a response in the log. -/
theorem act_replies (ha : ∀ rsp error, a.answers ≠ some (j, rsp, error)) :
    replies ((h.act a).log j) = replies (h.log j) := by
  cases a with
  | build c kind => rfl
  | append g => rfl
  | mark k => rfl
  | send k => exact note_replies k j _ rfl
  | retry k => exact note_replies k j _ rfl
  | respond k rsp error =>
      have hne : j ≠ k := fun heq => ha rsp error (heq ▸ rfl)
      exact congrArg replies (Function.update_of_ne hne ..)
  | clusterDown k =>
      have hne : j ≠ k := fun heq => ha _ true (congrArg (fun i => some (i, _, true)) heq.symm)
      exact congrArg replies (Function.update_of_ne hne ..)

end History

/-- The members of the command for two keys. -/
def renameOf (oldKey newKey : Bytes) : Rename := ⟨encodeBulk oldKey, encodeBulk newKey, keySlot oldKey, keySlot newKey⟩

/-- How far a `RENAME` has come: the command, as far as it decides what comes next, the response a
backend has made, what is under the two keys now, and whether a response was an error.  First `x` was
under the old key and `y` under the new one. -/
inductive Moving (oldKey newKey : Bytes) (x y : Option Value) :
    Bool → OnRsp → Bytes → Option Bytes → Option Value → Option Value → Prop → Prop
  | get {m E} : m = none ∨ m = some (getReply x) → Moving oldKey newKey x y false (.get (renameOf oldKey newKey))
      (encodeRequest [ascii "GET", oldKey]) m x y E
  | set {v m w E} : x = some (.string v) → m = none ∧ w = y ∨ (m = none ∨ m = some rspOkStr) ∧ w = x →
      Moving oldKey newKey x y false (.set (renameOf oldKey newKey)) (encodeRequest [ascii "SET", newKey, v]) m x w E
  | del {v m u E} : x = some (.string v) →
      m = none ∧ u = x ∨ u = none ∧ (∀ rsp, m = some rsp → ¬History.IsError rsp) →
      Moving oldKey newKey x y false .del (encodeRequest [ascii "DEL", oldKey]) m u x E
  | missing {on m E} : x = none → Moving oldKey newKey x y true on noSuchKey m x y E
  | failed {on rsp m w E} : History.IsError rsp → E → w = y ∨ w = x → Moving oldKey newKey x y true on rsp m x w E
  | renamed {v on m u E} : x = some (.string v) → u = none ∨ u = x ∧ E →
      Moving oldKey newKey x y true on rspOkStr m u x E

namespace Moving

variable {oldKey newKey buf : Bytes} {x y u w : Option Value} {done : Bool} {on : OnRsp} {m : Option Bytes} {E : Prop}

theorem mono {E' : Prop} (h : Moving oldKey newKey x y done on buf m u w E) (hE : E → E') :
    Moving oldKey newKey x y done on buf m u w E' := by
  cases h with
  | get hm => exact .get hm
  | set hx hw => exact .set hx hw
  | del hx hu => exact .del hx hu
  | missing hx => exact .missing hx
  | failed hrsp he hw => exact .failed hrsp (hE he) hw
  | renamed hx hu => exact .renamed hx (hu.imp_right fun hu => ⟨hu.1, hE hu.2⟩)

/-- The response is lost. -/
theorem forget (h : Moving oldKey newKey x y done on buf m u w E) : Moving oldKey newKey x y done on buf none u w E := by
  cases h with
  | get _ => exact .get (Or.inl rfl)
  | set hx hw => exact .set hx (hw.imp (fun hw => ⟨rfl, hw.2⟩) fun hw => ⟨Or.inl rfl, hw.2⟩)
  | del hx hu => exact .del hx (hu.imp (fun hu => ⟨rfl, hu.2⟩) fun hu => ⟨hu.1, fun rsp hrsp => by cases hrsp⟩)
  | missing hx => exact .missing hx
  | failed hrsp hE hw => exact .failed hrsp hE hw
  | renamed hx hu => exact .renamed hx hu

/-- A response the backend has made, or an error. -/
def Comes (m : Option Bytes) (rsp : Bytes) (error : Bool) : Prop :=
  m = some rsp ∧ error = decide (History.IsError rsp) ∨ m = none ∧ History.IsError rsp ∧ error = true

theorem getReply_ok {x : Option Value} (h : ¬History.IsError (getReply x)) :
    x = none ∧ getReply x = ascii "$-1\r\n" ∨ ∃ v, x = some (.string v) ∧ getReply x = encodeBulk v := by
  cases x with
  | none => exact Or.inl ⟨rfl, rfl⟩
  | some v =>
      cases v with
      | string b => exact Or.inr ⟨b, rfl, rfl⟩
      | other n => exact absurd rfl h

theorem encodeBulk_ne_nil (v : Bytes) : encodeBulk v ≠ ascii "$-1\r\n" := by
  intro heq
  have htail : decimal v.length ++ crlf ++ (v ++ crlf) = ascii "-1\r\n" := (List.cons.inj heq).2
  have hhead := decimal_head_ne_minus v.length (crlf ++ (v ++ crlf))
  rw [← List.append_assoc, htail] at hhead
  exact hhead rfl

variable {c : Cmd} {rsp : Bytes} {error : Bool}

/-- A response comes to a command that waits for one. -/
theorem answer (h : Moving oldKey newKey x y c.responsed c.onRsp c.buffer m u w E) (hc : c.responsed = false)
    (hrsp : Comes m rsp error) :
    Moving oldKey newKey x y ((c.onRemoteResponsed rsp error).2) (c.onRemoteResponsed rsp error).1.onRsp
      (c.onRemoteResponsed rsp error).1.buffer none u w (E ∨ History.IsError rsp) := by
  generalize hon : c.onRsp = on at h
  generalize hbuf : c.buffer = buf at h
  rw [hc] at h
  unfold Cmd.onRemoteResponsed
  cases h with
  | get hm =>
      rw [hon]
      dsimp only
      rcases hrsp with ⟨rfl, herror⟩ | ⟨-, herr, rfl⟩
      · obtain rfl : rsp = getReply x := by
          rcases hm with hm | hm
          · cases hm
          · exact Option.some.inj hm
        by_cases herr : History.IsError (getReply x)
        · rw [herror, decide_eq_true herr, if_pos rfl]
          exact .failed herr (Or.inr herr) (Or.inl rfl)
        · rw [herror, decide_eq_false herr, if_neg Bool.false_ne_true]
          rcases getReply_ok herr with ⟨hx, hnil⟩ | ⟨v, hx, hval⟩
          · rw [if_pos hnil]
            exact .missing hx
          · have hne : getReply x ≠ ascii "$-1\r\n" := hval ▸ encodeBulk_ne_nil v
            rw [if_neg hne]
            have hbuf' : setHeader ++ (renameOf oldKey newKey).newKey ++ getReply x =
                encodeRequest [ascii "SET", newKey, v] := by
              rw [hval, List.append_assoc]
              exact setHeader_eq newKey v
            dsimp only
            rw [hbuf']
            exact .set hx (Or.inl ⟨rfl, rfl⟩)
      · rw [if_pos rfl]
        exact .failed herr (Or.inr herr) (Or.inl rfl)
  | set hx hw =>
      rw [hon]
      dsimp only
      have hkeep : w = y ∨ w = x := hw.imp And.right And.right
      rcases hrsp with ⟨rfl, herror⟩ | ⟨-, herr, rfl⟩
      · rcases hw with ⟨hm, -⟩ | ⟨hm | hm, hw⟩
        · cases hm
        · cases hm
        · have herr : ¬History.IsError rsp := by
            rw [Option.some.inj hm]
            decide
          rw [herror, decide_eq_false herr, if_neg Bool.false_ne_true, hw]
          have hbuf' : delHeader ++ (renameOf oldKey newKey).oldKey = encodeRequest [ascii "DEL", oldKey] :=
            EachKey.commandHeader_eq .del oldKey
          dsimp only
          rw [hbuf']
          exact .del hx (Or.inl ⟨rfl, rfl⟩)
      · rw [if_pos rfl]
        exact .failed herr (Or.inr herr) hkeep
  | del hx hu =>
      rw [hon]
      rcases hrsp with ⟨rfl, herror⟩ | ⟨-, herr, rfl⟩
      · rcases hu with ⟨hm, -⟩ | ⟨hu, -⟩
        · cases hm
        · exact .renamed hx (Or.inl hu)
      · exact .renamed hx (hu.symm.imp And.left fun hu => ⟨hu.2, Or.inr herr⟩)

/-- The backend executes the request of a command that waits for a response. -/
theorem execute {B : Redis} {db : Db} (h : Moving oldKey newKey x y false on buf none (db oldKey) (db newKey) E)
    (hne : oldKey ≠ newKey) :
    Moving oldKey newKey x y false on buf (some (B.exec buf db).2) ((B.exec buf db).1 oldKey) ((B.exec buf db).1 newKey)
      E := by
  generalize hu : db oldKey = u at h
  generalize hw : db newKey = w at h
  cases h with
  | get hm =>
      rw [B.get]
      dsimp only
      rw [hu, hw]
      exact .get (Or.inr rfl)
  | set hx _ =>
      rw [B.set]
      dsimp only
      rw [put_of_ne db hne, put_self, hu, ← hx]
      exact .set hx (Or.inr ⟨Or.inr rfl, rfl⟩)
  | del hx _ =>
      rw [B.del]
      dsimp only
      rw [erase_self, erase_of_ne db hne.symm, hw]
      refine .del hx (Or.inr ⟨rfl, fun rsp hrsp => ?_⟩)
      rw [← Option.some.inj hrsp]
      cases (db oldKey).isSome <;> decide

end Moving

namespace Served

variable {B : Redis} {S S' : Served} {oldKey newKey : Bytes} {x y : Option Value} {k : CmdId} {g : GroupId} {d : Deed}

/-- How far the command has come. -/
def Moves (oldKey newKey : Bytes) (x y : Option Value) (k : CmdId) (S : Served) : Prop :=
  Moving oldKey newKey x y (S.history.objects.cmds k).responsed (S.history.objects.cmds k).onRsp
    (S.history.objects.cmds k).buffer (S.made k) (S.db oldKey) (S.db newKey)
    (∃ p ∈ replies (S.history.log k), History.IsError p.1)

theorem Due.comes {a : Act} {rsp : Bytes} {error : Bool} (hok : S.Ok) (hd : S.Due (.act a))
    (ha : a.answers = some (k, rsp, error)) :
    S.history.Open k ∧ Moving.Comes (S.made k) rsp error ∧ settle S.made a k = none := by
  cases a with
  | respond k' rsp' error' =>
      obtain ⟨rfl, hrest⟩ := Prod.mk.inj (Option.some.inj ha)
      obtain ⟨rfl, rfl⟩ := Prod.mk.inj hrest
      obtain ⟨⟨hopen, -⟩, herror, hrsp⟩ := hd
      refine ⟨hopen, hrsp.imp (fun hm => ⟨hm, herror⟩) fun hm => ⟨hm.1, hm.2, ?_⟩, Function.update_self ..⟩
      rw [herror, decide_eq_true hm.2]
  | clusterDown k' =>
      obtain ⟨rfl, hrest⟩ := Prod.mk.inj (Option.some.inj ha)
      obtain ⟨rfl, rfl⟩ := Prod.mk.inj hrest
      obtain ⟨hopen, hout⟩ := hd
      have hmade : S.made k' = none := by
        by_contra hm
        rw [hok.made k' hm] at hout
        cases hout
      exact ⟨hopen, Or.inr ⟨hmade, by decide, rfl⟩, hmade⟩
  | build c kind => cases ha
  | append g => cases ha
  | mark k' => cases ha
  | send k' => cases ha
  | retry k' => cases ha

theorem settle_other {a : Act} (ha : ∀ rsp error, a.answers ≠ some (k, rsp, error)) (made : CmdId → Option Bytes) :
    settle made a k = made k ∨ settle made a k = none := by
  cases a with
  | retry k' =>
      by_cases heq : k = k'
      · rw [heq]
        exact Or.inr (Function.update_self ..)
      · exact Or.inl (Function.update_of_ne heq ..)
  | respond k' rsp error =>
      have hne : k ≠ k' := fun heq => ha rsp error (heq ▸ rfl)
      exact Or.inl (Function.update_of_ne hne ..)
  | build c kind => exact Or.inl rfl
  | append g => exact Or.inl rfl
  | mark k' => exact Or.inl rfl
  | send k' => exact Or.inl rfl
  | clusterDown k' => exact Or.inl rfl

theorem Moves.step (h : S.Moves oldKey newKey x y k) (hne : oldKey ≠ newKey) (hok : S.Ok)
    (hk : k < S.history.objects.cmdCount) (hg : (S.history.objects.groups g).commands = [k]) (hd : S.Due d)
    (hs : S.Spares B g [oldKey, newKey] d) : (S.step B d).Moves oldKey newKey x y k := by
  cases d with
  | act a =>
      by_cases ha : ∃ rsp error, a.answers = some (k, rsp, error)
      · obtain ⟨rsp, error, ha⟩ := ha
        obtain ⟨hopen, hcomes, hmade⟩ := hd.comes hok ha
        obtain ⟨-, -, hresp⟩ := (S.history.objects.cmds k).onRemoteResponsed_same rsp error
        have hanswer := h.answer hopen.2 hcomes
        have hE : ((∃ p ∈ replies (S.history.log k), History.IsError p.1) ∨ History.IsError rsp) →
            ∃ p ∈ replies ((S.history.act a).log k), History.IsError p.1 := by
          rw [History.act_answers ha, History.answer_replies]
          rintro (⟨p, hp, herr⟩ | herr)
          · exact ⟨p, List.mem_append_left _ hp, herr⟩
          · exact ⟨_, List.mem_append_right _ (List.mem_singleton_self _), herr⟩
        have hcmd := (congrArg (fun t => t.objects.cmds k) (History.act_answers (h := S.history) ha)).trans
          History.answer_cmd
        show Moving oldKey newKey x y ((S.history.act a).objects.cmds k).responsed
          ((S.history.act a).objects.cmds k).onRsp ((S.history.act a).objects.cmds k).buffer (settle S.made a k)
          (S.db oldKey) (S.db newKey) _
        rw [hmade]
        dsimp only at hcmd
        rw [hcmd]
        cases hlast : ((S.history.objects.cmds k).onRemoteResponsed rsp error).2 with
        | true =>
            rw [hlast] at hanswer
            rw [if_pos rfl]
            exact hanswer.mono hE
        | false =>
            rw [hlast] at hanswer
            rw [if_neg Bool.false_ne_true, hresp, hopen.2]
            exact hanswer.mono hE
      · have ha' : ∀ rsp error, a.answers ≠ some (k, rsp, error) := fun rsp error heq => ha ⟨rsp, error, heq⟩
        have hsame := History.act_same hk ha'
        show Moving oldKey newKey x y ((S.history.act a).objects.cmds k).responsed
          ((S.history.act a).objects.cmds k).onRsp ((S.history.act a).objects.cmds k).buffer (settle S.made a k)
          (S.db oldKey) (S.db newKey) (∃ p ∈ replies ((S.history.act a).log k), History.IsError p.1)
        rw [hsame.responsed, hsame.onRsp, hsame.buffer, History.act_replies ha']
        rcases settle_other ha' S.made with hm | hm
        · rw [hm]
          exact h
        · rw [hm]
          exact h.forget
  | execute j =>
      obtain ⟨hopen, -, hmade⟩ := hd
      by_cases heq : j = k
      · subst heq
        have h' : Moving oldKey newKey x y (S.history.objects.cmds j).responsed (S.history.objects.cmds j).onRsp
          (S.history.objects.cmds j).buffer (S.made j) (S.db oldKey) (S.db newKey) _ := h
        rw [hopen.2, hmade] at h'
        have hexec := h'.execute (B := B) hne
        show Moving oldKey newKey x y (S.history.objects.cmds j).responsed (S.history.objects.cmds j).onRsp
          (S.history.objects.cmds j).buffer (Function.update S.made j _ j) _ _ _
        rw [hopen.2, Function.update_self]
        exact hexec
      · have hdb := hs.resolve_left fun hmem => heq (List.mem_singleton.mp (hg ▸ hmem))
        show Moving oldKey newKey x y (S.history.objects.cmds k).responsed (S.history.objects.cmds k).onRsp
          (S.history.objects.cmds k).buffer (Function.update S.made j _ k) ((S.step B (.execute j)).db oldKey)
          ((S.step B (.execute j)).db newKey) _
        rw [Function.update_of_ne (Ne.symm heq), hdb oldKey List.mem_cons_self,
          hdb newKey (List.mem_cons_of_mem _ List.mem_cons_self)]
        exact h
  | others db =>
      show Moving oldKey newKey x y (S.history.objects.cmds k).responsed (S.history.objects.cmds k).onRsp
        (S.history.objects.cmds k).buffer (S.made k) (db oldKey) (db newKey) _
      rw [hs oldKey List.mem_cons_self, hs newKey (List.mem_cons_of_mem _ List.mem_cons_self)]
      exact h

variable {env : Env} {r : Request} {kind : CommandGroup}

end Served

end Cerberus
