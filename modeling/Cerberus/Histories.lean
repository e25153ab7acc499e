import Cerberus.Proxy
import Cerberus.Ledger
import Cerberus.Runs
import Cerberus.KeyRequests

/-! # Histories of commands

What a command goes through, whatever else happens in between: it is given to the backend of its
slot, it comes back to be tried again, and it gets responses, from a backend or from the proxy when
the cluster is down.  A `History` has the groups and commands of the code and a log for each of
them; the steps of one command are `Lives`.

From this follow the replies to requests of several keys, in whatever order the responses come
(`several_replies`, `masked_iff`), and the steps of a `RENAME` across slots (`rename_steps`). -/

namespace Cerberus

/-! ### One command -/

/-- An entry in the log of a command: it is sent to the backend of a slot, it has come back to be
tried again, or a response has come. -/
inductive Entry where
  | sent (request : Bytes) (slot : ℕ)
  | retried
  | replied (rsp : Bytes) (error : Bool)
deriving DecidableEq, Repr

/-- The responses in a log. -/
def replies (es : List Entry) : List (Bytes × Bool) :=
  es.filterMap fun
    | .replied rsp error => some (rsp, error)
    | _ => none

theorem replies_append (es es' : List Entry) : replies (es ++ es') = replies es ++ replies es' :=
  List.filterMap_append

/-- A command of a group, whether a backend has it, and its log, from the time when it is built. -/
inductive Lives (g : GroupId) (d : DataCommand) : Cmd → Bool → List Entry → Prop
  | new : Lives g d (.new g d) false []
  | mark {c es} : Lives g d c false es → c.responsed = false → Lives g d { c with selected := true } false es
  | send {c es} : Lives g d c false es → c.responsed = false →
      Lives g d { c with selected := true } true (es ++ [.sent c.buffer c.keySlot])
  | retry {c es} : Lives g d c true es → Lives g d c false (es ++ [.retried])
  | again {c out es rsp error} : Lives g d c out es → c.responsed = false →
      (c.onRemoteResponsed rsp error).2 = false →
      Lives g d (c.onRemoteResponsed rsp error).1 false (es ++ [.replied rsp error])
  | last {c out es rsp error} : Lives g d c out es → c.responsed = false →
      (c.onRemoteResponsed rsp error).2 = true →
      Lives g d { (c.onRemoteResponsed rsp error).1 with responsed := true } false
        (es ++ [.replied rsp error])

/-- A request is sent, and sent again when it has come back. -/
inductive Attempts (request : Bytes) (slot : ℕ) : Bool → List Entry → Prop
  | none : Attempts request slot false []
  | send {es} : Attempts request slot false es → Attempts request slot true (es ++ [.sent request slot])
  | retry {es} : Attempts request slot true es → Attempts request slot false (es ++ [.retried])

theorem Attempts.replies_eq {request : Bytes} {slot : ℕ} {out : Bool} {es : List Entry}
    (h : Attempts request slot out es) : replies es = [] := by
  induction h with
  | none => rfl
  | send _ ih => rw [replies_append, ih]; rfl
  | retry _ ih => rw [replies_append, ih]; rfl

theorem Attempts.sent_eq {request : Bytes} {slot : ℕ} {out : Bool} {es : List Entry}
    (h : Attempts request slot out es) : ∀ e ∈ es, e = .sent request slot ∨ e = .retried := by
  induction h with
  | none => exact nofun
  | send _ ih =>
      intro e he
      rcases List.mem_append.mp he with he | he
      · exact ih e he
      · exact Or.inl (List.mem_singleton.mp he)
  | retry _ ih =>
      intro e he
      rcases List.mem_append.mp he with he | he
      · exact ih e he
      · exact Or.inr (List.mem_singleton.mp he)

namespace Lives

variable {g : GroupId} {d : DataCommand} {c : Cmd} {out : Bool} {es : List Entry}

/-- A command that needs one response: it waits, or the response is in its buffer. -/
theorem oneSlot {b : Bytes} {slot : ℕ} (h : Lives g (.oneSlot b slot) c out es) :
    c.onRsp = .swap ∧ c.keySlot = slot ∧
      (c.responsed = false ∧ c.buffer = b ∧ Attempts b slot out es ∨
        c.responsed = true ∧ out = false ∧ ∃ es' out' rsp error, es = es' ++ [.replied rsp error] ∧
          Attempts b slot out' es' ∧ c.buffer = rsp) := by
  induction h with
  | new => exact ⟨rfl, rfl, Or.inl ⟨rfl, rfl, .none⟩⟩
  | mark _ hr ih =>
      obtain ⟨hon, hslot, ⟨-, hb, ha⟩ | ⟨hdone, -⟩⟩ := ih
      · exact ⟨hon, hslot, Or.inl ⟨hr, hb, ha⟩⟩
      · rw [hr] at hdone
        cases hdone
  | send _ hr ih =>
      obtain ⟨hon, hslot, ⟨-, hb, ha⟩ | ⟨hdone, -⟩⟩ := ih
      · refine ⟨hon, hslot, Or.inl ⟨hr, hb, ?_⟩⟩
        rw [hb, hslot]
        exact ha.send
      · rw [hr] at hdone
        cases hdone
  | retry _ ih =>
      obtain ⟨hon, hslot, ⟨hr, hb, ha⟩ | ⟨-, hout, -⟩⟩ := ih
      · exact ⟨hon, hslot, Or.inl ⟨hr, hb, ha.retry⟩⟩
      · cases hout
  | @again c out es rsp error _ hr hagain ih =>
      rw [Cmd.onRemoteResponsed, ih.1] at hagain
      cases hagain
  | @last c out es rsp error _ hr hlast ih =>
      obtain ⟨hon, hslot, ⟨-, hb, ha⟩ | ⟨hdone, -⟩⟩ := ih
      · have hrsp : c.onRemoteResponsed rsp error = ({ c with buffer := rsp }, true) := by
          rw [Cmd.onRemoteResponsed, hon]
        rw [hrsp]
        exact ⟨hon, hslot, Or.inr ⟨rfl, rfl, es, out, rsp, error, rfl, ha, rfl⟩⟩
      · rw [hr] at hdone
        cases hdone

/-- The responses to such a command. -/
theorem oneSlot_replies {b : Bytes} {slot : ℕ} (h : Lives g (.oneSlot b slot) c out es) :
    (c.responsed = false ∧ replies es = []) ∨ (c.responsed = true ∧ ∃ error, replies es = [(c.buffer, error)]) := by
  obtain ⟨-, -, ⟨hr, -, ha⟩ | ⟨hr, -, es', out', rsp, error, rfl, ha, hb⟩⟩ := h.oneSlot
  · exact Or.inl ⟨hr, ha.replies_eq⟩
  · refine Or.inr ⟨hr, error, ?_⟩
    rw [replies_append, ha.replies_eq, hb]
    rfl

end Lives

/-! ### A `RENAME` across slots -/

def noSuchKey : Bytes := ascii "-ERR no such key\r\n"

def nilRsp : Bytes := ascii "$-1\r\n"

/-- The steps of a `RENAME`, as far as they have come: the reply if there is one, whether a backend
has the command, and the log. -/
inductive Renaming (r : Rename) : Option Bytes → Bool → List Entry → Prop
  | getting {out es} : Attempts (getHeader ++ r.oldKey) r.oldKeySlot out es → Renaming r none out es
  | refused {out es rsp} : Attempts (getHeader ++ r.oldKey) r.oldKeySlot out es →
      Renaming r (some rsp) false (es ++ [.replied rsp true])
  | missing {out es} : Attempts (getHeader ++ r.oldKey) r.oldKeySlot out es →
      Renaming r (some noSuchKey) false (es ++ [.replied nilRsp false])
  | setting {out es value out' es'} : Attempts (getHeader ++ r.oldKey) r.oldKeySlot out es → value ≠ nilRsp →
      Attempts (setHeader ++ r.newKey ++ value) r.newKeySlot out' es' →
      Renaming r none out' (es ++ .replied value false :: es')
  | failed {out es value out' es' rsp} : Attempts (getHeader ++ r.oldKey) r.oldKeySlot out es → value ≠ nilRsp →
      Attempts (setHeader ++ r.newKey ++ value) r.newKeySlot out' es' →
      Renaming r (some rsp) false (es ++ .replied value false :: (es' ++ [.replied rsp true]))
  | deleting {out es value out' es' rsp out'' es''} :
      Attempts (getHeader ++ r.oldKey) r.oldKeySlot out es → value ≠ nilRsp →
      Attempts (setHeader ++ r.newKey ++ value) r.newKeySlot out' es' →
      Attempts (delHeader ++ r.oldKey) r.oldKeySlot out'' es'' →
      Renaming r none out'' (es ++ .replied value false :: (es' ++ .replied rsp false :: es''))
  | renamed {out es value out' es' rsp out'' es'' rsp' error} :
      Attempts (getHeader ++ r.oldKey) r.oldKeySlot out es → value ≠ nilRsp →
      Attempts (setHeader ++ r.newKey ++ value) r.newKeySlot out' es' →
      Attempts (delHeader ++ r.oldKey) r.oldKeySlot out'' es'' →
      Renaming r (some rspOkStr) false
        (es ++ .replied value false :: (es' ++ .replied rsp false :: (es'' ++ [.replied rsp' error])))

/-- What the command holds while it waits for a response to one of the three requests. -/
inductive Waits (r : Rename) (c : Cmd) (out : Bool) : List Entry → Prop
  | get {es} : c.onRsp = .get r → c.buffer = getHeader ++ r.oldKey → c.keySlot = r.oldKeySlot →
      Attempts c.buffer c.keySlot out es → Waits r c out es
  | set {out₀ es value es'} : c.onRsp = .set r → c.buffer = setHeader ++ r.newKey ++ value →
      c.keySlot = r.newKeySlot → Attempts (getHeader ++ r.oldKey) r.oldKeySlot out₀ es → value ≠ nilRsp →
      Attempts c.buffer c.keySlot out es' → Waits r c out (es ++ .replied value false :: es')
  | del {out₀ es value out₁ es' rsp es''} : c.onRsp = .del → c.buffer = delHeader ++ r.oldKey →
      c.keySlot = r.oldKeySlot → Attempts (getHeader ++ r.oldKey) r.oldKeySlot out₀ es → value ≠ nilRsp →
      Attempts (setHeader ++ r.newKey ++ value) r.newKeySlot out₁ es' →
      Attempts c.buffer c.keySlot out es'' →
      Waits r c out (es ++ .replied value false :: (es' ++ .replied rsp false :: es''))

namespace Waits

variable {r : Rename} {c : Cmd} {out : Bool} {es : List Entry}

/-- More attempts at the same request. -/
theorem more {c' : Cmd} {out' : Bool} {e : Entry} (h : Waits r c out es) (hon : c'.onRsp = c.onRsp)
    (hb : c'.buffer = c.buffer) (hs : c'.keySlot = c.keySlot)
    (ha : ∀ es, Attempts c.buffer c.keySlot out es → Attempts c.buffer c.keySlot out' (es ++ [e])) :
    Waits r c' out' (es ++ [e]) := by
  cases h with
  | get h₁ h₂ h₃ h₄ =>
      refine .get (hon.trans h₁) (hb.trans h₂) (hs.trans h₃) ?_
      rw [hb, hs]
      exact ha _ h₄
  | set h₁ h₂ h₃ h₄ h₅ h₆ =>
      rw [List.append_assoc, List.cons_append]
      refine .set (hon.trans h₁) (hb.trans h₂) (hs.trans h₃) h₄ h₅ ?_
      rw [hb, hs]
      exact ha _ h₆
  | del h₁ h₂ h₃ h₄ h₅ h₆ h₇ =>
      rw [List.append_assoc, List.cons_append, List.append_assoc, List.cons_append]
      refine .del (hon.trans h₁) (hb.trans h₂) (hs.trans h₃) h₄ h₅ h₆ ?_
      rw [hb, hs]
      exact ha _ h₇

theorem mark (h : Waits r c out es) : Waits r { c with selected := true } out es := by
  cases h with
  | get h₁ h₂ h₃ h₄ => exact .get h₁ h₂ h₃ h₄
  | set h₁ h₂ h₃ h₄ h₅ h₆ => exact .set h₁ h₂ h₃ h₄ h₅ h₆
  | del h₁ h₂ h₃ h₄ h₅ h₆ h₇ => exact .del h₁ h₂ h₃ h₄ h₅ h₆ h₇

/-- A response that is followed by another request. -/
theorem again {rsp : Bytes} {error : Bool} (h : Waits r c out es) (hagain : (c.onRemoteResponsed rsp error).2 = false) :
    Waits r (c.onRemoteResponsed rsp error).1 false (es ++ [.replied rsp error]) := by
  cases h with
  | get h₁ h₂ h₃ h₄ =>
      unfold Cmd.onRemoteResponsed at hagain ⊢
      rw [h₁] at hagain ⊢
      dsimp only at hagain ⊢
      cases error with
      | true => cases hagain
      | false =>
          rw [if_neg Bool.false_ne_true] at hagain ⊢
          split at hagain
          · cases hagain
          · rename_i hnil
            rw [if_neg hnil]
            rw [h₂, h₃] at h₄
            exact .set rfl rfl rfl h₄ hnil .none
  | set h₁ h₂ h₃ h₄ h₅ h₆ =>
      unfold Cmd.onRemoteResponsed at hagain ⊢
      rw [h₁] at hagain ⊢
      dsimp only at hagain ⊢
      cases error with
      | true => cases hagain
      | false =>
          rw [if_neg Bool.false_ne_true]
          rw [h₂, h₃] at h₆
          rw [List.append_assoc, List.cons_append]
          exact .del rfl rfl rfl h₄ h₅ h₆ .none
  | del h₁ =>
      rw [Cmd.onRemoteResponsed, h₁] at hagain
      cases hagain

/-- The response that settles the request. -/
theorem last {rsp : Bytes} {error : Bool} (h : Waits r c out es) (hlast : (c.onRemoteResponsed rsp error).2 = true) :
    Renaming r (some (c.onRemoteResponsed rsp error).1.buffer) false (es ++ [.replied rsp error]) := by
  cases h with
  | get h₁ h₂ h₃ h₄ =>
      rw [h₂, h₃] at h₄
      unfold Cmd.onRemoteResponsed at hlast ⊢
      rw [h₁] at hlast ⊢
      dsimp only at hlast ⊢
      cases error with
      | true => exact .refused h₄
      | false =>
          rw [if_neg Bool.false_ne_true] at hlast ⊢
          split at hlast
          · rename_i hnil
            rw [if_pos hnil, hnil]
            exact .missing h₄
          · cases hlast
  | set h₁ h₂ h₃ h₄ h₅ h₆ =>
      rw [h₂, h₃] at h₆
      unfold Cmd.onRemoteResponsed at hlast ⊢
      rw [h₁] at hlast ⊢
      dsimp only at hlast ⊢
      cases error with
      | true =>
          rw [List.append_assoc, List.cons_append]
          exact .failed h₄ h₅ h₆
      | false => cases hlast
  | del h₁ h₂ h₃ h₄ h₅ h₆ h₇ =>
      rw [h₂, h₃] at h₇
      rw [Cmd.onRemoteResponsed, h₁, List.append_assoc, List.cons_append, List.append_assoc, List.cons_append]
      exact .renamed h₄ h₅ h₆ h₇

theorem toRenaming (h : Waits r c out es) : Renaming r none out es := by
  cases h with
  | get _ h₂ h₃ h₄ =>
      rw [h₂, h₃] at h₄
      exact .getting h₄
  | set _ h₂ h₃ h₄ h₅ h₆ =>
      rw [h₂, h₃] at h₆
      exact .setting h₄ h₅ h₆
  | del _ h₂ h₃ h₄ h₅ h₆ h₇ =>
      rw [h₂, h₃] at h₇
      exact .deleting h₄ h₅ h₆ h₇

end Waits

theorem Lives.rename {g : GroupId} {c : Cmd} {out : Bool} {es : List Entry} {oldKey newKey : Bytes}
    {oldSlot newSlot : ℕ} (h : Lives g (.rename oldKey newKey oldSlot newSlot) c out es) :
    (c.responsed = false ∧ Waits ⟨oldKey, newKey, oldSlot, newSlot⟩ c out es) ∨
      (c.responsed = true ∧ out = false ∧ Renaming ⟨oldKey, newKey, oldSlot, newSlot⟩ (some c.buffer) out es) := by
  induction h with
  | new => exact Or.inl ⟨rfl, .get rfl rfl rfl .none⟩
  | mark _ hr ih =>
      rcases ih with ⟨-, hw⟩ | ⟨hdone, -⟩
      · exact Or.inl ⟨hr, hw.mark⟩
      · rw [hr] at hdone
        cases hdone
  | send _ hr ih =>
      rcases ih with ⟨-, hw⟩ | ⟨hdone, -⟩
      · exact Or.inl ⟨hr, hw.more rfl rfl rfl fun _ ha => ha.send⟩
      · rw [hr] at hdone
        cases hdone
  | retry _ ih =>
      rcases ih with ⟨hr, hw⟩ | ⟨-, hout, -⟩
      · exact Or.inl ⟨hr, hw.more rfl rfl rfl fun _ ha => ha.retry⟩
      · cases hout
  | @again c out es rsp error _ hr hagain ih =>
      rcases ih with ⟨-, hw⟩ | ⟨hdone, -⟩
      · exact Or.inl ⟨(c.onRemoteResponsed_same rsp error).2.2.trans hr, hw.again hagain⟩
      · rw [hr] at hdone
        cases hdone
  | last _ hr hlast ih =>
      rcases ih with ⟨-, hw⟩ | ⟨hdone, -⟩
      · exact Or.inr ⟨rfl, rfl, hw.last hlast⟩
      · rw [hr] at hdone
        cases hdone

/-! ### All commands -/

/-- The groups and commands of the proxy, the commands that are with a backend, the log of each,
and the groups that have called `group_responsed`, in order. -/
structure History where
  objects : Objects
  out : CmdId → Bool
  log : CmdId → List Entry
  completed : List GroupId

/-- What happens to commands and groups: a request is parsed, a group is appended to the output of
its client, a command finds no backend or is given to one, it comes back, and it gets a response,
from a backend or from the proxy. -/
inductive Act where
  | build (c : ClientId) (kind : CommandGroup)
  | append (g : GroupId)
  | mark (k : CmdId)
  | send (k : CmdId)
  | retry (k : CmdId)
  | respond (k : CmdId) (rsp : Bytes) (error : Bool)
  | clusterDown (k : CmdId)

namespace History

def new : History := ⟨.empty, fun _ => false, fun _ => [], []⟩

/-- An entry for a command, which is then with a backend or not. -/
def note (k : CmdId) (e : Entry) (out : Bool) (h : History) : History :=
  { h with out := Function.update h.out k out, log := Function.update h.log k (h.log k ++ [e]) }

def select (k : CmdId) (h : History) : History :=
  { h with objects := h.objects.setCmd k { h.objects.cmds k with selected := true } }

/-- `on_remote_responsed(rsp, error)` -/
def answer (k : CmdId) (rsp : Bytes) (error : Bool) (h : History) : History :=
  let r := (h.objects.cmds k).onRemoteResponsed rsp error
  let o := if r.2 then h.objects.respond k r.1 else (h.objects.setCmd k r.1, false)
  { h.note k (.replied rsp error) false with
    objects := o.1
    completed := if o.2 then h.completed ++ [r.1.group] else h.completed }

theorem answer_last {h : History} {k : CmdId} {rsp : Bytes} {error : Bool}
    (hlast : ((h.objects.cmds k).onRemoteResponsed rsp error).2 = true) : h.answer k rsp error =
      ⟨(h.objects.respond k ((h.objects.cmds k).onRemoteResponsed rsp error).1).1, Function.update h.out k false,
        Function.update h.log k (h.log k ++ [.replied rsp error]),
        if (h.objects.respond k ((h.objects.cmds k).onRemoteResponsed rsp error).1).2 then
          h.completed ++ [((h.objects.cmds k).onRemoteResponsed rsp error).1.group] else h.completed⟩ := by
  unfold answer
  dsimp only
  rw [if_pos hlast]
  rfl

theorem answer_again {h : History} {k : CmdId} {rsp : Bytes} {error : Bool}
    (hagain : ((h.objects.cmds k).onRemoteResponsed rsp error).2 = false) : h.answer k rsp error =
      ⟨h.objects.setCmd k ((h.objects.cmds k).onRemoteResponsed rsp error).1, Function.update h.out k false,
        Function.update h.log k (h.log k ++ [.replied rsp error]), h.completed⟩ := by
  unfold answer
  dsimp only
  rw [if_neg (by rw [hagain]; exact Bool.false_ne_true), if_neg Bool.false_ne_true]
  rfl

def act (h : History) : Act → History
  | .build c kind => { h with objects := h.objects.build c kind }
  | .append g => { h with objects := (h.objects.appendBufferTo g).1 }
  | .mark k => h.select k
  | .send k => (h.note k (.sent (h.objects.cmds k).buffer (h.objects.cmds k).keySlot) true).select k
  | .retry k => h.note k .retried false
  | .respond k rsp error => h.answer k rsp error
  | .clusterDown k => h.answer k World.clusterDownRsp true

/-- The command has been built and waits for its last response. -/
def Open (h : History) (k : CmdId) : Prop := k < h.objects.cmdCount ∧ (h.objects.cmds k).responsed = false

/-- A backend gives a response to a command it has; the others are with the proxy. -/
def Due (h : History) : Act → Prop
  | .build _ _ => True
  | .append _ => True
  | .mark k => h.Open k ∧ h.out k = false
  | .send k => h.Open k ∧ h.out k = false
  | .retry k => h.out k = true
  | .respond k _ _ => h.Open k ∧ h.out k = true
  | .clusterDown k => h.Open k ∧ h.out k = false

instance (h : History) (k : CmdId) : Decidable (h.Open k) := inferInstanceAs (Decidable (_ ∧ _))

instance (h : History) : DecidablePred h.Due
  | .build _ _ => inferInstanceAs (Decidable True)
  | .append _ => inferInstanceAs (Decidable True)
  | .mark _ => inferInstanceAs (Decidable (_ ∧ _))
  | .send _ => inferInstanceAs (Decidable (_ ∧ _))
  | .retry _ => inferInstanceAs (Decidable (_ = _))
  | .respond _ _ _ => inferInstanceAs (Decidable (_ ∧ _))
  | .clusterDown _ => inferInstanceAs (Decidable (_ ∧ _))

abbrev Reached (h : History) : Prop := Runs.Reachable act Due new h

/-- Every command lives the life of what it was built from, and a group has called
`group_responsed` once it is complete. -/
structure Inv (h : History) : Prop where
  built : h.objects.Built
  spare : ∀ k, h.objects.cmdCount ≤ k → h.out k = false ∧ h.log k = []
  lives : ∀ g < h.objects.groupCount, ∀ (i : ℕ) (k : CmdId) (d : DataCommand),
    (h.objects.groups g).commands[i]? = some k → (h.objects.groups g).kind.commands[i]? = some d → Lives g d (h.objects.cmds k) (h.out k) (h.log k)
  waiting : ∀ g < h.objects.groupCount, h.objects.Pending g → (h.objects.groups g).commands ≠ [] →
    ∃ k ∈ (h.objects.groups g).commands, (h.objects.cmds k).responsed = false
  completed : ∀ g, h.completed.count g =
    if g < h.objects.groupCount ∧ (h.objects.groups g).kind.waitRemote = true ∧
      (h.objects.groups g).complete = true then 1 else 0

variable {h : History} {k : CmdId} {g : GroupId}

theorem inv_new : new.Inv where
  built := Objects.built_empty
  spare _ _ := ⟨rfl, rfl⟩
  lives _ hg := absurd hg (Nat.not_lt_zero _)
  waiting _ hg := absurd hg (Nat.not_lt_zero _)
  completed g := (if_neg fun hg => Nat.not_lt_zero g hg.1).symm

theorem Inv.build (hi : h.Inv) (c : ClientId) (kind : CommandGroup) : (h.act (.build c kind)).Inv := by
  have hgrows := Objects.build_grows c kind h.objects
  have hnew : (h.objects.build c kind).groups h.objects.groupCount = _ := Function.update_self ..
  have hold : ∀ g, g ≠ h.objects.groupCount → (h.objects.build c kind).groups g = h.objects.groups g :=
    fun g hne => Function.update_of_ne hne ..
  have hcases : ∀ g < h.objects.groupCount + 1, g = h.objects.groupCount ∨
      g < h.objects.groupCount ∧ g ≠ h.objects.groupCount := by
    intro g hg
    omega
  refine ⟨hi.built.build c kind, fun k hk => ?_, fun g hg i k d hk hd => ?_, fun g hg hp hne => ?_, fun g => ?_⟩
  · exact hi.spare k (hgrows.cmdCount.trans hk)
  · show Lives g d ((h.objects.build c kind).cmds k) (h.out k) (h.log k)
    have hk' : ((h.objects.build c kind).groups g).commands[i]? = some k := hk
    have hd' : ((h.objects.build c kind).groups g).kind.commands[i]? = some d := hd
    rcases hcases g hg with rfl | ⟨hlt, hne⟩
    · -- the commands of the new group
      rw [hnew] at hk' hd'
      dsimp only at hk' hd'
      obtain ⟨hi', rfl⟩ := List.getElem?_eq_some_iff.mp hk'
      rw [List.length_range'] at hi'
      obtain ⟨hout, hlog⟩ := hi.spare (List.range' h.objects.cmdCount kind.commands.length)[i] (by
        rw [List.getElem_range']
        omega)
      rw [hout, hlog]
      have hcmd : (h.objects.build c kind).cmds (List.range' h.objects.cmdCount kind.commands.length)[i] =
          Cmd.new h.objects.groupCount d := by
        have hnot : ¬h.objects.cmdCount + 1 * i < h.objects.cmdCount := by omega
        rw [List.getElem_range']
        show (if h.objects.cmdCount + 1 * i < h.objects.cmdCount then _ else _) = _
        rw [if_neg hnot, Nat.one_mul, Nat.add_sub_cancel_left, hd']
      rw [hcmd]
      exact .new
    · rw [hold g hne] at hk' hd'
      have hkc := ((hi.built.ok g hlt).owned k (List.mem_of_getElem? hk')).2
      rw [hgrows.cmds k hkc]
      exact hi.lives g hlt i k d hk' hd'
  · have hp' : (h.objects.build c kind).Pending g := hp
    have hne' : ((h.objects.build c kind).groups g).commands ≠ [] := hne
    show ∃ k ∈ ((h.objects.build c kind).groups g).commands, ((h.objects.build c kind).cmds k).responsed = false
    rcases hcases g hg with rfl | ⟨hlt, hneq⟩
    · obtain ⟨k, hk⟩ := List.exists_mem_of_ne_nil _ hne'
      have hok := (hi.built.build c kind).ok h.objects.groupCount (Nat.lt_succ_self _)
      refine ⟨k, hk, ?_⟩
      rw [hnew] at hk
      obtain ⟨i, hi', rfl⟩ := List.mem_range'.mp hk
      have hnot : ¬h.objects.cmdCount + 1 * i < h.objects.cmdCount := by omega
      show (if h.objects.cmdCount + 1 * i < h.objects.cmdCount then _ else _ : Cmd).responsed = _
      rw [if_neg hnot, Nat.one_mul, Nat.add_sub_cancel_left, List.getElem?_eq_getElem hi']
      rfl
    · rw [Objects.Pending, hold g hneq] at hp'
      rw [hold g hneq] at hne' ⊢
      obtain ⟨k, hk, hr⟩ := hi.waiting g hlt hp' hne'
      refine ⟨k, hk, ?_⟩
      rw [hgrows.cmds k ((hi.built.ok g hlt).owned k hk).2]
      exact hr
  · rw [show (h.act (.build c kind)).completed = h.completed from rfl, hi.completed g]
    show _ = if g < h.objects.groupCount + 1 ∧ ((h.objects.build c kind).groups g).kind.waitRemote = true ∧
      ((h.objects.build c kind).groups g).complete = true then 1 else 0
    by_cases heq : g = h.objects.groupCount
    · rw [heq, hnew, if_neg fun hlt => lt_irrefl _ hlt.1, if_neg fun hc => Bool.false_ne_true hc.2.2]
    · have hlt : g < h.objects.groupCount + 1 ↔ g < h.objects.groupCount :=
        Nat.lt_succ_iff_lt_or_eq.trans (or_iff_left heq)
      simp only [hold g heq, hlt]

theorem Inv.append (hi : h.Inv) (g₀ : GroupId) : (h.act (.append g₀)).Inv := by
  have halike := Objects.Alike.appendBufferTo g₀ h.objects
  obtain ⟨hcmds, -, -⟩ := Objects.appendBufferTo_cmds g₀ h.objects
  have hcomplete := fun g => Objects.appendBufferTo_complete g₀ g h.objects
  refine ⟨hi.built.appendBufferTo g₀, fun k hk => hi.spare k (halike.cmdCount ▸ hk), fun g hg i k d hk hd => ?_,
    fun g hg hp hne => ?_, fun g => ?_⟩
  · show Lives g d ((h.objects.appendBufferTo g₀).1.cmds k) (h.out k) (h.log k)
    rw [hcmds]
    refine hi.lives g (halike.groupCount ▸ hg) i k d ?_ ?_
    · rw [← halike.commands]
      exact hk
    · rw [← halike.kind]
      exact hd
  · obtain ⟨k, hk, hr⟩ := hi.waiting g (halike.groupCount ▸ hg) ((Objects.appendBufferTo_pending g₀ g h.objects).mp hp)
      (halike.commands g ▸ hne)
    refine ⟨k, (halike.commands g).symm ▸ hk, ?_⟩
    show ((h.objects.appendBufferTo g₀).1.cmds k).responsed = false
    rw [hcmds]
    exact hr
  · show h.completed.count g = if g < (h.objects.appendBufferTo g₀).1.groupCount ∧
      ((h.objects.appendBufferTo g₀).1.groups g).kind.waitRemote = true ∧
      ((h.objects.appendBufferTo g₀).1.groups g).complete = true then 1 else 0
    rw [halike.groupCount, halike.kind, hcomplete]
    exact hi.completed g

/-- A command that takes a step and waits for more. -/
theorem Inv.step (hi : h.Inv) (v : Cmd) (out : Bool) (es : List Entry) (hk : k < h.objects.cmdCount)
    (hg : v.group = (h.objects.cmds k).group) (hr : v.responsed = (h.objects.cmds k).responsed)
    (hlives : ∀ g d, Lives g d (h.objects.cmds k) (h.out k) (h.log k) → Lives g d v out es) :
    Inv ⟨h.objects.setCmd k v, Function.update h.out k out, Function.update h.log k es, h.completed⟩ := by
  refine ⟨hi.built.setCmd hg hr, fun j hj => ?_, fun g hlt i j d hj hd => ?_, fun g hlt hp hne => ?_, hi.completed⟩
  · have hne : j ≠ k := by
      rintro rfl
      exact absurd hk (Nat.not_lt_of_le hj)
    show Function.update h.out k out j = false ∧ Function.update h.log k es j = []
    rw [Function.update_of_ne hne, Function.update_of_ne hne]
    exact hi.spare j hj
  · show Lives g d ((h.objects.setCmd k v).cmds j) (Function.update h.out k out j) (Function.update h.log k es j)
    have hold := hi.lives g hlt i j d hj hd
    by_cases heq : j = k
    · subst heq
      rw [Objects.setCmd_self, Function.update_self, Function.update_self]
      exact hlives g d hold
    · rw [Objects.setCmd_of_ne _ heq, Function.update_of_ne heq, Function.update_of_ne heq]
      exact hold
  · obtain ⟨j, hj, hresp⟩ := hi.waiting g hlt hp hne
    exact ⟨j, hj, (Objects.setCmd_responsed hr j).trans hresp⟩

theorem Inv.select (hi : h.Inv) (hk : h.Open k) (hout : h.out k = false) : (h.select k).Inv := by
  have hstep := hi.step { h.objects.cmds k with selected := true } (h.out k) (h.log k) hk.1 rfl rfl
    fun g d hl => by
      rw [hout] at hl ⊢
      exact hl.mark hk.2
  rw [Function.update_eq_self, Function.update_eq_self] at hstep
  exact hstep

theorem Inv.send (hi : h.Inv) (hk : h.Open k) (hout : h.out k = false) : (h.act (.send k)).Inv :=
  hi.step { h.objects.cmds k with selected := true } _ _ hk.1 rfl rfl fun g d hl => by
    rw [hout] at hl
    exact hl.send hk.2

theorem Inv.lt_of_out (hi : h.Inv) (hout : h.out k = true) : k < h.objects.cmdCount := by
  by_contra hk
  rw [(hi.spare k (Nat.le_of_not_lt hk)).1] at hout
  cases hout

theorem Inv.retry (hi : h.Inv) (hout : h.out k = true) : (h.act (.retry k)).Inv := by
  have hstep := hi.step (h.objects.cmds k) false (h.log k ++ [.retried]) (hi.lt_of_out hout) rfl rfl
    fun g d hl => by
      rw [hout] at hl
      exact hl.retry
  have hsame : h.objects.setCmd k (h.objects.cmds k) = h.objects := by
    unfold Objects.setCmd
    rw [Function.update_eq_self]
  rw [hsame] at hstep
  exact hstep

/-- A group that has not got its last response waits for a command. -/
theorem waits_of_respond {o : Objects} {c : Cmd} (hok : o.GroupOk c.group)
    (hk : k ∈ (o.groups c.group).commands) (hu : (o.cmds k).responsed = false)
    (hp : (o.respond k c).1.Pending c.group) :
    ∃ j ∈ ((o.respond k c).1.groups c.group).commands, ((o.respond k c).1.cmds j).responsed = false := by
  obtain ⟨hok', hpend, hnotify⟩ := hok.respond hk hu rfl
  have hcalled : (o.respond k c).2 = false := by
    rw [← Bool.not_eq_true]
    exact fun hc => hnotify.mp hc hp
  have hgroup : (o.respond k c).1.groups c.group = (o.groups c.group).commandResponsed.1 := Objects.setGroup_self ..
  have hflag : (o.groups c.group).commandResponsed.2 = false := hcalled
  have hs : ∀ d, (o.groups c.group).kind ≠ .single d := by
    intro d hd
    rw [Group.commandResponsed, hd] at hflag
    cases hflag
  have hseveral := Group.commandResponsed_several hs hpend.1
  have hzero : (o.groups c.group).awaitingCount - 1 ≠ 0 := by
    intro h0
    rw [hseveral, if_pos h0] at hflag
    cases hflag
  have halike := Objects.Alike.respond o k c
  have hcounted := hok'.counted (by rw [halike.kind]; exact hs)
  rw [hgroup, hseveral, if_neg hzero] at hcounted
  dsimp only at hcounted
  by_contra hnone
  have hnil : (o.groups c.group).commands.filter (fun j => !((o.respond k c).1.cmds j).responsed) = [] := by
    rw [List.filter_eq_nil_iff]
    intro j hj
    rw [← halike.commands] at hj
    simpa using fun hr => hnone ⟨j, hj, hr⟩
  rw [hnil] at hcounted
  exact hzero hcounted

theorem Inv.last (hi : h.Inv) (hk : h.Open k) {rsp : Bytes} {error : Bool}
    (hlast : ((h.objects.cmds k).onRemoteResponsed rsp error).2 = true) : (h.answer k rsp error).Inv := by
  obtain ⟨hgroup, -, -⟩ := (h.objects.cmds k).onRemoteResponsed_same rsp error
  obtain ⟨hlt, hmem⟩ := hi.built.home k hk.1
  rw [answer_last hlast]
  have hlives : ∀ g d, Lives g d (h.objects.cmds k) (h.out k) (h.log k) →
      Lives g d { ((h.objects.cmds k).onRemoteResponsed rsp error).1 with responsed := true } false
        (h.log k ++ [.replied rsp error]) := fun g d hl => hl.last hk.2 hlast
  generalize ((h.objects.cmds k).onRemoteResponsed rsp error).1 = v at *
  have halike := Objects.Alike.respond h.objects k v
  have hcmds := Objects.respond_cmds (o := h.objects) hgroup
  have hok := hi.built.ok _ hlt
  obtain ⟨hok', hpend, hnotify⟩ := hok.respond hmem hk.2 hgroup
  have hothers : ∀ g < h.objects.groupCount, g ≠ v.group → Objects.SameOn h.objects (h.objects.respond k v).1 g :=
    fun g hg hne => Objects.respond_same hgroup (hi.built.ok g hg) hne
  refine ⟨hi.built.respond hmem hlt hk.2 hgroup, fun j hj => ?_, fun g hg i j d hj hd => ?_, fun g hg hp hne => ?_,
    fun g => ?_⟩
  · have hj' : h.objects.cmdCount ≤ j := by
      rw [← halike.cmdCount]
      exact hj
    have hne : j ≠ k := by
      rintro rfl
      exact absurd hk.1 (Nat.not_lt_of_le hj')
    show Function.update h.out k false j = false ∧ Function.update h.log k _ j = []
    rw [Function.update_of_ne hne, Function.update_of_ne hne]
    exact hi.spare j hj'
  · show Lives g d ((h.objects.respond k v).1.cmds j) (Function.update h.out k false j) (Function.update h.log k _ j)
    have hold := hi.lives g (halike.groupCount ▸ hg) i j d (halike.commands g ▸ hj) (halike.kind g ▸ hd)
    by_cases heq : j = k
    · subst heq
      rw [(hcmds j).2.2 rfl, Function.update_self, Function.update_self]
      exact hlives g d hold
    · rw [(hcmds j).2.1 heq, Function.update_of_ne heq, Function.update_of_ne heq]
      exact hold
  · have hg' : g < h.objects.groupCount := halike.groupCount ▸ hg
    by_cases heq : g = v.group
    · subst heq
      rw [← hgroup] at hok hmem
      exact waits_of_respond hok hmem hk.2 hp
    · have hsame := hothers g hg' heq
      obtain ⟨j, hj, hr⟩ := hi.waiting g hg' (hsame.pending.mp hp) (by rw [← halike.commands]; exact hne)
      refine ⟨j, (halike.commands g).symm ▸ hj, ?_⟩
      show ((h.objects.respond k v).1.cmds j).responsed = false
      rw [hsame.2 j hj]
      exact hr
  · show (if (h.objects.respond k v).2 = true then h.completed ++ [v.group] else h.completed).count g =
      if g < (h.objects.respond k v).1.groupCount ∧ ((h.objects.respond k v).1.groups g).kind.waitRemote = true ∧
        ((h.objects.respond k v).1.groups g).complete = true then 1 else 0
    have hcount := hi.completed g
    rw [halike.groupCount, halike.kind]
    by_cases heq : g = v.group
    · subst heq
      have hlt' : v.group < h.objects.groupCount := hgroup ▸ hlt
      have hpend' : h.objects.Pending v.group := hgroup ▸ hpend
      have hnotify' : (h.objects.respond k v).2 = true ↔ ¬(h.objects.respond k v).1.Pending v.group := hgroup ▸ hnotify
      rw [if_neg fun hc => by rw [hpend'.2] at hc; exact Bool.false_ne_true hc.2.2] at hcount
      have hwait : ((h.objects.respond k v).1.groups v.group).kind.waitRemote = true := by
        rw [halike.kind]
        exact hpend'.1
      split
      · rename_i hcalled
        have hcomp : ((h.objects.respond k v).1.groups v.group).complete = true := by
          by_contra hc
          exact hnotify'.mp hcalled ⟨hwait, by simpa using hc⟩
        rw [if_pos ⟨hlt', hpend'.1, hcomp⟩, List.count_append, hcount]
        simp
      · rename_i hcalled
        have hstill : (h.objects.respond k v).1.Pending v.group := by
          by_contra hnot
          exact hcalled (hnotify'.mpr hnot)
        rw [if_neg fun hc => by rw [hstill.2] at hc; exact Bool.false_ne_true hc.2.2, hcount]
    · have hother : (if (h.objects.respond k v).2 = true then h.completed ++ [v.group] else h.completed).count g =
          h.completed.count g := by
        split
        · rw [List.count_append, List.count_singleton, if_neg (by simpa using Ne.symm heq)]
          rfl
        · rfl
      rw [hother, hcount]
      by_cases hg : g < h.objects.groupCount
      · rw [(hothers g hg heq).1]
      · rw [if_neg fun hc => hg hc.1, if_neg fun hc => hg hc.1]

theorem Inv.answer (hi : h.Inv) (hk : h.Open k) (rsp : Bytes) (error : Bool) : (h.answer k rsp error).Inv := by
  cases hlast : ((h.objects.cmds k).onRemoteResponsed rsp error).2 with
  | true => exact hi.last hk hlast
  | false =>
      obtain ⟨hgroup, -, hresp⟩ := (h.objects.cmds k).onRemoteResponsed_same rsp error
      have hstep := hi.step _ _ _ hk.1 hgroup hresp fun g d hl => hl.again hk.2 hlast
      rw [answer_again hlast]
      exact hstep

theorem inv_act (hi : h.Inv) {a : Act} (ha : h.Due a) : (h.act a).Inv := by
  cases a with
  | build c kind => exact hi.build c kind
  | append g => exact hi.append g
  | mark k => exact hi.select ha.1 ha.2
  | send k => exact hi.send ha.1 ha.2
  | retry k => exact hi.retry ha
  | respond k rsp error => exact hi.answer ha.1 rsp error
  | clusterDown k => exact hi.answer ha.1 _ true

theorem Reached.inv (hr : h.Reached) : h.Inv :=
  Runs.Reachable.inv (I := Inv) hr inv_new fun _ _ hi ha => inv_act hi ha

/-! ### Groups -/

/-- A group is complete when the last of its commands has been answered. -/
theorem Inv.complete_iff (hi : h.Inv) (hg : g < h.objects.groupCount)
    (hw : (h.objects.groups g).kind.waitRemote = true) (hne : (h.objects.groups g).commands ≠ []) :
    (h.objects.groups g).complete = true ↔
      ∀ k ∈ (h.objects.groups g).commands, (h.objects.cmds k).responsed = true := by
  refine ⟨(hi.built.ok g hg).responsed, fun hall => ?_⟩
  by_contra hc
  obtain ⟨k, hk, hr⟩ := hi.waiting g hg ⟨hw, by simpa using hc⟩ hne
  rw [hall k hk] at hr
  cases hr

/-- The command at a place in a group is built from what stands at this place in the request. -/
theorem Inv.lives_of_mem (hi : h.Inv) (hg : g < h.objects.groupCount) (hk : k ∈ (h.objects.groups g).commands) :
    ∃ d ∈ (h.objects.groups g).kind.commands, Lives g d (h.objects.cmds k) (h.out k) (h.log k) := by
  obtain ⟨i, hi', heq⟩ := List.getElem_of_mem hk
  have hsize := (hi.built.ok g hg).size
  have hd : i < (h.objects.groups g).kind.commands.length := hsize ▸ hi'
  refine ⟨_, List.getElem_mem hd, hi.lives g hg i k _ ?_ (List.getElem?_eq_getElem hd)⟩
  rw [List.getElem?_eq_getElem hi', heq]

/-- Commands that need one response. -/
def OneSlots (cs : List DataCommand) : Prop := ∀ d ∈ cs, ∃ b slot, d = .oneSlot b slot

theorem Inv.replied (hi : h.Inv) (hg : g < h.objects.groupCount) (hone : OneSlots (h.objects.groups g).kind.commands)
    (hk : k ∈ (h.objects.groups g).commands) :
    ((h.objects.cmds k).responsed = false ∧ replies (h.log k) = []) ∨
      ((h.objects.cmds k).responsed = true ∧ ∃ error, replies (h.log k) = [((h.objects.cmds k).buffer, error)]) := by
  obtain ⟨d, hd, hl⟩ := hi.lives_of_mem hg hk
  obtain ⟨b, slot, rfl⟩ := hone d hd
  exact hl.oneSlot_replies

/-- A group of such commands has called `group_responsed` once all of them have a response. -/
theorem Inv.completed_iff (hi : h.Inv) (hg : g < h.objects.groupCount)
    (hw : (h.objects.groups g).kind.waitRemote = true) (hne : (h.objects.groups g).commands ≠ [])
    (hone : OneSlots (h.objects.groups g).kind.commands) :
    h.completed.count g = if ∀ k ∈ (h.objects.groups g).commands, replies (h.log k) ≠ [] then 1 else 0 := by
  have hiff : (g < h.objects.groupCount ∧ (h.objects.groups g).kind.waitRemote = true ∧
      (h.objects.groups g).complete = true) ↔ ∀ k ∈ (h.objects.groups g).commands, replies (h.log k) ≠ [] := by
    rw [and_iff_right hg, and_iff_right hw, hi.complete_iff hg hw hne]
    refine forall₂_congr fun k hk => ?_
    rcases hi.replied hg hone hk with ⟨hr, hnil⟩ | ⟨hr, error, hsome⟩
    · rw [hr, hnil]
      exact iff_of_false Bool.false_ne_true fun hne => hne rfl
    · rw [hr, hsome]
      exact iff_of_true rfl (List.cons_ne_nil _ _)
  rw [hi.completed g]
  simp only [hiff]

/-- The buffers of the commands are the responses. -/
theorem Inv.buffers (hi : h.Inv) (hg : g < h.objects.groupCount)
    (hone : OneSlots (h.objects.groups g).kind.commands) {rs : List (Bytes × Bool)}
    (hrs : ((h.objects.groups g).commands.map fun k => replies (h.log k)) = rs.map fun r => [r]) :
    ((h.objects.groups g).commands.map fun k => (h.objects.cmds k).buffer) = rs.map Prod.fst ∧
      ∀ k ∈ (h.objects.groups g).commands, replies (h.log k) ≠ [] := by
  have hsome : ∀ k ∈ (h.objects.groups g).commands, replies (h.log k) ≠ [] := by
    intro k hk
    have hmem : replies (h.log k) ∈ rs.map fun r => [r] := hrs ▸ List.mem_map_of_mem hk
    obtain ⟨r, -, hr⟩ := List.mem_map.mp hmem
    rw [← hr]
    exact List.cons_ne_nil _ _
  have hbuf : ∀ k ∈ (h.objects.groups g).commands,
      (h.objects.cmds k).buffer = ((replies (h.log k)).map Prod.fst).headD [] := by
    intro k hk
    rcases hi.replied hg hone hk with ⟨-, hnil⟩ | ⟨-, error, hreply⟩
    · exact absurd hnil (hsome k hk)
    · rw [hreply]
      rfl
  have hmap := congrArg (List.map fun l => (l.map Prod.fst).headD []) hrs
  rw [List.map_map, List.map_map] at hmap
  exact ⟨(List.map_congr_left hbuf).trans hmap, hsome⟩

end History

/-- The bytes `append_buffer_to` appends. -/
def Objects.appended (g : GroupId) (o : Objects) : Bytes :=
  ((o.appendBufferTo g).2.map (o.appendBufferTo g).1.content).flatten

theorem Objects.countOnes_eq (o : Objects) (ks : List CmdId) :
    o.countOnes ks = (ks.map fun k => (o.cmds k).buffer).countP fun b => chr '1' ∈ b := by
  rw [Objects.countOnes, List.countP_map, List.countP_eq_length_filter]
  rfl

/-- `:0` and `:1`, the responses to a `DEL` of one key. -/
def IsFlag (b : Bytes) : Prop := b = ascii ":0\r\n" ∨ b = ascii ":1\r\n"

theorem countP_flags {bs : List Bytes} (h : ∀ b ∈ bs, IsFlag b) :
    (bs.countP fun b => chr '1' ∈ b) = bs.count (ascii ":1\r\n") := by
  rw [List.count]
  refine List.countP_congr fun b hb => ?_
  rcases h b hb with rfl | rfl <;> decide

namespace History

variable {h : History} {g : GroupId}

/-- What is appended for a group of commands with one response each, when all have come. -/
theorem Inv.appended (hi : h.Inv) (hg : g < h.objects.groupCount)
    (hw : (h.objects.groups g).kind.waitRemote = true) (hne : (h.objects.groups g).commands ≠ [])
    (hone : OneSlots (h.objects.groups g).kind.commands) {rs : List (Bytes × Bool)}
    (hrs : ((h.objects.groups g).commands.map fun k => replies (h.log k)) = rs.map fun r => [r]) :
    h.completed.count g = 1 ∧ h.objects.appended g = h.objects.reply g ∧
      ((h.objects.groups g).commands.map fun k => (h.objects.cmds k).buffer) = rs.map Prod.fst := by
  obtain ⟨hbuf, hall⟩ := hi.buffers hg hone hrs
  have hcount := hi.completed_iff hg hw hne hone
  rw [if_pos hall] at hcount
  refine ⟨hcount, (hi.built.ok g hg).appended fun hp => ?_, hbuf⟩
  have hcomp := hi.completed g
  rw [hcount, if_neg fun hc => by rw [hp.2] at hc; exact Bool.false_ne_true hc.2.2] at hcomp
  cases hcomp

/-- Requests of several keys: in whatever order the responses to the commands come, and however
often the commands are tried again, the group calls `group_responsed` once, when the last response
has come; the reply to `MGET` then has the responses in the order of the keys, and that to `DEL`
counts the keys that were there. -/
theorem several_replies (hr : h.Reached) (hg : g < h.objects.groupCount) {cs : List DataCommand} (hne : cs ≠ [])
    (hone : OneSlots cs) (hkind : (h.objects.groups g).kind = .multiple cs ∨ (h.objects.groups g).kind = .del cs) :
    (h.objects.groups g).commands.length = cs.length ∧
    (∀ (i : ℕ) (k : CmdId) (d : DataCommand), (h.objects.groups g).commands[i]? = some k → cs[i]? = some d →
      (replies (h.log k)).length ≤ 1 ∧
        ∀ request slot, .sent request slot ∈ h.log k → request = d.buffer ∧ slot = d.slot) ∧
    h.completed.count g = (if ∀ k ∈ (h.objects.groups g).commands, replies (h.log k) ≠ [] then 1 else 0) ∧
    ∀ rs : List (Bytes × Bool),
      ((h.objects.groups g).commands.map fun k => replies (h.log k)) = (rs.map fun r => [r]) →
      ((h.objects.groups g).kind = .multiple cs → h.objects.appended g =
        chr '*' :: (decimal cs.length ++ crlf) ++ (rs.map Prod.fst).flatten) ∧
      ((h.objects.groups g).kind = .del cs → (∀ r ∈ rs, IsFlag r.1) → h.objects.appended g =
        chr ':' :: (decimal ((rs.map Prod.fst).count (ascii ":1\r\n")) ++ crlf)) := by
  have hi := hr.inv
  have hcs : (h.objects.groups g).kind.commands = cs := by
    rcases hkind with hk | hk <;> rw [hk] <;> rfl
  have hw : (h.objects.groups g).kind.waitRemote = true := by
    rcases hkind with hk | hk <;> rw [hk] <;> rfl
  have hone' : OneSlots (h.objects.groups g).kind.commands := by rw [hcs]; exact hone
  have hsize := (hi.built.ok g hg).size
  rw [hcs] at hsize
  have hne' : (h.objects.groups g).commands ≠ [] := by
    rw [← List.length_pos_iff, hsize]
    exact List.length_pos_iff.mpr hne
  refine ⟨hsize, fun i k d hk hd => ?_, hi.completed_iff hg hw hne' hone', fun rs hrs => ?_⟩
  · have hl := hi.lives g hg i k d hk (by rw [hcs]; exact hd)
    obtain ⟨b, slot, rfl⟩ := hone d (List.mem_of_getElem? hd)
    constructor
    · rcases hl.oneSlot_replies with ⟨-, hnil⟩ | ⟨-, error, hsome⟩
      · rw [hnil]
        exact Nat.zero_le _
      · rw [hsome]
        exact le_rfl
    · intro request slot' hmem
      have hsent : ∀ {out es}, Attempts b slot out es → .sent request slot' ∈ es → request = b ∧ slot' = slot := by
        intro out es ha he
        rcases ha.sent_eq _ he with heq | heq
        · exact Entry.sent.inj heq
        · cases heq
      obtain ⟨-, -, ⟨-, -, ha⟩ | ⟨-, -, es', out', rsp, error, hes, ha, -⟩⟩ := hl.oneSlot
      · exact hsent ha hmem
      · rw [hes] at hmem
        rcases List.mem_append.mp hmem with hmem | hmem
        · exact hsent ha hmem
        · cases List.mem_singleton.mp hmem
  · obtain ⟨-, happ, hbuf⟩ := hi.appended hg hw hne' hone' hrs
    rw [happ]
    constructor
    · intro hmulti
      simp only [Objects.reply, hmulti, hbuf, hsize]
      rfl
    · intro hdel hflags
      have hcount : h.objects.countOnes (h.objects.groups g).commands = (rs.map Prod.fst).count (ascii ":1\r\n") := by
        rw [Objects.countOnes_eq, hbuf]
        refine countP_flags fun b hb => ?_
        obtain ⟨r, hr, rfl⟩ := List.mem_map.mp hb
        exact hflags r hr
      simp only [Objects.reply, hdel, hcount]
      rfl

/-- An `MGET` of two keys; the second one is answered first, and the first one is tried again. -/
def mgetRun : List Act :=
  [.build 0 (.multiple [.oneSlot (encodeRequest [ascii "GET", ascii "a"]) 15495,
    .oneSlot (encodeRequest [ascii "GET", ascii "b"]) 3300]),
    .send 0, .send 1, .respond 1 (ascii "$1\r\ny\r\n") false, .retry 0, .send 0,
    .respond 0 (ascii "$1\r\nx\r\n") false]

theorem several_replies_mget :
    (mgetRun.foldl act new).completed.count 0 = 1 ∧
    (mgetRun.foldl act new).objects.appended 0 = ascii "*2\r\n$1\r\nx\r\n$1\r\ny\r\n" := by
  have hr : (mgetRun.foldl act new).Reached := Runs.Reachable.run _ .refl (by decide +kernel)
  have hone : OneSlots [.oneSlot (encodeRequest [ascii "GET", ascii "a"]) 15495,
      .oneSlot (encodeRequest [ascii "GET", ascii "b"]) 3300] := by
    intro d hd
    simp only [List.mem_cons, List.not_mem_nil, or_false] at hd
    rcases hd with rfl | rfl <;> exact ⟨_, _, rfl⟩
  obtain ⟨-, -, hcount, hreply⟩ := several_replies hr (g := 0) (by decide +kernel) (List.cons_ne_nil _ _) hone
    (Or.inl (by decide +kernel))
  refine ⟨hcount.trans (by decide +kernel), ?_⟩
  exact ((hreply [(ascii "$1\r\nx\r\n", false), (ascii "$1\r\ny\r\n", false)] (by decide +kernel)).1
    (by decide +kernel)).trans (by decide +kernel)

/-- An error reply. -/
def IsError (b : Bytes) : Prop := b.head? = some (chr '-')

/-- The errors of the commands of `MSET` and `DEL` are not reported: the reply says so just if there
are none. -/
theorem masked_iff (hr : h.Reached) (hg : g < h.objects.groupCount) {cs : List DataCommand} (hne : cs ≠ [])
    (hone : OneSlots cs) (hkind : (h.objects.groups g).kind = .mset cs ∨ (h.objects.groups g).kind = .del cs)
    (rs : List (Bytes × Bool))
    (hrs : ((h.objects.groups g).commands.map fun k => replies (h.log k)) = rs.map fun r => [r]) :
    h.completed.count g = 1 ∧
    (((∃ r ∈ rs, IsError r.1) → IsError (h.objects.appended g)) ∧
      ((h.objects.groups g).kind = .mset cs → h.objects.appended g = rspOkStr → ∀ r ∈ rs, ¬IsError r.1) ↔
      ∀ r ∈ rs, ¬IsError r.1) := by
  have hi := hr.inv
  have hcs : (h.objects.groups g).kind.commands = cs := by
    rcases hkind with hk | hk <;> rw [hk] <;> rfl
  have hw : (h.objects.groups g).kind.waitRemote = true := by
    rcases hkind with hk | hk <;> rw [hk] <;> rfl
  have hne' : (h.objects.groups g).commands ≠ [] := by
    rw [← List.length_pos_iff, (hi.built.ok g hg).size, hcs]
    exact List.length_pos_iff.mpr hne
  obtain ⟨hcount, happ, -⟩ := hi.appended hg hw hne' (by rw [hcs]; exact hone) hrs
  have hnot : ¬IsError (h.objects.appended g) := by
    rw [happ]
    rcases hkind with hk | hk
    · simp only [Objects.reply, hk]
      unfold IsError
      decide
    · simp only [Objects.reply, hk, IsError]
      exact fun heq => absurd (Option.some.inj heq) (by decide)
  refine ⟨hcount, fun hreport r hmem herr => hnot (hreport.1 ⟨r, hmem, herr⟩), fun hnone => ⟨?_, fun _ _ => hnone⟩⟩
  rintro ⟨r, hmem, herr⟩
  exact absurd herr (hnone r hmem)

instance (b : Bytes) : Decidable (IsError b) := inferInstanceAs (Decidable (_ = _))

/-- An `MSET` of two keys; one is stored, and the cluster is down for the other. -/
def msetRun : List Act :=
  [.build 0 (.mset [.oneSlot (encodeRequest [ascii "SET", ascii "a", ascii "x"]) 15495,
    .oneSlot (encodeRequest [ascii "SET", ascii "b", ascii "y"]) 3300]),
    .send 0, .send 1, .respond 0 (ascii "+OK\r\n") false, .retry 1, .clusterDown 1]

theorem masked_iff_mset :
    ¬(((∃ r ∈ [(ascii "+OK\r\n", false), (World.clusterDownRsp, true)], IsError r.1) →
        IsError ((msetRun.foldl act new).objects.appended 0)) ∧
      (((msetRun.foldl act new).objects.groups 0).kind =
          .mset [.oneSlot (encodeRequest [ascii "SET", ascii "a", ascii "x"]) 15495,
            .oneSlot (encodeRequest [ascii "SET", ascii "b", ascii "y"]) 3300] →
        (msetRun.foldl act new).objects.appended 0 = rspOkStr →
        ∀ r ∈ [(ascii "+OK\r\n", false), (World.clusterDownRsp, true)], ¬IsError r.1)) := by
  have hr : (msetRun.foldl act new).Reached := Runs.Reachable.run _ .refl (by decide +kernel)
  have hone : OneSlots [.oneSlot (encodeRequest [ascii "SET", ascii "a", ascii "x"]) 15495,
      .oneSlot (encodeRequest [ascii "SET", ascii "b", ascii "y"]) 3300] := by
    intro d hd
    simp only [List.mem_cons, List.not_mem_nil, or_false] at hd
    rcases hd with rfl | rfl <;> exact ⟨_, _, rfl⟩
  have hiff := (masked_iff hr (g := 0) (by decide +kernel) (List.cons_ne_nil _ _) hone (Or.inl (by decide +kernel))
    [(ascii "+OK\r\n", false), (World.clusterDownRsp, true)] (by decide +kernel)).2
  rw [hiff]
  exact fun hnone => hnone _ (List.mem_cons_of_mem _ List.mem_cons_self) (by decide)

/-- The same at the client: it reads the request, the responses come, and `+OK` is written. -/
theorem masked_mset :
    Runs.Along act Due new msetRun ∧
    replies ((msetRun.foldl act new).log 1) = [(World.clusterDownRsp, true)] ∧ IsError World.clusterDownRsp ∧
    (msetRun.foldl act new).objects.appended 0 = ascii "+OK\r\n" ∧
    ([.onEvents (some ⟨encodeRequest [ascii "MSET", ascii "a", ascii "x", ascii "b", ascii "y"], .again, 0⟩) none,
      .respond 0 (ascii "+OK\r\n") false, .respond 1 World.clusterDownRsp true,
      .onEvents none (some [.took 100])].foldl (Session.next Session.plainEnv)
        (Session.connected 0 .empty)).sent = ascii "+OK\r\n" := by
  decide +kernel

/-- A `RENAME` across slots asks for the value under the old key, then stores it under the new one,
and then deletes the old key, each again only when it has come back; the next request follows only
when there is a value and no error.  There is one reply: the error of the first or the second
request, that there is no such key, or `+OK` when the third request has been answered. -/
theorem rename_steps (hr : h.Reached) (hg : g < h.objects.groupCount) {oldKey newKey : Bytes}
    (hkind : (h.objects.groups g).kind =
      .single (.rename (encodeBulk oldKey) (encodeBulk newKey) (keySlot oldKey) (keySlot newKey))) :
    (∃ k reply, (h.objects.groups g).commands = [k] ∧
      Renaming ⟨encodeBulk oldKey, encodeBulk newKey, keySlot oldKey, keySlot newKey⟩ reply (h.out k) (h.log k) ∧
      h.completed.count g = (if reply.isSome then 1 else 0) ∧
      ∀ b, reply = some b → h.objects.appended g = b) ∧
    getHeader ++ encodeBulk oldKey = encodeRequest [ascii "GET", oldKey] ∧
    (∀ value, setHeader ++ encodeBulk newKey ++ encodeBulk value = encodeRequest [ascii "SET", newKey, value]) ∧
    delHeader ++ encodeBulk oldKey = encodeRequest [ascii "DEL", oldKey] := by
  have hi := hr.inv
  refine ⟨?_, EachKey.commandHeader_eq .mget oldKey, fun value => ?_, EachKey.commandHeader_eq .del oldKey⟩
  · have hok := hi.built.ok g hg
    have hsize := hok.size
    rw [hkind] at hsize
    obtain ⟨k, hk⟩ := List.length_eq_one_iff.mp hsize
    have hw : (h.objects.groups g).kind.waitRemote = true := by rw [hkind]; rfl
    have hcomp := hi.complete_iff hg hw (by rw [hk]; exact List.cons_ne_nil _ _)
    rw [hk] at hcomp
    have hcount := hi.completed g
    have hl := hi.lives g hg 0 k (.rename (encodeBulk oldKey) (encodeBulk newKey) (keySlot oldKey) (keySlot newKey))
      (by rw [hk]; rfl) (by rw [hkind]; rfl)
    rcases hl.rename with ⟨hresp, hwait⟩ | ⟨hresp, -, hdone⟩
    · refine ⟨k, none, hk, hwait.toRenaming, ?_, nofun⟩
      have hnot : (h.objects.groups g).complete ≠ true := fun hc => by
        rw [hcomp.mp hc k List.mem_cons_self] at hresp
        cases hresp
      rw [hcount, if_neg fun hc => hnot hc.2.2]
      rfl
    · have hc : (h.objects.groups g).complete = true := hcomp.mpr fun j hj => by
        rw [List.mem_singleton.mp hj]
        exact hresp
      refine ⟨k, some (h.objects.cmds k).buffer, hk, hdone, ?_, fun b hb => ?_⟩
      · rw [hcount, if_pos ⟨hg, hw, hc⟩]
        rfl
      · have happ : h.objects.appended g = h.objects.reply g :=
          hok.appended fun hp => by
            rw [hp.2] at hc
            cases hc
        rw [happ, ← Option.some.inj hb]
        simp [Objects.reply, hkind, hk]
  · rw [List.append_assoc]
    exact setHeader_eq newKey value

/-- The value of `a` is stored under `b` at the second attempt. -/
def renameRun : List Act :=
  [.build 0 (.single (.rename (encodeBulk (ascii "a")) (encodeBulk (ascii "b")) (keySlot (ascii "a"))
      (keySlot (ascii "b")))),
    .send 0, .respond 0 (ascii "$1\r\nx\r\n") false, .send 0, .retry 0, .send 0,
    .respond 0 (ascii "+OK\r\n") false, .send 0, .respond 0 (ascii ":1\r\n") false]

theorem rename_steps_twice :
    (∃ k reply, ((renameRun.foldl act new).objects.groups 0).commands = [k] ∧
      Renaming ⟨encodeBulk (ascii "a"), encodeBulk (ascii "b"), keySlot (ascii "a"), keySlot (ascii "b")⟩ reply
        ((renameRun.foldl act new).out k) ((renameRun.foldl act new).log k) ∧
      (renameRun.foldl act new).completed.count 0 = (if reply.isSome then 1 else 0) ∧
      ∀ b, reply = some b → (renameRun.foldl act new).objects.appended 0 = b) ∧
    (renameRun.foldl act new).objects.appended 0 = ascii "+OK\r\n" ∧
    (renameRun.foldl act new).log 0 =
      [.sent (ascii "*2\r\n$3\r\nGET\r\n$1\r\na\r\n") 15495, .replied (ascii "$1\r\nx\r\n") false,
        .sent (ascii "*3\r\n$3\r\nSET\r\n$1\r\nb\r\n$1\r\nx\r\n") 3300, .retried,
        .sent (ascii "*3\r\n$3\r\nSET\r\n$1\r\nb\r\n$1\r\nx\r\n") 3300,
        .replied (ascii "+OK\r\n") false,
        .sent (ascii "*2\r\n$3\r\nDEL\r\n$1\r\na\r\n") 15495, .replied (ascii ":1\r\n") false] :=
  ⟨(rename_steps (Runs.Reachable.run _ .refl (by decide +kernel)) (g := 0) (by decide +kernel) (by decide +kernel)).1,
    by decide +kernel, by decide +kernel⟩

end History

end Cerberus
