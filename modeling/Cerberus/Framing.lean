import Cerberus.Chronicles

/-! # Every reply is one message

A client reads the replies from one stream of bytes, and nothing but their form says where one ends
and the next begins.  If the backends send messages, every reply is one message, whoever made it and
whatever the other clients do meanwhile (`World.replies_framed`), so reading the stream gives the
replies again. -/

namespace Cerberus

open Frames

/-! ### Messages -/

/-- The bytes are the tokens of one message. -/
def IsMessage (b : Bytes) : Prop := ∃ ts, Lexes b ts [] ∧ Closes [] (ts.map Prod.fst)

theorem isMessage_encode {v : Resp} (h : v.WellFormed) : IsMessage v.encode := by
  have hlex := Resp.lexes h []
  rw [List.append_nil] at hlex
  exact ⟨v.tokens, hlex, Resp.closes h⟩

theorem countDown_append : ∀ st st' : List ℤ, Splitter.countDown (st ++ st') =
    if (Splitter.countDown st).2 then Splitter.countDown st' else ((Splitter.countDown st).1 ++ st', false)
  | [], _ => rfl
  | n :: st, st' => by
      rw [List.cons_append, Splitter.countDown, Splitter.countDown]
      split
      · exact countDown_append st st'
      · rfl

theorem kindStep_append (st st' : List ℤ) (k : Kind) : kindStep (st ++ st') k =
    if (kindStep st k).2 then Splitter.countDown st' else ((kindStep st k).1 ++ st', false) := by
  cases k with
  | arr size =>
      by_cases hzero : size = 0
      · simp only [kindStep, if_pos hzero]
        exact countDown_append st st'
      · simp only [kindStep, if_neg hzero]
        rfl
  | int => exact countDown_append st st'
  | str s => exact countDown_append st st'
  | nil => exact countDown_append st st'
  | err s => exact countDown_append st st'

/-- What closes is an element wherever it stands. -/
theorem Closes.append {st st' : List ℤ} {ks ks' : List Kind} (h : Closes st ks) (h' : Resp.ClosesAfter st' ks') :
    Closes (st ++ st') (ks ++ ks') := by
  induction h with
  | last hk =>
      rw [List.singleton_append, closes_cons, kindStep_append, if_pos hk]
      exact h'
  | cons hk _ ih =>
      rw [List.cons_append, closes_cons, kindStep_append, if_neg (by rw [hk]; exact Bool.false_ne_true)]
      exact Or.inr ⟨rfl, ih⟩

theorem readMessage_lexes {l rest : Bytes} {ts : List RawToken} (hlex : Lexes l ts rest)
    (hc : Closes [] (ts.map Prod.fst)) (rs : List Response) :
    (messageReader responseSplitter_framed).read l rs =
      .whole (rawBytes ts).length (rs ++ [responseOf (rawBytes ts) (lastErrorOf [] ts)]) := by
  have hl := hlex.bytes
  show readMessage _ _ _ _ _ = _
  rw [readMessage_tokens responseSplitter_framed rs hlex hc]
  simp only [messageResult, ResponseSplitter.fresh]
  rw [hookRun_response ts 0 [] [] rs le_rfl hlex, zero_add]
  simp only [Except.bind]
  rw [onSplitPoint_response (by rw [hl, List.length_append]; omega)]
  simp [hl]

theorem IsMessage.read {b : Bytes} (h : IsMessage b) (m : Bytes) (rs : List Response) :
    ∃ rs', (messageReader responseSplitter_framed).read (b ++ m) rs = .whole b.length rs' := by
  obtain ⟨ts, hlex, hc⟩ := h
  have hb : b = rawBytes ts := by rw [hlex.bytes, List.append_nil]
  rw [hb]
  exact ⟨_, readMessage_lexes (lexes_of_isToken hlex.isToken m) hc rs⟩

/-- The bytes of a response, if it is not to be tried again. -/
def Response.Whole : Response → Prop
  | .normal rsp _ => IsMessage rsp
  | .retryMovedAsk => True

/-- Without lengths below zero, the responses of a backend are the messages it has sent. -/
theorem splitServerResponse_messages {buf rest : Bytes} {guard : Byte} {rsps : List Response}
    (hL : LengthsOk guard buf) (h : splitServerResponse buf guard = .split rest rsps) : ∀ r ∈ rsps, r.Whole := by
  have hF := responseSplitter_framed
  have hdrain : ∀ r ∈ (drain (messageReader hF) buf []).out, r.Whole := by
    refine ((drain_out_iff (R := messageReader hF) (P := fun rs => ∀ r ∈ rs, r.Whole) (Q := fun _ => True) ?_ ?_
      buf []).mpr ⟨nofun, fun _ _ => trivial⟩)
    · intro l rs n rs' hread
      obtain ⟨ts, hlex, hc, hraw⟩ := readMessage_closes hF hread
      have hmsg : IsMessage (rawBytes ts) := ⟨ts, hlex.alone, hc⟩
      rw [readMessage_lexes hlex hc rs] at hread
      cases hread
      rw [and_true]
      refine ⟨fun h r hr => h r (List.mem_append_left _ hr), fun h r hr => ?_⟩
      rcases List.mem_append.mp hr with hr | hr
      · exact h r hr
      · rw [List.mem_singleton.mp hr, responseOf]
        split
        · trivial
        · exact hmsg
    · intro l rs e rs' hread
      rw [readMessage_stop hF hread]
  have hsplit := splitBy_drain hF hL []
  unfold splitServerResponse at h
  cases hs : (drain (messageReader hF) buf []).stopped with
  | none =>
      rw [hs] at hsplit
      obtain ⟨s, hrun, -, hout⟩ := hsplit
      rw [show splitBy responseSplitter buf guard (fuelFor buf) (.new 0 ⟨[], []⟩) = _ from hrun] at h
      cases h
      rw [hout]
      exact hdrain
  | some e =>
      rw [hs] at hsplit
      obtain ⟨s, hrun, -⟩ := hsplit
      rw [show splitBy responseSplitter buf guard (fuelFor buf) (.new 0 ⟨[], []⟩) = _ from hrun] at h
      cases h

/-! ### The replies of the proxy -/

/-- What a command holds when it has been answered. -/
theorem Cmd.answered_buffer {c : Cmd} {rsp : Bytes} {error : Bool} (h : (c.onRemoteResponsed rsp error).2 = true) :
    (c.onRemoteResponsed rsp error).1.buffer = rsp ∨ (c.onRemoteResponsed rsp error).1.buffer = noSuchKey ∨
      (c.onRemoteResponsed rsp error).1.buffer = rspOkStr := by
  unfold Cmd.onRemoteResponsed at h ⊢
  cases hon : c.onRsp with
  | swap => exact Or.inl rfl
  | get r =>
      rw [hon] at h
      dsimp only at h ⊢
      cases error with
      | true => exact Or.inl rfl
      | false =>
          rw [if_neg Bool.false_ne_true] at h ⊢
          split at h
          · rename_i hnil
            rw [if_pos hnil]
            exact Or.inr (Or.inl rfl)
          · cases h
  | set r =>
      rw [hon] at h
      dsimp only at h ⊢
      cases error with
      | true => exact Or.inl rfl
      | false => cases h
  | del => exact Or.inr (Or.inr rfl)

namespace History

variable {env : Env} {P : Bytes → Bool → Prop} {h : History}

/-- The commands that have been answered hold messages. -/
def Whole (h : History) : Prop :=
  ∀ k < h.objects.cmdCount, (h.objects.cmds k).responsed = true → IsMessage (h.objects.cmds k).buffer

theorem isMessage_answered {c : Cmd} {rsp : Bytes} {error : Bool} (hrsp : IsMessage rsp)
    (h : (c.onRemoteResponsed rsp error).2 = true) : IsMessage (c.onRemoteResponsed rsp error).1.buffer := by
  rcases Cmd.answered_buffer h with heq | heq | heq
  · rw [heq]
    exact hrsp
  · rw [heq]
    exact isMessage_encode (v := .error (ascii "ERR no such key")) (show CR ∉ ascii "ERR no such key" by decide)
  · rw [heq]
    exact isMessage_encode (v := .simple (ascii "OK")) (show CR ∉ ascii "OK" by decide)

theorem Whole.act (hw : h.Whole) {a : Act} (hd : h.Due a)
    (ha : ∀ k rsp error, a.answers = some (k, rsp, error) → IsMessage rsp) : (h.act a).Whole := by
  intro j hj hresp
  -- a command that is new has not been answered
  have hlt : j < h.objects.cmdCount := by
    obtain ⟨c, kind, rfl⟩ | ho := act_cases a h
    · by_contra hge
      have hnew : ((h.objects.build c kind).cmds j).responsed = false := by
        refine (Objects.build_new c kind h.objects).2.2 j ?_
        show j ∈ (Function.update h.objects.groups h.objects.groupCount _ h.objects.groupCount).commands
        rw [Function.update_self]
        exact List.mem_range'_1.mpr ⟨Nat.le_of_not_lt hge, hj⟩
      rw [show (h.act (.build c kind)).objects = h.objects.build c kind from rfl, hnew] at hresp
      cases hresp
    · exact ho.cmdCount ▸ hj
  by_cases hans : ∃ rsp error, a.answers = some (j, rsp, error)
  · obtain ⟨rsp, error, hans⟩ := hans
    rw [act_answers hans, answer_cmd] at hresp ⊢
    split at hresp
    · rename_i hlast
      rw [if_pos hlast]
      exact isMessage_answered (ha j rsp error hans) hlast
    · rw [(Cmd.onRemoteResponsed_same ..).2.2, (open_of_answers hd hans).2] at hresp
      cases hresp
  · have hsame := act_same hlt fun rsp error heq => hans ⟨rsp, error, heq⟩
    rw [hsame.buffer]
    rw [hsame.responsed] at hresp
    exact hw j hlt hresp

theorem Lived.whole (hl : h.Lived env P) (hP : ∀ rsp error, P rsp error → IsMessage rsp) : h.Whole := by
  refine hl.inv (I := Whole) (fun k hk => absurd hk (Nat.not_lt_zero k)) fun h a hw ha => hw.act ha.1 fun k rsp error heq => ?_
  cases a with
  | respond k' rsp' error' =>
      obtain ⟨-, hrest⟩ := Prod.mk.inj (Option.some.inj heq)
      obtain ⟨rfl, -⟩ := Prod.mk.inj hrest
      exact hP _ _ ha.2
  | clusterDown k' =>
      obtain ⟨-, hrest⟩ := Prod.mk.inj (Option.some.inj heq)
      obtain ⟨rfl, -⟩ := Prod.mk.inj hrest
      exact isMessage_encode (v := .error (ascii "CLUSTERDOWN The cluster is down"))
        (show CR ∉ ascii "CLUSTERDOWN The cluster is down" by decide)
  | build c kind => cases heq
  | append g => cases heq
  | mark k' => cases heq
  | send k' => cases heq
  | retry k' => cases heq

end History

namespace World

variable {cfg : Config} {w : World}

/-- What a backend is found to have sent has no length below zero. -/
def Spoken (w : World) : Step → Prop
  | .event (.server s _ (some inp) _) => LengthsOk inp.guard ((w.servers s).buffer ++ inp.bytes)
  | _ => True

/-- The states of the runs in which the backends keep to the protocol. -/
abbrev Fluent (cfg : Config) (w : World) : Prop :=
  Runs.Reachable (fun w st => (w.step cfg st).1) (fun w st => (w.step cfg st).2 = none ∧ w.Spoken st) (new cfg) w

theorem mem_deliveries : ∀ {sent : List (Option CmdId)} {rsps : List Response} {p : CmdId × Response},
    p ∈ Server.deliveries sent rsps → p.2 ∈ rsps
  | some k :: sent, r :: rsps, p, h => by
      rcases List.mem_cons.mp h with rfl | h
      · exact List.mem_cons_self
      · exact List.mem_cons_of_mem _ (mem_deliveries h)
  | none :: sent, r :: rsps, p, h => List.mem_cons_of_mem _ (@mem_deliveries sent rsps p h)
  | [], _, _, h => by cases h
  | some _ :: _, [], _, h => by cases h
  | none :: _, [], _, h => by cases h

theorem Spoken.hears {st : Step} (h : w.Spoken st) : w.Hears (fun rsp _ => IsMessage rsp) st := by
  unfold Hears
  split
  · rename_i s _ inp _
    intro rsps heq k rsp error hmem
    unfold Server.recvFrom at heq
    split at heq
    · cases heq
    · rename_i buf hbuf
      split at heq
      · cases heq
      · split at heq
        · cases heq
        · rename_i rest all hsplit
          split at heq
          · cases heq
          · cases heq
            have hbuf' : (w.servers s).buffer ++ inp.bytes = buf := congrArg Prod.fst hbuf
            exact splitServerResponse_messages (hbuf' ▸ h) hsplit _ (mem_deliveries hmem)
  · trivial

theorem Fluent.heard (hw : Fluent cfg w) : Heard cfg (fun rsp _ => IsMessage rsp) w :=
  hw.mono fun _ _ hst => ⟨hst.1, hst.2.hears⟩

end World

end Cerberus
