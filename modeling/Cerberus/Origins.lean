import Cerberus.Histories
import Cerberus.Forward

/-! # Where the groups of a history come from

A group is built when the parser of a client pushes it, and a response is what a backend has been
found to send.  `History.Lived` are the histories in which this is so, for a mode of the parser and
a property of responses; they are what the proxy can do to its commands (`World.Heard.lived`). -/

namespace Cerberus

/-! ### What every token keeps -/

section Keeps

variable {σ : Type} {H : Hooks σ} {buf : Bytes} {guard : Byte} {I : ℤ → σ → Prop}

/-- The call that a token makes into the final type. -/
def Token.hook (H : Hooks σ) (buf : Bytes) (empty : Bool) (f : σ) : Token → Except Stop σ
  | .str first next => H.onString buf first (next - lengthOfCrLf) f
  | .err first next => H.onError buf first (next - lengthOfCrLf) f
  | .arr size _ => H.onArray empty size f
  | _ => .ok f

/-- A property of the position and the final type that every call keeps, wherever the parser may
have got to. -/
structure Hooks.Keeps (H : Hooks σ) (buf : Bytes) (guard : Byte) (I : ℤ → σ → Prop) : Prop where
  token : ∀ {pos t empty f f'}, I pos f → tokenAt buf guard pos = .ok t → t.hook H buf empty f = .ok f' → I t.next f'
  splitPoint : ∀ {back next f f'}, I next f → H.onSplitPoint buf back next f = .ok f' → I next f'

/-- The property holds at the position of the result, or did somewhere before the exception. -/
def Leaves {α : Type} (I : ℤ → σ → Prop) (reach : α → ℤ) : Result (Splitter σ) α → Prop
  | .ok a s => I (reach a) s.final
  | .throw _ s => ∃ p, I p s.final

theorem Leaves.bind {α β : Type} {reach : α → ℤ} {reach' : β → ℤ} {r : Result (Splitter σ) α}
    {k : α → Splitter σ → Result (Splitter σ) β} (hr : Leaves I reach r)
    (hk : ∀ a s, I (reach a) s.final → Leaves I reach' (k a s)) : Leaves I reach' (r.bind k) := by
  cases r with
  | ok a s => exact hk a s hr
  | throw e s => exact hr

theorem Leaves.hook {pos next : ℤ} {s : Splitter σ} {r : Except Stop σ} (h : I pos s.final)
    (hr : ∀ f, r = .ok f → I next f) : Leaves I (fun _ => next) (s.hook r) := by
  cases r with
  | ok f => exact hr f rfl
  | error e => exact ⟨pos, h⟩

theorem Hooks.Keeps.onElement (hK : H.Keeps buf guard I) {next : ℤ} {s : Splitter σ} (h : I next s.final) :
    Leaves I (fun _ => next) (s.onElement H buf next) := by
  have hsplit : ∀ (s : Splitter σ) back, I next s.final →
      Leaves I (fun _ => next) (s.hook (H.onSplitPoint buf back next s.final)) :=
    fun s back hs => Leaves.hook hs fun f hf => hK.splitPoint hs hf
  unfold Splitter.onElement
  dsimp only
  split
  · refine Leaves.bind (hsplit _ _ h) fun _ _ ht => ?_
    exact ht
  · exact h

theorem Hooks.Keeps.onToken (hK : H.Keeps buf guard I) {pos : ℤ} {t : Token} {s : Splitter σ} (h : I pos s.final)
    (ht : tokenAt buf guard pos = .ok t) : Leaves I id (onToken H buf t s) := by
  have hnext : ∀ empty {f}, t.hook H buf empty s.final = .ok f → I t.next f := fun _ _ hf => hK.token h ht hf
  have hend : ∀ {next : ℤ} (s : Splitter σ), I next s.final →
      Leaves I id ((s.onElement H buf next).bind fun _ s => .ok next s) :=
    fun s hs => (hK.onElement hs).bind fun _ _ ht => ht
  cases t with
  | int next => exact hend s (hnext true rfl)
  | nil next => exact hend s (hnext true rfl)
  | str first next =>
      refine (Leaves.hook (s := s.record _) h fun f hf => ?_).bind fun _ u hu => hend u hu
      exact hnext true hf
  | err first next =>
      refine (Leaves.hook (s := s.record _) h fun f hf => ?_).bind fun _ u hu => hend u hu
      exact hnext true hf
  | arr size next =>
      unfold Cerberus.onToken Splitter.onArr
      refine Leaves.bind (Leaves.bind (Leaves.hook h fun f hf => hnext _ hf) fun _ u hu => ?_) fun _ _ hv => hv
      split
      · exact hK.onElement hu
      · exact hu

/-- By induction on the fuel: both functions of the recursion keep the property. -/
theorem Hooks.Keeps.parse (hK : H.Keeps buf guard I) : ∀ fuel : ℕ,
    (∀ pos s, I pos (Splitter.final s) → Leaves I id (parse H buf guard fuel pos s)) ∧
    (∀ count pos s, I pos (Splitter.final s) → Leaves I id (parseElements H buf guard fuel count pos s))
  | 0 => by
      refine ⟨fun pos s h => ?_, fun count pos s h => ?_⟩
      · rw [Cerberus.parse]
        exact ⟨pos, h⟩
      · rw [parseElements]
        exact ⟨pos, h⟩
  | fuel + 1 => by
      obtain ⟨ihp, ihe⟩ := Hooks.Keeps.parse hK fuel
      refine ⟨fun pos s h => ?_, fun count pos s h => ?_⟩
      · by_cases hp : pos = buf.length
        · rw [Cerberus.parse, if_pos hp]
          exact h
        · rw [parse_succ fuel pos s hp]
          have hdeep : Leaves I id ((Result.lift s (tokenAt buf guard pos)).bind (onTokenDeep H buf guard fuel)) := by
            cases ht : tokenAt buf guard pos with
            | error e => exact ⟨pos, h⟩
            | ok t =>
                have hstep := hK.onToken h ht
                cases t with
                | arr size next =>
                    show Leaves I id (onTokenDeep H buf guard fuel (.arr size next) s)
                    rw [onTokenDeep_arr]
                    exact hstep.bind fun next u hu => ihe size next u hu
                | int next => exact hstep
                | str first next => exact hstep
                | nil next => exact hstep
                | err first next => exact hstep
          exact hdeep.bind fun next t ht => ht
      · rw [parseElements]
        split
        · exact (ihp pos s h).bind fun pos u hu => ihe (count - 1) pos u hu
        · exact h

theorem Hooks.Keeps.splitLoop (hK : H.Keeps buf guard I) : ∀ (fuel : ℕ) {pos : ℤ} {s : Splitter σ}, I pos s.final →
    ∃ p, I p (splitLoop H buf guard fuel pos s).state.final
  | 0, pos, _, h => ⟨pos, h⟩
  | fuel + 1, pos, s, h => by
      rw [Cerberus.splitLoop]
      split
      · exact ⟨pos, h⟩
      · have hparse := (hK.parse fuel).1 pos s h
        cases hr : Cerberus.parse H buf guard fuel pos s with
        | ok next t =>
            rw [hr] at hparse
            exact Hooks.Keeps.splitLoop hK fuel hparse
        | throw e t =>
            rw [hr] at hparse
            exact hparse

/-- Whatever the bytes are, and however the parser ends, the property has held last. -/
theorem Hooks.Keeps.splitBy (hK : H.Keeps buf guard I) (fuel : ℕ) {s : Splitter σ} (h : I 0 s.final) :
    ∃ p, I p (splitBy H buf guard fuel s).state.final := by
  have hloop := hK.splitLoop fuel h
  unfold Cerberus.splitBy
  split
  · rename_i heq
    rw [heq] at hloop
    exact hloop
  · exact hloop

end Keeps

/-! ### What the parser gives out -/

theorem Except.map_ok {α β : Type} {f : α → β} {r : Except Stop α} {y : β} (h : r.map f = .ok y) :
    ∃ x, r = .ok x ∧ y = f x := by
  cases r with
  | error e => cases h
  | ok x => cases h; exact ⟨x, rfl, rfl⟩

theorem Except.bind_ok {α β : Type} {f : α → Except Stop β} {r : Except Stop α} {y : β} (h : r.bind f = .ok y) :
    ∃ x, r = .ok x ∧ f x = .ok y := by
  cases r with
  | error e => cases h
  | ok x => exact ⟨x, rfl, h⟩

theorem ascii_append (a b : String) : ascii (a ++ b) = ascii a ++ ascii b := by
  rw [ascii, String.toList_append, List.map_append]
  rfl

/-- A reply the proxy makes itself. -/
inductive DirectReply (env : Env) : Bytes → Prop
  | status (text : Bytes) : CR ∉ text → DirectReply env (chr '+' :: (text ++ crlf))
  | error (text : Bytes) : CR ∉ text → DirectReply env (chr '-' :: (text ++ crlf))
  | bulk (msg : Bytes) : DirectReply env (encodeBulk msg)
  | stats (n : ℕ) : DirectReply env (chr '+' :: (env.stats n ++ crlf))

namespace SpecialParser

variable {env : Env} {buf : Bytes} {last : ℤ}

theorem directReply_wrongNumber (env : Env) {name : String} (h : CR ∉ ascii name) :
    ∃ b, wrongNumber name = .direct b ∧ DirectReply env b := by
  have hbegin : ascii "-ERR wrong number of arguments for '" =
      chr '-' :: ascii "ERR wrong number of arguments for '" := by decide
  have hend : ascii "' command\r\n" = ascii "' command" ++ crlf := by decide
  have hreply : DirectReply env (chr '-' :: (ascii "ERR wrong number of arguments for '" ++ ascii name ++
      ascii "' command" ++ crlf)) := by
    refine .error _ ?_
    simp only [List.mem_append, not_or]
    exact ⟨⟨by decide, h⟩, by decide⟩
  refine ⟨_, rfl, ?_⟩
  rw [ascii_append, ascii_append, hbegin, hend]
  simpa only [List.append_assoc, List.cons_append] using hreply

/-- The groups a parser makes of the bytes it has seen. -/
def Carries (buf : Bytes) (last : ℤ) (kind : CommandGroup) : SpecialParser → Prop
  | eachKey each _ _ =>
      ∃ cs, kind = each.makeGroup cs ∧ ∀ c ∈ cs, ∃ b slot, c = .oneSlot (each.commandHeader ++ b) slot
  | mset _ _ _ => ∃ cs, kind = .mset cs ∧ ∀ c ∈ cs, ∃ b slot, c = .oneSlot (setHeader ++ b) slot
  | rename begin _ _ _ _ _ =>
      (∃ i b slot, range buf begin i = .ok b ∧ kind = .single (.oneSlot b slot)) ∨
        ∃ oldKey newKey slot slot', kind = .single (.rename oldKey newKey slot slot')
  | subscribe begin _ => ∃ b, range buf begin last = .ok b ∧ kind = .subscribe b
  | blockedListPop begin _ _ => ∃ b slot, range buf begin last = .ok b ∧ kind = .blockedPop b slot
  | eval begin _ _ _ => ∃ b slot, range buf begin last = .ok b ∧ kind = .single (.oneSlot b slot)
  | publish begin _ => ∃ b slot, range buf begin last = .ok b ∧ kind = .single (.oneSlot b slot)
  | keysInSlot _ _ _ => ∃ b slot, kind = .single (.oneSlot (keysInSlotHeader ++ b) slot)
  | _ => False

/-- A parser that is done gives out one group: a reply, or what it carries. -/
def Gives (env : Env) (buf : Bytes) (last : ℤ) (p : SpecialParser) (o o' : Output) : Prop :=
  ∃ kind, o'.groups = o.groups ++ [kind] ∧ ((∃ b, kind = .direct b ∧ DirectReply env b) ∨ p.Carries buf last kind)

theorem eachKeyCommands_carried (header : Bytes) : ∀ {points : List ℤ} {slots : List ℕ} {cs : List DataCommand},
    eachKeyCommands buf header points slots = .ok cs → ∀ c ∈ cs, ∃ b slot, c = .oneSlot (header ++ b) slot
  | p :: q :: points, s :: slots, cs, h => by
      obtain ⟨b, -, h⟩ := Except.bind_ok h
      obtain ⟨cs', h', rfl⟩ := Except.map_ok h
      rw [List.forall_mem_cons]
      exact ⟨⟨b, s, rfl⟩, eachKeyCommands_carried header h'⟩
  | [], [], cs, h => by cases h; exact nofun
  | [_], [], cs, h => by cases h; exact nofun
  | _ :: _ :: _, [], cs, h => by cases h; exact nofun
  | [], _ :: _, cs, h => by cases h
  | [_], _ :: _, cs, h => by cases h

theorem msetCommands_carried : ∀ {points : List ℤ} {slots : List ℕ} {cs : List DataCommand},
    msetCommands buf points slots = .ok cs → ∀ c ∈ cs, ∃ b slot, c = .oneSlot (setHeader ++ b) slot
  | p :: _ :: q :: points, s :: slots, cs, h => by
      obtain ⟨b, -, h⟩ := Except.bind_ok h
      obtain ⟨cs', h', rfl⟩ := Except.map_ok h
      rw [List.forall_mem_cons]
      exact ⟨⟨b, s, rfl⟩, msetCommands_carried h'⟩
  | [], [], cs, h => by cases h; exact nofun
  | [_], [], cs, h => by cases h; exact nofun
  | [_, _], [], cs, h => by cases h; exact nofun
  | _ :: _ :: _ :: _, [], cs, h => by cases h; exact nofun
  | [], _ :: _, cs, h => by cases h
  | [_], _ :: _, cs, h => by cases h
  | [_, _], _ :: _, cs, h => by cases h

theorem gives_of_spawnCommands {p : SpecialParser} {o o' : Output} (h : p.spawnCommands env buf last o = .ok o') :
    p.Gives env buf last o o' := by
  have hreply : ∀ {o o' : Output} {b : Bytes}, DirectReply env b → o.groups ++ [.direct b] = o'.groups →
      p.Gives env buf last o o' := fun hb ho => ⟨_, ho.symm, Or.inl ⟨_, rfl, hb⟩⟩
  have hwrong : ∀ {o : Output} {name : String}, CR ∉ ascii name →
      p.Gives env buf last o (o.pushCommand (wrongNumber name)) := by
    intro o name hname
    obtain ⟨b, heq, hb⟩ := directReply_wrongNumber env hname
    exact ⟨_, rfl, Or.inl ⟨b, heq, hb⟩⟩
  have hok : DirectReply env SpecialParser.rspOkStr := .status (ascii "OK") (by decide)
  cases p with
  | ping msg =>
      simp only [spawnCommands] at h
      split at h
      · cases h
        exact hreply (.status (ascii "PONG") (by decide)) rfl
      · cases h
        have hmsg : ascii "$" ++ decimal msg.length ++ ascii "\r\n" ++ msg ++ ascii "\r\n" = encodeBulk msg := by
          simp [encodeBulk, show ascii "$" = [chr '$'] by decide, show ascii "\r\n" = crlf by decide]
        rw [hmsg]
        exact hreply (.bulk msg) rfl
  | proxyStats =>
      cases h
      exact hreply (.stats o.statsCalls) rfl
  | updateSlotMap =>
      cases h
      exact hreply hok rfl
  | setRemotes remotes lastHost currentIsHost bad =>
      simp only [spawnCommands] at h
      split at h
      · cases h
        exact hreply (.error (ascii "ERR invalid port number") (by decide)) rfl
      · split at h
        · cases h
          exact hwrong (by decide)
        · cases h
          exact hreply hok rfl
  | eachKey each points slots =>
      simp only [spawnCommands] at h
      split at h
      · cases h
        exact hwrong (by cases each <;> decide)
      · obtain ⟨cs, hcs, rfl⟩ := Except.map_ok h
        exact ⟨_, rfl, Or.inr ⟨cs, rfl, eachKeyCommands_carried _ hcs⟩⟩
  | mset points slots currentIsKey =>
      simp only [spawnCommands] at h
      split at h
      · cases h
        exact hwrong (by decide)
      · obtain ⟨cs, hcs, rfl⟩ := Except.map_ok h
        exact ⟨_, rfl, Or.inr ⟨cs, rfl, msetCommands_carried hcs⟩⟩
  | rename begin points ks₀ ks₁ index bad =>
      simp only [spawnCommands] at h
      split at h
      · cases h
        exact hwrong (by decide)
      · split at h
        · obtain ⟨b, hb, rfl⟩ := Except.map_ok h
          exact ⟨_, rfl, Or.inr (Or.inl ⟨_, b, _, hb, rfl⟩)⟩
        · obtain ⟨oldKey, -, h⟩ := Except.bind_ok h
          obtain ⟨newKey, -, rfl⟩ := Except.map_ok h
          exact ⟨_, rfl, Or.inr (Or.inr ⟨oldKey, newKey, _, _, rfl⟩)⟩
  | subscribe begin noArg =>
      simp only [spawnCommands] at h
      split at h
      · cases h
        exact hwrong (by decide)
      · obtain ⟨b, hb, rfl⟩ := Except.map_ok h
        exact ⟨_, rfl, Or.inr ⟨b, hb, rfl⟩⟩
  | blockedListPop begin slotCalc count =>
      simp only [spawnCommands] at h
      split at h
      · cases h
        exact hreply (.error (ascii "ERR BLPOP/BRPOP takes exactly 2 arguments KEY TIMEOUT in proxy") (by decide)) rfl
      · obtain ⟨b, hb, rfl⟩ := Except.map_ok h
        exact ⟨_, rfl, Or.inr ⟨b, _, hb, rfl⟩⟩
  | eval begin slotCalc argCount keyCount =>
      simp only [spawnCommands] at h
      split at h
      · cases h
        exact hwrong (by decide)
      · obtain ⟨b, hb, rfl⟩ := Except.map_ok h
        exact ⟨_, rfl, Or.inr ⟨b, _, hb, rfl⟩⟩
  | publish begin count =>
      simp only [spawnCommands] at h
      split at h
      · cases h
        exact hwrong (by decide)
      · obtain ⟨b, hb, rfl⟩ := Except.map_ok h
        exact ⟨_, rfl, Or.inr ⟨b, _, hb, rfl⟩⟩
  | keysInSlot start count slot =>
      simp only [spawnCommands] at h
      split at h
      · cases h
        exact hreply (.error (ascii "ERR wrong arguments for 'keysinslot' command") (by decide)) rfl
      · obtain ⟨b, hb, rfl⟩ := Except.map_ok h
        exact ⟨_, rfl, Or.inr ⟨b, _, rfl⟩⟩

end SpecialParser

namespace ClientSplitter

variable {env : Env} {buf : Bytes}

theorem onArray_same {c c' : ClientSplitter} {empty : Bool} {size : ℤ} (h : c.onArray empty size = .ok c') : c' = c := by
  unfold onArray at h
  split at h
  · cases h
  · split at h
    · cases h
    · cases h; rfl

/-- The group `on_split_point` pushes, and what it leaves of the splitter. -/
structure Ends (env : Env) (buf : Bytes) (i : ℤ) (c c' : ClientSplitter) (kind : CommandGroup) : Prop where
  groups : c'.out.groups = c.out.groups ++ [kind]
  onStr : c'.onStr = .commandHead
  begin : c'.lastCommandBegin = i
  good : c'.lastCommandIsBad = false
  parser : c'.specialParser = none ∨ c.lastCommandIsBad = true ∧ c'.specialParser = c.specialParser
  kind : (∃ b, kind = .direct b ∧ DirectReply env b) ∨
    c.lastCommandIsBad = false ∧ match c.specialParser with
      | none => ∃ b slot, range buf c.lastCommandBegin i = .ok b ∧ kind = .single (.oneSlot b slot)
      | some p => p.Carries buf i kind

theorem ends_of_onSplitPoint {c c' : ClientSplitter} {i : ℤ} (h : c.onSplitPoint env buf i = .ok c') :
    ∃ kind, Ends env buf i c c' kind := by
  unfold onSplitPoint at h
  dsimp only at h
  split at h
  · rename_i hbad
    cases h
    refine ⟨unknownCommand, rfl, rfl, rfl, rfl, Or.inr ⟨hbad, rfl⟩, Or.inl ⟨_, rfl, ?_⟩⟩
    exact .error (ascii "ERR Unknown command or command key not specified") (by decide)
  · rename_i hgood
    rw [Bool.not_eq_true] at hgood
    split at h
    · rename_i hp
      obtain ⟨b, hb, rfl⟩ := Except.map_ok h
      refine ⟨_, rfl, rfl, rfl, rfl, Or.inl rfl, Or.inr ⟨hgood, ?_⟩⟩
      rw [hp]
      exact ⟨b, _, hb, rfl⟩
    · rename_i p hp
      obtain ⟨o, ho, rfl⟩ := Except.map_ok h
      obtain ⟨kind, hgroups, hkind⟩ := SpecialParser.gives_of_spawnCommands ho
      refine ⟨kind, hgroups, rfl, rfl, rfl, Or.inl rfl, ?_⟩
      rw [hp]
      exact hkind.imp_right fun hk => ⟨hgood, hk⟩

end ClientSplitter

/-! ### The groups of a client -/

/-- The parser of a client gives out such a group, for some bytes in its buffer. -/
def Issued (env : Env) (kind : CommandGroup) : Prop :=
  ∃ buf guard statsCalls randCalls,
    kind ∈ (splitClientCommand env buf guard ⟨[], [], statsCalls, randCalls⟩).output.groups

/-- A property of groups that the calls of the parser keep holds of all it gives out. -/
theorem Issued.of_keeps {env : Env} {kind : CommandGroup} {K : CommandGroup → Prop} (h : Issued env kind)
    (hI : ∀ buf guard, ∃ I, (clientSplitter env).Keeps buf guard I ∧
      (∀ o : Output, o.groups = [] → I 0 (.new 0 o)) ∧ ∀ p c, I p c → ∀ kind ∈ c.out.groups, K kind) : K kind := by
  obtain ⟨buf, guard, statsCalls, randCalls, hmem⟩ := h
  obtain ⟨I, hK, hstart, hgroups⟩ := hI buf guard
  obtain ⟨p, hp⟩ := hK.splitBy (fuelFor buf) (s := .new 0 (.new 0 ⟨[], [], statsCalls, randCalls⟩)) (hstart _ rfl)
  refine hgroups p _ hp kind ?_
  unfold splitClientCommand at hmem
  split at hmem
  · rename_i heq
    rw [heq]
    exact hmem
  · rename_i heq
    rw [heq]
    exact hmem

/-! ### What an act does -/

/-- The command the act answers, and the response. -/
def Act.answers : Act → Option (CmdId × Bytes × Bool)
  | .respond k rsp error => some (k, rsp, error)
  | .clusterDown k => some (k, World.clusterDownRsp, true)
  | _ => none

/-- A command whose request is the same. -/
structure Cmd.Same (c c' : Cmd) : Prop where
  buffer : c'.buffer = c.buffer
  keySlot : c'.keySlot = c.keySlot
  onRsp : c'.onRsp = c.onRsp
  responsed : c'.responsed = c.responsed

theorem Cmd.Same.refl (c : Cmd) : c.Same c := ⟨rfl, rfl, rfl, rfl⟩

theorem Cmd.onRemoteResponsed_swap {c : Cmd} (h : c.onRsp = .swap) (rsp : Bytes) (error : Bool) :
    c.onRemoteResponsed rsp error = ({ c with buffer := rsp }, true) := by
  rw [Cmd.onRemoteResponsed, h]

namespace History

variable {h : History} {a : Act} {g : GroupId} {j k : CmdId} {rsp : Bytes} {error : Bool}

theorem act_answers (ha : a.answers = some (k, rsp, error)) : h.act a = h.answer k rsp error := by
  cases a with
  | respond k' rsp' error' =>
      obtain ⟨rfl, hrest⟩ := Prod.mk.inj (Option.some.inj ha)
      obtain ⟨rfl, rfl⟩ := Prod.mk.inj hrest
      rfl
  | clusterDown k' =>
      obtain ⟨rfl, hrest⟩ := Prod.mk.inj (Option.some.inj ha)
      obtain ⟨rfl, rfl⟩ := Prod.mk.inj hrest
      rfl
  | build c kind => cases ha
  | append g => cases ha
  | mark k' => cases ha
  | send k' => cases ha
  | retry k' => cases ha

theorem open_of_answers (hd : h.Due a) (ha : a.answers = some (k, rsp, error)) : h.Open k := by
  cases a with
  | respond k' rsp' error' =>
      obtain ⟨rfl, -⟩ := Prod.mk.inj (Option.some.inj ha)
      exact hd.1
  | clusterDown k' =>
      obtain ⟨rfl, -⟩ := Prod.mk.inj (Option.some.inj ha)
      exact hd.1
  | build c kind => cases ha
  | append g => cases ha
  | mark k' => cases ha
  | send k' => cases ha
  | retry k' => cases ha

/-- The command that is answered. -/
theorem answer_cmd : (h.answer k rsp error).objects.cmds k =
    if ((h.objects.cmds k).onRemoteResponsed rsp error).2 = true
    then { ((h.objects.cmds k).onRemoteResponsed rsp error).1 with responsed := true }
    else ((h.objects.cmds k).onRemoteResponsed rsp error).1 := by
  cases hlast : ((h.objects.cmds k).onRemoteResponsed rsp error).2 with
  | true =>
      rw [answer_last hlast, if_pos rfl]
      exact Objects.setCmd_self ..
  | false =>
      rw [answer_again hlast, if_neg Bool.false_ne_true]
      exact Objects.setCmd_self ..

theorem answer_of_ne (hne : j ≠ k) : (h.answer k rsp error).objects.cmds j = h.objects.cmds j := by
  cases hlast : ((h.objects.cmds k).onRemoteResponsed rsp error).2 with
  | true =>
      rw [answer_last hlast]
      exact Objects.setCmd_of_ne _ hne _
  | false =>
      rw [answer_again hlast]
      exact Objects.setCmd_of_ne _ hne _

theorem select_same (k j : CmdId) (o : Objects) :
    (o.cmds j).Same ((o.setCmd k { o.cmds k with selected := true }).cmds j) := by
  by_cases heq : j = k
  · subst heq
    rw [Objects.setCmd_self]
    exact ⟨rfl, rfl, rfl, rfl⟩
  · rw [Objects.setCmd_of_ne _ heq]
    exact .refl _

/-- Only an answer changes the request of a command. -/
theorem act_same (hj : j < h.objects.cmdCount) (ha : ∀ rsp error, a.answers ≠ some (j, rsp, error)) :
    (h.objects.cmds j).Same ((h.act a).objects.cmds j) := by
  cases a with
  | build c kind =>
      have hgrows := Objects.build_grows c kind h.objects
      show (h.objects.cmds j).Same ((h.objects.build c kind).cmds j)
      rw [hgrows.cmds j hj]
      exact .refl _
  | append g =>
      show (h.objects.cmds j).Same ((h.objects.appendBufferTo g).1.cmds j)
      rw [(Objects.appendBufferTo_cmds g h.objects).1]
      exact .refl _
  | mark k => exact select_same k j h.objects
  | send k => exact select_same k j h.objects
  | retry k => exact .refl _
  | respond k rsp error =>
      have hne : j ≠ k := fun heq => ha rsp error (heq ▸ rfl)
      show (h.objects.cmds j).Same ((h.answer k rsp error).objects.cmds j)
      rw [answer_of_ne hne]
      exact .refl _
  | clusterDown k =>
      have hne : j ≠ k := fun heq => ha _ true (congrArg (fun i => some (i, _, true)) heq.symm)
      show (h.objects.cmds j).Same ((h.answer k World.clusterDownRsp true).objects.cmds j)
      rw [answer_of_ne hne]
      exact .refl _

/-- Groups are built, or they stay what they are. -/
theorem act_cases (a : Act) (h : History) : (∃ c kind, a = .build c kind) ∨ Objects.Alike h.objects (h.act a).objects := by
  have hanswer : ∀ k rsp error, Objects.Alike h.objects (h.answer k rsp error).objects := by
    intro k rsp error
    cases hlast : ((h.objects.cmds k).onRemoteResponsed rsp error).2 with
    | true =>
        rw [answer_last hlast]
        exact Objects.Alike.respond ..
    | false =>
        rw [answer_again hlast]
        exact Objects.Alike.setCmd ..
  cases a with
  | build c kind => exact Or.inl ⟨c, kind, rfl⟩
  | append g' => exact Or.inr (Objects.Alike.appendBufferTo g' h.objects)
  | mark k => exact Or.inr (Objects.Alike.setCmd ..)
  | send k => exact Or.inr (Objects.Alike.setCmd ..)
  | retry k => exact Or.inr (Objects.Alike.refl _)
  | respond k rsp error => exact Or.inr (hanswer k rsp error)
  | clusterDown k => exact Or.inr (hanswer k _ true)

/-- A group stays what it was built as. -/
theorem act_group (hg : g < h.objects.groupCount) (a : Act) :
    g < (h.act a).objects.groupCount ∧ ((h.act a).objects.groups g).kind = (h.objects.groups g).kind ∧
      ((h.act a).objects.groups g).commands = (h.objects.groups g).commands := by
  obtain ⟨c, kind, rfl⟩ | ho := act_cases a h
  · have hgrows := Objects.build_grows c kind h.objects
    exact ⟨Nat.lt_of_lt_of_le hg hgrows.groupCount, hgrows.kind g hg, hgrows.commands g hg⟩
  · exact ⟨ho.groupCount.symm ▸ hg, ho.kind g, ho.commands g⟩

end History

/-! ### Histories of a proxy -/

/-- The groups that are built come from the parser, and the responses are such as backends give. -/
def Act.Proper (env : Env) (P : Bytes → Bool → Prop) : Act → Prop
  | .build _ kind => Issued env kind
  | .respond _ rsp error => P rsp error
  | _ => True

namespace History

variable {env : Env} {P : Bytes → Bool → Prop} {h : History}

/-- The states in which every group comes from the parser and every response from such a backend. -/
abbrev Lived (env : Env) (P : Bytes → Bool → Prop) (h : History) : Prop :=
  Runs.Reachable act (fun h a => h.Due a ∧ a.Proper env P) new h

theorem Lived.reached (hl : h.Lived env P) : h.Reached := hl.mono fun _ _ ha => ha.1

theorem issued_act {a : Act} (hi : ∀ g < h.objects.groupCount, Issued env (h.objects.groups g).kind)
    (ha : a.Proper env P) : ∀ g < (h.act a).objects.groupCount, Issued env ((h.act a).objects.groups g).kind := by
  intro g hg
  obtain ⟨c, kind, rfl⟩ | ho := act_cases a h
  · rcases Nat.lt_or_ge g h.objects.groupCount with hlt | hle
    · rw [(act_group hlt _).2.1]
      exact hi g hlt
    · obtain rfl : g = h.objects.groupCount := Nat.le_antisymm (Nat.lt_succ_iff.mp hg) hle
      show Issued env (Function.update h.objects.groups _ _ h.objects.groupCount).kind
      rw [Function.update_self]
      exact ha
  · rw [ho.kind g]
    exact hi g (ho.groupCount ▸ hg)

/-- Every group is one the parser gives out. -/
theorem Lived.issued (hl : h.Lived env P) : ∀ g < h.objects.groupCount, Issued env (h.objects.groups g).kind :=
  hl.inv (I := fun h => ∀ g < h.objects.groupCount, Issued env (h.objects.groups g).kind)
    (fun _ hg => absurd hg (Nat.not_lt_zero _)) fun _ _ hi ha => issued_act hi ha.2

end History

end Cerberus
