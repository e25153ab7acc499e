import Cerberus.Reads

/-! # Reference dispatch of client requests

What a request means, without a parser and without positions.  A message is cut behind each
of its strings (`Parts`): the first string is the name of the command and the others are its
arguments, each with the bytes that end with it.  `dispatch` says which group a message gives.

`readMessage_dispatch` connects it with `ClientCommandSplitter`: the group pushed at the end
of a message is the one `dispatch` gives. -/

namespace Cerberus

open Frames

/-- A message, cut behind each of its strings; `tail` is what follows the last of them. -/
structure Parts where
  strs : List (Bytes × Bytes)
  tail : Bytes
deriving DecidableEq

/-- Bytes of the pieces. -/
def segments (strs : List (Bytes × Bytes)) : Bytes := (strs.map Prod.snd).flatten

@[simp] theorem segments_nil : segments [] = [] := rfl
@[simp] theorem segments_cons (x : Bytes × Bytes) (l : List (Bytes × Bytes)) :
    segments (x :: l) = x.2 ++ segments l := rfl

def Parts.bytes (p : Parts) : Bytes := segments p.strs ++ p.tail

/-- Cut a list of tokens behind its strings; `tail` are the bytes since the last one. -/
def partsFrom : Bytes → List RawToken → Parts
  | tail, [] => ⟨[], tail⟩
  | tail, (.str s, raw) :: ts => ⟨(s, tail ++ raw) :: (partsFrom [] ts).strs, (partsFrom [] ts).tail⟩
  | tail, (_, raw) :: ts => partsFrom (tail ++ raw) ts

def partsOf (ts : List RawToken) : Parts := partsFrom [] ts

/-! ### The reference -/

/-- The remotes of `SETREMOTES`, and whether a host was left without a port. -/
def remotesOf (env : Env) : List Address → List (Bytes × Bytes) → Except Stop (List Address × Bool)
  | remotes, [] => .ok (remotes, false)
  | remotes, [_] => .ok (remotes, true)
  | remotes, host :: port :: args =>
      (atoiThrow env port.1).bind fun n => remotesOf env (insertAddress remotes ⟨host.1, n⟩) args

/-- The pairs of `MSET`, none if the last key has no value. -/
def pairsOf : List (Bytes × Bytes) → Option (List DataCommand)
  | [] => some []
  | [_] => none
  | key :: value :: args =>
      (pairsOf args).map (.oneSlot (setHeader ++ (key.2 ++ value.2)) (keySlot key.1) :: ·)

/-- The group a special command gives.  `head` ends with its name, `raw` is all of it. -/
def Special.dispatch (env : Env) (o : Output) (head raw : Bytes) (args : List (Bytes × Bytes))
    (tail : Bytes) : Special → Except Stop Output
  | ping =>
      let msg := (args.map Prod.fst).getLastD []
      if msg.isEmpty then .ok (o.pushCommand (.direct (ascii "+PONG\r\n")))
      else .ok (o.pushCommand (.direct
        (ascii "$" ++ decimal msg.length ++ ascii "\r\n" ++ msg ++ ascii "\r\n")))
  | proxyStats =>
      .ok ({ o with statsCalls := o.statsCalls + 1 }.pushCommand
        (.direct (ascii "+" ++ env.stats o.statsCalls ++ ascii "\r\n")))
  | updateSlotMap => .ok ((o.effect .updateSlotMap).pushCommand (.direct SpecialParser.rspOkStr))
  | setRemotes =>
      (remotesOf env [] args).map fun r =>
        if r.1.isEmpty || r.2 then o.pushCommand (SpecialParser.wrongNumber "SETREMOTES")
        else ((o.effect (.setRemotes r.1)).effect .updateSlotMap).pushCommand
          (.direct SpecialParser.rspOkStr)
  | eachKey kind =>
      if args.isEmpty then .ok (o.pushCommand (SpecialParser.wrongNumber kind.commandName))
      else .ok (o.pushCommand (kind.makeGroup
        (args.map fun a => .oneSlot (kind.commandHeader ++ a.2) (keySlot a.1))))
  | mset =>
      match pairsOf args with
      | none => .ok (o.pushCommand (SpecialParser.wrongNumber "mset"))
      | some cs =>
          if cs.isEmpty then .ok (o.pushCommand (SpecialParser.wrongNumber "mset"))
          else .ok (o.pushCommand (.mset cs))
  | rename =>
      match args with
      | [a, b] =>
          if keySlot a.1 = keySlot b.1 then
            .ok (o.pushCommand (.single (.oneSlot (head ++ segments args) (keySlot a.1))))
          else .ok (o.pushCommand (.single (.rename a.2 b.2 (keySlot a.1) (keySlot b.1))))
      | _ => .ok (o.pushCommand (SpecialParser.wrongNumber "rename"))
  | subscribe =>
      if args.isEmpty then .ok (o.pushCommand (SpecialParser.wrongNumber "subscribe"))
      else .ok (o.pushCommand (.subscribe raw))
  | blockedListPop =>
      match args with
      | [a, b] => .ok (o.pushCommand (.blockedPop raw (keySlot (a.1 ++ b.1))))
      | _ => .ok (o.pushCommand (.direct
          (ascii "-ERR BLPOP/BRPOP takes exactly 2 arguments KEY TIMEOUT in proxy\r\n")))
  | eval =>
      match args with
      | _ :: count :: keys =>
          (atoiThrow env count.1).map fun (n : ℤ) =>
            match keys with
            | key :: _ =>
                if n ≠ 1 then o.pushCommand (SpecialParser.wrongNumber "eval")
                else o.pushCommand (.single (.oneSlot raw (keySlot key.1)))
            | [] => o.pushCommand (SpecialParser.wrongNumber "eval")
      | _ => .ok (o.pushCommand (SpecialParser.wrongNumber "eval"))
  | publish =>
      if args.length ≠ 2 then .ok (o.pushCommand (SpecialParser.wrongNumber "publish"))
      else .ok ({ o with randCalls := o.randCalls + 1 }.pushCommand
        (.single (.oneSlot raw (env.rand o.randCalls % clusterSlotCount))))
  | keysInSlot =>
      match args with
      | [] => .ok (o.pushCommand (.direct (ascii "-ERR wrong arguments for 'keysinslot' command\r\n")))
      | slot :: _ =>
          (atoiThrow env slot.1).map fun n =>
            if args.length ≠ 2 ∨ clusterSlotCount ≤ toSlot n then
              o.pushCommand (.direct (ascii "-ERR wrong arguments for 'keysinslot' command\r\n"))
            else o.pushCommand
              (.single (.oneSlot (keysInSlotHeader ++ (segments args ++ tail)) (toSlot n)))

/-- The group a message gives.  A message without a string is sent to slot 0. -/
def dispatch (env : Env) (o : Output) (p : Parts) : Except Stop Output :=
  match p.strs with
  | [] => .ok (o.pushCommand (.single (.oneSlot p.bytes 0)))
  | (name, head) :: args =>
      let cmd := name.map toupper
      if isStdCommand env cmd then
        match args with
        | [] => .ok (o.pushCommand ClientSplitter.unknownCommand)
        | key :: _ => .ok (o.pushCommand (.single (.oneSlot p.bytes (keySlot key.1))))
      else match findSpecial env cmd with
      | none => .ok (o.pushCommand ClientSplitter.unknownCommand)
      | some k => k.dispatch env o head p.bytes args p.tail

/-! ### One group for each message -/

/-- One group has been pushed. -/
def Output.Pushed (o o' : Output) : Prop := ∃ g, o'.groups = o.groups ++ [g]

theorem Output.pushed_pushCommand (o : Output) (g : CommandGroup) : o.Pushed (o.pushCommand g) :=
  ⟨g, rfl⟩

theorem Special.dispatch_pushed {env : Env} {o o' : Output} {head raw tail : Bytes}
    {args : List (Bytes × Bytes)} (k : Special) (h : k.dispatch env o head raw args tail = .ok o') :
    o.Pushed o' := by
  cases k with
  | ping =>
      simp only [dispatch] at h
      split at h <;> cases h <;> exact o.pushed_pushCommand _
  | proxyStats => cases h; exact ⟨_, rfl⟩
  | updateSlotMap => cases h; exact ⟨_, rfl⟩
  | setRemotes =>
      simp only [dispatch] at h
      cases hr : remotesOf env [] args with
      | error e => rw [hr] at h; cases h
      | ok r =>
          rw [hr] at h
          cases h
          dsimp only
          split <;> exact ⟨_, rfl⟩
  | eachKey kind =>
      simp only [dispatch] at h
      split at h <;> cases h <;> exact o.pushed_pushCommand _
  | mset =>
      simp only [dispatch] at h
      split at h
      · cases h; exact o.pushed_pushCommand _
      · split at h <;> cases h <;> exact o.pushed_pushCommand _
  | rename =>
      simp only [dispatch] at h
      split at h
      · split at h <;> cases h <;> exact o.pushed_pushCommand _
      · cases h; exact o.pushed_pushCommand _
  | subscribe =>
      simp only [dispatch] at h
      split at h <;> cases h <;> exact o.pushed_pushCommand _
  | blockedListPop =>
      simp only [dispatch] at h
      split at h <;> cases h <;> exact o.pushed_pushCommand _
  | eval =>
      simp only [dispatch] at h
      split at h
      · rename_i count keys
        cases ha : atoiThrow env count.1 with
        | error e => rw [ha] at h; cases h
        | ok n =>
            rw [ha] at h
            cases h
            cases keys with
            | nil => exact o.pushed_pushCommand _
            | cons key keys => dsimp only; split <;> exact o.pushed_pushCommand _
      · cases h; exact o.pushed_pushCommand _
  | publish =>
      simp only [dispatch] at h
      split at h <;> cases h <;> exact ⟨_, rfl⟩
  | keysInSlot =>
      simp only [dispatch] at h
      split at h
      · cases h; exact o.pushed_pushCommand _
      · rename_i slot rest
        cases ha : atoiThrow env slot.1 with
        | error e => rw [ha] at h; cases h
        | ok n =>
            rw [ha] at h
            cases h
            dsimp only
            split <;> exact o.pushed_pushCommand _

theorem dispatch_pushed {env : Env} {o o' : Output} {p : Parts} (h : dispatch env o p = .ok o') :
    o.Pushed o' := by
  unfold dispatch at h
  dsimp only at h
  split at h
  · cases h; exact o.pushed_pushCommand _
  · split at h
    · split at h <;> cases h <;> exact o.pushed_pushCommand _
    · split at h
      · cases h; exact o.pushed_pushCommand _
      · rename_i k _
        exact k.dispatch_pushed h

/-! ### Strings without a buffer -/

namespace SpecialParser

/-- `on_str` for a string that ends its token at `next`. -/
def take (env : Env) (s : Bytes) (next : ℤ) : SpecialParser → Except Stop SpecialParser
  | ping _ => .ok (.ping s)
  | proxyStats => .ok proxyStats
  | updateSlotMap => .ok updateSlotMap
  | setRemotes remotes lastHost currentIsHost bad =>
      if bad then .ok (setRemotes remotes lastHost currentIsHost bad)
      else if currentIsHost then .ok (setRemotes remotes s false bad)
      else (atoiThrow env s).map fun port =>
        setRemotes (insertAddress remotes ⟨lastHost, port⟩) [] true bad
  | eachKey kind points slots => .ok (eachKey kind (points ++ [next]) (slots ++ [keySlot s]))
  | mset points slots currentIsKey =>
      if currentIsKey then .ok (mset (points ++ [next]) (slots ++ [keySlot s]) false)
      else .ok (mset (points ++ [next]) slots true)
  | rename begin points ks₀ ks₁ index bad =>
      if index = 2 then .ok (rename begin points ks₀ ks₁ index true)
      else .ok (rename begin (points ++ [next]) (if index = 0 then ks₀.feed s else ks₀)
        (if index = 0 then ks₁ else ks₁.feed s) (index + 1) bad)
  | subscribe begin _ => .ok (subscribe begin false)
  | blockedListPop begin sc n => .ok (blockedListPop begin (sc.feed s) (n + 1))
  | eval begin sc n k =>
      match n with
      | 1 => (atoiThrow env s).map fun k => eval begin sc (n + 1) k
      | 2 => .ok (eval begin (sc.feed s) (n + 1) k)
      | _ => .ok (eval begin sc (n + 1) k)
  | publish begin n => .ok (publish begin (n + 1))
  | keysInSlot start n slot =>
      if n = 0 then (atoiThrow env s).map fun i => keysInSlot start (n + 1) (toSlot i)
      else .ok (keysInSlot start (n + 1) slot)

theorem onStr_take (env : Env) {buf s : Bytes} {first last : ℤ} (h : range buf first last = .ok s)
    (p : SpecialParser) : p.onStr env buf first last = p.take env s (last + lengthOfCrLf) := by
  cases p with
  | eval cmdBegin slotCalc argCount keyCount =>
      simp only [onStr, take, h]
      rfl
  | _ => simp only [onStr, take, h, Except.map, Except.bind]

/-- The strings of the arguments in turn; the first piece starts at `base`. -/
def takeAll (env : Env) : ℤ → List (Bytes × Bytes) → SpecialParser → Except Stop SpecialParser
  | _, [], p => .ok p
  | base, a :: args, p =>
      (p.take env a.1 (base + a.2.length)).bind (takeAll env (base + a.2.length) args)

/-- The positions behind the pieces. -/
def endsFrom : ℤ → List (Bytes × Bytes) → List ℤ
  | _, [] => []
  | base, a :: args => (base + a.2.length) :: endsFrom (base + a.2.length) args

section
variable (env : Env)

theorem takeAll_ping : ∀ (args : List (Bytes × Bytes)) (base : ℤ) (msg : Bytes),
    takeAll env base args (ping msg) = .ok (ping ((args.map Prod.fst).getLastD msg))
  | [], _, _ => rfl
  | a :: args, base, msg => by
      simp only [takeAll, take, Except.bind, takeAll_ping args]
      cases args <;> simp [List.getLastD]

theorem takeAll_proxyStats : ∀ (args : List (Bytes × Bytes)) (base : ℤ),
    takeAll env base args proxyStats = .ok proxyStats
  | [], _ => rfl
  | _ :: args, _ => takeAll_proxyStats args _

theorem takeAll_updateSlotMap : ∀ (args : List (Bytes × Bytes)) (base : ℤ),
    takeAll env base args updateSlotMap = .ok updateSlotMap
  | [], _ => rfl
  | _ :: args, _ => takeAll_updateSlotMap args _

theorem takeAll_eachKey (kind : EachKey) : ∀ (args : List (Bytes × Bytes)) (base : ℤ)
    (points : List ℤ) (slots : List ℕ),
    takeAll env base args (eachKey kind points slots) =
      .ok (eachKey kind (points ++ endsFrom base args) (slots ++ args.map fun a => keySlot a.1))
  | [], _, _, _ => by simp [takeAll, endsFrom]
  | a :: args, base, points, slots => by
      simp only [takeAll, take, Except.bind, takeAll_eachKey kind args, endsFrom, List.map_cons,
        List.append_assoc, List.singleton_append]

theorem takeAll_subscribe (begin : ℤ) : ∀ (args : List (Bytes × Bytes)) (base : ℤ) (noArg : Bool),
    takeAll env base args (subscribe begin noArg) = .ok (subscribe begin (noArg && args.isEmpty))
  | [], _, _ => by simp [takeAll]
  | a :: args, base, noArg => by
      simp only [takeAll, take, Except.bind, takeAll_subscribe begin args]
      simp

theorem takeAll_blockedListPop (begin : ℤ) : ∀ (args : List (Bytes × Bytes)) (base : ℤ)
    (sc : KeySlotCalc) (n : ℕ), takeAll env base args (blockedListPop begin sc n) =
      .ok (blockedListPop begin (sc.feed (args.map Prod.fst).flatten) (n + args.length))
  | [], _, _, _ => rfl
  | a :: args, base, sc, n => by
      simp only [takeAll, take, Except.bind, takeAll_blockedListPop begin args, List.map_cons,
        List.flatten_cons, KeySlotCalc.feed, List.foldl_append, List.length_cons]
      congr 2
      omega

theorem takeAll_publish (begin : ℤ) : ∀ (args : List (Bytes × Bytes)) (base : ℤ) (n : ℕ),
    takeAll env base args (publish begin n) = .ok (publish begin (n + args.length))
  | [], _, _ => rfl
  | a :: args, base, n => by
      simp only [takeAll, take, Except.bind, takeAll_publish begin args, List.length_cons]
      congr 2
      omega

theorem takeAll_mset_some : ∀ {args : List (Bytes × Bytes)} {cs : List DataCommand} (base : ℤ)
    (points : List ℤ) (slots : List ℕ), pairsOf args = some cs →
    takeAll env base args (mset points slots true) =
      .ok (mset (points ++ endsFrom base args) (slots ++ cs.map DataCommand.slot) true)
  | [], cs, base, points, slots, h => by
      cases h
      simp [takeAll, endsFrom]
  | [_], cs, base, points, slots, h => by cases h
  | key :: value :: args, cs, base, points, slots, h => by
      rw [pairsOf, Option.map_eq_some_iff] at h
      obtain ⟨ds, hds, rfl⟩ := h
      simp only [takeAll, take, Except.bind, if_true, Bool.false_eq_true, if_false,
        takeAll_mset_some _ _ _ hds, endsFrom, List.map_cons, DataCommand.slot, List.append_assoc,
        List.singleton_append]
      rfl

theorem takeAll_mset_none : ∀ {args : List (Bytes × Bytes)} (base : ℤ) (points : List ℤ)
    (slots : List ℕ), pairsOf args = none →
    ∃ points' slots', takeAll env base args (mset points slots true) = .ok (mset points' slots' false)
  | [], base, points, slots, h => by cases h
  | [_], base, points, slots, _ => ⟨_, _, rfl⟩
  | key :: value :: args, base, points, slots, h => by
      rw [pairsOf, Option.map_eq_none_iff] at h
      obtain ⟨points', slots', ht⟩ := takeAll_mset_none (base + key.2.length + value.2.length)
        (points ++ [base + key.2.length] ++ [base + key.2.length + value.2.length])
        (slots ++ [keySlot key.1]) h
      exact ⟨points', slots', by
        simp only [takeAll, take, Except.bind, if_true, Bool.false_eq_true, if_false, ht]⟩

theorem takeAll_rename_full (begin : ℤ) (points : List ℤ) (a b : KeySlotCalc) :
    ∀ (args : List (Bytes × Bytes)) (base : ℤ) (bad : Bool),
    takeAll env base args (rename begin points a b 2 bad) =
      .ok (rename begin points a b 2 (bad || !args.isEmpty))
  | [], _, _ => by simp [takeAll]
  | c :: args, base, bad => by
      simp only [takeAll, take, Except.bind, if_true, takeAll_rename_full begin points a b args]
      simp

theorem takeAll_eval_full (begin : ℤ) (sc : KeySlotCalc) (k : ℤ) :
    ∀ (args : List (Bytes × Bytes)) (base : ℤ) (n : ℕ), takeAll env base args (eval begin sc (n + 3) k) =
      .ok (eval begin sc (n + 3 + args.length) k)
  | [], _, _ => rfl
  | a :: args, base, n => by
      have ih := takeAll_eval_full begin sc k args (base + a.2.length) (n + 1)
      simp only [takeAll, take, Except.bind, List.length_cons]
      rw [show n + 3 + 1 = n + 1 + 3 by omega, ih]
      congr 2
      omega

theorem takeAll_keysInSlot_full (start : ℤ) (slot : ℕ) :
    ∀ (args : List (Bytes × Bytes)) (base : ℤ) (n : ℕ),
    takeAll env base args (keysInSlot start (n + 1) slot) =
      .ok (keysInSlot start (n + 1 + args.length) slot)
  | [], _, _ => rfl
  | a :: args, base, n => by
      have ih := takeAll_keysInSlot_full start slot args (base + a.2.length) (n + 1)
      simp only [takeAll, take, Except.bind, List.length_cons, if_neg (Nat.succ_ne_zero n), ih]
      congr 2
      omega

end

/-! ### Commands from pieces -/

section
variable {l : Bytes}

/-- A piece at a position of the buffer, and what follows it. -/
theorem range_piece {base : ℤ} {seg rest : Bytes} (h0 : 0 ≤ base) (hb : base ≤ l.length)
    (h : bytesFrom l base = seg ++ rest) :
    range l base (base + seg.length) = .ok seg ∧ base + seg.length ≤ l.length ∧
      bytesFrom l (base + seg.length) = rest := by
  have hlen := congrArg List.length h
  rw [bytesFrom, List.length_drop, List.length_append] at hlen
  refine ⟨?_, by omega, ?_⟩
  · rw [range, slice, if_pos (by omega), show (base + (seg.length : ℤ) - base).toNat = seg.length by omega,
      ← bytesFrom, h, List.take_left]
  · rw [bytesFrom_add h0 h, List.drop_left]

theorem eachKeyCommands_pieces (header : Bytes) : ∀ (args : List (Bytes × Bytes)) (base : ℤ) (rest : Bytes),
    0 ≤ base → base ≤ l.length → bytesFrom l base = segments args ++ rest →
    eachKeyCommands l header (base :: endsFrom base args) (args.map fun a => keySlot a.1) =
      .ok (args.map fun a => .oneSlot (header ++ a.2) (keySlot a.1))
  | [], _, _, _, _, _ => by simp [eachKeyCommands]
  | a :: args, base, rest, h0, hb, h => by
      rw [segments_cons, List.append_assoc] at h
      obtain ⟨hr, hb', hrest⟩ := range_piece h0 hb h
      have ih := eachKeyCommands_pieces header args (base + a.2.length) rest (by omega) hb' hrest
      simp only [endsFrom, List.map_cons, eachKeyCommands, hr, Except.bind, ih]
      rfl

theorem msetCommands_pieces : ∀ {args : List (Bytes × Bytes)} {cs : List DataCommand} (base : ℤ)
    (rest : Bytes), pairsOf args = some cs → 0 ≤ base → base ≤ l.length →
    bytesFrom l base = segments args ++ rest →
    msetCommands l (base :: endsFrom base args) (cs.map DataCommand.slot) = .ok cs
  | [], cs, base, rest, hc, _, _, _ => by
      cases hc
      simp [msetCommands]
  | [_], cs, base, rest, hc, _, _, _ => by cases hc
  | key :: value :: args, cs, base, rest, hc, h0, hb, h => by
      rw [pairsOf, Option.map_eq_some_iff] at hc
      obtain ⟨ds, hds, rfl⟩ := hc
      have h' : bytesFrom l base = (key.2 ++ value.2) ++ (segments args ++ rest) := by
        rw [h]; simp
      obtain ⟨hr, hb', hrest⟩ := range_piece h0 hb h'
      have hend : base + ((key.2 ++ value.2).length : ℤ) = base + key.2.length + value.2.length := by
        rw [List.length_append]; push_cast; omega
      rw [hend] at hr hb' hrest
      have ih := msetCommands_pieces (base + key.2.length + value.2.length) rest hds (by omega) hb' hrest
      simp only [endsFrom, List.map_cons, msetCommands, hr, Except.bind, ih, DataCommand.slot]
      rfl

end

/-! ### A special command as a whole -/

section
variable {env : Env} {l : Bytes} {n : ℤ} {o : Output}

theorem spawn_setRemotes : ∀ (args : List (Bytes × Bytes)) (base : ℤ) (remotes : List Address)
    (host : Bytes),
    (takeAll env base args (setRemotes remotes host true false)).bind
        (spawnCommands env l n o) =
      (remotesOf env remotes args).map fun r =>
        if r.1.isEmpty || r.2 then o.pushCommand (wrongNumber "SETREMOTES")
        else ((o.effect (.setRemotes r.1)).effect .updateSlotMap).pushCommand (.direct rspOkStr)
  | [], base, remotes, host => by
      simp only [takeAll, remotesOf, Except.bind, Except.map, spawnCommands, Bool.not_true]
      cases remotes.isEmpty <;> rfl
  | [a], base, remotes, host => by
      simp only [takeAll, take, remotesOf, Except.bind, Except.map, spawnCommands, Bool.not_false,
        Bool.or_true, if_true, Bool.false_eq_true, if_false]
  | a :: b :: args, base, remotes, host => by
      simp only [takeAll, take, remotesOf, Bool.false_eq_true, if_false, if_true]
      cases atoiThrow env b.1 with
      | error e => rfl
      | ok port => exact spawn_setRemotes args _ (insertAddress remotes ⟨a.1, port⟩) []

end

/-- The parser of a special command, given its strings, spawns what the reference says. -/
theorem spawn_dispatch (env : Env) (o : Output) (k : Special) (head tail m : Bytes)
    (args : List (Bytes × Bytes)) :
    (takeAll env head.length args (k.create 0 head.length)).bind
        (spawnCommands env (head ++ (segments args ++ (tail ++ m)))
          (head ++ (segments args ++ tail)).length o) =
      k.dispatch env o head (head ++ (segments args ++ tail)) args tail := by
  generalize hl : head ++ (segments args ++ (tail ++ m)) = l
  generalize hraw : head ++ (segments args ++ tail) = raw
  have hlraw : l = raw ++ m := by simp [← hl, ← hraw]
  have hwhole : range l 0 raw.length = .ok raw := by
    have := (@range_piece l 0 raw m le_rfl (by omega) (by rw [hlraw]; rfl)).1
    rwa [zero_add] at this
  have hargs : bytesFrom l head.length = segments args ++ (tail ++ m) := by
    rw [bytesFrom, Int.toNat_natCast, ← hl, List.drop_left]
  have hhead : (head.length : ℤ) ≤ l.length := by rw [← hl, List.length_append]; push_cast; omega
  cases k with
  | ping =>
      simp only [Special.create, takeAll_ping, Except.bind, spawnCommands, Special.dispatch]
  | proxyStats => simp only [Special.create, takeAll_proxyStats, Except.bind, spawnCommands, Special.dispatch]
  | updateSlotMap =>
      simp only [Special.create, takeAll_updateSlotMap, Except.bind, spawnCommands, Special.dispatch]
  | setRemotes => exact spawn_setRemotes args _ [] []
  | eachKey kind =>
      simp only [Special.create, takeAll_eachKey, Except.bind, spawnCommands, Special.dispatch,
        List.nil_append, List.singleton_append,
        eachKeyCommands_pieces kind.commandHeader args _ _ (by omega) hhead hargs]
      cases args <;> rfl
  | mset =>
      simp only [Special.create, Special.dispatch]
      cases hp : pairsOf args with
      | none =>
          obtain ⟨points, slots, ht⟩ := takeAll_mset_none env head.length [(head.length : ℤ)] [] hp
          rw [ht]
          simp only [Except.bind, spawnCommands, Bool.not_false, Bool.or_true, if_true]
      | some cs =>
          rw [takeAll_mset_some env head.length [(head.length : ℤ)] [] hp]
          simp only [Except.bind, spawnCommands, List.nil_append, List.singleton_append,
            msetCommands_pieces _ _ hp (by omega) hhead hargs]
          cases cs <;> rfl
  | rename =>
      rcases args with _ | ⟨a, _ | ⟨b, _ | ⟨c, args⟩⟩⟩
      · rfl
      · rfl
      · have hargs' : bytesFrom l head.length = a.2 ++ (b.2 ++ (tail ++ m)) := by
          rw [hargs]; simp
        have hfront : bytesFrom l 0 = (head ++ segments [a, b]) ++ (tail ++ m) := by
          rw [← hl]; simp [bytesFrom]
        obtain ⟨hra, hba, hb⟩ := range_piece (by omega) hhead hargs'
        obtain ⟨hrb, -, -⟩ := range_piece (by omega) hba hb
        obtain ⟨hrh, -, -⟩ := range_piece le_rfl (by omega) hfront
        have hend : 0 + ((head ++ segments [a, b]).length : ℤ) =
            head.length + a.2.length + b.2.length := by
          simp; omega
        rw [hend] at hrh
        -- the parser after both keys
        have ht : takeAll env head.length [a, b] (Special.rename.create 0 head.length) =
            .ok (rename 0 [(head.length : ℤ), head.length + a.2.length,
              head.length + a.2.length + b.2.length] (KeySlotCalc.reset.feed a.1)
              (KeySlotCalc.reset.feed b.1) 2 false) := rfl
        rw [ht]
        simp only [Except.bind, spawnCommands, Special.dispatch, ne_eq, not_true, false_or,
          Bool.false_eq_true, if_false, List.getD_cons_zero, List.getD_cons_succ, hra, hrb, hrh,
          Except.map, keySlot]
        rfl
      · simp only [Special.create, takeAll, take, Except.bind, if_true, if_false,
          show (0 : ℕ) ≠ 2 by decide, show (0 : ℕ) + 1 ≠ 2 by decide, show (0 : ℕ) + 1 + 1 = 2 from rfl,
          takeAll_rename_full, spawnCommands, Special.dispatch]
        simp
  | subscribe =>
      simp only [Special.create, takeAll_subscribe, Except.bind, spawnCommands, Special.dispatch, hwhole,
        Bool.true_and]
      rfl
  | blockedListPop =>
      simp only [Special.create, takeAll_blockedListPop, Except.bind, spawnCommands, Special.dispatch,
        hwhole, zero_add]
      rcases args with _ | ⟨a, _ | ⟨b, _ | ⟨c, args⟩⟩⟩
      · rfl
      · rfl
      · simp [keySlot, Except.map]
      · simp
  | eval =>
      rcases args with _ | ⟨a, _ | ⟨count, keys⟩⟩
      · rfl
      · rfl
      · simp only [Special.create, takeAll, take, Special.dispatch]
        cases atoiThrow env count.1 with
        | error e => rfl
        | ok i =>
            cases keys with
            | nil => rfl
            | cons key keys =>
                have ht := takeAll_eval_full env 0 (KeySlotCalc.reset.feed key.1) i keys
                  (head.length + a.2.length + count.2.length + key.2.length) 0
                simp only [Except.bind, Except.map, takeAll, take]
                simp only [zero_add, Nat.reduceAdd] at ht ⊢
                rw [ht]
                simp only [spawnCommands, hwhole, Except.map]
                have hc : ¬(3 + keys.length < 3) := by omega
                by_cases hi : i = 1 <;> simp [hc, hi, keySlot]
  | publish =>
      simp only [Special.create, takeAll_publish, Except.bind, spawnCommands, Special.dispatch, hwhole,
        zero_add]
      rfl
  | keysInSlot =>
      cases args with
      | nil => rfl
      | cons slot args =>
          simp only [Special.create, takeAll, take, Special.dispatch, if_true]
          cases atoiThrow env slot.1 with
          | error e => rfl
          | ok i =>
              have hrest : range l head.length raw.length = .ok (segments (slot :: args) ++ tail) := by
                rw [← List.append_assoc] at hargs
                have := (range_piece (by omega) hhead hargs).1
                rwa [show (head.length : ℤ) + (segments (slot :: args) ++ tail).length = raw.length by
                  rw [← hraw, @List.length_append _ head]; push_cast; rfl] at this
              simp only [Except.bind, Except.map, takeAll_keysInSlot_full, spawnCommands, hrest,
                List.length_cons]
              rw [show 0 + 1 + args.length = args.length + 1 by omega]
              by_cases hc : args.length + 1 ≠ 2 ∨ clusterSlotCount ≤ toSlot i
              · rw [if_pos hc, if_pos hc]
              · rw [if_neg hc, if_neg hc]

end SpecialParser

/-! ### The splitter -/

namespace ClientSplitter

/-- `on_string` for a string that ends its token at `next`. -/
def take (env : Env) (s : Bytes) (next : ℤ) (c : ClientSplitter) : Except Stop ClientSplitter :=
  match c.onStr with
  | .commandHead =>
      let cmd := s.map toupper
      if isStdCommand env cmd then .ok { c with lastCommandIsBad := true, onStr := .commandKey }
      else match findSpecial env cmd with
      | some k =>
          .ok { c with specialParser := some (k.create c.lastCommandBegin next), onStr := .special }
      | none => .ok { c with lastCommandIsBad := true, onStr := .nop }
  | .commandKey =>
      .ok { c with lastCommandIsBad := false, onStr := .nop, slotCalc := c.slotCalc.feed s }
  | .nop => .ok c
  | .special =>
      match c.specialParser with
      | some p => (p.take env s next).map fun p => { c with specialParser := some p }
      | none => .error .overrun

theorem onString_take (env : Env) {buf s : Bytes} {first last : ℤ} (h : range buf first last = .ok s)
    (c : ClientSplitter) : c.onString env buf first last = c.take env s (last + lengthOfCrLf) := by
  unfold onString take
  cases hf : c.onStr with
  | commandHead =>
      simp only [selectCommandParser, h, Except.map]
      split
      · rfl
      · cases findSpecial env (s.map toupper) <;> rfl
  | commandKey => simp only [onCommandKey, h, Except.map]
  | nop => rfl
  | special =>
      simp only [specialParserOnStr, hf]
      cases c.specialParser with
      | none => rfl
      | some p => simp only [SpecialParser.onStr_take env h]

/-- The strings of a message in turn; the first piece starts at `base`. -/
def takeAll (env : Env) : ℤ → List (Bytes × Bytes) → ClientSplitter → Except Stop ClientSplitter
  | _, [], c => .ok c
  | base, a :: args, c =>
      (c.take env a.1 (base + a.2.length)).bind (takeAll env (base + a.2.length) args)

theorem takeAll_nop (env : Env) : ∀ (args : List (Bytes × Bytes)) (base : ℤ) {c : ClientSplitter},
    c.onStr = .nop → takeAll env base args c = .ok c
  | [], _, _, _ => rfl
  | a :: args, base, c, h => by
      simp only [takeAll, take, h, Except.bind]
      exact takeAll_nop env args _ h

theorem takeAll_special (env : Env) : ∀ (args : List (Bytes × Bytes)) (base : ℤ)
    {c : ClientSplitter} {p : SpecialParser}, c.onStr = .special → c.specialParser = some p →
    takeAll env base args c =
      (p.takeAll env base args).map fun p => { c with specialParser := some p }
  | [], _, ⟨_, _, _, _, _, _⟩, p, h, hp => by
      cases hp
      rfl
  | a :: args, base, ⟨f, begin, sc, bad, sp, o⟩, p, h, hp => by
      cases h
      cases hp
      simp only [takeAll, SpecialParser.takeAll, take]
      cases p.take env a.1 (base + a.2.length) with
      | error e => rfl
      | ok p' => exact takeAll_special env args _ rfl rfl

/-- A message as the splitter handles it, from its strings, is the reference dispatch. -/
theorem takeAll_dispatch (env : Env) (o : Output) (p : Parts) (m : Bytes) :
    ((takeAll env 0 p.strs (new 0 o)).bind fun c => c.onSplitPoint env (p.bytes ++ m) p.bytes.length) =
      (dispatch env o p).map (new p.bytes.length) := by
  obtain ⟨strs, tail⟩ := p
  have hwhole : range (Parts.bytes ⟨strs, tail⟩ ++ m) 0 (Parts.bytes ⟨strs, tail⟩).length =
      .ok (Parts.bytes ⟨strs, tail⟩) := by
    have := (@SpecialParser.range_piece (Parts.bytes ⟨strs, tail⟩ ++ m) 0 (Parts.bytes ⟨strs, tail⟩) m
      le_rfl (by omega) rfl).1
    rwa [zero_add] at this
  match strs with
  | [] =>
      simp only [takeAll, Except.bind, dispatch, onSplitPoint, new, hwhole]
      rfl
  | (name, head) :: args =>
      simp only [takeAll, take, new, dispatch, zero_add]
      by_cases hstd : isStdCommand env (name.map toupper) = true
      · simp only [hstd, if_true, Except.bind]
        match args with
        | [] => rfl
        | key :: args =>
            simp only [takeAll, take, Except.bind]
            rw [takeAll_nop env args _ (by rfl)]
            simp only [onSplitPoint, hwhole]
            rfl
      · simp only [hstd, Bool.false_eq_true, if_false]
        cases hk : findSpecial env (name.map toupper) with
        | none =>
            simp only [Except.bind]
            rw [takeAll_nop env args _ (by rfl)]
            rfl
        | some k =>
            have hsp := SpecialParser.spawn_dispatch env o k head tail m args
            have hl : Parts.bytes ⟨(name, head) :: args, tail⟩ ++ m =
                head ++ (segments args ++ (tail ++ m)) := by
              simp [Parts.bytes]
            have hraw : Parts.bytes ⟨(name, head) :: args, tail⟩ = head ++ (segments args ++ tail) := by
              simp [Parts.bytes]
            rw [hl, hraw]
            dsimp only
            rw [← hsp]
            simp only [Except.bind]
            rw [takeAll_special env args _ (by rfl) (by rfl)]
            cases SpecialParser.takeAll env head.length args (k.create 0 head.length) with
            | error e => rfl
            | ok p =>
                simp only [Except.map, onSplitPoint]
                rfl

end ClientSplitter

/-! ### Messages -/

theorem partsFrom_bytes : ∀ (ts : List RawToken) (tail : Bytes),
    (partsFrom tail ts).bytes = tail ++ rawBytes ts
  | [], tail => by simp [partsFrom, Parts.bytes]
  | (k, raw) :: ts, tail => by
      have ih := fun tail => partsFrom_bytes ts tail
      simp only [Parts.bytes] at ih
      cases k with
      | str s => simp [partsFrom, Parts.bytes, ih []]
      | int => simp [partsFrom, Parts.bytes, ih (tail ++ raw)]
      | arr size => simp [partsFrom, Parts.bytes, ih (tail ++ raw)]
      | nil => simp [partsFrom, Parts.bytes, ih (tail ++ raw)]
      | err s => simp [partsFrom, Parts.bytes, ih (tail ++ raw)]

theorem partsOf_bytes (ts : List RawToken) : (partsOf ts).bytes = rawBytes ts := by
  rw [partsOf, partsFrom_bytes, List.nil_append]

/-- The splitter takes the strings of the tokens, unless it throws at an array. -/
theorem hookRun_client (env : Env) {l rest : Bytes} : ∀ (ts : List RawToken) (tail : Bytes) (pos : ℤ)
    (st : List ℤ) (c : ClientSplitter), 0 ≤ pos → Lexes (bytesFrom l pos) ts rest →
    hookRun (clientSplitter env) l pos st ts c =
        ClientSplitter.takeAll env (pos - tail.length) (partsFrom tail ts).strs c ∨
      ((∃ e, hookRun (clientSplitter env) l pos st ts c = .error e) ∧ ∃ t ∈ ts, ∃ size, t.1 = .arr size)
  | [], _, _, _, _, _, _ => Or.inl rfl
  | t :: ts, tail, pos, st, c, h0, hlex => by
      cases hlex with
      | @cons _ _ k n _ hk hlex =>
          have hlen : ((bytesFrom l pos).take n).length = n := List.length_take_of_le (lex_tok hk).2.1
          have hnext : pos - tail.length + ((tail ++ (bytesFrom l pos).take n).length : ℤ) = pos + n := by
            rw [List.length_append, hlen]; push_cast; omega
          have hbase : pos + n - ((tail ++ (bytesFrom l pos).take n).length : ℤ) = pos - tail.length := by
            omega
          have ih := fun tail st c => hookRun_client env ts tail (pos + n) st c (by omega)
            (by rw [bytesFrom_add h0 rfl n]; exact hlex)
          -- a token that is no string only makes the piece longer
          have hskip : ∀ st, hookRun (clientSplitter env) l (pos + n) st ts c =
                ClientSplitter.takeAll env (pos - tail.length)
                  (partsFrom (tail ++ (bytesFrom l pos).take n) ts).strs c ∨
              ((∃ e, hookRun (clientSplitter env) l (pos + n) st ts c = .error e) ∧
                ∃ t ∈ (k, (bytesFrom l pos).take n) :: ts, ∃ size, t.1 = .arr size) := by
            intro st
            rcases ih (tail ++ (bytesFrom l pos).take n) st c with h | ⟨he, t, ht, hs⟩
            · exact Or.inl (by rw [h, hbase])
            · exact Or.inr ⟨he, t, List.mem_cons_of_mem _ ht, hs⟩
          simp only [hookRun, hookToken, hlen]
          cases k with
          | int => exact hskip _
          | nil => exact hskip _
          | err s => exact hskip _
          | arr size =>
              simp only [clientSplitter, ClientSplitter.onArray]
              split
              · exact Or.inr ⟨⟨_, rfl⟩, _, List.mem_cons_self, size, rfl⟩
              · split
                · exact Or.inr ⟨⟨_, rfl⟩, _, List.mem_cons_self, size, rfl⟩
                · exact hskip _
          | str s =>
              have hs : range l (pos + n - lengthOfCrLf - s.length) (pos + n - lengthOfCrLf) = .ok s := by
                rw [range, lex_text_slice h0 hk (Or.inl rfl)]
              simp only [clientSplitter, ClientSplitter.onString_take env hs, partsFrom,
                ClientSplitter.takeAll, hnext,
                show pos + n - lengthOfCrLf + lengthOfCrLf = pos + n by omega]
              cases c.take env s (pos + n) with
              | error e => exact Or.inl rfl
              | ok c' =>
                  rcases ih [] (kindStep st (.str s)).1 c' with h | ⟨he, t, ht, hsz⟩
                  · rw [List.length_nil, Nat.cast_zero, sub_zero] at h
                    exact Or.inl h
                  · exact Or.inr ⟨he, t, List.mem_cons_of_mem _ ht, hsz⟩

/-- What the reader of client commands makes of the tokens of a message. -/
theorem messageResult_dispatch (env : Env) (o : Output) {l rest : Bytes} {ts : List RawToken}
    (hlex : Lexes l ts rest) (hrun : hookRun (clientSplitter env) l 0 [] ts (.new 0 o) =
      ClientSplitter.takeAll env 0 (partsOf ts).strs (.new 0 o)) :
    messageResult (clientSplitter env) ClientSplitter.out l 0 [] ts (.new 0 o) =
      match dispatch env o (partsOf ts) with
      | .ok o' => .whole (rawBytes ts).length o'
      | .error e => .stop e o := by
  have hd := ClientSplitter.takeAll_dispatch env o (partsOf ts) rest
  rw [partsOf_bytes, ← hlex.bytes] at hd
  simp only [messageResult, hrun, zero_add]
  have hfun : (clientSplitter env).onSplitPoint l 0 (rawBytes ts).length =
      fun c => c.onSplitPoint env l (rawBytes ts).length := rfl
  rw [hfun, hd]
  cases dispatch env o (partsOf ts) with
  | error e => rfl
  | ok o' => rfl

end Cerberus
