import Cerberus.Forward
import Cerberus.KeySlots

/-! # Requests with keys

What a request that addresses keys is made into: the commands a request of several keys is cut
into (`multiKey_decomposed`), and the slot each key is routed by (`routed_iff`).  A blocking pop
feeds its timeout to the calculator of its key, which shows unless the key has a hash tag. -/

namespace Cerberus

open Frames

theorem Request.encode_array (strs : List Bytes) :
    (Resp.array (strs.map .bulk)).encode = encodeRequest strs := by
  have hall : ∀ strs : List Bytes, Resp.encodeAll (strs.map .bulk) = encodeBulks strs := by
    intro strs
    induction strs with
    | nil => simp [Resp.encodeAll, encodeBulks]
    | cons s strs ih => rw [List.map_cons, Resp.encodeAll, ih, encodeBulks_cons, Resp.encode]
  rw [Resp.encode, List.length_map, hall]
  rfl

namespace EachKey

/-- The command for one key. -/
def verb : EachKey → Bytes
  | mget => ascii "GET"
  | del => ascii "DEL"

/-- The names of the request, in the mode that has it. -/
def Called (env : Env) (name : Bytes) : EachKey → Prop
  | mget => name.map toupper = ascii "MGET"
  | del => env.writable = true ∧ name.map toupper = ascii "DEL"

theorem commandHeader_eq (kind : EachKey) (key : Bytes) :
    kind.commandHeader ++ encodeBulk key = encodeRequest [kind.verb, key] := by
  have hhead : kind.commandHeader = encodeHeader 2 ++ encodeBulk kind.verb := by cases kind <;> decide +kernel
  rw [hhead]
  simp [encodeRequest, encodeBulks]

end EachKey

theorem setHeader_eq (key value : Bytes) :
    setHeader ++ (encodeBulk key ++ encodeBulk value) = encodeRequest [ascii "SET", key, value] := by
  have hhead : setHeader = encodeHeader 3 ++ encodeBulk (ascii "SET") := by decide +kernel
  rw [hhead]
  simp [encodeRequest, encodeBulks]

/-! ### Requests by their arguments -/

/-- The requests that address keys. -/
inductive KeyRequest where
  | std (key : Bytes) (args : List Bytes)
  | eachKey (kind : EachKey) (keys : List Bytes)
  | mset (pairs : List (Bytes × Bytes))
  | rename (oldKey newKey : Bytes)
  | eval (script count key : Bytes) (args : List Bytes)
  | blockedListPop (key timeout : Bytes)

namespace KeyRequest

def args : KeyRequest → List Bytes
  | std key args => key :: args
  | eachKey _ keys => keys
  | mset pairs => pairs.flatMap fun p => [p.1, p.2]
  | rename oldKey newKey => [oldKey, newKey]
  | eval script count key args => script :: count :: key :: args
  | blockedListPop key timeout => [key, timeout]

def keys : KeyRequest → List Bytes
  | std key _ => [key]
  | eachKey _ keys => keys
  | mset pairs => pairs.map Prod.fst
  | rename oldKey newKey => [oldKey, newKey]
  | eval _ _ key _ => [key]
  | blockedListPop key _ => [key]

/-- The name, in any case, stands for the request in this mode; `EVAL` has one key. -/
def Named (env : Env) (name : Bytes) : KeyRequest → Prop
  | std _ _ => isStdCommand env (name.map toupper) = true
  | eachKey kind _ => kind.Called env name
  | mset _ => env.writable = true ∧ name.map toupper = ascii "MSET"
  | rename _ _ => env.writable = true ∧ name.map toupper = ascii "RENAME"
  | eval _ count _ _ =>
      env.writable = true ∧ name.map toupper = ascii "EVAL" ∧ atoi env.junk count = some 1
  | blockedListPop _ _ =>
      env.writable = true ∧ (name.map toupper = ascii "BLPOP" ∨ name.map toupper = ascii "BRPOP")

/-- The group of the request whose bytes are `raw`. -/
def group (raw : Bytes) : KeyRequest → CommandGroup
  | std key _ => .single (.oneSlot raw (keySlot key))
  | eachKey kind keys =>
      kind.makeGroup (keys.map fun key => .oneSlot (encodeRequest [kind.verb, key]) (keySlot key))
  | mset pairs =>
      .mset (pairs.map fun p => .oneSlot (encodeRequest [ascii "SET", p.1, p.2]) (keySlot p.1))
  | rename oldKey newKey =>
      if keySlot oldKey = keySlot newKey then .single (.oneSlot raw (keySlot oldKey))
      else .single (.rename (encodeBulk oldKey) (encodeBulk newKey) (keySlot oldKey) (keySlot newKey))
  | eval _ _ key _ => .single (.oneSlot raw (keySlot key))
  | blockedListPop key timeout => .blockedPop raw (keySlot (key ++ timeout))

end KeyRequest

/-! ### What the dispatch makes of them -/

/-- A name of a special command, in the mode that has it. -/
structure SpecialName (env : Env) (cmd : Bytes) (k : Special) : Prop where
  std : isStdCommand env cmd = false
  special : findSpecial env cmd = some k

theorem SpecialName.mget (env : Env) : SpecialName env (ascii "MGET") (.eachKey .mget) := by
  constructor
  · unfold isStdCommand
    cases env.writable <;> decide +kernel
  · unfold findSpecial
    cases env.writable <;> decide +kernel

theorem SpecialName.write {env : Env} (hw : env.writable = true) {cmd s : Bytes} {k : Special}
    (hcmd : cmd = s) (h : (s, k) ∈ specialWriteCommand) : SpecialName env cmd k := by
  subst hcmd
  have hall : ∀ p ∈ specialWriteCommand, (stdCommands.contains p.1 || writeCommands.contains p.1) = false ∧
      (specialRsp ++ specialWriteCommand).lookup p.1 = some p.2 := by decide +kernel
  obtain ⟨hstd, hfind⟩ := hall _ h
  constructor
  · rw [isStdCommand, hw, Bool.true_and, hstd]
  · rw [findSpecial, hw, if_pos rfl, hfind]

theorem EachKey.Called.specialName {env : Env} {name : Bytes} {kind : EachKey} (h : kind.Called env name) :
    SpecialName env (name.map toupper) (.eachKey kind) := by
  cases kind with
  | mget =>
      have hname : name.map toupper = ascii "MGET" := h
      rw [hname]
      exact SpecialName.mget env
  | del =>
      obtain ⟨hw, hname⟩ := h
      exact SpecialName.write hw hname (by decide)

/-- The strings of a request behind its name, each with its encoding. -/
def argParts (args : List Bytes) : List (Bytes × Bytes) := args.map fun a => (a, encodeBulk a)

theorem pairsOf_argParts : ∀ pairs : List (Bytes × Bytes),
    pairsOf (argParts (pairs.flatMap fun p => [p.1, p.2])) =
      some (pairs.map fun p => .oneSlot (encodeRequest [ascii "SET", p.1, p.2]) (keySlot p.1))
  | [] => rfl
  | p :: pairs => by
      show Option.map _ (pairsOf (argParts (pairs.flatMap fun p => [p.1, p.2]))) = _
      rw [pairsOf_argParts pairs, setHeader_eq]
      rfl

theorem pairsOf_odd : ∀ args : List Bytes, args.length % 2 = 1 → pairsOf (argParts args) = none
  | [], h => by cases h
  | [_], _ => rfl
  | _ :: _ :: args, h => by
      have hodd : args.length % 2 = 1 := by
        rw [List.length_cons, List.length_cons] at h
        omega
      show Option.map _ (pairsOf (argParts args)) = none
      rw [pairsOf_odd args hodd]
      rfl

section Dispatch

variable {env : Env} {name : Bytes} {args : List Bytes}
  (few : (name :: args).length ≤ 1024 * 1024) (short : ∀ s ∈ name :: args, s.length < 2 ^ 63)

theorem Request.parts_bytes :
    (Request.array (name :: args) (List.cons_ne_nil _ _) few short).parts.bytes = encodeRequest (name :: args) := by
  rw [← Request.partsOf_tokens, partsOf_bytes, Resp.rawBytes_tokens]
  exact Request.encode_array _

theorem dispatch_special {k : Special} (h : SpecialName env (name.map toupper) k) (o : Output) :
    dispatch env o (Request.array (name :: args) (List.cons_ne_nil _ _) few short).parts =
      k.dispatch env o (encodeHeader (args.length + 1) ++ encodeBulk name) (encodeRequest (name :: args))
        (argParts args) [] := by
  unfold dispatch
  rw [Request.parts_bytes few short]
  simp only [Request.parts, h.std, h.special, Bool.false_eq_true, if_false]
  rfl

/-- The group of a request with keys is pushed. -/
theorem KeyRequest.dispatch_eq {q : KeyRequest} (hname : q.Named env name) (hkeys : q.keys ≠ [])
    (few : (name :: q.args).length ≤ 1024 * 1024) (short : ∀ s ∈ name :: q.args, s.length < 2 ^ 63)
    (o : Output) :
    dispatch env o (Request.array (name :: q.args) (List.cons_ne_nil _ _) few short).parts =
      .ok (o.pushCommand (q.group (encodeRequest (name :: q.args)))) := by
  cases q with
  | std key args =>
      have hbytes : (Request.array (name :: key :: args) (List.cons_ne_nil _ _) few short).parts.bytes =
          encodeRequest (name :: key :: args) := Request.parts_bytes few short
      show dispatch env o (Request.array (name :: key :: args) _ few short).parts = _
      unfold dispatch
      rw [hbytes]
      have hstd : isStdCommand env (name.map toupper) = true := hname
      simp only [Request.parts, hstd, if_true, List.map_cons]
      rfl
  | eachKey kind keys =>
      have hkind : kind.Called env name := hname
      rw [dispatch_special few short hkind.specialName]
      cases keys with
      | nil => exact absurd rfl hkeys
      | cons key keys =>
          simp only [Special.dispatch, argParts, KeyRequest.args, KeyRequest.group, List.map_cons, List.map_map,
            Function.comp_def, EachKey.commandHeader_eq, List.isEmpty_cons, Bool.false_eq_true, if_false]
  | mset pairs =>
      obtain ⟨hw, hcmd⟩ := hname
      rw [dispatch_special few short (SpecialName.write hw hcmd (k := .mset) (by decide))]
      cases pairs with
      | nil => exact absurd rfl hkeys
      | cons p pairs =>
          simp only [Special.dispatch, KeyRequest.args, pairsOf_argParts, List.map_cons, List.isEmpty_cons,
            Bool.false_eq_true, if_false, KeyRequest.group]
  | rename oldKey newKey =>
      obtain ⟨hw, hcmd⟩ := hname
      rw [dispatch_special few short (SpecialName.write hw hcmd (k := .rename) (by decide))]
      have hraw : encodeHeader 3 ++ encodeBulk name ++ segments (argParts [oldKey, newKey]) =
          encodeRequest [name, oldKey, newKey] := by
        simp [encodeRequest, encodeBulks, segments, argParts]
      simp only [Special.dispatch, argParts, KeyRequest.args, KeyRequest.group, List.map_cons, List.map_nil,
        List.length_cons, List.length_nil, Nat.reduceAdd] at hraw ⊢
      rw [hraw]
      split <;> rfl
  | eval script count key args =>
      obtain ⟨hw, hcmd, hcount⟩ := hname
      rw [dispatch_special few short (SpecialName.write hw hcmd (k := .eval) (by decide))]
      simp only [Special.dispatch, argParts, KeyRequest.args, KeyRequest.group, List.map_cons, atoiThrow, hcount,
        Except.map, ne_eq, not_true_eq_false, if_false]
  | blockedListPop key timeout =>
      obtain ⟨hw, hcmd⟩ := hname
      have hspecial : SpecialName env (name.map toupper) .blockedListPop := by
        rcases hcmd with hcmd | hcmd
        · exact SpecialName.write hw hcmd (by decide)
        · exact SpecialName.write hw hcmd (by decide)
      rw [dispatch_special few short hspecial]
      rfl

/-- A request without a key gives an error. -/
theorem dispatch_wrongNumber {k : Special} {text : String} (hk : SpecialName env (name.map toupper) k)
    (h : (∃ kind : EachKey, k = .eachKey kind ∧ text = kind.commandName ∧ args = []) ∨
      k = .mset ∧ text = "mset" ∧ (args = [] ∨ args.length % 2 = 1)) (o : Output) :
    dispatch env o (Request.array (name :: args) (List.cons_ne_nil _ _) few short).parts =
      .ok (o.pushCommand (SpecialParser.wrongNumber text)) := by
  rw [dispatch_special few short hk]
  rcases h with ⟨kind, rfl, rfl, rfl⟩ | ⟨rfl, rfl, rfl | hodd⟩
  · rfl
  · rfl
  · simp only [Special.dispatch, pairsOf_odd args hodd]

end Dispatch

/-! ### In a stream -/

namespace Request

/-- In any stream of requests, the group made of this one is `g`. -/
def Gives (env : Env) (r : Request) (g : CommandGroup) : Prop :=
  ∀ (guard : Byte) (o : Output) (before after : List Request),
    (∀ r' ∈ before ++ after, r'.Accepted env) →
    ∃ o' gs gs', splitClientCommand env (stream encode (before ++ r :: after)) guard o = .split [] o' ∧
      o'.groups = gs ++ g :: gs' ∧ gs.length = o.groups.length + before.length

theorem perform_groups {env : Env} : ∀ (reqs : List Request) (o : Output), (∀ r ∈ reqs, r.Accepted env) →
    ∃ gs, (reqs.foldl (perform env) o).groups = o.groups ++ gs ∧ gs.length = reqs.length
  | [], _, _ => ⟨[], by simp, rfl⟩
  | r :: reqs, o, h => by
      obtain ⟨o', ho⟩ := h r List.mem_cons_self o
      have hperform : perform env o r = o' := by simp only [perform, ho]
      obtain ⟨g, hg⟩ := dispatch_pushed ho
      obtain ⟨gs, hgs, hlen⟩ := perform_groups reqs o' fun r' hr' => h r' (List.mem_cons_of_mem _ hr')
      refine ⟨g :: gs, ?_, by rw [List.length_cons, hlen, List.length_cons]⟩
      rw [List.foldl_cons, hperform, hgs, hg, List.append_assoc]
      rfl

theorem gives_of_dispatch {env : Env} {r : Request} {g : CommandGroup}
    (h : ∀ o, dispatch env o r.parts = .ok (o.pushCommand g)) : r.Gives env g := by
  intro guard o before after hacc
  have hr : r.Accepted env := fun o => ⟨_, h o⟩
  have hall : ∀ r' ∈ before ++ r :: after, r'.Accepted env := by
    intro r' hr'
    rcases List.mem_append.mp hr' with hr' | hr'
    · exact hacc r' (List.mem_append_left _ hr')
    · rcases List.mem_cons.mp hr' with rfl | hr'
      · exact hr
      · exact hacc r' (List.mem_append_right _ hr')
  have hdone : Incomplete encode [] [] := rfl
  have hsplit := splitClientCommand_stream guard o (by rwa [List.append_nil]) hdone
  rw [List.append_nil] at hsplit
  obtain ⟨gs, hgs, hlen⟩ := perform_groups before o fun r' hr' => hacc r' (List.mem_append_left _ hr')
  have hperform : perform env (before.foldl (perform env) o) r = (before.foldl (perform env) o).pushCommand g := by
    simp only [perform, h]
  obtain ⟨gs', hgs', -⟩ := perform_groups after ((before.foldl (perform env) o).pushCommand g)
    fun r' hr' => hacc r' (List.mem_append_right _ hr')
  refine ⟨_, o.groups ++ gs, gs', hsplit, ?_, by rw [List.length_append, hlen]⟩
  rw [List.foldl_append, List.foldl_cons, hperform, hgs', Output.pushCommand, hgs, List.append_assoc]
  rfl

/-- The stream decides the group. -/
theorem Gives.unique {env : Env} {r : Request} {g g' : CommandGroup} (h : r.Gives env g) (h' : r.Gives env g') :
    g = g' := by
  have hnone : ∀ r' ∈ ([] : List Request) ++ [], r'.Accepted env := fun r' hr' => nomatch hr'
  obtain ⟨o₁, gs₁, gs₁', hs₁, hg₁, hl₁⟩ := h 0 ⟨[], [], 0, 0⟩ [] [] hnone
  obtain ⟨o₂, gs₂, gs₂', hs₂, hg₂, hl₂⟩ := h' 0 ⟨[], [], 0, 0⟩ [] [] hnone
  obtain rfl : o₁ = o₂ := (SplitResult.split.inj (hs₁.symm.trans hs₂)).2
  have hlists := (List.append_inj (hg₁.symm.trans hg₂) (hl₁.trans hl₂.symm)).2
  exact (List.cons.inj hlists).1

end Request

/-- Requests of several keys are cut exactly: one command for each key, in order, written as a
client would write it and sent to the slot of the key; without a key, or with a key of `MSET`
that has no value, the only outcome is an error. -/
theorem multiKey_decomposed (env : Env) (name : Bytes) (args : List Bytes)
    (few : (name :: args).length ≤ 1024 * 1024) (short : ∀ s ∈ name :: args, s.length < 2 ^ 63) :
    let r := Request.array (name :: args) (List.cons_ne_nil _ _) few short
    (∀ kind : EachKey, kind.Called env name →
      (args ≠ [] → r.Gives env (kind.makeGroup
        (args.map fun key => .oneSlot (encodeRequest [kind.verb, key]) (keySlot key)))) ∧
      (args = [] → r.Gives env (SpecialParser.wrongNumber kind.commandName))) ∧
    (env.writable = true → name.map toupper = ascii "MSET" →
      (∀ pairs : List (Bytes × Bytes), pairs ≠ [] → args = (pairs.flatMap fun p => [p.1, p.2]) →
        r.Gives env (.mset
          (pairs.map fun p => .oneSlot (encodeRequest [ascii "SET", p.1, p.2]) (keySlot p.1)))) ∧
      (args = [] ∨ args.length % 2 = 1 → r.Gives env (SpecialParser.wrongNumber "mset"))) := by
  refine ⟨fun kind hkind => ⟨fun hne => ?_, fun hnil => ?_⟩, fun hw hname => ⟨fun pairs hne heq => ?_, fun h => ?_⟩⟩
  · exact Request.gives_of_dispatch (KeyRequest.dispatch_eq (q := .eachKey kind args) hkind hne few short)
  · exact Request.gives_of_dispatch (dispatch_wrongNumber few short hkind.specialName (Or.inl ⟨kind, rfl, rfl, hnil⟩))
  · subst heq
    refine Request.gives_of_dispatch (KeyRequest.dispatch_eq (q := .mset pairs) ⟨hw, hname⟩ ?_ few short)
    exact fun hnil => hne (List.map_eq_nil_iff.mp hnil)
  · exact Request.gives_of_dispatch (dispatch_wrongNumber few short (SpecialName.write hw hname (by decide))
      (Or.inr ⟨rfl, rfl, h⟩))

/-- An `MGET` of an empty key and a line break, and an `MSET` of one pair. -/
theorem multiKey_decomposed_crlf :
    (Request.array [ascii "MGet", [], crlf] (by decide) (by decide) (by decide)).Gives
        ⟨false, fun _ => [], fun _ => 0, 0⟩
        (.multiple [.oneSlot (ascii "*2\r\n$3\r\nGET\r\n$0\r\n\r\n") 0,
          .oneSlot (ascii "*2\r\n$3\r\nGET\r\n$2\r\n\r\n\r\n") (keySlot crlf)]) ∧
    (Request.array [ascii "MSET", ascii "a", ascii "b"] (by decide) (by decide) (by decide)).Gives
        ⟨true, fun _ => [], fun _ => 0, 0⟩
        (.mset [.oneSlot (ascii "*3\r\n$3\r\nSET\r\n$1\r\na\r\n$1\r\nb\r\n") 15495]) := by
  have hget := (multiKey_decomposed ⟨false, fun _ => [], fun _ => 0, 0⟩ (ascii "MGet") [[], crlf] (by decide)
    (by decide)).1 .mget (by unfold EachKey.Called; decide)
  have hset := (multiKey_decomposed ⟨true, fun _ => [], fun _ => 0, 0⟩ (ascii "MSET") [ascii "a", ascii "b"] (by decide)
    (by decide)).2 rfl (by decide)
  constructor
  · rw [show CommandGroup.multiple _ = EachKey.mget.makeGroup (([[], crlf] : List Bytes).map fun key =>
      .oneSlot (encodeRequest [EachKey.mget.verb, key]) (keySlot key)) by decide +kernel]
    exact hget.1 (by decide)
  · rw [show CommandGroup.mset _ = .mset ([(ascii "a", ascii "b")].map fun p =>
      .oneSlot (encodeRequest [ascii "SET", p.1, p.2]) (keySlot p.1)) by decide +kernel]
    exact hset.1 [(ascii "a", ascii "b")] (by decide) rfl

/-! ### The slots of the keys -/

/-- The slot the `i`-th key of a request is routed by. -/
def CommandGroup.slotOf (i : ℕ) : CommandGroup → Option ℕ
  | single (.oneSlot _ slot) => some slot
  | single (.rename _ _ oldSlot newSlot) => [oldSlot, newSlot][i]?
  | multiple cs => (cs[i]?).map DataCommand.slot
  | del cs => (cs[i]?).map DataCommand.slot
  | mset cs => (cs[i]?).map DataCommand.slot
  | blockedPop _ slot => some slot
  | _ => none

/-- The `i`-th key of the request is routed by the slot. -/
def Request.RoutedBy (env : Env) (r : Request) (i slot : ℕ) : Prop :=
  ∃ g, r.Gives env g ∧ g.slotOf i = some slot

namespace KeyRequest

/-- `r` is the request, under one of its names. -/
def Sent (env : Env) (q : KeyRequest) (r : Request) : Prop :=
  ∃ name few short, r = .array (name :: q.args) (List.cons_ne_nil _ _) few short ∧ q.Named env name

/-- A blocking pop. -/
def Blocking : KeyRequest → Prop
  | blockedListPop _ _ => True
  | _ => False

theorem Sent.gives {env : Env} {q : KeyRequest} {r : Request} (h : q.Sent env r) (hkeys : q.keys ≠ []) :
    ∃ raw, r.Gives env (q.group raw) := by
  obtain ⟨name, few, short, rfl, hname⟩ := h
  exact ⟨_, Request.gives_of_dispatch (dispatch_eq hname hkeys few short)⟩

/-- The groups of all but the blocking pops take the slots of the keys. -/
theorem slotOf_group {q : KeyRequest} {i : ℕ} {key : Bytes} (hkey : q.keys[i]? = some key) (raw : Bytes)
    (h : ¬q.Blocking) : (q.group raw).slotOf i = some (keySlot key) := by
  have hone : ∀ k : Bytes, [k][i]? = some key → k = key := by
    intro k hk
    have hmem := List.mem_of_getElem? hk
    exact (List.mem_singleton.mp hmem).symm
  cases q with
  | std k args => rw [← hone k hkey]; rfl
  | eval script count k args => rw [← hone k hkey]; rfl
  | blockedListPop k timeout => exact absurd trivial h
  | eachKey kind keys =>
      have hk : keys[i]? = some key := hkey
      cases kind with
      | mget => simp [group, EachKey.makeGroup, CommandGroup.slotOf, List.getElem?_map, hk, DataCommand.slot]
      | del => simp [group, EachKey.makeGroup, CommandGroup.slotOf, List.getElem?_map, hk, DataCommand.slot]
  | mset pairs =>
      have hk : (pairs.map Prod.fst)[i]? = some key := hkey
      rw [List.getElem?_map] at hk
      obtain ⟨p, hp, rfl⟩ := Option.map_eq_some_iff.mp hk
      simp [group, CommandGroup.slotOf, List.getElem?_map, hp, DataCommand.slot]
  | rename oldKey newKey =>
      have hk : [oldKey, newKey][i]? = some key := hkey
      have hslots : [keySlot oldKey, keySlot newKey][i]? = some (keySlot key) := by
        have hmap := congrArg (Option.map keySlot) hk
        rwa [← List.getElem?_map] at hmap
      by_cases heq : keySlot oldKey = keySlot newKey
      · -- one slot for both keys
        rw [group, if_pos heq]
        have hmem := List.mem_of_getElem? hslots
        have hsame : keySlot key = keySlot oldKey := by
          rw [← heq] at hmem
          simpa using hmem
        rw [hsame]
        rfl
      · rw [group, if_neg heq]
        exact hslots

end KeyRequest

/-- All requests but the blocking pops route a key by its slot.  That all requests do so, with the
blocking pops, is the case for a key with a hash tag, and where there are no blocking pops. -/
theorem routed_iff (env : Env) (key : Bytes) (hkey : key.length < 2 ^ 63) :
    (∀ (q : KeyRequest) (r : Request) i, q.Sent env r → q.keys[i]? = some key → ¬q.Blocking →
      r.RoutedBy env i (keySlot key)) ∧
    ((∀ (q : KeyRequest) (r : Request) i, q.Sent env r → q.keys[i]? = some key → r.RoutedBy env i (keySlot key)) ↔
      env.writable = false ∨ HashTagged key) := by
  have hother : ∀ (q : KeyRequest) (r : Request) i, q.Sent env r → q.keys[i]? = some key → ¬q.Blocking →
      r.RoutedBy env i (keySlot key) := by
    intro q r i hsent hk hq
    obtain ⟨raw, hgives⟩ := hsent.gives fun hnil => by simp [hnil] at hk
    exact ⟨_, hgives, KeyRequest.slotOf_group hk raw hq⟩
  refine ⟨hother, fun h => ?_, fun h q r i hsent hk => ?_⟩
  · cases hw : env.writable with
    | false => exact Or.inl rfl
    | true =>
        refine Or.inr (by_contra fun htag => ?_)
        -- the same key with the timeouts 0 and 1
        have hpop : ∀ b : Byte, keySlot (key ++ [b]) = keySlot key := by
          intro b
          have hsent : (KeyRequest.blockedListPop key [b]).Sent env (.array [ascii "BLPOP", key, [b]]
              (List.cons_ne_nil _ _) (by simp) (by
                intro s hs
                simp only [List.mem_cons, List.not_mem_nil, or_false] at hs
                rcases hs with rfl | rfl | rfl
                · decide
                · exact hkey
                · simp)) :=
            ⟨_, _, _, rfl, hw, Or.inl (by decide)⟩
          obtain ⟨g, hg, hslot⟩ := h _ _ 0 hsent rfl
          obtain ⟨raw, hgives⟩ := hsent.gives (List.cons_ne_nil _ _)
          rw [hg.unique hgives] at hslot
          exact Option.some.inj hslot
        exact KeySlotCalc.getSlot_feed_untagged htag ((hpop (chr '0')).trans (hpop (chr '1')).symm)
  · by_cases hq : q.Blocking
    · cases q with
      | blockedListPop k timeout =>
          obtain rfl : key = k := List.mem_singleton.mp (List.mem_of_getElem? hk)
          obtain ⟨raw, hgives⟩ := hsent.gives (List.cons_ne_nil _ _)
          obtain ⟨name, few, short, -, hw, -⟩ := hsent
          rcases h with h | htag
          · rw [h] at hw
            cases hw
          · exact ⟨_, hgives, congrArg some (KeySlotCalc.getSlot_feed_tagged htag timeout)⟩
      | _ => exact hq.elim
    · exact hother q r i hsent hk hq

/-- The key `a` has the slot 15495; `BLPOP a 0` is sent to the slot of `a0`. -/
theorem routed_blpop :
    ∃ (q : KeyRequest) (r : Request), q.Sent ⟨true, fun _ => [], fun _ => 0, 0⟩ r ∧ q.keys = [ascii "a"] ∧
      keySlot (ascii "a") = 15495 ∧ r.RoutedBy ⟨true, fun _ => [], fun _ => 0, 0⟩ 0 (keySlot (ascii "a0")) ∧
      keySlot (ascii "a0") ≠ 15495 ∧ ¬r.RoutedBy ⟨true, fun _ => [], fun _ => 0, 0⟩ 0 15495 := by
  have hsent : (KeyRequest.blockedListPop (ascii "a") (ascii "0")).Sent ⟨true, fun _ => [], fun _ => 0, 0⟩
      (.array [ascii "BLPOP", ascii "a", ascii "0"] (List.cons_ne_nil _ _) (by decide) (by decide)) :=
    ⟨_, _, _, rfl, rfl, Or.inl (by decide)⟩
  obtain ⟨raw, hgives⟩ := hsent.gives (List.cons_ne_nil _ _)
  refine ⟨_, _, hsent, rfl, by decide +kernel, ⟨_, hgives, rfl⟩, by decide +kernel, fun h => ?_⟩
  obtain ⟨g, hg, hslot⟩ := h
  rw [hg.unique hgives] at hslot
  exact absurd (Option.some.inj hslot) (by decide +kernel)

theorem routed_iff_tagged :
    (ascii "\x7ba\x7db").length < 2 ^ 63 ∧ HashTagged (ascii "\x7ba\x7db") ∧
    ∀ (q : KeyRequest) (r : Request) i, q.Sent ⟨true, fun _ => [], fun _ => 0, 0⟩ r →
      q.keys[i]? = some (ascii "\x7ba\x7db") →
      r.RoutedBy ⟨true, fun _ => [], fun _ => 0, 0⟩ i (keySlot (ascii "\x7ba\x7db")) :=
  ⟨by decide, by decide, (routed_iff ⟨true, fun _ => [], fun _ => 0, 0⟩ _ (by decide)).2.mpr (Or.inr (by decide))⟩

end Cerberus
