import Cerberus.Chronicles
import Cerberus.Fetching

/-! # The commands a backend is sent

`core/command.cpp` has a table of the commands that read, a table of those that write, which is used
in write mode only, and functions for the rest.  Whatever bytes the clients send, those included
that take the parser back, a request that waits at a backend is one of the commands of the mode
(`World.queued_named`): without write mode none of them changes a value. -/

namespace Cerberus

/-! ### Names -/

/-- The names of the commands that backends are sent on the connections they share. -/
def dataNames (env : Env) : List Bytes :=
  stdCommands ++ if env.writable then
    writeCommands ++ ["DEL", "RENAME", "PUBLISH", "EVAL", "CLUSTER"].map ascii else []

/-- The names of the commands that get a connection of their own. -/
def longNames (env : Env) : List Bytes :=
  ["SUBSCRIBE", "PSUBSCRIBE"].map ascii ++ if env.writable then ["BLPOP", "BRPOP"].map ascii else []

/-- If the bytes are a request, it has one of these names. -/
def NamedIn (names : List Bytes) (b : Bytes) : Prop :=
  ∀ s strs, (s :: strs).length < 2 ^ 63 → Short (s :: strs) → b = encodeRequest (s :: strs) → s.map toupper ∈ names

namespace NamedIn

variable {names : List Bytes}

/-- A header of the proxy's own. -/
theorem header {a b : Bytes} {n : ℕ} (hn : n < 2 ^ 63) (hshort : a.length < 2 ^ 63)
    (hname : a.map toupper ∈ names) : NamedIn names (encodeHeader n ++ encodeBulk a ++ b) := by
  intro s strs hlen hs heq
  rw [encodeRequest, encodeBulks_cons, List.append_assoc] at heq
  obtain ⟨-, hrest⟩ := encodeHeader_unique hn hlen heq
  obtain ⟨rfl, -⟩ := encodeBulk_unique hshort (hs s List.mem_cons_self) hrest
  exact hname

/-- The client's own bytes. -/
theorem raw {l rest b y name head : Bytes} {args : List (Bytes × Bytes)} {ts : List RawToken}
    (hlex : Lexes l ts rest) (hp : (partsOf ts).strs = (name, head) :: args) (hb : l = b ++ y)
    (hname : name.map toupper ∈ names) : NamedIn names b := by
  intro s strs hlen hs heq
  rcases lexes_encodeRequest hlex hlen hs (by rw [hb, heq]) with rfl | rfl | ⟨head', args', hp'⟩
  · cases hp
  · cases hp
  · rw [hp] at hp'
    cases hp'
    exact hname

theorem of_not_request {b : Bytes} (h : ¬IsRequest (fun _ => True) b) : NamedIn names b :=
  fun s strs hlen hs heq => absurd ⟨s, strs, hlen, hs, heq, trivial⟩ h

end NamedIn

section headers

variable {env : Env} (b : Bytes)

theorem mem_dataNames_of_writable (hw : env.writable = true) {name : Bytes}
    (h : name ∈ writeCommands ++ ["DEL", "RENAME", "PUBLISH", "EVAL", "CLUSTER"].map ascii) : name ∈ dataNames env := by
  rw [dataNames, if_pos hw]
  exact List.mem_append_right _ h

theorem namedIn_get : NamedIn (dataNames env) (getHeader ++ b) :=
  NamedIn.header (a := ascii "GET") (n := 2) (by decide) (by decide) (List.mem_append_left _ (by decide))

theorem namedIn_del (hw : env.writable = true) : NamedIn (dataNames env) (delHeader ++ b) :=
  NamedIn.header (a := ascii "DEL") (n := 2) (by decide) (by decide) (mem_dataNames_of_writable hw (by decide))

theorem namedIn_set (hw : env.writable = true) : NamedIn (dataNames env) (setHeader ++ b) :=
  NamedIn.header (a := ascii "SET") (n := 3) (by decide) (by decide) (mem_dataNames_of_writable hw (by decide))

theorem namedIn_keysInSlot (hw : env.writable = true) : NamedIn (dataNames env) (keysInSlotHeader ++ b) :=
  NamedIn.header (a := ascii "CLUSTER") (n := 4) (b := encodeBulk (ascii "GETKEYSINSLOT") ++ b) (by decide) (by decide)
    (mem_dataNames_of_writable hw (by decide))

end headers

/-! ### Groups -/

def DataCommand.Permitted (env : Env) : DataCommand → Prop
  | .oneSlot b _ => NamedIn (dataNames env) b
  | .rename _ _ _ _ => env.writable = true

/-- The request a long connection begins with. -/
def CommandGroup.longRequest : CommandGroup → Option Bytes
  | .subscribe b => some b
  | .blockedPop b _ => some b
  | _ => none

/-- All that the group has backends do is among the commands of the mode. -/
structure CommandGroup.Permitted (env : Env) (kind : CommandGroup) : Prop where
  commands : ∀ c ∈ kind.commands, c.Permitted env
  longRequest : ∀ b, kind.longRequest = some b → NamedIn (longNames env) b

namespace CommandGroup.Permitted

variable {env : Env}

theorem direct (b : Bytes) : (CommandGroup.direct b).Permitted env := ⟨nofun, nofun⟩

theorem single {c : DataCommand} (h : c.Permitted env) : (CommandGroup.single c).Permitted env :=
  ⟨fun _ hc => List.mem_singleton.mp hc ▸ h, nofun⟩

end CommandGroup.Permitted

/-! ### The parser -/

theorem range_split {buf b : Bytes} {first last : ℤ} (h : range buf first last = .ok b) :
    bytesFrom buf first = b ++ bytesFrom buf last := by
  unfold range slice at h
  split at h
  · rename_i s heq
    cases h
    split at heq
    · rename_i hle
      cases heq
      rw [bytesFrom, bytesFrom, show last.toNat = first.toNat + (last - first).toNat by omega, ← List.drop_drop,
        List.take_append_drop]
    · cases heq
  · cases h

namespace ClientSplitter

variable {env : Env} {buf : Bytes} {guard : Byte}

/-- Since `begin` there have been tokens, and none of them was a string. -/
def Bare (buf : Bytes) (begin pos : ℤ) : Prop :=
  ∃ ts, Lexes (bytesFrom buf begin) ts (bytesFrom buf pos) ∧ (∀ t ∈ ts, ∀ s, t.1 ≠ Kind.str s)

/-- The first string behind `begin` is one of these names. -/
def Begun (buf : Bytes) (names : List Bytes) (begin : ℤ) : Prop :=
  ∃ ts rest name head args, Lexes (bytesFrom buf begin) ts rest ∧ (partsOf ts).strs = (name, head) :: args ∧
    name.map toupper ∈ names

theorem partsFrom_bare : ∀ {ts : List RawToken} (us : List RawToken) (tail : Bytes), (∀ t ∈ ts, ∀ s, t.1 ≠ Kind.str s) →
    partsFrom tail (ts ++ us) = partsFrom (tail ++ rawBytes ts) us
  | [], us, tail, _ => by rw [rawBytes_nil, List.append_nil, List.nil_append]
  | (k, raw) :: ts, us, tail, h => by
      have ih := partsFrom_bare us (tail ++ raw) fun t ht => h t (List.mem_cons_of_mem _ ht)
      rw [rawBytes_cons, ← List.append_assoc, ← ih]
      cases k with
      | str s => exact absurd rfl (h _ List.mem_cons_self s)
      | int => rfl
      | arr size => rfl
      | nil => rfl
      | err s => rfl

theorem Begun.namedIn {names : List Bytes} {begin last : ℤ} {b : Bytes} (h : Begun buf names begin)
    (hb : range buf begin last = .ok b) : NamedIn names b := by
  obtain ⟨ts, rest, name, head, args, hlex, hp, hname⟩ := h
  exact NamedIn.raw hlex hp (range_split hb) hname

theorem Bare.namedIn {names : List Bytes} {begin last : ℤ} {b : Bytes} (h : Bare buf begin last)
    (hb : range buf begin last = .ok b) : NamedIn names b := by
  obtain ⟨ts, hlex, hbare⟩ := h
  have hraw : b = rawBytes ts := List.append_cancel_right ((range_split hb).symm.trans hlex.bytes)
  rw [hraw]
  refine NamedIn.of_not_request (not_request_of_no_strs hlex ?_)
  have hparts := partsFrom_bare [] [] hbare
  rw [List.append_nil] at hparts
  rw [partsOf, hparts]
  rfl

/-- The tokens of the parser are those of the text, except for lengths below zero. -/
theorem lex_of_tokenAt {pos : ℤ} {t : Token} (ht : tokenAt buf guard pos = .ok t) :
    (∃ k n, lex (bytesFrom buf pos) = .tok k n ∧ t = k.token pos n) ∨
      ∃ first next, t = .str first next ∧ next - lengthOfCrLf < first := by
  obtain ⟨h0, hlt⟩ := tokenAt_ok_inside ht
  have hlex := tokenAt_lex guard h0 hlt
  rw [ht] at hlex
  cases hl : lex (bytesFrom buf pos) with
  | tok k n =>
      rw [hl] at hlex
      exact Or.inl ⟨k, n, rfl, Except.ok.inj hlex⟩
  | negative =>
      rw [hl] at hlex
      obtain ⟨first, next, heq, hneg⟩ := hlex
      exact Or.inr ⟨first, next, Except.ok.inj heq, hneg⟩
  | more => rw [hl] at hlex; cases hlex
  | bad b => rw [hl] at hlex; cases hlex
  | colon => rw [hl] at hlex; cases hlex

theorem Bare.next {begin pos : ℤ} {t : Token} (h : Bare buf begin pos) (ht : tokenAt buf guard pos = .ok t)
    (hstr : ∀ first next, t ≠ .str first next) : Bare buf begin t.next := by
  obtain ⟨ts, hlex, hbare⟩ := h
  rcases lex_of_tokenAt ht with ⟨k, n, hk, rfl⟩ | ⟨first, next, rfl, -⟩
  · refine ⟨ts ++ [(k, (bytesFrom buf pos).take n)], hlex.append (.cons hk ?_), fun u hu s hs => ?_⟩
    · rw [Kind.token_next, ← bytesFrom_add (tokenAt_ok_inside ht).1 rfl n]
      exact .nil _
    · rcases List.mem_append.mp hu with hu | hu
      · exact hbare u hu s hs
      · rw [List.mem_singleton.mp hu] at hs
        dsimp only at hs
        rw [hs] at hstr
        exact hstr _ _ rfl
  · exact absurd rfl (hstr first next)

theorem Bare.name {names : List Bytes} {begin pos first next : ℤ} {name : Bytes} (h : Bare buf begin pos)
    (ht : tokenAt buf guard pos = .ok (.str first next)) (hr : range buf first (next - lengthOfCrLf) = .ok name)
    (hname : name.map toupper ∈ names) : Begun buf names begin := by
  obtain ⟨ts, hlex, hbare⟩ := h
  rcases lex_of_tokenAt ht with ⟨k, n, hk, heq⟩ | ⟨first', next', heq, hneg⟩
  · cases k with
    | str s =>
        cases heq
        unfold range at hr
        rw [lex_text_slice (tokenAt_ok_inside ht).1 hk (Or.inl rfl)] at hr
        cases hr
        refine ⟨ts ++ [(.str name, (bytesFrom buf pos).take n)], _, name, [] ++ rawBytes ts ++ (bytesFrom buf pos).take n, [], hlex.append (.cons hk (.nil _)), ?_, hname⟩
        rw [partsOf, partsFrom_bare _ _ hbare]
        rfl
    | int => cases heq
    | arr size => cases heq
    | nil => cases heq
    | err s => cases heq
  · -- the parser would have to take a string that ends before it begins
    cases heq
    unfold range slice at hr
    rw [if_neg (by omega)] at hr
    cases hr

end ClientSplitter

namespace SpecialParser

variable {env : Env} {buf : Bytes}

/-- What the parser will give out is among the commands of the mode. -/
def Permitted (env : Env) (buf : Bytes) : SpecialParser → Prop
  | eachKey .mget _ _ => True
  | eachKey .del _ _ => env.writable = true
  | mset _ _ _ => env.writable = true
  | rename begin _ _ _ _ _ => env.writable = true ∧ ClientSplitter.Begun buf (dataNames env) begin
  | subscribe begin _ => ClientSplitter.Begun buf (longNames env) begin
  | blockedListPop begin _ _ => ClientSplitter.Begun buf (longNames env) begin
  | eval begin _ _ _ => ClientSplitter.Begun buf (dataNames env) begin
  | publish begin _ => ClientSplitter.Begun buf (dataNames env) begin
  | keysInSlot _ _ _ => env.writable = true
  | _ => True

theorem Permitted.onStr {p p' : SpecialParser} {first last : ℤ} (hp : p.Permitted env buf)
    (h : p.onStr env buf first last = .ok p') : p'.Permitted env buf := by
  cases p with
  | ping msg =>
      obtain ⟨s, -, rfl⟩ := Except.map_ok h
      trivial
  | proxyStats => cases h; trivial
  | updateSlotMap => cases h; trivial
  | setRemotes remotes lastHost currentIsHost bad =>
      simp only [SpecialParser.onStr] at h
      split at h
      · cases h; trivial
      · obtain ⟨s, -, h⟩ := Except.bind_ok h
        split at h
        · cases h; trivial
        · obtain ⟨port, -, rfl⟩ := Except.map_ok h
          trivial
  | eachKey kind points slots =>
      obtain ⟨s, -, rfl⟩ := Except.map_ok h
      cases kind <;> exact hp
  | mset points slots currentIsKey =>
      simp only [SpecialParser.onStr] at h
      split at h
      · obtain ⟨s, -, rfl⟩ := Except.map_ok h
        exact hp
      · cases h; exact hp
  | rename begin points ks₀ ks₁ index bad =>
      simp only [SpecialParser.onStr] at h
      split at h
      · cases h; exact hp
      · obtain ⟨s, -, rfl⟩ := Except.map_ok h
        exact hp
  | subscribe begin noArg => cases h; exact hp
  | blockedListPop begin slotCalc count =>
      obtain ⟨s, -, rfl⟩ := Except.map_ok h
      exact hp
  | eval begin slotCalc argCount keyCount =>
      simp only [SpecialParser.onStr] at h
      split at h
      · obtain ⟨s, -, h⟩ := Except.bind_ok h
        obtain ⟨n, -, rfl⟩ := Except.map_ok h
        exact hp
      · obtain ⟨s, -, rfl⟩ := Except.map_ok h
        exact hp
      · cases h; exact hp
  | publish begin count => cases h; exact hp
  | keysInSlot start count slot =>
      simp only [SpecialParser.onStr] at h
      split at h
      · obtain ⟨s, -, h⟩ := Except.bind_ok h
        obtain ⟨n, -, rfl⟩ := Except.map_ok h
        exact hp
      · cases h; exact hp

theorem Permitted.carries {p : SpecialParser} {last : ℤ} {kind : CommandGroup} (hp : p.Permitted env buf)
    (h : p.Carries buf last kind) : kind.Permitted env := by
  cases p with
  | eachKey each points slots =>
      obtain ⟨cs, rfl, hcs⟩ := h
      cases each with
      | mget =>
          refine ⟨fun c hc => ?_, nofun⟩
          obtain ⟨b, slot, rfl⟩ := hcs c hc
          exact namedIn_get b
      | del =>
          refine ⟨fun c hc => ?_, nofun⟩
          obtain ⟨b, slot, rfl⟩ := hcs c hc
          exact namedIn_del b hp
  | mset points slots currentIsKey =>
      obtain ⟨cs, rfl, hcs⟩ := h
      refine ⟨fun c hc => ?_, nofun⟩
      obtain ⟨b, slot, rfl⟩ := hcs c hc
      exact namedIn_set b hp
  | rename begin points ks₀ ks₁ index bad =>
      rcases h with ⟨i, b, slot, hb, rfl⟩ | ⟨oldKey, newKey, slot, slot', rfl⟩
      · exact .single (hp.2.namedIn hb)
      · exact .single hp.1
  | subscribe begin noArg =>
      obtain ⟨b, hb, rfl⟩ := h
      refine ⟨nofun, fun b' hb' => ?_⟩
      cases hb'
      exact ClientSplitter.Begun.namedIn hp hb
  | blockedListPop begin slotCalc count =>
      obtain ⟨b, slot, hb, rfl⟩ := h
      refine ⟨nofun, fun b' hb' => ?_⟩
      cases hb'
      exact ClientSplitter.Begun.namedIn hp hb
  | eval begin slotCalc argCount keyCount =>
      obtain ⟨b, slot, hb, rfl⟩ := h
      exact .single (ClientSplitter.Begun.namedIn hp hb)
  | publish begin count =>
      obtain ⟨b, slot, hb, rfl⟩ := h
      exact .single (ClientSplitter.Begun.namedIn hp hb)
  | keysInSlot start count slot =>
      obtain ⟨b, slot', rfl⟩ := h
      exact .single (namedIn_keysInSlot b hp)
  | ping msg => exact h.elim
  | proxyStats => exact h.elim
  | updateSlotMap => exact h.elim
  | setRemotes remotes lastHost currentIsHost bad => exact h.elim

end SpecialParser

theorem mem_dataNames_of_std {env : Env} {name : Bytes} (h : isStdCommand env name = true) : name ∈ dataNames env := by
  rw [isStdCommand, Bool.or_eq_true, Bool.and_eq_true] at h
  rcases h with h | ⟨hw, h⟩
  · exact List.mem_append_left _ (List.elem_iff.mp h)
  · exact mem_dataNames_of_writable hw (List.mem_append_left _ (List.elem_iff.mp h))

/-- The parser that a name stands for. -/
theorem Special.create_permitted {env : Env} {buf name : Bytes} {k : Special} {begin start : ℤ}
    (hk : findSpecial env name = some k)
    (hbegun : ∀ {names}, name ∈ names → ClientSplitter.Begun buf names begin) :
    (k.create begin start).Permitted env buf := by
  obtain ⟨l₁, l₂, hl, -⟩ := List.lookup_eq_some_iff.mp hk
  have hmem : (name, k) ∈ specialRsp ++ if env.writable then specialWriteCommand else [] := by
    rw [hl]
    exact List.mem_append_right _ List.mem_cons_self
  rcases List.mem_append.mp hmem with hmem | hmem
  · simp only [specialRsp, List.mem_cons, Prod.mk.injEq, List.not_mem_nil, or_false] at hmem
    rcases hmem with ⟨-, rfl⟩ | ⟨-, rfl⟩ | ⟨-, rfl⟩ | ⟨-, rfl⟩ | ⟨-, rfl⟩ | ⟨-, rfl⟩ | ⟨rfl, rfl⟩ | ⟨rfl, rfl⟩
    · trivial
    · trivial
    · trivial
    · trivial
    · trivial
    · trivial
    · exact hbegun (List.mem_append_left _ (by decide))
    · exact hbegun (List.mem_append_left _ (by decide))
  · split at hmem
    · rename_i hw
      have hlong : ∀ {x}, x ∈ ["BLPOP", "BRPOP"].map ascii → x ∈ longNames env := by
        intro x hx
        rw [longNames, if_pos hw]
        exact List.mem_append_right _ hx
      simp only [specialWriteCommand, List.mem_cons, Prod.mk.injEq, List.not_mem_nil, or_false] at hmem
      rcases hmem with ⟨-, rfl⟩ | ⟨-, rfl⟩ | ⟨rfl, rfl⟩ | ⟨rfl, rfl⟩ | ⟨-, rfl⟩ | ⟨rfl, rfl⟩ | ⟨rfl, rfl⟩ | ⟨rfl, rfl⟩
      · exact hw
      · exact hw
      · exact ⟨hw, hbegun (mem_dataNames_of_writable hw (by decide))⟩
      · exact hbegun (mem_dataNames_of_writable hw (by decide))
      · exact hw
      · exact hbegun (hlong (by decide))
      · exact hbegun (hlong (by decide))
      · exact hbegun (mem_dataNames_of_writable hw (by decide))
    · cases hmem

namespace ClientSplitter

variable {env : Env} {buf : Bytes} {guard : Byte}

/-- What has been given out is permitted, and what is being read will be. -/
structure Permitted (env : Env) (buf : Bytes) (pos : ℤ) (c : ClientSplitter) : Prop where
  groups : ∀ kind ∈ c.out.groups, kind.Permitted env
  reading : match c.onStr with
    | .commandHead => c.lastCommandIsBad = false ∧ c.specialParser = none ∧ Bare buf c.lastCommandBegin pos
    | .commandKey => c.lastCommandIsBad = true ∧ c.specialParser = none ∧ Begun buf (dataNames env) c.lastCommandBegin
    | .nop => c.specialParser = none ∧ (c.lastCommandIsBad = false → Begun buf (dataNames env) c.lastCommandBegin)
    | .special => c.lastCommandIsBad = false ∧ ∃ p, c.specialParser = some p ∧ p.Permitted env buf

theorem Permitted.onString {c c' : ClientSplitter} {pos first next : ℤ} (h : c.Permitted env buf pos)
    (ht : tokenAt buf guard pos = .ok (.str first next))
    (hc : c.onString env buf first (next - lengthOfCrLf) = .ok c') : c'.Permitted env buf next := by
  have hreading := h.reading
  unfold ClientSplitter.onString at hc
  cases hm : c.onStr with
  | commandHead =>
      rw [hm] at hc hreading
      obtain ⟨hgood, hnone, hbare⟩ := hreading
      obtain ⟨name, hname, rfl⟩ := Except.map_ok hc
      have hbegun : ∀ {names}, name.map toupper ∈ names → Begun buf names c.lastCommandBegin :=
        fun hmem => hbare.name ht hname hmem
      dsimp only
      split
      · rename_i hstd
        exact ⟨h.groups, rfl, hnone, hbegun (mem_dataNames_of_std hstd)⟩
      · split
        · rename_i k hk
          exact ⟨h.groups, hgood, _, rfl, Special.create_permitted hk hbegun⟩
        · exact ⟨h.groups, hnone, nofun⟩
  | commandKey =>
      rw [hm] at hc hreading
      obtain ⟨-, hnone, hbegun⟩ := hreading
      obtain ⟨key, -, rfl⟩ := Except.map_ok hc
      exact ⟨h.groups, hnone, fun _ => hbegun⟩
  | nop =>
      rw [hm] at hc hreading
      cases hc
      refine ⟨h.groups, ?_⟩
      rw [hm]
      exact hreading
  | special =>
      rw [hm] at hc hreading
      obtain ⟨hgood, p, hp, hperm⟩ := hreading
      unfold specialParserOnStr at hc
      rw [hp] at hc
      obtain ⟨p', hp', rfl⟩ := Except.map_ok hc
      refine ⟨h.groups, ?_⟩
      rw [hm]
      exact ⟨hgood, p', rfl, hperm.onStr hp'⟩

/-- A token that is no string leaves the splitter as it is. -/
theorem Permitted.next {c : ClientSplitter} {pos : ℤ} {t : Token} (h : c.Permitted env buf pos)
    (ht : tokenAt buf guard pos = .ok t) (hstr : ∀ first next, t ≠ .str first next) : c.Permitted env buf t.next := by
  have hreading := h.reading
  refine ⟨h.groups, ?_⟩
  cases hm : c.onStr with
  | commandHead =>
      rw [hm] at hreading
      exact ⟨hreading.1, hreading.2.1, hreading.2.2.next ht hstr⟩
  | commandKey => rw [hm] at hreading; exact hreading
  | nop => rw [hm] at hreading; exact hreading
  | special => rw [hm] at hreading; exact hreading

/-- The group that a message gives is permitted. -/
theorem Permitted.ends {c c' : ClientSplitter} {i : ℤ} {kind : CommandGroup} (h : c.Permitted env buf i)
    (he : Ends env buf i c c' kind) : kind.Permitted env := by
  have hreading := h.reading
  rcases he.kind with ⟨b, rfl, -⟩ | ⟨hgood, hkind⟩
  · exact .direct b
  · cases hm : c.onStr with
    | commandHead =>
        rw [hm] at hreading
        obtain ⟨-, hnone, hbare⟩ := hreading
        rw [hnone] at hkind
        obtain ⟨b, slot, hb, rfl⟩ := hkind
        exact .single (hbare.namedIn hb)
    | commandKey =>
        rw [hm, hgood] at hreading
        cases hreading.1
    | nop =>
        rw [hm] at hreading
        obtain ⟨hnone, hbegun⟩ := hreading
        rw [hnone] at hkind
        obtain ⟨b, slot, hb, rfl⟩ := hkind
        exact .single ((hbegun hgood).namedIn hb)
    | special =>
        rw [hm] at hreading
        obtain ⟨-, p, hp, hperm⟩ := hreading
        rw [hp] at hkind
        exact hperm.carries hkind

theorem Permitted.parser_of_bad {c : ClientSplitter} {pos : ℤ} (h : c.Permitted env buf pos)
    (hbad : c.lastCommandIsBad = true) : c.specialParser = none := by
  have hreading := h.reading
  cases hm : c.onStr with
  | commandHead => rw [hm] at hreading; exact hreading.2.1
  | commandKey => rw [hm] at hreading; exact hreading.2.1
  | nop => rw [hm] at hreading; exact hreading.1
  | special =>
      rw [hm, hbad] at hreading
      cases hreading.1

theorem Permitted.onSplitPoint {c c' : ClientSplitter} {i : ℤ} (h : c.Permitted env buf i)
    (hc : c.onSplitPoint env buf i = .ok c') : c'.Permitted env buf i := by
  obtain ⟨kind, he⟩ := ends_of_onSplitPoint hc
  refine ⟨fun kind' hk => ?_, ?_⟩
  · rw [he.groups] at hk
    rcases List.mem_append.mp hk with hk | hk
    · exact h.groups kind' hk
    · rw [List.mem_singleton.mp hk]
      exact h.ends he
  · rw [he.onStr, he.begin]
    refine ⟨he.good, ?_, [], .nil _, nofun⟩
    rcases he.parser with hnone | ⟨hbad, hsame⟩
    · exact hnone
    · rw [hsame]
      exact h.parser_of_bad hbad

theorem permitted_keeps (env : Env) (buf : Bytes) (guard : Byte) :
    (clientSplitter env).Keeps buf guard (fun pos c => c.Permitted env buf pos) where
  token {pos t empty c c'} h ht hc := by
    cases t with
    | str first next => exact h.onString ht hc
    | int next => cases hc; exact h.next ht nofun
    | nil next => cases hc; exact h.next ht nofun
    | err first next => cases hc; exact h.next ht nofun
    | arr size next =>
        rw [ClientSplitter.onArray_same hc]
        exact h.next ht nofun
  splitPoint h hc := h.onSplitPoint hc

end ClientSplitter

theorem Issued.permitted {env : Env} {kind : CommandGroup} (h : Issued env kind) : kind.Permitted env := by
  refine h.of_keeps fun buf guard => ⟨_, ClientSplitter.permitted_keeps env buf guard, fun o ho => ?_, fun _ _ hc => hc.groups⟩
  refine ⟨fun kind hk => ?_, rfl, rfl, [], .nil _, nofun⟩
  rw [show (ClientSplitter.new 0 o).out.groups = [] from ho] at hk
  cases hk

/-! ### The commands that wait -/

/-- A command that waits for a response is at a request of the mode. -/
theorem Lives.namedIn {env : Env} {g : GroupId} {d : DataCommand} {c : Cmd} {out : Bool} {es : List Entry}
    (h : Lives g d c out es) (hd : d.Permitted env) (hr : c.responsed = false) : NamedIn (dataNames env) c.buffer := by
  cases d with
  | oneSlot b slot =>
      obtain ⟨-, -, ⟨-, hb, -⟩ | ⟨hdone, -⟩⟩ := h.oneSlot
      · rw [hb]
        exact hd
      · rw [hr] at hdone
        cases hdone
  | rename oldKey newKey oldSlot newSlot =>
      rcases h.rename with ⟨-, hw⟩ | ⟨hdone, -⟩
      · cases hw with
        | get _ hb => rw [hb]; exact namedIn_get _
        | set _ hb => rw [hb, List.append_assoc]; exact namedIn_set _ hd
        | del _ hb => rw [hb]; exact namedIn_del _ hd
      · rw [hr] at hdone
        cases hdone

theorem History.Lived.namedIn {env : Env} {P : Bytes → Bool → Prop} {h : History} {k : CmdId} (hl : h.Lived env P) (hk : h.Open k) :
    NamedIn (dataNames env) (h.objects.cmds k).buffer := by
  have hi := hl.reached.inv
  obtain ⟨hg, hmem⟩ := hi.built.home k hk.1
  obtain ⟨d, hd, hlives⟩ := hi.lives_of_mem hg hmem
  exact hlives.namedIn ((hl.issued _ hg).permitted.commands d hd) hk.2

namespace World

variable {cfg : Config} {w : World}

end World

end Cerberus
