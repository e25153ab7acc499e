import Cerberus.SlotCalc
import Cerberus.Strings

/-! # Client commands

The embedding of the parsing half of `core/command.cpp`: the special command parsers and
`ClientCommandSplitter`.  A parser keeps iterators into the buffer, so its state holds
positions, and a `Buffer` built from two of them is a `slice`; where they are no range of the
buffer the constructor's behaviour is undefined (`Stop.overrun`).

`CommandGroup` is what `push_command` hands to the client: the class of the group and the
commands it is made of.  What else a request does at that point is in `Output`: the slot map
of every thread is marked as expired, or the remotes are replaced.

What the code takes from outside is in `Env`: the text of `stats_all`, the values of
`util::randint`, and the indeterminate value `util::atoi` may return (`junk`). -/

namespace Cerberus

/-- The start-up mode and the sources of outside values; the `k`-th call of `stats_all`
returns `stats k`, the `k`-th call of `rand` returns `rand k`. -/
structure Env where
  writable : Bool
  stats : ℕ → Bytes
  rand : ℕ → ℕ
  junk : ℤ

/-- A `DataCommand` as it is built: `OneSlotCommand` or `RenameCommand`. -/
inductive DataCommand where
  | oneSlot (buffer : Bytes) (keySlot : ℕ)
  | rename (oldKey newKey : Bytes) (oldKeySlot newKeySlot : ℕ)
deriving DecidableEq, Repr

def getHeader : Bytes := ascii "*2\r\n$3\r\nGET\r\n"
def delHeader : Bytes := ascii "*2\r\n$3\r\nDEL\r\n"
def setHeader : Bytes := ascii "*3\r\n$3\r\nSET\r\n"
def keysInSlotHeader : Bytes := ascii "*4\r\n$7\r\nCLUSTER\r\n$13\r\nGETKEYSINSLOT\r\n"

namespace DataCommand

/-- The request the command is built with. -/
def buffer : DataCommand → Bytes
  | oneSlot b _ => b
  | rename oldKey _ _ _ => getHeader ++ oldKey

/-- The slot the command is first sent to. -/
def slot : DataCommand → ℕ
  | oneSlot _ ks => ks
  | rename _ _ s _ => s

end DataCommand

/-- The classes derived from `CommandGroup`. -/
inductive CommandGroup where
  | direct (buffer : Bytes)
  | single (command : DataCommand)
  | multiple (commands : List DataCommand)
  | del (commands : List DataCommand)
  | mset (commands : List DataCommand)
  | subscribe (buffer : Bytes)
  | blockedPop (buffer : Bytes) (keySlot : ℕ)
deriving DecidableEq, Repr

namespace CommandGroup

def longConnection : CommandGroup → Bool
  | subscribe _ => true
  | blockedPop _ _ => true
  | _ => false

def waitRemote : CommandGroup → Bool
  | single _ => true
  | multiple _ => true
  | del _ => true
  | mset _ => true
  | _ => false

/-- The data commands of the group. -/
def commands : CommandGroup → List DataCommand
  | single c => [c]
  | multiple cs => cs
  | del cs => cs
  | mset cs => cs
  | _ => []

end CommandGroup

/-- What a request does besides producing a group. -/
inductive Effect where
  | updateSlotMap
  | setRemotes (remotes : List Address)
deriving DecidableEq, Repr

/-- Everything a splitter has given out: the groups it pushed, its other effects, and how
often it called `stats_all` and `rand`. -/
structure Output where
  groups : List CommandGroup
  effects : List Effect
  statsCalls : ℕ
  randCalls : ℕ
deriving DecidableEq, Repr

namespace Output

def pushCommand (o : Output) (g : CommandGroup) : Output := { o with groups := o.groups ++ [g] }

def effect (o : Output) (e : Effect) : Output := { o with effects := o.effects ++ [e] }

end Output

/-! ### Special command parsers -/

/-- The two classes derived from `EachKeyCommandParser`. -/
inductive EachKey where
  | mget
  | del
deriving DecidableEq, Repr

namespace EachKey

def commandName : EachKey → String
  | mget => "mget"
  | del => "del"

def commandHeader : EachKey → Bytes
  | mget => getHeader
  | del => delHeader

def makeGroup : EachKey → List DataCommand → CommandGroup
  | mget => .multiple
  | del => .del

end EachKey

/-- The classes derived from `SpecialCommandParser`, with their members. -/
inductive SpecialParser where
  | ping (msg : Bytes)
  | proxyStats
  | updateSlotMap
  | setRemotes (remotes : List Address) (lastHost : Bytes) (currentIsHost bad : Bool)
  | eachKey (kind : EachKey) (keysSplitPoints : List ℤ) (keysSlots : List ℕ)
  | mset (kvSplitPoints : List ℤ) (keysSlots : List ℕ) (currentIsKey : Bool)
  | rename (commandBegin : ℤ) (splitPoints : List ℤ) (keySlot₀ keySlot₁ : KeySlotCalc)
      (slotIndex : ℕ) (bad : Bool)
  | subscribe (begin : ℤ) (noArg : Bool)
  | blockedListPop (cmdBegin : ℤ) (slotCalc : KeySlotCalc) (argsCount : ℕ)
  | eval (cmdBegin : ℤ) (slotCalc : KeySlotCalc) (argCount : ℕ) (keyCount : ℤ)
  | publish (begin : ℤ) (argCount : ℕ)
  | keysInSlot (argStart : ℤ) (argCount : ℕ) (slot : ℕ)
deriving DecidableEq

/-- `std::string(begin, end)`, and every loop from `begin` to `end`. -/
def range (buf : Bytes) (first last : ℤ) : Except Stop Bytes :=
  match slice buf first last with
  | some s => .ok s
  | none => .error .overrun

/-- `util::atoi` where its exception passes through. -/
def atoiThrow (env : Env) (a : Bytes) : Except Stop ℤ :=
  match atoi env.junk a with
  | some i => .ok i
  | none => .error (.bad (.what (ascii "Invalid integer literal: " ++ a)))

namespace SpecialParser

/-- `on_str(begin, end)` -/
def onStr (env : Env) (buf : Bytes) (first last : ℤ) : SpecialParser → Except Stop SpecialParser
  | ping _ => (range buf first last).map .ping
  | proxyStats => .ok proxyStats
  | updateSlotMap => .ok updateSlotMap
  | setRemotes remotes lastHost currentIsHost bad =>
      if bad then .ok (setRemotes remotes lastHost currentIsHost bad)
      else (range buf first last).bind fun s =>
      if currentIsHost then .ok (setRemotes remotes s false bad)
      else (atoiThrow env s).map fun port =>
        setRemotes (insertAddress remotes ⟨lastHost, port⟩) [] true bad
  | eachKey kind splitPoints slots =>
      (range buf first last).map fun s =>
        eachKey kind (splitPoints ++ [last + lengthOfCrLf]) (slots ++ [keySlot s])
  | mset splitPoints slots currentIsKey =>
      if currentIsKey then
        (range buf first last).map fun s =>
          mset (splitPoints ++ [last + lengthOfCrLf]) (slots ++ [keySlot s]) false
      else .ok (mset (splitPoints ++ [last + lengthOfCrLf]) slots true)
  | rename commandBegin splitPoints ks₀ ks₁ slotIndex bad =>
      if slotIndex = 2 then .ok (rename commandBegin splitPoints ks₀ ks₁ slotIndex true)
      else (range buf first last).map fun s =>
        rename commandBegin (splitPoints ++ [last + lengthOfCrLf])
          (if slotIndex = 0 then ks₀.feed s else ks₀) (if slotIndex = 0 then ks₁ else ks₁.feed s)
          (slotIndex + 1) bad
  | subscribe begin _ => .ok (subscribe begin false)
  | blockedListPop cmdBegin slotCalc argsCount =>
      (range buf first last).map fun s => blockedListPop cmdBegin (slotCalc.feed s) (argsCount + 1)
  | eval cmdBegin slotCalc argCount keyCount =>
      match argCount with
      | 1 => (range buf first last).bind fun s =>
          (atoiThrow env s).map fun n => eval cmdBegin slotCalc (argCount + 1) n
      | 2 => (range buf first last).map fun s =>
          eval cmdBegin (slotCalc.feed s) (argCount + 1) keyCount
      | _ => .ok (eval cmdBegin slotCalc (argCount + 1) keyCount)
  | publish begin argCount => .ok (publish begin (argCount + 1))
  | keysInSlot argStart argCount slot =>
      if argCount = 0 then
        (range buf first last).bind fun s =>
          (atoiThrow env s).map fun n => keysInSlot argStart (argCount + 1) (toSlot n)
      else .ok (keysInSlot argStart (argCount + 1) slot)

/-- The commands of `EachKeyCommandParser`: one for each pair of neighbouring split points. -/
def eachKeyCommands (buf header : Bytes) : List ℤ → List ℕ → Except Stop (List DataCommand)
  | p :: q :: points, s :: slots =>
      (range buf p q).bind fun b =>
      (eachKeyCommands buf header (q :: points) slots).map fun cs => .oneSlot (header ++ b) s :: cs
  | _, [] => .ok []
  | _, _ :: _ => .error .overrun

/-- The commands of `MSetCommandParser`: one for every other split point. -/
def msetCommands (buf : Bytes) : List ℤ → List ℕ → Except Stop (List DataCommand)
  | p :: _ :: q :: points, s :: slots =>
      (range buf p q).bind fun b =>
      (msetCommands buf (q :: points) slots).map fun cs => .oneSlot (setHeader ++ b) s :: cs
  | _, [] => .ok []
  | _, _ :: _ => .error .overrun

def wrongNumber (name : String) : CommandGroup :=
  .direct (ascii ("-ERR wrong number of arguments for '" ++ name ++ "' command\r\n"))

def rspOkStr : Bytes := ascii "+OK\r\n"

/-- `spawn_commands(c, end)` followed by `push_command` -/
def spawnCommands (env : Env) (buf : Bytes) (last : ℤ) (o : Output) :
    SpecialParser → Except Stop Output
  | ping msg =>
      if msg.isEmpty then .ok (o.pushCommand (.direct (ascii "+PONG\r\n")))
      else .ok (o.pushCommand (.direct
        (ascii "$" ++ decimal msg.length ++ ascii "\r\n" ++ msg ++ ascii "\r\n")))
  | proxyStats =>
      .ok ({ o with statsCalls := o.statsCalls + 1 }.pushCommand
        (.direct (ascii "+" ++ env.stats o.statsCalls ++ ascii "\r\n")))
  | updateSlotMap => .ok ((o.effect .updateSlotMap).pushCommand (.direct rspOkStr))
  | setRemotes remotes _ currentIsHost bad =>
      if bad then .ok (o.pushCommand (.direct (ascii "-ERR invalid port number\r\n")))
      else if remotes.isEmpty || !currentIsHost then .ok (o.pushCommand (wrongNumber "SETREMOTES"))
      else .ok (((o.effect (.setRemotes remotes)).effect .updateSlotMap).pushCommand (.direct rspOkStr))
  | eachKey kind splitPoints slots =>
      if slots.isEmpty then .ok (o.pushCommand (wrongNumber kind.commandName))
      else (eachKeyCommands buf kind.commandHeader splitPoints slots).map fun cs =>
        o.pushCommand (kind.makeGroup cs)
  | mset splitPoints slots currentIsKey =>
      if slots.isEmpty || !currentIsKey then .ok (o.pushCommand (wrongNumber "mset"))
      else (msetCommands buf splitPoints slots).map fun cs => o.pushCommand (.mset cs)
  | rename commandBegin splitPoints ks₀ ks₁ slotIndex bad =>
      if slotIndex ≠ 2 ∨ bad then .ok (o.pushCommand (wrongNumber "rename"))
      else if ks₀.getSlot = ks₁.getSlot then
        (range buf commandBegin (splitPoints.getD 2 0)).map fun b =>
          o.pushCommand (.single (.oneSlot b ks₀.getSlot))
      else
        (range buf (splitPoints.getD 0 0) (splitPoints.getD 1 0)).bind fun oldKey =>
        (range buf (splitPoints.getD 1 0) (splitPoints.getD 2 0)).map fun newKey =>
          o.pushCommand (.single (.rename oldKey newKey ks₀.getSlot ks₁.getSlot))
  | subscribe begin noArg =>
      if noArg then .ok (o.pushCommand (wrongNumber "subscribe"))
      else (range buf begin last).map fun b => o.pushCommand (.subscribe b)
  | blockedListPop cmdBegin slotCalc argsCount =>
      if argsCount ≠ 2 then
        .ok (o.pushCommand (.direct
          (ascii "-ERR BLPOP/BRPOP takes exactly 2 arguments KEY TIMEOUT in proxy\r\n")))
      else (range buf cmdBegin last).map fun b => o.pushCommand (.blockedPop b slotCalc.getSlot)
  | eval cmdBegin slotCalc argCount keyCount =>
      if argCount < 3 ∨ keyCount ≠ 1 then .ok (o.pushCommand (wrongNumber "eval"))
      else (range buf cmdBegin last).map fun b =>
        o.pushCommand (.single (.oneSlot b slotCalc.getSlot))
  | publish begin argCount =>
      if argCount ≠ 2 then .ok (o.pushCommand (wrongNumber "publish"))
      else (range buf begin last).map fun b =>
        { o with randCalls := o.randCalls + 1 }.pushCommand
          (.single (.oneSlot b (env.rand o.randCalls % clusterSlotCount)))
  | keysInSlot argStart argCount slot =>
      if argCount ≠ 2 ∨ clusterSlotCount ≤ slot then
        .ok (o.pushCommand (.direct (ascii "-ERR wrong arguments for 'keysinslot' command\r\n")))
      else (range buf argStart last).map fun b =>
        o.pushCommand (.single (.oneSlot (keysInSlotHeader ++ b) slot))

end SpecialParser

/-! ### The command tables -/

/-- `STD_COMMANDS` -/
def stdCommands : List Bytes := [
    "DUMP", "EXISTS", "TTL", "PTTL", "TYPE",
    "GET", "BITCOUNT", "GETBIT", "GETRANGE", "STRLEN",
    "HGET", "HGETALL", "HKEYS", "HVALS", "HLEN", "HEXISTS", "HMGET", "HSCAN",
    "LINDEX", "LLEN", "LRANGE",
    "SCARD", "SISMEMBER", "SRANDMEMBER", "SMEMBERS", "SSCAN",
    "ZCARD", "ZSCAN", "ZCOUNT", "ZLEXCOUNT", "ZRANGE",
    "ZRANGEBYLEX", "ZREVRANGEBYLEX", "ZRANGEBYSCORE", "ZRANK",
    "ZREVRANGE", "ZREVRANGEBYSCORE", "ZREVRANK", "ZSCORE"].map ascii

/-- `WRITE_COMMANDS` of `allow_write_commands` -/
def writeCommands : List Bytes := [
    "EXPIRE", "EXPIREAT", "TTL", "PEXPIRE", "PEXPIREAT", "PERSIST", "RESTORE",
    "SET", "SETNX", "GETSET", "SETEX", "PSETEX", "SETBIT", "APPEND",
    "SETRANGE", "INCR", "DECR", "INCRBY", "DECRBY", "INCRBYFLOAT",
    "HSET", "HSETNX", "HDEL", "HINCRBY", "HINCRBYFLOAT", "HMSET",
    "LINSERT", "LPOP", "RPOP", "LPUSH", "LPUSHX",
    "RPUSH", "RPUSHX", "LREM", "LSET", "LTRIM", "SORT",
    "SADD", "SPOP", "SREM",
    "ZADD", "ZREM", "ZINCRBY", "ZREMRANGEBYLEX", "ZREMRANGEBYRANK", "ZREMRANGEBYSCORE"].map ascii

/-- Whether `STD_COMMANDS` has the name in this mode. -/
def isStdCommand (env : Env) (cmd : Bytes) : Bool :=
  stdCommands.contains cmd || (env.writable && writeCommands.contains cmd)

/-- The functions in `SPECIAL_RSP`, each of which creates a parser. -/
inductive Special where
  | ping
  | proxyStats
  | updateSlotMap
  | setRemotes
  | eachKey (kind : EachKey)
  | mset
  | rename
  | subscribe
  | blockedListPop
  | eval
  | publish
  | keysInSlot
deriving DecidableEq, Repr

/-- The parser for a command at `commandBegin` whose arguments start at `argStart`. -/
def Special.create (commandBegin argStart : ℤ) : Special → SpecialParser
  | ping => .ping []
  | proxyStats => .proxyStats
  | updateSlotMap => .updateSlotMap
  | setRemotes => .setRemotes [] [] true false
  | eachKey kind => .eachKey kind [argStart] []
  | mset => .mset [argStart] [] true
  | rename => .rename commandBegin [argStart] .reset .reset 0 false
  | subscribe => .subscribe commandBegin true
  | blockedListPop => .blockedListPop commandBegin .reset 0
  | eval => .eval commandBegin .reset 0 0
  | publish => .publish commandBegin 0
  | keysInSlot => .keysInSlot argStart 0 0

/-- `SPECIAL_RSP` -/
def specialRsp : List (Bytes × Special) := [
  (ascii "PING", .ping),
  (ascii "INFO", .proxyStats),
  (ascii "PROXY", .proxyStats),
  (ascii "UPDATESLOTMAP", .updateSlotMap),
  (ascii "SETREMOTES", .setRemotes),
  (ascii "MGET", .eachKey .mget),
  (ascii "SUBSCRIBE", .subscribe),
  (ascii "PSUBSCRIBE", .subscribe)]

/-- `SPECIAL_WRITE_COMMAND` of `allow_write_commands` -/
def specialWriteCommand : List (Bytes × Special) := [
  (ascii "DEL", .eachKey .del),
  (ascii "MSET", .mset),
  (ascii "RENAME", .rename),
  (ascii "PUBLISH", .publish),
  (ascii "KEYSINSLOT", .keysInSlot),
  (ascii "BLPOP", .blockedListPop),
  (ascii "BRPOP", .blockedListPop),
  (ascii "EVAL", .eval)]

/-- Look up a name in `SPECIAL_RSP`, in this mode. -/
def findSpecial (env : Env) (cmd : Bytes) : Option Special :=
  (specialRsp ++ if env.writable then specialWriteCommand else []).lookup cmd

/-! ### The splitter -/

/-- The function `_on_str` points to. -/
inductive OnStr where
  | commandHead
  | commandKey
  | nop
  | special
deriving DecidableEq, Repr

/-- The members of `ClientCommandSplitter`; `out` is what it has given to the client. -/
structure ClientSplitter where
  onStr : OnStr
  lastCommandBegin : ℤ
  slotCalc : KeySlotCalc
  lastCommandIsBad : Bool
  specialParser : Option SpecialParser
  out : Output
deriving DecidableEq

namespace ClientSplitter

/-- `ClientCommandSplitter(i, cli)` -/
def new (i : ℤ) (o : Output) : ClientSplitter := ⟨.commandHead, i, .reset, false, none, o⟩

/-- `select_command_parser`, with `handle_standard_key_command` as its first branch. -/
def selectCommandParser (env : Env) (buf : Bytes) (first last : ℤ) (c : ClientSplitter) :
    Except Stop ClientSplitter :=
  (range buf first last).map fun s =>
    let cmd := s.map toupper
    if isStdCommand env cmd then { c with lastCommandIsBad := true, onStr := .commandKey }
    else match findSpecial env cmd with
    | some k =>
        { c with
          specialParser := some (k.create c.lastCommandBegin (last + lengthOfCrLf)), onStr := .special }
    | none => { c with lastCommandIsBad := true, onStr := .nop }

/-- `on_command_key` -/
def onCommandKey (buf : Bytes) (first last : ℤ) (c : ClientSplitter) : Except Stop ClientSplitter :=
  (range buf first last).map fun s =>
    { c with lastCommandIsBad := false, onStr := .nop, slotCalc := c.slotCalc.feed s }

/-- `special_parser_on_str` -/
def specialParserOnStr (env : Env) (buf : Bytes) (first last : ℤ) (c : ClientSplitter) :
    Except Stop ClientSplitter :=
  match c.specialParser with
  | some p => (p.onStr env buf first last).map fun p => { c with specialParser := some p }
  | none => .error .overrun

def onString (env : Env) (buf : Bytes) (first last : ℤ) (c : ClientSplitter) :
    Except Stop ClientSplitter :=
  match c.onStr with
  | .commandHead => c.selectCommandParser env buf first last
  | .commandKey => c.onCommandKey buf first last
  | .nop => .ok c
  | .special => c.specialParserOnStr env buf first last

def unknownCommand : CommandGroup :=
  .direct (ascii "-ERR Unknown command or command key not specified\r\n")

/-- `on_split_point(i)` -/
def onSplitPoint (env : Env) (buf : Bytes) (i : ℤ) (c : ClientSplitter) :
    Except Stop ClientSplitter :=
  let done (o : Output) : ClientSplitter :=
    { c with
      onStr := .commandHead, out := o, specialParser := none
      lastCommandBegin := i, slotCalc := .reset, lastCommandIsBad := false }
  if c.lastCommandIsBad then
    .ok { done (c.out.pushCommand unknownCommand) with specialParser := c.specialParser }
  else match c.specialParser with
  | none =>
      (range buf c.lastCommandBegin i).map fun b =>
        done (c.out.pushCommand (.single (.oneSlot b c.slotCalc.getSlot)))
  | some p => (p.spawnCommands env buf i c.out).map done

/-- `on_array(size)` -/
def onArray (empty : Bool) (size : ℤ) (c : ClientSplitter) : Except Stop ClientSplitter :=
  if 1024 * 1024 < size then .error (.bad (.what (ascii "Request is too large")))
  else if !empty then
    .error (.bad (.what (ascii "Invalid nested array as client command")))
  else .ok c

end ClientSplitter

/-- The members `ClientCommandSplitter` overrides. -/
def clientSplitter (env : Env) : Hooks ClientSplitter where
  onString := ClientSplitter.onString env
  onError _ _ _ c := .ok c
  onSplitPoint buf _ i c := c.onSplitPoint env buf i
  onArray := ClientSplitter.onArray

/-- `split_client_command(buffer, cli)` -/
def splitClientCommand (env : Env) (buf : Bytes) (guard : Byte) (o : Output) : SplitResult Output :=
  match splitBy (clientSplitter env) buf guard (fuelFor buf) (.new 0 (.new 0 o)) with
  | .ok _ s => .split (truncate buf s) s.final.out
  | .throw e s => .failed e s.final.out

end Cerberus
