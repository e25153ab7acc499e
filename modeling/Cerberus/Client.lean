import Cerberus.Server
import Cerberus.Command

/-! # Command groups and clients

The embedding of the other half of `core/command.cpp`, the groups and their commands, and of
`core/client.cpp`.  Groups and commands are numbered in the order in which they are built and
are never taken away from `Objects`; pointers are numbers.

A call of a member of `Client` works on a `Session`: the client, the objects, and what the call
has done so far outside of them, in order.  That is the bytes the socket took and the calls of
members of other objects, which change nothing the client looks at before it returns; `_peers`
is changed by these calls only. -/

namespace Cerberus

abbrev ServerId := ℕ

/-! ### Commands -/

/-- The members of `RenameCommand`. -/
structure Rename where
  oldKey : Bytes
  newKey : Bytes
  oldKeySlot : ℕ
  newKeySlot : ℕ
deriving DecidableEq, Repr

/-- What `on_remote_responsed` does: that of `Command`, or `on_rsp` of a `RenameCommand`, which
waits for the response to `GET`, `SET` or `DEL`. -/
inductive OnRsp where
  | swap
  | get (r : Rename)
  | set (r : Rename)
  | del
deriving DecidableEq, Repr

/-- A `DataCommand`.  The last two are history: whether it was ever given to `select_server`,
and whether `responsed` was called. -/
structure Cmd where
  group : GroupId
  buffer : Bytes
  keySlot : ℕ
  onRsp : OnRsp
  selected : Bool
  responsed : Bool
deriving DecidableEq, Repr

def rspOkStr : Bytes := ascii "+OK\r\n"

namespace Cmd

def new (g : GroupId) (c : DataCommand) : Cmd where
  group := g
  buffer := c.buffer
  keySlot := c.slot
  onRsp := match c with
    | .oneSlot _ _ => .swap
    | .rename oldKey newKey oldKeySlot newKeySlot => .get ⟨oldKey, newKey, oldKeySlot, newKeySlot⟩
  selected := false
  responsed := false

/-- `on_remote_responsed(rsp, error)`: the command then calls `responsed` if the second is
`true`, and `reactivate` otherwise. -/
def onRemoteResponsed (rsp : Bytes) (error : Bool) (c : Cmd) : Cmd × Bool :=
  match c.onRsp with
  | .swap => ({ c with buffer := rsp }, true)
  | .get r =>
      if error then ({ c with buffer := rsp }, true)
      else if rsp = ascii "$-1\r\n" then ({ c with buffer := ascii "-ERR no such key\r\n" }, true)
      else
        ({ c with
          buffer := setHeader ++ r.newKey ++ rsp
          keySlot := r.newKeySlot
          onRsp := .set r }, false)
  | .set r =>
      if error then ({ c with buffer := rsp }, true)
      else
        ({ c with
          buffer := delHeader ++ r.oldKey
          keySlot := r.oldKeySlot
          onRsp := .del }, false)
  | .del => ({ c with buffer := rspOkStr }, true)

end Cmd

/-! ### Groups -/

/-- A `CommandGroup`.  `payload` is `arr_payload`, or the buffer of the command of a
`DirectCommandGroup`. -/
structure Group where
  client : ClientId
  kind : CommandGroup
  commands : List CmdId
  payload : Bytes
  awaitingCount : ℤ
  complete : Bool

/-- `command_responsed()` of a group; `true` stands for a call of `group_responsed`.  `complete`
is set behind that call, which does not look at it. -/
def Group.commandResponsed (x : Group) : Group × Bool :=
  match x.kind with
  | .single _ => ({ x with complete := true }, true)
  | .multiple _ | .del _ | .mset _ =>
      if x.awaitingCount - 1 = 0 then
        ({ x with
          awaitingCount := 0
          payload := chr '*' :: (decimal x.commands.length ++ [CR, LF])
          complete := true }, true)
      else ({ x with awaitingCount := x.awaitingCount - 1 }, false)
  | _ => (x, false)

structure Objects where
  groups : GroupId → Group
  cmds : CmdId → Cmd
  groupCount : ℕ
  cmdCount : ℕ

namespace Objects

/-- Nothing has been built yet. -/
def empty : Objects where
  groups _ := ⟨0, .direct [], [], [], 0, false⟩
  cmds _ := ⟨0, [], 0, .swap, false, false⟩
  groupCount := 0
  cmdCount := 0

def content (o : Objects) : BufRef → Bytes
  | .command k => (o.cmds k).buffer
  | .payload g => (o.groups g).payload
  | .rspOk => rspOkStr

def setGroup (o : Objects) (g : GroupId) (x : Group) : Objects :=
  { o with groups := Function.update o.groups g x }

def setCmd (o : Objects) (k : CmdId) (x : Cmd) : Objects :=
  { o with cmds := Function.update o.cmds k x }

section
variable (o : Objects)

@[simp] theorem setGroup_self (g : GroupId) (x : Group) : (o.setGroup g x).groups g = x :=
  Function.update_self ..

theorem setGroup_of_ne {g g' : GroupId} (h : g' ≠ g) (x : Group) :
    (o.setGroup g x).groups g' = o.groups g' :=
  Function.update_of_ne h ..

@[simp] theorem setGroup_cmds (g : GroupId) (x : Group) : (o.setGroup g x).cmds = o.cmds := rfl

@[simp] theorem setCmd_self (k : CmdId) (x : Cmd) : (o.setCmd k x).cmds k = x :=
  Function.update_self ..

theorem setCmd_of_ne {k k' : CmdId} (h : k' ≠ k) (x : Cmd) : (o.setCmd k x).cmds k' = o.cmds k' :=
  Function.update_of_ne h ..

@[simp] theorem setCmd_groups (k : CmdId) (x : Cmd) : (o.setCmd k x).groups = o.groups := rfl

end

/-- Build a group and its commands. -/
def build (cli : ClientId) (kind : CommandGroup) (o : Objects) : Objects where
  groups := Function.update o.groups o.groupCount
    { client := cli
      kind := kind
      commands := List.range' o.cmdCount kind.commands.length
      payload := match kind with
        | .direct b => b
        | _ => []
      awaitingCount := match kind with
        | .single _ => 0
        | _ => kind.commands.length
      complete := false }
  cmds k :=
    if k < o.cmdCount then o.cmds k
    else match kind.commands[k - o.cmdCount]? with
    | some c => Cmd.new o.groupCount c
    | none => o.cmds k
  groupCount := o.groupCount + 1
  cmdCount := o.cmdCount + kind.commands.length

/-- The number of responses with a `'1'` in them. -/
def countOnes (o : Objects) (ks : List CmdId) : ℕ :=
  (ks.filter fun k => chr '1' ∈ (o.cmds k).buffer).length

/-- `append_buffer_to(b)`: what is appended to `b`. -/
def appendBufferTo (g : GroupId) (o : Objects) : Objects × List BufRef :=
  let x := o.groups g
  match x.kind with
  | .direct _ => (o, [.payload g])
  | .single _ => (o, x.commands.map .command)
  | .multiple _ => (o, .payload g :: x.commands.map .command)
  | .del _ =>
      let payload := chr ':' :: (decimal (o.countOnes x.commands) ++ [CR, LF])
      (o.setGroup g { x with payload := payload }, [.payload g])
  | .mset _ => (o, [.rspOk])
  | .subscribe _ => (o, [])
  | .blockedPop _ _ => (o, [])

/-- `command_responsed()`, and whether it calls `group_responsed` of the client. -/
def commandResponsed (g : GroupId) (o : Objects) : Objects × Bool :=
  (o.setGroup g (o.groups g).commandResponsed.1, (o.groups g).commandResponsed.2)

end Objects

/-! ### Clients -/

/-- The members of `Client`; a file descriptor that is `-1` is one that is closed. -/
structure Client where
  closed : Bool
  peers : List ServerId
  parsedGroups : List GroupId
  awaitingGroups : List GroupId
  readyGroups : List GroupId
  awaitingCount : ℤ
  buffer : Bytes
  outputBufferSet : BufferSet BufRef

def Client.new : Client := ⟨false, [], [], [], [], 0, [], .new⟩

/-- What a client calls. -/
inductive ClientCall where
  /-- `select_server` of a command -/
  | selectServer (k : CmdId)
  /-- `Client::reactivate` -/
  | reactivate (k : CmdId)
  /-- `_peers.clear()` -/
  | clearPeers
  /-- `set_conn_poll_rw` for each of `_peers` -/
  | wakePeers
  /-- `set_conn_poll_ro(this)` -/
  | pollRo
  /-- `set_conn_poll_rw(this)` -/
  | pollRw
  /-- `poll_del(this)` and `deliver_client` of a group -/
  | deliverClient (g : GroupId)
  /-- what a request does when it is parsed -/
  | effect (e : Effect)
  /-- `read` or `writev` with a descriptor that is `-1` -/
  | badDescriptor
deriving DecidableEq, Repr

structure Session where
  self : ClientId
  client : Client
  objects : Objects
  /-- the answers of the socket to come -/
  script : List WriteAnswer
  /-- the bytes the socket has taken -/
  sent : Bytes
  calls : List ClientCall
  statsCalls : ℕ
  randCalls : ℕ

def maxPipe : ℕ := 64
def maxResponses : ℕ := 256

namespace Session

def call (s : Session) (c : ClientCall) : Session := { s with calls := s.calls ++ [c] }

def close (s : Session) : Session := { s with client := { s.client with closed := true } }

/-- The second half of a function that is left when the first one throws. -/
def andThen (r : Session × Option ConnThrow) (f : Session → Session × Option ConnThrow) :
    Session × Option ConnThrow :=
  match r.2 with
  | none => f r.1
  | some _ => r

/-- The loop of `_push_awaitings_to_ready`. -/
def appendAll : List GroupId → Session → Session
  | [], s => s
  | g :: gs, s =>
      let r := s.objects.appendBufferTo g
      appendAll gs
        { s with
          objects := r.1
          client := { s.client with
            outputBufferSet := { s.client.outputBufferSet with
              bufArr := s.client.outputBufferSet.bufArr ++ r.2 }
            readyGroups := s.client.readyGroups ++ [g] } }

/-- `_push_awaitings_to_ready()` -/
def pushAwaitingsToReady (s : Session) : Session :=
  if s.client.awaitingCount ≠ 0 ∨ (s.client.readyGroups ≠ [] ∧
      maxResponses < s.client.awaitingGroups.length + s.client.readyGroups.length) then s
  else
    let s := s.appendAll s.client.awaitingGroups
    let s := { s with client := { s.client with awaitingGroups := [] } }
    if s.client.outputBufferSet.empty then s else s.call .pollRw

/-- The loop of `_process`, and the group it stops at to convert the client. -/
def takeGroups : List GroupId → Session → Session × Option GroupId
  | [], s => (s, none)
  | g :: gs, s =>
      let x := s.objects.groups g
      if x.kind.longConnection then (s, some g)
      else if x.kind.waitRemote then
        takeGroups gs
          { s with
            client := { s.client with
              awaitingCount := s.client.awaitingCount + 1
              awaitingGroups := s.client.awaitingGroups ++ [g] }
            calls := s.calls ++ x.commands.map .selectServer }
      else
        takeGroups gs
          { s with client := { s.client with awaitingGroups := s.client.awaitingGroups ++ [g] } }

/-- `_process()`; `delivery` is what `deliver_client` throws if it is called.  The pointers in
front of the group that converts the client are null afterwards; they are not kept, and a
client that is closed is not processed again. -/
def process (delivery : Option ConnThrow) (s : Session) : Session × Option ConnThrow :=
  if s.client.closed then (s, some .undefined)
  else
    match s.takeGroups (s.client.parsedGroups.take maxPipe) with
    | (s', some g) =>
        let s' := s'.call (.deliverClient g)
        let s' := { s' with client := { s'.client with
          parsedGroups := s'.client.parsedGroups.dropWhile (· ≠ g) } }
        match delivery with
        | none => (s'.close, none)
        | some e => (s', some e)
    | (s', none) =>
        let s' := { s' with client := { s'.client with
          parsedGroups := s'.client.parsedGroups.drop maxPipe } }
        if (0 : ℤ) < s'.client.awaitingCount then (s'.call .wakePeers, none)
        else (s'.pushAwaitingsToReady, none)

/-- What `writev` has done. -/
def wrote (r : Flushed BufRef) (s : Session) : Session :=
  { s with
    client := { s.client with outputBufferSet := r.set }
    script := r.script
    sent := s.sent ++ r.taken }

/-- What `_send_buffer_set` does when everything has been written. -/
def allSent (delivery : Option ConnThrow) (s : Session) : Session × Option ConnThrow :=
  let s := { s with client := { s.client with readyGroups := [] } }
  let s := if s.client.awaitingGroups.isEmpty then s.call .clearPeers else s
  if s.client.parsedGroups.isEmpty then (s, none) else s.process delivery

/-- `_send_buffer_set()` -/
def sendBufferSet (delivery : Option ConnThrow) (s : Session) : Session × Option ConnThrow :=
  let script := if s.client.closed then [.sysError] else s.script
  let r := s.client.outputBufferSet.writev s.objects.content script
  let s := if s.client.closed ∧ ¬ s.client.outputBufferSet.empty then s.call .badDescriptor else s
  match r.ended with
  | .threw e => (s.wrote r, some e.thrown)
  | .blocked => (s.wrote r, none)
  | .all => (s.wrote r).allSent delivery

/-- `_write_response()` -/
def writeResponse (delivery : Option ConnThrow) (s : Session) : Session × Option ConnThrow :=
  andThen (if s.client.outputBufferSet.empty then (s, none) else s.sendBufferSet delivery) fun s =>
    if s.client.awaitingGroups.isEmpty ∨ s.client.awaitingCount ≠ 0 then (s, none)
    else s.pushAwaitingsToReady.sendBufferSet delivery

/-- `push_command(g)` -/
def pushCommand (s : Session) (kind : CommandGroup) : Session :=
  { s with
    objects := s.objects.build s.self kind
    client := { s.client with parsedGroups := s.client.parsedGroups ++ [s.objects.groupCount] } }

/-- What a splitter has given out. -/
def output (out : Output) (s : Session) : Session :=
  let s := out.groups.foldl pushCommand s
  { s with
    calls := s.calls ++ out.effects.map .effect
    statsCalls := out.statsCalls
    randCalls := out.randCalls }

/-- `_read_request()` -/
def readRequest (env : Env) (delivery : Option ConnThrow) (inp : Input) (s : Session) :
    Session × Option ConnThrow :=
  if s.client.closed then (s.call .badDescriptor, some .fatal)
  else match readInto s.client.buffer inp with
  | (buf, some e) => ({ s with client := { s.client with buffer := buf } }, some e)
  | (buf, none) =>
      if inp.bytes.isEmpty then
        ({ s with client := { s.client with buffer := buf, closed := true } }, none)
      else match splitClientCommand env buf inp.guard ⟨[], [], s.statsCalls, s.randCalls⟩ with
      | .failed e out =>
          (({ s with client := { s.client with buffer := buf } } : Session).output out, some e.thrown)
      | .split rest out =>
          let s := ({ s with client := { s.client with buffer := rest } } : Session).output out
          if s.client.awaitingGroups.isEmpty then s.process delivery else (s, none)

/-- The first part of `on_events`. -/
def readEvent (env : Env) (delivery : Option ConnThrow) (s : Session) :
    Option Input → Session × Option ConnThrow
  | some inp => s.readRequest env delivery inp
  | none => (s, none)

/-- The `try` block of `on_events`. -/
def handle (env : Env) (delivery : Option ConnThrow) (read : Option Input) (write : Bool)
    (s : Session) : Session × Option ConnThrow :=
  andThen (s.readEvent env delivery read) fun s =>
    if s.client.closed then (s, none)
    else andThen (if write then s.writeResponse delivery else (s, none)) fun s =>
      (s.call (if s.client.outputBufferSet.empty then .pollRo else .pollRw), none)

/-- `on_events(events)` -/
def onEvents (env : Env) (delivery : Option ConnThrow) (hup : Bool) (read : Option Input)
    (write : Bool) (s : Session) : Session × Option ConnThrow :=
  if hup then (s.close, none)
  else
    let r := s.handle env delivery read write
    match r.2 with
    | some .bad => (r.1.close, none)
    | some .io => (r.1.close, none)
    | _ => r

/-- `group_responsed()` -/
def groupResponsed (s : Session) : Session :=
  pushAwaitingsToReady
    { s with client := { s.client with awaitingCount := s.client.awaitingCount - 1 } }

/-- `on_remote_responsed(rsp, error)` of a command of the client -/
def onRemoteResponsed (k : CmdId) (rsp : Bytes) (error : Bool) (s : Session) : Session :=
  let r := (s.objects.cmds k).onRemoteResponsed rsp error
  if r.2 then
    let o := (s.objects.setCmd k { r.1 with responsed := true }).commandResponsed r.1.group
    let s := { s with objects := o.1 }
    if o.2 then s.groupResponsed else s
  else ({ s with objects := s.objects.setCmd k r.1 } : Session).call (.reactivate k)

end Session

end Cerberus
