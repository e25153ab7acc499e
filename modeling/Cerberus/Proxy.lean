import Cerberus.Updaters

/-! # The proxy

`core/proxy.cpp` and the connections it serves: the acceptor, the clients, the backends, the
updaters of the slot map, and the two halves of a long connection (`core/subscription.cpp`).
The state of the whole is a `World`; what a connection finds when it is called, and how the
calls of the system end, comes with the event.

A client and the registry of backends do their part first and say what they call elsewhere; the
proxy then carries out these calls in their order.  An object is known by a number that is not
used again, so that a pointer to one that is gone can be told from others. -/

namespace Cerberus

abbrev LongId := ℕ

/-- File descriptors; a member `fd` that is `-1` is `none`. -/
abbrev Fd := ℕ

/-- The objects a poller knows: a `Subscription` or a `BlockedListPop` is the client half of a
long connection, its `_server` the other one. -/
inductive Conn where
  | acceptor
  | server (s : ServerId)
  | client (c : ClientId)
  | updater (u : UpdaterId)
  | longClient (l : LongId)
  | longServer (l : LongId)
deriving DecidableEq, Repr

/-! ### Commands between clients and backends -/

/-- The clients that have not been destroyed are `liveClients`.  `responsed` is history: the
commands that have called `responsed`, in order. -/
structure Traffic where
  objects : Objects
  clients : ClientId → Client
  clientCount : ℕ
  liveClients : List ClientId
  servers : ServerId → Server
  routes : Routes
  retryingCommands : List CmdId
  responsed : List CmdId
  statsCalls : ℕ
  randCalls : ℕ

namespace Traffic

def new : Traffic where
  objects := .empty
  clients _ := .new
  clientCount := 0
  liveClients := []
  servers _ := .new
  routes := .new
  retryingCommands := []
  responsed := []
  statsCalls := 0
  randCalls := 0

/-- `cmd->group->client` -/
def owner (x : Traffic) (k : CmdId) : ClientId := (x.objects.groups (x.objects.cmds k).group).client

def setClient (c : ClientId) (v : Client) (x : Traffic) : Traffic :=
  { x with clients := Function.update x.clients c v }

def setServer (s : ServerId) (v : Server) (x : Traffic) : Traffic :=
  { x with servers := Function.update x.servers s v }

/-- `retry_move_ask_command_later(cmd)` -/
def retryLater (k : CmdId) (x : Traffic) : Traffic :=
  { x with retryingCommands := x.retryingCommands ++ [k] }

/-- `push_client_command(cmd)` -/
def pushClientCommand (s : ServerId) (k : CmdId) (x : Traffic) : Traffic :=
  let cli := x.clients (x.owner k)
  (x.setServer s ((x.servers s).pushClientCommand k)).setClient (x.owner k)
    { cli with peers := cli.peers.insert s }

def markSelected (k : CmdId) (x : Traffic) : Traffic :=
  { x with objects := x.objects.setCmd k { x.objects.cmds k with selected := true } }

/-- `select_server_for(proxy, cmd, key_slot)` -/
def selectServer (k : CmdId) (x : Traffic) : Traffic × Option ServerId :=
  match x.routes.getServerBySlot (x.objects.cmds k).keySlot with
  | none => ((x.markSelected k).retryLater k, none)
  | some s => ((x.markSelected k).pushClientCommand s k, some s)

/-- A call of a member of the client. -/
def session (c : ClientId) (script : List WriteAnswer) (x : Traffic) : Session where
  self := c
  client := x.clients c
  objects := x.objects
  script := script
  sent := []
  calls := []
  statsCalls := x.statsCalls
  randCalls := x.randCalls

/-- What it leaves behind. -/
def store (s : Session) (x : Traffic) : Traffic :=
  { x with
    objects := s.objects
    clients := Function.update x.clients s.self s.client
    statsCalls := s.statsCalls
    randCalls := s.randCalls }

/-- The commands of a backend whose connection is closed are to be tried again. -/
def serverClosed (s : ServerId) (x : Traffic) : Traffic :=
  { x.setServer s (x.servers s).closeConn with
    retryingCommands := x.retryingCommands ++ (x.servers s).retried }

def serverOpened (readonly : Bool) (s : ServerId) (x : Traffic) : Traffic :=
  x.setServer s ((x.servers s).onServerConnected readonly)

/-- `new Client(fd, p)` -/
def newClient (x : Traffic) : Traffic :=
  { x.setClient x.clientCount .new with
    clientCount := x.clientCount + 1
    liveClients := x.liveClients ++ [x.clientCount] }

/-- `~Client()`: the servers in `_peers` and the proxy forget the commands of the client. -/
def destroyClient (c : ClientId) (x : Traffic) : Traffic :=
  { x with
    servers := fun s =>
      if s ∈ (x.clients c).peers then (x.servers s).popClient x.owner c else x.servers s
    retryingCommands := x.retryingCommands.filter fun k => x.owner k ≠ c
    liveClients := x.liveClients.erase c }

end Traffic

/-! ### Descriptors -/

/-- The descriptors the connections have, and those that are open; `count` is the number of
times the system has handed one out, and `strayCloses` are those that were passed to `close`
when they were not open. -/
structure Descriptors where
  held : Conn → Option Fd
  opened : List Fd
  count : ℕ
  strayCloses : List Fd

namespace Descriptors

/-- How the system chooses a descriptor: it is not one that is open. -/
structure Chooser where
  pick : ℕ → List Fd → Fd
  fresh : ∀ n l, pick n l ∉ l

def new : Descriptors := ⟨fun _ => none, [], 0, []⟩

def hold (c : Conn) (n : Option Fd) (d : Descriptors) : Descriptors :=
  { d with held := Function.update d.held c n }

/-- `accept` or `socket`, for a connection. -/
def create (ch : Chooser) (c : Conn) (d : Descriptors) : Descriptors :=
  let n := ch.pick d.count d.opened
  { held := Function.update d.held c (some n)
    opened := n :: d.opened
    count := d.count + 1
    strayCloses := d.strayCloses }

/-- `cio::close(n)` -/
def shut (n : Fd) (d : Descriptors) : Descriptors :=
  if n ∈ d.opened then { d with opened := d.opened.erase n }
  else { d with strayCloses := d.strayCloses ++ [n] }

/-- `FDWrapper::close()` -/
def close (c : Conn) (d : Descriptors) : Descriptors :=
  match d.held c with
  | none => d
  | some n => (d.shut n).hold c none

/-- One owner gives its descriptor to another. -/
def give (c c' : Conn) (d : Descriptors) : Descriptors := (d.hold c' (d.held c)).hold c none

/-- `close` of a second owner, while the first one keeps the number. -/
def closeCopy (c : Conn) (d : Descriptors) : Descriptors :=
  match d.held c with
  | none => d
  | some n => d.shut n

/-- A socket that cannot be connected is closed at once. -/
def tryOut (ch : Chooser) (c : Conn) (d : Descriptors) : Descriptors := (d.create ch c).close c

end Descriptors

/-! ### The poller -/

/-- How the connections are registered, `some true` for one with write interest, and
`_conn_poll_type`. -/
structure Poller where
  interest : Conn → Option Bool
  connPollType : List (Conn × Bool)

namespace Poller

def new : Poller := ⟨fun _ => none, []⟩

def register (c : Conn) (b : Option Bool) (p : Poller) : Poller :=
  { p with interest := Function.update p.interest c b }

/-- `poll_add_ro(conn)` -/
def addRo (c : Conn) (p : Poller) : Poller := p.register c (some false)

/-- `poll_add_rw(conn)` -/
def addRw (c : Conn) (p : Poller) : Poller := p.register c (some true)

/-- `poll_del(conn)`; also what `close` does to the registration. -/
def del (c : Conn) (p : Poller) : Poller := p.register c none

/-- `set_conn_poll_ro(conn)` -/
def setConnPollRo (c : Conn) (p : Poller) : Poller :=
  match p.connPollType.lookup c with
  | some _ => p
  | none => { p with connPollType := (c, false) :: p.connPollType }

/-- `set_conn_poll_rw(conn)` -/
def setConnPollRw (c : Conn) (p : Poller) : Poller :=
  { p with connPollType := (c, true) :: p.connPollType.filter fun e => e.1 ≠ c }

end Poller

/-! ### Long connections -/

inductive LongKind where
  | subscription
  | blockedListPop
deriving DecidableEq, Repr

/-- A `LongConnection` with its `_server`, whose descriptor is `-1` if `serverClosed`; `buffer`
is that of `BlockedListPop::ServerConn`. -/
structure Long where
  kind : LongKind
  attachedServer : ServerId
  closed : Bool
  serverClosed : Bool
  buffer : Bytes
deriving DecidableEq, Repr

/-- `attached` is `attached_long_connections` of each server, `inactive` is
`_inactive_long_connections`; those that have not been destroyed are `live`. -/
structure Longs where
  objects : LongId → Long
  count : ℕ
  live : List LongId
  attached : ServerId → List LongId
  inactive : List LongId

namespace Longs

def new : Longs := ⟨fun _ => ⟨.subscription, 0, true, true, []⟩, 0, [], fun _ => [], []⟩

def set (l : LongId) (v : Long) (x : Longs) : Longs :=
  { x with objects := Function.update x.objects l v }

/-- The constructor of the two classes. -/
def create (kind : LongKind) (s : ServerId) (x : Longs) : Longs where
  objects := Function.update x.objects x.count ⟨kind, s, false, false, []⟩
  count := x.count + 1
  live := x.live ++ [x.count]
  attached := Function.update x.attached s (x.attached s ++ [x.count])
  inactive := x.inactive

/-- The destructor. -/
def destroy (l : LongId) (x : Longs) : Longs :=
  let s := (x.objects l).attachedServer
  { x with
    live := x.live.erase l
    attached := Function.update x.attached s ((x.attached s).filter (· ≠ l)) }

def close (l : LongId) (x : Longs) : Longs := x.set l { x.objects l with closed := true }

def closeServer (l : LongId) (x : Longs) : Longs := x.set l { x.objects l with serverClosed := true }

/-- What `close_conn` of a server does to the long connections attached to it. -/
def inactivate (s : ServerId) (x : Longs) : Longs :=
  { x with
    attached := Function.update x.attached s []
    inactive := x.inactive ++ (x.attached s).filter (· ∉ x.inactive) }

end Longs

/-! ### The state of the proxy -/

/-- What does not change: the environment of the parser, `cluster_req_full_cov`, the mode of
`replace_map`, the order of the connections in memory, and the descriptors of the system. -/
structure Config where
  env : Env
  fullCov : Bool
  mode : Option Bytes
  rank : Conn → ℕ
  chooser : Descriptors.Chooser

/-- `activeConns` and `closedConns` are the local variables of `handle_events`; `badIo` is
history: the connections that called `read` or `write` with a descriptor that is `-1`. -/
structure World extends Traffic where
  updaters : Updaters
  longs : Longs
  poller : Poller
  descriptors : Descriptors
  slotMapExpired : Bool
  fdClosed : Bool
  accepting : Bool
  clientsCount : ℤ
  longConnsCount : ℤ
  activeConns : List Conn
  closedConns : List Conn
  badIo : List Conn

/-- How the loop of `Acceptor::on_events` ends: with nothing more to accept, without
descriptors, or with another error. -/
inductive AcceptEnd where
  | again
  | exhausted
  | error
deriving DecidableEq, Repr

/-- What an updater finds: a hang-up, room for its request, a part of the answer, a message it
does not expect, the nodes of the answer, or an error. -/
inductive Reply where
  | hup
  | sent
  | more
  | bad
  | nodes (ns : List RedisNode)
  | threw (e : ConnThrow)

/-- What the conversion of a client comes upon: the random slot of `random_addr`, and how the
connection for the long connection ends. -/
structure Conversion where
  slot : ℕ
  connect : Connect
deriving DecidableEq, Repr

/-- An event of the poller.  `hup`, `read` and `write` are its bits, with what is read and what
the socket answers; `first` and `second` are how writing to the client ends, in `on_events` and
in `on_error`. -/
inductive Event where
  | accept (n : ℕ) (ended : AcceptEnd)
  | server (s : ServerId) (hup : Bool) (read : Option Input) (write : Option (List WriteAnswer))
  | client (c : ClientId) (hup : Bool) (read : Option Input) (write : Option (List WriteAnswer))
      (conv : Conversion)
  | updater (u : UpdaterId) (reply : Reply) (connects : ℕ → Connect)
  | longClient (l : LongId) (hup : Bool) (read : Option Input) (write : Bool)
  | longServer (l : LongId) (hup : Bool) (read : Option Input) (write : Bool)
      (first second : Option ConnThrow)

def Event.conn : Event → Conn
  | .accept _ _ => .acceptor
  | .server s _ _ _ => .server s
  | .client c _ _ _ _ => .client c
  | .updater u _ _ => .updater u
  | .longClient l _ _ _ => .longClient l
  | .longServer l _ _ _ _ _ => .longServer l

/-- What the constructor of a connection to a backend throws. -/
def Connect.thrown : Connect → Option ConnThrow
  | .opened => none
  | .socketError => some .io
  | .refused => some .io
  | .unknownHost => some .fatal

namespace World

/-- The second half of a function that is left when the first one throws. -/
def andThen (r : World × Option ConnThrow) (f : World → World × Option ConnThrow) :
    World × Option ConnThrow :=
  match r.2 with
  | none => f r.1
  | some _ => r

/-- `closed()` -/
def closed (w : World) : Conn → Bool
  | .acceptor => false
  | .server s => w.routes.registry.closed s
  | .client c => (w.clients c).closed
  | .updater u => (w.updaters.objects u).closed
  | .longClient l => (w.longs.objects l).closed
  | .longServer l => (w.longs.objects l).serverClosed

/-- The object has been constructed and not destroyed. -/
def Present (w : World) : Conn → Prop
  | .acceptor => True
  | .server s => s < w.routes.registry.allocated
  | .client c => c ∈ w.liveClients
  | .updater u => u ∈ w.updaters.slotUpdaters ∨ u ∈ w.updaters.finishedSlotUpdaters
  | .longClient l => l ∈ w.longs.live
  | .longServer l => l ∈ w.longs.live

instance (w : World) : DecidablePred w.Present
  | .acceptor => inferInstanceAs (Decidable True)
  | .server _ => inferInstanceAs (Decidable (_ < _))
  | .client _ => inferInstanceAs (Decidable (_ ∈ _))
  | .updater _ => inferInstanceAs (Decidable (_ ∨ _))
  | .longClient _ => inferInstanceAs (Decidable (_ ∈ _))
  | .longServer _ => inferInstanceAs (Decidable (_ ∈ _))

/-- `poll_ro(conn)` and `poll_rw(conn)`: `epoll_ctl` fails for a descriptor that is not
registered. -/
def pollMod (c : Conn) (b : Bool) (w : World) : World × Option ConnThrow :=
  match w.poller.interest c with
  | none => (w, some .fatal)
  | some _ => ({ w with poller := w.poller.register c (some b) }, none)

/-- The loop of `poll_ctl`. -/
def pollEach : List (Conn × Bool) → World → World × Option ConnThrow
  | [], w => (w, none)
  | (c, b) :: ps, w => if w.closed c then pollEach ps w else andThen (w.pollMod c b) (pollEach ps)

/-- `poll_ctl(this, std::move(_conn_poll_type))` -/
def pollCtl (w : World) : World × Option ConnThrow :=
  pollEach w.poller.connPollType { w with poller := { w.poller with connPollType := [] } }

/-! ### Clients -/

/-- `new_client(fd)`, for a descriptor that has just been accepted. -/
def newClient (cfg : Config) (w : World) : World :=
  { w with
    toTraffic := w.toTraffic.newClient
    poller := w.poller.addRo (.client w.clientCount)
    descriptors := w.descriptors.create cfg.chooser (.client w.clientCount)
    clientsCount := w.clientsCount + 1 }

/-- The server a group is delivered to: `random_addr()` or `get_server_by_slot(key_slot)`. -/
def deliverTo (slot : ℕ) (kind : CommandGroup) (w : World) : Option ServerId :=
  match kind with
  | .subscribe _ => w.routes.slots (slot % clusterSlotCount)
  | .blockedPop _ keySlot => w.routes.getServerBySlot keySlot
  | _ => none

def longKind : CommandGroup → LongKind
  | .subscribe _ => .subscription
  | _ => .blockedListPop

/-- What `deliver_client` throws; a server that was never connected has no `_proxy`. -/
def delivery (conv : Conversion) (kind : CommandGroup) (w : World) : Option ConnThrow :=
  match w.deliverTo conv.slot kind with
  | none => none
  | some s => if (w.routes.registry.addr s).host.isEmpty then some .undefined else conv.connect.thrown

/-- The client hands its descriptor to a new long connection. -/
def convert (cfg : Config) (c : ClientId) (kind : LongKind) (s : ServerId) (w : World) : World :=
  let l := w.longs.count
  { w with
    longs := w.longs.create kind s
    poller := (w.poller.addRo (.longServer l)).addRo (.longClient l)
    descriptors := (w.descriptors.create cfg.chooser (.longServer l)).give (.client c) (.longClient l)
    longConnsCount := w.longConnsCount + 1 }

/-- `poll_del(this)` and `deliver_client(proxy)`.  If the connection to the backend cannot be
made, the destructor of `FDWrapper` closes the descriptor of the client. -/
def deliverClient (cfg : Config) (conv : Conversion) (c : ClientId) (g : GroupId) (w : World) : World :=
  let kind := (w.objects.groups g).kind
  let w := { w with poller := w.poller.del (.client c) }
  match w.deliverTo conv.slot kind with
  | none => w
  | some s =>
      match conv.connect with
      | .opened => w.convert cfg c (longKind kind) s
      | .socketError => { w with descriptors := w.descriptors.closeCopy (.client c) }
      | _ => { w with descriptors :=
          (w.descriptors.tryOut cfg.chooser (.longServer w.longs.count)).closeCopy (.client c) }

/-- A call of a client, `deliver_client` apart. -/
def call (c : ClientId) (w : World) : ClientCall → World
  | .selectServer k => { w with toTraffic := (w.toTraffic.selectServer k).1 }
  | .reactivate k =>
      match w.toTraffic.selectServer k with
      | (x, none) => { w with toTraffic := x }
      | (x, some s) => { w with toTraffic := x, poller := w.poller.setConnPollRw (.server s) }
  | .clearPeers => { w with toTraffic := w.toTraffic.setClient c { w.clients c with peers := [] } }
  | .wakePeers =>
      { w with poller := (w.clients c).peers.foldl (fun p s => p.setConnPollRw (.server s)) w.poller }
  | .pollRo => { w with poller := w.poller.setConnPollRo (.client c) }
  | .pollRw => { w with poller := w.poller.setConnPollRw (.client c) }
  | .deliverClient _ => w
  | .effect .updateSlotMap => { w with slotMapExpired := true }
  -- the remotes belong to all threads
  | .effect (.setRemotes _) => w
  | .badDescriptor => { w with badIo := w.badIo ++ [.client c] }

def clientCall (cfg : Config) (conv : Conversion) (c : ClientId) (w : World) : ClientCall → World
  | .deliverClient g => w.deliverClient cfg conv c g
  | a => w.call c a

/-- `close()` of a client -/
def closeClient (c : ClientId) (w : World) : World :=
  { w with
    poller := w.poller.del (.client c)
    descriptors := w.descriptors.close (.client c) }

/-- The group that converts the client in a call. -/
def converting (s : Session) : Option GroupId :=
  s.calls.findSome? fun
    | .deliverClient g => some g
    | _ => none

/-- What `deliver_client` throws in a call that gets that far if nothing is thrown. -/
def thrown (conv : Conversion) (s : Session) (w : World) : Option ConnThrow :=
  (converting s).bind fun g => w.delivery conv (s.objects.groups g).kind

/-- A call of a client takes effect. -/
def settle (cfg : Config) (conv : Conversion) (s : Session) (w : World) : World :=
  let w := s.calls.foldl (clientCall cfg conv s.self) { w with toTraffic := w.toTraffic.store s }
  if s.client.closed then w.closeClient s.self else w

/-- `Client::on_events(events)` -/
def clientEvent (cfg : Config) (c : ClientId) (hup : Bool) (read : Option Input)
    (write : Option (List WriteAnswer)) (conv : Conversion) (w : World) : World × Option ConnThrow :=
  let s := w.toTraffic.session c (write.getD [])
  let e := w.thrown conv (s.onEvents cfg.env none hup read write.isSome).1
  let r := s.onEvents cfg.env e hup read write.isSome
  (w.settle cfg conv r.1, r.2)

/-- `on_remote_responsed(rsp, error)` of a command -/
def respond (k : CmdId) (rsp : Bytes) (error : Bool) (w : World) : World :=
  let s := (w.toTraffic.session (w.owner k) []).onRemoteResponsed k rsp error
  let x := { w.toTraffic.store s with
    responsed := if ((w.objects.cmds k).onRemoteResponsed rsp error).2 then w.responsed ++ [k]
      else w.responsed }
  s.calls.foldl (call s.self) { w with toTraffic := x }

/-! ### Backends -/

/-- `rsp_to(cmd, proxy)` -/
def rspTo (w : World) (p : CmdId × Response) : World :=
  match p.2 with
  | .normal rsp error => w.respond p.1 rsp error
  | .retryMovedAsk => { w with toTraffic := w.toTraffic.retryLater p.1 }

/-- What happens to the rest of the proxy when a connection is opened or closed.  One that is
closed without having been open is one that could not be connected. -/
def serverCall (cfg : Config) (w : World) : ServerCall → World
  | .opened s =>
      { w with
        toTraffic := w.toTraffic.serverOpened cfg.mode.isSome s
        poller := w.poller.addRw (.server s)
        descriptors := w.descriptors.create cfg.chooser (.server s) }
  | .closed s =>
      { w with
        toTraffic := w.toTraffic.serverClosed s
        longs := w.longs.inactivate s
        poller := w.poller.del (.server s)
        descriptors := match w.descriptors.held (.server s) with
          | some _ => w.descriptors.close (.server s)
          | none => w.descriptors.tryOut cfg.chooser (.server s) }

/-- The registry has changed. -/
def reroute (cfg : Config) (x : Routes) (w : World) : World :=
  x.registry.calls.foldl (serverCall cfg) { w with routes := { x with registry := { x.registry with calls := [] } } }

/-- `Server::close_conn()` -/
def closeServer (cfg : Config) (s : ServerId) (w : World) : World :=
  w.reroute cfg { w.routes with registry := w.routes.registry.closeConn s }

/-- `Server::_recv_from()` -/
def serverRead (cfg : Config) (s : ServerId) (inp : Input) (w : World) : World × Option ConnThrow :=
  let r := (w.servers s).recvFrom inp
  let w := { w with toTraffic := w.toTraffic.setServer s r.1 }
  match r.2 with
  | .delivered rsps => (rsps.foldl rspTo w, none)
  | .closeConn => (w.closeServer cfg s, none)
  | .threw e => (w, some e)

/-- `_output_buffer_set.writev(fd)` -/
def serverWrite (s : ServerId) (script : List WriteAnswer) (w : World) : World × Option ConnThrow :=
  let r := (w.servers s).outputBufferSet.writev w.objects.content script
  ({ w with toTraffic := w.toTraffic.setServer s { w.servers s with outputBufferSet := r.set } },
    match r.ended with
    | .threw e => some e.thrown
    | _ => none)

/-- What `Server::on_events` does when everything has been read. -/
def serverSend (s : ServerId) (write : Option (List WriteAnswer)) (w : World) : World × Option ConnThrow :=
  let w := { w with toTraffic := w.toTraffic.setServer s (w.servers s).pushToBufferSet }
  andThen (match write with
    | some script => w.serverWrite s script
    | none => (w, none)) fun w =>
    if (w.servers s).outputBufferSet.empty then ({ w with poller := w.poller.setConnPollRo (.server s) }, none)
    else ({ w with poller := w.poller.setConnPollRw (.server s) }, none)

/-- `Server::on_events(events)` -/
def serverEvent (cfg : Config) (s : ServerId) (hup : Bool) (read : Option Input)
    (write : Option (List WriteAnswer)) (w : World) : World × Option ConnThrow :=
  if w.closed (.server s) then (w, none)
  else if hup then (w.closeServer cfg s, none)
  else
    let r := match read with
      | some inp => w.serverRead cfg s inp
      | none => (w, none)
    match r.2 with
    | none => r.1.serverSend s write
    | some .bad => (r.1.closeServer cfg s, none)
    | some e => (r.1, some e)

/-! ### The slot map -/

/-- The loop of `_set_slot_map`, and the servers that have got a command. -/
def retryEach : List CmdId → World → World × List ServerId
  | [], w => (w, [])
  | k :: ks, w =>
      match w.toTraffic.selectServer k with
      | (x, none) => retryEach ks { w with toTraffic := x, slotMapExpired := true }
      | (x, some s) =>
          let r := retryEach ks { w with toTraffic := x }
          (r.1, r.2.insert s)

/-- `poll_rw` of each of them. -/
def pollServers : List ServerId → World → World × Option ConnThrow
  | [], w => (w, none)
  | s :: ss, w => andThen (w.pollMod (.server s) true) (pollServers ss)

/-- `_set_slot_map(map, remotes)` -/
def setSlotMap (cfg : Config) (nodes : List RedisNode) (connects : ℕ → Connect) (w : World) :
    World × Option ConnThrow :=
  match w.routes.replaceMap (fun s => cfg.rank (.server s)) cfg.mode nodes connects with
  | (_, some e) => (w, some e)
  | (x, none) =>
      let w := { w.reroute cfg x with slotMapExpired := false }
      let r := retryEach w.retryingCommands { w with retryingCommands := [] }
      pollServers r.2 r.1

def clusterDownRsp : Bytes := ascii "-CLUSTERDOWN The cluster is down\r\n"

/-- The last lines of `_update_slot_map_failed()`. -/
def clusterDown (cfg : Config) (w : World) : World :=
  let w := w.reroute cfg (w.routes.clear fun s => cfg.rank (.server s))
  let w := w.retryingCommands.foldl (fun w k => w.respond k clusterDownRsp true)
    { w with retryingCommands := [] }
  { w with slotMapExpired := false }

def outcome (cfg : Config) (connects : ℕ → Connect) (w : World) : Option Outcome → World × Option ConnThrow
  | none => (w, none)
  | some (.install nodes _) => w.setSlotMap cfg nodes connects
  | some .clusterDown => (w.clusterDown cfg, none)

/-- `SlotsMapUpdater::_notify_updated()` -/
def notifyUpdated (cfg : Config) (u : UpdaterId) (answer : Option (List RedisNode))
    (connects : ℕ → Connect) (w : World) : World × Option ConnThrow :=
  let r := w.updaters.finish cfg.fullCov u answer
  let w := { w with
    updaters := r.1
    poller := w.poller.del (.updater u)
    descriptors := w.descriptors.close (.updater u) }
  w.outcome cfg connects r.2

/-- `SlotsMapUpdater::on_events(events)` -/
def updaterEvent (cfg : Config) (u : UpdaterId) (reply : Reply) (connects : ℕ → Connect) (w : World) :
    World × Option ConnThrow :=
  match reply with
  | .hup => w.notifyUpdated cfg u none connects
  | .bad => w.notifyUpdated cfg u none connects
  | .nodes ns => w.notifyUpdated cfg u (some ns) connects
  | .sent => w.pollMod (.updater u) false
  | .more => w.pollMod (.updater u) false
  | .threw e => (w, some e)

/-- `new SlotsMapUpdater(addr, this)` -/
def newUpdater (cfg : Config) (w : World) : World :=
  let u := w.updaters.count
  { w with
    updaters := { w.updaters with
      objects := Function.update w.updaters.objects u .new
      count := u + 1
      slotUpdaters := w.updaters.slotUpdaters ++ [u] }
    poller := w.poller.addRw (.updater u)
    descriptors := w.descriptors.create cfg.chooser (.updater u) }

/-- The loop of `_retrieve_slot_map`, over the remotes and how their connections end; nobody
catches what `socket` throws. -/
def newUpdaters (cfg : Config) : List (Address × Connect) → World → World × Option ConnThrow
  | [], w => (w, none)
  | (_, .opened) :: rs, w => newUpdaters cfg rs (w.newUpdater cfg)
  | (_, .socketError) :: _, w => (w, some .io)
  | (_, _) :: rs, w =>
      newUpdaters cfg rs { w with
        descriptors := w.descriptors.tryOut cfg.chooser (.updater w.updaters.count) }

/-- `_update_slot_map_failed()` -/
def updateSlotMapFailed (cfg : Config) (connects : ℕ → Connect) (w : World) : World × Option ConnThrow :=
  let r := w.updaters.updateSlotMapFailed cfg.fullCov
  ({ w with updaters := r.1 } : World).outcome cfg connects r.2

/-- `_retrieve_slot_map()` -/
def retrieveSlotMap (cfg : Config) (remotes : List (Address × Connect)) (connects : ℕ → Connect)
    (w : World) : World × Option ConnThrow :=
  if remotes.isEmpty then w.updateSlotMapFailed cfg connects
  else andThen (w.newUpdaters cfg remotes) fun w =>
    if w.updaters.slotUpdaters.isEmpty then w.updateSlotMapFailed cfg connects else (w, none)

/-- `_should_update_slot_map()` -/
def shouldUpdateSlotMap (w : World) : Bool :=
  w.updaters.slotUpdaters.isEmpty && (!w.retryingCommands.isEmpty || w.slotMapExpired)

/-! ### Long connections -/

/-- `close()` of the client half -/
def closeLong (l : LongId) (w : World) : World :=
  { w with
    longs := w.longs.close l
    poller := w.poller.del (.longClient l)
    descriptors := w.descriptors.close (.longClient l) }

/-- `close()` of the server half -/
def closeLongServer (l : LongId) (w : World) : World :=
  { w with
    longs := w.longs.closeServer l
    poller := w.poller.del (.longServer l)
    descriptors := w.descriptors.close (.longServer l) }

/-- `LongConnection::on_events(events)` -/
def longClientEvent (l : LongId) (hup : Bool) (read : Option Input) (write : Bool) (w : World) :
    World × Option ConnThrow :=
  if hup then (w.closeLong l, none)
  else match read with
  | none => (if write then w.closeLong l else w, none)
  | some inp =>
      if (w.longs.objects l).closed then ({ w with badIo := w.badIo ++ [.longClient l] }, some .fatal)
      else match (readInto [] inp).2 with
      | some e => (w, some e)
      | none => (if inp.bytes.isEmpty ∨ write then w.closeLong l else w, none)

/-- `BlockedListPop::restore_client(rsp, update_slot_map)`; `answer` is how writing the response
ends. -/
def restoreClient (l : LongId) (updateSlotMap : Bool) (answer : Option ConnThrow) (w : World) :
    World × Option ConnThrow :=
  if (w.longs.objects l).closed then (w, none)
  else match answer with
  | some e => (w, some e)
  | none =>
      ({ w with
        toTraffic := w.toTraffic.newClient
        longs := w.longs.close l
        poller := (w.poller.del (.longClient l)).addRo (.client w.clientCount)
        descriptors := w.descriptors.give (.longClient l) (.client w.clientCount)
        clientsCount := w.clientsCount + 1
        slotMapExpired := updateSlotMap || w.slotMapExpired }, none)

/-- `on_error()` of the server half -/
def longServerError (l : LongId) (answer : Option ConnThrow) (w : World) : World × Option ConnThrow :=
  match (w.longs.objects l).kind with
  | .subscription => (w.closeLongServer l, none)
  | .blockedListPop => (w.closeLongServer l).restoreClient l true answer

/-- The rest of `Subscription::ServerConn::on_events` when something has been read. -/
def publish (l : LongId) (answer : Option ConnThrow) (w : World) : World × Option ConnThrow :=
  if (w.longs.objects l).closed then ({ w with badIo := w.badIo ++ [.longClient l] }, some .fatal)
  else (w, answer)

/-- The end of `on_events` of both classes: no write event is expected. -/
def unexpectedWrite (l : LongId) (write : Bool) (answer : Option ConnThrow) (w : World) :
    World × Option ConnThrow :=
  if write then w.longServerError l answer else (w, none)

/-- The rest of `BlockedListPop::ServerConn::on_events`; nobody catches a `BadRedisMessage`. -/
def popped (l : LongId) (inp : Input) (write : Bool) (answer : Option ConnThrow) (w : World) :
    World × Option ConnThrow :=
  match splitServerResponse ((w.longs.objects l).buffer ++ inp.bytes) inp.guard with
  | .failed (.bad _) _ => (w, some .fatal)
  | .failed _ _ => (w, some .undefined)
  | .split rest rsps =>
      let w := { w with longs := w.longs.set l { w.longs.objects l with buffer := rest } }
      match rsps with
      | [] => (w, none)
      | rsp :: _ => andThen (w.restoreClient l rsp.serverMoved answer) (unexpectedWrite l write answer)

/-- The read event of the server half. -/
def longServerRead (l : LongId) (inp : Input) (write : Bool) (answer : Option ConnThrow) (w : World) :
    World × Option ConnThrow :=
  if (w.longs.objects l).serverClosed then ({ w with badIo := w.badIo ++ [.longServer l] }, some .fatal)
  else match (readInto [] inp).2 with
  | some e => (w, some e)
  | none =>
      if inp.bytes.isEmpty then w.longServerError l answer
      else match (w.longs.objects l).kind with
      | .subscription => andThen (w.publish l answer) (unexpectedWrite l write answer)
      | .blockedListPop => w.popped l inp write answer

/-- `on_events(events)` of the server half -/
def longServerEvent (l : LongId) (hup : Bool) (read : Option Input) (write : Bool)
    (answer : Option ConnThrow) (w : World) : World × Option ConnThrow :=
  if hup then w.longServerError l answer
  else match read with
  | none => w.unexpectedWrite l write answer
  | some inp => w.longServerRead l inp write answer

/-- `delete` of a long connection -/
def destroyLong (l : LongId) (w : World) : World :=
  { w with
    longs := w.longs.destroy l
    poller := (w.poller.del (.longServer l)).del (.longClient l)
    descriptors := (w.descriptors.close (.longServer l)).close (.longClient l)
    longConnsCount := w.longConnsCount - 1 }

/-! ### The acceptor -/

/-- `n` calls of `new_client`. -/
def newClients (cfg : Config) : ℕ → World → World
  | 0, w => w
  | n + 1, w => newClients cfg n (w.newClient cfg)

/-- `Acceptor::on_events(events)` -/
def acceptEvent (cfg : Config) (n : ℕ) (ended : AcceptEnd) (w : World) : World × Option ConnThrow :=
  let w := w.newClients cfg n
  match ended with
  | .again => (w, none)
  | .exhausted => ({ w with accepting := false, poller := w.poller.del .acceptor }, none)
  | .error => (w, some .io)

/-- `turn_on_accepting()` -/
def turnOnAccepting (w : World) : World :=
  if w.accepting then w else { w with accepting := true, poller := w.poller.addRo .acceptor }

/-! ### A round of the event loop -/

def onEvents (cfg : Config) (w : World) : Event → World × Option ConnThrow
  | .accept n ended => w.acceptEvent cfg n ended
  | .server s hup read write => w.serverEvent cfg s hup read write
  | .client c hup read write conv => w.clientEvent cfg c hup read write conv
  | .updater u reply connects => w.updaterEvent cfg u reply connects
  | .longClient l hup read write => w.longClientEvent l hup read write
  | .longServer l hup read write first _ => w.longServerEvent l hup read write first

def onError (cfg : Config) (w : World) : Event → World × Option ConnThrow
  | .accept _ _ => (w, none)
  | .server s _ _ _ => (w.closeServer cfg s, none)
  -- a client catches these exceptions itself
  | .client _ _ _ _ _ => (w, none)
  | .updater u _ connects => w.notifyUpdated cfg u none connects
  | .longClient l _ _ _ => (w.closeLong l, none)
  | .longServer l _ _ _ _ second => w.longServerError l second

/-- The loop over the long connections that have become inactive. -/
def closeInactive : List LongId → World → World × Option ConnThrow
  | [], w => (w, none)
  | l :: ls, w =>
      if l ∈ w.longs.live then closeInactive ls { w.closeLong l with fdClosed := true }
      else (w, some .undefined)

/-- The first lines of `handle_events`. -/
def start (w : World) : World × Option ConnThrow :=
  andThen (w.closeInactive w.longs.inactive) fun w' =>
    ({ w' with
      longs := { w'.longs with inactive := [] }
      activeConns := []
      closedConns := w.longs.inactive.map .longClient }, none)

/-- The loop over the events: one of them. -/
def event (cfg : Config) (e : Event) (w : World) : World × Option ConnThrow :=
  if ¬ w.Present e.conn then (w, some .undefined)
  else if e.conn ∈ w.closedConns then (w, none)
  else
    let r := ({ w with activeConns := w.activeConns.insert e.conn } : World).onEvents cfg e
    match r.2 with
    | some .io => andThen (r.1.onError cfg e) fun w =>
        ({ w with closedConns := e.conn :: w.closedConns }, none)
    | _ => r

/-- `after_events(active_conns)` of a connection that is still in the set. -/
def afterEvents (c : Conn) (w : World) : World × Option ConnThrow :=
  if c ∉ w.activeConns then (w, none)
  else if ¬ w.Present c then (w, some .undefined)
  else if ¬ w.closed c then (w, none)
  else match c with
  | .server _ => ({ w with slotMapExpired := true }, none)
  | .client c =>
      ({ w with
        toTraffic := w.toTraffic.destroyClient c
        clientsCount := w.clientsCount - 1
        fdClosed := true }, none)
  | .longClient l =>
      (({ w with activeConns := w.activeConns.erase (.longServer l) } : World).destroyLong l, none)
  | .longServer l =>
      (({ w with activeConns := w.activeConns.erase (.longClient l) } : World).destroyLong l, none)
  | _ => (w, none)

/-- `_finished_slot_updaters.clear()` -/
def clearFinished (w : World) : World :=
  { w with
    updaters := { w.updaters with finishedSlotUpdaters := [] }
    poller := w.updaters.finishedSlotUpdaters.foldl (fun p u => p.del (.updater u)) w.poller
    descriptors := w.updaters.finishedSlotUpdaters.foldl (fun d u => d.close (.updater u)) w.descriptors }

/-- The update of the slot map at the end, with another `poll_ctl`. -/
def update (cfg : Config) (remotes : List (Address × Connect)) (connects : ℕ → Connect) (w : World) :
    World × Option ConnThrow :=
  if w.shouldUpdateSlotMap then andThen (w.retrieveSlotMap cfg remotes connects) pollCtl else (w, none)

def resume (w : World) : World :=
  if w.fdClosed then ({ w with fdClosed := false } : World).turnOnAccepting else w

/-- The pieces of `handle_events`, and `update_slot_map` called by another thread. -/
inductive Step where
  | start
  | event (e : Event)
  | pollCtl
  | afterEvents (c : Conn)
  | clearFinished
  | update (remotes : List (Address × Connect)) (connects : ℕ → Connect)
  | resume
  | expire

def step (cfg : Config) (w : World) : Step → World × Option ConnThrow
  | .start => w.start
  | .event e => w.event cfg e
  | .pollCtl => w.pollCtl
  | .afterEvents c => w.afterEvents c
  | .clearFinished => (w.clearFinished, none)
  | .update remotes connects => w.update cfg remotes connects
  | .resume => (w.resume, none)
  | .expire => ({ w with slotMapExpired := true }, none)

/-- Some of them, one after the other. -/
def steps (cfg : Config) : List Step → World → World × Option ConnThrow
  | [], w => (w, none)
  | st :: sts, w => andThen (w.step cfg st) (steps cfg sts)

/-- A call of `handle_events`: the events, and what an update of the slot map comes upon. -/
structure Batch where
  events : List Event
  remotes : List (Address × Connect)
  connects : ℕ → Connect

/-- The elements of a set of connections in the order of the set. -/
def inOrder (cfg : Config) (l : List Conn) : List Conn :=
  l.insertionSort fun c d => cfg.rank c ≤ cfg.rank d

/-- `handle_events(events, nfds)` -/
def handleEvents (cfg : Config) (b : Batch) (w : World) : World × Option ConnThrow :=
  andThen (w.steps cfg (.start :: b.events.map .event ++ [.pollCtl])) fun w =>
    w.steps cfg ((inOrder cfg w.activeConns).map .afterEvents ++
      [.clearFinished, .update b.remotes b.connects, .resume])

/-- The proxy when it has been constructed. -/
def new (cfg : Config) : World where
  toTraffic := .new
  updaters := ⟨fun _ => .new, 0, [], []⟩
  longs := .new
  poller := Poller.new.addRo .acceptor
  descriptors := Descriptors.new.create cfg.chooser .acceptor
  slotMapExpired := true
  fdClosed := false
  accepting := true
  clientsCount := 0
  longConnsCount := 0
  activeConns := []
  closedConns := []
  badIo := []

end World

end Cerberus
