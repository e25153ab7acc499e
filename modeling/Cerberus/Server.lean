import Cerberus.Buffers
import Cerberus.Response

/-! # Backend connections

The embedding of the members of `Server` (`core/server.cpp`) that carry commands.  Commands
are numbered; `_sent_commands` has `none` for a null pointer.  What the connection does to
the rest of the proxy is given back: `recvFrom` says which response goes to which command,
`closeConn` which commands are to be retried.  The loop of `_recv_from` erases the entries
behind its last call of `rsp_to`; none of these calls looks at them, so they are gone from
the result. -/

namespace Cerberus

abbrev CmdId := ℕ
abbrev GroupId := ℕ
abbrev ClientId := ℕ

/-- The buffers that are shared with an output set: the buffer of a command, the payload of a
group, and `RSP_OK`. -/
inductive BufRef where
  | command (k : CmdId)
  | payload (g : GroupId)
  | rspOk
deriving DecidableEq, Repr

/-! ### Reading -/

/-- How the last `read` of `Buffer::read` ends: `EAGAIN`, end of file, or an `errno` for which
`on_error` throws. -/
inductive ReadEnd where
  | again
  | eof
  | ioError
  | sysError
deriving DecidableEq, Repr

/-- What a call of `Buffer::read` finds: the bytes, how it ends, and the byte that lies behind
the buffer then. -/
structure Input where
  bytes : Bytes
  ended : ReadEnd
  guard : Byte
deriving DecidableEq, Repr

/-- How a function of a connection leaves: with an `IOErrorBase`, a `BadRedisMessage`, an
exception nobody catches, or undefined behaviour. -/
inductive ConnThrow where
  | io
  | bad
  | fatal
  | undefined
deriving DecidableEq, Repr

/-- What becomes of an exception of the parser. -/
def Stop.thrown : Stop → ConnThrow
  | .bad _ => .bad
  | _ => .undefined

def WriteThrow.thrown : WriteThrow → ConnThrow
  | .io => .io
  | .system => .fatal
  | .overrun => .undefined

/-- `Buffer::read`: the buffer afterwards, and the exception. -/
def readInto (buf : Bytes) (inp : Input) : Bytes × Option ConnThrow :=
  (buf ++ inp.bytes, match inp.ended with
    | .ioError => some .io
    | .sysError => some .fatal
    | _ => none)

/-! ### The connection -/

structure Server where
  buffer : Bytes
  outputBufferSet : BufferSet BufRef
  commands : List CmdId
  sentCommands : List (Option CmdId)
deriving DecidableEq, Repr

/-- How `_recv_from` comes back. -/
inductive Received where
  | delivered (rsps : List (CmdId × Response))
  | closeConn
  | threw (e : ConnThrow)
deriving DecidableEq, Repr

/-- The commands a read has a response for. -/
def Received.commands : Received → List CmdId
  | .delivered rsps => rsps.map Prod.fst
  | _ => []

namespace Server

def new : Server := ⟨[], .new, [], []⟩

/-- The responses that have a command to go to. -/
def deliveries : List (Option CmdId) → List Response → List (CmdId × Response)
  | some k :: sent, rsp :: rsps => (k, rsp) :: deliveries sent rsps
  | none :: sent, _ :: rsps => deliveries sent rsps
  | _, _ => []

/-- `_recv_from()` -/
def recvFrom (s : Server) (inp : Input) : Server × Received :=
  match readInto s.buffer inp with
  | (buf, some e) => ({ s with buffer := buf }, .threw e)
  | (buf, none) =>
      if inp.bytes.isEmpty then ({ s with buffer := buf }, .threw .io)
      else match splitServerResponse buf inp.guard with
      | .failed e _ => ({ s with buffer := buf }, .threw e.thrown)
      | .split rest rsps =>
          if s.sentCommands.length < rsps.length then ({ s with buffer := rest }, .closeConn)
          else
            ({ s with buffer := rest, sentCommands := s.sentCommands.drop rsps.length },
              .delivered (deliveries s.sentCommands rsps))

/-- `_push_to_buffer_set()` -/
def pushToBufferSet (s : Server) : Server :=
  { s with
    sentCommands := s.sentCommands ++ s.commands.map some
    outputBufferSet :=
      { s.outputBufferSet with bufArr := s.outputBufferSet.bufArr ++ s.commands.map .command }
    commands := [] }

/-- `push_client_command(cmd)` -/
def pushClientCommand (s : Server) (k : CmdId) : Server := { s with commands := s.commands ++ [k] }

/-- `pop_client(cli)` -/
def popClient (owner : CmdId → ClientId) (cli : ClientId) (s : Server) : Server :=
  { s with
    commands := s.commands.filter fun k => owner k ≠ cli
    sentCommands := s.sentCommands.map fun c => c.filter fun k => owner k ≠ cli }

/-- The members after `close_conn`. -/
def closeConn (s : Server) : Server :=
  { buffer := [], outputBufferSet := s.outputBufferSet.clear, commands := [], sentCommands := [] }

/-- The commands `close_conn` hands to `retry_move_ask_command_later`. -/
def retried (s : Server) : List CmdId := s.commands ++ s.sentCommands.filterMap id

/-- `READONLY_CMD` -/
def readonlyCmd : Bytes := ascii "READONLY\r\n"

/-- `on_server_connected`: a null entry for the answer to `READONLY`, in that mode. -/
def onServerConnected (readonly : Bool) (s : Server) : Server :=
  if readonly then { s with sentCommands := s.sentCommands ++ [none] } else s

end Server

end Cerberus
