import Cerberus.Strings

/-! # Server responses

The embedding of `core/response.cpp`: `ServerResponseSplitter` cuts what a server has sent
into responses.  Of all the error strings in a response only the last is remembered, at
whatever depth it stands; a response with one that starts with `MOVED`, `ASK` or
`CLUSTERDOWN` is replaced by a request to retry. -/

namespace Cerberus

/-- The classes derived from `Response`: `NormalResponse` and `RetryMovedAskResponse`. -/
inductive Response where
  | normal (rsp : Bytes) (error : Bool)
  | retryMovedAsk
deriving DecidableEq, Repr

namespace Response

def getBuffer : Response → Bytes
  | normal rsp _ => rsp
  | retryMovedAsk => ascii "$ RETRY MOVED OR ASK $"

def serverMoved : Response → Bool
  | normal _ _ => false
  | retryMovedAsk => true

end Response

/-- The members of `ServerResponseSplitter`. -/
structure ResponseSplitter where
  lastError : Bytes
  responses : List Response
deriving DecidableEq

/-- The errors after which a command is tried again. -/
def retryError (e : Bytes) : Bool :=
  stristartswith e (ascii "MOVED") || stristartswith e (ascii "ASK") ||
    stristartswith e (ascii "CLUSTERDOWN")

namespace ResponseSplitter

def pushRetryRsp (r : ResponseSplitter) : ResponseSplitter :=
  { r with responses := r.responses ++ [.retryMovedAsk] }

def pushNormalRsp (buf : Bytes) (first last : ℤ) (r : ResponseSplitter) :
    Except Stop ResponseSplitter :=
  match slice buf first last with
  | some b => .ok { r with responses := r.responses ++ [.normal b (!r.lastError.isEmpty)] }
  | none => .error .overrun

def pushRsp (buf : Bytes) (back i : ℤ) (r : ResponseSplitter) : Except Stop ResponseSplitter :=
  if !r.lastError.isEmpty && retryError r.lastError then .ok r.pushRetryRsp
  else r.pushNormalRsp buf back i

def onSplitPoint (buf : Bytes) (back next : ℤ) (r : ResponseSplitter) :
    Except Stop ResponseSplitter :=
  (r.pushRsp buf back next).map fun r => { r with lastError := [] }

def onError (buf : Bytes) (first last : ℤ) (r : ResponseSplitter) : Except Stop ResponseSplitter :=
  match slice buf first last with
  | some e => .ok { r with lastError := e }
  | none => .error .overrun

end ResponseSplitter

/-- The members `ServerResponseSplitter` overrides. -/
def responseSplitter : Hooks ResponseSplitter where
  onString _ _ _ r := .ok r
  onError := ResponseSplitter.onError
  onSplitPoint := ResponseSplitter.onSplitPoint
  onArray _ _ r := .ok r

/-- `split_server_response(buffer)`; an exception loses the responses before it. -/
def splitServerResponse (buf : Bytes) (guard : Byte) : SplitResult (List Response) :=
  match splitBy responseSplitter buf guard (fuelFor buf) (.new 0 ⟨[], []⟩) with
  | .ok _ s => .split (truncate buf s) s.final.responses
  | .throw e _ => .failed e []

end Cerberus
