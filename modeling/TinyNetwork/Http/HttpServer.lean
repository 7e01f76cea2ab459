import TinyNetwork.Http.HttpContext
import TinyNetwork.Http.HttpResponse
import TinyNetwork.Net.TcpConnection

/-!
# `class HttpServer` (src/http/HttpServer.h, src/http/HttpServer.cpp)

What the server does with the messages of one connection.  The user's callback may keep a state of
its own (the type `S`) and changes the response it is given.  The server runs in the loop thread of
the connection, so its calls of `send` and `shutdown` act at once; the answers of `::write`, and the
memory behind the buffer of a response, are given by `Io`.

`log` records the calls of `httpCallback_` and the answers handed to `conn->send`, with the value of
`conn->connected()` at that moment; `effects` is what the connection did.
-/

namespace TinyNetwork

open Bytes
open TcpConnection (Effect)

/-- The environment of a call of `onMessage`. -/
structure Io where
  heap : Heap
  badRequest : WriteResult
  response : WriteResult

inductive HttpEvent
  | httpCallback (req : HttpRequest)
  | response (resp : HttpResponse) (connected : Bool)
  | badRequest (connected : Bool)
  deriving DecidableEq

structure HttpServer (S : Type) where
  httpCallback : S → HttpRequest → HttpResponse → S × HttpResponse

/-- One connection of the server, its input buffer, the state of the user and the history. -/
structure HttpSession (S : Type) where
  conn : TcpConnection
  buf : Buffer
  user : S
  log : List HttpEvent := []
  effects : List Effect := []

/-- `defaultHttpCallback`. -/
def defaultHttpCallback (_ : HttpRequest) (resp : HttpResponse) : HttpResponse :=
  ((resp.setStatusCode .k404NotFound).setStatusMessage (ascii "Not Found")).setCloseConnection true

namespace HttpSession

variable {S : Type}

/-- A member function of the connection is called. -/
def perform (s : HttpSession S) (r : TcpConnection × List Effect) : HttpSession S :=
  { s with conn := r.1, effects := s.effects ++ r.2 }

def record (s : HttpSession S) (e : HttpEvent) : HttpSession S := { s with log := s.log ++ [e] }

end HttpSession

namespace HttpServer

variable {S : Type}

/-- The parameter of the constructor of the response. -/
def closes (req : HttpRequest) : Bool :=
  let connection := req.getHeader (ascii "Connection")
  connection == ascii "close" ||
    (req.version == .kHttp10 && connection != ascii "Keep-Alive")

def onRequest (server : HttpServer S) (s : HttpSession S) (req : HttpRequest) (io : Io) :
    HttpSession S :=
  let s := s.record (.httpCallback req)
  let r := server.httpCallback s.user req { closeConnection := closes req }
  let buf := r.2.appendToBuffer (Buffer.new kInitialSize)
  let s := { s with user := r.1 }.record (.response r.2 s.conn.connected)
  let s := s.perform (s.conn.sendBuffer buf io.heap true io.response).1
  if r.2.closeConnection then s.perform (s.conn.shutdown true) else s

/-- The answer to a request that cannot be parsed. -/
def onBadRequest (s : HttpSession S) (io : Io) : HttpSession S :=
  let s := s.record (.badRequest s.conn.connected)
  let s := s.perform
    (s.conn.send (ascii "HTTP/1.1 400 Bad Request\r\n\r\n") true io.badRequest)
  s.perform (s.conn.shutdown true)

/-- `onMessage(conn, buf, receiveTime)`; `none` if the parser does not return. -/
def onMessage (server : HttpServer S) (s : HttpSession S) (receiveTime : TimeStamp) (io : Io) :
    Option (HttpSession S) :=
  match ({} : HttpContext).parseRequest s.buf receiveTime with
  | none => none
  | some (ok, context, buf) =>
    let s := { s with buf := buf }
    let s := if ok then s else onBadRequest s io
    some (if context.gotAll then server.onRequest s context.request io else s)

/-- Input that arrives in chunks, one call of `onMessage` for each. -/
def onMessages (server : HttpServer S) (s : HttpSession S) :
    List (Bytes × TimeStamp × Io) → Option (HttpSession S)
  | [] => some s
  | (chunk, receiveTime, io) :: chunks =>
    (server.onMessage { s with buf := s.buf.append chunk } receiveTime io).bind fun s =>
      server.onMessages s chunks

end HttpServer

end TinyNetwork
