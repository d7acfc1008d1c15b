import HilBench.BrokerClient
import HilBench.LineStream

/-! Threads that call the broker, each over the connection that it keeps in its cache. -/

namespace HilBench

open PyJson LineStream

/-- A connection: the client's request counter, and what is on its way. `up` says that the
broker still holds its end; `owed` are the requests that it has received and not begun to
answer; `sending` is the rest of an answer that it is writing; `unread` has been sent. Each
byte of an answer has the number of the call that it answers. -/
structure Conn where
  nextId : Nat
  up : Bool
  owed : List (Nat × PyStr)
  sending : List (Nat × Byte)
  unread : List (Nat × Byte)

def Conn.opened : Conn := ⟨0, true, [], [], []⟩

def Conn.receive (k : Conn) (call : Nat) (line : PyStr) : Conn :=
  if k.up then { k with nextId := k.nextId + 1, owed := k.owed ++ [(call, line)] }
  else { k with nextId := k.nextId + 1 }

def Conn.Outstanding (k : Conn) : Prop := k.owed ≠ [] ∨ k.sending ≠ [] ∨ k.unread ≠ []

/-- Where a thread is: outside, in `BrokerClient.call` before the write, or in its `readline`. -/
inductive Phase
  | idle
  | calling (call c : Nat) (method : PyStr) (params : List (PyStr × PyObj))
  | reading (call c : Nat) (got : List (Nat × Byte))

def Phase.conn : Phase → Option Nat
  | .idle => none
  | .calling _ c _ _ => some c
  | .reading _ c _ => some c

/-- A `_call` that is over. `eof` says that its line was ended by the end of the stream. -/
structure CallRecord where
  call : Nat
  conn : Option Nat
  read : List (Nat × Byte)
  eof : Bool
  outcome : Except CallError Json

/-- `close_client`, when the close of the client succeeds or raises. -/
def closeClient (client : Option Nat) (closes : Bool) : Option Nat :=
  match client with
  | none => none
  | some c => if closes then none else some c

/-- The cache when `_call` is over: its handler empties it whatever `closeClient` has left. -/
def cacheAfter (client : Option Nat) (closes : Bool) : Except CallError Json → Option Nat
  | .ok _ => client
  | .error e =>
    if e.isDisconnect then
      let _ := closeClient client closes
      none
    else client

section
variable {τ : Type*}

/-- The threads and the connections, with the answers that the broker has given and the
calls that are over. -/
structure Bench (τ : Type*) where
  conns : Nat → Conn
  nextConn : Nat
  nextCall : Nat
  client : τ → Option Nat
  phase : τ → Phase
  answers : List (Nat × List Byte)
  log : List CallRecord

def Bench.start : Bench τ := ⟨fun _ => .opened, 0, 0, fun _ => none, fun _ => .idle, [], []⟩

def Bench.Unused (s : Bench τ) (c : Nat) : Prop := ∀ t, (s.phase t).conn ≠ some c

variable [DecidableEq τ]

def Bench.act (s : Bench τ) (t : τ) (c : Nat) (k : Conn) (ph : Phase) : Bench τ :=
  { s with conns := Function.update s.conns c k, phase := Function.update s.phase t ph }

def Bench.finish (s : Bench τ) (t : τ) (closes : Bool) (r : CallRecord) : Bench τ :=
  { s with
    client := Function.update s.client t (cacheAfter (s.client t) closes r.outcome)
    phase := Function.update s.phase t .idle
    log := s.log ++ [r] }

def Bench.serve (s : Bench τ) (c : Nat) (k : Conn) : Bench τ :=
  { s with conns := Function.update s.conns c k }

variable (L : Limits) (fr : FloatRepr) (P : List Byte → Prop)

/-- A step of a thread or of the broker. The lines that the broker answers with satisfy `P`. -/
inductive Step : Bench τ → Bench τ → Prop
  /-- `get_client` has a cached client. -/
  | callCached {s t c} (method params) (hph : s.phase t = .idle) (hc : s.client t = some c) :
    Step s ({ s with nextCall := s.nextCall + 1 }.act t c (s.conns c)
      (.calling s.nextCall c method params))
  /-- `get_client` connects. -/
  | callConnects {s t} (method params) (hph : s.phase t = .idle) (hc : s.client t = none) :
    Step s ({ s with
        nextConn := s.nextConn + 1
        nextCall := s.nextCall + 1
        client := Function.update s.client t (some s.nextConn) }.act t s.nextConn .opened
      (.calling s.nextCall s.nextConn method params))
  | connectFails {s t} (closes) (hph : s.phase t = .idle) (hc : s.client t = none) :
    Step s ({ s with nextCall := s.nextCall + 1 }.finish t closes
      ⟨s.nextCall, none, [], false, .error .osError⟩)
  /-- `json.dumps` raises, and nothing is written. -/
  | unsendable {s t call c method params e} (closes) (hph : s.phase t = .calling call c method params)
    (hreq : requestLine L fr ((s.conns c).nextId + 1) method params = .error e) :
    Step s ((s.serve c { s.conns c with nextId := (s.conns c).nextId + 1 }).finish t closes
      ⟨call, some c, [], false, .error (.ofDump e)⟩)
  | sent {s t call c method params line} (hph : s.phase t = .calling call c method params)
    (hreq : requestLine L fr ((s.conns c).nextId + 1) method params = .ok line) :
    Step s (s.act t c ((s.conns c).receive call line) (.reading call c []))
  /-- The write or the flush raises; the broker may have got the line for all that. -/
  | sendFails {s t call c method params line e} (closes reached : Bool)
    (hph : s.phase t = .calling call c method params)
    (hreq : requestLine L fr ((s.conns c).nextId + 1) method params = .ok line)
    (he : e.isDisconnect = true) :
    Step s ((s.serve c (if reached then (s.conns c).receive call line
      else { s.conns c with nextId := (s.conns c).nextId + 1 })).finish t closes
        ⟨call, some c, [], false, .error e⟩)
  | readByte {s t call c got x rest} (hph : s.phase t = .reading call c got)
    (hun : (s.conns c).unread = x :: rest) (hx : isBreak x.2 = false) :
    Step s (s.act t c { s.conns c with unread := rest } (.reading call c (got ++ [x])))
  | readLine {s t call c got x rest} (closes) (hph : s.phase t = .reading call c got)
    (hun : (s.conns c).unread = x :: rest) (hx : isBreak x.2 = true) :
    Step s ((s.serve c { s.conns c with unread := rest }).finish t closes
      ⟨call, some c, got ++ [x], false, callResult L (text (got ++ [x]))⟩)
  | readEof {s t call c got} (closes) (hph : s.phase t = .reading call c got)
    (hup : (s.conns c).up = false) (hun : (s.conns c).unread = []) :
    Step s (s.finish t closes ⟨call, some c, got, true, callResult L (text got)⟩)
  /-- A timeout, a reset, a byte that does not decode. -/
  | readFails {s t call c got e} (closes) (hph : s.phase t = .reading call c got)
    (he : e.isDisconnect = true) :
    Step s (s.finish t closes ⟨call, some c, got, false, .error e⟩)
  /-- The broker answers the request that has waited longest. -/
  | answer {s c call req owed} (line) (howed : (s.conns c).owed = (call, req) :: owed)
    (hs : (s.conns c).sending = []) (hline : P line) :
    Step s { s.serve c { s.conns c with owed, sending := tagged call (line ++ [0x0A#8]) } with
      answers := s.answers ++ [(call, line)] }
  | send {s c x rest} (hs : (s.conns c).sending = x :: rest) :
    Step s (s.serve c { s.conns c with sending := rest, unread := (s.conns c).unread ++ [x] })
  /-- The broker restarts, or it closes the connection. -/
  | hangUp {s c} (hc : c < s.nextConn) :
    Step s (s.serve c { s.conns c with up := false, owed := [], sending := [] })

abbrev Later : Bench τ → Bench τ → Prop := Relation.ReflTransGen (Step L fr P)

abbrev Reachable (s : Bench τ) : Prop := Later L fr P .start s

end

end HilBench
