import HilBench.Pec15
import HilBench.PyDumps

/-! The JSON-RPC dispatcher of the broker. -/

namespace HilBench

open PyJson

/-- An exception of a backend method. The message is what `str` gives for it, or `none` when
`str` itself raises. `baseException` is one that is no `Exception`. -/
inductive PyExc
  | rpcError (code message : PyStr)
  | typeError (message : Option PyStr)
  | exception (name : PyStr) (message : Option PyStr)
  | baseException (name : PyStr)
  deriving DecidableEq, Repr

/-- A backend method, from its keyword arguments to its result. -/
abbrev Method := List (PyStr × Json) → Except PyExc PyObj

abbrev Methods := PyStr → Option Method

/-- What `handle_request` raises. -/
inductive Escape
  | load (e : LoadError) | dump (e : DumpError) | method (e : PyExc)
  deriving DecidableEq, Repr

/-- Whether a method was called, and the response line or `None`. -/
structure Handled where
  invoked : Bool
  outcome : Except Escape (Option PyStr)
  deriving DecidableEq, Repr

def b64Char (n : Nat) : Nat :=
  if n < 26 then 0x41 + n
  else if n < 52 then 0x61 + (n - 26)
  else if n < 62 then 0x30 + (n - 52)
  else if n = 62 then 0x2B else 0x2F

def b64Encode : List Byte → PyStr
  | [] => []
  | [a] => [b64Char (a.toNat / 4), b64Char (a.toNat % 4 * 16), 0x3D, 0x3D]
  | [a, b] =>
    [b64Char (a.toNat / 4), b64Char (a.toNat % 4 * 16 + b.toNat / 16),
      b64Char (b.toNat % 16 * 4), 0x3D]
  | a :: b :: c :: bs =>
    [b64Char (a.toNat / 4), b64Char (a.toNat % 4 * 16 + b.toNat / 16),
      b64Char (b.toNat % 16 * 4 + c.toNat / 64), b64Char (c.toNat % 64)] ++ b64Encode bs

def jsonDefault : Foreign → Except DumpError PyStr
  | .bytes bs => .ok (b64Encode bs)
  | .other t => .error (.typeError (t ++ pyStr " not JSON-serialisable"))

/-- `JSONEncoder.default`. -/
def encoderDefault : Foreign → Except DumpError PyStr
  | .bytes _ => .error (.typeError (pyStr "Object of type bytes is not JSON serializable"))
  | .other t => .error (.typeError
      (pyStr "Object of type " ++ t ++ pyStr " is not JSON serializable"))

/-- The text of a `JSONDecodeError`: lines and columns count from one. -/
def decodeErrorText (doc msg : PyStr) (pos : Nat) : PyStr :=
  let before := doc.take pos
  let col := (before.reverse.takeWhile (· ≠ 0x0A)).length + 1
  msg ++ pyStr ": line " ++ intText (before.count 0x0A + 1) ++ pyStr " column " ++ intText col ++
    pyStr " (char " ++ intText pos ++ pyStr ")"

section
variable (L : Limits) (fr : FloatRepr)

def dumpsLine (default : Foreign → Except DumpError PyStr) (o : PyObj) :
    Except Escape (Option PyStr) :=
  match encode L fr default L.dumpsDepth o with
  | .error e => .error (.dump e)
  | .ok doc => .ok (some (spell fr doc ++ [0x0A]))

def errorObj (reqId : Json) (code message : PyStr) : PyObj :=
  .dict [(.str (pyStr "id"), ofJson reqId),
    (.str (pyStr "error"),
      .dict [(.str (pyStr "code"), .str code), (.str (pyStr "message"), .str message)])]

def errorLine (reqId : Json) (code message : PyStr) : Except Escape (Option PyStr) :=
  dumpsLine L fr encoderDefault (errorObj reqId code message)

def resultLine (reqId : Json) (result : PyObj) : Except Escape (Option PyStr) :=
  dumpsLine L fr jsonDefault
    (.dict [(.str (pyStr "id"), ofJson reqId), (.str (pyStr "result"), result)])

def reqGet (req : List (PyStr × Json)) (k : String) : Json :=
  (PyText.dictGet req (pyStr k)).getD .null

/-- `req.get("params") or {}`. -/
def reqParams (req : List (PyStr × Json)) : Json :=
  if (reqGet req "params").truthy then reqGet req "params" else .obj []

/-- The call of the method, and the reply to its outcome. -/
def callMethod (reqId : Json) (fn : Method) (kwargs : List (PyStr × Json)) :
    Except Escape (Option PyStr) :=
  match fn kwargs with
  | .error (.rpcError code message) => errorLine L fr reqId code message
  | .error (.typeError (some message)) => errorLine L fr reqId (pyStr "invalid_params") message
  | .error (.exception name (some message)) =>
    errorLine L fr reqId (pyStr "internal_error") (name ++ pyStr ": " ++ message)
  | .error e => .error (.method e)
  | .ok result =>
    match reqId with
    | .null => .ok none
    | reqId => resultLine L fr reqId result

def handleObject (req : List (PyStr × Json)) (methods : Methods) : Handled :=
  let reqId := reqGet req "id"
  match reqGet req "method" with
  | .str method =>
    match reqParams req with
    | .obj kwargs =>
      match methods method with
      | none => ⟨false, errorLine L fr reqId (pyStr "method_not_found")
          (pyStr "unknown method: " ++ method)⟩
      | some fn => ⟨true, callMethod L fr reqId fn kwargs⟩
    | _ => ⟨false, errorLine L fr reqId (pyStr "invalid_request")
        (pyStr "'params' must be an object")⟩
  | _ => ⟨false, errorLine L fr reqId (pyStr "invalid_request")
      (pyStr "missing or non-string 'method'")⟩

def handleRequest (line : PyStr) (methods : Methods) : Handled :=
  match loads L line with
  | .error (.decode msg pos) =>
    ⟨false, errorLine L fr .null (pyStr "parse_error")
      (pyStr "invalid JSON: " ++ decodeErrorText line msg pos)⟩
  | .error e => ⟨false, .error (.load e)⟩
  | .ok (.obj req) => handleObject L fr req methods
  | .ok _ =>
    ⟨false, errorLine L fr .null (pyStr "invalid_request") (pyStr "request must be a JSON object")⟩

end

end HilBench
