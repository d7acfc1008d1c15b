import HilBench.Pec15
import HilBench.PyText

/-! The serial client of the emulator: the commands it sends and what it makes of the
replies. -/

namespace HilBench

open PyText

/-- The calls that exchange a line with the firmware. -/
inductive PicoCall
  | ping | status
  | setCell (m c mV : Int) | setTemp (m sensor deciDegC : Int)
  | setAllCells (mV : Int) | setAllTemps (deciDegC : Int)
  | resetState | stopReply (moduleMask : Int) | resumeAll
  deriving DecidableEq, Repr

inductive PicoError
  | valueError (msg : Text) | runtimeError (msg : Text)
  deriving DecidableEq, Repr

inductive PicoValue
  | none | text (s : Text) | fields (out : List (Text × (Int ⊕ Text)))
  deriving DecidableEq, Repr

def PicoCall.name : PicoCall → String
  | .ping => "PING"
  | .status => "STATUS"
  | .setCell .. => "SET_CELL"
  | .setTemp .. => "SET_TEMP"
  | .setAllCells _ => "SET_ALL_CELLS"
  | .setAllTemps _ => "SET_ALL_TEMPS"
  | .resetState => "RESET_STATE"
  | .stopReply _ => "STOP_REPLY"
  | .resumeAll => "RESUME_ALL"

def PicoCall.args : PicoCall → Text
  | .setCell m c mV => ' ' :: fmtInt m ++ ' ' :: fmtInt c ++ ' ' :: fmtInt mV
  | .setTemp m s dC => ' ' :: fmtInt m ++ ' ' :: fmtInt s ++ ' ' :: fmtInt dC
  | .setAllCells mV => ' ' :: fmtInt mV
  | .setAllTemps dC => ' ' :: fmtInt dC
  | .stopReply mask => " 0x".toList ++ fmtHex02 mask.toNat
  | _ => []

def PicoCall.line (c : PicoCall) : Text := c.name.toList ++ c.args

/-- The test that a call makes before it sends anything. -/
def PicoCall.check : PicoCall → Option PicoError
  | .stopReply mask =>
    if 0 ≤ mask ∧ mask ≤ 0x1F then none
    else some (.valueError ("module_mask must be 0..0x1F, got 0x".toList ++ fmtHex mask))
  | _ => none

def picoPayload (line : Text) : List Byte := encodeAscii (rstrip line ++ ['\n'])

/-- What `_send_recv` makes of the bytes that `readline` gave it. -/
def sendRecv (line : Text) (read : List Byte) : Except PicoError Text :=
  let reply := rstrip (decodeAscii read)
  if "ERR".toList.isPrefixOf reply then
    .error (.runtimeError ("Pico rejected `".toList ++ line ++ "`: ".toList ++ reply))
  else .ok reply

def statusFields (line : Text) : List (Text × (Int ⊕ Text)) :=
  ((split line).drop 1).foldl (fun out tok =>
    if '=' ∈ tok then
      let v := (tok.dropWhile (· ≠ '=')).tail
      dictSet out (tok.takeWhile (· ≠ '=')) (((intBase0 v).map Sum.inl).getD (.inr v))
    else out) []

def PicoCall.value (c : PicoCall) (reply : Text) : Except PicoError PicoValue :=
  match c with
  | .ping => .ok (.text reply)
  | .status =>
    if "OK".toList.isPrefixOf reply then .ok (.fields (statusFields reply))
    else .error (.runtimeError ("unexpected: ".toList ++ reply))
  | _ => .ok .none

def PicoCall.run (c : PicoCall) (read : List Byte) : Except PicoError PicoValue :=
  (sendRecv c.line read).bind c.value

def PicoCall.IsSetter (c : PicoCall) : Prop := c ≠ .ping ∧ c ≠ .status

end HilBench
