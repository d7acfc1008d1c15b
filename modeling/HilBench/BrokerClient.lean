import HilBench.Rpc

/-! The client of the broker: the line that a call writes, and what it makes of the line
that it reads. -/

namespace HilBench

open PyJson

/-- What `BrokerClient` raises. `brokerError` is the `RuntimeError` of an error reply. -/
inductive CallError
  | connectionError | osError | valueError
  | typeError | attributeError | recursionError
  | brokerError (code message : Json)
  deriving Repr

/-- `DISCONNECT_ERRORS`. The first two are both `OSError`. -/
def CallError.isDisconnect : CallError → Bool
  | .connectionError | .osError | .valueError => true
  | _ => false

def CallError.ofDump : DumpError → CallError
  | .typeError _ => .typeError
  | .valueError _ => .valueError
  | .recursion => .recursionError

def requestLine (L : Limits) (fr : FloatRepr) (nextId : Nat) (method : PyStr)
    (params : List (PyStr × PyObj)) : Except DumpError PyStr :=
  (encode L fr encoderDefault L.dumpsDepth (.dict [(.str (pyStr "id"), .int nextId),
    (.str (pyStr "method"), .str method),
    (.str (pyStr "params"), .dict (params.map fun p => (.str p.1, p.2)))])).map
      fun doc => spell fr doc ++ [0x0A]

/-! Reading. The stream decodes strictly, and both `\n` and `\r` end a line of it. -/

/-- Python takes `\r\n` for one end of a line, not for two. The broker never writes a `\r`. -/
def isBreak (b : Byte) : Bool := b = 0x0A#8 || b = 0x0D#8

def isCont (b : Byte) : Bool := 0x80 ≤ b.toNat && b.toNat ≤ 0xBF

def contBits (b : Byte) : Nat := b.toNat - 0x80

def isSurrogate (u : Nat) : Bool := 0xD800 ≤ u && u ≤ 0xDFFF

def utf8Decode : List Byte → Option PyStr
  | [] => some []
  | a :: s =>
    if a.toNat < 0x80 then (utf8Decode s).map (a.toNat :: ·)
    else
      match s with
      | [] => none
      | b :: s =>
        let u := (a.toNat - 0xC0) * 0x40 + contBits b
        if 0xC0 ≤ a.toNat ∧ a.toNat ≤ 0xDF ∧ isCont b ∧ 0x80 ≤ u then
          (utf8Decode s).map (u :: ·)
        else
          match s with
          | [] => none
          | c :: s =>
            let u := ((a.toNat - 0xE0) * 0x40 + contBits b) * 0x40 + contBits c
            if 0xE0 ≤ a.toNat ∧ a.toNat ≤ 0xEF ∧ isCont b ∧ isCont c ∧ 0x800 ≤ u ∧
                !isSurrogate u then
              (utf8Decode s).map (u :: ·)
            else
              match s with
              | [] => none
              | d :: s =>
                let u := (((a.toNat - 0xF0) * 0x40 + contBits b) * 0x40 + contBits c) * 0x40 +
                  contBits d
                if 0xF0 ≤ a.toNat ∧ isCont b ∧ isCont c ∧ isCont d ∧ 0x10000 ≤ u ∧
                    u ≤ 0x10FFFF then
                  (utf8Decode s).map (u :: ·)
                else none

def isErrorStr : Json → Bool
  | .str s => s = pyStr "error"
  | _ => false

def respResult : Json → Except CallError Json
  | .obj resp =>
    match PyText.dictGet resp (pyStr "error") with
    | some (.obj err) => .error (.brokerError ((PyText.dictGet err (pyStr "code")).getD .null)
        ((PyText.dictGet err (pyStr "message")).getD .null))
    | some _ => .error .attributeError
    | none => .ok ((PyText.dictGet resp (pyStr "result")).getD .null)
  | .arr xs => .error (if xs.any isErrorStr then .typeError else .attributeError)
  | .str s => .error (if s.tails.any (pyStr "error").isPrefixOf then .typeError
      else .attributeError)
  | _ => .error .typeError

/-- What `call` makes of the line, which is empty at the end of the stream. -/
def callResult (L : Limits) (line : List Byte) : Except CallError Json :=
  if line = [] then .error .connectionError
  else
    match utf8Decode line with
    | none => .error .valueError
    | some s =>
      match loads L s with
      | .error .recursion => .error .recursionError
      | .error _ => .error .valueError
      | .ok resp => respResult resp

/-- The reply of the broker: its result, or its error. -/
def Replied : Except CallError Json → Prop
  | .ok _ => True
  | .error (.brokerError _ _) => True
  | _ => False

theorem not_replied_of_disconnect {e : CallError} (h : e.isDisconnect = true) :
    ¬ Replied (.error e) := by
  cases e with
  | brokerError code message => cases h
  | _ => exact not_false

theorem not_replied_ofDump (e : DumpError) : ¬ Replied (.error (.ofDump e)) := by
  cases e <;> exact not_false

/-! The lines of the broker. -/

def OneLine (line : List Byte) : Prop := ∀ b ∈ line, isBreak b = false

def encodePrintable (s : PyStr) : List Byte := s.map fun c => BitVec.ofNat 8 c

theorem encodePrintable_oneLine {s : PyStr} (h : PyJson.Printable s) :
    OneLine (encodePrintable s) := by
  intro b hb
  obtain ⟨c, hc, rfl⟩ := List.mem_map.mp hb
  obtain ⟨hlo, hhi⟩ := h c hc
  have hn : (BitVec.ofNat 8 c).toNat = c := by
    rw [BitVec.toNat_ofNat]
    omega
  have hne : ∀ x : Byte, x.toNat < 0x20 → BitVec.ofNat 8 c ≠ x := by
    intro x hx he
    rw [← he, hn] at hx
    omega
  simp only [isBreak, Bool.or_eq_false_iff, decide_eq_false_iff_not]
  exact ⟨hne _ (by decide), hne _ (by decide)⟩

theorem dumpsLine_printable {L : Limits} {fr : FloatRepr}
    {default : Foreign → Except DumpError PyStr} {o : PyObj} {reply : PyStr}
    (h : dumpsLine L fr default o = .ok (some reply)) :
    ∃ s, reply = s ++ [0x0A] ∧ PyJson.Printable s := by
  unfold dumpsLine at h
  split at h
  · cases h
  · rename_i doc hdoc
    cases h
    exact ⟨spell fr doc, rfl, spell_printable fr doc⟩

theorem callMethod_printable {L : Limits} {fr : FloatRepr} {reqId : Json} {fn : Method}
    {kwargs : List (PyStr × Json)} {reply : PyStr}
    (h : callMethod L fr reqId fn kwargs = .ok (some reply)) :
    ∃ s, reply = s ++ [0x0A] ∧ PyJson.Printable s := by
  unfold callMethod at h
  split at h
  · exact dumpsLine_printable h
  · exact dumpsLine_printable h
  · exact dumpsLine_printable h
  · cases h
  · split at h
    · cases h
    · exact dumpsLine_printable h

theorem handleRequest_oneLine {L : Limits} {fr : FloatRepr} {line : PyStr} {methods : Methods}
    {reply : PyStr} (h : (handleRequest L fr line methods).outcome = .ok (some reply)) :
    ∃ s, reply = s ++ [0x0A] ∧ OneLine (encodePrintable s) := by
  suffices hs : ∃ s, reply = s ++ [0x0A] ∧ PyJson.Printable s by
    obtain ⟨s, hr, hp⟩ := hs
    exact ⟨s, hr, encodePrintable_oneLine hp⟩
  unfold handleRequest at h
  split at h
  · exact dumpsLine_printable h
  · cases h
  · unfold handleObject at h
    simp only at h
    split at h
    · split at h
      · split at h
        · exact dumpsLine_printable h
        · exact callMethod_printable h
      · exact dumpsLine_printable h
    · exact dumpsLine_printable h
  · exact dumpsLine_printable h

end HilBench
