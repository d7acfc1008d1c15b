import HilBench.BrokerClient

/-! The connection handler of the broker: the lines of the stream, what is written for each of
them, and what they do to the backend. -/

namespace HilBench

open PyJson

/-! `decode("utf-8", errors="replace")`: where a sequence breaks off, what there was of it is
one replacement character. -/

/-- The range of the second byte of a sequence, and the number of bytes behind the first. -/
def utf8Lead (a : Nat) : Option (Nat × Nat × Nat) :=
  if 0xC2 ≤ a ∧ a ≤ 0xDF then some (0x80, 0xBF, 1)
  else if a = 0xE0 then some (0xA0, 0xBF, 2)
  else if a = 0xED then some (0x80, 0x9F, 2)
  else if 0xE1 ≤ a ∧ a ≤ 0xEF then some (0x80, 0xBF, 2)
  else if a = 0xF0 then some (0x90, 0xBF, 3)
  else if a = 0xF4 then some (0x80, 0x8F, 3)
  else if 0xF1 ≤ a ∧ a ≤ 0xF3 then some (0x80, 0xBF, 3)
  else none

def utf8Replace : List Byte → PyStr
  | [] => []
  | a :: s =>
    if a.toNat < 0x80 then a.toNat :: utf8Replace s
    else
      match utf8Lead a.toNat with
      | none => 0xFFFD :: utf8Replace s
      | some (lo, hi, n) =>
        match s with
        | [] => [0xFFFD]
        | b :: s =>
          if ¬ (lo ≤ b.toNat ∧ b.toNat ≤ hi) then 0xFFFD :: utf8Replace (b :: s)
          else if n = 1 then ((a.toNat - 0xC0) * 0x40 + contBits b) :: utf8Replace s
          else
            match s with
            | [] => [0xFFFD]
            | c :: s =>
              if isCont c = false then 0xFFFD :: utf8Replace (c :: s)
              else if n = 2 then
                (((a.toNat - 0xE0) * 0x40 + contBits b) * 0x40 + contBits c) :: utf8Replace s
              else
                match s with
                | [] => [0xFFFD]
                | d :: s =>
                  if isCont d = false then 0xFFFD :: utf8Replace (d :: s)
                  else
                    ((((a.toNat - 0xF0) * 0x40 + contBits b) * 0x40 + contBits c) * 0x40 +
                      contBits d) :: utf8Replace s

def isSpaceCode (c : Nat) : Bool := PyText.isSpace (Char.ofNat c)

def stripStr (s : PyStr) : PyStr :=
  ((s.dropWhile isSpaceCode).reverse.dropWhile isSpaceCode).reverse

/-- `raw.decode("utf-8", errors="replace").strip()`. -/
def requestText (raw : List Byte) : PyStr := stripStr (utf8Replace raw)

/-- The lines of `rfile`; `cur` is the one being read. The last one may lack its newline. -/
def rawLines (cur : List Byte) : List Byte → List (List Byte)
  | [] => if cur = [] then [] else [cur]
  | b :: s => if b = 0x0A#8 then (cur ++ [b]) :: rawLines [] s else rawLines (cur ++ [b]) s

/-- A backend: its methods answer from its state, and change it. -/
abbrev Backend (σ : Type) := PyStr → Option (List (PyStr × Json) → σ → Except PyExc PyObj × σ)

section
variable {σ : Type}

/-- What the methods answer in one state. -/
def Backend.methods (b : Backend σ) (s : σ) : Methods :=
  fun method => (b method).map fun fn kwargs => (fn kwargs s).1

section
variable (L : Limits) (fr : FloatRepr) (b : Backend σ) (s : σ)

def Backend.handleObject (req : List (PyStr × Json)) : Handled × σ :=
  let reqId := reqGet req "id"
  match reqGet req "method" with
  | .str method =>
    match reqParams req with
    | .obj kwargs =>
      match b method with
      | none => (⟨false, errorLine L fr reqId (pyStr "method_not_found")
          (pyStr "unknown method: " ++ method)⟩, s)
      | some fn =>
        let (result, s') := fn kwargs s
        (⟨true, callMethod L fr reqId (fun _ => result) kwargs⟩, s')
    | _ => (⟨false, errorLine L fr reqId (pyStr "invalid_request")
        (pyStr "'params' must be an object")⟩, s)
  | _ => (⟨false, errorLine L fr reqId (pyStr "invalid_request")
      (pyStr "missing or non-string 'method'")⟩, s)

/-- `handle_request`, with what it leaves of the backend. -/
def Backend.handleRequest (line : PyStr) : Handled × σ :=
  match loads L line with
  | .ok (.obj req) => b.handleObject L fr s req
  | _ => (HilBench.handleRequest L fr line (b.methods s), s)

end

theorem Backend.handleObject_fst {L : Limits} {fr : FloatRepr} {b : Backend σ} {s : σ}
    {req : List (PyStr × Json)} :
    (b.handleObject L fr s req).1 = HilBench.handleObject L fr req (b.methods s) := by
  unfold Backend.handleObject HilBench.handleObject
  cases hmethod : reqGet req "method" with
  | str method =>
    cases hparams : reqParams req with
    | obj kwargs =>
      cases hb : b method with
      | none => simp [Backend.methods, hb]
      | some fn => simp [Backend.methods, hb, callMethod]
    | _ => rfl
  | _ => rfl

/-- The reply is the one to the methods as they answer in the state before. -/
theorem Backend.handleRequest_fst {L : Limits} {fr : FloatRepr} {b : Backend σ} {s : σ}
    {line : PyStr} :
    (b.handleRequest L fr s line).1 = HilBench.handleRequest L fr line (b.methods s) := by
  unfold Backend.handleRequest
  split
  · rename_i req hload
    rw [Backend.handleObject_fst]
    simp only [HilBench.handleRequest, hload]
  · rfl

/-- How a write of a reply ends. One that fails may have sent some of it. -/
inductive WriteEnd
  | done | brokenPipe (sent : Nat) | osError (sent : Nat)
  deriving DecidableEq, Repr

/-- How `handle` ends: the loop is left, or an exception closes the connection. -/
inductive HandlerEnd
  | left | escaped (e : Escape) | osError
  deriving DecidableEq, Repr

/-- What has been written to the connection, how the handler has ended, after how many requests,
and what it leaves of the backend. -/
structure Served (σ : Type) where
  out : List Byte
  ends : HandlerEnd
  count : Nat
  backend : σ
  deriving DecidableEq, Repr

/-- `_Handler.handle`. Other connections may have changed the backend between two requests: the
one after `n` others finds the methods of `b n`. -/
def handleLines (L : Limits) (fr : FloatRepr) (b : Nat → Backend σ) (writes : Nat → WriteEnd) :
    Nat → σ → List (List Byte) → Served σ
  | n, s, [] => ⟨[], .left, n, s⟩
  | n, s, raw :: lines =>
    if requestText raw = [] then handleLines L fr b writes n s lines
    else
      let handled := (b n).handleRequest L fr s (requestText raw)
      match handled.1.outcome with
      | .error e => ⟨[], .escaped e, n + 1, handled.2⟩
      | .ok none => handleLines L fr b writes (n + 1) handled.2 lines
      | .ok (some resp) =>
        match writes n with
        | .brokenPipe sent => ⟨(encodePrintable resp).take sent, .left, n + 1, handled.2⟩
        | .osError sent => ⟨(encodePrintable resp).take sent, .osError, n + 1, handled.2⟩
        | .done =>
          let rest := handleLines L fr b writes (n + 1) handled.2 lines
          { rest with out := encodePrintable resp ++ rest.out }

def handle (L : Limits) (fr : FloatRepr) (b : Nat → Backend σ) (writes : Nat → WriteEnd)
    (s : σ) (stream : List Byte) : Served σ :=
  handleLines L fr b writes 0 s (rawLines [] stream)

end

/-! A line of printable characters. -/

theorem encodePrintable_append (s t : PyStr) :
    encodePrintable (s ++ t) = encodePrintable s ++ encodePrintable t :=
  List.map_append

theorem toNat_ofNat_ascii {c : Nat} (hc : c < 0x80) : (BitVec.ofNat 8 c).toNat = c := by
  rw [BitVec.toNat_ofNat]
  omega

theorem utf8Replace_ascii {s : PyStr} (h : ∀ c ∈ s, c < 0x80) :
    utf8Replace (encodePrintable s) = s := by
  induction s with
  | nil => rfl
  | cons c s ih =>
    have hc := h c List.mem_cons_self
    have hn := toNat_ofNat_ascii hc
    have hs := ih fun d hd => h d (List.mem_cons_of_mem _ hd)
    rw [encodePrintable, List.map_cons, utf8Replace, hn, if_pos hc]
    exact congrArg (c :: ·) hs

theorem utf8Decode_ascii {s : PyStr} (h : ∀ c ∈ s, c < 0x80) :
    utf8Decode (encodePrintable s) = some s := by
  induction s with
  | nil => rfl
  | cons c s ih =>
    have hc := h c List.mem_cons_self
    have hn := toNat_ofNat_ascii hc
    have hs := ih fun d hd => h d (List.mem_cons_of_mem _ hd)
    rw [encodePrintable] at hs ⊢
    rw [List.map_cons, utf8Decode.eq_def]
    simp only [hn, if_pos hc, hs, Option.map_some]

theorem ascii_line {s : PyStr} (h : PyJson.Printable s) : ∀ c ∈ s ++ [0x0A], c < 0x80 := by
  intro c hc
  rcases List.mem_append.mp hc with hc | hc
  · have hp := h c hc
    omega
  · rw [List.mem_singleton.mp hc]
    decide

theorem rawLines_line {l : List Byte} (hl : 0x0A#8 ∉ l) (cur t : List Byte) :
    rawLines cur (l ++ 0x0A#8 :: t) = (cur ++ l ++ [0x0A#8]) :: rawLines [] t := by
  induction l generalizing cur with
  | nil => simp [rawLines]
  | cons b l ih =>
    have hb : b ≠ 0x0A#8 := fun hb => hl (hb ▸ List.mem_cons_self)
    have hih := ih (fun hm => hl (List.mem_cons_of_mem _ hm)) (cur ++ [b])
    rw [List.cons_append, rawLines, if_neg hb, hih]
    simp only [List.append_assoc, List.singleton_append]

theorem OneLine.not_mem {l : List Byte} (h : OneLine l) : 0x0A#8 ∉ l :=
  fun hm => absurd (h _ hm) (by decide)

theorem rawLines_printable {s : PyStr} (h : PyJson.Printable s) :
    rawLines [] (encodePrintable (s ++ [0x0A])) = [encodePrintable (s ++ [0x0A])] := by
  have hr := rawLines_line (encodePrintable_oneLine h).not_mem [] []
  rw [encodePrintable_append]
  exact hr

/-- Between two characters of its own a text is kept by `strip`. -/
theorem stripStr_line {c d : Nat} (hc : isSpaceCode c = false) (hd : isSpaceCode d = false)
    (s : PyStr) : stripStr (c :: s ++ [d] ++ [0x0A]) = c :: s ++ [d] := by
  have hn : isSpaceCode 0x0A = true := by decide
  simp [stripStr, hc, hd, hn]

theorem requestText_object (fr : FloatRepr) (kvs : List (PyStr × Json)) :
    requestText (encodePrintable (spell fr (.obj kvs) ++ [0x0A])) = spell fr (.obj kvs) := by
  rw [requestText, utf8Replace_ascii (ascii_line (spell_printable fr _)), spell]
  exact stripStr_line (by decide) (by decide) _

end HilBench
