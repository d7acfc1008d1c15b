import HilBench.BrokerHandler
import HilBench.JsonRoundTrip
import HilBench.RpcDiscipline

/-! A call through the client, the socket and the handler of the broker is a call of the
method. -/

namespace HilBench

open PyJson

structure Call where
  method : PyStr
  params : List (PyStr × PyObj)

/-- A connection with its two ends: what the handler has written and the client has not read,
and whether the handler is in its loop, with `served` requests and the backend behind it. -/
structure Remote (σ : Type) where
  nextId : Nat
  inbox : List Byte
  up : Bool
  served : Nat
  backend : σ
  deriving DecidableEq, Repr

def Remote.opened {σ : Type} (s : σ) : Remote σ := ⟨0, [], true, 0, s⟩

/-- `readline` of the client, which blocks where there is no end of a line. An end with a `\r`
is turned into `\n`. -/
def clientLine : List Byte → Option (List Byte × List Byte)
  | [] => none
  | b :: s =>
    if b = 0x0A#8 then some ([0x0A#8], s)
    else if b = 0x0D#8 then some ([0x0A#8], if s.head? = some 0x0A#8 then s.tail else s)
    else (clientLine s).map fun r => (b :: r.1, r.2)

section
variable {σ : Type} (Lc Ls : Limits) (fr : FloatRepr) (b : Nat → Backend σ)

/-- `BrokerClient.call`, with the handler at the other end of the socket. -/
def Remote.call (st : Remote σ) (c : Call) : Except CallError Json × Remote σ :=
  let id := st.nextId + 1
  match requestLine Lc fr id c.method c.params with
  | .error e => (.error (.ofDump e), { st with nextId := id })
  | .ok text =>
    if st.up = false then (.error .connectionError, { st with nextId := id })
    else
      let served := handleLines Ls fr b (fun _ => .done) st.served st.backend
        (rawLines [] (encodePrintable text))
      let up := decide (served.ends = .left)
      match clientLine (st.inbox ++ served.out) with
      | some (line, rest) => (callResult Lc line, ⟨id, rest, up, served.count, served.backend⟩)
      -- at the end of the stream the rest of it is the line; else the read times out
      | none =>
        (if up then .error .osError else callResult Lc (st.inbox ++ served.out),
          ⟨id, [], up, served.count, served.backend⟩)

def Remote.calls (st : Remote σ) : List Call → List (Except CallError Json) × Remote σ
  | [] => ([], st)
  | c :: cs =>
    let (r, st') := st.call Lc Ls fr b c
    let (rs, last) := st'.calls cs
    (r :: rs, last)

end

/-! What a call amounts to. -/

section
variable {σ : Type} (Lc Ls : Limits) (fr : FloatRepr) (g : PyFloat → PyFloat)

def brokerErr (code message : PyStr) : Except CallError Json :=
  .error (.brokerError (.str (joinPairs code)) (.str (joinPairs message)))

/-- The result of a method, as a document, or what there is instead of it. -/
def outcomeOf : Except PyExc PyObj → Except CallError Json
  | .error (.rpcError code message) => brokerErr code message
  | .error (.typeError (some message)) => brokerErr (pyStr "invalid_params") message
  | .error (.exception name (some message)) =>
    brokerErr (pyStr "internal_error") (name ++ pyStr ": " ++ message)
  | .error _ => .error .connectionError
  | .ok result =>
    match encode Ls fr jsonDefault (Ls.dumpsDepth - 1) result with
    | .error _ => .error .connectionError
    | .ok doc => .ok (norm g doc)

/-- The call of the method itself. -/
def localCall (b : Backend σ) (s : σ) (method : PyStr) (kwargs : List (PyStr × Json)) :
    Except CallError Json × σ :=
  match b method with
  | none => (brokerErr (pyStr "method_not_found") (pyStr "unknown method: " ++ method), s)
  | some fn =>
    let (result, s') := fn kwargs s
    (outcomeOf Ls fr g result, s')

/-- The keyword arguments that arrive. -/
def sentKwargs (params : List (PyStr × PyObj)) : List (PyStr × Json) :=
  match encodeFields Lc fr encoderDefault (Lc.dumpsDepth - 2)
    (params.map fun p => (.str p.1, p.2)) with
  | .error _ => []
  | .ok fields => normFields g [] fields

def lives : Except CallError Json → Bool
  | .error .connectionError => false
  | _ => true

/-- Calls of the methods themselves: their results, and what they leave of the backend. Once a
reply cannot be written there is no connection any more, and no method is called. -/
def localCalls (b : Nat → Backend σ) (up : Bool) (id n : Nat) (s : σ) :
    List Call → List (Except CallError Json) × σ
  | [] => ([], s)
  | c :: cs =>
    match requestLine Lc fr (id + 1) c.method c.params with
    | .error e =>
      let (rs, last) := localCalls b up (id + 1) n s cs
      (.error (.ofDump e) :: rs, last)
    | .ok _ =>
      if up = false then
        let (rs, last) := localCalls b up (id + 1) n s cs
        (.error .connectionError :: rs, last)
      else
        let (r, s') :=
          localCall Ls fr g (b n) s (joinPairs c.method) (sentKwargs Lc fr g c.params)
        let (rs, last) := localCalls b (lives r) (id + 1) (n + 1) s' cs
        (r :: rs, last)

end

/-! The request. -/

def reqDoc (id : Nat) (method : PyStr) (fields : List (PyStr × Json)) : Json :=
  .obj [(pyStr "id", .int id), (pyStr "method", .str method), (pyStr "params", .obj fields)]

section
variable {Lc Ls : Limits} {fr : FloatRepr} {g : PyFloat → PyFloat}

theorem requestLine_ok {id : Nat} {method text : PyStr} {params : List (PyStr × PyObj)}
    (h : requestLine Lc fr id method params = .ok text) : ∃ fields,
    encodeFields Lc fr encoderDefault (Lc.dumpsDepth - 2)
      (params.map fun p => (.str p.1, p.2)) = .ok fields ∧
    (Nat.toDigits 10 id).length ≤ Lc.maxDigits ∧
    text = spell fr (reqDoc id method fields) ++ [0x0A] := by
  obtain ⟨d, hd⟩ : ∃ d, Lc.dumpsDepth = d + 2 := ⟨Lc.dumpsDepth - 2, by have := Lc.nests; omega⟩
  unfold requestLine at h
  rw [hd] at h ⊢
  rw [encode] at h
  simp only [encodeFields, keyText, encode, Except.bind, Nat.add_sub_cancel] at h ⊢
  cases hi : intRepr Lc (id : Int) with
  | error e => rw [hi] at h; cases h
  | ok t =>
    cases hf : encodeFields Lc fr encoderDefault d (params.map fun p => (.str p.1, p.2)) with
    | error e => rw [hi, hf] at h; cases h
    | ok fields =>
      rw [hi, hf] at h
      cases h
      exact ⟨fields, rfl, (intRepr_ok hi).1, rfl⟩

theorem norm_reqDoc (id : Nat) (method : PyStr) (fields : List (PyStr × Json)) :
    norm g (reqDoc id method fields) = reqDoc id (joinPairs method) (normFields g [] fields) :=
  rfl

theorem respResult_result (reqId : Nat) (v : Json) :
    respResult (norm g (.obj [(pyStr "id", .int reqId), (pyStr "result", v)])) = .ok (norm g v) :=
  rfl

theorem respResult_error (reqId : Nat) (code message : PyStr) :
    respResult (norm g (.obj [(pyStr "id", .int reqId),
      (pyStr "error", errorDoc code message)])) = brokerErr code message :=
  rfl

theorem reqGet_reqDoc {req : List (PyStr × Json)} {id : Nat} {method : PyStr}
    {kwargs : List (PyStr × Json)} (h : reqDoc id method kwargs = .obj req) :
    reqGet req "id" = .int id ∧ reqGet req "method" = .str method ∧
      reqParams req = .obj kwargs := by
  cases h
  refine ⟨rfl, rfl, ?_⟩
  cases kwargs <;> rfl

/-! The reply. -/

theorem clientLine_line {l : List Byte} (h : OneLine l) (t : List Byte) :
    clientLine (l ++ 0x0A#8 :: t) = some (l ++ [0x0A#8], t) := by
  induction l with
  | nil => rfl
  | cons b l ih =>
    have hb := h b List.mem_cons_self
    have hih := ih fun c hc => h c (List.mem_cons_of_mem _ hc)
    simp only [isBreak, Bool.or_eq_false_iff, decide_eq_false_iff_not] at hb
    rw [List.cons_append, clientLine, if_neg hb.1, if_neg hb.2, hih]
    rfl

theorem callResult_spell (hf : ReprReads Lc fr g) {doc : Json} (hd : Fits Lc Lc.loadsDepth doc) :
    callResult Lc (encodePrintable (spell fr doc ++ [0x0A])) = respResult (norm g doc) := by
  have hne : encodePrintable (spell fr doc ++ [0x0A]) ≠ [] := by simp [encodePrintable]
  rw [callResult, if_neg hne, utf8Decode_ascii (ascii_line (spell_printable fr doc))]
  simp only [loads_spell hf hd (.inr rfl)]

/-- What a method may give back: its texts are those of Python. -/
def ValidOutcome : Except PyExc PyObj → Prop
  | .ok o => ValidObj o
  | .error (.rpcError code message) => ValidStr code ∧ ValidStr message
  | .error (.typeError (some message)) => ValidStr message
  | .error (.exception name (some message)) => ValidStr name ∧ ValidStr message
  | .error _ => True

theorem b64Char_lt {n : Nat} (hn : n < 64) : b64Char n ≤ 0x7A := by
  unfold b64Char
  split_ifs <;> omega

theorem b64Encode_valid (bs : List Byte) : ValidStr (b64Encode bs) := by
  have hchar : ∀ n < 64, b64Char n ≤ 0x10FFFF := fun n hn => (b64Char_lt hn).trans (by decide)
  induction bs using b64Encode.induct with
  | case1 => exact fun c hc => absurd hc List.not_mem_nil
  | case2 a =>
    have ha := a.isLt
    simp only [b64Encode, ValidStr, List.forall_mem_cons]
    exact ⟨hchar _ (by omega), hchar _ (by omega), by decide, by decide, by simp⟩
  | case3 a b =>
    have ha := a.isLt
    have hb := b.isLt
    simp only [b64Encode, ValidStr, List.forall_mem_cons]
    exact ⟨hchar _ (by omega), hchar _ (by omega), hchar _ (by omega), by decide, by simp⟩
  | case4 a b c bs ih =>
    have ha := a.isLt
    have hb := b.isLt
    have hc := c.isLt
    simp only [b64Encode, ValidStr, List.cons_append, List.nil_append, List.forall_mem_cons]
    exact ⟨hchar _ (by omega), hchar _ (by omega), hchar _ (by omega), hchar _ (by omega), ih⟩

theorem jsonDefault_valid (x : Foreign) (s : PyStr) (h : jsonDefault x = .ok s) : ValidStr s := by
  cases x with
  | bytes bs =>
    cases h
    exact b64Encode_valid bs
  | other t => cases h

/-- The two ends of a socket, as far as their limits go. -/
structure Peers (Lc Ls : Limits) : Prop where
  digits : Lc.maxDigits = Ls.maxDigits
  requests : Lc.dumpsDepth ≤ Ls.loadsDepth
  replies : Ls.dumpsDepth ≤ Lc.loadsDepth

/-- The handler answers with a document, or the method leaves no answer. -/
inductive Answers (Ls : Limits) (fr : FloatRepr) (g : PyFloat → PyFloat) (h : Handled) :
    Except CallError Json → Prop
  | reply (doc : Json) (hout : h.outcome = .ok (some (spell fr doc ++ [0x0A])))
    (hfits : Fits Ls Ls.dumpsDepth doc) (hne : respResult (norm g doc) ≠ .error .connectionError) :
    Answers Ls fr g h (respResult (norm g doc))
  | dies (e : Escape) (hout : h.outcome = .error e) : Answers Ls fr g h (.error .connectionError)

theorem brokerErr_ne (code message : PyStr) :
    brokerErr code message ≠ .error .connectionError := by
  intro h
  cases h

theorem writes_int {id : Nat} (hid : (Nat.toDigits 10 id).length ≤ Ls.maxDigits) :
    Writes Ls fr (ofJson (.int id)) := by
  refine ⟨.int id, ?_⟩
  have hr : intRepr Ls (id : Int) = .ok (intText id) := if_neg (Nat.not_lt.mpr hid)
  rw [ofJson, encode, hr]
  rfl

theorem fits_pair {id : Nat} (hid : (Nat.toDigits 10 id).length ≤ Ls.maxDigits) {key : String}
    (hkey : key = "result" ∨ key = "error") {v : Json} (hv : Fits Ls (Ls.dumpsDepth - 1) v) :
    Fits Ls Ls.dumpsDepth (.obj [(pyStr "id", .int id), (pyStr key, v)]) := by
  obtain ⟨d, hd⟩ : ∃ d, Ls.dumpsDepth = d + 1 := ⟨Ls.dumpsDepth - 1, by have := Ls.nests; omega⟩
  have hi : ValidStr (pyStr "id") := by decide
  have hk : ValidStr (pyStr key) := by
    rcases hkey with rfl | rfl <;> decide
  rw [hd, Nat.add_sub_cancel] at hv
  rw [hd]
  exact ⟨hi, hid, hk, hv, trivial⟩

section
variable {id : Nat} (hid : (Nat.toDigits 10 id).length ≤ Ls.maxDigits)
include hid

theorem answers_error {code message : PyStr} (hc : ValidStr code) (hm : ValidStr message)
    (invoked : Bool) : Answers Ls fr g ⟨invoked, errorLine Ls fr (.int id) code message⟩
      (brokerErr code message) := by
  obtain ⟨d, hd⟩ : ∃ d, Ls.dumpsDepth - 1 = d + 1 := ⟨Ls.dumpsDepth - 2, by have := Ls.nests; omega⟩
  have hcode : ValidStr (pyStr "code") := by decide
  have hmessage : ValidStr (pyStr "message") := by decide
  have herr : Fits Ls (Ls.dumpsDepth - 1) (errorDoc code message) := by
    rw [hd]
    exact ⟨hcode, hc, hmessage, hm, trivial⟩
  have hans := Answers.reply (g := g) _ (errorLine_writes (writes_int hid) code message)
    (fits_pair hid (.inr rfl) herr) (h := ⟨invoked, errorLine Ls fr (.int id) code message⟩)
  rw [respResult_error] at hans
  exact hans (brokerErr_ne code message)

theorem answers_result {r : PyObj} (hr : ValidObj r) {fn : Method} {kwargs : List (PyStr × Json)}
    (hfn : fn kwargs = .ok r) :
    Answers Ls fr g ⟨true, callMethod Ls fr (.int id) fn kwargs⟩ (outcomeOf Ls fr g (.ok r)) := by
  have hcall : callMethod Ls fr (.int id) fn kwargs = resultLine Ls fr (.int id) r :=
    callMethod_result hfn (by simp)
  cases he : encode Ls fr jsonDefault (Ls.dumpsDepth - 1) r with
  | error e =>
    have hfails : ∃ e, resultLine Ls fr (.int id) r = .error e := resultLine_fails fun hw => by
      obtain ⟨v, hv⟩ := hw.2
      rw [he] at hv
      cases hv
    obtain ⟨esc, hesc⟩ := hfails
    have ho : outcomeOf Ls fr g (.ok r) = .error .connectionError := by simp only [outcomeOf, he]
    rw [ho]
    exact .dies esc (hcall.trans hesc)
  | ok doc =>
    have hline := hcall.trans (resultLine_writes (writes_int hid) he)
    have hans := Answers.reply (g := g) _ hline
      (fits_pair hid (.inl rfl) (encode_fits jsonDefault_valid r hr he))
      (h := ⟨true, callMethod Ls fr (.int id) fn kwargs⟩)
    have ho : outcomeOf Ls fr g (.ok r) = .ok (norm g doc) := by simp only [outcomeOf, he]
    rw [respResult_result] at hans
    rw [ho]
    exact hans (by simp)

theorem answers_outcome {r : Except PyExc PyObj} (hr : ValidOutcome r) {fn : Method}
    {kwargs : List (PyStr × Json)} (hfn : fn kwargs = r) :
    Answers Ls fr g ⟨true, callMethod Ls fr (.int id) fn kwargs⟩ (outcomeOf Ls fr g r) := by
  have hparams : ValidStr (pyStr "invalid_params") := by decide
  have hinternal : ValidStr (pyStr "internal_error") := by decide
  have hcolon : ValidStr (pyStr ": ") := by decide
  have herr : ∀ {code message : PyStr}, ValidStr code → ValidStr message →
      callMethod Ls fr (.int id) fn kwargs = errorLine Ls fr (.int id) code message →
      Answers Ls fr g ⟨true, callMethod Ls fr (.int id) fn kwargs⟩ (brokerErr code message) := by
    intro code message hc hm he
    rw [he]
    exact answers_error hid hc hm true
  have hdies : ∀ e : PyExc, e.reportable = false → fn kwargs = .error e →
      Answers Ls fr g ⟨true, callMethod Ls fr (.int id) fn kwargs⟩ (.error .connectionError) :=
    fun e he hf => .dies _ (callMethod_raises hf he)
  cases r with
  | ok r => exact answers_result hid hr hfn
  | error e =>
    cases e with
    | rpcError code message => exact herr hr.1 hr.2 (by rw [callMethod, hfn])
    | typeError message =>
      cases message with
      | none => exact hdies _ rfl hfn
      | some message => exact herr hparams hr (by rw [callMethod, hfn])
    | exception name message =>
      cases message with
      | none => exact hdies _ rfl hfn
      | some message =>
        have hm : ValidStr (name ++ pyStr ": " ++ message) := by
          intro c hc
          rcases List.mem_append.mp hc with hc | hc
          · exact (List.mem_append.mp hc).elim (hr.1 c) (hcolon c)
          · exact hr.2 c hc
        exact herr hinternal hm (by rw [callMethod, hfn])
    | baseException name => exact hdies _ rfl hfn

/-- The method that a request names runs once, and the reply is to what it gave. -/
theorem answers_object {σ : Type} {b : Backend σ} {s : σ} {method : PyStr}
    {kwargs req : List (PyStr × Json)} (hreq : reqDoc id method kwargs = .obj req)
    (hmethod : ValidStr method)
    (hvalid : ∀ fn, b method = some fn → ValidOutcome (fn kwargs s).1) :
    Answers Ls fr g (b.handleObject Ls fr s req).1 (localCall Ls fr g b s method kwargs).1 ∧
      (b.handleObject Ls fr s req).2 = (localCall Ls fr g b s method kwargs).2 := by
  obtain ⟨hi, hm, hp⟩ := reqGet_reqDoc hreq
  have hunknown : ValidStr (pyStr "unknown method: ") := by decide
  have hfound : ValidStr (pyStr "method_not_found") := by decide
  unfold Backend.handleObject localCall
  simp only [hi, hm, hp]
  cases hf : b method with
  | none =>
    refine ⟨?_, rfl⟩
    exact answers_error hid hfound
      (fun c hc => (List.mem_append.mp hc).elim (hunknown c) (hmethod c)) false
  | some fn => exact ⟨answers_outcome hid (hvalid fn hf) rfl, rfl⟩

end

/-! One call, and a run of calls. -/

structure ValidCall (c : Call) : Prop where
  method : ValidStr c.method
  params : ValidEntries (c.params.map fun p => (.str p.1, p.2))

/-- What the results of the methods of a backend are. -/
def ValidBackend {σ : Type} (b : Nat → Backend σ) : Prop :=
  ∀ n method fn kwargs s, b n method = some fn → ValidOutcome (fn kwargs s).1

theorem encoderDefault_valid (x : Foreign) (s : PyStr) (h : encoderDefault x = .ok s) :
    ValidStr s := by
  cases x <;> cases h

theorem requestLine_fits {id : Nat} {c : Call} (hc : ValidCall c) {fields : List (PyStr × Json)}
    (hfields : encodeFields Lc fr encoderDefault (Lc.dumpsDepth - 2)
      (c.params.map fun p => (.str p.1, p.2)) = .ok fields)
    (hid : (Nat.toDigits 10 id).length ≤ Lc.maxDigits) :
    Fits Lc Lc.dumpsDepth (reqDoc id c.method fields) := by
  obtain ⟨d, hd⟩ : ∃ d, Lc.dumpsDepth = d + 2 := ⟨Lc.dumpsDepth - 2, by have := Lc.nests; omega⟩
  have h1 : ValidStr (pyStr "id") := by decide
  have h2 : ValidStr (pyStr "method") := by decide
  have h3 : ValidStr (pyStr "params") := by decide
  have hfit := encodeFields_fits encoderDefault_valid _ hc.params hfields
  rw [hd, Nat.add_sub_cancel] at hfit
  rw [hd]
  exact ⟨h1, hid, h2, hc.method, h3, hfit, trivial⟩

theorem handleRequest_object {σ : Type} {line : PyStr} {req : List (PyStr × Json)}
    (h : loads Ls line = .ok (.obj req)) (b : Backend σ) (s : σ) :
    b.handleRequest Ls fr s line = b.handleObject Ls fr s req := by
  simp only [Backend.handleRequest, h]

section
variable {σ : Type} {b : Nat → Backend σ}

/-- The request arrives as it was meant. -/
theorem handleRequest_request (hp : Peers Lc Ls) (hf : ReprReads Ls fr g)
    (hm : ValidBackend b) (n : Nat) (s : σ) {id : Nat} {c : Call}
    (hc : ValidCall c) {text : PyStr} (ht : requestLine Lc fr id c.method c.params = .ok text) :
    ∃ kvs, text = spell fr (.obj kvs) ++ [0x0A] ∧
      Answers Ls fr g ((b n).handleRequest Ls fr s (spell fr (.obj kvs))).1
        (localCall Ls fr g (b n) s (joinPairs c.method) (sentKwargs Lc fr g c.params)).1 ∧
      ((b n).handleRequest Ls fr s (spell fr (.obj kvs))).2 =
        (localCall Ls fr g (b n) s (joinPairs c.method) (sentKwargs Lc fr g c.params)).2 := by
  obtain ⟨fields, hfields, hid, rfl⟩ := requestLine_ok ht
  refine ⟨_, rfl, ?_⟩
  have hfits := Fits.mono (le_of_eq hp.digits) _ (requestLine_fits hc hfields hid) hp.requests
  have hload := loads_spell hf hfits (.inl rfl)
  have hkw : sentKwargs Lc fr g c.params = normFields g [] fields := by
    simp only [sentKwargs, hfields]
  rw [List.append_nil, norm_reqDoc] at hload
  have hhandle : (b n).handleRequest Ls fr s (spell fr (reqDoc id c.method fields)) =
      (b n).handleObject Ls fr s [(pyStr "id", .int id),
        (pyStr "method", .str (joinPairs c.method)),
        (pyStr "params", .obj (normFields g [] fields))] :=
    handleRequest_object hload (b n) s
  rw [hkw]
  exact hhandle ▸ answers_object (hp.digits ▸ hid) rfl (joinPairs_valid hc.method)
    fun fn hfn => hm n _ fn _ s hfn

theorem lives_iff {r : Except CallError Json} :
    lives r = true ↔ r ≠ .error .connectionError := by
  unfold lives
  split
  · simp
  · rename_i hne
    simpa using hne

theorem lives_of_ne {r : Except CallError Json} (h : r ≠ .error .connectionError) :
    lives r = true := lives_iff.mpr h

theorem handleLines_reply {raw : List Byte} {line resp : PyStr} (n : Nat) (s : σ)
    (htext : requestText raw = line) (hne : line ≠ [])
    (hout : ((b n).handleRequest Ls fr s line).1.outcome = .ok (some resp)) :
    handleLines Ls fr b (fun _ => .done) n s [raw] =
      ⟨encodePrintable resp, .left, n + 1, ((b n).handleRequest Ls fr s line).2⟩ := by
  subst htext
  rw [handleLines, if_neg hne]
  simp only [hout, handleLines, List.append_nil]

theorem handleLines_escaped {raw : List Byte} {line : PyStr} (n : Nat) (s : σ)
    (htext : requestText raw = line) (hne : line ≠ []) {e : Escape}
    (hout : ((b n).handleRequest Ls fr s line).1.outcome = .error e) :
    handleLines Ls fr b (fun _ => .done) n s [raw] =
      ⟨[], .escaped e, n + 1, ((b n).handleRequest Ls fr s line).2⟩ := by
  subst htext
  rw [handleLines, if_neg hne]
  simp only [hout]

/-- A call of the client over a connection that is up is a call of the method. -/
theorem Remote.call_eq (hp : Peers Lc Ls) (hf : ReprReads Ls fr g) (hm : ValidBackend b)
    {st : Remote σ} (hup : st.up = true) (hin : st.inbox = []) {c : Call} (hc : ValidCall c)
    {text : PyStr} (ht : requestLine Lc fr (st.nextId + 1) c.method c.params = .ok text)
    {r : Except CallError Json} {s' : σ}
    (hr : localCall Ls fr g (b st.served) st.backend (joinPairs c.method)
      (sentKwargs Lc fr g c.params) = (r, s')) :
    st.call Lc Ls fr b c = (r, ⟨st.nextId + 1, [], lives r, st.served + 1, s'⟩) := by
  obtain ⟨kvs, rfl, ha, hs⟩ := handleRequest_request hp hf hm st.served st.backend hc ht
  have hlines := rawLines_printable (spell_printable fr (.obj kvs))
  have htext := requestText_object fr kvs
  have hne : spell fr (.obj kvs) ≠ [] := by
    rw [spell]
    exact List.cons_ne_nil _ _
  have hleft : ((b st.served).handleRequest Ls fr st.backend (spell fr (.obj kvs))).2 = s' :=
    hs.trans (congrArg Prod.snd hr)
  rw [hr] at ha
  rw [Remote.call]
  simp only [ht, hup, Bool.true_eq_false, if_false, hlines, hin, List.nil_append]
  cases ha with
  | reply doc hout hfits hlive =>
    have hone := encodePrintable_oneLine (spell_printable fr doc)
    have hfits' := Fits.mono (ge_of_eq hp.digits) doc hfits hp.replies
    have hclient : clientLine (encodePrintable (spell fr doc ++ [0x0A])) =
        some (encodePrintable (spell fr doc ++ [0x0A]), []) := by
      rw [encodePrintable_append]
      exact clientLine_line hone []
    simp only [handleLines_reply st.served st.backend htext hne hout, hclient,
      callResult_spell hf.limits hfits', decide_true, hleft]
    exact congrArg (fun up => (respResult (norm g doc),
      (⟨st.nextId + 1, [], up, st.served + 1, s'⟩ : Remote σ))) (lives_of_ne hlive).symm
  | dies e hout =>
    simp only [handleLines_escaped st.served st.backend htext hne hout, hleft]
    rfl

/-- A call that sends nothing leaves everything but the number of the next request. -/
theorem Remote.call_unsent {st : Remote σ} {c : Call} {e : DumpError}
    (ht : requestLine Lc fr (st.nextId + 1) c.method c.params = .error e) :
    st.call Lc Ls fr b c = (.error (.ofDump e), { st with nextId := st.nextId + 1 }) := by
  simp only [Remote.call, ht]

theorem Remote.call_down {st : Remote σ} (hup : st.up = false) {c : Call} {text : PyStr}
    (ht : requestLine Lc fr (st.nextId + 1) c.method c.params = .ok text) :
    st.call Lc Ls fr b c = (.error .connectionError, { st with nextId := st.nextId + 1 }) := by
  simp only [Remote.call, ht, hup, if_true]

theorem lives_ofDump (e : DumpError) : lives (.error (.ofDump e)) = true := by
  cases e <;> rfl

theorem Remote.calls_eq (hp : Peers Lc Ls) (hf : ReprReads Ls fr g) (hm : ValidBackend b)
    (cs : List Call) (hc : ∀ c ∈ cs, ValidCall c) (st : Remote σ) (hin : st.inbox = []) :
    let run := st.calls Lc Ls fr b cs
    (run.1, run.2.backend) =
        localCalls Lc Ls fr g b st.up st.nextId st.served st.backend cs ∧
      run.2.inbox = [] ∧
      run.2.up = (st.up && run.1.all lives) := by
  induction cs generalizing st with
  | nil => exact ⟨rfl, hin, by simp [Remote.calls]⟩
  | cons c cs ih =>
    have hcs := ih fun c hmem => hc c (List.mem_cons_of_mem _ hmem)
    simp only [Remote.calls, localCalls]
    cases ht : requestLine Lc fr (st.nextId + 1) c.method c.params with
    | error e =>
      obtain ⟨hrun, hinbox, hup⟩ := hcs { st with nextId := st.nextId + 1 } hin
      rw [Remote.call_unsent ht]
      simp only [← hrun, hinbox, hup, List.all_cons, lives_ofDump, Bool.true_and, and_self]
    | ok text =>
      cases hup : st.up with
      | false =>
        obtain ⟨hrun, hinbox, hend⟩ := hcs { st with nextId := st.nextId + 1 } hin
        rw [Remote.call_down hup ht]
        simp only [hup] at hrun hinbox hend ⊢
        simp only [← hrun, hinbox, hend, if_true, Bool.false_and, and_self]
      | true =>
        obtain ⟨r, s', hr⟩ : ∃ r s', localCall Ls fr g (b st.served) st.backend
            (joinPairs c.method) (sentKwargs Lc fr g c.params) = (r, s') := ⟨_, _, rfl⟩
        obtain ⟨hrun, hinbox, hend⟩ :=
          hcs ⟨st.nextId + 1, [], lives r, st.served + 1, s'⟩ rfl
        rw [Remote.call_eq hp hf hm hup hin (hc c List.mem_cons_self) ht hr]
        simp only [hr, ← hrun, hinbox, hend, Bool.true_eq_false, if_false, List.all_cons,
          Bool.true_and, and_self]

/-- Any run of calls over one connection is the run of the calls of the methods, in its results
and in what it does to the backend, and nothing of it is left in the connection, which lasts
until a method leaves no reply. -/
theorem remote_calls (hp : Peers Lc Ls) (hf : ReprReads Ls fr g) (hm : ValidBackend b) (s : σ)
    {cs : List Call} (hc : ∀ c ∈ cs, ValidCall c) :
    let run := (Remote.opened s).calls Lc Ls fr b cs
    (run.1, run.2.backend) = localCalls Lc Ls fr g b true 0 0 s cs ∧ run.2.inbox = [] ∧
      (run.2.up = true ↔ ∀ r ∈ run.1, r ≠ .error .connectionError) := by
  obtain ⟨hrun, hinbox, hup⟩ := Remote.calls_eq hp hf hm cs hc (Remote.opened s) rfl
  refine ⟨hrun, hinbox, ?_⟩
  rw [hup]
  simp [Remote.opened, List.all_eq_true, lives_iff]

end

end

/-- A backend of one relay, that counts how often it was switched; nobody acknowledges the
first time. -/
def oneRelay (_ : Nat) : Backend Nat := fun method =>
  if method = pyStr "tca_write_pin" then
    some fun _ s =>
      (if s = 0 then .error (.rpcError (pyStr "io_error") (pyStr "no ack"))
        else .ok (.dict [(.str (pyStr "value"), .bool true),
          (.str (pyStr "volts"), .float (.decimal false 0 (-1)))]), s + 1)
  else none

theorem oneRelay_valid : ValidBackend oneRelay := by
  have h1 : ValidStr (pyStr "io_error") ∧ ValidStr (pyStr "no ack") := by decide
  have h2 : ValidStr (pyStr "value") := by decide
  have h3 : ValidStr (pyStr "volts") := by decide
  intro n method fn kwargs s hfn
  simp only [oneRelay] at hfn
  split at hfn
  · cases hfn
    dsimp only
    split
    · exact h1
    · exact ⟨h2, trivial, h3, trivial, trivial⟩
  · cases hfn

theorem anyFloat_reads : ReprReads cpython anyFloat fun _ => .decimal false 0 (-1) :=
  fun _ _ _ => rfl

def twoWrites : List Call :=
  [⟨pyStr "tca_write_pin", []⟩, ⟨pyStr "tca_write_pin", [(pyStr "pin", .int 3)]⟩]

theorem twoWrites_valid : ∀ c ∈ twoWrites, ValidCall c := by
  have hmethod : ValidStr (pyStr "tca_write_pin") := by decide
  have hpin : ValidStr (pyStr "pin") := by decide
  simp only [twoWrites, List.forall_mem_cons]
  exact ⟨⟨hmethod, trivial⟩, ⟨hmethod, hpin, trivial, trivial⟩, by simp⟩

def twoReplies : List (Except CallError Json) :=
  [.error (.brokerError (.str (pyStr "io_error")) (.str (pyStr "no ack"))),
    .ok (.obj [(pyStr "value", .bool true), (pyStr "volts", .float (.decimal false 0 (-1)))])]

theorem twoWrites_local : localCalls cpython cpython anyFloat (fun _ => .decimal false 0 (-1))
    oneRelay true 0 0 0 twoWrites = (twoReplies, 2) := rfl

theorem twoReplies_live : ∀ r ∈ twoReplies, r ≠ .error .connectionError := by
  simp [twoReplies]

theorem remote_calls_relay :
    let run := (Remote.opened 0).calls cpython cpython anyFloat oneRelay twoWrites
    (run.1, run.2.backend) = (twoReplies, 2) ∧ run.2.inbox = [] ∧ run.2.up = true := by
  obtain ⟨hrun, hinbox, hup⟩ :=
    remote_calls ⟨rfl, by decide, by decide⟩ anyFloat_reads oneRelay_valid 0 twoWrites_valid
  rw [twoWrites_local] at hrun
  refine ⟨hrun, hinbox, hup.mpr ?_⟩
  rw [(Prod.ext_iff.mp hrun).1]
  exact twoReplies_live

end HilBench
