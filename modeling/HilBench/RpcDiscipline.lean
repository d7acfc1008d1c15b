import HilBench.Rpc

/-! When the dispatcher keeps the discipline of its replies: one line for a request with an
id, none for a notification, no call on wrong parameters, no exception. -/

namespace HilBench

open PyJson

/-- The text of a response, with the id and one more field. -/
def replyText (fr : FloatRepr) (reqId : Json) (key : String) (value : Json) : PyStr :=
  spell fr (.obj [(pyStr "id", reqId), (pyStr key, value)])

def RepliesWith (fr : FloatRepr) (reqId : Json) (key : String) (value : Json) (h : Handled) :
    Prop :=
  h.outcome = .ok (some (replyText fr reqId key value ++ [0x0A])) ∧
    0x0A ∉ replyText fr reqId key value

def errorDoc (code message : PyStr) : Json :=
  .obj [(pyStr "code", .str code), (pyStr "message", .str message)]

def paramsFit (params : Json) : Bool :=
  match params with
  | .null | .obj _ => true
  | _ => false

def hasId (req : List (PyStr × Json)) : Prop := PyText.dictGet req (pyStr "id") ≠ none

/-- What is demanded of the answer to an object. -/
structure Answered (fr : FloatRepr) (req : List (PyStr × Json)) (h : Handled) : Prop where
  reply : reqGet req "id" ≠ .null → ∃ key value, (key = "result" ∨ key = "error") ∧
    RepliesWith fr (reqGet req "id") key value h
  notification : ¬ hasId req → h.outcome = .ok none
  badParams : paramsFit (reqGet req "params") = false → h.invoked = false ∧
    (hasId req → ∃ message, RepliesWith fr (reqGet req "id") "error"
      (errorDoc (pyStr "invalid_request") message) h)

structure Disciplined (L : Limits) (fr : FloatRepr) (line : PyStr) (methods : Methods) :
    Prop where
  answered : ∀ req, loads L line = .ok (.obj req) →
    Answered fr req (handleRequest L fr line methods)
  returns : ∃ reply, (handleRequest L fr line methods).outcome = .ok reply

def PyExc.reportable : PyExc → Bool
  | .rpcError _ _ | .typeError (some _) | .exception _ (some _) => true
  | _ => false

/-- What the backend makes of a request that reaches it. -/
def reqCall (req : List (PyStr × Json)) (methods : Methods) : Option (Except PyExc PyObj) :=
  match reqGet req "method", reqParams req with
  | .str method, .obj kwargs => (methods method).map fun fn => fn kwargs
  | _, _ => none

/-- The object can be written inside a response. -/
def Writes (L : Limits) (fr : FloatRepr) (o : PyObj) : Prop :=
  ∃ v, encode L fr jsonDefault (L.dumpsDepth - 1) o = .ok v

structure OrderlyRequest (L : Limits) (fr : FloatRepr) (req : List (PyStr × Json))
    (methods : Methods) : Prop where
  reqId : Writes L fr (ofJson (reqGet req "id"))
  params : (∃ method, reqGet req "method" = .str method) →
    paramsFit (reqGet req "params") = false → (reqGet req "params").truthy = true
  notification : ¬ hasId req → ∃ result, reqCall req methods = some (.ok result)
  raised : ∀ e, reqCall req methods = some (.error e) → e.reportable = true
  result : ∀ result, reqCall req methods = some (.ok result) → reqGet req "id" ≠ .null →
    Writes L fr result

/-- What the dispatcher takes for granted of the line and of the backend. -/
structure Orderly (L : Limits) (fr : FloatRepr) (line : PyStr) (methods : Methods) : Prop where
  reads : ∀ e, loads L line = .error e → ∃ msg pos, e = .decode msg pos
  request : ∀ req, loads L line = .ok (.obj req) → OrderlyRequest L fr req methods

/-! Response lines. -/

section
variable {L : Limits} {fr : FloatRepr}

theorem dumpsLine_pair (default : Foreign → Except DumpError PyStr) (key : String) (i o : PyObj) :
    dumpsLine L fr default (.dict [(.str (pyStr "id"), i), (.str (pyStr key), o)]) =
      match encode L fr default (L.dumpsDepth - 1) i, encode L fr default (L.dumpsDepth - 1) o with
      | .ok v, .ok w =>
        .ok (some (spell fr (.obj [(pyStr "id", v), (pyStr key, w)]) ++ [0x0A]))
      | .error e, _ => .error (.dump e)
      | .ok _, .error e => .error (.dump e) := by
  have hd : L.dumpsDepth = L.dumpsDepth - 1 + 1 := by have hn := L.nests; omega
  unfold dumpsLine
  rw [hd, encode]
  simp only [encodeFields, keyText, Except.bind, Nat.add_sub_cancel]
  cases encode L fr default (L.dumpsDepth - 1) i with
  | error e => rfl
  | ok v =>
    cases encode L fr default (L.dumpsDepth - 1) o with
    | error e => rfl
    | ok w => rfl

theorem encode_errorDoc (code message : PyStr) :
    encode L fr encoderDefault (L.dumpsDepth - 1)
      (.dict [(.str (pyStr "code"), .str code), (.str (pyStr "message"), .str message)]) =
      .ok (errorDoc code message) := by
  have hd : L.dumpsDepth - 1 = L.dumpsDepth - 2 + 1 := by have hn := L.nests; omega
  rw [hd]
  rfl

theorem errorLine_writes {reqId : Json} (h : Writes L fr (ofJson reqId)) (code message : PyStr) :
    errorLine L fr reqId code message =
      .ok (some (replyText fr reqId "error" (errorDoc code message) ++ [0x0A])) := by
  obtain ⟨v, hv⟩ := h
  have he := encode_ofJson reqId hv
  rw [encode_ofJson_default jsonDefault encoderDefault, he] at hv
  rw [errorLine, errorObj, dumpsLine_pair, hv, encode_errorDoc]
  rfl

theorem errorLine_fails {reqId : Json} (h : ¬ Writes L fr (ofJson reqId)) (code message : PyStr) :
    ∃ e, errorLine L fr reqId code message = .error e := by
  rw [errorLine, errorObj, dumpsLine_pair, encode_ofJson_default encoderDefault jsonDefault]
  cases hv : encode L fr jsonDefault (L.dumpsDepth - 1) (ofJson reqId) with
  | error e => exact ⟨_, rfl⟩
  | ok v => exact absurd ⟨v, hv⟩ h

theorem resultLine_writes {reqId : Json} {result : PyObj} (h : Writes L fr (ofJson reqId))
    {value : Json} (hr : encode L fr jsonDefault (L.dumpsDepth - 1) result = .ok value) :
    resultLine L fr reqId result =
      .ok (some (replyText fr reqId "result" value ++ [0x0A])) := by
  obtain ⟨v, hv⟩ := h
  have he := encode_ofJson reqId hv
  rw [resultLine, dumpsLine_pair, hv, hr, he]
  rfl

theorem resultLine_fails {reqId : Json} {result : PyObj}
    (h : ¬ (Writes L fr (ofJson reqId) ∧ Writes L fr result)) :
    ∃ e, resultLine L fr reqId result = .error e := by
  rw [resultLine, dumpsLine_pair]
  cases hv : encode L fr jsonDefault (L.dumpsDepth - 1) (ofJson reqId) with
  | error e => exact ⟨_, rfl⟩
  | ok v =>
    cases hr : encode L fr jsonDefault (L.dumpsDepth - 1) result with
    | error e => exact ⟨_, rfl⟩
    | ok w => exact absurd ⟨⟨v, hv⟩, ⟨w, hr⟩⟩ h

theorem writes_null : Writes L fr (ofJson .null) := ⟨.null, rfl⟩

theorem codes_differ (reqId : Json) (m₁ m₂ : PyStr) :
    replyText fr reqId "error" (errorDoc (pyStr "method_not_found") m₁) ≠
      replyText fr reqId "error" (errorDoc (pyStr "invalid_request") m₂) := by
  intro h
  simp only [replyText, errorDoc, spell, spellFields, List.append_assoc,
    List.append_cancel_left_eq] at h
  have he := congrArg (fun t : PyStr => t[1]?) h
  beta_reduce at he
  rw [List.getElem?_append_left (by decide), List.getElem?_append_left (by decide)] at he
  exact absurd he (by decide)

/-! The exits of the dispatcher. -/

theorem reqParams_of_unfit {req : List (PyStr × Json)} {kwargs : List (PyStr × Json)}
    (h : paramsFit (reqGet req "params") = false) (hk : reqParams req = .obj kwargs) :
    (reqGet req "params").truthy = false := by
  by_contra ht
  rw [Bool.not_eq_false] at ht
  rw [reqParams, if_pos ht] at hk
  rw [hk] at h
  cases h

theorem reqGet_of_not_hasId {req : List (PyStr × Json)} (h : ¬ hasId req) :
    reqGet req "id" = .null := by
  rw [hasId, not_not] at h
  rw [reqGet, h]
  rfl

variable {req : List (PyStr × Json)} {methods : Methods}

variable (L fr)

theorem handleObject_uncalled (h : reqCall req methods = none) :
    ∃ code message, handleObject L fr req methods =
        ⟨false, errorLine L fr (reqGet req "id") code message⟩ ∧
      (code = pyStr "invalid_request" ∧ ((∃ method, reqGet req "method" = .str method) →
          ∀ kwargs, reqParams req ≠ .obj kwargs) ∨
        code = pyStr "method_not_found" ∧ (∃ method, reqGet req "method" = .str method) ∧
          ∃ kwargs, reqParams req = .obj kwargs) := by
  unfold reqCall at h
  unfold handleObject
  cases hm : reqGet req "method" with
  | str method =>
    cases hp : reqParams req with
    | obj kwargs =>
      rw [hm, hp] at h
      cases hf : methods method with
      | none => exact ⟨_, pyStr "unknown method: " ++ method, by simp only [hf], .inr ⟨rfl, ⟨_, rfl⟩, _, rfl⟩⟩
      | some fn => simp only [hf] at h; cases h
    | _ => exact ⟨_, _, rfl, .inl ⟨rfl, fun _ kwargs hk => by cases hk⟩⟩
  | _ => exact ⟨_, _, rfl, .inl ⟨rfl, fun hs => by obtain ⟨_, hs⟩ := hs; cases hs⟩⟩

theorem handleObject_called {r : Except PyExc PyObj} (h : reqCall req methods = some r) :
    (∃ method, reqGet req "method" = .str method) ∧ (∃ kwargs, reqParams req = .obj kwargs) ∧
      ∃ fn kwargs, fn kwargs = r ∧ handleObject L fr req methods =
        ⟨true, callMethod L fr (reqGet req "id") fn kwargs⟩ := by
  unfold reqCall at h
  unfold handleObject
  cases hm : reqGet req "method" with
  | str method =>
    cases hp : reqParams req with
    | obj kwargs =>
      rw [hm, hp] at h
      cases hf : methods method with
      | none => simp only [hf] at h; cases h
      | some fn =>
        simp only [hf, Option.map_some, Option.some.injEq] at h
        exact ⟨⟨_, rfl⟩, ⟨_, rfl⟩, fn, kwargs, h, by simp only [hf]⟩
    | _ => rw [hm, hp] at h; cases h
  | _ => rw [hm] at h; cases h

variable {L fr}

theorem callMethod_reported (reqId : Json) {fn : Method} {kwargs : List (PyStr × Json)} {e : PyExc}
    (h : fn kwargs = .error e) (hr : e.reportable = true) :
    ∃ code message, callMethod L fr reqId fn kwargs = errorLine L fr reqId code message := by
  unfold callMethod
  rw [h]
  cases e with
  | rpcError code message => exact ⟨_, _, rfl⟩
  | typeError message =>
    cases message with
    | none => cases hr
    | some message => exact ⟨_, _, rfl⟩
  | exception name message =>
    cases message with
    | none => cases hr
    | some message => exact ⟨_, _, rfl⟩
  | baseException name => cases hr

theorem callMethod_raises {reqId : Json} {fn : Method} {kwargs : List (PyStr × Json)} {e : PyExc}
    (h : fn kwargs = .error e) (hr : e.reportable = false) :
    callMethod L fr reqId fn kwargs = .error (.method e) := by
  unfold callMethod
  rw [h]
  cases e with
  | rpcError code message => cases hr
  | typeError message =>
    cases message with
    | none => rfl
    | some message => cases hr
  | exception name message =>
    cases message with
    | none => rfl
    | some message => cases hr
  | baseException name => rfl

theorem callMethod_silent {reqId : Json} {fn : Method} {kwargs : List (PyStr × Json)} {v : PyObj}
    (h : fn kwargs = .ok v) (hn : reqId = .null) : callMethod L fr reqId fn kwargs = .ok none := by
  unfold callMethod
  rw [h, hn]

theorem callMethod_result {reqId : Json} {fn : Method} {kwargs : List (PyStr × Json)} {v : PyObj}
    (h : fn kwargs = .ok v) (hn : reqId ≠ .null) :
    callMethod L fr reqId fn kwargs = resultLine L fr reqId v := by
  unfold callMethod
  rw [h]
  cases reqId with
  | null => exact absurd rfl hn
  | _ => rfl

/-! The condition is exact. -/

theorem not_writes_raises (methods : Methods) (hn : ¬ Writes L fr (ofJson (reqGet req "id"))) :
    ∃ e, (handleObject L fr req methods).outcome = .error e := by
  have hnull : reqGet req "id" ≠ .null := fun h => hn (h ▸ writes_null)
  cases hc : reqCall req methods with
  | none =>
    obtain ⟨code, message, he, -⟩ := handleObject_uncalled L fr hc
    rw [he]
    exact errorLine_fails hn code message
  | some r =>
    obtain ⟨-, -, fn, kwargs, hr, he⟩ := handleObject_called L fr hc
    rw [he]
    cases r with
    | ok v =>
      rw [callMethod_result hr hnull]
      exact resultLine_fails fun h => hn h.1
    | error e =>
      cases hrep : e.reportable with
      | true =>
        obtain ⟨code, message, hm⟩ := callMethod_reported _ hr hrep
        rw [hm]
        exact errorLine_fails hn code message
      | false => exact ⟨_, callMethod_raises hr hrep⟩

theorem OrderlyRequest.answered (ho : OrderlyRequest L fr req methods) :
    Answered fr req (handleObject L fr req methods) ∧
      ∃ reply, (handleObject L fr req methods).outcome = .ok reply := by
  cases hc : reqCall req methods with
  | none =>
    obtain ⟨code, message, he, hcode⟩ := handleObject_uncalled L fr hc
    have hline := errorLine_writes ho.reqId code message
    rw [he]
    refine ⟨⟨fun _ => ⟨"error", _, .inr rfl, hline, spell_clean fr _⟩, ?_, ?_⟩, _, hline⟩
    · intro hn
      obtain ⟨v, hv⟩ := ho.notification hn
      rw [hc] at hv
      cases hv
    · intro hp
      refine ⟨rfl, fun _ => ⟨message, ?_⟩⟩
      rcases hcode with ⟨rfl, -⟩ | ⟨-, hm, kwargs, hk⟩
      · exact ⟨hline, spell_clean fr _⟩
      · have ht := ho.params hm hp
        rw [reqParams_of_unfit hp hk] at ht
        cases ht
  | some r =>
    obtain ⟨hm, ⟨kw, hk⟩, fn, kwargs, hr, he⟩ := handleObject_called L fr hc
    have hfit : paramsFit (reqGet req "params") ≠ false := by
      intro hp
      have ht := ho.params hm hp
      rw [reqParams_of_unfit hp hk] at ht
      cases ht
    rw [he]
    cases r with
    | error e =>
      obtain ⟨code, message, hcall⟩ := callMethod_reported (reqGet req "id") hr
        (ho.raised e hc)
      have hline := hcall.trans (errorLine_writes ho.reqId code message)
      refine ⟨⟨fun _ => ⟨"error", _, .inr rfl, hline, spell_clean fr _⟩, ?_, fun hp => absurd hp hfit⟩,
        _, hline⟩
      intro hn
      obtain ⟨v, hv⟩ := ho.notification hn
      rw [hc] at hv
      cases hv
    | ok v =>
      by_cases hnull : reqGet req "id" = .null
      · have hline : callMethod L fr (reqGet req "id") fn kwargs = .ok none :=
          callMethod_silent hr hnull
        exact ⟨⟨fun hid => absurd hnull hid, fun _ => hline, fun hp => absurd hp hfit⟩, _, hline⟩
      · obtain ⟨value, hv⟩ := ho.result v hc hnull
        have hline := (callMethod_result hr hnull).trans (resultLine_writes ho.reqId hv)
        exact ⟨⟨fun _ => ⟨"result", _, .inl rfl, hline, spell_clean fr _⟩,
          fun hn => absurd (reqGet_of_not_hasId hn) hnull, fun hp => absurd hp hfit⟩, _, hline⟩

/-- A notification that is answered as it should be reaches a method that returns. -/
theorem Answered.notified (ha : Answered fr req (handleObject L fr req methods))
    (hn : ¬ hasId req) : ∃ result, reqCall req methods = some (.ok result) := by
  have hw : Writes L fr (ofJson (reqGet req "id")) := by
    rw [reqGet_of_not_hasId hn]
    exact writes_null
  have hnone := ha.notification hn
  cases hc : reqCall req methods with
  | none =>
    obtain ⟨code, message, he, -⟩ := handleObject_uncalled L fr hc
    rw [he, errorLine_writes hw] at hnone
    cases hnone
  | some r =>
    obtain ⟨-, -, fn, kwargs, hr, he⟩ := handleObject_called L fr hc
    rw [he] at hnone
    cases r with
    | ok v => exact ⟨v, rfl⟩
    | error e =>
      cases hrep : e.reportable with
      | true =>
        obtain ⟨code, message, hcall⟩ := callMethod_reported (reqGet req "id") hr hrep
        rw [hcall, errorLine_writes hw] at hnone
        cases hnone
      | false =>
        rw [callMethod_raises hr hrep] at hnone
        cases hnone

/-- Parameters of the wrong type that are false are taken for none: with a method name the
request is answered as if they were missing. -/
theorem Answered.params (ha : Answered fr req (handleObject L fr req methods))
    (hm : ∃ method, reqGet req "method" = .str method)
    (hp : paramsFit (reqGet req "params") = false) : (reqGet req "params").truthy = true := by
  by_contra ht
  have hk : reqParams req = .obj [] := if_neg ht
  cases hc : reqCall req methods with
  | some r =>
    obtain ⟨-, -, fn, kwargs, -, he⟩ := handleObject_called L fr hc
    have hi := (ha.badParams hp).1
    rw [he] at hi
    cases hi
  | none =>
    by_cases hid : hasId req
    · obtain ⟨message, hline, -⟩ := (ha.badParams hp).2 hid
      obtain ⟨code, message', he, ⟨-, hcode⟩ | ⟨rfl, -⟩⟩ := handleObject_uncalled L fr hc
      · exact hcode hm [] hk
      · by_cases hw : Writes L fr (ofJson (reqGet req "id"))
        · rw [he, errorLine_writes hw] at hline
          injection hline with hline
          injection hline with hline
          exact codes_differ _ _ _ (List.append_cancel_right hline)
        · obtain ⟨e, hf⟩ := not_writes_raises methods hw
          rw [hf] at hline
          cases hline
    · obtain ⟨v, hv⟩ := ha.notified hid
      rw [hc] at hv
      cases hv

theorem handleObject_orderly_iff :
    (Answered fr req (handleObject L fr req methods) ∧
      ∃ reply, (handleObject L fr req methods).outcome = .ok reply) ↔
      OrderlyRequest L fr req methods := by
  refine ⟨fun ⟨ha, reply, hret⟩ => ?_, OrderlyRequest.answered⟩
  have hw : Writes L fr (ofJson (reqGet req "id")) := by
    by_contra hn
    obtain ⟨e, he⟩ := not_writes_raises methods hn
    rw [hret] at he
    cases he
  refine ⟨hw, ha.params, ha.notified, fun e hc => ?_, fun v hc hnull => ?_⟩
  · obtain ⟨-, -, fn, kwargs, hr, he⟩ := handleObject_called L fr hc
    by_contra hrep
    rw [Bool.not_eq_true] at hrep
    rw [he, callMethod_raises hr hrep] at hret
    cases hret
  · obtain ⟨-, -, fn, kwargs, hr, he⟩ := handleObject_called L fr hc
    by_contra hv
    have hboth : ¬ (Writes L fr (ofJson (reqGet req "id")) ∧ Writes L fr v) := fun h => hv h.2
    obtain ⟨e, hfail⟩ := resultLine_fails hboth
    rw [he, callMethod_result hr hnull, hfail] at hret
    cases hret

/-- The discipline is kept on a line exactly when the line can be read or is no document, and
the request is orderly. -/
theorem handleRequest_disciplined_iff (L : Limits) (fr : FloatRepr) (line : PyStr)
    (methods : Methods) : Disciplined L fr line methods ↔ Orderly L fr line methods := by
  have hreads : ∀ v, loads L line = .ok v → ∀ e, loads L line = .error e →
      ∃ msg pos, e = .decode msg pos := by
    intro v hv e he
    rw [hv] at he
    cases he
  cases hl : loads L line with
  | error e =>
    constructor
    · rintro ⟨-, reply, hret⟩
      refine ⟨fun e' he => ?_, fun req hreq => (nomatch hl.symm.trans hreq)⟩
      cases hl.symm.trans he
      cases e with
      | decode msg pos => exact ⟨msg, pos, rfl⟩
      | _ => simp only [handleRequest, hl] at hret; cases hret
    · intro ho
      obtain ⟨msg, pos, rfl⟩ := ho.reads e hl
      refine ⟨fun req hreq => (nomatch hl.symm.trans hreq), ?_⟩
      simp only [handleRequest, hl]
      exact ⟨_, errorLine_writes writes_null _ _⟩
  | ok v =>
    cases v with
    | obj req =>
      have heq : handleRequest L fr line methods = handleObject L fr req methods := by
        simp only [handleRequest, hl]
      have hobj : ∀ req', loads L line = .ok (.obj req') → req' = req := by
        intro req' h
        cases hl.symm.trans h
        rfl
      constructor
      · rintro ⟨ha, hret⟩
        have ha := ha req hl
        rw [heq] at ha hret
        refine ⟨hreads _ hl, fun req' h => ?_⟩
        rw [hobj req' h]
        exact handleObject_orderly_iff.mp ⟨ha, hret⟩
      · intro ho
        obtain ⟨ha, hret⟩ := handleObject_orderly_iff.mpr (ho.request req hl)
        refine ⟨fun req' h => ?_, by rwa [heq]⟩
        rwa [hobj req' h, heq]
    | _ =>
      refine ⟨fun _ => ⟨hreads _ hl, fun req hreq => (nomatch hl.symm.trans hreq)⟩, fun _ =>
        ⟨fun req hreq => (nomatch hl.symm.trans hreq), ?_⟩⟩
      simp only [handleRequest, hl]
      exact ⟨_, errorLine_writes writes_null _ _⟩

end

/-! Three lines on which the discipline fails. -/

/-- The limits of an interpreter in its default configuration. -/
def cpython : Limits := ⟨4300, 990, 990, by decide⟩

def anyFloat : FloatRepr := ⟨fun _ => pyStr "0.0", fun _ => show PyJson.Printable (pyStr "0.0") by decide⟩

/-- A bench whose health is a set, which has no JSON. -/
def setHealth : Methods := fun name =>
  if name = pyStr "broker.health" then some fun _ => .ok (.foreign (.other (pyStr "set"))) else none

def unknownNotification : PyStr := pyStr "\x7b\"method\": \"nope\"\x7d"

def listParams : PyStr := pyStr "\x7b\"id\": 1, \"method\": \"broker.health\", \"params\": []\x7d"

def healthRequest : PyStr := pyStr "\x7b\"id\": 1, \"method\": \"broker.health\"\x7d"

theorem undisciplined_lines :
    ¬ Disciplined cpython anyFloat unknownNotification setHealth ∧
      ¬ Disciplined cpython anyFloat listParams setHealth ∧
      ¬ Disciplined cpython anyFloat healthRequest setHealth := by
  refine ⟨fun h => ?_, fun h => ?_, fun h => ?_⟩
  · have hl : loads cpython unknownNotification =
        .ok (.obj [(pyStr "method", .str (pyStr "nope"))]) := rfl
    have hnone := (h.answered _ hl).notification fun hid => hid rfl
    -- the notification has an error line for its answer
    have hline : (handleObject cpython anyFloat [(pyStr "method", .str (pyStr "nope"))]
        setHealth).outcome = errorLine cpython anyFloat .null (pyStr "method_not_found")
          (pyStr "unknown method: nope") := rfl
    simp only [handleRequest, hl] at hnone
    rw [hline, errorLine_writes writes_null] at hnone
    cases hnone
  · have hl : loads cpython listParams = .ok (.obj [(pyStr "id", .int 1),
        (pyStr "method", .str (pyStr "broker.health")), (pyStr "params", .arr [])]) := rfl
    have hi := ((h.answered _ hl).badParams rfl).1
    simp only [handleRequest, hl] at hi
    -- an empty list is taken for no parameters, and the method is called
    exact absurd (hi.symm.trans rfl) Bool.false_ne_true
  · have hl : loads cpython healthRequest = .ok (.obj [(pyStr "id", .int 1),
        (pyStr "method", .str (pyStr "broker.health"))]) := rfl
    obtain ⟨reply, hret⟩ := h.returns
    simp only [handleRequest, hl] at hret
    -- the result has no JSON, and `json.dumps` raises after the last handler
    have hraise : (handleObject cpython anyFloat [(pyStr "id", .int 1),
        (pyStr "method", .str (pyStr "broker.health"))] setHealth).outcome =
          .error (.dump (.typeError (pyStr "set not JSON-serialisable"))) := rfl
    rw [hraise] at hret
    cases hret

end HilBench
