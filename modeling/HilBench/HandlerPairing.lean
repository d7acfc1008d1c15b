import HilBench.JsonValid
import HilBench.RemoteCall

/-! Requests of any bytes on one connection, and the ids of the replies to them. -/

namespace HilBench

open PyJson

/-- The id of a request, which is `None` for what is no request. -/
def requestId (L : Limits) (line : PyStr) : Json :=
  match loads L line with
  | .ok (.obj req) => reqGet req "id"
  | _ => .null

/-- The texts of the lines that are not blank. -/
def requests (lines : List (List Byte)) : List PyStr :=
  (lines.map requestText).filter (· ≠ [])

def replyId (L : Limits) (line : List Byte) : Option Json :=
  match utf8Decode line with
  | none => none
  | some s =>
    match loads L s with
    | .ok (.obj resp) => PyText.dictGet resp (pyStr "id")
    | _ => none

/-! What the handler reads is a text of Python. -/

theorem utf8Lead_bounds {a lo hi n : Nat} (h : utf8Lead a = some (lo, hi, n)) :
    hi ≤ 0xBF ∧ (n = 1 → a ≤ 0xDF) ∧ (n = 2 → a ≤ 0xEF) ∧ a ≤ 0xF4 ∧ (a = 0xF4 → hi = 0x8F) := by
  unfold utf8Lead at h
  split_ifs at h
  all_goals
    cases h
    omega

theorem utf8Replace_valid (s : List Byte) : ValidStr (utf8Replace s) := by
  have hrep : 0xFFFD ≤ 0x10FFFF := by decide
  have hone : ValidStr [0xFFFD] := by decide
  have hcont : ∀ b : Byte, isCont b = true → contBits b ≤ 0x3F := by
    intro b hb
    simp only [isCont, Bool.and_eq_true, decide_eq_true_eq] at hb
    unfold contBits
    omega
  fun_induction utf8Replace s with
  | case1 => exact fun c hc => absurd hc List.not_mem_nil
  | case2 a s ha ih => exact ih.cons (by omega)
  | case3 a s ha hlead ih => exact ih.cons hrep
  | case4 | case7 | case10 => exact hone
  | case5 | case8 | case11 => rename_i ih; exact ih.cons hrep
  | case6 a ha lo hi b s hb hlead ih =>
    obtain ⟨hhi, ha', -⟩ := utf8Lead_bounds hlead
    refine ih.cons ?_
    unfold contBits
    omega
  | case9 a ha lo hi b hb c s hc hlead hn ih =>
    obtain ⟨hhi, -, ha', -⟩ := utf8Lead_bounds hlead
    have hbb : contBits b ≤ 0x3F := by
      unfold contBits
      omega
    have hcc := hcont c (Bool.eq_true_of_not_eq_false hc)
    refine ih.cons ?_
    omega
  | case12 a ha lo hi n hlead b hb hn c hc hn' d s hd ih =>
    obtain ⟨hhi, -, -, ha', hmax⟩ := utf8Lead_bounds hlead
    have hbb : contBits b ≤ 0x3F ∧ (a.toNat = 0xF4 → contBits b ≤ 0xF) := by
      unfold contBits
      omega
    have hcc := hcont c (Bool.eq_true_of_not_eq_false hc)
    have hdd := hcont d (Bool.eq_true_of_not_eq_false hd)
    refine ih.cons ?_
    omega

theorem stripStr_valid {s : PyStr} (h : ValidStr s) : ValidStr (stripStr s) := by
  intro c hc
  have hrev := (List.dropWhile_suffix isSpaceCode).subset (List.mem_reverse.mp hc)
  exact h c ((List.dropWhile_suffix isSpaceCode).subset (List.mem_reverse.mp hrev))

theorem requestText_valid (raw : List Byte) : ValidStr (requestText raw) :=
  stripStr_valid (utf8Replace_valid raw)

theorem decodeErrorText_valid {msg : PyStr} (hm : ValidStr msg) (doc : PyStr) (pos : Nat) :
    ValidStr (decodeErrorText doc msg pos) := by
  have h1 : ValidStr (pyStr ": line ") := by decide
  have h2 : ValidStr (pyStr " column ") := by decide
  have h3 : ValidStr (pyStr " (char ") := by decide
  have h4 : ValidStr (pyStr ")") := by decide
  have hi : ∀ n : Int, ValidStr (intText n) := fun n => (intText_printable n).validStr
  exact ((((((hm.append h1).append (hi _)).append h2).append (hi _)).append h3).append (hi _)).append
    h4

theorem validJson_reqGet {req : List (PyStr × Json)} (h : ValidFields req) (k : String) :
    ValidJson (reqGet req k) := by
  unfold reqGet PyText.dictGet
  cases hf : req.find? (·.1 = pyStr k) with
  | none => trivial
  | some e => exact ((validFields_iff req).mp h e (List.mem_of_find?_eq_some hf)).2

/-! Every reply carries the id of its request. -/

section
variable {L : Limits} {fr : FloatRepr}

/-- A reply to a request with the id `reqId`. -/
def RepliesTo (L : Limits) (fr : FloatRepr) (reqId : Json) (resp : PyStr) : Prop :=
  ∃ key v, (key = "result" ∨ key = "error") ∧
    resp = spell fr (.obj [(pyStr "id", reqId), (pyStr key, v)]) ++ [0x0A] ∧
    Fits L L.dumpsDepth (.obj [(pyStr "id", reqId), (pyStr key, v)])

theorem dumpsLine_replies {default : Foreign → Except DumpError PyStr}
    (hd : ∀ x s, default x = .ok s → ValidStr s) {reqId : Json} (hid : ValidJson reqId)
    {o : PyObj} (ho : ValidObj o) {key : String} (hkey : key = "result" ∨ key = "error")
    {resp : PyStr} (h : dumpsLine L fr default
      (.dict [(.str (pyStr "id"), ofJson reqId), (.str (pyStr key), o)]) = .ok (some resp)) :
    RepliesTo L fr reqId resp := by
  obtain ⟨d, hdepth⟩ : ∃ d, L.dumpsDepth = d + 1 := ⟨L.dumpsDepth - 1, by have := L.nests; omega⟩
  rw [dumpsLine_pair] at h
  split at h
  · rename_i v w hv hw
    cases h
    have hi : ValidStr (pyStr "id") := by decide
    have hk : ValidStr (pyStr key) := by
      rcases hkey with rfl | rfl <;> decide
    have hfi := encode_fits hd _ (validObj_ofJson reqId hid) hv
    have hfo := encode_fits hd o ho hw
    rw [encode_ofJson reqId hv] at hfi ⊢
    rw [hdepth, Nat.add_sub_cancel] at hfi hfo
    refine ⟨key, w, hkey, rfl, ?_⟩
    rw [hdepth]
    exact ⟨hi, hfi, hk, hfo, trivial⟩
  · cases h
  · cases h

theorem errorLine_replies {reqId : Json} (hid : ValidJson reqId) {code message : PyStr}
    (hc : ValidStr code) (hm : ValidStr message) {resp : PyStr}
    (h : errorLine L fr reqId code message = .ok (some resp)) : RepliesTo L fr reqId resp := by
  have hcode : ValidStr (pyStr "code") := by decide
  have hmessage : ValidStr (pyStr "message") := by decide
  have ho : ValidObj (.dict [(.str (pyStr "code"), .str code),
      (.str (pyStr "message"), .str message)]) := ⟨hcode, hc, hmessage, hm, trivial⟩
  exact dumpsLine_replies encoderDefault_valid hid ho (.inr rfl) h

theorem callMethod_replies {reqId : Json} (hid : ValidJson reqId) {fn : Method}
    {kwargs : List (PyStr × Json)} (hfn : ValidOutcome (fn kwargs)) {resp : PyStr}
    (h : callMethod L fr reqId fn kwargs = .ok (some resp)) : RepliesTo L fr reqId resp := by
  have hparams : ValidStr (pyStr "invalid_params") := by decide
  have hinternal : ValidStr (pyStr "internal_error") := by decide
  have hcolon : ValidStr (pyStr ": ") := by decide
  unfold callMethod at h
  split at h
  · rename_i hr
    rw [hr] at hfn
    exact errorLine_replies hid hfn.1 hfn.2 h
  · rename_i hr
    rw [hr] at hfn
    exact errorLine_replies hid hparams hfn h
  · rename_i hr
    rw [hr] at hfn
    exact errorLine_replies hid hinternal ((hfn.1.append hcolon).append hfn.2) h
  · cases h
  · rename_i hr
    rw [hr] at hfn
    split at h
    · cases h
    · exact dumpsLine_replies jsonDefault_valid hid hfn (.inl rfl) h

theorem handleObject_replies {req : List (PyStr × Json)} (hreq : ValidFields req) {m : Methods}
    (hm : ∀ method fn kwargs, m method = some fn → ValidOutcome (fn kwargs)) {resp : PyStr}
    (h : (handleObject L fr req m).outcome = .ok (some resp)) :
    RepliesTo L fr (reqGet req "id") resp := by
  have hid := validJson_reqGet hreq "id"
  have hmethod := validJson_reqGet hreq "method"
  have hinvalid : ValidStr (pyStr "invalid_request") := by decide
  have hfound : ValidStr (pyStr "method_not_found") := by decide
  have hunknown : ValidStr (pyStr "unknown method: ") := by decide
  have hobject : ValidStr (pyStr "'params' must be an object") := by decide
  have hmissing : ValidStr (pyStr "missing or non-string 'method'") := by decide
  unfold handleObject at h
  simp only at h
  split at h
  · rename_i method hg
    rw [hg] at hmethod
    split at h
    · split at h
      · exact errorLine_replies hid hfound (hunknown.append hmethod) h
      · rename_i fn hfn
        exact callMethod_replies hid (hm method fn _ hfn) h
    · exact errorLine_replies hid hinvalid hobject h
  · exact errorLine_replies hid hinvalid hmissing h

theorem handleRequest_replies {line : PyStr} (hline : ValidStr line) {m : Methods}
    (hm : ∀ method fn kwargs, m method = some fn → ValidOutcome (fn kwargs)) {resp : PyStr}
    (h : (handleRequest L fr line m).outcome = .ok (some resp)) :
    RepliesTo L fr (requestId L line) resp := by
  have hparse : ValidStr (pyStr "parse_error") := by decide
  have hjson : ValidStr (pyStr "invalid JSON: ") := by decide
  have hinvalid : ValidStr (pyStr "invalid_request") := by decide
  have hobject : ValidStr (pyStr "request must be a JSON object") := by decide
  have hsane := loads_sane L hline
  unfold requestId
  unfold handleRequest at h
  split at h
  · rename_i hl
    rw [hl] at hsane ⊢
    have hnull : ValidJson .null := trivial
    exact errorLine_replies hnull hparse (hjson.append (decodeErrorText_valid hsane _ _)) h
  · cases h
  · rename_i hl
    rw [hl] at hsane ⊢
    exact handleObject_replies hsane hm h
  · rename_i v hne hl
    rw [hl]
    have hnull : ValidJson .null := trivial
    have hr := errorLine_replies hnull hinvalid hobject h
    split
    · rename_i hv
      cases hv
      exact absurd rfl (hne _)
    · exact hr

/-! The stream of the replies. -/

theorem RepliesTo.replyId {Lc : Limits} {g : PyFloat → PyFloat} (hf : ReprReads L fr g)
    (hdigits : L.maxDigits ≤ Lc.maxDigits) (hdepth : L.dumpsDepth ≤ Lc.loadsDepth) {reqId : Json}
    {resp : PyStr} (h : RepliesTo L fr reqId resp) :
    replyId Lc (encodePrintable resp) = some (norm g reqId) := by
  obtain ⟨key, v, hkey, rfl, hfits⟩ := h
  have hload := loads_spell (hf.limits : ReprReads Lc fr g) (Fits.mono hdigits _ hfits hdepth)
    (.inr rfl : [0x0A] = [] ∨ [0x0A] = [0x0A])
  unfold HilBench.replyId
  rw [utf8Decode_ascii (ascii_line (spell_printable fr _))]
  simp only [hload]
  rcases hkey with rfl | rfl <;> rfl

theorem RepliesTo.rawLines {reqId : Json} {resp : PyStr} (h : RepliesTo L fr reqId resp)
    (t : List Byte) : rawLines [] (encodePrintable resp ++ t) =
      encodePrintable resp :: HilBench.rawLines [] t := by
  obtain ⟨key, v, -, rfl, -⟩ := h
  have hone := (encodePrintable_oneLine (spell_printable fr
    (.obj [(pyStr "id", reqId), (pyStr key, v)]))).not_mem
  rw [encodePrintable_append, List.append_assoc]
  exact rawLines_line hone [] t

/-! What is left unanswered. -/

theorem dumpsLine_ne_none {default : Foreign → Except DumpError PyStr} {o : PyObj} :
    dumpsLine L fr default o ≠ .ok none := by
  unfold dumpsLine
  split <;> simp

theorem callMethod_unanswered {reqId : Json} {fn : Method} {kwargs : List (PyStr × Json)}
    (h : callMethod L fr reqId fn kwargs = .ok none) : reqId = .null := by
  unfold callMethod at h
  split at h
  · exact absurd h dumpsLine_ne_none
  · exact absurd h dumpsLine_ne_none
  · exact absurd h dumpsLine_ne_none
  · cases h
  · split at h
    · rfl
    · exact absurd h dumpsLine_ne_none

/-- Only a request without an id may get no reply. -/
theorem handleRequest_unanswered {line : PyStr} {m : Methods}
    (h : (handleRequest L fr line m).outcome = .ok none) : requestId L line = .null := by
  unfold handleRequest at h
  split at h
  · exact absurd h dumpsLine_ne_none
  · cases h
  · rename_i req hl
    unfold handleObject at h
    simp only at h
    split at h
    · split at h
      · split at h
        · exact absurd h dumpsLine_ne_none
        · rw [requestId, hl]
          exact callMethod_unanswered h
      · exact absurd h dumpsLine_ne_none
    · exact absurd h dumpsLine_ne_none
  · exact absurd h dumpsLine_ne_none

/-! The requests that the handler is done with, each with its reply or none. -/

/-- What has been written. -/
def replies (done : List (PyStr × Option PyStr)) : List Byte :=
  done.flatMap fun d => (d.2.map encodePrintable).getD []

/-- The ids of the requests that were answered. -/
def answeredIds (L : Limits) (done : List (PyStr × Option PyStr)) : List Json :=
  done.filterMap fun d => d.2.map fun _ => requestId L d.1

structure Handles (L : Limits) (fr : FloatRepr) (d : PyStr × Option PyStr) : Prop where
  silent : d.2 = none → requestId L d.1 = .null
  reply : ∀ resp, d.2 = some resp → RepliesTo L fr (requestId L d.1) resp

theorem replies_ids {Lc : Limits} {g : PyFloat → PyFloat} (hf : ReprReads L fr g)
    (hdigits : L.maxDigits ≤ Lc.maxDigits) (hdepth : L.dumpsDepth ≤ Lc.loadsDepth)
    {done : List (PyStr × Option PyStr)} (hdone : ∀ d ∈ done, Handles L fr d) :
    (rawLines [] (replies done)).map (replyId Lc) =
      (answeredIds L done).map fun reqId => some (norm g reqId) := by
  induction done with
  | nil => rfl
  | cons d done ih =>
    have hrest := ih fun d' hd' => hdone d' (List.mem_cons_of_mem d hd')
    obtain ⟨line, reply⟩ := d
    cases reply with
    | none => exact hrest
    | some resp =>
      have hr := (hdone _ List.mem_cons_self).reply resp rfl
      have hout : replies ((line, some resp) :: done) = encodePrintable resp ++ replies done := rfl
      have hids : answeredIds L ((line, some resp) :: done) =
          requestId L line :: answeredIds L done := rfl
      rw [hout, hids, hr.rawLines, List.map_cons, List.map_cons,
        hr.replyId hf hdigits hdepth, hrest]

/-- How the handler ends that is done with some of its requests, and with which it started to
count at `n`: after all of them, by an exception in the next one, or by a write of the reply to
the next one. -/
inductive StopsAfter {σ : Type} (L : Limits) (fr : FloatRepr) (writes : Nat → WriteEnd) (n : Nat)
    (lines : List PyStr) (done : List (PyStr × Option PyStr)) (served : Served σ) : Prop
  | stream (hall : done.map Prod.fst = lines) (hout : served.out = replies done)
    (hends : served.ends = .left) (hcount : served.count = n + done.length)
  | escaped (e : Escape) (line : PyStr) (hnext : done.map Prod.fst ++ [line] <+: lines)
    (hout : served.out = replies done) (hends : served.ends = .escaped e)
    (hcount : served.count = n + done.length + 1)
  | write (line resp : PyStr) (sent : Nat) (hnext : done.map Prod.fst ++ [line] <+: lines)
    (hreply : RepliesTo L fr (requestId L line) resp)
    (hout : served.out = replies done ++ (encodePrintable resp).take sent)
    (hends : writes (n + done.length) = .brokenPipe sent ∧ served.ends = .left ∨
      writes (n + done.length) = .osError sent ∧ served.ends = .osError)
    (hcount : served.count = n + done.length + 1)

theorem StopsAfter.cons {σ : Type} {writes : Nat → WriteEnd} {n : Nat} {lines : List PyStr}
    {done : List (PyStr × Option PyStr)} {served : Served σ}
    (h : StopsAfter L fr writes (n + 1) lines done served) (line : PyStr) (reply : Option PyStr) :
    StopsAfter L fr writes n (line :: lines) ((line, reply) :: done)
      { served with out := (reply.map encodePrintable).getD [] ++ served.out } := by
  have hlen : n + ((line, reply) :: done).length = n + 1 + done.length := by
    rw [List.length_cons]
    omega
  have hput : replies ((line, reply) :: done) =
      (reply.map encodePrintable).getD [] ++ replies done := rfl
  cases h with
  | stream hall hout hends hcount =>
    refine .stream ?_ ?_ hends (by rw [hlen, hcount])
    · rw [List.map_cons, hall]
    · rw [hput, hout]
  | escaped e line' hnext hout hends hcount =>
    refine .escaped e line' ?_ ?_ hends (by rw [hlen, hcount])
    · exact List.cons_prefix_cons.mpr ⟨rfl, hnext⟩
    · rw [hput, hout]
  | write line' resp sent hnext hreply hout hends hcount =>
    refine .write line' resp sent ?_ hreply ?_ (by rwa [hlen]) (by rw [hlen, hcount])
    · exact List.cons_prefix_cons.mpr ⟨rfl, hnext⟩
    · rw [hput, hout, List.append_assoc]

/-- All of it: what was handled, what was written, and how it ended. -/
structure Handling {σ : Type} (L : Limits) (fr : FloatRepr) (writes : Nat → WriteEnd) (n : Nat)
    (lines : List PyStr) (done : List (PyStr × Option PyStr)) (served : Served σ) : Prop where
  handles : ∀ d ∈ done, Handles L fr d
  written : ∀ i d, done[i]? = some d → d.2 ≠ none → writes (n + i) = .done
  stops : StopsAfter L fr writes n lines done served

section
variable {σ : Type} {writes : Nat → WriteEnd} {n : Nat} {lines : List PyStr}
  {done : List (PyStr × Option PyStr)} {served : Served σ}

theorem Handling.of_stops (h : StopsAfter L fr writes n lines [] served) :
    Handling L fr writes n lines [] served :=
  ⟨by simp, by simp, h⟩

/-- A request that the handler is done with, and the ones after it. -/
theorem Handling.cons (h : Handling L fr writes (n + 1) lines done served) {line : PyStr}
    {reply : Option PyStr} (hline : Handles L fr (line, reply))
    (hwrite : reply ≠ none → writes n = .done) :
    Handling L fr writes n (line :: lines) ((line, reply) :: done)
      { served with out := (reply.map encodePrintable).getD [] ++ served.out } := by
  refine ⟨List.forall_mem_cons.mpr ⟨hline, h.handles⟩, fun i d hi hd => ?_, h.stops.cons line reply⟩
  cases i with
  | zero =>
    obtain rfl : (line, reply) = d := Option.some.inj hi
    exact hwrite hd
  | succ i =>
    have hi' := h.written i d hi hd
    rwa [Nat.add_right_comm, Nat.add_assoc] at hi'

end

section
variable {σ : Type} {b : Nat → Backend σ}

theorem ValidBackend.handles (hm : ValidBackend b) {n : Nat} {s : σ} {raw : List Byte}
    {reply : Option PyStr}
    (h : ((b n).handleRequest L fr s (requestText raw)).1.outcome = .ok reply) :
    Handles L fr (requestText raw, reply) := by
  have hmethods (method : PyStr) (fn : Method) (kwargs : List (PyStr × Json))
      (hfn : (b n).methods s method = some fn) : ValidOutcome (fn kwargs) := by
    obtain ⟨fn', hfn', rfl⟩ := Option.map_eq_some_iff.mp hfn
    exact hm n method fn' kwargs s hfn'
  rw [Backend.handleRequest_fst] at h
  refine ⟨?_, ?_⟩
  · rintro rfl
    exact handleRequest_unanswered h
  · rintro resp rfl
    exact handleRequest_replies (requestText_valid raw) hmethods h

theorem handleLines_handling (hm : ValidBackend b) (writes : Nat → WriteEnd)
    (lines : List (List Byte)) (n : Nat) (s : σ) : ∃ done : List (PyStr × Option PyStr),
      Handling L fr writes n (requests lines) done (handleLines L fr b writes n s lines) := by
  induction lines generalizing n s with
  | nil => exact ⟨[], .of_stops (.stream rfl rfl rfl rfl)⟩
  | cons raw lines ih =>
    rw [handleLines]
    split
    · rename_i hblank
      have hrequests : requests (raw :: lines) = requests lines := by simp [requests, hblank]
      rw [hrequests]
      exact ih n s
    · rename_i hline
      have hrequests : requests (raw :: lines) = requestText raw :: requests lines := by
        simp [requests, hline]
      have hnext : ([] : List (PyStr × Option PyStr)).map Prod.fst ++ [requestText raw] <+:
          requestText raw :: requests lines := List.prefix_append [requestText raw] _
      rw [hrequests]
      cases hout : ((b n).handleRequest L fr s (requestText raw)).1.outcome with
      | error e =>
        simp only [hout]
        exact ⟨[], .of_stops (.escaped e _ hnext rfl rfl rfl)⟩
      | ok reply =>
        have hhandles := hm.handles hout
        obtain ⟨done, hdone⟩ := ih (n + 1) ((b n).handleRequest L fr s (requestText raw)).2
        cases reply with
        | none =>
          simp only [hout]
          exact ⟨_, hdone.cons hhandles fun h => absurd rfl h⟩
        | some resp =>
          have hreply := hhandles.reply resp rfl
          cases hw : writes n with
          | done =>
            simp only [hout]
            exact ⟨_, hdone.cons hhandles fun _ => hw⟩
          | brokenPipe sent =>
            simp only [hout]
            exact ⟨[], .of_stops (.write _ resp sent hnext hreply rfl (.inl ⟨hw, rfl⟩) rfl)⟩
          | osError sent =>
            simp only [hout]
            exact ⟨[], .of_stops (.write _ resp sent hnext hreply rfl (.inr ⟨hw, rfl⟩) rfl)⟩

/-- Whatever bytes a client sends, the handler goes through its requests one by one, in their
order, until one raises, a write fails or there are no more. The lines that it has written by
then are the replies, each with the id of its request; no reply means that it had no id. -/
theorem handler_pairs (Lc : Limits) {g : PyFloat → PyFloat} (hf : ReprReads L fr g)
    (hdigits : L.maxDigits ≤ Lc.maxDigits) (hdepth : L.dumpsDepth ≤ Lc.loadsDepth)
    (hm : ValidBackend b) (writes : Nat → WriteEnd) (s : σ) (stream : List Byte) :
    ∃ done : List (PyStr × Option PyStr),
      (∀ d ∈ done, d.2 = none → requestId L d.1 = .null) ∧
      (rawLines [] (replies done)).map (replyId Lc) =
        (answeredIds L done).map (fun reqId => some (norm g reqId)) ∧
      (∀ i d, done[i]? = some d → d.2 ≠ none → writes i = .done) ∧
      StopsAfter L fr writes 0 (requests (rawLines [] stream)) done
        (handle L fr b writes s stream) := by
  have hall : ∃ done, Handling L fr writes 0 (requests (rawLines [] stream)) done
      (handle L fr b writes s stream) := handleLines_handling hm writes (rawLines [] stream) 0 s
  obtain ⟨done, h⟩ := hall
  have hwritten := h.written
  simp only [Nat.zero_add] at hwritten
  exact ⟨done, fun d hd => (h.handles d hd).silent, replies_ids hf hdigits hdepth h.handles,
    hwritten, h.stops⟩

end

end

/-- A line that is no JSON, and a request without a method and without its newline. -/
def twoLines : List Byte := encodePrintable (pyStr "x\n\x7b\"id\": 7\x7d")

/-- The second reply breaks off after three bytes. -/
def pipeBreaks (n : Nat) : WriteEnd := if n = 0 then .done else .brokenPipe 3

theorem handler_pairs_two : ∃ done : List (PyStr × Option PyStr),
    (∀ d ∈ done, d.2 = none → requestId cpython d.1 = .null) ∧
    (rawLines [] (replies done)).map (replyId cpython) =
      (answeredIds cpython done).map (fun reqId =>
        some (norm (fun _ => .decimal false 0 (-1)) reqId)) ∧
    (∀ (i : Nat) (d : PyStr × Option PyStr), done[i]? = some d → d.2 ≠ none →
      pipeBreaks i = .done) ∧
    StopsAfter cpython anyFloat pipeBreaks 0 (requests (rawLines [] twoLines)) done
      (handle cpython anyFloat oneRelay pipeBreaks 0 twoLines) :=
  handler_pairs cpython anyFloat_reads le_rfl (by decide) oneRelay_valid pipeBreaks 0 twoLines

end HilBench
