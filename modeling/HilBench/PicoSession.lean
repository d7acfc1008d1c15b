import HilBench.LineStream
import HilBench.PicoReplies

/-! A session of the client on one open port, over a firmware that answers late. -/

namespace HilBench

open PyText LineStream

/-- A call, the line that the firmware answers it with, and how many of the bytes that are
on their way have come when the timeout of its `readline` expires. -/
structure Exchange where
  call : PicoCall
  reply : List Byte
  arrives : Nat
  deriving DecidableEq, Repr

/-- The reply on the wire. The USB console may put a carriage return before the newline. -/
def wireReply (crlf : Bool) (reply : List Byte) : List Byte :=
  (reply ++ if crlf then [0x0D#8] else []) ++ [0x0A#8]

/-- What one call leaves behind: the bytes it took, each with the number of the call that it
answers, and its outcome. -/
structure Record where
  index : Nat
  exchange : Exchange
  read : List (Nat × Byte)
  outcome : Except PicoError PicoValue

/-- One call, with the replies that nobody has read yet in the order in which they come. -/
def picoCall (crlf : Bool) (i : Nat) (x : Exchange) (unread : List (Nat × Byte)) :
    Record × List (Nat × Byte) :=
  match x.call.check with
  | some err => (⟨i, x, [], .error err⟩, unread)
  | none =>
    let r := readline 0x0A#8 x.arrives (unread ++ tagged i (wireReply crlf x.reply))
    (⟨i, x, r.1, x.call.run (text r.1)⟩, r.2)

def session (crlf : Bool) : Nat → List Exchange → List (Nat × Byte) → List Record
  | _, [], _ => []
  | i, x :: xs, unread =>
    (picoCall crlf i x unread).1 :: session crlf (i + 1) xs (picoCall crlf i x unread).2

/-- The call took nothing that answers another call, and a normal return carries its own
complete reply, which says OK if the call is a setter. -/
structure Record.InStep (crlf : Bool) (r : Record) : Prop where
  own : Only r.index r.read
  whole : ∀ v, r.outcome = .ok v → text r.read = wireReply crlf r.exchange.reply ∧
    r.exchange.call.value (rstrip (decodeAscii r.exchange.reply)) = .ok v
  obeyed : ∀ v, r.outcome = .ok v → r.exchange.call.IsSetter → ascii "OK" <+: r.exchange.reply

theorem rstrip_wireReply (crlf : Bool) (reply : List Byte) :
    rstrip (decodeAscii (wireReply crlf reply)) = rstrip (decodeAscii reply) := by
  rw [wireReply, List.append_assoc, decodeAscii, List.map_append]
  exact rstrip_append_space (List.all_eq_true.mp (by cases crlf <;> rfl))

theorem run_err {c : PicoCall} {read : List Byte} (h : ascii "ERR" <+: read) (v : PicoValue) :
    c.run read ≠ .ok v := by
  have hpre : "ERR".toList <+: rstrip (decodeAscii read) :=
    isPrefix_rstrip (p := ['E', 'R']) (c := 'R') (by decide) (decodeAscii_isPrefix h)
  have hsend : ∃ e, sendRecv c.line read = .error e :=
    ⟨_, if_pos (List.isPrefixOf_iff_prefix.mpr hpre)⟩
  obtain ⟨e, he⟩ := hsend
  rw [PicoCall.run, he]
  exact fun hh => nomatch hh

theorem run_ok {c : PicoCall} {read : List Byte} {v : PicoValue} (h : c.run read = .ok v) :
    c.value (rstrip (decodeAscii read)) = .ok v := by
  simp only [PicoCall.run, sendRecv] at h
  split at h
  · exact nomatch h
  · exact h

theorem readline_wireReply {ι : Type} (i : ι) (crlf : Bool) {reply : List Byte}
    (hnl : 0x0A#8 ∉ reply) {n : Nat} (hn : (wireReply crlf reply).length ≤ n) :
    readline 0x0A#8 n (tagged i (wireReply crlf reply)) = (tagged i (wireReply crlf reply), []) := by
  have hclean : 0x0A#8 ∉ reply ++ (if crlf then [0x0D#8] else []) := by
    intro h
    rcases List.mem_append.mp h with h | h
    · exact hnl h
    · cases crlf <;> simp at h
  rw [wireReply, List.length_append, List.length_singleton] at hn
  have hh := readline_whole hclean i hn []
  rwa [List.append_nil] at hh

theorem picoCall_inStep (crlf : Bool) (i : Nat) {x : Exchange}
    (hfw : x.call.check = none → FwReplies x.call x.reply)
    (ht : x.call.check = none → (wireReply crlf x.reply).length ≤ x.arrives) :
    (picoCall crlf i x []).1.InStep crlf ∧ (picoCall crlf i x []).2 = [] := by
  cases hc : x.call.check with
  | some err =>
    have hp : picoCall crlf i x [] = (⟨i, x, [], .error err⟩, []) := by
      simp only [picoCall, hc]
    rw [hp]
    exact ⟨⟨only_nil i, fun v hv => (nomatch hv), fun v hv => (nomatch hv)⟩, rfl⟩
  | none =>
    obtain ⟨hnl, hgood⟩ := (hfw hc).good
    have hread := readline_wireReply i crlf hnl (ht hc)
    have hp : picoCall crlf i x [] = (⟨i, x, tagged i (wireReply crlf x.reply),
        x.call.run (wireReply crlf x.reply)⟩, []) := by
      simp only [picoCall, hc, List.nil_append, hread, text_tagged]
    rw [hp]
    refine ⟨⟨only_tagged i _, fun v hv => ⟨text_tagged i _, ?_⟩, fun v hv hset => ?_⟩, rfl⟩
    · rw [← rstrip_wireReply crlf]
      exact run_ok hv
    · rcases hgood hset with h | h
      · exact h
      · have hw : ascii "ERR" <+: wireReply crlf x.reply := by
          rw [wireReply, List.append_assoc]
          exact h.trans (List.prefix_append _ _)
        exact absurd hv (run_err hw v)

/-- While the reply to every call that sends comes whole before the call gives up, the session
stays in step. -/
theorem session_inStep (crlf : Bool) (xs : List Exchange)
    (hfw : ∀ x ∈ xs, x.call.check = none → FwReplies x.call x.reply)
    (ht : ∀ x ∈ xs, x.call.check = none → (wireReply crlf x.reply).length ≤ x.arrives) :
    ∀ r ∈ session crlf 0 xs [], r.InStep crlf := by
  suffices h : ∀ i, ∀ r ∈ session crlf i xs [], r.InStep crlf from h 0
  induction xs with
  | nil => exact fun i r hr => absurd hr (by simp [session])
  | cons x xs ih =>
    intro i r hr
    obtain ⟨hx, hrest⟩ := picoCall_inStep crlf i (hfw x List.mem_cons_self) (ht x List.mem_cons_self)
    rw [session, hrest] at hr
    rcases List.mem_cons.mp hr with rfl | hr
    · exact hx
    · exact ih (fun y hy => hfw y (List.mem_cons_of_mem _ hy))
        (fun y hy => ht y (List.mem_cons_of_mem _ hy)) (i + 1) r hr

theorem fwReplies_of_boot {c : PicoCall} {reply : List Byte}
    (h : (Fw.boot.typed (picoPayload c.line)).out = [reply]) : FwReplies c reply :=
  ⟨Fw.boot, boot_holding, h⟩

def timelySession : List Exchange :=
  [⟨.ping, ascii "PONG 0.7.0", 12⟩, ⟨.setCell 0 3 4200, ascii "OK", 4⟩]

theorem session_inStep_timely : (session true 0 timelySession []).length = 2 ∧
    ∀ r ∈ session true 0 timelySession [], r.InStep true := by
  have hping : FwReplies .ping (ascii "PONG 0.7.0") := fwReplies_of_boot (by decide +kernel)
  have hset : FwReplies (.setCell 0 3 4200) (ascii "OK") := fwReplies_of_boot (by decide +kernel)
  exact ⟨rfl, session_inStep true timelySession
    (List.forall_mem_cons.mpr ⟨fun _ => hping, List.forall_mem_singleton.mpr fun _ => hset⟩)
    (by decide)⟩

def lateSession : List Exchange :=
  [⟨.setCell 0 3 70000, ascii "ERR mV in 0..65535", 0⟩, ⟨.ping, ascii "PONG 0.7.0", 100⟩]

/-- A rejected setter returns normally, and the call after it gets the rejection. -/
theorem late_reply_shifts : (∀ x ∈ lateSession, FwReplies x.call x.reply) ∧
    (session false 0 lateSession []).map (fun r => (r.outcome.toOption, r.read.map Prod.fst)) =
      [(some .none, []), (none, List.replicate 19 0)] ∧
    ¬ ∀ r ∈ session false 0 lateSession [], r.InStep false := by
  have hset : FwReplies (.setCell 0 3 70000) (ascii "ERR mV in 0..65535") :=
    fwReplies_of_boot (by decide +kernel)
  have hping : FwReplies .ping (ascii "PONG 0.7.0") := fwReplies_of_boot (by decide +kernel)
  have hrun : (session false 0 lateSession []).map
      (fun r => (r.outcome.toOption, r.read.map Prod.fst)) =
        [(some .none, []), (none, List.replicate 19 0)] := by
    decide +kernel
  refine ⟨List.forall_mem_cons.mpr ⟨hset, List.forall_mem_singleton.mpr hping⟩, hrun, fun h => ?_⟩
  have hfirst := h _ List.mem_cons_self
  exact absurd (hfirst.obeyed .none rfl ⟨by decide, by decide⟩) (by decide)

end HilBench
