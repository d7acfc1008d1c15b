import HilBench.HilClient
import HilBench.RpcDiscipline

/-! Replies are paired with calls by their order alone. No cached connection has a reply
outstanding between two calls, and this survives every way in which a call can fail. -/

namespace HilBench

open PyJson LineStream

/-! One connection. -/

/-- The bytes that a call has read, and what it will read, are those of its own reply, as far
as the broker gets with it. -/
def Awaits (answers : List (Nat × List Byte)) (call : Nat) (got : List (Nat × Byte)) (k : Conn) :
    Prop :=
  (got = [] ∧ k.unread = [] ∧ k.sending = [] ∧
      (k.up = false ∧ k.owed = [] ∨ ∃ req, k.owed = [(call, req)])) ∨
    k.owed = [] ∧ ∃ line rest, (call, line) ∈ answers ∧ OneLine line ∧
      got ++ k.unread ++ k.sending ++ rest = tagged call (line ++ [0x0A#8]) ∧
      (k.up = true → rest = [])

/-- The connection that a thread has in its cache fits what the thread is doing. -/
def Conn.Fits (answers : List (Nat × List Byte)) (k : Conn) : Phase → Prop
  | .idle => ¬ k.Outstanding
  | .calling _ _ _ _ => ¬ k.Outstanding
  | .reading call _ got => Awaits answers call got k

/-- A broker that has hung up owes nothing. -/
def Conn.Settled (k : Conn) : Prop := k.up = false → k.owed = [] ∧ k.sending = []

theorem not_outstanding_iff {k : Conn} :
    ¬ k.Outstanding ↔ k.owed = [] ∧ k.sending = [] ∧ k.unread = [] := by
  simp only [Conn.Outstanding, not_or, not_not]

theorem opened_not_outstanding : ¬ Conn.opened.Outstanding :=
  not_outstanding_iff.mpr ⟨rfl, rfl, rfl⟩

inductive Conn.Serves (answers : List (Nat × List Byte)) : Conn → Conn → Prop
  | answer {k call req owed line} (howed : k.owed = (call, req) :: owed) (hs : k.sending = [])
    (hmem : (call, line) ∈ answers) (hline : OneLine line) :
    Serves answers k { k with owed, sending := tagged call (line ++ [0x0A#8]) }
  | send {k x rest} (hs : k.sending = x :: rest) :
    Serves answers k { k with sending := rest, unread := k.unread ++ [x] }
  | hangUp {k} : Serves answers k { k with up := false, owed := [], sending := [] }

theorem Awaits.mono {answers answers' : List (Nat × List Byte)} {call : Nat}
    {got : List (Nat × Byte)} {k : Conn} (hsub : answers ⊆ answers')
    (h : Awaits answers call got k) : Awaits answers' call got k := by
  rcases h with h | ⟨ho, line, rest, hm, h⟩
  · exact .inl h
  · exact .inr ⟨ho, line, rest, hsub hm, h⟩

theorem Awaits.serves {answers : List (Nat × List Byte)} {call : Nat} {got : List (Nat × Byte)}
    {k k' : Conn} (h : Awaits answers call got k) (hs : k.Serves answers k') :
    Awaits answers call got k' := by
  cases hs with
  | answer howed hsend hmem hline =>
    rename_i c req owed line
    rcases h with ⟨hg, hu, -, ⟨-, hnil⟩ | ⟨req', hone⟩⟩ | ⟨hnil, -⟩
    · rw [hnil] at howed
      cases howed
    · rw [hone] at howed
      cases howed
      refine .inr ⟨rfl, line, [], hmem, hline, ?_, fun _ => rfl⟩
      simp only [hg, hu, List.nil_append, List.append_nil]
    · rw [hnil] at howed
      cases howed
  | send hsend =>
    rename_i x rest
    rcases h with ⟨-, -, hnil, -⟩ | ⟨ho, line, rest', hm, hl, heq, hrest⟩
    · rw [hnil] at hsend
      cases hsend
    · refine .inr ⟨ho, line, rest', hm, hl, ?_, hrest⟩
      rw [hsend] at heq
      simpa only [List.append_assoc, List.cons_append, List.nil_append] using heq
  | hangUp =>
    rcases h with ⟨hg, hu, -, -⟩ | ⟨-, line, rest, hm, hl, heq, -⟩
    · exact .inl ⟨hg, hu, rfl, .inl ⟨rfl, rfl⟩⟩
    · refine .inr ⟨rfl, line, k.sending ++ rest, hm, hl, ?_, fun h => nomatch h⟩
      simpa only [List.append_assoc, List.nil_append] using heq

theorem Conn.Fits.serves {answers : List (Nat × List Byte)} {k k' : Conn} {ph : Phase}
    (h : k.Fits answers ph) (hs : k.Serves answers k') :
    k'.Fits answers ph := by
  have hquiet : ¬ k.Outstanding → ¬ k'.Outstanding := by
    intro hq
    obtain ⟨ho, hsend, hu⟩ := not_outstanding_iff.mp hq
    cases hs with
    | answer howed =>
      rw [ho] at howed
      cases howed
    | send hs =>
      rw [hsend] at hs
      cases hs
    | hangUp => exact not_outstanding_iff.mpr ⟨rfl, rfl, hu⟩
  cases ph with
  | idle => exact hquiet h
  | calling => exact hquiet h
  | reading => exact Awaits.serves h hs

theorem Conn.Fits.mono {answers answers' : List (Nat × List Byte)} {k : Conn} {ph : Phase}
    (hsub : answers ⊆ answers') (h : k.Fits answers ph) : k.Fits answers' ph := by
  cases ph with
  | idle => exact h
  | calling => exact h
  | reading => exact Awaits.mono hsub h

theorem Conn.Settled.serves {answers : List (Nat × List Byte)} {k k' : Conn}
    (h : k.Settled) (hs : k.Serves answers k') : k'.Settled := by
  cases hs with
  | answer howed =>
    intro hup
    rw [(h hup).1] at howed
    cases howed
  | send hsend =>
    intro hup
    rw [(h hup).2] at hsend
    cases hsend
  | hangUp => exact fun _ => ⟨rfl, rfl⟩

theorem Conn.Settled.receive {k : Conn} (h : k.Settled) (call : Nat) (line : PyStr) :
    (k.receive call line).Settled := by
  unfold Conn.receive
  split
  · rename_i hup
    intro hdown
    rw [hup] at hdown
    cases hdown
  · exact h

theorem awaits_receive {k : Conn} (h : ¬ k.Outstanding)
    (answers : List (Nat × List Byte)) (call : Nat) (line : PyStr) :
    Awaits answers call [] (k.receive call line) := by
  obtain ⟨ho, hs, hu⟩ := not_outstanding_iff.mp h
  unfold Conn.receive
  split
  · exact .inl ⟨rfl, hu, hs, .inr ⟨line, by rw [ho]; rfl⟩⟩
  · rename_i hup
    exact .inl ⟨rfl, hu, hs, .inl ⟨Bool.not_eq_true _ ▸ hup, ho⟩⟩

theorem Awaits.readByte {answers : List (Nat × List Byte)} {call : Nat} {got : List (Nat × Byte)}
    {k : Conn} {x : Nat × Byte} {rest : List (Nat × Byte)} (h : Awaits answers call got k)
    (hun : k.unread = x :: rest) :
    Awaits answers call (got ++ [x]) { k with unread := rest } := by
  rcases h with ⟨-, hnil, -⟩ | ⟨ho, line, rest', hm, hl, heq, hrest⟩
  · rw [hnil] at hun
    cases hun
  · refine .inr ⟨ho, line, rest', hm, hl, ?_, hrest⟩
    rw [hun] at heq
    simpa only [List.append_assoc, List.cons_append, List.nil_append] using heq

theorem Awaits.readLine {answers : List (Nat × List Byte)} {call : Nat} {got : List (Nat × Byte)}
    {k : Conn} {x : Nat × Byte} {rest : List (Nat × Byte)} (h : Awaits answers call got k)
    (hun : k.unread = x :: rest) (hx : isBreak x.2 = true) :
    ¬ Conn.Outstanding { k with unread := rest } ∧
      ∃ line, (call, line) ∈ answers ∧ got ++ [x] = tagged call (line ++ [0x0A#8]) := by
  rcases h with ⟨-, hnil, -⟩ | ⟨ho, line, rest', hm, hl, heq, -⟩
  · rw [hnil] at hun
    cases hun
  · have hcons : got ++ x :: (rest ++ k.sending ++ rest') = tagged call (line ++ [0x0A#8]) := by
      rw [hun] at heq
      simpa only [List.append_assoc, List.cons_append] using heq
    obtain ⟨hwhole, hnil⟩ := eq_of_break hl hcons hx
    simp only [List.append_eq_nil_iff] at hnil
    exact ⟨not_outstanding_iff.mpr ⟨ho, hnil.1.2, hnil.1.1⟩, line, hm, hwhole⟩

theorem Awaits.readEof {answers : List (Nat × List Byte)} {call : Nat} {got : List (Nat × Byte)}
    {k : Conn} (h : Awaits answers call got k) (hset : k.Settled) (hup : k.up = false)
    (hun : k.unread = []) :
    ¬ k.Outstanding ∧ (got = [] ∨
      ∃ line, (call, line) ∈ answers ∧ got <+: tagged call (line ++ [0x0A#8])) := by
  obtain ⟨ho, hs⟩ := hset hup
  refine ⟨not_outstanding_iff.mpr ⟨ho, hs, hun⟩, ?_⟩
  rcases h with ⟨hg, -⟩ | ⟨-, line, rest, hm, -, heq, -⟩
  · exact .inl hg
  · refine .inr ⟨line, hm, rest, ?_⟩
    rw [hun, hs] at heq
    simpa only [List.append_nil] using heq

/-! The calls that are over. -/

/-- A call that has a reply has read it from the answer to its own request: the whole line,
or the part of it that came before the end of the stream. -/
def CallRecord.Own (L : Limits) (answers : List (Nat × List Byte)) (r : CallRecord) : Prop :=
  Replied r.outcome → ∃ line, (r.call, line) ∈ answers ∧ r.outcome = callResult L (text r.read) ∧
    r.read <+: tagged r.call (line ++ [0x0A#8]) ∧
    (r.eof = false → r.read = tagged r.call (line ++ [0x0A#8]))

theorem CallRecord.Own.mono {L : Limits} {answers answers' : List (Nat × List Byte)}
    {r : CallRecord} (hsub : answers ⊆ answers') (h : r.Own L answers) : r.Own L answers' := by
  intro hr
  obtain ⟨line, hm, hrest⟩ := h hr
  exact ⟨line, hsub hm, hrest⟩

section
variable {τ : Type*} {L : Limits}

structure Inv (L : Limits) (s : Bench τ) : Prop where
  client_lt : ∀ t c, s.client t = some c → c < s.nextConn
  client_inj : ∀ t t' c, s.client t = some c → s.client t' = some c → t = t'
  phase_conn : ∀ t c, (s.phase t).conn = some c → s.client t = some c
  fits : ∀ t c, s.client t = some c → (s.conns c).Fits s.answers (s.phase t)
  settled : ∀ c, (s.conns c).Settled
  fresh : ∀ c, s.nextConn ≤ c → s.conns c = .opened
  own : ∀ r ∈ s.log, r.Own L s.answers

theorem Inv.start : Inv L (Bench.start : Bench τ) where
  client_lt := nofun
  client_inj := nofun
  phase_conn := nofun
  fits := nofun
  settled := nofun
  fresh := fun _ _ => rfl
  own := nofun

theorem Inv.thread {s s' : Bench τ} (hi : Inv L s) {t : τ} {c : Nat}
    (hown : ∀ t', s.client t' = some c → t' = t)
    (hconns : ∀ c', c' ≠ c → s'.conns c' = s.conns c')
    (hclient : ∀ t', t' ≠ t → s'.client t' = s.client t')
    (hphase : ∀ t', t' ≠ t → s'.phase t' = s.phase t')
    (hans : s'.answers = s.answers) (hn : s.nextConn ≤ s'.nextConn) (hc : c < s'.nextConn)
    (honly : ∀ c', s'.client t = some c' → c' = c)
    (hph : ∀ c', (s'.phase t).conn = some c' → s'.client t = some c')
    (hfits : s'.client t = some c → (s'.conns c).Fits s.answers (s'.phase t))
    (hset : (s'.conns c).Settled) (hlog : ∀ r ∈ s'.log, r ∈ s.log ∨ r.Own L s.answers) :
    Inv L s' where
  client_lt := by
    intro t' c' h
    by_cases ht : t' = t
    · rw [ht] at h
      rw [honly c' h]
      exact hc
    · rw [hclient t' ht] at h
      exact (hi.client_lt t' c' h).trans_le hn
  client_inj := by
    have hone : ∀ t' c', t' ≠ t → s'.client t' = some c' → s'.client t ≠ some c' := by
      intro t' c' ht h h'
      rw [hclient t' ht, honly c' h'] at h
      exact ht (hown t' h)
    intro t₁ t₂ c' h₁ h₂
    by_cases ht₁ : t₁ = t
    · by_cases ht₂ : t₂ = t
      · rw [ht₁, ht₂]
      · rw [ht₁] at h₁
        exact absurd h₁ (hone t₂ c' ht₂ h₂)
    · by_cases ht₂ : t₂ = t
      · rw [ht₂] at h₂
        exact absurd h₂ (hone t₁ c' ht₁ h₁)
      · rw [hclient t₁ ht₁] at h₁
        rw [hclient t₂ ht₂] at h₂
        exact hi.client_inj t₁ t₂ c' h₁ h₂
  phase_conn := by
    intro t' c' h
    by_cases ht : t' = t
    · rw [ht] at h ⊢
      exact hph c' h
    · rw [hphase t' ht] at h
      rw [hclient t' ht]
      exact hi.phase_conn t' c' h
  fits := by
    intro t' c' h
    by_cases ht : t' = t
    · rw [ht] at h ⊢
      obtain rfl := honly c' h
      rw [hans]
      exact hfits h
    · rw [hclient t' ht] at h
      have hne : c' ≠ c := fun he => ht (hown t' (he ▸ h))
      rw [hconns c' hne, hphase t' ht, hans]
      exact hi.fits t' c' h
  settled := by
    intro c'
    by_cases he : c' = c
    · rw [he]
      exact hset
    · rw [hconns c' he]
      exact hi.settled c'
  fresh := by
    intro c' h
    have hne : c' ≠ c := by omega
    rw [hconns c' hne]
    exact hi.fresh c' (hn.trans h)
  own := by
    intro r hr
    rw [hans]
    exact (hlog r hr).elim (hi.own r) id

theorem Inv.serve {s : Bench τ} (hi : Inv L s) {c : Nat} {k : Conn}
    {answers : List (Nat × List Byte)} (hc : c < s.nextConn) (hsub : s.answers ⊆ answers)
    (hs : (s.conns c).Serves answers k) :
    Inv L { s.serve c k with answers } where
  client_lt := hi.client_lt
  client_inj := hi.client_inj
  phase_conn := hi.phase_conn
  fits := by
    intro t c' h
    have hf : (s.conns c').Fits answers (s.phase t) := (hi.fits t c' h).mono hsub
    by_cases he : c' = c
    · subst he
      simp only [Bench.serve, Function.update_self]
      exact hf.serves hs
    · simp only [Bench.serve, Function.update_of_ne he]
      exact hf
  settled := by
    intro c'
    by_cases he : c' = c
    · subst he
      simp only [Bench.serve, Function.update_self]
      exact (hi.settled c').serves hs
    · simp only [Bench.serve, Function.update_of_ne he]
      exact hi.settled c'
  fresh := by
    intro c' h
    have hne : c' ≠ c := by
      rintro rfl
      exact absurd hc (Nat.not_lt.mpr h)
    simp only [Bench.serve, Function.update_of_ne hne]
    exact hi.fresh c' h
  own := fun r hr => (hi.own r hr).mono hsub

theorem Inv.at_phase {s : Bench τ} (hi : Inv L s) {t : τ} {ph : Phase} {c : Nat}
    (hph : s.phase t = ph) (hc : ph.conn = some c) :
    s.client t = some c ∧ (s.conns c).Fits s.answers ph := by
  subst hph
  have hclient := hi.phase_conn t c hc
  exact ⟨hclient, hi.fits t c hclient⟩

theorem Inv.opened {s : Bench τ} (hi : Inv L s) {c : Nat} (h : s.conns c ≠ .opened) :
    c < s.nextConn := by
  by_contra hc
  exact h (hi.fresh c (Nat.not_lt.mp hc))

/-- A connection where a reply is outstanding and no call is in progress is in no cache. -/
theorem Inv.uncached {s : Bench τ} (hi : Inv L s) {c : Nat} (ho : (s.conns c).Outstanding)
    (hun : s.Unused c) (t : τ) : s.client t ≠ some c := by
  intro hc
  have hfits := hi.fits t c hc
  cases hph : s.phase t with
  | idle =>
    rw [hph] at hfits
    exact hfits ho
  | calling call c' method params =>
    have hc' := hi.phase_conn t c' (by rw [hph]; rfl)
    cases hc.symm.trans hc'
    exact hun t (by rw [hph]; rfl)
  | reading call c' got =>
    have hc' := hi.phase_conn t c' (by rw [hph]; rfl)
    cases hc.symm.trans hc'
    exact hun t (by rw [hph]; rfl)

/-! A connection that the broker has hung up on. -/

/-- Nothing comes over the connection any more, and no call on it has read anything. -/
structure Bench.Gone (s : Bench τ) (c : Nat) : Prop where
  down : (s.conns c).up = false
  empty : (s.conns c).unread = []
  got : ∀ t call got, s.phase t = .reading call c got → got = []

theorem Bench.Gone.ne_of_unread {s : Bench τ} {c c' : Nat} (hg : s.Gone c) {x : Nat × Byte}
    {rest : List (Nat × Byte)} (hun : (s.conns c').unread = x :: rest) : c' ≠ c := by
  rintro rfl
  rw [hg.empty] at hun
  cases hun

theorem Bench.Gone.serve {s : Bench τ} {c c' : Nat} {k : Conn} (hg : s.Gone c)
    (hk : c' = c → k.up = false ∧ k.unread = []) : (s.serve c' k).Gone c := by
  by_cases he : c = c'
  · subst he
    refine ⟨?_, ?_, hg.got⟩
    · simpa only [Bench.serve, Function.update_self] using (hk rfl).1
    · simpa only [Bench.serve, Function.update_self] using (hk rfl).2
  · refine ⟨?_, ?_, hg.got⟩
    · simpa only [Bench.serve, Function.update_of_ne he] using hg.down
    · simpa only [Bench.serve, Function.update_of_ne he] using hg.empty

theorem serve_self (s : Bench τ) (c : Nat) : s.serve c (s.conns c) = s := by
  rw [Bench.serve, Function.update_eq_self]

variable [DecidableEq τ]

theorem Inv.act {s : Bench τ} (hi : Inv L s) {t : τ} {c : Nat} (hc : s.client t = some c)
    {k : Conn} {ph : Phase} (hph : ph.conn = some c) (hfits : k.Fits s.answers ph)
    (hset : k.Settled) : Inv L (s.act t c k ph) := by
  refine hi.thread (t := t) (c := c) (fun t' h => hi.client_inj t' t c h hc)
    (fun c' h => Function.update_of_ne h _ _) (fun _ _ => rfl)
    (fun t' h => Function.update_of_ne h _ _) rfl le_rfl (hi.client_lt t c hc) ?_ ?_ ?_ ?_
    fun r hr => .inl hr
  · intro c' h
    exact Option.some.inj (h.symm.trans hc)
  · intro c' h
    simp only [Bench.act, Function.update_self] at h ⊢
    rw [hc, ← hph, h]
  · simp only [Bench.act, Function.update_self]
    exact fun _ => hfits
  · simpa only [Bench.act, Function.update_self] using hset

theorem cacheAfter_sub {client : Option Nat} {closes : Bool} {outcome : Except CallError Json}
    {c : Nat} (h : cacheAfter client closes outcome = some c) :
    client = some c ∧ ∀ e, outcome = .error e → e.isDisconnect = false := by
  unfold cacheAfter at h
  split at h
  · exact ⟨h, nofun⟩
  · rename_i e
    split at h
    · cases h
    · rename_i he
      refine ⟨h, fun e' he' => ?_⟩
      cases he'
      exact Bool.not_eq_true _ ▸ he

theorem Inv.finish {s : Bench τ} (hi : Inv L s) {t : τ} {c : Nat} (hc : s.client t = some c)
    {k : Conn} (hset : k.Settled) (closes : Bool) {r : CallRecord}
    (hout : (∀ e, r.outcome = .error e → e.isDisconnect = false) → ¬ k.Outstanding)
    (hr : r.Own L s.answers) : Inv L ((s.serve c k).finish t closes r) := by
  refine hi.thread (t := t) (c := c) (fun t' h => hi.client_inj t' t c h hc)
    (fun c' h => Function.update_of_ne h _ _) (fun t' h => Function.update_of_ne h _ _)
    (fun t' h => Function.update_of_ne h _ _) rfl le_rfl (hi.client_lt t c hc) ?_ ?_ ?_ ?_ ?_
  · intro c' h
    simp only [Bench.finish, Bench.serve, Function.update_self] at h
    exact Option.some.inj ((cacheAfter_sub h).1.symm.trans hc)
  · intro c' h
    simp only [Bench.finish, Function.update_self] at h
    cases h
  · intro h
    simp only [Bench.finish, Bench.serve, Function.update_self] at h ⊢
    exact hout (cacheAfter_sub h).2
  · simpa only [Bench.finish, Bench.serve, Function.update_self] using hset
  · intro r' hr'
    rcases List.mem_append.mp hr' with h | h
    · exact .inl h
    · rw [List.mem_singleton.mp h]
      exact .inr hr

theorem not_replied_own {r : CallRecord} {answers : List (Nat × List Byte)}
    (h : ¬ Replied r.outcome) : r.Own L answers :=
  fun hr => absurd hr h

theorem Inv.step {fr : FloatRepr} {s s' : Bench τ} (hi : Inv L s) (h : Step L fr OneLine s s') :
    Inv L s' := by
  cases h with
  | callCached method params hph hc =>
    rename_i t c
    have hfits := hi.fits t c hc
    rw [hph] at hfits
    have hi' : Inv L { s with nextCall := s.nextCall + 1 } :=
      ⟨hi.client_lt, hi.client_inj, hi.phase_conn, hi.fits, hi.settled, hi.fresh, hi.own⟩
    exact hi'.act hc rfl hfits (hi.settled c)
  | callConnects method params hph hc =>
    rename_i t
    refine hi.thread (t := t) (c := s.nextConn) (fun t' h => ?_)
      (fun c' h => Function.update_of_ne h _ _) (fun t' h => Function.update_of_ne h _ _)
      (fun t' h => Function.update_of_ne h _ _) rfl (Nat.le_succ _) (Nat.lt_succ_self _) ?_ ?_ ?_ ?_
      fun r hr => .inl hr
    · exact absurd (hi.client_lt t' _ h) (lt_irrefl _)
    · intro c' h
      simp only [Bench.act, Function.update_self] at h
      exact (Option.some.inj h).symm
    · intro c' h
      simp only [Bench.act, Function.update_self] at h ⊢
      exact h
    · simp only [Bench.act, Function.update_self]
      exact fun _ => opened_not_outstanding
    · simp only [Bench.act, Function.update_self]
      exact nofun
  | connectFails closes hph hc =>
    rename_i t
    have hclient : Function.update s.client t none = s.client := hc ▸ Function.update_eq_self t _
    have hphase : Function.update s.phase t .idle = s.phase := hph ▸ Function.update_eq_self t _
    simp only [Bench.finish, hc, cacheAfter, CallError.isDisconnect, if_true, hclient, hphase]
    refine ⟨hi.client_lt, hi.client_inj, hi.phase_conn, hi.fits, hi.settled, hi.fresh, fun r hr => ?_⟩
    rcases List.mem_append.mp hr with h | h
    · exact hi.own r h
    · rw [List.mem_singleton.mp h]
      exact not_replied_own (not_replied_of_disconnect rfl)
  | unsendable closes hph hreq =>
    rename_i t call c method params e
    obtain ⟨hc, hfits⟩ := hi.at_phase hph rfl
    exact hi.finish (k := { s.conns c with nextId := (s.conns c).nextId + 1 })
      (r := ⟨call, some c, [], false, .error (.ofDump e)⟩) hc (hi.settled c) closes
      (fun _ => hfits) (not_replied_own (not_replied_ofDump e))
  | sent hph hreq =>
    rename_i t call c method params line
    obtain ⟨hc, hfits⟩ := hi.at_phase hph rfl
    exact hi.act hc rfl (awaits_receive hfits s.answers call line) ((hi.settled c).receive call line)
  | sendFails closes reached hph hreq he =>
    rename_i t call c method params line e
    obtain ⟨hc, -⟩ := hi.at_phase hph rfl
    refine hi.finish hc ?_ closes (fun hd => ?_) (not_replied_own (not_replied_of_disconnect he))
    · cases reached with
      | true => exact (hi.settled c).receive call line
      | false => exact hi.settled c
    · rw [hd e rfl] at he
      cases he
  | readByte hph hun hx =>
    rename_i t call c got x rest
    obtain ⟨hc, hfits⟩ := hi.at_phase hph rfl
    exact hi.act hc rfl (Awaits.readByte hfits hun) (hi.settled c)
  | readLine closes hph hun hx =>
    rename_i t call c got x rest
    obtain ⟨hc, hfits⟩ := hi.at_phase hph rfl
    obtain ⟨hquiet, line, hm, hread⟩ := Awaits.readLine hfits hun hx
    refine hi.finish (k := { s.conns c with unread := rest })
      (r := ⟨call, some c, got ++ [x], false, callResult L (text (got ++ [x]))⟩) hc (hi.settled c)
      closes (fun _ => hquiet) fun _ => ⟨line, hm, rfl, ?_, fun _ => hread⟩
    rw [hread]
  | readEof closes hph hup hun =>
    rename_i t call c got
    obtain ⟨hc, hfits⟩ := hi.at_phase hph rfl
    obtain ⟨hquiet, hread⟩ := Awaits.readEof hfits (hi.settled c) hup hun
    have hfin := hi.finish (k := s.conns c) hc (hi.settled c) closes
      (r := ⟨call, some c, got, true, callResult L (text got)⟩) (fun _ => hquiet) ?_
    · rwa [serve_self] at hfin
    · rcases hread with rfl | ⟨line, hm, hpre⟩
      · exact not_replied_own (not_replied_of_disconnect rfl)
      · exact fun _ => ⟨line, hm, rfl, hpre, nofun⟩
  | readFails closes hph he =>
    rename_i t call c got e
    obtain ⟨hc, -⟩ := hi.at_phase hph rfl
    have hfin := hi.finish (k := s.conns c) hc (hi.settled c) closes
      (r := ⟨call, some c, got, false, .error e⟩) (fun hd => ?_)
      (not_replied_own (not_replied_of_disconnect he))
    · rwa [serve_self] at hfin
    · rw [hd e rfl] at he
      cases he
  | answer line howed hs hline =>
    have hne : s.conns _ ≠ .opened := fun he => by rw [he] at howed; cases howed
    exact hi.serve (hi.opened hne) (List.subset_append_left _ _)
      (.answer howed hs (List.mem_append_right _ (List.mem_singleton_self _)) hline)
  | send hs =>
    have hne : s.conns _ ≠ .opened := fun he => by rw [he] at hs; cases hs
    exact hi.serve (hi.opened hne) (List.Subset.refl _) (.send hs)
  | hangUp hc => exact hi.serve hc (List.Subset.refl _) .hangUp

theorem Inv.later {fr : FloatRepr} {s s' : Bench τ} (hi : Inv L s) (h : Later L fr OneLine s s') :
    Inv L s' := by
  induction h with
  | refl => exact hi
  | tail _ hstep ih => exact ih.step hstep

theorem Reachable.inv {fr : FloatRepr} {s : Bench τ} (h : Reachable L fr OneLine s) : Inv L s :=
  Inv.start.later h

/-! A connection that no thread has in its cache stays so. -/

theorem Step.client {fr : FloatRepr} {P : List Byte → Prop} {s s' : Bench τ}
    (h : Step L fr P s s') : s.nextConn ≤ s'.nextConn ∧
      ∀ t c, s'.client t = some c → s.client t = some c ∨ c = s.nextConn := by
  have hfinish : ∀ (u : Bench τ) (t : τ) (closes : Bool) (r : CallRecord) (t' : τ) (c : Nat),
      (u.finish t closes r).client t' = some c → u.client t' = some c := by
    intro u t closes r t' c hc
    by_cases ht : t' = t
    · subst ht
      simp only [Bench.finish, Function.update_self] at hc
      exact (cacheAfter_sub hc).1
    · simpa only [Bench.finish, Function.update_of_ne ht] using hc
  cases h with
  | callConnects method params hph hc =>
    rename_i t
    refine ⟨Nat.le_succ _, fun t' c h => ?_⟩
    by_cases ht : t' = t
    · subst ht
      simp only [Bench.act, Function.update_self] at h
      exact .inr (Option.some.inj h).symm
    · simp only [Bench.act, Function.update_of_ne ht] at h
      exact .inl h
  | connectFails | unsendable | sendFails | readLine | readEof | readFails =>
    exact ⟨le_rfl, fun t' c h => .inl (hfinish _ _ _ _ t' c h)⟩
  | callCached | sent | readByte | answer | send | hangUp => exact ⟨le_rfl, fun t' c h => .inl h⟩

theorem Later.uncached {fr : FloatRepr} {P : List Byte → Prop} {s s' : Bench τ} {c : Nat}
    (h : Later L fr P s s') (hc : c < s.nextConn) (hun : ∀ t, s.client t ≠ some c) :
    c < s'.nextConn ∧ ∀ t, s'.client t ≠ some c := by
  induction h with
  | refl => exact ⟨hc, hun⟩
  | tail _ hstep ih =>
    obtain ⟨hn, hsub⟩ := hstep.client
    refine ⟨ih.1.trans_le hn, fun t ht => ?_⟩
    rcases hsub t c ht with h | h
    · exact ih.2 t h
    · exact absurd ih.1 (h ▸ lt_irrefl _)

theorem Inv.never_used {fr : FloatRepr} {s s' : Bench τ} (hi : Inv L s) {c : Nat}
    (ho : (s.conns c).Outstanding) (hun : s.Unused c) (h : Later L fr OneLine s s') :
    s'.Unused c := by
  have hc : c < s.nextConn := hi.opened fun he => opened_not_outstanding (he ▸ ho)
  intro t ht
  exact (h.uncached hc (hi.uncached ho hun)).2 t ((hi.later h).phase_conn t c ht)

theorem Bench.Gone.phase {s : Bench τ} {c : Nat} (hg : s.Gone c) (t : τ) (ph : Phase)
    (hph : ∀ call got, ph = .reading call c got → got = []) :
    ({ s with phase := Function.update s.phase t ph } : Bench τ).Gone c := by
  refine ⟨hg.down, hg.empty, fun t' call got h => ?_⟩
  by_cases ht : t' = t
  · subst ht
    simp only [Function.update_self] at h
    exact hph call got h
  · simp only [Function.update_of_ne ht] at h
    exact hg.got t' call got h

theorem Bench.Gone.act {s : Bench τ} {c c' : Nat} {k : Conn} {ph : Phase} (hg : s.Gone c) (t : τ)
    (hk : c' = c → k.up = false ∧ k.unread = [])
    (hph : ∀ call got, ph = .reading call c got → got = []) : (s.act t c' k ph).Gone c :=
  (hg.serve hk).phase t ph hph

theorem Bench.Gone.finish {s : Bench τ} {c : Nat} (hg : s.Gone c) (t : τ) (closes : Bool)
    (r : CallRecord) : (s.finish t closes r).Gone c :=
  have hidle := hg.phase t .idle nofun
  ⟨hidle.down, hidle.empty, hidle.got⟩

theorem Conn.receive_gone {k : Conn} (h : k.up = false ∧ k.unread = []) (call : Nat)
    (line : PyStr) :
    (k.receive call line).up = false ∧ (k.receive call line).unread = [] := by
  simpa only [Conn.receive, h.1, Bool.false_eq_true, if_false, true_and] using h.2

/-- What a call leaves in the log over a connection that is gone. -/
def SilentOn (c : Nat) (r : CallRecord) : Prop :=
  r.conn = some c → r.read = [] ∧ ¬ Replied r.outcome

theorem Inv.gone_step {fr : FloatRepr} {s s' : Bench τ} (hi : Inv L s) {c : Nat}
    (hg : s.Gone c) (h : Step L fr OneLine s s') :
    s'.Gone c ∧ ∃ new, s'.log = s.log ++ new ∧ ∀ r ∈ new, SilentOn c r := by
  have hkeep : ∃ new, s.log = s.log ++ new ∧ ∀ r ∈ new, SilentOn c r := ⟨[], by simp⟩
  have hadd : ∀ r, SilentOn c r → ∃ new, s.log ++ [r] = s.log ++ new ∧ ∀ r ∈ new, SilentOn c r :=
    fun r hr => ⟨[r], rfl, by simpa using hr⟩
  have hend : (s.conns c).up = false ∧ (s.conns c).unread = [] := ⟨hg.down, hg.empty⟩
  have hcalled : ({ s with nextCall := s.nextCall + 1 } : Bench τ).Gone c :=
    ⟨hg.down, hg.empty, hg.got⟩
  cases h with
  | callCached method params hph hcl =>
    exact ⟨hcalled.act _ (fun he => he ▸ hend) nofun, hkeep⟩
  | callConnects method params hph hcl =>
    rename_i t
    have hne : s.nextConn ≠ c := by
      intro he
      have hd := hg.down
      rw [hi.fresh c he.le] at hd
      cases hd
    have hconnected : ({ s with
        nextConn := s.nextConn + 1
        nextCall := s.nextCall + 1
        client := Function.update s.client t (some s.nextConn) } : Bench τ).Gone c :=
      ⟨hg.down, hg.empty, hg.got⟩
    exact ⟨hconnected.act t (fun he => absurd he hne) nofun, hkeep⟩
  | connectFails closes hph hcl => exact ⟨hcalled.finish _ closes _, hadd _ nofun⟩
  | unsendable closes hph hreq =>
    exact ⟨(hg.serve fun he => by subst he; exact hend).finish _ closes _,
      hadd _ fun _ => ⟨rfl, not_replied_ofDump _⟩⟩
  | sent hph hreq =>
    refine ⟨hg.act _ (fun he => ?_) (fun call got h => ?_), hkeep⟩
    · subst he
      exact Conn.receive_gone hend _ _
    · cases h
      rfl
  | sendFails closes reached hph hreq he =>
    refine ⟨(hg.serve fun heq => ?_).finish _ closes _,
      hadd _ fun _ => ⟨rfl, not_replied_of_disconnect he⟩⟩
    subst heq
    cases reached with
    | true => exact Conn.receive_gone hend _ _
    | false => exact hend
  | readByte hph hun hx =>
    rename_i t call c' got x rest
    have hne := hg.ne_of_unread hun
    exact ⟨hg.act t (fun he => absurd he hne) fun call' got' h => by cases h; exact absurd rfl hne,
      hkeep⟩
  | readLine closes hph hun hx =>
    rename_i t call c' got x rest
    have hne := hg.ne_of_unread hun
    exact ⟨(hg.serve fun he => absurd he hne).finish t closes _,
      hadd _ fun he => absurd (Option.some.inj he) hne⟩
  | readEof closes hph hup hun =>
    rename_i t call c' got
    refine ⟨hg.finish t closes _, hadd _ fun he => ?_⟩
    cases he
    obtain rfl := hg.got t call got hph
    exact ⟨rfl, not_replied_of_disconnect rfl⟩
  | readFails closes hph he =>
    rename_i t call c' got e
    refine ⟨hg.finish t closes _, hadd _ fun heq => ?_⟩
    cases heq
    exact ⟨hg.got t call got hph, not_replied_of_disconnect he⟩
  | answer line howed hs hline =>
    rename_i c' call req owed
    have hne : c' ≠ c := by
      rintro rfl
      rw [(hi.settled c' hg.down).1] at howed
      cases howed
    have hserved := hg.serve (k := { s.conns c' with owed, sending := tagged call (line ++ [0x0A#8]) })
      fun he => absurd he hne
    exact ⟨⟨hserved.down, hserved.empty, hserved.got⟩, hkeep⟩
  | send hs =>
    rename_i c' x rest
    have hne : c' ≠ c := by
      rintro rfl
      rw [(hi.settled c' hg.down).2] at hs
      cases hs
    exact ⟨hg.serve fun he => absurd he hne, hkeep⟩
  | hangUp hc' => exact ⟨hg.serve fun he => by subst he; exact ⟨rfl, hend.2⟩, hkeep⟩

theorem Inv.gone_later {fr : FloatRepr} {s s' : Bench τ} (hi : Inv L s) {c : Nat}
    (hg : s.Gone c) (h : Later L fr OneLine s s') :
    s'.Gone c ∧ ∃ new, s'.log = s.log ++ new ∧ ∀ r ∈ new, SilentOn c r := by
  induction h with
  | refl => exact ⟨hg, [], by simp⟩
  | tail hrun hstep ih =>
    rename_i u v
    obtain ⟨hgu, new, hlog, hnew⟩ := ih
    obtain ⟨hgv, new', hlog', hnew'⟩ := (hi.later hrun).gone_step hgu hstep
    refine ⟨hgv, new ++ new', by rw [hlog', hlog, List.append_assoc], fun r hr => ?_⟩
    exact (List.mem_append.mp hr).elim (hnew r) (hnew' r)

/-- In every reachable state each call that has a reply has its own; a connection that a call
has left with a reply outstanding is never used again; and over one that the broker has hung
up on, with nothing left to read, later calls read nothing and have no reply. -/
theorem hilClient_pairs {fr : FloatRepr} {s : Bench τ} (h : Reachable L fr OneLine s) :
    (∀ r ∈ s.log, r.Own L s.answers) ∧
      ∀ c, s.Unused c → ∀ s', Later L fr OneLine s s' →
        ((s.conns c).Outstanding → s'.Unused c) ∧
          ((s.conns c).up = false → (s.conns c).unread = [] →
            ∃ new, s'.log = s.log ++ new ∧ ∀ r ∈ new, SilentOn c r) := by
  have hi := h.inv
  refine ⟨hi.own, fun c hun s' hlater => ⟨fun ho => hi.never_used ho hun hlater, fun hup hempty => ?_⟩⟩
  have hgot : ∀ t call got, s.phase t = .reading call c got → got = [] :=
    fun t call got hph => absurd (by rw [hph]; rfl) (hun t)
  exact (hi.gone_later ⟨hup, hempty, hgot⟩ hlater).2

end

theorem two_threads : ∃ s : Bench Bool, Reachable cpython anyFloat OneLine s ∧
    (∃ r ∈ s.log, Replied r.outcome) ∧ (s.conns 1).Outstanding ∧ s.Unused 1 := by
  have h1 : Reachable cpython anyFloat OneLine (τ := Bool) _ :=
    .single (.callConnects (t := false) [] [] rfl rfl)
  have h2 := h1.tail (.sent (t := false) rfl rfl)
  have h3 := h2.tail (.answer (c := 0) [0x7B#8, 0x7D#8] rfl rfl (by unfold OneLine; decide))
  have h4 := ((h3.tail (.send (c := 0) rfl)).tail (.send (c := 0) rfl)).tail (.send (c := 0) rfl)
  have h5 := (h4.tail (.readByte (t := false) rfl rfl rfl)).tail (.readByte (t := false) rfl rfl rfl)
  have h6 := h5.tail (.readLine (t := false) true rfl rfl rfl)
  have h7 := h6.tail (.callConnects (t := true) [] [] rfl rfl)
  have h8 := h7.tail (.sent (t := true) rfl rfl)
  have h9 := h8.tail (.readFails (t := true) (e := .osError) true rfl rfl)
  refine ⟨_, h9, ⟨_, .head _, trivial⟩, .inl nofun, fun t => ?_⟩
  cases t <;> exact nofun

theorem hilClient_pairs_two_threads : ∃ s : Bench Bool, (∃ r ∈ s.log, Replied r.outcome) ∧
    (∀ r ∈ s.log, r.Own cpython s.answers) ∧ (s.conns 1).Outstanding ∧
    ∀ s', Later cpython anyFloat OneLine s s' → s'.Unused 1 := by
  obtain ⟨s, h, hr, ho, hun⟩ := two_threads
  have hpairs := hilClient_pairs h
  exact ⟨s, hr, hpairs.1, ho, fun s' hs => (hpairs.2 1 hun s' hs).1 ho⟩

/-- A call on the connection has read a part of its reply, and not all of it. -/
def Bench.PartlyRead {τ : Type*} (s : Bench τ) (c : Nat) : Prop :=
  ∃ r ∈ s.log, r.conn = some c ∧ r.read ≠ [] ∧ ∃ line x rest, (r.call, line) ∈ s.answers ∧
    r.read ++ x :: rest = tagged r.call (line ++ [0x0A#8])

def solo (k : Conn) (nextCall : Nat) (ph : Phase) (answers : List (Nat × List Byte))
    (log : List CallRecord) : Bench Unit :=
  ⟨Function.update (fun _ => .opened) 0 k, 1, nextCall, fun _ => some 0, fun _ => ph, answers, log⟩

theorem reachable_solo {L : Limits} {fr : FloatRepr} {P : List Byte → Prop} {s : Bench Unit}
    (h : Reachable L fr P s) (hconns : ∀ c, c ≠ 0 → s.conns c = .opened) (hn : s.nextConn = 1)
    (hcl : s.client () = some 0) :
    Reachable L fr P (solo (s.conns 0) s.nextCall (s.phase ()) s.answers s.log) := by
  obtain ⟨conns, nextConn, nextCall, client, phase, answers, log⟩ := s
  have hc : Function.update (fun _ => Conn.opened) 0 (conns 0) = conns := by
    funext c
    by_cases he : c = 0
    · subst he
      exact Function.update_self _ _ _
    · rw [Function.update_of_ne he]
      exact (hconns c he).symm
  have hclient : (fun _ => some 0) = client := funext fun _ => hcl.symm
  cases hn
  rw [solo, hc, hclient]
  exact h

def brokenLine : List Byte := [0x7B#8, 0x7D#8, 0x0D#8, 0x7B#8, 0x7D#8]

def NoNewline (line : List Byte) : Prop := 0x0A#8 ∉ line

theorem broken_sent : Reachable cpython anyFloat NoNewline
    (solo ⟨1, true, [], [], tagged 0 (brokenLine ++ [0x0A#8])⟩ 1 (.reading 0 0 [])
      [(0, brokenLine)] []) := by
  have h1 : Reachable cpython anyFloat NoNewline (τ := Unit) _ :=
    .single (.callConnects (t := ()) [] [] rfl rfl)
  have h2 := h1.tail (.sent (t := ()) rfl rfl)
  have h3 := h2.tail (.answer (c := 0) brokenLine rfl rfl (by unfold NoNewline; decide))
  have h4 := ((h3.tail (.send (c := 0) rfl)).tail (.send (c := 0) rfl)).tail (.send (c := 0) rfl)
  have h5 := ((h4.tail (.send (c := 0) rfl)).tail (.send (c := 0) rfl)).tail (.send (c := 0) rfl)
  exact reachable_solo h5 (fun c hc => by
    simp only [Bench.start, Bench.act, Bench.serve, Function.update_of_ne hc]) rfl rfl

/-- The first call has taken the end of the line to be at the carriage return. -/
theorem broken_read : Reachable cpython anyFloat NoNewline
    (solo ⟨1, true, [], [], tagged 0 [0x7B#8, 0x7D#8, 0x0A#8]⟩ 1 .idle [(0, brokenLine)]
      [⟨0, some 0, tagged 0 [0x7B#8, 0x7D#8, 0x0D#8], false, .ok .null⟩]) := by
  have h1 := broken_sent.tail (.readByte (t := ()) rfl rfl rfl)
  have h2 := (h1.tail (.readByte (t := ()) rfl rfl rfl)).tail (.readLine (t := ()) true rfl rfl rfl)
  exact reachable_solo h2 (fun c hc => by
    simp only [solo, Bench.act, Bench.serve, Bench.finish, Function.update_of_ne hc]) rfl rfl

theorem broken_pairing : ∃ s : Bench Unit, Reachable cpython anyFloat NoNewline s ∧
    ∃ r ∈ s.log, ¬ r.Own cpython s.answers := by
  have h1 := (broken_read.tail (.callCached (t := ()) [] [] rfl rfl)).tail (.sent (t := ()) rfl rfl)
  have h2 := (h1.tail (.readByte (t := ()) rfl rfl rfl)).tail (.readByte (t := ()) rfl rfl rfl)
  have h3 := h2.tail (.readLine (t := ()) true rfl rfl rfl)
  refine ⟨_, h3, _, .tail _ (.head _), fun hown => ?_⟩
  obtain ⟨line, -, -, hpre, -⟩ := hown trivial
  -- the second call has read bytes of the answer to the first
  have htag : ((0 : Nat), 0x7B#8) ∈ tagged 1 (line ++ [0x0A#8]) := hpre.subset (.head _)
  exact absurd (only_tagged 1 _ _ htag) (by decide)

theorem cut_reused : ∃ s s' : Bench Unit, Reachable cpython anyFloat OneLine s ∧
    s.PartlyRead 0 ∧ s.Unused 0 ∧ Later cpython anyFloat OneLine s s' ∧ ¬ s'.Unused 0 := by
  have h1 : Reachable cpython anyFloat OneLine (τ := Unit) _ :=
    .single (.callConnects (t := ()) [] [] rfl rfl)
  have h2 := h1.tail (.sent (t := ()) rfl rfl)
  have h3 := h2.tail (.answer (c := 0) [0x31#8, 0x32#8] rfl rfl (by unfold OneLine; decide))
  have h4 := (h3.tail (.send (c := 0) rfl)).tail (.hangUp (c := 0) (by decide))
  have h5 := (h4.tail (.readByte (t := ()) rfl rfl rfl)).tail (.readEof (t := ()) true rfl rfl rfl)
  exact ⟨_, _, h5, ⟨_, .head _, rfl, nofun, [0x31#8, 0x32#8], _, _, .head _, rfl⟩, nofun,
    .single (.callCached (t := ()) [] [] rfl rfl), fun hun => hun () rfl⟩

/-- The reader takes a carriage return for the end of a line, and leaves the rest of a reply
that holds one to the next call. And a call that reads a number, of which a restart cuts off
the rest, keeps its connection for the next one. -/
theorem unpaired_and_reused :
    (∃ s : Bench Unit, Reachable cpython anyFloat NoNewline s ∧
      ∃ r ∈ s.log, ¬ r.Own cpython s.answers) ∧
    ∃ s s' : Bench Unit, Reachable cpython anyFloat OneLine s ∧ s.PartlyRead 0 ∧ s.Unused 0 ∧
      Later cpython anyFloat OneLine s s' ∧ ¬ s'.Unused 0 :=
  ⟨broken_pairing, cut_reused⟩

end HilBench
