import HilBench.EffectProgram

/-! Programs that send a script of messages, each of them after the one before was
acknowledged. -/

namespace Effect

/-- `if not p: return False`, and then `q`. -/
def Prog.ifOk {Op : Type} {Ans : Op → Type} {ε : Type} (p q : Prog Op Ans ε Bool) :
    Prog Op Ans ε Bool :=
  p.bind fun ok => if ok then q else .pure false

/-- What the events of a program send and hear, and what acknowledges what. -/
structure Wire (Op : Type) (Ans : Op → Type) (ε σ M : Type) where
  sent : Event Op Ans ε σ → Option M
  heard : Event Op Ans ε σ → Option M
  acks : M → M → Prop

namespace Wire

variable {Op : Type} {Ans : Op → Type} {ε σ M : Type} (W : Wire Op Ans ε σ M)

def sends (h : List (Event Op Ans ε σ)) : List M := h.filterMap W.sent

/-- The messages heard since one was sent. -/
def fresh (h : List (Event Op Ans ε σ)) : List M :=
  h.foldl (fun ms e => if (W.sent e).isSome then [] else ms ++ (W.heard e).toList) []

def Acked (h : List (Event Op Ans ε σ)) : Prop :=
  ∃ m ∈ (W.sends h).getLast?, ∃ a ∈ W.fresh h, W.acks m a

variable {W} {h : List (Event Op Ans ε σ)} {e : Event Op Ans ε σ} {s : σ}

theorem sends_append (h h' : List (Event Op Ans ε σ)) :
    W.sends (h ++ h') = W.sends h ++ W.sends h' :=
  List.filterMap_append

theorem sends_sent {m : M} (he : W.sent e = some m) : W.sends (h ++ [e]) = W.sends h ++ [m] := by
  have hsingle : W.sends [e] = [m] := by simp [sends, he]
  rw [sends_append, hsingle]

theorem sends_quiet (he : W.sent e = none) : W.sends (h ++ [e]) = W.sends h := by
  have hsingle : W.sends [e] = [] := by simp [sends, he]
  rw [sends_append, hsingle, List.append_nil]

theorem fresh_quiet (he : W.sent e = none) :
    W.fresh (h ++ [e]) = W.fresh h ++ (W.heard e).toList := by
  simp [fresh, he]

theorem mem_fresh_quiet {a : M} (he : W.sent e = none) (ha : W.heard e = some a) :
    a ∈ W.fresh (h ++ [e]) := by
  rw [fresh_quiet he, ha]
  exact List.mem_append_right _ (List.mem_singleton.mpr rfl)

/-- Something that satisfies `P` was heard after `m` was sent and before anything else was. -/
def Got (W : Wire Op Ans ε σ M) (m : M) (P : M → Prop) (h : List (Event Op Ans ε σ)) : Prop :=
  ∃ pre post, h = pre ++ post ∧ (W.sends pre).getLast? = some m ∧ ∃ a ∈ W.fresh pre, P a

theorem Got.append {m : M} {P : M → Prop} (hgot : W.Got m P h) (h' : List (Event Op Ans ε σ)) :
    W.Got m P (h ++ h') := by
  obtain ⟨pre, post, rfl, hlast, hheard⟩ := hgot
  exact ⟨pre, post ++ h', List.append_assoc .., hlast, hheard⟩

theorem Got.of_fresh {m : M} {P : M → Prop} {ms : List M} (hsends : W.sends h = ms ++ [m])
    (hheard : ∃ a ∈ W.fresh h, P a) : W.Got m P h :=
  ⟨h, [], (List.append_nil h).symm, hsends ▸ List.getLast?_concat, hheard⟩

theorem Acked.of_fresh {m : M} {ms : List M} (hsends : W.sends h = ms ++ [m])
    (hheard : ∃ a ∈ W.fresh h, W.acks m a) : W.Acked h :=
  ⟨m, hsends ▸ List.getLast?_concat, hheard⟩

variable (W)
variable (E : σ → (o : Op) → Except ε (Ans o) → σ → Prop)
  (S : List (Event Op Ans ε σ) → Event Op Ans ε σ → Prop)

/-- The program sends a beginning of the script, and all of it where it returns `True`: then
`R` holds. -/
structure Follows (p : Prog Op Ans ε Bool) (script : List M)
    (R : List (Event Op Ans ε σ) → Prop) (h : List (Event Op Ans ε σ)) (s : σ) : Prop where
  meets : Meets E S p (fun r h' _ => ∃ done, done <+: script ∧ W.sends h' = W.sends h ++ done ∧
    (r = .ok true → done = script ∧ R h')) h s

variable {W E S} {p q : Prog Op Ans ε Bool} {ms ms' : List M}
  {R R' : List (Event Op Ans ε σ) → Prop}

theorem Follows.ifOk (hp : W.Follows E S p ms R h s)
    (hq : ∀ h s, R h → W.Follows E S q ms' R' h s) :
    W.Follows E S (p.ifOk q) (ms ++ ms') R' h s := by
  refine ⟨meets_bind.mpr (Meets.mono (fun r h1 s1 hr => ?_) hp.meets)⟩
  obtain ⟨done, hdone, hsends, hok⟩ := hr
  have hpre : done <+: ms ++ ms' := hdone.trans (List.prefix_append _ _)
  match r, hok with
  | .ok true, hok =>
    obtain ⟨hall, hR⟩ := hok rfl
    refine Meets.mono (fun r h2 s2 hr => ?_) (hq h1 s1 hR).meets
    obtain ⟨done', hdone', hsends', hok'⟩ := hr
    refine ⟨ms ++ done', List.prefix_append_right_inj ms |>.mpr hdone', ?_, fun hr => ?_⟩
    · rw [hsends', hsends, hall, List.append_assoc]
    · exact ⟨congrArg (ms ++ ·) (hok' hr).1, (hok' hr).2⟩
  | .ok false, _ => exact ⟨done, hpre, hsends, nofun⟩
  | .error e, _ => exact ⟨done, hpre, hsends, nofun⟩

theorem Follows.mono (hR : ∀ h, R h → R' h) (hp : W.Follows E S p ms R h s) :
    W.Follows E S p ms R' h s := by
  refine ⟨Meets.mono (fun r h1 s1 hr => ?_) hp.meets⟩
  obtain ⟨done, hdone, hsends, hok⟩ := hr
  exact ⟨done, hdone, hsends, fun hr => ⟨(hok hr).1, hR h1 (hok hr).2⟩⟩

end Wire

end Effect
