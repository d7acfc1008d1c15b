import HilBench.Ltc6811Emu

/-! The table of command statistics against the sequence of transactions that it
summarises. -/

namespace HilBench

section FirstSeen

variable {α : Type} [DecidableEq α]

theorem eraseDups_concat_of_mem {xs : List α} {x : α} (h : x ∈ xs) :
    (xs ++ [x]).eraseDups = xs.eraseDups := by
  rw [List.eraseDups_append]
  simp [List.removeAll, h]

theorem eraseDups_concat_of_not_mem {xs : List α} {x : α} (h : x ∉ xs) :
    (xs ++ [x]).eraseDups = xs.eraseDups ++ [x] := by
  rw [List.eraseDups_append]
  simp [List.removeAll, h, List.eraseDups_cons]

theorem nodup_eraseDups (xs : List α) : xs.eraseDups.Nodup := by
  induction xs using List.reverseRecOn with
  | nil => simp
  | append_singleton xs x ih =>
    by_cases hx : x ∈ xs
    · rwa [eraseDups_concat_of_mem hx]
    · rw [eraseDups_concat_of_not_mem hx, List.nodup_append]
      refine ⟨ih, by simp, ?_⟩
      intro a ha b hb hab
      apply hx
      rw [List.mem_singleton] at hb
      rwa [← hb, ← hab, ← List.mem_eraseDups]

/-- An element that comes after the first `n` was new when `n` others had been seen. -/
theorem seen_before {xs : List α} {x : α} {n : Nat} (hx : x ∈ xs)
    (hn : x ∉ xs.eraseDups.take n) :
    ∃ before after, xs = before ++ x :: after ∧ x ∉ before ∧ n ≤ before.eraseDups.length := by
  obtain ⟨before, after, rfl, hb⟩ := List.eq_append_cons_of_mem hx
  refine ⟨before, after, rfl, hb, ?_⟩
  by_contra hlt
  apply hn
  have hsplit : before ++ x :: after = (before ++ [x]) ++ after := by simp
  rw [hsplit, List.eraseDups_append, eraseDups_concat_of_not_mem hb]
  have hpre : before.eraseDups ++ [x] <+:
      (before.eraseDups ++ [x] ++ (after.removeAll (before ++ [x])).eraseDups).take n := by
    rw [List.prefix_take_iff]
    refine ⟨List.prefix_append _ _, ?_⟩
    simp only [List.length_append, List.length_singleton]
    omega
  exact hpre.subset (by simp)

end FirstSeen

/-! The search loop, the entries and the whole table. -/

theorem cmdStatsHit_none {cmd len : Word} {table : List CmdStat}
    (h : cmdStatsHit cmd len table = none) : cmd ∉ table.map (·.cmd) := by
  induction table with
  | nil => simp
  | cons r table ih =>
    rw [cmdStatsHit] at h
    split at h
    · simp at h
    · rename_i hr
      simp only [Option.map_eq_none_iff] at h
      rw [List.map_cons, List.mem_cons, not_or]
      exact ⟨fun he => hr he.symm, ih h⟩

theorem cmdStatsHit_some {cmd len : Word} {table table' : List CmdStat}
    (h : cmdStatsHit cmd len table = some table') :
    ∃ pre r post, table = pre ++ r :: post ∧ r.cmd = cmd ∧
      table' = pre ++ r.hit len :: post := by
  induction table generalizing table' with
  | nil => simp [cmdStatsHit] at h
  | cons r table ih =>
    rw [cmdStatsHit] at h
    split at h
    · rename_i hr
      simp only [Option.some.injEq] at h
      exact ⟨[], r, table, rfl, hr, h.symm⟩
    · simp only [Option.map_eq_some_iff] at h
      obtain ⟨rest, hrest, rfl⟩ := h
      obtain ⟨pre, q, post, rfl, hq, rfl⟩ := ih hrest
      exact ⟨r :: pre, q, post, rfl, hq, rfl⟩

def lengthsOf (cmd : Word) (xs : List (Word × Word)) : List Word :=
  (xs.filter (·.1 = cmd)).map (·.2)

theorem lengthsOf_concat_self (cmd len : Word) (xs : List (Word × Word)) :
    lengthsOf cmd (xs ++ [(cmd, len)]) = lengthsOf cmd xs ++ [len] := by
  simp [lengthsOf]

theorem lengthsOf_concat_other {cmd c : Word} (len : Word) (xs : List (Word × Word))
    (h : cmd ≠ c) : lengthsOf c (xs ++ [(cmd, len)]) = lengthsOf c xs := by
  simp [lengthsOf, h]

theorem lengthsOf_absent {cmd : Word} {xs : List (Word × Word)} (h : cmd ∉ xs.map (·.1)) :
    lengthsOf cmd xs = [] := by
  rw [lengthsOf, List.map_eq_nil_iff, List.filter_eq_nil_iff]
  intro p hp hc
  apply h
  rw [decide_eq_true_eq] at hc
  exact hc ▸ List.mem_map_of_mem hp

/-- An entry against all the lengths of its command. -/
structure CmdStat.Summarises (r : CmdStat) (lens : List Word) : Prop where
  count : r.count = BitVec.ofNat 32 lens.length
  last : lens.getLast? = some r.lastLen
  min : r.minLen ∈ lens ∧ ∀ len ∈ lens, r.minLen ≤ len
  max : r.maxLen ∈ lens ∧ ∀ len ∈ lens, len ≤ r.maxLen

theorem CmdStat.summarises_first (cmd len : Word) :
    CmdStat.Summarises { cmd := cmd, count := 1, lastLen := len, minLen := len, maxLen := len }
      [len] :=
  ⟨rfl, rfl, by simp, by simp⟩

theorem best_concat {α : Type} {r : α → α → Prop} {x y : α} {xs : List α} {p : Prop} [Decidable p]
    (hrefl : r y y) (htrans : ∀ a, r y x → r x a → r y a) (hp : p → r y x) (hnp : ¬ p → r x y)
    (h : x ∈ xs ∧ ∀ a ∈ xs, r x a) :
    (if p then y else x) ∈ xs ++ [y] ∧ ∀ a ∈ xs ++ [y], r (if p then y else x) a := by
  by_cases hyx : p
  · rw [if_pos hyx]
    refine ⟨by simp, fun a ha => ?_⟩
    rcases List.mem_append.mp ha with ha | ha
    · exact htrans a (hp hyx) (h.2 a ha)
    · rw [List.mem_singleton.mp ha]
      exact hrefl
  · rw [if_neg hyx]
    refine ⟨by simp [h.1], fun a ha => ?_⟩
    rcases List.mem_append.mp ha with ha | ha
    · exact h.2 a ha
    · rw [List.mem_singleton.mp ha]
      exact hnp hyx

theorem CmdStat.Summarises.hit {r : CmdStat} {lens : List Word} (h : r.Summarises lens)
    (len : Word) : (r.hit len).Summarises (lens ++ [len]) := by
  refine ⟨?_, by simp [CmdStat.hit], ?_, ?_⟩
  · show r.count + 1 = _
    rw [h.count, List.length_append, List.length_singleton, BitVec.ofNat_add]
    rfl
  · exact best_concat (r := (· ≤ ·)) (BitVec.le_refl len) (fun _ => BitVec.le_trans)
      BitVec.le_of_lt BitVec.not_lt.mp h.min
  · exact best_concat (r := (· ≥ ·)) (BitVec.le_refl len) (fun _ hyx hxa => BitVec.le_trans hxa hyx)
      BitVec.le_of_lt BitVec.not_lt.mp h.max

structure Tabulated (xs : List (Word × Word)) (e : Emu) : Prop where
  cmds : e.cmdStats.map (·.cmd) = (xs.map (·.1)).eraseDups.take cmdStatsMax
  entries : ∀ r ∈ e.cmdStats, r.Summarises (lengthsOf r.cmd xs)
  total : (e.cmdStats.map (·.count)).sum + e.cmdStatsLost = BitVec.ofNat 32 xs.length

theorem Tabulated.nodup {xs : List (Word × Word)} {e : Emu} (h : Tabulated xs e) :
    (e.cmdStats.map (·.cmd)).Nodup := by
  rw [h.cmds]
  exact (nodup_eraseDups _).sublist (List.take_sublist _ _)

theorem Tabulated.seen {xs : List (Word × Word)} {e : Emu} (h : Tabulated xs e) {cmd : Word}
    (hm : cmd ∈ e.cmdStats.map (·.cmd)) : cmd ∈ xs.map (·.1) := by
  rw [h.cmds] at hm
  exact List.mem_eraseDups.mp (List.mem_of_mem_take hm)

theorem Tabulated.length_le {xs : List (Word × Word)} {e : Emu} (h : Tabulated xs e) :
    e.cmdStats.length ≤ cmdStatsMax := by
  rw [← List.length_map (·.cmd), h.cmds]
  exact List.length_take_le _ _

theorem total_concat {xs : List (Word × Word)} {n : BitVec 32} (p : Word × Word)
    (h : n = BitVec.ofNat 32 xs.length) : n + 1 = BitVec.ofNat 32 (xs ++ [p]).length := by
  rw [h, List.length_append, List.length_singleton, BitVec.ofNat_add]
  rfl

theorem ne_of_absent {table : List CmdStat} {cmd : Word} {r : CmdStat}
    (hc : cmd ∉ table.map (·.cmd)) (hr : r ∈ table) : cmd ≠ r.cmd := by
  intro he
  rw [he] at hc
  exact hc (List.mem_map_of_mem hr)

theorem Tabulated.hit {xs : List (Word × Word)} {e : Emu} (h : Tabulated xs e) {cmd len : Word}
    {table : List CmdStat} (ht : cmdStatsHit cmd len e.cmdStats = some table) :
    Tabulated (xs ++ [(cmd, len)]) { e with cmdStats := table } := by
  obtain ⟨pre, r, post, he, hr, rfl⟩ := cmdStatsHit_some ht
  have hnodup := h.nodup
  have hseen : cmd ∈ xs.map (·.1) := h.seen (by simp [he, hr])
  rw [he, List.map_append, List.map_cons, List.nodup_middle, List.nodup_cons] at hnodup
  refine ⟨?_, ?_, ?_⟩
  · have hsame : (xs ++ [(cmd, len)]).map (·.1) = xs.map (·.1) ++ [cmd] := by simp
    rw [hsame, eraseDups_concat_of_mem hseen, ← h.cmds, he]
    simp [CmdStat.hit]
  · intro q hq
    simp only [List.mem_append, List.mem_cons] at hq
    have hmem : q ∈ e.cmdStats ∧ q.cmd ≠ cmd ∨ q = r.hit len := by
      rcases hq with hq | hq | hq
      · refine .inl ⟨by simp [he, hq], fun hc => hnodup.1 ?_⟩
        rw [hr, ← hc]
        exact List.mem_append_left _ (List.mem_map_of_mem hq)
      · exact .inr hq
      · refine .inl ⟨by simp [he, hq], fun hc => hnodup.1 ?_⟩
        rw [hr, ← hc]
        exact List.mem_append_right _ (List.mem_map_of_mem hq)
    rcases hmem with ⟨hq, hc⟩ | rfl
    · rw [lengthsOf_concat_other len xs (Ne.symm hc)]
      exact h.entries q hq
    · have hold := h.entries r (by simp [he])
      show (r.hit len).Summarises (lengthsOf r.cmd _)
      rw [hr] at hold ⊢
      rw [lengthsOf_concat_self]
      exact hold.hit len
  · rw [← total_concat (cmd, len) h.total, he]
    simp only [List.map_append, List.map_cons, List.sum_append, List.sum_cons, CmdStat.hit]
    abel

theorem Tabulated.insert {xs : List (Word × Word)} {e : Emu} (h : Tabulated xs e)
    {cmd : Word} (len : Word) (hc : cmd ∉ e.cmdStats.map (·.cmd))
    (hroom : e.cmdStats.length < cmdStatsMax) :
    Tabulated (xs ++ [(cmd, len)]) { e with cmdStats := e.cmdStats ++
      [{ cmd := cmd, count := 1, lastLen := len, minLen := len, maxLen := len }] } := by
  have hlen : (xs.map (·.1)).eraseDups.length < cmdStatsMax := by
    rw [← List.length_map (·.cmd), h.cmds, List.length_take] at hroom
    omega
  have hall : e.cmdStats.map (·.cmd) = (xs.map (·.1)).eraseDups := by
    rw [h.cmds, List.take_of_length_le hlen.le]
  have hnew : cmd ∉ xs.map (·.1) := by
    rwa [hall, List.mem_eraseDups] at hc
  refine ⟨?_, ?_, ?_⟩
  · rw [List.map_append, List.map_append, List.map_singleton, List.map_singleton, hall,
      eraseDups_concat_of_not_mem hnew, List.take_of_length_le]
    simp only [List.length_append, List.length_singleton]
    omega
  · intro q hq
    rcases List.mem_append.mp hq with hq | hq
    · rw [lengthsOf_concat_other len xs (ne_of_absent hc hq)]
      exact h.entries q hq
    · rw [List.mem_singleton.mp hq, lengthsOf_concat_self, lengthsOf_absent hnew]
      exact CmdStat.summarises_first cmd len
  · rw [← total_concat (cmd, len) h.total]
    simp only [List.map_append, List.map_singleton, List.sum_append, List.sum_singleton]
    abel

theorem Tabulated.lose {xs : List (Word × Word)} {e : Emu} (h : Tabulated xs e)
    {cmd : Word} (len : Word) (hc : cmd ∉ e.cmdStats.map (·.cmd))
    (hfull : cmdStatsMax ≤ e.cmdStats.length) :
    Tabulated (xs ++ [(cmd, len)]) { e with cmdStatsLost := e.cmdStatsLost + 1 } := by
  have hlen : cmdStatsMax ≤ (xs.map (·.1)).eraseDups.length := by
    rw [← List.length_map (·.cmd), h.cmds, List.length_take] at hfull
    omega
  refine ⟨?_, ?_, ?_⟩
  · rw [List.map_append, List.eraseDups_append, List.take_append_of_le_length hlen]
    exact h.cmds
  · intro q hq
    rw [lengthsOf_concat_other len xs (ne_of_absent hc hq)]
    exact h.entries q hq
  · rw [← total_concat (cmd, len) h.total]
    exact (BitVec.add_assoc _ _ _).symm

theorem Tabulated.record {xs : List (Word × Word)} {e : Emu} (h : Tabulated xs e)
    (cmd len : Word) : Tabulated (xs ++ [(cmd, len)]) (cmdStatsRecord e cmd len) := by
  unfold cmdStatsRecord
  cases ht : cmdStatsHit cmd len e.cmdStats with
  | some table => exact h.hit ht
  | none =>
    have hc := cmdStatsHit_none ht
    by_cases hroom : e.cmdStats.length < cmdStatsMax
    · simpa only [hroom, if_true] using h.insert len hc hroom
    · simpa only [hroom, if_false] using h.lose len hc (by omega)

def recordAll (e : Emu) (xs : List (Word × Word)) : Emu :=
  xs.foldl (fun e p => cmdStatsRecord e p.1 p.2) e

theorem tabulated_reset (e : Emu) : Tabulated [] (ltc6811EmuCmdStatsReset e) :=
  ⟨rfl, by simp [ltc6811EmuCmdStatsReset], rfl⟩

theorem Tabulated.records {xs : List (Word × Word)} {e : Emu} (h : Tabulated xs e)
    (ys : List (Word × Word)) : Tabulated (xs ++ ys) (recordAll e ys) := by
  induction ys generalizing xs e with
  | nil =>
    rw [List.append_nil]
    exact h
  | cons p ys ih =>
    have hrest := ih (h.record p.1 p.2)
    rw [List.append_assoc] at hrest
    exact hrest

/-- After any sequence from a reset the table lists the first commands in order of
appearance with the summary of each, and with the loss counter accounts for all of it. -/
theorem cmdStats_summarise (e : Emu) (xs : List (Word × Word)) :
    let e' := recordAll (ltc6811EmuCmdStatsReset e) xs
    let cmds := e'.cmdStats.map (·.cmd)
    cmds = (xs.map (·.1)).eraseDups.take 24 ∧ cmds.Nodup ∧ e'.cmdStats.length ≤ 24 ∧
      (∀ r ∈ e'.cmdStats, r.Summarises (lengthsOf r.cmd xs)) ∧
      (∀ cmd ∈ xs.map (·.1), cmd ∉ cmds → ∃ before after,
        xs.map (·.1) = before ++ cmd :: after ∧ cmd ∉ before ∧ 24 ≤ before.eraseDups.length) ∧
      (e'.cmdStats.map (·.count)).sum + e'.cmdStatsLost = BitVec.ofNat 32 xs.length := by
  intro e' cmds
  have h : Tabulated xs e' := (tabulated_reset e).records xs
  refine ⟨h.cmds, h.nodup, h.length_le, h.entries, ?_, h.total⟩
  intro cmd hcmd hc
  have hc' : cmd ∉ e'.cmdStats.map (·.cmd) := hc
  rw [h.cmds] at hc'
  exact seen_before hcmd hc'

end HilBench
