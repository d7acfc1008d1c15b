import Mathlib

/-! The runs of a labelled step relation, and the rules by which something is shown of all of
them. -/

namespace Labelled

variable {S L : Type}

inductive Run (Step : S → L → S → Prop) (s : S) : List L → S → Prop
  | nil : Run Step s [] s
  | snoc {ls t l u} (hr : Run Step s ls t) (hstep : Step t l u) : Run Step s (ls ++ [l]) u

variable {Step : S → L → S → Prop} {s t u : S} {l : L} {ls ls' : List L}

theorem Run.single (h : Step s l t) : Run Step s [l] t := Run.nil.snoc h

theorem Run.append (h : Run Step s ls t) (h' : Run Step t ls' u) : Run Step s (ls ++ ls') u := by
  induction h' with
  | nil =>
    rw [List.append_nil]
    exact h
  | snoc hr hstep ih =>
    rw [← List.append_assoc]
    exact ih.snoc hstep

theorem Run.cons (h : Step s l t) (h' : Run Step t ls u) : Run Step s (l :: ls) u :=
  (Run.single h).append h'

theorem Run.of_nil (h : Run Step s [] t) : t = s := by
  generalize hnil : ([] : List L) = ls at h
  cases h with
  | nil => rfl
  | snoc hr hstep => exact absurd hnil.symm (by simp)

theorem Run.of_snoc (h : Run Step s (ls ++ [l]) u) : ∃ t, Run Step s ls t ∧ Step t l u := by
  generalize hsnoc : ls ++ [l] = ls' at h
  cases h with
  | nil => exact absurd hsnoc (by simp)
  | snoc hr hstep =>
    obtain ⟨hls, hl⟩ := List.append_inj' hsnoc rfl
    cases hl
    exact ⟨_, hls ▸ hr, hstep⟩

theorem Run.split (h : Run Step s (ls ++ ls') u) : ∃ t, Run Step s ls t ∧ Run Step t ls' u := by
  induction ls' using List.reverseRecOn generalizing u with
  | nil =>
    rw [List.append_nil] at h
    exact ⟨u, h, .nil⟩
  | append_singleton ls' l ih =>
    rw [← List.append_assoc] at h
    obtain ⟨t, hr, hstep⟩ := h.of_snoc
    obtain ⟨v, hls, hls'⟩ := ih hr
    exact ⟨v, hls, hls'.snoc hstep⟩

theorem Run.of_cons (h : Run Step s (l :: ls) u) : ∃ t, Step s l t ∧ Run Step t ls u := by
  have hsplit : Run Step s ([l] ++ ls) u := h
  obtain ⟨t, hone, hr⟩ := hsplit.split
  have hsnoc : Run Step s ([] ++ [l]) t := hone
  obtain ⟨v, hnil, hstep⟩ := hsnoc.of_snoc
  rw [hnil.of_nil] at hstep
  exact ⟨t, hstep, hr⟩

/-- What every step keeps, whatever went before, holds of every run. -/
theorem Run.keeps {I : List L → S → Prop} (h : Run Step s ls t) (hs : I [] s)
    (hstep : ∀ ls t l u, I ls t → Step t l u → I (ls ++ [l]) u) : I ls t := by
  induction h with
  | nil => exact hs
  | snoc hr h ih => exact hstep _ _ _ _ ih h

end Labelled
