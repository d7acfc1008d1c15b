import Mathlib

/-! What a history has last written. -/

namespace LastWrite

variable {β α : Type} {f : β → Option α} {default a b : α} {xs : List β} {x : β}

/-- The last of the values that the history gives, or the default. -/
def lastOf (f : β → Option α) (default : α) (xs : List β) : α :=
  ((xs.filterMap f).getLast?).getD default

theorem lastOf_concat_some (h : f x = some a) : lastOf f default (xs ++ [x]) = a := by
  rw [lastOf, List.filterMap_append, List.filterMap_cons_some h, List.filterMap_nil,
    List.getLast?_concat]
  rfl

theorem lastOf_concat_none (h : f x = none) :
    lastOf f default (xs ++ [x]) = lastOf f default xs := by
  rw [lastOf, List.filterMap_append, List.filterMap_cons_none h, List.filterMap_nil,
    List.append_nil]
  rfl

theorem lastOf_concat : lastOf f default (xs ++ [x]) = (f x).getD (lastOf f default xs) := by
  cases h : f x with
  | none => exact lastOf_concat_none h
  | some a => exact lastOf_concat_some h

theorem lastOf_given (h : ∃ x ∈ xs, f x ≠ none) : lastOf f a xs = lastOf f b xs := by
  obtain ⟨x, hmem, hf⟩ := h
  obtain ⟨v, hv⟩ := Option.ne_none_iff_exists'.mp hf
  have hne : xs.filterMap f ≠ [] := List.ne_nil_of_mem (List.mem_filterMap.mpr ⟨x, hmem, hv⟩)
  rw [lastOf, lastOf, List.getLast?_eq_some_getLast hne]
  rfl

/-- Two defaults are forgotten by the same histories. -/
theorem lastOf_eq_iff (hab : a ≠ b) :
    lastOf f a xs = lastOf f b xs ↔ ∃ x ∈ xs, f x ≠ none := by
  refine ⟨fun h => ?_, lastOf_given⟩
  by_contra hnone
  have hnil : xs.filterMap f = [] := List.filterMap_eq_nil_iff.mpr fun x hx =>
    by_contra fun hf => hnone ⟨x, hx, hf⟩
  rw [lastOf, lastOf, hnil] at h
  exact hab h

/-- What is read after a write is the value written, or it was there before. -/
theorem update_cases [DecidableEq β] {g : β → α} {y : β} (h : Function.update g x a y = b) :
    (y = x ∧ a = b) ∨ (y ≠ x ∧ g y = b) := by
  by_cases hy : y = x
  · subst hy
    rw [Function.update_self] at h
    exact .inl ⟨rfl, h⟩
  · rw [Function.update_of_ne hy] at h
    exact .inr ⟨hy, h⟩

end LastWrite
