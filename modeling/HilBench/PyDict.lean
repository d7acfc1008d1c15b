import HilBench.PyText

/-! Assignment to a `dict`, and a `defaultdict(list)` that is filled one value at a time. -/

namespace PyText

variable {κ β : Type} [DecidableEq κ] {d : List (κ × β)} {k k' : κ} {v : β}

theorem dictGet_cons (e : κ × β) (d : List (κ × β)) (k : κ) :
    dictGet (e :: d) k = if e.1 = k then some e.2 else dictGet d k := by
  by_cases h : e.1 = k <;> simp [dictGet, h]

theorem dictGet_none (h : k ∉ d.map Prod.fst) : dictGet d k = none := by
  rw [dictGet, List.find?_eq_none.mpr, Option.map_none]
  intro e he hk
  exact h (List.mem_map.mpr ⟨e, he, of_decide_eq_true hk⟩)

theorem dictGet_append (d d' : List (κ × β)) (k : κ) :
    dictGet (d ++ d') k = (dictGet d k).or (dictGet d' k) := by
  induction d with
  | nil => rfl
  | cons e d ih =>
    rw [List.cons_append, dictGet_cons, dictGet_cons, ih]
    by_cases h : e.1 = k <;> simp [h]

theorem any_key_iff : d.any (·.1 = k) = true ↔ k ∈ d.map Prod.fst := by
  simp

theorem keys_dictSet (d : List (κ × β)) (k : κ) (v : β) :
    (dictSet d k v).map Prod.fst =
      if k ∈ d.map Prod.fst then d.map Prod.fst else d.map Prod.fst ++ [k] := by
  rw [dictSet]
  by_cases h : k ∈ d.map Prod.fst
  · rw [if_pos (any_key_iff.mpr h), if_pos h, List.map_map]
    refine List.map_congr_left fun e _ => ?_
    by_cases hk : e.1 = k <;> simp [hk]
  · rw [if_neg (mt any_key_iff.mp h), if_neg h, List.map_append]
    rfl

theorem nodup_dictSet (h : (d.map Prod.fst).Nodup) : ((dictSet d k v).map Prod.fst).Nodup := by
  rw [keys_dictSet]
  by_cases hk : k ∈ d.map Prod.fst
  · rwa [if_pos hk]
  · rw [if_neg hk]
    rw [← List.concat_eq_append]
    exact List.Nodup.concat hk h

theorem dictGet_map_self (h : k ∈ d.map Prod.fst) :
    dictGet (d.map fun e => if e.1 = k then (k, v) else e) k = some v := by
  induction d with
  | nil => simp at h
  | cons e d ih =>
    rw [List.map_cons, dictGet_cons]
    by_cases hk : e.1 = k
    · rw [if_pos hk, if_pos rfl]
    · rw [if_neg hk, if_neg hk]
      refine ih ?_
      rcases List.mem_cons.mp h with h | h
      · exact absurd h.symm hk
      · exact h

theorem dictGet_map_other (h : k' ≠ k) :
    dictGet (d.map fun e => if e.1 = k then (k, v) else e) k' = dictGet d k' := by
  induction d with
  | nil => rfl
  | cons e d ih =>
    rw [List.map_cons, dictGet_cons, dictGet_cons, ih]
    by_cases hk : e.1 = k
    · have hne : ¬ e.1 = k' := fun hh => h (hh.symm.trans hk)
      rw [if_pos hk, if_neg hne, if_neg (Ne.symm h)]
    · rw [if_neg hk]

theorem dictGet_dictSet (d : List (κ × β)) (k : κ) (v : β) (k' : κ) :
    dictGet (dictSet d k v) k' = if k' = k then some v else dictGet d k' := by
  rw [dictSet]
  by_cases h : d.any (·.1 = k) = true
  · rw [if_pos h]
    by_cases hk : k' = k
    · subst hk
      rw [if_pos rfl, dictGet_map_self (any_key_iff.mp h)]
    · rw [if_neg hk, dictGet_map_other hk]
  · have hnone := dictGet_none fun hk => h (any_key_iff.mpr hk)
    rw [if_neg h, dictGet_append]
    by_cases hk : k' = k
    · subst hk
      rw [hnone, if_pos rfl, dictGet_cons, if_pos rfl, Option.none_or]
    · rw [if_neg hk, dictGet_cons, if_neg (Ne.symm hk)]
      exact Option.or_none

/-- The items of a `dict` whose keys are distinct. -/
theorem mem_iff_dictGet (h : (d.map Prod.fst).Nodup) : (k, v) ∈ d ↔ dictGet d k = some v := by
  induction d with
  | nil => simp [dictGet]
  | cons e d ih =>
    rw [List.map_cons, List.nodup_cons] at h
    rw [dictGet_cons, List.mem_cons, ih h.2]
    by_cases hk : e.1 = k
    · subst hk
      rw [if_pos rfl, dictGet_none h.1, Option.some.injEq, Prod.ext_iff]
      simp [eq_comm]
    · have hne : ¬ (k, v) = e := fun hh => hk (hh ▸ rfl)
      simp [hne, hk]

/-! `d[k].append(v)` on a `defaultdict(list)`. -/

def dictAppend (d : List (κ × List β)) (k : κ) (v : β) : List (κ × List β) :=
  dictSet d k ((dictGet d k).getD [] ++ [v])

def collect (pairs : List (κ × β)) : List (κ × List β) :=
  pairs.foldl (fun d p => dictAppend d p.1 p.2) []

theorem collect_concat (pairs : List (κ × β)) (p : κ × β) :
    collect (pairs ++ [p]) = dictAppend (collect pairs) p.1 p.2 := by
  rw [collect, List.foldl_append]
  rfl

theorem nodup_collect (pairs : List (κ × β)) : ((collect pairs).map Prod.fst).Nodup := by
  induction pairs using List.reverseRecOn with
  | nil => exact List.nodup_nil
  | append_singleton pairs p ih =>
    rw [collect_concat]
    exact nodup_dictSet ih

def valuesOf (pairs : List (κ × β)) (k : κ) : List β := (pairs.filter (·.1 = k)).map Prod.snd

theorem dictGet_collect (pairs : List (κ × β)) (k : κ) :
    dictGet (collect pairs) k =
      if valuesOf pairs k = [] then none else some (valuesOf pairs k) := by
  induction pairs using List.reverseRecOn with
  | nil => rfl
  | append_singleton pairs p ih =>
    rw [collect_concat, dictAppend, dictGet_dictSet]
    by_cases hk : k = p.1
    · subst hk
      have hvalues : valuesOf (pairs ++ [p]) p.1 = valuesOf pairs p.1 ++ [p.2] := by
        simp [valuesOf]
      have hget : (dictGet (collect pairs) p.1).getD [] = valuesOf pairs p.1 := by
        rw [ih]
        by_cases h : valuesOf pairs p.1 = []
        · rw [if_pos h, h]
          rfl
        · rw [if_neg h]
          rfl
      rw [if_pos rfl, hget, hvalues, if_neg (by simp)]
    · have hvalues : valuesOf (pairs ++ [p]) k = valuesOf pairs k := by
        simp [valuesOf, Ne.symm hk]
      rw [if_neg hk, hvalues, ih]

theorem mem_collect {pairs : List (κ × β)} {vs : List β} :
    (k, vs) ∈ collect pairs ↔ vs ≠ [] ∧ valuesOf pairs k = vs := by
  rw [mem_iff_dictGet (nodup_collect pairs), dictGet_collect]
  by_cases h : valuesOf pairs k = []
  · rw [if_pos h, h]
    simp [eq_comm]
  · rw [if_neg h, Option.some.injEq]
    constructor
    · rintro rfl
      exact ⟨h, rfl⟩
    · exact And.right

theorem valuesOf_length (pairs : List (κ × β)) (k : κ) :
    (valuesOf pairs k).length = (pairs.map Prod.fst).countP (· = k) := by
  rw [valuesOf, List.length_map, ← List.countP_eq_length_filter, List.countP_map]
  rfl

/-- The keys whose lists have such lengths. -/
theorem mem_keys_collect {pairs : List (κ × β)} (p : Nat → Prop) [DecidablePred p] :
    k ∈ ((collect pairs).filter fun e => p e.2.length).map Prod.fst ↔
      0 < (pairs.map Prod.fst).countP (· = k) ∧ p ((pairs.map Prod.fst).countP (· = k)) := by
  rw [List.mem_map, ← valuesOf_length, List.length_pos_iff]
  constructor
  · rintro ⟨⟨k', vs⟩, he, rfl⟩
    obtain ⟨hmem, hp⟩ := List.mem_filter.mp he
    obtain ⟨hne, rfl⟩ := mem_collect.mp hmem
    exact ⟨hne, of_decide_eq_true hp⟩
  · rintro ⟨hne, hp⟩
    refine ⟨(k, valuesOf pairs k), List.mem_filter.mpr ⟨?_, decide_eq_true hp⟩, rfl⟩
    exact mem_collect.mpr ⟨hne, rfl⟩

theorem nodup_keys_collect (pairs : List (κ × β)) (p : κ × List β → Bool) :
    (((collect pairs).filter p).map Prod.fst).Nodup :=
  (nodup_collect pairs).sublist (List.filter_sublist.map Prod.fst)

end PyText
