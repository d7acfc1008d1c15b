import HilBench.JsonScan

/-! What `json.loads` makes of a text that `json.dumps` wrote. -/

namespace PyJson

/-! Documents. -/

section
variable (g : PyFloat → PyFloat)

def normFloat : PyFloat → PyFloat
  | .decimal neg m e => g (.decimal neg m e)
  | x => x

mutual

/-- A document as it comes back: pairs of surrogates are joined, of the entries with one key
the last is kept in the place of the first, a float is what its `repr` reads as. -/
def norm : Json → Json
  | .null => .null
  | .bool b => .bool b
  | .int n => .int n
  | .float x => .float (normFloat g x)
  | .str s => .str (joinPairs s)
  | .arr xs => .arr (normList xs)
  | .obj kvs => .obj (normFields [] kvs)

def normList : List Json → List Json
  | [] => []
  | x :: xs => norm x :: normList xs

def normFields (acc : List (PyStr × Json)) : List (PyStr × Json) → List (PyStr × Json)
  | [] => acc
  | (k, v) :: kvs => normFields (PyText.dictSet acc (joinPairs k) (norm v)) kvs

end

end

theorem joinPairs_valid {s : PyStr} (h : ∀ c ∈ s, c ≤ 0x10FFFF) :
    ∀ c ∈ joinPairs s, c ≤ 0x10FFFF := by
  induction s using joinPairs.induct with
  | case1 hi lo s hp ih =>
    rw [joinPairs, if_pos hp, List.forall_mem_cons]
    refine ⟨?_, ih fun c hc => h c (List.mem_cons_of_mem _ (List.mem_cons_of_mem _ hc))⟩
    simp only [isHigh, isLow, Bool.and_eq_true, decide_eq_true_eq] at hp
    unfold pairValue
    omega
  | case2 hi lo s hp ih =>
    rw [joinPairs, if_neg hp, List.forall_mem_cons]
    exact ⟨h hi List.mem_cons_self, ih fun c hc => h c (List.mem_cons_of_mem _ hc)⟩
  | case3 s hne =>
    rw [joinPairs]
    · exact h
    · exact hne

mutual

/-- A document of Python that the limits let through, with `depth` levels of containers. -/
def Fits (L : Limits) (depth : Nat) : Json → Prop
  | .null | .bool _ | .float _ => True
  | .int n => (Nat.toDigits 10 n.natAbs).length ≤ L.maxDigits
  | .str s => ∀ c ∈ s, c ≤ 0x10FFFF
  | .arr xs =>
    match depth with
    | 0 => False
    | depth + 1 => FitsList L depth xs
  | .obj kvs =>
    match depth with
    | 0 => False
    | depth + 1 => FitsFields L depth kvs

def FitsList (L : Limits) (depth : Nat) : List Json → Prop
  | [] => True
  | x :: xs => Fits L depth x ∧ FitsList L depth xs

def FitsFields (L : Limits) (depth : Nat) : List (PyStr × Json) → Prop
  | [] => True
  | (k, v) :: kvs => (∀ c ∈ k, c ≤ 0x10FFFF) ∧ Fits L depth v ∧ FitsFields L depth kvs

end

/-- The `repr` of a float is a number, which is read as the float that `g` gives. -/
def ReprReads (L : Limits) (fr : FloatRepr) (g : PyFloat → PyFloat) : Prop :=
  ∀ neg m e, scanNumber L ⟨fr.val (.decimal neg m e), 0⟩ =
    .ok (.float (g (.decimal neg m e)), ⟨[], (fr.val (.decimal neg m e)).length⟩)

/-- The limits have no part in it. -/
theorem ReprReads.limits {L L' : Limits} {fr : FloatRepr} {g : PyFloat → PyFloat}
    (h : ReprReads L fr g) : ReprReads L' fr g := by
  intro neg m e
  have hh := h neg m e
  unfold scanNumber at hh ⊢
  cases hi : intPart (if (fr.val (.decimal neg m e)).head? = some 0x2D then
      (fr.val (.decimal neg m e)).tail else fr.val (.decimal neg m e)) with
  | none => simp [hi] at hh
  | some r =>
    simp only [decide_eq_true_eq, hi] at hh ⊢
    split at hh
    · split at hh <;> cases hh
    · rename_i hx
      rw [if_neg hx]
      exact hh

section
variable {L : Limits} {fr : FloatRepr} {g : PyFloat → PyFloat}

theorem skipWs_cons {c : Nat} (h : isWs c = false) (s : PyStr) (pos : Nat) :
    Cursor.skipWs ⟨c :: s, pos⟩ = ⟨c :: s, pos⟩ := by
  simp [Cursor.skipWs, h]

theorem skipWs_space {c : Nat} (h : isWs c = false) (s : PyStr) (pos : Nat) :
    Cursor.skipWs ⟨0x20 :: c :: s, pos⟩ = ⟨c :: s, pos + 1⟩ := by
  have hs : isWs 0x20 = true := rfl
  simp [Cursor.skipWs, h, hs]

theorem scan_number {c : Cursor} {r : Json × Cursor} (h : scanNumber L c = .ok r)
    (fuel depth : Nat) : scan L (fuel + 1) .value depth c = .ok r := by
  refine scan_atom fuel depth (scanAtom_number h) fun x t hx => ?_
  obtain ⟨y, u, hy, hd⟩ := scanNumber_head h
  obtain ⟨rfl, -⟩ := List.cons.inj (hx.symm.trans hy)
  rcases hd with hd | ⟨rfl, -⟩
  · simp only [isDigit, Bool.and_eq_true, decide_eq_true_eq] at hd
    omega
  · decide

/-- A spelled document starts with a character of its own. -/
theorem spell_head (hf : ReprReads L fr g) {depth : Nat} {v : Json} (hv : Fits L depth v) :
    ∃ c t, spell fr v = c :: t ∧ isWs c = false ∧ c ≠ 0x5D ∧ c ≠ 0x7D := by
  have hnum : ∀ {t : PyStr} {pos : Nat} {r : Json × Cursor}, scanNumber L ⟨t, pos⟩ = .ok r →
      ∃ x u, t = x :: u ∧ isWs x = false ∧ x ≠ 0x5D ∧ x ≠ 0x7D := by
    intro t pos r ht
    obtain ⟨x, u, hx, hd⟩ := scanNumber_head ht
    refine ⟨x, u, hx, ?_⟩
    rcases hd with hd | ⟨rfl, -⟩
    · simp only [isDigit, Bool.and_eq_true, decide_eq_true_eq] at hd
      simp only [isWs, Bool.or_eq_false_iff, decide_eq_false_iff_not]
      omega
    · decide
  cases v with
  | null => exact ⟨_, _, rfl, by decide⟩
  | bool b => cases b <;> exact ⟨_, _, rfl, by decide⟩
  | int n =>
    rw [Fits] at hv
    exact hnum (scanNumber_intText L hv 0)
  | float x =>
    cases x with
    | nan => exact ⟨_, _, rfl, by decide⟩
    | infinite neg => cases neg <;> exact ⟨_, _, rfl, by decide⟩
    | decimal neg m e => exact hnum (hf neg m e)
  | str s => exact ⟨_, _, rfl, by decide⟩
  | arr xs => exact ⟨_, _, rfl, by decide⟩
  | obj kvs => exact ⟨_, _, rfl, by decide⟩

theorem scanAtom_constant {k : PyStr × Json} (hk : k ∈ constants) (rest : PyStr) (pos : Nat) :
    scanAtom L ⟨k.1 ++ rest, pos⟩ = .ok (k.2, ⟨rest, pos + k.1.length⟩) := by
  simp only [constants, List.mem_cons, List.not_mem_nil, or_false] at hk
  rcases hk with rfl | rfl | rfl | rfl | rfl | rfl <;> rfl

theorem scan_constant {k : PyStr × Json} (hk : k ∈ constants) (fuel depth : Nat) (rest : PyStr)
    (pos : Nat) : scan L (fuel + 1) .value depth ⟨k.1 ++ rest, pos⟩ =
      .ok (k.2, ⟨rest, pos + k.1.length⟩) := by
  refine scan_atom fuel depth (scanAtom_constant hk rest pos) fun x t hx => ?_
  simp only [constants, List.mem_cons, List.not_mem_nil, or_false] at hk
  rcases hk with rfl | rfl | rfl | rfl | rfl | rfl <;> cases hx <;> decide

theorem quote_append (s rest : PyStr) :
    quote s ++ rest = 0x22 :: (s.flatMap escapeChar ++ 0x22 :: rest) := by
  simp [quote]

theorem quote_length (s : PyStr) : (quote s).length = (s.flatMap escapeChar).length + 2 := by
  simp [quote]

theorem spell_arr (fr : FloatRepr) (xs : List Json) (rest : PyStr) :
    spell fr (.arr xs) ++ rest = 0x5B :: (spellList fr xs ++ 0x5D :: rest) := by
  rw [spell, List.append_assoc, List.append_assoc]
  rfl

theorem spell_obj (fr : FloatRepr) (kvs : List (PyStr × Json)) (rest : PyStr) :
    spell fr (.obj kvs) ++ rest = 0x7B :: (spellFields fr kvs ++ 0x7D :: rest) := by
  rw [spell, List.append_assoc, List.append_assoc]
  rfl

theorem spellList_head (hf : ReprReads L fr g) {depth : Nat} {x : Json} {xs : List Json}
    (hv : FitsList L depth (x :: xs)) (rest : PyStr) :
    ∃ c t, spellList fr (x :: xs) ++ rest = c :: t ∧ isWs c = false ∧ c ≠ 0x5D := by
  rw [FitsList] at hv
  obtain ⟨c, t, ht, hw, hc, -⟩ := spell_head hf hv.1
  cases xs with
  | nil => exact ⟨c, t ++ rest, by rw [spellList, ht, List.cons_append], hw, hc⟩
  | cons y xs =>
    exact ⟨c, t ++ (pyStr ", " ++ (spellList fr (y :: xs) ++ rest)),
      by rw [spellList, ht, List.append_assoc, List.append_assoc, List.cons_append], hw, hc⟩

theorem spellFields_head (fr : FloatRepr) (k : PyStr) (v : Json) (kvs : List (PyStr × Json))
    (rest : PyStr) :
    ∃ t, spellFields fr ((k, v) :: kvs) ++ rest = 0x22 :: t := by
  cases kvs with
  | nil => exact ⟨_, rfl⟩
  | cons e kvs => exact ⟨_, rfl⟩

theorem scansField_spell {k t : PyStr} (hk : ∀ c ∈ k, c ≤ 0x10FFFF)
    (ht : ∃ c u, t = c :: u ∧ isWs c = false) {fuel depth pos : Nat} {v : Json} {c' : Cursor}
    (hv : scan L fuel .value depth ⟨t, pos + (quote k).length + 2⟩ = .ok (v, c')) :
    ScansField L fuel depth (k.flatMap escapeChar ++ 0x22 :: 0x3A :: 0x20 :: t) pos (joinPairs k)
      v c' := by
  obtain ⟨c, u, rfl, hw⟩ := ht
  refine ⟨_, 0x20 :: c :: u, scanString_escape hk pos _ [] (pos + 1), ?_, ?_⟩
  · rw [skipWs_cons (by decide)]
  · rw [skipWs_cons (c := 0x3A) (by decide), skipWs_space hw, ← hv, quote_length]
    congr 2
    dsimp only
    omega

mutual

theorem scan_spell (hf : ReprReads L fr g) : ∀ (v : Json) (fuel : Nat) (rest : PyStr) (pos : Nat)
    {depth : Nat}, Fits L depth v → Stops rest → 2 * (spell fr v ++ rest).length + 1 ≤ fuel →
    scan L fuel .value depth ⟨spell fr v ++ rest, pos⟩ =
      .ok (norm g v, ⟨rest, pos + (spell fr v).length⟩)
  | .null, fuel + 1, rest, pos, depth, _, _, _ =>
    scan_constant (k := (pyStr "null", .null)) (by simp [constants]) fuel depth rest pos
  | .bool b, fuel + 1, rest, pos, depth, _, _, _ => by
    cases b with
    | true =>
      exact scan_constant (k := (pyStr "true", .bool true)) (by simp [constants]) fuel depth rest
        pos
    | false =>
      exact scan_constant (k := (pyStr "false", .bool false)) (by simp [constants]) fuel depth rest
        pos
  | .int n, fuel + 1, rest, pos, depth, hv, hr, _ => by
    rw [Fits] at hv
    exact scan_number (hr.scanNumber (scanNumber_intText L hv 0) pos) fuel depth
  | .float x, fuel + 1, rest, pos, depth, _, hr, _ => by
    cases x with
    | nan =>
      exact scan_constant (k := (pyStr "NaN", .float .nan)) (by simp [constants]) fuel depth rest
        pos
    | infinite neg =>
      cases neg with
      | true =>
        exact scan_constant (k := (pyStr "-Infinity", .float (.infinite true)))
          (by simp [constants]) fuel depth rest pos
      | false =>
        exact scan_constant (k := (pyStr "Infinity", .float (.infinite false)))
          (by simp [constants]) fuel depth rest pos
    | decimal neg m e => exact scan_number (hr.scanNumber (hf neg m e) pos) fuel depth
  | .str s, fuel + 1, rest, pos, depth, hv, _, _ => by
    rw [Fits] at hv
    have hs := scanString_escape hv pos rest [] (pos + 1)
    have hl := quote_length s
    rw [spell, quote_append, scan]
    simp only [hs, Except.map, List.reverse_nil, List.nil_append, norm]
    rw [hl]
    congr 3
    omega
  | .arr [], fuel + 1, rest, pos, 0, hv, _, hl => by simp [Fits] at hv
  | .arr [], fuel + 1, rest, pos, depth + 1, hv, _, hl => rfl
  | .arr (x :: xs), fuel + 1, rest, pos, 0, hv, _, hl => by simp [Fits] at hv
  | .arr (x :: xs), fuel + 1, rest, pos, depth + 1, hv, _, hl => by
    rw [Fits] at hv
    obtain ⟨c, t, ht, hw, hc⟩ := spellList_head hf hv (0x5D :: rest)
    rw [spell_arr] at hl ⊢
    have hrec := scan_spellList hf (x :: xs) [] fuel rest (pos + 1) (List.cons_ne_nil x xs) hv
      (by simp only [List.length_cons] at hl ⊢; omega)
    rw [ht] at hrec ⊢
    have hlen : (spell fr (.arr (x :: xs))).length = (spellList fr (x :: xs)).length + 2 := by
      have he := congrArg List.length (spell_arr fr (x :: xs) [])
      simpa using he
    rw [scan_array (skipWs_cons hw t _) fun u hu => hc (List.cons.inj hu).1, hrec, hlen, norm]
    rw [List.nil_append]
    congr 3
    omega
  | .obj [], fuel + 1, rest, pos, 0, hv, _, hl => by simp [Fits] at hv
  | .obj [], fuel + 1, rest, pos, depth + 1, hv, _, hl => rfl
  | .obj (e :: kvs), fuel + 1, rest, pos, 0, hv, _, hl => by simp [Fits] at hv
  | .obj ((k, v) :: kvs), fuel + 1, rest, pos, depth + 1, hv, _, hl => by
    rw [Fits] at hv
    obtain ⟨t, ht⟩ := spellFields_head fr k v kvs (0x7D :: rest)
    rw [spell_obj] at hl ⊢
    have hrec := scan_spellFields hf ((k, v) :: kvs) [] fuel rest (pos + 1)
      (List.cons_ne_nil _ _) hv (by simp only [List.length_cons] at hl ⊢; omega)
    have hlen : (spell fr (.obj ((k, v) :: kvs))).length =
        (spellFields fr ((k, v) :: kvs)).length + 2 := by
      have he := congrArg List.length (spell_obj fr ((k, v) :: kvs) [])
      simpa using he
    rw [ht] at hrec ⊢
    rw [scan_object (skipWs_cons (by decide) t _) (fun u hu => by cases hu), hrec, hlen, norm]
    congr 3
    omega

theorem scan_spellList (hf : ReprReads L fr g) : ∀ (xs acc : List Json) (fuel : Nat)
    (rest : PyStr) (pos : Nat) {depth : Nat}, xs ≠ [] → FitsList L depth xs →
    2 * (spellList fr xs ++ 0x5D :: rest).length + 2 ≤ fuel →
    scan L fuel (.items acc) depth ⟨spellList fr xs ++ 0x5D :: rest, pos⟩ =
      .ok (.arr (acc ++ normList g xs), ⟨rest, pos + (spellList fr xs).length + 1⟩)
  | [], acc, fuel, rest, pos, _, hne, _, _ => absurd rfl hne
  | [x], acc, fuel + 1, rest, pos, depth, _, hv, hl => by
    rw [FitsList] at hv
    rw [spellList] at hl ⊢
    have hx := scan_spell hf x fuel _ pos hv.1 (stops_cons (c := 0x5D) (by decide) rest)
      (Nat.le_of_succ_le_succ hl)
    rw [scan_item_last hx (skipWs_cons (by decide) _ _)]
    rfl
  | x :: y :: xs, acc, fuel + 1, rest, pos, depth, _, hv, hl => by
    rw [FitsList] at hv
    have hsp : spellList fr (x :: y :: xs) ++ 0x5D :: rest =
        spell fr x ++ 0x2C :: 0x20 :: (spellList fr (y :: xs) ++ 0x5D :: rest) := by
      rw [spellList, List.append_assoc, List.append_assoc]
      rfl
    obtain ⟨c, t, ht, hw, -⟩ := spellList_head hf hv.2 (0x5D :: rest)
    rw [hsp] at hl ⊢
    have hx := scan_spell hf x fuel _ pos hv.1 (stops_cons (c := 0x2C) (by decide)
      (0x20 :: (spellList fr (y :: xs) ++ 0x5D :: rest))) (Nat.le_of_succ_le_succ hl)
    have hrec := scan_spellList hf (y :: xs) (acc ++ [norm g x]) fuel rest
      (pos + (spell fr x).length + 2) (List.cons_ne_nil y xs) hv.2
      (by simp only [List.length_append, List.length_cons] at hl ⊢; omega)
    rw [scan_item_next hx (skipWs_cons (by decide) _ _)]
    rw [ht] at hrec ⊢
    rw [skipWs_space hw, hrec]
    have hlen := congrArg List.length hsp
    simp only [List.length_append, List.length_cons] at hlen
    simp only [normList, List.append_assoc, List.singleton_append]
    congr 3
    omega

theorem scan_spellFields (hf : ReprReads L fr g) : ∀ (kvs acc : List (PyStr × Json))
    (fuel : Nat) (rest : PyStr) (pos : Nat) {depth : Nat}, kvs ≠ [] → FitsFields L depth kvs →
    2 * (spellFields fr kvs ++ 0x7D :: rest).length + 2 ≤ fuel →
    scan L fuel (.fields acc) depth ⟨spellFields fr kvs ++ 0x7D :: rest, pos⟩ =
      .ok (.obj (normFields g acc kvs), ⟨rest, pos + (spellFields fr kvs).length + 1⟩)
  | [], acc, fuel, rest, pos, _, hne, _, _ => absurd rfl hne
  | [(k, v)], acc, fuel + 1, rest, pos, depth, _, hv, hl => by
    rw [FitsFields] at hv
    have hsp : spellFields fr [(k, v)] ++ 0x7D :: rest = 0x22 :: (k.flatMap escapeChar ++
        0x22 :: 0x3A :: 0x20 :: (spell fr v ++ 0x7D :: rest)) := by
      rw [spellFields, List.append_assoc, List.append_assoc, quote_append]
      rfl
    obtain ⟨c, u, hu, hw, -⟩ := spell_head hf hv.2.1
    rw [hsp] at hl ⊢
    have hx := scan_spell hf v fuel _ (pos + (quote k).length + 2) hv.2.1
      (stops_cons (c := 0x7D) (by decide) rest)
      (by simp only [List.length_append, List.length_cons] at hl ⊢; omega)
    have hfield := scansField_spell hv.1 ⟨c, u ++ 0x7D :: rest, by rw [hu]; rfl, hw⟩ hx
    rw [scan_field_last hfield (skipWs_cons (by decide) _ _)]
    have hlen := congrArg List.length hsp
    have hq := quote_length k
    simp only [List.length_append, List.length_cons] at hlen
    simp only [normFields]
    congr 3
    omega
  | (k, v) :: (k', v') :: kvs, acc, fuel + 1, rest, pos, depth, _, hv, hl => by
    rw [FitsFields] at hv
    have hsp : spellFields fr ((k, v) :: (k', v') :: kvs) ++ 0x7D :: rest =
        0x22 :: (k.flatMap escapeChar ++ 0x22 :: 0x3A :: 0x20 ::
          (spell fr v ++ 0x2C :: 0x20 :: (spellFields fr ((k', v') :: kvs) ++ 0x7D :: rest))) := by
      rw [spellFields, List.append_assoc, List.append_assoc, List.append_assoc, List.append_assoc,
        quote_append]
      rfl
    obtain ⟨c, u, hu, hw, -⟩ := spell_head hf hv.2.1
    obtain ⟨t, ht⟩ := spellFields_head fr k' v' kvs (0x7D :: rest)
    rw [hsp] at hl ⊢
    have hx := scan_spell hf v fuel _ (pos + (quote k).length + 2) hv.2.1
      (stops_cons (c := 0x2C) (by decide)
        (0x20 :: (spellFields fr ((k', v') :: kvs) ++ 0x7D :: rest)))
      (by simp only [List.length_append, List.length_cons] at hl ⊢; omega)
    have hfield := scansField_spell hv.1 ⟨c, u ++ _, by rw [hu]; rfl, hw⟩ hx
    have hrec := scan_spellFields hf ((k', v') :: kvs) (PyText.dictSet acc (joinPairs k) (norm g v))
      fuel rest (pos + (quote k).length + 2 + (spell fr v).length + 2) (List.cons_ne_nil _ _) hv.2.2
      (by simp only [List.length_append, List.length_cons] at hl ⊢; omega)
    rw [scan_field_next hfield (skipWs_cons (by decide) _ _)]
    rw [ht] at hrec ⊢
    rw [skipWs_space (by decide), hrec]
    have hlen := congrArg List.length hsp
    have hq := quote_length k
    simp only [List.length_append, List.length_cons] at hlen
    simp only [normFields]
    congr 3
    omega

end

/-- What `json.loads` makes of what `json.dumps` wrote, with or without the end of the line. -/
theorem loads_spell (hf : ReprReads L fr g) {v : Json} (hv : Fits L L.loadsDepth v) {t : PyStr}
    (ht : t = [] ∨ t = [0x0A]) : loads L (spell fr v ++ t) = .ok (norm g v) := by
  obtain ⟨c, u, hu, hw, -⟩ := spell_head hf hv
  have hbom : (spell fr v ++ t).head? ≠ some 0xFEFF := by
    intro he
    rw [hu] at he
    have hp := spell_printable fr v c (hu ▸ List.mem_cons_self)
    cases he
    omega
  have hstop : Stops t := by
    rcases ht with rfl | rfl
    · exact stops_nil
    · exact stops_cons (by decide) []
  have hscan := scan_spell hf v (2 * (spell fr v ++ t).length + 2) t 0 hv hstop (Nat.le_succ _)
  have hskip : Cursor.skipWs ⟨spell fr v ++ t, 0⟩ = ⟨spell fr v ++ t, 0⟩ := by
    rw [hu, List.cons_append, skipWs_cons hw]
  have hend : ∀ pos, (Cursor.skipWs ⟨t, pos⟩).rest = [] := by
    intro pos
    rcases ht with rfl | rfl <;> rfl
  rw [loads, if_neg hbom, hskip, hscan]
  simp only [hend, if_true]

end

/-! What `json.dumps` takes, `json.loads` takes under limits that are no lower. -/

/-- The code points of a `str`. -/
abbrev ValidStr (s : PyStr) : Prop := ∀ c ∈ s, c ≤ 0x10FFFF

theorem Printable.validStr {s : PyStr} (h : Printable s) : ValidStr s :=
  fun c hc => (h c hc).2.trans (by decide)

def ValidKey : PyKey → Prop
  | .str s => ValidStr s
  | _ => True

mutual

def ValidObj : PyObj → Prop
  | .str s => ValidStr s
  | .list xs => ValidList xs
  | .dict kvs => ValidEntries kvs
  | _ => True

def ValidList : List PyObj → Prop
  | [] => True
  | x :: xs => ValidObj x ∧ ValidList xs

def ValidEntries : List (PyKey × PyObj) → Prop
  | [] => True
  | (k, x) :: kvs => ValidKey k ∧ ValidObj x ∧ ValidEntries kvs

end

section
variable {L : Limits} {fr : FloatRepr} {default : Foreign → Except DumpError PyStr}

theorem intRepr_ok {n : Int} {t : PyStr} (h : intRepr L n = .ok t) :
    (Nat.toDigits 10 n.natAbs).length ≤ L.maxDigits ∧ t = intText n := by
  unfold intRepr at h
  split at h
  · cases h
  · cases h
    exact ⟨by omega, rfl⟩

theorem keyText_valid {k : PyKey} (hk : ValidKey k) {t : PyStr} (h : keyText L fr k = .ok t) :
    ValidStr t := by
  cases k with
  | str s =>
    cases h
    exact hk
  | int n =>
    rw [(intRepr_ok h).2]
    exact (intText_printable n).validStr
  | float x =>
    cases h
    exact (fr.property x).validStr
  | bool b =>
    cases h
    have hb : ∀ b : Bool, ValidStr (if b then pyStr "true" else pyStr "false") := by decide
    exact hb b
  | none =>
    cases h
    have hn : ValidStr (pyStr "null") := by decide
    exact hn
  | other t => cases h

mutual

theorem encode_fits (hd : ∀ x s, default x = .ok s → ValidStr s) : ∀ (o : PyObj) {depth : Nat}
    {v : Json}, ValidObj o → encode L fr default depth o = .ok v → Fits L depth v
  | .none, _, _, _, h => by cases h; trivial
  | .bool b, _, _, _, h => by cases h; trivial
  | .int n, _, _, _, h => by
    rw [encode] at h
    cases hr : intRepr L n with
    | error e => rw [hr] at h; cases h
    | ok t =>
      rw [hr] at h
      cases h
      exact (intRepr_ok hr).1
  | .float x, _, _, _, h => by cases h; trivial
  | .str s, _, _, ho, h => by cases h; exact ho
  | .list xs, depth, v, ho, h => by
    cases depth with
    | zero => cases h
    | succ depth =>
      rw [encode] at h
      cases hr : encodeList L fr default depth xs with
      | error e => simp only [hr] at h; cases h
      | ok ys =>
        simp only [hr] at h
        cases h
        exact encodeList_fits hd xs ho hr
  | .dict kvs, depth, v, ho, h => by
    cases depth with
    | zero => cases h
    | succ depth =>
      rw [encode] at h
      cases hr : encodeFields L fr default depth kvs with
      | error e => simp only [hr] at h; cases h
      | ok ys =>
        simp only [hr] at h
        cases h
        exact encodeFields_fits hd kvs ho hr
  | .enclosing, _, _, _, h => by cases h
  | .foreign x, _, _, _, h => by
    rw [encode] at h
    cases hr : default x with
    | error e => rw [hr] at h; cases h
    | ok t =>
      rw [hr] at h
      cases h
      exact hd x t hr

theorem encodeList_fits (hd : ∀ x s, default x = .ok s → ValidStr s) : ∀ (xs : List PyObj)
    {depth : Nat} {ys : List Json}, ValidList xs → encodeList L fr default depth xs = .ok ys →
    FitsList L depth ys
  | [], _, _, _, h => by cases h; trivial
  | x :: xs, depth, ys, ho, h => by
    rw [encodeList] at h
    cases hx : encode L fr default depth x with
    | error e => rw [hx] at h; cases h
    | ok v =>
      cases hxs : encodeList L fr default depth xs with
      | error e => simp only [hx, Except.bind, hxs] at h; cases h
      | ok vs =>
        simp only [hx, Except.bind, hxs] at h
        cases h
        exact ⟨encode_fits hd x ho.1 hx, encodeList_fits hd xs ho.2 hxs⟩

theorem encodeFields_fits (hd : ∀ x s, default x = .ok s → ValidStr s) :
    ∀ (kvs : List (PyKey × PyObj)) {depth : Nat} {ys : List (PyStr × Json)}, ValidEntries kvs →
    encodeFields L fr default depth kvs = .ok ys → FitsFields L depth ys
  | [], _, _, _, h => by cases h; trivial
  | (k, x) :: kvs, depth, ys, ho, h => by
    rw [encodeFields] at h
    cases hk : keyText L fr k with
    | error e => rw [hk] at h; cases h
    | ok t =>
      cases hx : encode L fr default depth x with
      | error e => simp only [hk, Except.bind, hx] at h; cases h
      | ok v =>
        cases hxs : encodeFields L fr default depth kvs with
        | error e => simp only [hk, Except.bind, hx, hxs] at h; cases h
        | ok vs =>
          simp only [hk, Except.bind, hx, hxs] at h
          cases h
          exact ⟨keyText_valid ho.1 hk, encode_fits hd x ho.2.1 hx,
            encodeFields_fits hd kvs ho.2.2 hxs⟩

end

end

section
variable {L L' : Limits}

mutual

theorem Fits.mono (hdigits : L.maxDigits ≤ L'.maxDigits) : ∀ (v : Json) {depth depth' : Nat},
    Fits L depth v → depth ≤ depth' → Fits L' depth' v
  | .null, _, _, _, _ | .bool _, _, _, _, _ | .float _, _, _, _, _ => trivial
  | .int n, _, _, h, _ => le_trans (b := L.maxDigits) h hdigits
  | .str s, _, _, h, _ => h
  | .arr xs, depth, depth', h, hd => by
    cases depth with
    | zero => exact absurd h (by simp [Fits])
    | succ depth =>
      cases depth' with
      | zero => omega
      | succ depth' => exact FitsList.mono hdigits xs h (Nat.le_of_succ_le_succ hd)
  | .obj kvs, depth, depth', h, hd => by
    cases depth with
    | zero => exact absurd h (by simp [Fits])
    | succ depth =>
      cases depth' with
      | zero => omega
      | succ depth' => exact FitsFields.mono hdigits kvs h (Nat.le_of_succ_le_succ hd)

theorem FitsList.mono (hdigits : L.maxDigits ≤ L'.maxDigits) : ∀ (xs : List Json)
    {depth depth' : Nat}, FitsList L depth xs → depth ≤ depth' → FitsList L' depth' xs
  | [], _, _, _, _ => trivial
  | x :: xs, _, _, h, hd => ⟨Fits.mono hdigits x h.1 hd, FitsList.mono hdigits xs h.2 hd⟩

theorem FitsFields.mono (hdigits : L.maxDigits ≤ L'.maxDigits) : ∀ (kvs : List (PyStr × Json))
    {depth depth' : Nat}, FitsFields L depth kvs → depth ≤ depth' → FitsFields L' depth' kvs
  | [], _, _, _, _ => trivial
  | (_, x) :: kvs, _, _, h, hd =>
    ⟨h.1, Fits.mono hdigits x h.2.1 hd, FitsFields.mono hdigits kvs h.2.2 hd⟩

end

end

end PyJson
