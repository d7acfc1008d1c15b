import HilBench.PyDumps

/-! The strings and the numbers that `json.dumps` writes, as `json.loads` reads them. -/

namespace PyJson

/-! Strings. A high surrogate and a low one behind it are written as two escapes and read as
one character. -/

def pairValue (h l : Nat) : Nat := 0x10000 + (h - 0xD800) * 0x400 + (l - 0xDC00)

def joinPairs : PyStr → PyStr
  | h :: l :: s =>
    if isHigh h && isLow l then pairValue h l :: joinPairs s else h :: joinPairs (l :: s)
  | s => s

theorem hex4_escapeUnit {u : Nat} (hu : u < 0x10000) :
    hex4 (hexDigit (u / 4096 % 16)) (hexDigit (u / 256 % 16)) (hexDigit (u / 16 % 16))
      (hexDigit (u % 16)) = some u := by
  have hd : ∀ n < 16, hexVal (hexDigit n) = some n := by decide
  have h1 := hd (u / 4096 % 16) (Nat.mod_lt _ (by decide))
  have h2 := hd (u / 256 % 16) (Nat.mod_lt _ (by decide))
  have h3 := hd (u / 16 % 16) (Nat.mod_lt _ (by decide))
  have h4 := hd (u % 16) (Nat.mod_lt _ (by decide))
  simp only [hex4, h1, h2, h3, h4, Option.some.injEq]
  omega

/-- The text does not go on with the escape of a low surrogate. -/
def NoLow (t : PyStr) : Prop :=
  ∀ e f g h x s, t = 0x5C :: 0x75 :: e :: f :: g :: h :: x :: s →
    ∃ v, hex4 e f g h = some v ∧ isLow v = false

theorem scanString_unit {u : Nat} (hu : u < 0x10000) {t : PyStr} (ht : t ≠ [])
    (hlow : isHigh u = true → NoLow t) (start : Nat) (acc : PyStr) (pos : Nat) :
    scanString start (escapeUnit u ++ t) acc pos = scanString start t (u :: acc) (pos + 6) := by
  have hx := hex4_escapeUnit hu
  obtain ⟨x, s, rfl⟩ := List.exists_cons_of_ne_nil ht
  by_cases hp : ∃ e f g h y r, x :: s = 0x5C :: 0x75 :: e :: f :: g :: h :: y :: r
  · obtain ⟨e, f, g, h, y, r, hs⟩ := hp
    rw [hs] at hlow ⊢
    simp only [escapeUnit, List.cons_append, List.nil_append]
    rw [scanString, hx]
    cases hh : isHigh u with
    | false => simp only [hh, Bool.false_eq_true, if_false]
    | true =>
      obtain ⟨v, hv, hl⟩ := hlow hh e f g h y r rfl
      simp only [hh, hv, hl, Bool.false_eq_true, if_false, if_true]
  · simp only [escapeUnit, List.cons_append, List.nil_append]
    rw [scanString, hx]
    intro e f g h y r hh hr
    exact hp ⟨e, f, g, h, y, r, by rw [hh, hr]⟩

theorem scanString_units {u v : Nat} (hu : u < 0x10000) (hv : v < 0x10000)
    (hhigh : isHigh u = true) (hlow : isLow v = true) {t : PyStr} (ht : t ≠ [])
    (start : Nat) (acc : PyStr) (pos : Nat) :
    scanString start (escapeUnit u ++ (escapeUnit v ++ t)) acc pos =
      scanString start t (pairValue u v :: acc) (pos + 12) := by
  obtain ⟨x, s, rfl⟩ := List.exists_cons_of_ne_nil ht
  simp only [escapeUnit, List.cons_append, List.nil_append]
  rw [scanString, hex4_escapeUnit hu, hex4_escapeUnit hv]
  unfold pairValue
  dsimp only
  rw [if_pos hhigh, if_pos hlow]

theorem units_of_astral {c : Nat} (hlo : 0xFFFF < c) (hhi : c ≤ 0x10FFFF) :
    isHigh (0xD800 + (c - 0x10000) / 0x400) = true ∧
      isLow (0xDC00 + (c - 0x10000) % 0x400) = true ∧
      pairValue (0xD800 + (c - 0x10000) / 0x400) (0xDC00 + (c - 0x10000) % 0x400) = c := by
  have hd : (c - 0x10000) / 0x400 ≤ 0x3FF := by omega
  have hm := Nat.div_add_mod (c - 0x10000) 0x400
  have hl : (c - 0x10000) % 0x400 < 0x400 := Nat.mod_lt _ (by decide)
  generalize (c - 0x10000) / 0x400 = a at *
  generalize (c - 0x10000) % 0x400 = b at *
  refine ⟨?_, ?_, ?_⟩
  · rw [isHigh, Bool.and_eq_true, decide_eq_true_eq, decide_eq_true_eq]
    omega
  · rw [isLow, Bool.and_eq_true, decide_eq_true_eq, decide_eq_true_eq]
    omega
  · unfold pairValue
    omega

theorem isLow_of_isHigh {c : Nat} (h : isHigh c = true) : isLow c = false := by
  rw [isHigh, Bool.and_eq_true, decide_eq_true_eq, decide_eq_true_eq] at h
  rw [isLow, Bool.and_eq_false_iff, decide_eq_false_iff_not]
  omega

theorem scanString_char {c : Nat} (hc : c ≤ 0x10FFFF) {t : PyStr} (ht : t ≠ [])
    (hlow : isHigh c = true → NoLow t) (start : Nat) (acc : PyStr) (pos : Nat) :
    scanString start (escapeChar c ++ t) acc pos =
      scanString start t (c :: acc) (pos + (escapeChar c).length) := by
  unfold escapeChar
  split_ifs with h1 h2 h3 h4 h5 h6 h7 h8 h9
  · subst h1
    simp [scanString, unescape]
  · subst h2
    simp [scanString, unescape]
  · subst h3
    simp [scanString, unescape]
  · subst h4
    simp [scanString, unescape]
  · subst h5
    simp [scanString, unescape]
  · subst h6
    simp [scanString, unescape]
  · subst h7
    simp [scanString, unescape]
  · have hctl : ¬ c ≤ 0x1F := by omega
    rw [List.singleton_append, scanString.eq_def]
    split
    all_goals simp_all
  · exact scanString_unit (by omega) ht hlow start acc pos
  · obtain ⟨hh, hl, hp⟩ := units_of_astral (by omega) hc
    rw [List.append_assoc, scanString_units (by omega) (by omega) hh hl ht, hp]
    rfl

theorem hex4_of_unit {u : Nat} (hu : u < 0x10000) {t r : PyStr} {e f g h : Nat}
    (he : escapeUnit u ++ t = 0x5C :: 0x75 :: e :: f :: g :: h :: r) : hex4 e f g h = some u := by
  simp only [escapeUnit, List.cons_append, List.cons.injEq, true_and] at he
  obtain ⟨rfl, rfl, rfl, rfl, -⟩ := he
  exact hex4_escapeUnit hu

-- the only escape with a `u` is that of a unit
theorem escapeChar_cases (c : Nat) :
    (c ≠ 0x5C ∧ escapeChar c = [c]) ∨ (∃ x, x ≠ 0x75 ∧ escapeChar c = [0x5C, x]) ∨
      (c < 0x10000 ∧ escapeChar c = escapeUnit c) ∨ 0xFFFF < c ∧ escapeChar c =
        escapeUnit (0xD800 + (c - 0x10000) / 0x400) ++
          escapeUnit (0xDC00 + (c - 0x10000) % 0x400) := by
  unfold escapeChar
  split_ifs with h1 h2 h3 h4 h5 h6 h7 h8 h9
  · exact .inr (.inl ⟨_, by decide, rfl⟩)
  · exact .inr (.inl ⟨_, by decide, rfl⟩)
  · exact .inr (.inl ⟨_, by decide, rfl⟩)
  · exact .inr (.inl ⟨_, by decide, rfl⟩)
  · exact .inr (.inl ⟨_, by decide, rfl⟩)
  · exact .inr (.inl ⟨_, by decide, rfl⟩)
  · exact .inr (.inl ⟨_, by decide, rfl⟩)
  · exact .inl ⟨h2, rfl⟩
  · exact .inr (.inr (.inl ⟨by omega, rfl⟩))
  · exact .inr (.inr (.inr ⟨by omega, rfl⟩))

theorem noLow_escape {s : PyStr} (hs : ∀ c ∈ s, c ≤ 0x10FFFF)
    (hlow : ∀ c, s.head? = some c → isLow c = false) (rest : PyStr) :
    NoLow (s.flatMap escapeChar ++ 0x22 :: rest) := by
  intro e f g h x r he
  cases s with
  | nil => simp at he
  | cons c s =>
    have hc := hs c List.mem_cons_self
    rw [List.flatMap_cons, List.append_assoc] at he
    rcases escapeChar_cases c with ⟨hne, hx⟩ | ⟨y, hne, hx⟩ | ⟨hu, hx⟩ | ⟨hu, hx⟩
    · rw [hx] at he
      exact absurd (List.cons.inj he).1 hne
    · rw [hx] at he
      exact absurd (List.cons.inj (List.cons.inj he).2).1 hne
    · rw [hx] at he
      exact ⟨c, hex4_of_unit hu he, hlow c rfl⟩
    · rw [hx, List.append_assoc] at he
      exact ⟨_, hex4_of_unit (by omega) he, isLow_of_isHigh (units_of_astral hu hc).1⟩

-- surrogates have escapes of one unit
theorem escapeChar_unit {c : Nat} (h : isHigh c = true ∨ isLow c = true) :
    c < 0x10000 ∧ escapeChar c = escapeUnit c := by
  have hc : 0xD800 ≤ c ∧ c ≤ 0xDFFF := by
    simp only [isHigh, isLow, Bool.and_eq_true, decide_eq_true_eq] at h
    omega
  refine ⟨by omega, ?_⟩
  unfold escapeChar
  split_ifs
  all_goals first
    | rfl
    | omega

theorem scanString_escape {s : PyStr} (hs : ∀ c ∈ s, c ≤ 0x10FFFF) (start : Nat)
    (rest acc : PyStr) (pos : Nat) :
    scanString start (s.flatMap escapeChar ++ 0x22 :: rest) acc pos =
      .ok (acc.reverse ++ joinPairs s, ⟨rest, pos + (s.flatMap escapeChar).length + 1⟩) := by
  have htail : ∀ s : PyStr, s.flatMap escapeChar ++ 0x22 :: rest ≠ [] := by simp
  induction s using joinPairs.induct generalizing acc pos with
  | case1 h l s hp ih =>
    have hpair := Bool.and_eq_true_iff.mp hp
    obtain ⟨hh, hue⟩ := escapeChar_unit (.inl hpair.1)
    obtain ⟨hl, hve⟩ := escapeChar_unit (.inr hpair.2)
    rw [List.flatMap_cons, List.flatMap_cons, hue, hve, List.append_assoc, List.append_assoc,
      scanString_units hh hl hpair.1 hpair.2 (htail s),
      ih (fun c hc => hs c (List.mem_cons_of_mem _ (List.mem_cons_of_mem _ hc))), joinPairs,
      if_pos hp]
    simp only [escapeUnit, List.length_append, List.length_cons, List.length_nil,
      List.reverse_cons, List.append_assoc, List.singleton_append, Except.ok.injEq,
      Prod.mk.injEq, Cursor.mk.injEq, true_and]
    omega
  | case2 h l s hp ih =>
    have hlow : isHigh h = true → NoLow ((l :: s).flatMap escapeChar ++ 0x22 :: rest) := by
      intro hh
      apply noLow_escape fun c hc => hs c (List.mem_cons_of_mem _ hc)
      intro c hc
      cases hc
      rw [Bool.and_eq_true, not_and, Bool.not_eq_true] at hp
      exact hp hh
    rw [List.flatMap_cons, List.append_assoc,
      scanString_char (hs h List.mem_cons_self) (htail _) hlow,
      ih fun c hc => hs c (List.mem_cons_of_mem _ hc), joinPairs, if_neg hp]
    simp only [List.length_append, List.reverse_cons, List.append_assoc, List.singleton_append,
      Nat.add_assoc]
  | case3 s hne =>
    cases s with
    | nil => simp [scanString, joinPairs]
    | cons c s =>
      cases s with
      | nil =>
        have hlow : isHigh c = true → NoLow (([] : PyStr).flatMap escapeChar ++ 0x22 :: rest) :=
          fun _ => noLow_escape (by simp) (by simp) rest
        rw [List.flatMap_cons, List.append_assoc,
          scanString_char (hs c List.mem_cons_self) (htail _) hlow]
        simp [scanString, joinPairs]
      | cons l s => exact absurd rfl (hne c l s)

/-! Numbers. -/

/-- What stands behind a value in a text that was written: nothing, a delimiter or the end of
the line. -/
def Stops (t : PyStr) : Prop :=
  ∀ c, t.head? = some c → c = 0x2C ∨ c = 0x5D ∨ c = 0x7D ∨ c = 0x0A

theorem stops_nil : Stops [] := by simp [Stops]

theorem stops_cons {c : Nat} (h : c = 0x2C ∨ c = 0x5D ∨ c = 0x7D ∨ c = 0x0A) (t : PyStr) :
    Stops (c :: t) := by
  intro d hd
  cases hd
  exact h

section
variable {rest : PyStr}

theorem Stops.ne (hr : Stops rest) {c : Nat} {t : PyStr} (he : rest = c :: t) :
    isDigit c = false ∧ c ≠ 0x2E ∧ c ≠ 0x65 ∧ c ≠ 0x45 ∧ c ≠ 0x2D ∧ c ≠ 0x2B := by
  rcases hr c (by rw [he]; rfl) with rfl | rfl | rfl | rfl <;> decide

theorem Stops.spanDigits (hr : Stops rest) (s : PyStr) :
    spanDigits (s ++ rest) = ((spanDigits s).1, (spanDigits s).2 ++ rest) := by
  induction s with
  | nil =>
    cases hc : rest with
    | nil => rfl
    | cons c t =>
      have hd := (hr.ne hc).1
      simp [PyJson.spanDigits, hd]
  | cons c s ih =>
    cases hd : isDigit c with
    | false => simp [PyJson.spanDigits, hd]
    | true =>
      simp only [PyJson.spanDigits, Prod.mk.injEq] at ih ⊢
      simp [hd, ih.1, ih.2]

theorem intPart_digit {s : PyStr} {r : PyStr × PyStr} (h : intPart s = some r) :
    ∃ c t, s = c :: t ∧ isDigit c = true := by
  cases s with
  | nil => simp [intPart, spanDigits] at h
  | cons c t =>
    refine ⟨c, t, rfl, ?_⟩
    by_contra hd
    rw [Bool.not_eq_true] at hd
    have hc : c ≠ 0x30 := by
      rintro rfl
      simp [isDigit] at hd
    unfold intPart at h
    split at h
    · rename_i he
      exact hc (List.cons.inj he).1
    · simp [spanDigits, hd] at h

theorem Stops.intPart (hr : Stops rest) {s ds t : PyStr} (h : intPart s = some (ds, t)) :
    PyJson.intPart (s ++ rest) = some (ds, t ++ rest) := by
  obtain ⟨c, u, rfl, hd⟩ := intPart_digit h
  by_cases hc : c = 0x30
  · subst hc
    cases h
    rfl
  · have hspan := hr.spanDigits (c :: u)
    have hne : (PyJson.spanDigits (c :: u)).1 ≠ [] := by simp [PyJson.spanDigits, hd]
    rw [PyJson.intPart, if_neg hne] at h
    · rw [List.cons_append] at hspan ⊢
      rw [PyJson.intPart, hspan, if_neg hne]
      · cases h
        rfl
      · exact fun v hv => hc (List.cons.inj hv).1
    · exact fun v hv => hc (List.cons.inj hv).1

theorem Stops.fracPart (hr : Stops rest) (s : PyStr) :
    fracPart (s ++ rest) = ((fracPart s).1, (fracPart s).2 ++ rest) := by
  cases s with
  | nil =>
    cases hc : rest with
    | nil => rfl
    | cons c t =>
      have hd := (hr.ne hc).2.1
      rw [List.nil_append, PyJson.fracPart]
      · rfl
      · exact fun u hu => hd (List.cons.inj hu).1
  | cons c s =>
    have hspan := hr.spanDigits s
    by_cases hc : c = 0x2E
    · subst hc
      simp only [List.cons_append, PyJson.fracPart, hspan]
      split <;> rfl
    · rw [List.cons_append, PyJson.fracPart, PyJson.fracPart]
      · rfl
      · exact fun u hu => hc (List.cons.inj hu).1
      · exact fun u hu => hc (List.cons.inj hu).1

theorem Stops.expPart (hr : Stops rest) (s : PyStr) :
    expPart (s ++ rest) = ((expPart s).1, (expPart s).2 ++ rest) := by
  cases s with
  | nil =>
    cases hc : rest with
    | nil => rfl
    | cons c t =>
      have hd := hr.ne hc
      simp [PyJson.expPart, hd.2.2.1, hd.2.2.2.1]
  | cons c s =>
    by_cases hc : c = 0x65 ∨ c = 0x45
    · have hsign : ∀ d, d = 0x2D ∨ d = 0x2B → ((s ++ rest).head? = some d ↔ s.head? = some d) := by
        intro d hd
        cases s with
        | nil =>
          cases hc : rest with
          | nil => simp
          | cons x t =>
            have hx := hr.ne hc
            simp only [List.nil_append, List.head?_cons, Option.some.injEq, List.head?_nil,
              reduceCtorEq, iff_false]
            rintro rfl
            rcases hd with rfl | rfl
            · exact hx.2.2.2.2.1 rfl
            · exact hx.2.2.2.2.2 rfl
        | cons x t => rfl
      have htail : (if s.head? = some 0x2D ∨ s.head? = some 0x2B then (s ++ rest).tail
          else s ++ rest) = (if s.head? = some 0x2D ∨ s.head? = some 0x2B then s.tail else s) ++
          rest := by
        split
        · cases s with
          | nil => simp_all
          | cons x t => rfl
        · rfl
      simp only [List.cons_append, PyJson.expPart, if_pos hc, hsign 0x2D (.inl rfl),
        hsign 0x2B (.inr rfl), htail, hr.spanDigits]
      generalize PyJson.spanDigits
        (if s.head? = some 0x2D ∨ s.head? = some 0x2B then s.tail else s) = u
      cases u.1 <;> rfl
    · simp [PyJson.expPart, hc]

/-- A number that ends its text is read the same where the text goes on behind it. -/
theorem Stops.scanNumber (hr : Stops rest) {L : Limits} {s : PyStr} {v : Json} {pos q : Nat}
    (h : scanNumber L ⟨s, pos⟩ = .ok (v, ⟨[], q⟩)) (pos' : Nat) :
    PyJson.scanNumber L ⟨s ++ rest, pos'⟩ = .ok (v, ⟨rest, pos' + s.length⟩) := by
  cases s with
  | nil => simp [PyJson.scanNumber, PyJson.intPart, PyJson.spanDigits] at h
  | cons c s =>
    have htail : (if c = 0x2D then s ++ rest else c :: (s ++ rest)) =
        (if c = 0x2D then s else c :: s) ++ rest := by
      split <;> rfl
    simp only [PyJson.scanNumber, List.cons_append, List.head?_cons, Option.some.injEq,
      List.tail_cons, decide_eq_true_eq, htail] at h ⊢
    cases hi : PyJson.intPart (if c = 0x2D then s else c :: s) with
    | none => simp [hi] at h
    | some r =>
      obtain ⟨ds, t⟩ := r
      simp only [hi] at h
      have hlen : ∀ u : PyStr, u = [] → (c :: (s ++ rest)).length - (u ++ rest).length =
          (c :: s).length := by
        rintro u rfl
        simp only [List.length_cons, List.length_append, List.nil_append]
        omega
      simp only [hr.intPart hi, hr.fracPart, hr.expPart]
      split at h
      · rename_i hf
        rw [if_pos hf]
        split at h
        · cases h
        · rename_i hd
          rw [if_neg hd]
          simp only [Except.ok.injEq, Prod.mk.injEq, Cursor.mk.injEq] at h ⊢
          obtain ⟨hv, hu, -⟩ := h
          exact ⟨hv, by rw [hu]; rfl, by rw [hlen _ hu]⟩
      · rename_i hf
        rw [if_neg hf]
        simp only [Except.ok.injEq, Prod.mk.injEq, Cursor.mk.injEq] at h ⊢
        obtain ⟨hv, hu, -⟩ := h
        exact ⟨hv, by rw [hu]; rfl, by rw [hlen _ hu]⟩

end

/-- The first character of a number. -/
theorem scanNumber_head {L : Limits} {c : Cursor} {r : Json × Cursor} (h : scanNumber L c = .ok r) :
    ∃ x t, c.rest = x :: t ∧
      (isDigit x = true ∨ x = 0x2D ∧ ∃ d u, t = d :: u ∧ isDigit d = true) := by
  unfold scanNumber at h
  cases hi : intPart (if c.rest.head? = some 0x2D then c.rest.tail else c.rest) with
  | none => simp [hi] at h
  | some p =>
    obtain ⟨d, u, hd, hdig⟩ := intPart_digit hi
    split at hd
    · rename_i hm
      obtain ⟨t, ht⟩ := List.head?_eq_some_iff.mp hm
      rw [ht] at hd
      exact ⟨0x2D, t, ht, .inr ⟨rfl, d, u, hd, hdig⟩⟩
    · exact ⟨d, u, hd, .inl hdig⟩

theorem scanAtom_number {L : Limits} {c : Cursor} {r : Json × Cursor} (h : scanNumber L c = .ok r) :
    scanAtom L c = .ok r := by
  have hnone : constants.find? (fun k => k.1.isPrefixOf c.rest) = none := by
    obtain ⟨x, t, ht, hx⟩ := scanNumber_head h
    have hfirst : x ≠ 0x6E ∧ x ≠ 0x74 ∧ x ≠ 0x66 ∧ x ≠ 0x4E ∧ x ≠ 0x49 := by
      rcases hx with hd | ⟨rfl, -⟩
      · simp only [isDigit, Bool.and_eq_true, decide_eq_true_eq] at hd
        omega
      · decide
    have hneg : (pyStr "-Infinity").isPrefixOf (x :: t) = false := by
      rw [← Bool.not_eq_true, List.isPrefixOf_iff_prefix]
      intro hp
      obtain ⟨u, hu⟩ := hp
      have he : 0x2D :: 0x49 :: (pyStr "nfinity" ++ u) = x :: t := hu
      obtain ⟨rfl, rfl⟩ := List.cons.inj he
      rcases hx with hd | ⟨-, d, v, hd, hdig⟩
      · simp [isDigit] at hd
      · rw [← (List.cons.inj hd).1] at hdig
        simp [isDigit] at hdig
    have hother : ∀ y u, y ≠ x → (y :: u).isPrefixOf (x :: t) = false := by
      intro y u hy
      rw [← Bool.not_eq_true, List.isPrefixOf_iff_prefix]
      rintro ⟨v, hv⟩
      exact hy (List.cons.inj hv).1
    rw [List.find?_eq_none, ht]
    simp only [constants, List.forall_mem_cons, Bool.not_eq_true]
    exact ⟨hother _ _ hfirst.1.symm, hother _ _ hfirst.2.1.symm, hother _ _ hfirst.2.2.1.symm,
      hother _ _ hfirst.2.2.2.1.symm, hother _ _ hfirst.2.2.2.2.symm, hneg, by simp⟩
  rw [scanAtom, hnone]
  exact h

section
variable {L : Limits} {fuel depth : Nat} {c c' : Cursor} {v : Json} {s : PyStr} {q : Nat}

theorem scan_array (hc : Cursor.skipWs ⟨s, q + 1⟩ = c) (hne : ∀ t, c.rest ≠ 0x5D :: t) :
    scan L (fuel + 1) .value (depth + 1) ⟨0x5B :: s, q⟩ = scan L fuel (.items []) depth c := by
  simp only [scan, hc]

theorem scan_object (hc : Cursor.skipWs ⟨s, q + 1⟩ = c) (hne : ∀ t, c.rest ≠ 0x7D :: t) :
    scan L (fuel + 1) .value (depth + 1) ⟨0x7B :: s, q⟩ = scan L fuel (.fields []) depth c := by
  simp only [scan, hc]

theorem scan_item_last (hv : scan L fuel .value depth c = .ok (v, c'))
    (hend : c'.skipWs = ⟨0x5D :: s, q⟩) (acc : List Json) :
    scan L (fuel + 1) (.items acc) depth c = .ok (.arr (acc ++ [v]), ⟨s, q + 1⟩) := by
  rw [scan, hv]
  simp only [hend]

theorem scan_item_next (hv : scan L fuel .value depth c = .ok (v, c'))
    (hnext : c'.skipWs = ⟨0x2C :: s, q⟩) (acc : List Json) :
    scan L (fuel + 1) (.items acc) depth c =
      scan L fuel (.items (acc ++ [v])) depth (Cursor.skipWs ⟨s, q + 1⟩) := by
  rw [scan, hv]
  simp only [hnext]

/-- What stands in front of the delimiter of a field. -/
structure ScansField (L : Limits) (fuel depth : Nat) (s : PyStr) (q : Nat) (k : PyStr) (v : Json)
    (c' : Cursor) : Prop where
  exists_colon : ∃ c t, scanString q s [] (q + 1) = .ok (k, c) ∧ c.skipWs.rest = 0x3A :: t ∧
    scan L fuel .value depth (Cursor.skipWs ⟨t, c.skipWs.pos + 1⟩) = .ok (v, c')

theorem scan_field_last {k r : PyStr} {p : Nat} (hv : ScansField L fuel depth s q k v c')
    (hend : c'.skipWs = ⟨0x7D :: r, p⟩) (acc : List (PyStr × Json)) :
    scan L (fuel + 1) (.fields acc) depth ⟨0x22 :: s, q⟩ =
      .ok (.obj (PyText.dictSet acc k v), ⟨r, p + 1⟩) := by
  obtain ⟨c, t, hk, hc, hv⟩ := hv
  rw [scan]
  simp only [hk, hc, hv, hend]

theorem scan_field_next {k r : PyStr} {p : Nat} (hv : ScansField L fuel depth s q k v c')
    (hnext : c'.skipWs = ⟨0x2C :: r, p⟩) (acc : List (PyStr × Json)) :
    scan L (fuel + 1) (.fields acc) depth ⟨0x22 :: s, q⟩ =
      scan L fuel (.fields (PyText.dictSet acc k v)) depth (Cursor.skipWs ⟨r, p + 1⟩) := by
  obtain ⟨c, t, hk, hc, hv⟩ := hv
  rw [scan]
  simp only [hk, hc, hv, hnext]

end

theorem scan_atom {L : Limits} {c : Cursor} {r : Json × Cursor} (fuel depth : Nat)
    (h : scanAtom L c = .ok r)
    (hne : ∀ x t, c.rest = x :: t → x ≠ 0x22 ∧ x ≠ 0x7B ∧ x ≠ 0x5B) :
    scan L (fuel + 1) .value depth c = .ok r := by
  rw [scan]
  split
  · rename_i s hs
    exact absurd rfl (hne _ _ hs).1
  · rename_i s hs
    exact absurd rfl (hne _ _ hs).2.1
  · rename_i s hs
    exact absurd rfl (hne _ _ hs).2.2
  · exact h

/-! The digits of a natural number are the text of it. -/

theorem natOf_digits (n : Nat) : natOf ((Nat.toDigits 10 n).map Char.toNat) = n := by
  have hfold : ∀ (l : List Char) (m : Nat), (l.map Char.toNat).foldl
      (fun n d => n * 10 + (d - 0x30)) m = Nat.ofDigitChars 10 l m := by
    intro l
    induction l with
    | nil => exact fun _ => rfl
    | cons c l ih =>
      intro m
      rw [Nat.ofDigitChars_cons, ← ih, Nat.mul_comm]
      rfl
  rw [natOf, hfold, Nat.ofDigitChars_ten_toDigits]

theorem intPart_digits (n : Nat) :
    intPart ((Nat.toDigits 10 n).map Char.toNat) =
      some ((Nat.toDigits 10 n).map Char.toNat, []) := by
  rcases Nat.eq_zero_or_pos n with rfl | hn
  · rfl
  · obtain ⟨c, l, hl, hc⟩ := PyText.toDigits_head hn
    have hall : ∀ d ∈ (Nat.toDigits 10 n).map Char.toNat, isDigit d = true := by
      intro d hd
      obtain ⟨c, hc, rfl⟩ := List.mem_map.mp hd
      have hb := PyText.digit_bounds hc
      simp only [isDigit, Bool.and_eq_true, decide_eq_true_eq]
      omega
    have hspan : spanDigits ((Nat.toDigits 10 n).map Char.toNat) =
        ((Nat.toDigits 10 n).map Char.toNat, []) := by
      rw [spanDigits, List.takeWhile_eq_self_iff.mpr hall, List.dropWhile_eq_nil_iff.mpr hall]
    rw [hl, List.map_cons] at hspan ⊢
    rw [intPart, hspan, if_neg (List.cons_ne_nil _ _)]
    exact fun s hs => hc (List.cons.inj hs).1

theorem scanNumber_intText (L : Limits) {n : Int}
    (hn : (Nat.toDigits 10 n.natAbs).length ≤ L.maxDigits) (pos : Nat) :
    scanNumber L ⟨intText n, pos⟩ = .ok (.int n, ⟨[], pos + (intText n).length⟩) := by
  have hip := intPart_digits n.natAbs
  have hval := natOf_digits n.natAbs
  have hlen : ¬ ((Nat.toDigits 10 n.natAbs).map Char.toNat).length > L.maxDigits := by
    rw [List.length_map]
    omega
  by_cases hneg : n < 0
  · have ht : intText n = 0x2D :: (Nat.toDigits 10 n.natAbs).map Char.toNat := by
      rw [intText, PyText.fmtInt, if_pos hneg]
      rfl
    simp only [scanNumber, ht, List.head?_cons, decide_true, if_true, List.tail_cons, hip, fracPart,
      expPart, and_self, if_neg hlen, hval, List.length_nil, Nat.sub_zero]
    rw [Int.ofNat_natAbs_of_nonpos (by omega), Int.neg_neg]
  · have ht : intText n = (Nat.toDigits 10 n.natAbs).map Char.toNat := by
      rw [intText, PyText.fmtInt, if_neg hneg]
    have hhead : ((Nat.toDigits 10 n.natAbs).map Char.toNat).head? ≠ some 0x2D := by
      obtain ⟨c, t, hc, hd⟩ := intPart_digit hip
      rw [hc]
      rintro he
      cases he
      simp [isDigit] at hd
    simp only [scanNumber, ht, decide_eq_true_eq, if_neg hhead, hip, fracPart, expPart, and_self,
      if_true, if_neg hlen, hval, List.length_nil, Nat.sub_zero]
    rw [Int.natAbs_of_nonneg (by omega)]

end PyJson
