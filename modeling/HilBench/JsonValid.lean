import HilBench.JsonRoundTrip

/-! A text of Python is read as texts of Python, and so are the messages of its errors. -/

namespace PyJson

mutual

def ValidJson : Json → Prop
  | .str s => ValidStr s
  | .arr xs => ValidJsonList xs
  | .obj kvs => ValidFields kvs
  | _ => True

def ValidJsonList : List Json → Prop
  | [] => True
  | x :: xs => ValidJson x ∧ ValidJsonList xs

def ValidFields : List (PyStr × Json) → Prop
  | [] => True
  | (k, v) :: kvs => (ValidStr k ∧ ValidJson v) ∧ ValidFields kvs

end

theorem validJsonList_iff (xs : List Json) : ValidJsonList xs ↔ ∀ x ∈ xs, ValidJson x := by
  induction xs with
  | nil => simp [ValidJsonList]
  | cons x xs ih => rw [ValidJsonList, ih, List.forall_mem_cons]

theorem validFields_iff (kvs : List (PyStr × Json)) :
    ValidFields kvs ↔ ∀ e ∈ kvs, ValidStr e.1 ∧ ValidJson e.2 := by
  induction kvs with
  | nil => simp [ValidFields]
  | cons e kvs ih =>
    obtain ⟨k, v⟩ := e
    rw [ValidFields, ih, List.forall_mem_cons]

mutual

theorem validObj_ofJson : ∀ v : Json, ValidJson v → ValidObj (ofJson v)
  | .null, _ | .bool _, _ | .int _, _ | .float _, _ => trivial
  | .str _, h => h
  | .arr xs, h => validList_ofJson xs h
  | .obj kvs, h => validEntries_ofJson kvs h

theorem validList_ofJson : ∀ xs : List Json, ValidJsonList xs → ValidList (ofJsonList xs)
  | [], _ => trivial
  | x :: xs, h => ⟨validObj_ofJson x h.1, validList_ofJson xs h.2⟩

theorem validEntries_ofJson : ∀ kvs : List (PyStr × Json), ValidFields kvs →
    ValidEntries (ofJsonFields kvs)
  | [], _ => trivial
  | (_, v) :: kvs, h => ⟨h.1.1, validObj_ofJson v h.1.2, validEntries_ofJson kvs h.2⟩

end

def LoadError.Valid : LoadError → Prop
  | .decode msg _ => ValidStr msg
  | _ => True

/-- What the scanner may leave: valid values and texts, or an error with a valid message. -/
def Sane {α : Type} (P : α → Prop) : Except LoadError (α × Cursor) → Prop
  | .ok r => P r.1 ∧ ValidStr r.2.rest
  | .error e => e.Valid

theorem Sane.cases {α : Type} {P : α → Prop} {x : Except LoadError (α × Cursor)} (h : Sane P x) :
    (∃ e, x = .error e ∧ e.Valid) ∨ ∃ a c, x = .ok (a, c) ∧ P a ∧ ValidStr c.rest := by
  cases x with
  | error e => exact .inl ⟨e, rfl, h⟩
  | ok r => exact .inr ⟨r.1, r.2, rfl, h⟩

theorem hexVal_lt {c v : Nat} (h : hexVal c = some v) : v < 16 := by
  unfold hexVal at h
  split_ifs at h with h1 h2 h3
  · simp only [isDigit, Bool.and_eq_true, decide_eq_true_eq] at h1
    cases h
    omega
  · cases h
    omega
  · cases h
    omega

theorem hex4_lt {a b c d u : Nat} (h : hex4 a b c d = some u) : u < 0x10000 := by
  unfold hex4 at h
  split at h
  · rename_i ha hb hc hd
    have h1 := hexVal_lt ha
    have h2 := hexVal_lt hb
    have h3 := hexVal_lt hc
    have h4 := hexVal_lt hd
    cases h
    omega
  · cases h

theorem ValidStr.cons {c : Nat} {s : PyStr} (hs : ValidStr s) (hc : c ≤ 0x10FFFF) :
    ValidStr (c :: s) :=
  List.forall_mem_cons.mpr ⟨hc, hs⟩

theorem ValidStr.append {s t : PyStr} (hs : ValidStr s) (ht : ValidStr t) : ValidStr (s ++ t) :=
  fun c hc => (List.mem_append.mp hc).elim (hs c) (ht c)

theorem ValidStr.suffix {s t : PyStr} (hs : ValidStr s) (ht : t <:+ s) : ValidStr t :=
  fun c hc => hs c (ht.subset hc)

theorem scanString_sane (start : Nat) (s acc : PyStr) (pos : Nat) (hs : ValidStr s)
    (ha : ValidStr acc) : Sane ValidStr (scanString start s acc pos) := by
  have hmsg : ValidStr (pyStr "Unterminated string starting at") ∧
      ValidStr (pyStr "Invalid \\uXXXX escape") ∧ ValidStr (pyStr "Invalid \\escape") ∧
      ValidStr (pyStr "Invalid control character at") := by decide
  fun_induction scanString start s acc pos with
  | case1 | case3 => exact hmsg.1
  | case2 s acc pos =>
    exact ⟨fun c hc => ha c (List.mem_reverse.mp hc), fun c hc => hs c (List.mem_cons_of_mem _ hc)⟩
  | case4 | case5 | case9 | case11 => exact hmsg.2.1
  | case12 => exact hmsg.2.2.1
  | case14 => exact hmsg.2.2.2
  | case6 a b c d e f g h x s acc pos u hu hh v hv hl ih =>
    have hu := hex4_lt hu
    have hv := hex4_lt hv
    simp only [isHigh, isLow, Bool.and_eq_true, decide_eq_true_eq] at hh hl
    have hpair : 0x10000 + (u - 0xD800) * 0x400 + (v - 0xDC00) ≤ 0x10FFFF := by omega
    exact ih (hs.suffix ⟨[0x5C, 0x75, a, b, c, d, 0x5C, 0x75, e, f, g, h], rfl⟩) (ha.cons hpair)
  | case7 a b c d e f g h x s acc pos u hu hh v hv hl ih =>
    have hu : u ≤ 0x10FFFF := (hex4_lt hu).le.trans (by decide)
    exact ih (hs.suffix ⟨[0x5C, 0x75, a, b, c, d], rfl⟩) (ha.cons hu)
  | case8 a b c d e f g h x s acc pos u hu hh ih =>
    have hu : u ≤ 0x10FFFF := (hex4_lt hu).le.trans (by decide)
    exact ih (hs.suffix ⟨[0x5C, 0x75, a, b, c, d], rfl⟩) (ha.cons hu)
  | case10 a b c d x s acc pos hp u hu ih =>
    have hu : u ≤ 0x10FFFF := (hex4_lt hu).le.trans (by decide)
    exact ih (hs.suffix ⟨[0x5C, 0x75, a, b, c, d], rfl⟩) (ha.cons hu)
  | case13 c s acc pos h1 h2 hc u hu ih =>
    have hle : u ≤ 0x10FFFF := by
      unfold unescape at hu
      split_ifs at hu with h1
      all_goals cases hu
      · rcases h1 with rfl | rfl | rfl <;> decide
      all_goals decide
    exact ih (hs.suffix ⟨[0x5C, c], rfl⟩) (ha.cons hle)
  | case15 c s acc pos h1 h2 h3 h4 h5 hc ih =>
    exact ih (hs.suffix ⟨[c], rfl⟩) (ha.cons (hs c List.mem_cons_self))

theorem intPart_suffix {s ds r : PyStr} (h : intPart s = some (ds, r)) : r <:+ s := by
  unfold intPart at h
  split at h
  · cases h
    exact List.suffix_cons _ _
  · split at h
    · cases h
    · cases h
      exact List.dropWhile_suffix isDigit

theorem fracPart_suffix (s : PyStr) : (fracPart s).2 <:+ s := by
  unfold fracPart
  split
  · split
    · exact List.suffix_rfl
    · exact (List.dropWhile_suffix isDigit).trans (List.suffix_cons _ _)
  · exact List.suffix_rfl

theorem expPart_suffix (s : PyStr) : (expPart s).2 <:+ s := by
  cases s with
  | nil => exact List.suffix_rfl
  | cons c s =>
    have hspan : ∀ t : PyStr, t <:+ s → (spanDigits t).2 <:+ c :: s :=
      fun t ht => (List.dropWhile_suffix isDigit).trans (ht.trans (List.suffix_cons _ _))
    simp only [expPart]
    split_ifs
    all_goals first
      | exact List.suffix_rfl
      | exact hspan _ (List.tail_suffix s)
      | exact hspan _ List.suffix_rfl

theorem ValidStr.skipWs {c : Cursor} (h : ValidStr c.rest) : ValidStr c.skipWs.rest :=
  h.suffix (List.dropWhile_suffix isWs)

/-- The text behind a character that was read. -/
theorem ValidStr.behind {s t : PyStr} {x : Nat} (hs : ValidStr s) (ht : s = x :: t) : ValidStr t :=
  hs.suffix (ht ▸ List.suffix_cons x t)

/-- The text behind a bracket, a comma or a colon. -/
theorem ValidStr.opened {s t : PyStr} {x : Nat} (hs : ValidStr s) (ht : s = x :: t) (pos : Nat) :
    ValidStr (Cursor.skipWs ⟨t, pos⟩).rest :=
  ValidStr.skipWs (c := ⟨t, pos⟩) (hs.behind ht)

theorem scanString_opened {s : PyStr} (start : Nat) (hs : ValidStr s) :
    Sane ValidStr (scanString start s [] (start + 1)) :=
  scanString_sane start s [] (start + 1) hs fun _ h => absurd h List.not_mem_nil

theorem valid_expecting_comma : ValidStr (pyStr "Expecting ',' delimiter") := by decide

section
variable (L : Limits)

theorem scanNumber_sane (c : Cursor) (hc : ValidStr c.rest) : Sane ValidJson (scanNumber L c) := by
  have hmsg : ValidStr (pyStr "Expecting value") := by decide
  unfold scanNumber
  simp only
  split
  · exact hmsg
  · rename_i ds s hi
    have hs : s <:+ c.rest := by
      refine (intPart_suffix hi).trans ?_
      split
      · exact List.tail_suffix _
      · exact List.suffix_rfl
    have hrest := hc.suffix ((expPart_suffix _).trans ((fracPart_suffix s).trans hs))
    split
    · split
      · trivial
      · exact ⟨trivial, hrest⟩
    · exact ⟨trivial, hrest⟩

theorem scanAtom_sane (c : Cursor) (hc : ValidStr c.rest) : Sane ValidJson (scanAtom L c) := by
  unfold scanAtom
  split
  · rename_i k hk
    refine ⟨?_, hc.suffix (List.drop_suffix _ _)⟩
    have hall : ∀ k ∈ constants, ValidJson k.2 := by
      simp [constants, ValidJson]
    exact hall k (List.mem_of_find?_eq_some hk)
  · exact scanNumber_sane L c hc

def Mode.Valid : Mode → Prop
  | .value => True
  | .items acc => ∀ x ∈ acc, ValidJson x
  | .fields acc => ∀ e ∈ acc, ValidStr e.1 ∧ ValidJson e.2

theorem mem_dictSet {acc : List (PyStr × Json)} {k : PyStr} {v : Json}
    (hacc : Mode.Valid (.fields acc)) (hk : ValidStr k) (hv : ValidJson v) :
    Mode.Valid (.fields (PyText.dictSet acc k v)) := by
  intro e he
  unfold PyText.dictSet at he
  split at he
  · obtain ⟨x, hx, rfl⟩ := List.mem_map.mp he
    split
    · exact ⟨hk, hv⟩
    · exact hacc x hx
  · rcases List.mem_append.mp he with he | he
    · exact hacc e he
    · rw [List.mem_singleton.mp he]
      exact ⟨hk, hv⟩

/-- What one more unit of fuel is for. -/
def ScanSane (fuel : Nat) : Prop :=
  ∀ mode depth (c : Cursor), mode.Valid → ValidStr c.rest → Sane ValidJson (scan L fuel mode depth c)

section
variable {L} {fuel : Nat} {depth : Nat} {c : Cursor}

theorem scan_value_sane (ih : ScanSane L fuel) (hc : ValidStr c.rest) :
    Sane ValidJson (scan L (fuel + 1) .value depth c) := by
  rw [scan]
  split
  · rename_i s hs
    rcases (scanString_opened c.pos (hc.behind hs)).cases with
      ⟨e, hr, he⟩ | ⟨k, c1, hr, hk, hc1⟩
    · rw [hr]
      exact he
    · rw [hr]
      exact ⟨hk, hc1⟩
  · rename_i s hs
    cases depth with
    | zero => trivial
    | succ depth =>
      simp only
      split
      · rename_i t ht
        exact ⟨trivial, (hc.opened hs (c.pos + 1)).behind ht⟩
      · exact ih _ _ _ (by simp [Mode.Valid]) (hc.opened hs (c.pos + 1))
  · rename_i s hs
    cases depth with
    | zero => trivial
    | succ depth =>
      simp only
      split
      · rename_i t ht
        exact ⟨trivial, (hc.opened hs (c.pos + 1)).behind ht⟩
      · exact ih _ _ _ (by simp [Mode.Valid]) (hc.opened hs (c.pos + 1))
  · exact scanAtom_sane L c hc

theorem scan_items_sane {acc : List Json} (ih : ScanSane L fuel) (hacc : Mode.Valid (.items acc))
    (hc : ValidStr c.rest) : Sane ValidJson (scan L (fuel + 1) (.items acc) depth c) := by
  rw [scan]
  rcases (ih .value depth c trivial hc).cases with ⟨e, hr, he⟩ | ⟨v, c1, hr, hv, hc1⟩
  · simp only [hr]
    exact he
  · have hacc' : Mode.Valid (.items (acc ++ [v])) := by
      intro x hx
      rcases List.mem_append.mp hx with hx | hx
      · exact hacc x hx
      · rw [List.mem_singleton.mp hx]
        exact hv
    simp only [hr]
    split
    · rename_i s hs
      exact ⟨(validJsonList_iff _).mpr hacc', hc1.skipWs.behind hs⟩
    · rename_i s hs
      exact ih _ _ _ hacc' (hc1.skipWs.opened hs (c1.skipWs.pos + 1))
    · exact valid_expecting_comma

theorem scan_fields_sane {acc : List (PyStr × Json)} (ih : ScanSane L fuel)
    (hacc : Mode.Valid (.fields acc)) (hc : ValidStr c.rest) :
    Sane ValidJson (scan L (fuel + 1) (.fields acc) depth c) := by
  have hcolon : ValidStr (pyStr "Expecting ':' delimiter") := by decide
  have hname : ValidStr (pyStr "Expecting property name enclosed in double quotes") := by decide
  rw [scan]
  split
  · rename_i s hs
    rcases (scanString_opened c.pos (hc.behind hs)).cases with
      ⟨e, hr, he⟩ | ⟨k, c1, hr, hk, hc1⟩
    · simp only [hr]
      exact he
    · simp only [hr]
      split
      · rename_i t ht
        have hvalue := ih .value depth (Cursor.skipWs ⟨t, c1.skipWs.pos + 1⟩) trivial
          (hc1.skipWs.opened ht (c1.skipWs.pos + 1))
        rcases hvalue.cases with ⟨e, hr2, he⟩ | ⟨v, c2, hr2, hv, hc2⟩
        · simp only [hr2]
          exact he
        · have hacc' := mem_dictSet hacc hk hv
          simp only [hr2]
          split
          · rename_i u hu
            exact ⟨(validFields_iff _).mpr hacc', hc2.skipWs.behind hu⟩
          · rename_i u hu
            exact ih _ _ _ hacc' (hc2.skipWs.opened hu (c2.skipWs.pos + 1))
          · exact valid_expecting_comma
      · exact hcolon
  · exact hname

end

theorem scan_sane (fuel : Nat) : ScanSane L fuel := by
  induction fuel with
  | zero =>
    intro mode depth c _ _
    cases mode <;> trivial
  | succ fuel ih =>
    intro mode depth c hmode hc
    cases mode with
    | value => exact scan_value_sane ih hc
    | items acc => exact scan_items_sane ih hmode hc
    | fields acc => exact scan_fields_sane ih hmode hc

theorem loads_sane {s : PyStr} (hs : ValidStr s) : match loads L s with
    | .ok v => ValidJson v
    | .error e => e.Valid := by
  have hbom : ValidStr (pyStr "Unexpected UTF-8 BOM (decode using utf-8-sig)") := by decide
  have hextra : ValidStr (pyStr "Extra data") := by decide
  have hscan := scan_sane L (2 * s.length + 2) .value L.loadsDepth (Cursor.skipWs ⟨s, 0⟩) trivial
    (ValidStr.skipWs hs)
  unfold loads
  split_ifs
  · exact hbom
  · cases hr : scan L (2 * s.length + 2) .value L.loadsDepth (Cursor.skipWs ⟨s, 0⟩) with
    | error e =>
      rw [hr] at hscan
      exact hscan
    | ok r =>
      rw [hr] at hscan
      simp only
      split_ifs
      · exact hscan.1
      · exact hextra

end

end PyJson
