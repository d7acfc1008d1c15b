import HilBench.PyText

/-! JSON as the `json` module of Python reads and writes it, with the limits that the
interpreter puts on both. -/

namespace PyJson

/-- A `str`, by its code points, lone surrogates included. -/
abbrev PyStr := List Nat

def pyStr (s : String) : PyStr := s.toList.map Char.toNat

/-- A `float`: the double nearest to a decimal, or none of the numbers. -/
inductive PyFloat
  | nan | infinite (neg : Bool) | decimal (neg : Bool) (m : Nat) (e : Int)
  deriving DecidableEq, Repr

/-- Half of the least positive double rounds to zero. -/
def PyFloat.isZero : PyFloat → Bool
  | .decimal _ m e => if e < 0 then m * 2 ^ 1075 ≤ 10 ^ e.natAbs else m = 0
  | _ => false

inductive Json
  | null | bool (b : Bool) | int (n : Int) | float (x : PyFloat) | str (s : PyStr)
  | arr (xs : List Json) | obj (kvs : List (PyStr × Json))
  deriving Repr

def Json.truthy : Json → Bool
  | .null => false
  | .bool b => b
  | .int n => n ≠ 0
  | .float x => !x.isZero
  | .str s => s ≠ []
  | .arr xs => !xs.isEmpty
  | .obj kvs => !kvs.isEmpty

/-- Digits that an `int` may have in a conversion, and how deep containers may nest in a
document that is read or written at this point of the call stack. An object in an object
can be written. -/
structure Limits where
  maxDigits : Nat
  loadsDepth : Nat
  dumpsDepth : Nat
  nests : 2 ≤ dumpsDepth

/-! Reading. -/

/-- How reading fails: a `JSONDecodeError`, the `ValueError` for too many digits, a
`RecursionError`. The model itself may lack fuel, which `loads` does not (`loads_fuel`). -/
inductive LoadError
  | decode (msg : PyStr) (pos : Nat) | intDigits | recursion | outOfFuel
  deriving DecidableEq, Repr

/-- What is left of the text, and its index. -/
structure Cursor where
  rest : PyStr
  pos : Nat
  deriving DecidableEq, Repr

def isWs (c : Nat) : Bool := c = 0x20 || c = 0x09 || c = 0x0A || c = 0x0D

def Cursor.skipWs (c : Cursor) : Cursor :=
  ⟨c.rest.dropWhile isWs, c.pos + (c.rest.takeWhile isWs).length⟩

def isDigit (c : Nat) : Bool := 0x30 ≤ c && c ≤ 0x39

def hexVal (c : Nat) : Option Nat :=
  if isDigit c then some (c - 0x30)
  else if 0x61 ≤ c ∧ c ≤ 0x66 then some (c - 0x57)
  else if 0x41 ≤ c ∧ c ≤ 0x46 then some (c - 0x37)
  else none

def hex4 (a b c d : Nat) : Option Nat :=
  match hexVal a, hexVal b, hexVal c, hexVal d with
  | some a, some b, some c, some d => some (((a * 16 + b) * 16 + c) * 16 + d)
  | _, _, _, _ => none

def isHigh (c : Nat) : Bool := 0xD800 ≤ c && c ≤ 0xDBFF

def isLow (c : Nat) : Bool := 0xDC00 ≤ c && c ≤ 0xDFFF

def unescape (c : Nat) : Option Nat :=
  if c = 0x22 ∨ c = 0x5C ∨ c = 0x2F then some c
  else if c = 0x62 then some 0x08
  else if c = 0x66 then some 0x0C
  else if c = 0x6E then some 0x0A
  else if c = 0x72 then some 0x0D
  else if c = 0x74 then some 0x09
  else none

/-- The rest of a string that started at `start`; `acc` is what has been read, reversed. -/
def scanString (start : Nat) : PyStr → PyStr → Nat → Except LoadError (PyStr × Cursor)
  | [], _, _ => .error (.decode (pyStr "Unterminated string starting at") start)
  | 0x22 :: s, acc, pos => .ok (acc.reverse, ⟨s, pos + 1⟩)
  | [0x5C], _, _ => .error (.decode (pyStr "Unterminated string starting at") start)
  | 0x5C :: 0x75 :: a :: b :: c :: d :: 0x5C :: 0x75 :: e :: f :: g :: h :: x :: s, acc, pos =>
    match hex4 a b c d with
    | none => .error (.decode (pyStr "Invalid \\uXXXX escape") (pos + 1))
    | some u =>
      if isHigh u then
        match hex4 e f g h with
        | none => .error (.decode (pyStr "Invalid \\uXXXX escape") (pos + 7))
        | some v =>
          if isLow v then
            scanString start (x :: s) ((0x10000 + (u - 0xD800) * 0x400 + (v - 0xDC00)) :: acc)
              (pos + 12)
          else scanString start (0x5C :: 0x75 :: e :: f :: g :: h :: x :: s) (u :: acc) (pos + 6)
      else scanString start (0x5C :: 0x75 :: e :: f :: g :: h :: x :: s) (u :: acc) (pos + 6)
  | 0x5C :: 0x75 :: a :: b :: c :: d :: x :: s, acc, pos =>
    match hex4 a b c d with
    | none => .error (.decode (pyStr "Invalid \\uXXXX escape") (pos + 1))
    | some u => scanString start (x :: s) (u :: acc) (pos + 6)
  | 0x5C :: c :: s, acc, pos =>
    if c = 0x75 then .error (.decode (pyStr "Invalid \\uXXXX escape") (pos + 1))
    else
      match unescape c with
      | none => .error (.decode (pyStr "Invalid \\escape") pos)
      | some u => scanString start s (u :: acc) (pos + 2)
  | c :: s, acc, pos =>
    if c ≤ 0x1F then .error (.decode (pyStr "Invalid control character at") pos)
    else scanString start s (c :: acc) (pos + 1)

def spanDigits (s : PyStr) : PyStr × PyStr := (s.takeWhile isDigit, s.dropWhile isDigit)

def natOf (digits : PyStr) : Nat := digits.foldl (fun n d => n * 10 + (d - 0x30)) 0

def intPart : PyStr → Option (PyStr × PyStr)
  | 0x30 :: s => some ([0x30], s)
  | s => if (spanDigits s).1 = [] then none else some (spanDigits s)

def fracPart : PyStr → PyStr × PyStr
  | 0x2E :: s => if (spanDigits s).1 = [] then ([], 0x2E :: s) else spanDigits s
  | s => ([], s)

def expPart : PyStr → Option Int × PyStr
  | c :: s =>
    if c = 0x65 ∨ c = 0x45 then
      let neg := s.head? = some 0x2D
      let s' := if s.head? = some 0x2D ∨ s.head? = some 0x2B then s.tail else s
      if (spanDigits s').1 = [] then (none, c :: s)
      else
        let n : Int := natOf (spanDigits s').1
        (some (if neg then -n else n), (spanDigits s').2)
    else (none, c :: s)
  | [] => (none, [])

def expectingValue (pos : Nat) : LoadError := .decode (pyStr "Expecting value") pos

def scanNumber (L : Limits) (c : Cursor) : Except LoadError (Json × Cursor) :=
  let neg : Bool := c.rest.head? = some 0x2D
  match intPart (if neg then c.rest.tail else c.rest) with
  | none => .error (expectingValue c.pos)
  | some (ds, s) =>
    let (frac, s) := fracPart s
    let (exp, s) := expPart s
    let c' : Cursor := ⟨s, c.pos + (c.rest.length - s.length)⟩
    if frac = [] ∧ exp = none then
      if ds.length > L.maxDigits then .error .intDigits
      else .ok (.int (if neg then -(natOf ds : Int) else natOf ds), c')
    else .ok (.float (.decimal neg (natOf (ds ++ frac)) (exp.getD 0 - frac.length)), c')

def constants : List (PyStr × Json) :=
  [(pyStr "null", .null), (pyStr "true", .bool true), (pyStr "false", .bool false),
    (pyStr "NaN", .float .nan), (pyStr "Infinity", .float (.infinite false)),
    (pyStr "-Infinity", .float (.infinite true))]

def scanAtom (L : Limits) (c : Cursor) : Except LoadError (Json × Cursor) :=
  match constants.find? fun k => k.1.isPrefixOf c.rest with
  | some k => .ok (k.2, ⟨c.rest.drop k.1.length, c.pos + k.1.length⟩)
  | none => scanNumber L c

/-- Where the scanner is: before a value, before an item of an array, before a key of an
object. -/
inductive Mode
  | value | items (acc : List Json) | fields (acc : List (PyStr × Json))

/-- The scanner, with `depth` more levels of containers to go. -/
def scan (L : Limits) : Nat → Mode → Nat → Cursor → Except LoadError (Json × Cursor)
  | 0, _, _, _ => .error .outOfFuel
  | fuel + 1, .value, depth, c =>
    match c.rest with
    | 0x22 :: s => (scanString c.pos s [] (c.pos + 1)).map fun r => (.str r.1, r.2)
    | 0x7B :: s =>
      match depth with
      | 0 => .error .recursion
      | depth + 1 =>
        let c := Cursor.skipWs ⟨s, c.pos + 1⟩
        match c.rest with
        | 0x7D :: s => .ok (.obj [], ⟨s, c.pos + 1⟩)
        | _ => scan L fuel (.fields []) depth c
    | 0x5B :: s =>
      match depth with
      | 0 => .error .recursion
      | depth + 1 =>
        let c := Cursor.skipWs ⟨s, c.pos + 1⟩
        match c.rest with
        | 0x5D :: s => .ok (.arr [], ⟨s, c.pos + 1⟩)
        | _ => scan L fuel (.items []) depth c
    | _ => scanAtom L c
  | fuel + 1, .items acc, depth, c =>
    match scan L fuel .value depth c with
    | .error e => .error e
    | .ok (v, c) =>
      let c := c.skipWs
      match c.rest with
      | 0x5D :: s => .ok (.arr (acc ++ [v]), ⟨s, c.pos + 1⟩)
      | 0x2C :: s => scan L fuel (.items (acc ++ [v])) depth (Cursor.skipWs ⟨s, c.pos + 1⟩)
      | _ => .error (.decode (pyStr "Expecting ',' delimiter") c.pos)
  | fuel + 1, .fields acc, depth, c =>
    match c.rest with
    | 0x22 :: s =>
      match scanString c.pos s [] (c.pos + 1) with
      | .error e => .error e
      | .ok (k, c) =>
        let c := c.skipWs
        match c.rest with
        | 0x3A :: s =>
          match scan L fuel .value depth (Cursor.skipWs ⟨s, c.pos + 1⟩) with
          | .error e => .error e
          | .ok (v, c) =>
            let c := c.skipWs
            match c.rest with
            | 0x7D :: s => .ok (.obj (PyText.dictSet acc k v), ⟨s, c.pos + 1⟩)
            | 0x2C :: s =>
              scan L fuel (.fields (PyText.dictSet acc k v)) depth (Cursor.skipWs ⟨s, c.pos + 1⟩)
            | _ => .error (.decode (pyStr "Expecting ',' delimiter") c.pos)
        | _ => .error (.decode (pyStr "Expecting ':' delimiter") c.pos)
    | _ => .error (.decode (pyStr "Expecting property name enclosed in double quotes") c.pos)

/-- `json.loads` of a `str`. -/
def loads (L : Limits) (s : PyStr) : Except LoadError Json :=
  if s.head? = some 0xFEFF then
    .error (.decode (pyStr "Unexpected UTF-8 BOM (decode using utf-8-sig)") 0)
  else
    match scan L (2 * s.length + 2) .value L.loadsDepth (Cursor.skipWs ⟨s, 0⟩) with
    | .error e => .error e
    | .ok (v, c) =>
      let c := c.skipWs
      if c.rest = [] then .ok v else .error (.decode (pyStr "Extra data") c.pos)

/-! The scanner always has fuel: each step leaves less of the text. -/

/-- A result that leaves less than `n` characters, or an error of the source. -/
def Progress {α : Type} (n : Nat) : Except LoadError (α × Cursor) → Prop
  | .ok r => r.2.rest.length < n
  | .error e => e ≠ .outOfFuel

theorem Progress.mono {α : Type} {m n : Nat} {r : Except LoadError (α × Cursor)}
    (h : Progress m r) (hmn : m ≤ n) : Progress n r := by
  cases r with
  | error e => exact h
  | ok r => exact lt_of_lt_of_le h hmn

theorem Progress.map {α β : Type} {n : Nat} {r : Except LoadError (α × Cursor)} (f : α → β)
    (h : Progress n r) : Progress n (r.map fun x => (f x.1, x.2)) := by
  cases r with
  | error e => exact h
  | ok r => exact h

theorem skipWs_length (c : Cursor) : c.skipWs.rest.length ≤ c.rest.length :=
  (List.dropWhile_suffix isWs).length_le

theorem scanString_progress (start : Nat) (s acc : PyStr) (pos : Nat) :
    Progress (s.length + 1) (scanString start s acc pos) := by
  fun_induction scanString start s acc pos with
  | case1 | case3 | case4 | case5 | case9 | case11 | case12 | case14 => simp [Progress]
  | case2 => simp [Progress]
  | case6 | case7 | case8 | case10 | case13 | case15 =>
    rename_i ih
    exact ih.mono (by simp only [List.length_cons]; omega)

theorem intPart_length {s ds r : PyStr} (h : intPart s = some (ds, r)) : r.length < s.length := by
  unfold intPart at h
  split at h
  · cases h
    simp
  · split at h
    · exact absurd h (by simp)
    · rename_i hne
      simp only [spanDigits, Option.some.injEq, Prod.mk.injEq] at h hne
      obtain ⟨rfl, rfl⟩ := h
      have hsum := congrArg List.length (List.takeWhile_append_dropWhile (p := isDigit) (l := s))
      rw [List.length_append] at hsum
      have hpos := List.length_pos_of_ne_nil hne
      omega

theorem fracPart_length (s : PyStr) : (fracPart s).2.length ≤ s.length := by
  unfold fracPart
  split
  · split
    · exact le_rfl
    · exact (List.dropWhile_suffix isDigit).length_le.trans (Nat.le_succ _)
  · exact le_rfl

theorem expPart_length (s : PyStr) : (expPart s).2.length ≤ s.length := by
  cases s with
  | nil => exact le_rfl
  | cons c s =>
    have hspan : ∀ t : PyStr, t.length ≤ s.length → (spanDigits t).2.length ≤ (c :: s).length := by
      intro t ht
      exact (List.dropWhile_suffix isDigit).length_le.trans (ht.trans (Nat.le_succ _))
    simp only [expPart]
    split_ifs
    all_goals first
      | exact le_rfl
      | exact hspan _ (by simp)

theorem scanNumber_progress (L : Limits) (c : Cursor) :
    Progress c.rest.length (scanNumber L c) := by
  unfold scanNumber
  simp only
  cases hi : intPart (if c.rest.head? = some 0x2D then c.rest.tail else c.rest) with
  | none =>
    simp only [decide_eq_true_eq, hi]
    exact fun h => nomatch h
  | some r =>
    obtain ⟨ds, s⟩ := r
    have hs := intPart_length hi
    have htail : (if c.rest.head? = some 0x2D then c.rest.tail else c.rest).length ≤
        c.rest.length := by
      split <;> simp
    have hf := fracPart_length s
    have he := expPart_length (fracPart s).2
    have hlt : (expPart (fracPart s).2).2.length < c.rest.length := by omega
    simp only [decide_eq_true_eq, hi]
    split
    · split
      · exact fun h => nomatch h
      · exact hlt
    · exact hlt

theorem scanAtom_progress (L : Limits) (c : Cursor) : Progress c.rest.length (scanAtom L c) := by
  unfold scanAtom
  cases hk : constants.find? fun k => k.1.isPrefixOf c.rest with
  | none => exact scanNumber_progress L c
  | some k =>
    have hne : 0 < k.1.length := by
      have hall : ∀ k ∈ constants, 0 < k.1.length := by
        simp only [constants, List.forall_mem_cons]
        decide
      exact hall k (List.mem_of_find?_eq_some hk)
    have hle := (List.isPrefixOf_iff_prefix.mp
      (List.find?_some (p := fun k : PyStr × Json => k.1.isPrefixOf c.rest) hk)).length_le
    show (c.rest.drop k.1.length).length < c.rest.length
    rw [List.length_drop]
    omega

/-- The fuel that is enough. -/
def Mode.need : Mode → Nat → Nat
  | .value, n => 2 * n + 1
  | _, n => 2 * n + 2

theorem skipWs_rest_length {s t : PyStr} {pos x : Nat} (h : (Cursor.skipWs ⟨s, pos⟩).rest = x :: t) :
    t.length < s.length := by
  have hle := skipWs_length ⟨s, pos⟩
  rw [h] at hle
  exact hle

def ScansWith (L : Limits) (fuel : Nat) : Prop :=
  ∀ mode depth (c : Cursor), mode.need c.rest.length ≤ fuel →
    Progress c.rest.length (scan L fuel mode depth c)

section
variable {L : Limits} {fuel depth : Nat} {c : Cursor}

-- behind a character that has been read there is less text, and fuel for two steps more
theorem ScansWith.skip (ih : ScansWith L fuel) {s : PyStr} {n : Nat} (hs : s.length < n)
    (hn : 2 * n ≤ fuel) (mode : Mode) (depth pos : Nat) :
    Progress n (scan L fuel mode depth (Cursor.skipWs ⟨s, pos⟩)) := by
  have hle : (Cursor.skipWs ⟨s, pos⟩).rest.length ≤ s.length := skipWs_length ⟨s, pos⟩
  have hneed : mode.need (Cursor.skipWs ⟨s, pos⟩).rest.length ≤ fuel := by
    cases mode <;> simp only [Mode.need] <;> omega
  exact (ih mode depth _ hneed).mono (by omega)

theorem ScansWith.value (ih : ScansWith L fuel)
    (h : Mode.need .value c.rest.length ≤ fuel + 1) :
    Progress c.rest.length (scan L (fuel + 1) .value depth c) := by
  have hn : 2 * c.rest.length ≤ fuel := Nat.le_of_succ_le_succ h
  have hopen : ∀ {x : Nat} {s : PyStr}, c.rest = x :: s → s.length < c.rest.length := by
    intro x s hs
    rw [hs]
    exact Nat.lt_succ_self _
  rw [scan]
  split
  · rename_i s hs
    rw [hs]
    exact (scanString_progress c.pos s [] (c.pos + 1)).map Json.str
  · rename_i s hs
    split
    · exact fun he => nomatch he
    · simp only
      split
      · rename_i t ht
        exact (skipWs_rest_length ht).trans (hopen hs)
      · exact ih.skip (hopen hs) hn _ _ _
  · rename_i s hs
    split
    · exact fun he => nomatch he
    · simp only
      split
      · rename_i t ht
        exact (skipWs_rest_length ht).trans (hopen hs)
      · exact ih.skip (hopen hs) hn _ _ _
  · exact scanAtom_progress L c

theorem ScansWith.items (ih : ScansWith L fuel) {acc : List Json}
    (h : Mode.need (.items acc) c.rest.length ≤ fuel + 1) :
    Progress c.rest.length (scan L (fuel + 1) (.items acc) depth c) := by
  have hn : 2 * c.rest.length + 1 ≤ fuel := Nat.le_of_succ_le_succ h
  have hv := ih .value depth c hn
  rw [scan]
  cases hr : scan L fuel .value depth c with
  | error e =>
    rw [hr] at hv
    exact hv
  | ok r =>
    obtain ⟨v, c1⟩ := r
    rw [hr] at hv
    have hlt : c1.rest.length < c.rest.length := hv
    simp only
    split
    · rename_i s hs
      exact (skipWs_rest_length hs).trans hlt
    · rename_i s hs
      exact ih.skip ((skipWs_rest_length hs).trans hlt) (by omega) _ _ _
    · exact fun he => nomatch he

theorem ScansWith.fields (ih : ScansWith L fuel) {acc : List (PyStr × Json)}
    (h : Mode.need (.fields acc) c.rest.length ≤ fuel + 1) :
    Progress c.rest.length (scan L (fuel + 1) (.fields acc) depth c) := by
  have hn : 2 * c.rest.length + 1 ≤ fuel := Nat.le_of_succ_le_succ h
  rw [scan]
  split
  · rename_i s hs
    have hk := scanString_progress c.pos s [] (c.pos + 1)
    rw [hs, List.length_cons] at hn ⊢
    cases hr : scanString c.pos s [] (c.pos + 1) with
    | error e =>
      rw [hr] at hk
      exact hk
    | ok r =>
      obtain ⟨k, c1⟩ := r
      rw [hr] at hk
      have hlt : c1.rest.length < s.length + 1 := hk
      simp only
      split
      · rename_i t ht
        have hv := ih.skip ((skipWs_rest_length ht).trans hlt) (by omega) .value depth
          (c1.skipWs.pos + 1)
        cases hr2 : scan L fuel .value depth (Cursor.skipWs ⟨t, c1.skipWs.pos + 1⟩) with
        | error e =>
          rw [hr2] at hv
          exact hv
        | ok r2 =>
          obtain ⟨v, c2⟩ := r2
          rw [hr2] at hv
          have hlt2 : c2.rest.length < s.length + 1 := hv
          simp only
          split
          · rename_i u hu
            exact (skipWs_rest_length hu).trans hlt2
          · rename_i u hu
            exact ih.skip ((skipWs_rest_length hu).trans hlt2) (by omega) _ _ _
          · exact fun he => nomatch he
      · exact fun he => nomatch he
  · exact fun he => nomatch he

end

theorem scan_progress (L : Limits) (fuel : Nat) : ScansWith L fuel := by
  induction fuel with
  | zero =>
    intro mode depth c h
    cases mode <;> simp [Mode.need] at h
  | succ fuel ih =>
    intro mode depth c h
    cases mode with
    | value => exact ih.value h
    | items acc => exact ih.items h
    | fields acc => exact ih.fields h

theorem loads_fuel (L : Limits) (s : PyStr) : loads L s ≠ .error .outOfFuel := by
  have hle := skipWs_length ⟨s, 0⟩
  have hp := scan_progress L (2 * s.length + 2) .value L.loadsDepth (Cursor.skipWs ⟨s, 0⟩)
    (by simp only [Mode.need]; simp only at hle; omega)
  unfold loads
  split
  · exact fun h => nomatch h
  · split
    · rename_i e he
      rw [he] at hp
      exact fun h => hp (by injection h)
    · simp only
      split
      · exact fun h => nomatch h
      · exact fun h => nomatch h

end PyJson
