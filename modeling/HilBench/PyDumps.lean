import HilBench.PyJson

/-! What `json.dumps` makes of a Python object, and the line of text that it spells. -/

namespace PyJson

/-- An object that the encoder hands to its `default`. -/
inductive Foreign
  | bytes (bs : List (BitVec 8)) | other (typeName : PyStr)
  deriving DecidableEq, Repr

inductive PyKey
  | str (s : PyStr) | int (n : Int) | float (x : PyFloat) | bool (b : Bool) | none
  | other (typeName : PyStr)
  deriving DecidableEq, Repr

/-- An object as the encoder sees it. A tuple is a list to it; `enclosing` is a container
that the object is inside of. -/
inductive PyObj
  | none | bool (b : Bool) | int (n : Int) | float (x : PyFloat) | str (s : PyStr)
  | list (xs : List PyObj) | dict (kvs : List (PyKey × PyObj))
  | enclosing | foreign (x : Foreign)
  deriving Repr

inductive DumpError
  | typeError (msg : PyStr) | valueError (msg : PyStr) | recursion
  deriving DecidableEq, Repr

/-- Printable ASCII. -/
abbrev Printable (s : PyStr) : Prop := ∀ c ∈ s, 0x20 ≤ c ∧ c ≤ 0x7E

/-- `float.__repr__`, of which no more is used than that it is printable. -/
abbrev FloatRepr := { repr : PyFloat → PyStr // ∀ x, Printable (repr x) }

/-- `int.__repr__` without its limit. -/
def intText (n : Int) : PyStr := (PyText.fmtInt n).map Char.toNat

def intRepr (L : Limits) (n : Int) : Except DumpError PyStr :=
  if (Nat.toDigits 10 n.natAbs).length > L.maxDigits then
    .error (.valueError (pyStr "Exceeds the limit for integer string conversion"))
  else .ok (intText n)

def keyText (L : Limits) (fr : FloatRepr) : PyKey → Except DumpError PyStr
  | .str s => .ok s
  | .int n => intRepr L n
  | .float x => .ok (fr.val x)
  | .bool b => .ok (if b then pyStr "true" else pyStr "false")
  | .none => .ok (pyStr "null")
  | .other t => .error (.typeError
      (pyStr "keys must be str, int, float, bool or None, not " ++ t))

section
variable (L : Limits) (fr : FloatRepr) (default : Foreign → Except DumpError PyStr)

mutual

/-- The document of an object, with `depth` more levels of containers to go. -/
def encode (depth : Nat) : PyObj → Except DumpError Json
  | .none => .ok .null
  | .bool b => .ok (.bool b)
  | .int n => (intRepr L n).map fun _ => .int n
  | .float x => .ok (.float x)
  | .str s => .ok (.str s)
  | .list xs =>
    match depth with
    | 0 => .error .recursion
    | depth + 1 => (encodeList depth xs).map .arr
  | .dict kvs =>
    match depth with
    | 0 => .error .recursion
    | depth + 1 => (encodeFields depth kvs).map .obj
  | .enclosing => .error (.valueError (pyStr "Circular reference detected"))
  | .foreign x => (default x).map .str

def encodeList (depth : Nat) : List PyObj → Except DumpError (List Json)
  | [] => .ok []
  | x :: xs => (encode depth x).bind fun v => (encodeList depth xs).map (v :: ·)

def encodeFields (depth : Nat) : List (PyKey × PyObj) → Except DumpError (List (PyStr × Json))
  | [] => .ok []
  | (k, x) :: kvs => (keyText L fr k).bind fun k => (encode depth x).bind fun v =>
      (encodeFields depth kvs).map ((k, v) :: ·)

end

end

mutual

/-- A document that has been read, as an object. -/
def ofJson : Json → PyObj
  | .null => .none
  | .bool b => .bool b
  | .int n => .int n
  | .float x => .float x
  | .str s => .str s
  | .arr xs => .list (ofJsonList xs)
  | .obj kvs => .dict (ofJsonFields kvs)

def ofJsonList : List Json → List PyObj
  | [] => []
  | x :: xs => ofJson x :: ofJsonList xs

def ofJsonFields : List (PyStr × Json) → List (PyKey × PyObj)
  | [] => []
  | (k, v) :: kvs => (.str k, ofJson v) :: ofJsonFields kvs

end

/-! The text of a document, as `json.dumps` writes it when it is given no indentation. -/

def hexDigit (n : Nat) : Nat := if n < 10 then 0x30 + n else 0x57 + n

/-- `\uXXXX` of a UTF-16 unit. -/
def escapeUnit (u : Nat) : PyStr :=
  [0x5C, 0x75, hexDigit (u / 4096 % 16), hexDigit (u / 256 % 16), hexDigit (u / 16 % 16),
    hexDigit (u % 16)]

def escapeChar (c : Nat) : PyStr :=
  if c = 0x22 then [0x5C, 0x22]
  else if c = 0x5C then [0x5C, 0x5C]
  else if c = 0x0A then [0x5C, 0x6E]
  else if c = 0x0D then [0x5C, 0x72]
  else if c = 0x09 then [0x5C, 0x74]
  else if c = 0x0C then [0x5C, 0x66]
  else if c = 0x08 then [0x5C, 0x62]
  else if 0x20 ≤ c ∧ c ≤ 0x7E then [c]
  else if c ≤ 0xFFFF then escapeUnit c
  else escapeUnit (0xD800 + (c - 0x10000) / 0x400) ++ escapeUnit (0xDC00 + (c - 0x10000) % 0x400)

def quote (s : PyStr) : PyStr := 0x22 :: s.flatMap escapeChar ++ [0x22]

def spellFloat (fr : FloatRepr) : PyFloat → PyStr
  | .nan => pyStr "NaN"
  | .infinite neg => if neg then pyStr "-Infinity" else pyStr "Infinity"
  | x => fr.val x

section
variable (fr : FloatRepr)

mutual

def spell : Json → PyStr
  | .null => pyStr "null"
  | .bool b => if b then pyStr "true" else pyStr "false"
  | .int n => intText n
  | .float x => spellFloat fr x
  | .str s => quote s
  | .arr xs => pyStr "[" ++ spellList xs ++ pyStr "]"
  | .obj kvs => pyStr "\x7b" ++ spellFields kvs ++ pyStr "\x7d"

def spellList : List Json → PyStr
  | [] => []
  | [x] => spell x
  | x :: y :: xs => spell x ++ pyStr ", " ++ spellList (y :: xs)

def spellFields : List (PyStr × Json) → PyStr
  | [] => []
  | [(k, v)] => quote k ++ pyStr ": " ++ spell v
  | (k, v) :: e :: kvs => quote k ++ pyStr ": " ++ spell v ++ pyStr ", " ++ spellFields (e :: kvs)

end

end

/-! A document is spelled on one line, in printable characters. -/

theorem intText_printable (n : Int) : Printable (intText n) := by
  intro c' h
  obtain ⟨c, hc, rfl⟩ := List.mem_map.mp h
  have hdigits : ∀ m, c ∈ Nat.toDigits 10 m → 0x30 ≤ c.toNat ∧ c.toNat ≤ 0x39 := fun m hm =>
    Char.isDigit_iff_toNat.mp (Nat.isDigit_of_mem_toDigits (by decide) (by decide) hm)
  unfold PyText.fmtInt at hc
  split at hc
  · rcases List.mem_cons.mp hc with rfl | hm
    · decide
    · have hd := hdigits _ hm
      omega
  · have hd := hdigits _ hc
    omega

theorem escapeUnit_printable (u : Nat) : Printable (escapeUnit u) := by
  have hd : ∀ n, n < 16 → 0x20 ≤ hexDigit n ∧ hexDigit n ≤ 0x7E := by
    intro n hn
    unfold hexDigit
    split <;> omega
  intro c hc
  simp only [escapeUnit, List.mem_cons, List.not_mem_nil, or_false] at hc
  rcases hc with rfl | rfl | rfl | rfl | rfl | rfl
  · decide
  · decide
  all_goals exact hd _ (Nat.mod_lt _ (by decide))

theorem Printable.append {s t : PyStr} (hs : Printable s) (ht : Printable t) :
    Printable (s ++ t) :=
  fun c hc => (List.mem_append.mp hc).elim (hs c) (ht c)

theorem escapeChar_printable (c : Nat) : Printable (escapeChar c) := by
  unfold escapeChar
  split_ifs with h1 h2 h3 h4 h5 h6 h7 h8 h9
  · decide
  · decide
  · decide
  · decide
  · decide
  · decide
  · decide
  · intro c' hc
    rw [List.mem_singleton.mp hc]
    exact h8
  · exact escapeUnit_printable _
  · exact (escapeUnit_printable _).append (escapeUnit_printable _)

theorem quote_printable (s : PyStr) : Printable (quote s) := by
  have hbody : Printable (s.flatMap escapeChar) := by
    intro c hc
    obtain ⟨x, -, hx⟩ := List.mem_flatMap.mp hc
    exact escapeChar_printable x c hx
  have hq : Printable [0x22] := by decide
  exact (hq.append hbody).append hq

theorem spellFloat_printable (fr : FloatRepr) (x : PyFloat) : Printable (spellFloat fr x) := by
  cases x with
  | nan =>
    show Printable (pyStr "NaN")
    decide
  | infinite neg =>
    have hh : ∀ neg : Bool, Printable (if neg then pyStr "-Infinity" else pyStr "Infinity") := by
      decide
    exact hh neg
  | decimal neg m e => exact fr.property _

section
variable (fr : FloatRepr)

mutual

theorem spell_printable : ∀ v : Json, Printable (spell fr v)
  | .null => by rw [spell]; decide
  | .bool b => by rw [spell]; cases b <;> decide
  | .int n => by rw [spell]; exact intText_printable n
  | .float x => by rw [spell]; exact spellFloat_printable fr x
  | .str s => by rw [spell]; exact quote_printable s
  | .arr xs => by
    have hl : Printable (pyStr "[") := by decide
    have hr : Printable (pyStr "]") := by decide
    rw [spell]
    exact (hl.append (spellList_printable xs)).append hr
  | .obj kvs => by
    have hl : Printable (pyStr "\x7b") := by decide
    have hr : Printable (pyStr "\x7d") := by decide
    rw [spell]
    exact (hl.append (spellFields_printable kvs)).append hr

theorem spellList_printable : ∀ xs : List Json, Printable (spellList fr xs)
  | [] => by rw [spellList]; decide
  | [x] => by rw [spellList]; exact spell_printable x
  | x :: y :: xs => by
    have hc : Printable (pyStr ", ") := by decide
    rw [spellList]
    exact ((spell_printable x).append hc).append (spellList_printable (y :: xs))

theorem spellFields_printable : ∀ kvs : List (PyStr × Json), Printable (spellFields fr kvs)
  | [] => by rw [spellFields]; decide
  | [(k, v)] => by
    have hc : Printable (pyStr ": ") := by decide
    rw [spellFields]
    exact ((quote_printable k).append hc).append (spell_printable v)
  | (k, v) :: e :: kvs => by
    have hc : Printable (pyStr ": ") := by decide
    have hs : Printable (pyStr ", ") := by decide
    rw [spellFields]
    exact ((((quote_printable k).append hc).append (spell_printable v)).append hs).append
      (spellFields_printable (e :: kvs))

end

theorem spell_clean (v : Json) : 0x0A ∉ spell fr v :=
  fun h => absurd (spell_printable fr v _ h) (by decide)

end

/-! What has been read is written back as it is. -/

section
variable {L : Limits} {fr : FloatRepr} {default : Foreign → Except DumpError PyStr}

mutual

theorem encode_ofJson : ∀ (v : Json) {depth : Nat} {w : Json},
    encode L fr default depth (ofJson v) = .ok w → w = v
  | .null, _, _, h => by cases h; rfl
  | .bool b, _, _, h => by cases h; rfl
  | .int n, _, _, h => by
    rw [ofJson, encode] at h
    cases hr : intRepr L n with
    | error e => rw [hr] at h; cases h
    | ok t => rw [hr] at h; cases h; rfl
  | .float x, _, _, h => by cases h; rfl
  | .str s, _, _, h => by cases h; rfl
  | .arr xs, depth, w, h => by
    cases depth with
    | zero => cases h
    | succ depth =>
      rw [ofJson, encode] at h
      cases hr : encodeList L fr default depth (ofJsonList xs) with
      | error e => simp only [hr] at h; cases h
      | ok ys =>
        simp only [hr] at h
        cases h
        rw [encodeList_ofJson xs hr]
  | .obj kvs, depth, w, h => by
    cases depth with
    | zero => cases h
    | succ depth =>
      rw [ofJson, encode] at h
      cases hr : encodeFields L fr default depth (ofJsonFields kvs) with
      | error e => simp only [hr] at h; cases h
      | ok ys =>
        simp only [hr] at h
        cases h
        rw [encodeFields_ofJson kvs hr]

theorem encodeList_ofJson : ∀ (xs : List Json) {depth : Nat} {ys : List Json},
    encodeList L fr default depth (ofJsonList xs) = .ok ys → ys = xs
  | [], _, _, h => by cases h; rfl
  | x :: xs, depth, ys, h => by
    rw [ofJsonList, encodeList] at h
    cases hx : encode L fr default depth (ofJson x) with
    | error e => rw [hx] at h; cases h
    | ok v =>
      rw [hx] at h
      cases hxs : encodeList L fr default depth (ofJsonList xs) with
      | error e => simp only [Except.bind, hxs] at h; cases h
      | ok vs =>
        simp only [Except.bind, hxs] at h
        cases h
        rw [encode_ofJson x hx, encodeList_ofJson xs hxs]

theorem encodeFields_ofJson : ∀ (kvs : List (PyStr × Json)) {depth : Nat} {ys : List (PyStr × Json)},
    encodeFields L fr default depth (ofJsonFields kvs) = .ok ys → ys = kvs
  | [], _, _, h => by cases h; rfl
  | (k, v) :: kvs, depth, ys, h => by
    rw [ofJsonFields, encodeFields] at h
    simp only [keyText, Except.bind] at h
    cases hx : encode L fr default depth (ofJson v) with
    | error e => rw [hx] at h; cases h
    | ok w =>
      rw [hx] at h
      cases hxs : encodeFields L fr default depth (ofJsonFields kvs) with
      | error e => simp only [hxs] at h; cases h
      | ok vs =>
        simp only [hxs] at h
        cases h
        rw [encode_ofJson v hx, encodeFields_ofJson kvs hxs]

end

end

/-! No document that has been read needs a default. -/

section
variable {L : Limits} {fr : FloatRepr} (d₁ d₂ : Foreign → Except DumpError PyStr)

mutual

theorem encode_ofJson_default : ∀ (v : Json) (depth : Nat),
    encode L fr d₁ depth (ofJson v) = encode L fr d₂ depth (ofJson v)
  | .null, _ | .bool _, _ | .int _, _ | .float _, _ | .str _, _ => rfl
  | .arr xs, depth => by
    cases depth with
    | zero => rfl
    | succ depth => simp only [ofJson, encode, encodeList_ofJson_default xs depth]
  | .obj kvs, depth => by
    cases depth with
    | zero => rfl
    | succ depth => simp only [ofJson, encode, encodeFields_ofJson_default kvs depth]

theorem encodeList_ofJson_default : ∀ (xs : List Json) (depth : Nat),
    encodeList L fr d₁ depth (ofJsonList xs) = encodeList L fr d₂ depth (ofJsonList xs)
  | [], _ => rfl
  | x :: xs, depth => by
    simp only [ofJsonList, encodeList, encode_ofJson_default x depth,
      encodeList_ofJson_default xs depth]

theorem encodeFields_ofJson_default : ∀ (kvs : List (PyStr × Json)) (depth : Nat),
    encodeFields L fr d₁ depth (ofJsonFields kvs) = encodeFields L fr d₂ depth (ofJsonFields kvs)
  | [], _ => rfl
  | (k, v) :: kvs, depth => by
    simp only [ofJsonFields, encodeFields, encode_ofJson_default v depth,
      encodeFields_ofJson_default kvs depth]

end

end

end PyJson
