import Mathlib

/-! The string operations of Python that the host tools use, over lists of
characters, and the assignment of a `dict`. -/

namespace PyText

abbrev Text := List Char

/-- Named, so that a definition that compares texts refers to it and not to a proof of its own. -/
instance instLawfulBEqText : LawfulBEq Text := inferInstance

/-- `str.isspace` of one character. -/
def isSpace (c : Char) : Bool :=
  c.toNat ∈ [0x20, 0x85, 0xA0, 0x1680, 0x2028, 0x2029, 0x202F, 0x205F, 0x3000] ||
    (9 ≤ c.toNat && c.toNat ≤ 13) || (0x1C ≤ c.toNat && c.toNat ≤ 0x1F) ||
    (0x2000 ≤ c.toNat && c.toNat ≤ 0x200A)

def rstrip (s : Text) : Text := (s.reverse.dropWhile isSpace).reverse

def strip (s : Text) : Text := rstrip (s.dropWhile isSpace)

/-- The words of `str.split()`; `word` is the one being read, reversed. -/
def splitFrom (word : Text) : Text → List Text
  | [] => if word = [] then [] else [word.reverse]
  | c :: s =>
    if isSpace c then (if word = [] then [] else [word.reverse]) ++ splitFrom [] s
    else splitFrom (c :: word) s

def split (s : Text) : List Text := splitFrom [] s

/-- `decode("ascii", errors="replace")` of one byte. -/
def asciiChar (b : BitVec 8) : Char := if b < 0x80#8 then Char.ofNat b.toNat else '\uFFFD'

def decodeAscii (bytes : List (BitVec 8)) : Text := bytes.map asciiChar

def encodeAscii (s : Text) : List (BitVec 8) := s.map fun c => BitVec.ofNat 8 c.toNat

def fmtInt (n : Int) : Text :=
  if n < 0 then '-' :: Nat.toDigits 10 n.natAbs else Nat.toDigits 10 n.natAbs

def hexChar (d : Nat) : Char := if d < 10 then Char.ofNat (48 + d) else Char.ofNat (55 + d)

def upperHex (n : Nat) : Text := if n = 0 then ['0'] else (Nat.digits 16 n).reverse.map hexChar

def fmtHex (n : Int) : Text := if n < 0 then '-' :: upperHex n.natAbs else upperHex n.natAbs

/-- `{n:02X}` of a number that is not negative. -/
def fmtHex02 (n : Nat) : Text := List.replicate (2 - (upperHex n).length) '0' ++ upperHex n

/-- The value of an ASCII digit in some base up to 36. -/
def digit (base : Nat) (c : Char) : Option Nat :=
  let v := if '0' ≤ c ∧ c ≤ '9' then c.toNat - 48
    else if 'a' ≤ c ∧ c ≤ 'z' then c.toNat - 87
    else if 'A' ≤ c ∧ c ≤ 'Z' then c.toNat - 55
    else 36
  if v < base then some v else none

def digits (base acc : Nat) : Text → Option Nat
  | [] => none
  | c :: s => (digit base c).bind fun d =>
    match s with
    | [] => some (acc * base + d)
    | '_' :: s => digits base (acc * base + d) s
    | e :: s => digits base (acc * base + d) (e :: s)

def magnitude : Text → Option Nat
  | '0' :: c :: s =>
    if c = 'x' ∨ c = 'X' then digits 16 0 (if s.head? = some '_' then s.tail else s)
    else if c = 'o' ∨ c = 'O' then digits 8 0 (if s.head? = some '_' then s.tail else s)
    else if c = 'b' ∨ c = 'B' then digits 2 0 (if s.head? = some '_' then s.tail else s)
    else (digits 10 0 ('0' :: c :: s)).filter (· = 0)
  | s => digits 10 0 s

/-- `int(s, 0)`, with `none` for its `ValueError`. -/
def intBase0 (s : Text) : Option Int :=
  match strip s with
  | '-' :: s => (magnitude s).map fun n => -(n : Int)
  | '+' :: s => (magnitude s).map fun n => (n : Int)
  | s => (magnitude s).map fun n => (n : Int)

/-- `out[k] = v`: a key that is there keeps its place. -/
def dictSet {κ β : Type} [DecidableEq κ] (out : List (κ × β)) (k : κ) (v : β) : List (κ × β) :=
  if out.any (·.1 = k) then out.map fun e => if e.1 = k then (k, v) else e
  else out ++ [(k, v)]

def dictGet {κ β : Type} [DecidableEq κ] (d : List (κ × β)) (k : κ) : Option β :=
  (d.find? (·.1 = k)).map Prod.snd

theorem rstrip_append_space {s t : Text} (h : ∀ c ∈ t, isSpace c = true) :
    rstrip (s ++ t) = rstrip s := by
  rw [rstrip, List.reverse_append, List.dropWhile_append_of_pos]
  · rfl
  · intro c hc
    exact h c (List.mem_reverse.mp hc)

theorem rstrip_isPrefix (s : Text) : rstrip s <+: s := by
  have hh := List.reverse_prefix.mpr (List.dropWhile_suffix isSpace (l := s.reverse))
  rwa [List.reverse_reverse] at hh

theorem isPrefix_rstrip {p s : Text} {c : Char} (hc : isSpace c = false) (h : p ++ [c] <+: s) :
    p ++ [c] <+: rstrip s := by
  obtain ⟨t, rfl⟩ := h
  rw [rstrip, List.reverse_append]
  have hp : (p ++ [c]).reverse.dropWhile isSpace = (p ++ [c]).reverse := by
    simp [hc]
  rw [List.dropWhile_append]
  split
  · rw [hp, List.reverse_reverse]
  · rw [List.reverse_append, List.reverse_reverse]
    exact List.prefix_append _ _

theorem decodeAscii_isPrefix {a b : List (BitVec 8)} (h : a <+: b) :
    decodeAscii a <+: decodeAscii b :=
  h.map asciiChar

theorem digit_bounds {n : Nat} {c : Char} (hc : c ∈ Nat.toDigits 10 n) :
    48 ≤ c.toNat ∧ c.toNat ≤ 57 :=
  Char.isDigit_iff_toNat.mp (Nat.isDigit_of_mem_toDigits (by decide) (by decide) hc)

theorem toDigits_head {n : Nat} (hn : 0 < n) :
    ∃ c l, Nat.toDigits 10 n = c :: l ∧ c.toNat ≠ 48 := by
  induction n using Nat.strongRecOn with
  | _ n ih =>
    by_cases h : n < 10
    · refine ⟨_, _, Nat.toDigits_of_lt_base h, ?_⟩
      interval_cases n <;> decide
    · obtain ⟨c, l, hl, hc⟩ := ih (n / 10) (by omega) (by omega)
      rw [Nat.toDigits_of_base_le (by decide) (by omega), hl]
      exact ⟨c, _, rfl, hc⟩

end PyText
