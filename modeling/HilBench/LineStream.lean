import Mathlib

/-! Streams whose symbols remember which message they belong to, and reading such a
stream line by line. -/

namespace LineStream

variable {ι α : Type*}

def tagged (i : ι) (l : List α) : List (ι × α) := l.map (i, ·)

def text (s : List (ι × α)) : List α := s.map Prod.snd

def Only (i : ι) (s : List (ι × α)) : Prop := ∀ x ∈ s, x.1 = i

@[simp] theorem text_tagged (i : ι) (l : List α) : text (tagged i l) = l := by
  simp [text, tagged, Function.comp_def]

@[simp] theorem text_append (s t : List (ι × α)) : text (s ++ t) = text s ++ text t :=
  List.map_append

@[simp] theorem tagged_length (i : ι) (l : List α) : (tagged i l).length = l.length :=
  List.length_map _

@[simp] theorem tagged_append (i : ι) (l m : List α) :
    tagged i (l ++ m) = tagged i l ++ tagged i m :=
  List.map_append

theorem only_tagged (i : ι) (l : List α) : Only i (tagged i l) := by
  intro x hx
  obtain ⟨a, -, rfl⟩ := List.mem_map.mp hx
  rfl

theorem only_nil (i : ι) : Only i ([] : List (ι × α)) := by
  simp [Only]

theorem Only.append {i : ι} {s t : List (ι × α)} (hs : Only i s) (ht : Only i t) :
    Only i (s ++ t) := by
  intro x hx
  rcases List.mem_append.mp hx with h | h
  · exact hs x h
  · exact ht x h

theorem Only.of_isPrefix {i : ι} {s t : List (ι × α)} (h : s <+: t) (ht : Only i t) : Only i s :=
  fun x hx => ht x (h.subset hx)

theorem eq_of_break {p : α → Bool} {i : ι} {l : List α} {a : α} (hl : ∀ b ∈ l, p b = false)
    {s w : List (ι × α)} {x : ι × α} (h : s ++ x :: w = tagged i (l ++ [a]))
    (hx : p x.2 = true) : s ++ [x] = tagged i (l ++ [a]) ∧ w = [] := by
  rcases List.eq_nil_or_concat w with rfl | ⟨w', y, rfl⟩
  · exact ⟨h, rfl⟩
  · have hinit : s ++ x :: w' = tagged i l := by
      rw [tagged_append, List.concat_eq_append, ← List.cons_append, ← List.append_assoc] at h
      exact (List.append_inj' h rfl).1
    have hmem : x ∈ tagged i l := hinit ▸ List.mem_append_right s List.mem_cons_self
    obtain ⟨b, hb, rfl⟩ := List.mem_map.mp hmem
    rw [hl b hb] at hx
    cases hx

variable [DecidableEq α]

/-- A line with its terminator, or all there is when no terminator has come. -/
def takeLine (nl : α) : List (ι × α) → List (ι × α)
  | [] => []
  | x :: s => if x.2 = nl then [x] else x :: takeLine nl s

theorem takeLine_whole {nl : α} {l : List α} (h : nl ∉ l) (i : ι) (s : List (ι × α)) :
    takeLine nl (tagged i (l ++ [nl]) ++ s) = tagged i (l ++ [nl]) := by
  induction l with
  | nil => simp [tagged, takeLine]
  | cons a l ih =>
    obtain ⟨ha, hl⟩ : a ≠ nl ∧ nl ∉ l := by
      simpa [eq_comm] using h
    have hh := ih hl
    show (if a = nl then _ else _) = _
    rw [if_neg ha]
    exact congrArg _ hh

/-- One read with `n` symbols there in time: what it takes and what it leaves. -/
def readline (nl : α) (n : Nat) (s : List (ι × α)) : List (ι × α) × List (ι × α) :=
  (takeLine nl (s.take n), s.drop (takeLine nl (s.take n)).length)

theorem readline_whole {nl : α} {l : List α} (h : nl ∉ l) (i : ι) {n : Nat}
    (hn : l.length + 1 ≤ n) (s : List (ι × α)) :
    readline nl n (tagged i (l ++ [nl]) ++ s) = (tagged i (l ++ [nl]), s) := by
  have hlen : (tagged i (l ++ [nl])).length ≤ n := by simpa using hn
  have htake : (tagged i (l ++ [nl]) ++ s).take n =
      tagged i (l ++ [nl]) ++ s.take (n - (tagged i (l ++ [nl])).length) := by
    rw [List.take_append, List.take_of_length_le hlen]
  rw [readline, htake, takeLine_whole h, List.drop_left]

end LineStream
