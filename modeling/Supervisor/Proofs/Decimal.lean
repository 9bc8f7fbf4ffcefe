import Mathlib.Data.List.Basic
import Supervisor.Blank
import Supervisor.Decimal

/-!
# Printed numbers are read back

A number is printed as a run of ASCII digits, with a minus sign in front if it
is negative.  `digits?_toDigits` and `signed?_toString` say that reading such
a text gives the number again, `unsigned?_toString` says it of a natural number
where a plus sign is allowed, and `trimBlank_toString` that a line break behind
it does no harm.
-/

namespace Supervisor.Decimal

theorem isDigit_of_char {c : Char} (h : c.isDigit = true) : isDigit c = true := by
  simp only [Char.isDigit, Bool.and_eq_true, decide_eq_true_eq, ge_iff_le] at h
  simp only [isDigit, Bool.and_eq_true, decide_eq_true_eq]
  exact h

theorem isDigit_of_mem_toDigits {n : Nat} {c : Char} (h : c ∈ Nat.toDigits 10 n) :
    c.isDigit = true :=
  Nat.isDigit_of_mem_toDigits (by decide) (by decide) h

/-- The digits of a number have that number as their value. -/
theorem value_toDigits (n : Nat) : value (Nat.toDigits 10 n) = n := by
  have hfold : value (Nat.toDigits 10 n) = Nat.ofDigitChars 10 (Nat.toDigits 10 n) 0 :=
    Nat.ofDigitChars_eq_foldl.symm
  rw [hfold, Nat.ofDigitChars_ten_toDigits]

theorem digits?_toDigits {n bound : Nat} (h : n < bound) :
    digits? bound (Nat.toDigits 10 n) = some n := by
  have hall : (Nat.toDigits 10 n).all isDigit = true :=
    List.all_eq_true.mpr fun c hc => isDigit_of_char (isDigit_of_mem_toDigits hc)
  rw [digits?, value_toDigits, if_pos ⟨Nat.toDigits_ne_nil, hall, h⟩]

/-- A printed number has no plus sign in front and is read as it stands. -/
theorem unsigned?_toString {n bound : Nat} (h : n < bound) :
    unsigned? bound (toString n).toList = some n := by
  have htext : (toString n).toList = Nat.toDigits 10 n := Nat.toList_repr
  rw [htext]
  unfold unsigned?
  split
  · rename_i hplus
    have hdigit := isDigit_of_mem_toDigits (hplus ▸ List.mem_cons_self)
    exact absurd hdigit (by decide)
  · exact digits?_toDigits h

/-- The text of an integer: its digits, behind a minus sign if it is negative. -/
theorem toList_toString (i : Int) :
    (0 ≤ i ∧ (toString i).toList = Nat.toDigits 10 i.natAbs) ∨
      (i < 0 ∧ (toString i).toList = '-' :: Nat.toDigits 10 i.natAbs) := by
  cases i with
  | ofNat n =>
    left
    refine ⟨Int.natCast_nonneg n, ?_⟩
    show n.repr.toList = _
    rw [Nat.toList_repr]
    rfl
  | negSucc n =>
    right
    refine ⟨Int.negSucc_lt_zero n, ?_⟩
    show ("-" ++ n.succ.repr).toList = _
    rw [String.toList_append, Nat.toList_repr]
    rfl

/-- Digits are no signs, so they are read as they stand. -/
theorem signed?_of_digits {bound : Nat} {ds : List Char} (h : ∀ c ∈ ds, c.isDigit = true) :
    signed? bound ds = (digits? bound ds).map Int.ofNat := by
  unfold signed?
  split
  · exact absurd (h '-' List.mem_cons_self) (by decide)
  · exact absurd (h '+' List.mem_cons_self) (by decide)
  · rfl

theorem signed?_toString {i : Int} {bound : Nat} (hlow : -(bound : Int) ≤ i)
    (hhigh : i < (bound : Int)) : signed? bound (toString i).toList = some i := by
  rcases toList_toString i with ⟨hsign, htext⟩ | ⟨hsign, htext⟩
  · have habs : i.natAbs < bound := by omega
    rw [htext, signed?_of_digits fun c hc => isDigit_of_mem_toDigits hc, digits?_toDigits habs]
    show some (i.natAbs : Int) = some i
    congr 1
    omega
  · have habs : i.natAbs < bound + 1 := by omega
    rw [htext, signed?, digits?_toDigits habs]
    show some (-(i.natAbs : Int)) = some i
    congr 1
    omega

theorem isBlank_of_isDigit {c : Char} (h : c.isDigit = true) : isBlank c = false := by
  simp only [Char.isDigit, Bool.and_eq_true, decide_eq_true_eq, ge_iff_le,
    UInt32.le_iff_toNat_le] at h
  have hlow : 48 ≤ c.toNat := h.1
  have hhigh : c.toNat ≤ 57 := h.2
  simp only [isBlank, Bool.or_eq_false_iff, Bool.and_eq_false_iff, decide_eq_false_iff_not,
    beq_eq_false_iff_ne]
  omega

/-- No character of a printed number is blank. -/
theorem isBlank_of_mem_toString {i : Int} {c : Char} (h : c ∈ (toString i).toList) :
    isBlank c = false := by
  rcases toList_toString i with ⟨_, htext⟩ | ⟨_, htext⟩
  · rw [htext] at h
    exact isBlank_of_isDigit (isDigit_of_mem_toDigits h)
  · rw [htext] at h
    rcases List.mem_cons.mp h with rfl | hdigit
    · rfl
    · exact isBlank_of_isDigit (isDigit_of_mem_toDigits hdigit)

theorem dropWhile_isBlank {cs : List Char} (h : ∀ c ∈ cs, isBlank c = false) :
    cs.dropWhile isBlank = cs := by
  cases cs with
  | nil => rfl
  | cons c cs =>
    have hfirst : ¬ isBlank c = true := by simp [h c List.mem_cons_self]
    exact List.dropWhile_cons_of_neg hfirst

/-- A line break behind a printed number is trimmed off, and nothing else. -/
theorem trimBlank_toString (i : Int) :
    trimBlank ((toString i).toList ++ ['\n']) = (toString i).toList := by
  have hsolid : ∀ c ∈ (toString i).toList, isBlank c = false := fun c hc =>
    isBlank_of_mem_toString hc
  have hback : ∀ c ∈ (toString i).toList.reverse, isBlank c = false := fun c hc =>
    hsolid c (List.mem_reverse.mp hc)
  have hsome : (toString i).toList ≠ [] := by
    rcases toList_toString i with ⟨_, htext⟩ | ⟨_, htext⟩
    · exact htext ▸ Nat.toDigits_ne_nil
    · exact htext ▸ List.cons_ne_nil _ _
  have hfront : ((toString i).toList ++ ['\n']).dropWhile isBlank
      = (toString i).toList ++ ['\n'] := by
    rw [List.dropWhile_append, dropWhile_isBlank hsolid, if_neg]
    simpa using hsome
  have hbreak : isBlank '\n' = true := rfl
  rw [trimBlank, hfront, List.reverse_append, List.reverse_singleton, List.singleton_append,
    List.dropWhile_cons_of_pos hbreak, dropWhile_isBlank hback, List.reverse_reverse]

end Supervisor.Decimal
