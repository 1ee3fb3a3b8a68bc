import Mathlib.Algebra.GroupWithZero.Nat
import Mathlib.Data.List.Basic
import RecordFilter.Text.Digit

/-! # Digits and the numbers they spell

A run of digits is read up to the first character that is none, and digits written for a number
spell that number again. How many digits a number has tells between which powers of ten it lies.
-/

namespace RecordFilter.Text

/-- Reading a run of characters of one class stops before this text. -/
def Stops (p : Char → Bool) (rest : List Char) : Prop := ∀ c ∈ rest.head?, p c = false

theorem stops_nil (p : Char → Bool) : Stops p [] := by
  intro c hc
  cases hc

theorem stops_cons {p : Char → Bool} {c : Char} (h : p c = false) (cs : List Char) :
    Stops p (c :: cs) := by
  intro d hd
  cases hd
  exact h

theorem Stops.mono {p q : Char → Bool} {rest : List Char} (h : Stops p rest)
    (hq : ∀ c, q c = true → p c = true) : Stops q rest := by
  intro c hc
  rw [Bool.eq_false_iff]
  intro hqc
  exact absurd (hq c hqc) (Bool.eq_false_iff.mp (h c hc))

theorem Stops.append {p : Char → Bool} {cs rest : List Char} (h : Stops p cs)
    (hr : Stops p rest) : Stops p (cs ++ rest) := by
  cases cs with
  | nil => exact hr
  | cons c cs => exact stops_cons (h c rfl) _

theorem Stops.append_of_ne_nil {p : Char → Bool} {cs : List Char} (h : Stops p cs) (hne : cs ≠ [])
    (rest : List Char) : Stops p (cs ++ rest) := by
  intro c hc
  rw [List.head?_append_of_ne_nil _ hne] at hc
  exact h c hc

theorem Stops.left {p : Char → Bool} {cs rest : List Char} (h : Stops p (cs ++ rest)) :
    Stops p cs := by
  cases cs with
  | nil => exact stops_nil p
  | cons c cs => exact stops_cons (h c rfl) cs

theorem takeWhile_eq_nil_iff {p : Char → Bool} {cs : List Char} :
    cs.takeWhile p = [] ↔ Stops p cs := by
  cases cs with
  | nil => exact iff_of_true rfl (stops_nil p)
  | cons c cs =>
      cases hc : p c with
      | false => simp [hc, stops_cons hc]
      | true => simp [hc, Stops]

theorem takeWhile_append_of_stops {p : Char → Bool} {cs rest : List Char}
    (h : ∀ c ∈ cs, p c = true) (hr : Stops p rest) : (cs ++ rest).takeWhile p = cs := by
  rw [List.takeWhile_append_of_pos h]
  cases rest with
  | nil => exact List.append_nil cs
  | cons c rest => rw [List.takeWhile_cons_of_neg (by simp [hr c rfl]), List.append_nil]

theorem dropWhile_append_of_stops {p : Char → Bool} {cs rest : List Char}
    (h : ∀ c ∈ cs, p c = true) (hr : Stops p rest) : (cs ++ rest).dropWhile p = rest := by
  rw [List.dropWhile_append_of_pos h]
  cases rest with
  | nil => rfl
  | cons c rest => exact List.dropWhile_cons_of_neg (by simp [hr c rfl])

/-- Nothing but digits. -/
def AllDigits (cs : List Char) : Prop := ∀ c ∈ cs, isDigit c = true

namespace AllDigits

variable {xs ys : List Char}

theorem nil : AllDigits [] := by
  intro c hc
  cases hc

theorem cons {c : Char} (hc : isDigit c = true) (h : AllDigits xs) : AllDigits (c :: xs) :=
  List.forall_mem_cons.mpr ⟨hc, h⟩

theorem append (hx : AllDigits xs) (hy : AllDigits ys) : AllDigits (xs ++ ys) :=
  List.forall_mem_append.mpr ⟨hx, hy⟩

theorem zeros (n : Nat) : AllDigits (List.replicate n '0') := by
  intro c hc
  rw [List.eq_of_mem_replicate hc]
  rfl

theorem take (h : AllDigits xs) (n : Nat) : AllDigits (xs.take n) :=
  fun c hc => h c (List.mem_of_mem_take hc)

theorem drop (h : AllDigits xs) (n : Nat) : AllDigits (xs.drop n) :=
  fun c hc => h c (List.mem_of_mem_drop hc)

theorem digitsOf (n : Nat) : AllDigits (digitsOf n) :=
  fun _ hc => Nat.isDigit_of_mem_toDigits (by decide) (by decide) hc

theorem paddedDigits (width n : Nat) : AllDigits (paddedDigits width n) :=
  (zeros _).append (digitsOf n)

theorem takeDigits_append (h : AllDigits xs) {rest : List Char} (hr : Stops isDigit rest) :
    takeDigits (xs ++ rest) = (xs, rest) := by
  rw [takeDigits, takeWhile_append_of_stops h hr, dropWhile_append_of_stops h hr]

end AllDigits

theorem natOfDigits_append (xs ys : List Char) :
    natOfDigits (xs ++ ys) = 10 ^ ys.length * natOfDigits xs + natOfDigits ys := by
  rw [natOfDigits, Nat.ofDigitChars_append, Nat.ofDigitChars_eq_ofDigitChars_zero]
  rfl

theorem natOfDigits_zeros (n : Nat) : natOfDigits (List.replicate n '0') = 0 := by
  rw [natOfDigits, Nat.ofDigitChars_replicate_zero, Nat.mul_zero]

theorem natOfDigits_zeros_append (n : Nat) (xs : List Char) :
    natOfDigits (List.replicate n '0' ++ xs) = natOfDigits xs := by
  rw [natOfDigits_append, natOfDigits_zeros, Nat.mul_zero, Nat.zero_add]

theorem natOfDigits_append_zeros (xs : List Char) (n : Nat) :
    natOfDigits (xs ++ List.replicate n '0') = natOfDigits xs * 10 ^ n := by
  rw [natOfDigits_append, natOfDigits_zeros, List.length_replicate, Nat.add_zero, Nat.mul_comm]

theorem natOfDigits_paddedDigits (width n : Nat) : natOfDigits (paddedDigits width n) = n := by
  rw [paddedDigits, natOfDigits_zeros_append, natOfDigits_digitsOf]

theorem natOfDigits_lt {cs : List Char} (h : AllDigits cs) : natOfDigits cs < 10 ^ cs.length := by
  induction cs with
  | nil => decide
  | cons c cs ih =>
      rw [AllDigits, List.forall_mem_cons] at h
      have place : natOfDigits [c] ≤ 9 := by
        have bound : c.toNat ≤ 57 := by
          have := h.1
          simp only [isDigit, Bool.and_eq_true, decide_eq_true_eq] at this
          exact this.2
        have value : natOfDigits [c] = 10 * 0 + (c.toNat - 48) := Nat.ofDigitChars_cons
        omega
      have rest := ih h.2
      calc
        natOfDigits ([c] ++ cs) = 10 ^ cs.length * natOfDigits [c] + natOfDigits cs :=
            natOfDigits_append [c] cs
        _ ≤ 10 ^ cs.length * 9 + natOfDigits cs :=
            Nat.add_le_add_right (Nat.mul_le_mul_left _ place) _
        _ < 10 ^ (cs.length + 1) := by
            rw [Nat.pow_succ]
            omega

theorem digitCount_pos (n : Nat) : 0 < digitCount n := Nat.length_toDigits_pos

theorem digitCount_le_iff {n k : Nat} (hk : 0 < k) : digitCount n ≤ k ↔ n < 10 ^ k :=
  Nat.length_toDigits_le_iff (by decide) hk

theorem lt_pow_digitCount (n : Nat) : n < 10 ^ digitCount n :=
  (digitCount_le_iff (digitCount_pos n)).mp (Nat.le_refl _)

theorem pow_digitCount_le {n : Nat} (hn : n ≠ 0) : 10 ^ (digitCount n - 1) ≤ n := by
  cases h : digitCount n - 1 with
  | zero => exact Nat.one_le_iff_ne_zero.mpr hn
  | succ k =>
      apply Nat.le_of_not_lt
      intro hlt
      have := (digitCount_le_iff (Nat.succ_pos k)).mpr hlt
      omega

theorem length_paddedDigits {width n : Nat} (hw : 0 < width) (h : n < 10 ^ width) :
    (paddedDigits width n).length = width := by
  have hc : digitCount n ≤ width := (digitCount_le_iff hw).mpr h
  rw [paddedDigits, List.length_append, List.length_replicate]
  exact Nat.sub_add_cancel hc

end RecordFilter.Text
