import Mathlib.Data.Nat.Init
import Mathlib.Data.List.Basic

/-
  Decimal numerals as bytes.

  Numbers are written without leading zeros, negative ones
  with a sign in front, and read as the value of a sequence
  of digits.

  Key definitions include:
    * `Decimal.isDigit`
    * `Decimal.value`
    * `Decimal.ofNat`
    * `Decimal.ofInt`

  Key theorems include:
    * `Decimal.isDigit_of_mem_ofNat`
    * `Decimal.takeWhile_ofNat`
    * `Decimal.value_ofNat`
-/

namespace Decimal

/- The byte is one of `0` to `9`. -/
def isDigit (c : UInt8) : Bool :=
  decide (48 ≤ c) && decide (c ≤ 57)

/- The value of a sequence of digits. -/
def value (digits : List UInt8) : Nat :=
  digits.foldl (fun n d => 10 * n + (d.toNat - 48)) 0

/- The digits of a number. -/
def ofNat (n : Nat) : List UInt8 :=
  (Nat.toDigits 10 n).map Char.toUInt8

/- A number with its sign. -/
def ofInt : Int → List UInt8
| .ofNat n => ofNat n
| .negSucc n => 45 :: ofNat (n + 1)

/- The digit of a number below ten. -/
theorem digitChar_spec :
    ∀ d < 10,
      isDigit (Nat.digitChar d).toUInt8 = true ∧
        (Nat.digitChar d).toUInt8.toNat - 48 = d := by
  decide

/- Numbers below ten have one digit, others one more. -/
theorem ofNat_of_lt {n : Nat} (hLess : n < 10) :
    ofNat n = [(Nat.digitChar n).toUInt8] := by
  unfold ofNat
  rw [Nat.toDigits_of_lt_base hLess]
  rfl

theorem ofNat_of_le {n : Nat} (hLe : 10 ≤ n) :
    ofNat n =
      ofNat (n / 10) ++ [(Nat.digitChar (n % 10)).toUInt8] := by
  unfold ofNat
  rw [Nat.toDigits_of_base_le (by decide) hLe,
    List.map_append]
  rfl

theorem isDigit_of_mem_ofNat
    (n : Nat) :
    ∀ c ∈ ofNat n, isDigit c = true := by
  induction n using Nat.strong_induction_on with
  | _ n ih =>
      intro c hc
      by_cases hLess : n < 10
      · rw [ofNat_of_lt hLess] at hc
        rw [List.mem_singleton.mp hc]
        exact (digitChar_spec n hLess).1
      · have hLe : 10 ≤ n := Nat.le_of_not_lt hLess
        rw [ofNat_of_le hLe] at hc
        rcases List.mem_append.mp hc with hFront | hLast
        · exact ih (n / 10) (by omega) c hFront
        · rw [List.mem_singleton.mp hLast]
          exact (digitChar_spec (n % 10) (by omega)).1

theorem mem_ofInt
    {i : Int}
    {c : UInt8}
    (hc : c ∈ ofInt i) : c = 45 ∨ isDigit c = true := by
  cases i with
  | ofNat n => exact .inr (isDigit_of_mem_ofNat n c hc)
  | negSucc n =>
      rcases List.mem_cons.mp hc with hSign | hDigit
      · exact .inl hSign
      · exact .inr (isDigit_of_mem_ofNat (n + 1) c hDigit)

theorem ofNat_ne_nil (n : Nat) : ofNat n ≠ [] := by
  by_cases hLess : n < 10
  · rw [ofNat_of_lt hLess]
    exact List.cons_ne_nil _ _
  · rw [ofNat_of_le (Nat.le_of_not_lt hLess)]
    exact List.append_ne_nil_of_right_ne_nil _
      (List.cons_ne_nil _ _)

theorem ofNat_eq_cons
    (n : Nat) :
    ∃ d ds, ofNat n = d :: ds ∧ isDigit d = true := by
  rcases List.exists_cons_of_ne_nil (ofNat_ne_nil n) with
    ⟨d, ds, hCons⟩
  refine ⟨d, ds, hCons, isDigit_of_mem_ofNat n d ?_⟩
  rw [hCons]
  exact List.mem_cons_self

/- What is not a digit ends the numeral. -/
theorem takeWhile_ofNat
    (n : Nat)
    {rest : List UInt8}
    (hStop : ∀ c ∈ rest.head?, isDigit c = false) :
    (ofNat n ++ rest).takeWhile isDigit = ofNat n := by
  have hRest : rest.takeWhile isDigit = [] := by
    cases rest with
    | nil => rfl
    | cons c rest =>
        have hDigit := hStop c (Option.mem_some_self c)
        rw [List.takeWhile_cons, hDigit]
        rfl
  rw [List.takeWhile_append_of_pos
    (isDigit_of_mem_ofNat n), hRest, List.append_nil]

theorem dropWhile_ofNat
    (n : Nat)
    {rest : List UInt8}
    (hStop : ∀ c ∈ rest.head?, isDigit c = false) :
    (ofNat n ++ rest).dropWhile isDigit = rest := by
  rw [List.dropWhile_append_of_pos
    (isDigit_of_mem_ofNat n)]
  cases rest with
  | nil => rfl
  | cons c rest =>
      have hDigit := hStop c (Option.mem_some_self c)
      rw [List.dropWhile_cons, hDigit]
      rfl

/- Reading undoes writing. -/
theorem value_ofNat (n : Nat) : value (ofNat n) = n := by
  induction n using Nat.strong_induction_on with
  | _ n ih =>
      by_cases hLess : n < 10
      · have hDigit := (digitChar_spec n hLess).2
        rw [ofNat_of_lt hLess]
        unfold value
        rw [List.foldl_cons, List.foldl_nil, hDigit]
        omega
      · have hLe : 10 ≤ n := Nat.le_of_not_lt hLess
        have hDigit :=
          (digitChar_spec (n % 10) (by omega)).2
        have hFront := ih (n / 10) (by omega)
        unfold value at hFront ⊢
        rw [ofNat_of_le hLe, List.foldl_append, hFront,
          List.foldl_cons, List.foldl_nil, hDigit]
        omega

end Decimal
