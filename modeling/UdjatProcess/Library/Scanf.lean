import Mathlib.Init
import UdjatProcess.Library.Decimal

/-
  Formatted input in the manner of `sscanf`.

  A format is read into directives, and these are bound to
  the objects that the conversions store into: a conversion
  without an object, or with an object of another type, is
  an error in the program and has no meaning here. A scan
  goes through the directives and stops at the first that
  fails.

  The types are those of an LP64 target. Numbers that do not
  fit are cut off by `strtol` and `strtoul`.

  Key definitions include:
    * `Scanf.convert`
    * `Scanf.compile`
    * `Scanf.scan`
    * `Scanf.Yields`

  Key theorems include:
    * `Scanf.compile_of_types`
    * `Scanf.scan_of_yields`
    * `Scanf.scan_count_iff`
    * `Scanf.yields_print`
-/

namespace Scanf

------------------------------------------------------------
-- Types
------------------------------------------------------------

/- The types that conversions store. -/
inductive CType where
| char
| int
| unsigned
| long
| unsignedLong
| unsignedLongLong
deriving DecidableEq

/- The values of a type. -/
abbrev CType.Val : CType → Type
| .char => UInt8
| .int => Int32
| .unsigned => UInt32
| .long => Int64
| .unsignedLong => UInt64
| .unsignedLongLong => UInt64

/- `isspace` in the C locale. -/
def isSpace (c : UInt8) : Bool :=
  c == 32 || (decide (9 ≤ c) && decide (c ≤ 13))

------------------------------------------------------------
-- Conversions
------------------------------------------------------------

/- What a conversion can come to. -/
inductive Outcome (α : Type) where
| ended
| mismatch
| stored (v : α) (rest : List UInt8)

def Outcome.map
    {α β : Type}
    (f : α → β) : Outcome α → Outcome β
| ended => ended
| mismatch => mismatch
| stored v rest => stored (f v) rest

/-
  The longest numeral at the start of the text: whether it
  has a minus sign, and the value of its digits.
-/
def numeral (text : List UInt8) : Outcome (Bool × Nat) :=
  match text.dropWhile isSpace with
  | [] => .ended
  | c :: rest =>
      let digits :=
        if c = 43 ∨ c = 45 then rest else c :: rest
      if digits.takeWhile Decimal.isDigit = [] then
        .mismatch
      else
        .stored
          (c == 45,
            Decimal.value (digits.takeWhile Decimal.isDigit))
          (digits.dropWhile Decimal.isDigit)

/- `strtol` on a numeral. -/
def strtol : Bool × Nat → Int64
| (negative, n) =>
    if negative then
      if 9223372036854775808 < n then Int64.minValue
      else Int64.ofInt (-(n : Int))
    else
      if 9223372036854775808 ≤ n then Int64.maxValue
      else Int64.ofInt n

/- `strtoul` on a numeral: a minus sign negates modulo. -/
def strtoul : Bool × Nat → UInt64
| (negative, n) =>
    if UInt64.size ≤ n then 18446744073709551615
    else if negative then 0 - UInt64.ofNat n
    else UInt64.ofNat n

/- One conversion; that of a character skips nothing. -/
def convert : (t : CType) → List UInt8 → Outcome t.Val
| .char, [] => .ended
| .char, c :: rest => .stored c rest
| .int, text =>
    (numeral text).map fun x => (strtol x).toInt32
| .unsigned, text =>
    (numeral text).map fun x => (strtoul x).toUInt32
| .long, text => (numeral text).map strtol
| .unsignedLong, text => (numeral text).map strtoul
| .unsignedLongLong, text => (numeral text).map strtoul

------------------------------------------------------------
-- Formats
------------------------------------------------------------

inductive Directive where
| blank
| conv (t : CType)
deriving DecidableEq

/-
  The directives of a format of white space and conversions
  without width or suppression.
-/
def parse : List Char → Option (List Directive)
| [] => some []
| ' ' :: fmt => (parse fmt).map (.blank :: ·)
| '%' :: 'c' :: fmt => (parse fmt).map (.conv .char :: ·)
| '%' :: 'd' :: fmt => (parse fmt).map (.conv .int :: ·)
| '%' :: 'u' :: fmt => (parse fmt).map (.conv .unsigned :: ·)
| '%' :: 'l' :: 'd' :: fmt =>
    (parse fmt).map (.conv .long :: ·)
| '%' :: 'l' :: 'u' :: fmt =>
    (parse fmt).map (.conv .unsignedLong :: ·)
| '%' :: 'l' :: 'l' :: 'u' :: fmt =>
    (parse fmt).map (.conv .unsignedLongLong :: ·)
| _ => none

/- An object of a state that a conversion can store into. -/
structure Cell (σ : Type) where
  type : CType
  set : type.Val → σ → σ

variable {σ : Type}

/- A directive with the object it stores into. -/
inductive Step (σ : Type) where
| blank
| store (cell : Cell σ)

/- The directives with their objects, taken in order. -/
def bindCells :
    List Directive → List (Cell σ) → Option (List (Step σ))
| [], _ => some []
| .blank :: directives, cells =>
    (bindCells directives cells).map (.blank :: ·)
| .conv _ :: _, [] => none
| .conv t :: directives, cell :: cells =>
    if cell.type = t then
      (bindCells directives cells).map (.store cell :: ·)
    else
      none

/- A format with its arguments. -/
def compile
    (fmt : List Char)
    (cells : List (Cell σ)) : Option (List (Step σ)) :=
  (parse fmt).bind fun directives =>
    bindCells directives cells

------------------------------------------------------------
-- Scanning
------------------------------------------------------------

/-
  The count that `sscanf` returns and the state it leaves
  behind. A text that ends before the first conversion is
  the end of the file, -1.
-/
def scan :
    List (Step σ) → List UInt8 → Nat → σ → Int × σ
| [], _, n, s => (n, s)
| .blank :: steps, text, n, s =>
    scan steps (text.dropWhile isSpace) n s
| .store cell :: steps, text, n, s =>
    match convert cell.type text with
    | .ended => (if n = 0 then -1 else n, s)
    | .mismatch => (n, s)
    | .stored v rest =>
        scan steps rest (n + 1) (cell.set v s)

------------------------------------------------------------
-- Values
------------------------------------------------------------

/- One value for each object. -/
def Values : List (Cell σ) → Type
| [] => Unit
| cell :: cells => cell.type.Val × Values cells

/- The values stored, one after the other. -/
def assign :
    (cells : List (Cell σ)) → Values cells → σ → σ
| [], _, s => s
| cell :: cells, vs, s =>
    assign cells vs.2 (cell.set vs.1 s)

/- Conversions with white space before each. -/
def spaced (cells : List (Cell σ)) : List (Step σ) :=
  cells.flatMap fun cell => [.blank, .store cell]

/-
  The text begins with the values, each behind any white
  space.
-/
def Yields :
    (cells : List (Cell σ)) → List UInt8 → Values cells →
      Prop
| [], _, _ => True
| cell :: cells, text, vs =>
    ∃ rest,
      convert cell.type (text.dropWhile isSpace) =
          .stored vs.1 rest ∧
        Yields cells rest vs.2

/- A format of the objects' types binds all of them. -/
theorem bindCells_of_types (cells : List (Cell σ)) :
    bindCells
        (cells.flatMap fun cell => [.blank, .conv cell.type])
        cells =
      some (spaced cells) := by
  induction cells with
  | nil => rfl
  | cons cell cells ih =>
      simp only [List.flatMap_cons, List.cons_append,
        List.nil_append, bindCells, if_true, ih]
      rfl

theorem compile_of_types
    {fmt : List Char}
    {cells : List (Cell σ)}
    (hFormat :
      parse fmt =
        some (cells.flatMap fun cell =>
          [.blank, .conv cell.type])) :
    compile fmt cells = some (spaced cells) := by
  unfold compile
  rw [hFormat]
  exact bindCells_of_types cells

/- What is yielded is stored and counted. -/
theorem scan_of_yields
    {cells : List (Cell σ)}
    {text : List UInt8}
    {vs : Values cells}
    (hYields : Yields cells text vs)
    (n : Nat)
    (s : σ) :
    scan (spaced cells) text n s =
      (((n + cells.length : Nat) : Int),
        assign cells vs s) := by
  induction cells generalizing text n s with
  | nil => rfl
  | cons cell cells ih =>
      rcases hYields with ⟨rest, hConvert, hRest⟩
      have hLength :
          n + (cell :: cells).length =
            n + 1 + cells.length := by
        rw [List.length_cons]
        omega
      change scan (.blank :: .store cell :: spaced cells)
          text n s = _
      rw [scan, scan, hConvert, hLength]
      exact ih hRest (n + 1) (cell.set vs.1 s)

/- A full count means that the text yields all values. -/
theorem scan_count_iff
    {cells : List (Cell σ)}
    {text : List UInt8}
    {n : Nat}
    {s : σ} :
    (scan (spaced cells) text n s).1 =
        ((n + cells.length : Nat) : Int) ↔
      ∃ vs, Yields cells text vs := by
  constructor
  · intro hCount
    induction cells generalizing text n s with
    | nil => exact ⟨(), trivial⟩
    | cons cell cells ih =>
        rw [List.length_cons] at hCount
        change
          (scan (.blank :: .store cell :: spaced cells)
            text n s).1 = _ at hCount
        rw [scan, scan] at hCount
        cases hConvert :
            convert cell.type (text.dropWhile isSpace) with
        | ended =>
            rw [hConvert] at hCount
            exfalso
            dsimp only at hCount
            split at hCount <;> omega
        | mismatch =>
            rw [hConvert] at hCount
            exfalso
            dsimp only at hCount
            omega
        | stored v rest =>
            rw [hConvert] at hCount
            have hRest :
                (scan (spaced cells) rest (n + 1)
                    (cell.set v s)).1 =
                  ((n + 1 + cells.length : Nat) : Int) := by
              rw [hCount]
              omega
            rcases ih hRest with ⟨vs, hYields⟩
            exact ⟨(v, vs), rest, hConvert, hYields⟩
  · rintro ⟨vs, hYields⟩
    rw [scan_of_yields hYields n s]

------------------------------------------------------------
-- Printed Values
------------------------------------------------------------

/- A value as `printf` writes it. -/
def render : (t : CType) → t.Val → List UInt8
| .char, c => [c]
| .int, v => Decimal.ofInt v.toInt
| .unsigned, v => Decimal.ofNat v.toNat
| .long, v => Decimal.ofInt v.toInt
| .unsignedLong, v => Decimal.ofNat v.toNat
| .unsignedLongLong, v => Decimal.ofNat v.toNat

/- The character that a value is, if it is one. -/
def charOf : (t : CType) → t.Val → List UInt8
| .char, c => [c]
| _, _ => []

/- The characters among the values. -/
def chars :
    (cells : List (Cell σ)) → Values cells → List UInt8
| [], _ => []
| cell :: cells, vs =>
    charOf cell.type vs.1 ++ chars cells vs.2

/- Each value as it is written. -/
def renders :
    (cells : List (Cell σ)) → Values cells →
      List (List UInt8)
| [], _ => []
| cell :: cells, vs =>
    render cell.type vs.1 :: renders cells vs.2

/- The values with a blank in front of each. -/
def print
    (cells : List (Cell σ))
    (vs : Values cells) : List UInt8 :=
  (renders cells vs).flatMap (32 :: ·)

theorem print_cons
    (cell : Cell σ)
    (cells : List (Cell σ))
    (vs : Values (cell :: cells)) :
    print (cell :: cells) vs =
      32 :: render cell.type vs.1 ++ print cells vs.2 := rfl

theorem isSpace_of_isDigit
    {c : UInt8}
    (hDigit : Decimal.isDigit c = true) :
    isSpace c = false := by
  unfold Decimal.isDigit at hDigit
  unfold isSpace
  simp only [Bool.and_eq_true, decide_eq_true_eq,
    UInt8.le_iff_toNat_le] at hDigit
  have hLow : 48 ≤ c.toNat := hDigit.1
  have hNotBlank : c ≠ 32 := by
    intro hEq
    rw [hEq] at hLow
    exact absurd hLow (by decide)
  have hHigh : ¬ c ≤ 13 := by
    rw [UInt8.le_iff_toNat_le]
    intro hLe
    have hLe' : c.toNat ≤ 13 := hLe
    omega
  simp [hNotBlank, hHigh]

/- A text that starts with something visible is not cut. -/
theorem dropWhile_isSpace_cons
    {c : UInt8}
    {text : List UInt8}
    (hVisible : isSpace c = false) :
    (c :: text).dropWhile isSpace = c :: text := by
  rw [List.dropWhile_cons, hVisible]
  rfl

/- A numeral without and with a minus sign. -/
theorem numeral_ofNat
    (n : Nat)
    {rest : List UInt8}
    (hStop : ∀ c ∈ rest.head?, Decimal.isDigit c = false) :
    numeral (Decimal.ofNat n ++ rest) =
      .stored (false, n) rest := by
  rcases Decimal.ofNat_eq_cons n with ⟨d, ds, hCons, hDigit⟩
  have hNotSign : ¬ (d = 43 ∨ d = 45) := by
    rintro (hEq | hEq) <;> rw [hEq] at hDigit <;>
      exact absurd hDigit (by decide)
  have hMinus : (d == 45) = false := by
    simpa using fun hEq => hNotSign (.inr hEq)
  have hTake := Decimal.takeWhile_ofNat n hStop
  have hDrop := Decimal.dropWhile_ofNat n hStop
  have hSome := Decimal.ofNat_ne_nil n
  rw [hCons, List.cons_append] at hTake hDrop ⊢
  rw [hCons] at hSome
  unfold numeral
  rw [dropWhile_isSpace_cons (isSpace_of_isDigit hDigit)]
  simp only [if_neg hNotSign, hTake, if_neg hSome, hDrop,
    hMinus]
  rw [← hCons, Decimal.value_ofNat]

theorem numeral_minus
    (n : Nat)
    {rest : List UInt8}
    (hStop : ∀ c ∈ rest.head?, Decimal.isDigit c = false) :
    numeral (45 :: Decimal.ofNat n ++ rest) =
      .stored (true, n) rest := by
  have hTake := Decimal.takeWhile_ofNat n hStop
  have hDrop := Decimal.dropWhile_ofNat n hStop
  have hSome := Decimal.ofNat_ne_nil n
  rw [List.cons_append]
  unfold numeral
  rw [dropWhile_isSpace_cons (by decide)]
  simp only [or_true, if_true, hTake, if_neg hSome, hDrop,
    Decimal.value_ofNat]
  rfl

theorem numeral_ofInt
    (i : Int)
    {rest : List UInt8}
    (hStop : ∀ c ∈ rest.head?, Decimal.isDigit c = false) :
    numeral (Decimal.ofInt i ++ rest) =
      .stored (decide (i < 0), i.natAbs) rest := by
  cases i with
  | ofNat n => exact numeral_ofNat n hStop
  | negSucc n =>
      have hNegative : Int.negSucc n < 0 :=
        Int.negSucc_lt_zero n
      rw [decide_eq_true hNegative]
      exact numeral_minus (n + 1) hStop

/- Numbers in range are not cut off. -/
theorem strtol_toInt (v : Int64) :
    strtol (decide (v.toInt < 0), v.toInt.natAbs) = v := by
  have hFrom : -2 ^ 63 ≤ v.toInt := Int64.le_toInt v
  have hTo : v.toInt < 2 ^ 63 := Int64.toInt_lt v
  unfold strtol
  by_cases hNegative : v.toInt < 0
  · have hFits :
        ¬ 9223372036854775808 < v.toInt.natAbs := by
      omega
    have hAbs : -(v.toInt.natAbs : Int) = v.toInt := by
      omega
    simp only [hNegative, decide_true, if_true, if_neg hFits,
      hAbs, Int64.ofInt_toInt]
  · have hFits :
        ¬ 9223372036854775808 ≤ v.toInt.natAbs := by
      omega
    have hAbs : (v.toInt.natAbs : Int) = v.toInt := by omega
    simp only [hNegative, decide_false, Bool.false_eq_true,
      if_false, if_neg hFits, hAbs, Int64.ofInt_toInt]

theorem strtoul_toNat (v : UInt64) :
    strtoul (false, v.toNat) = v := by
  have hFits : ¬ UInt64.size ≤ v.toNat :=
    Nat.not_le_of_lt (UInt64.toNat_lt v)
  unfold strtoul
  simp only [if_neg hFits, Bool.false_eq_true, if_false,
    UInt64.ofNat_toNat]

/- A conversion reads back what was written. -/
theorem convert_render
    (t : CType)
    (v : t.Val)
    {rest : List UInt8}
    (hStop : ∀ c ∈ rest.head?, Decimal.isDigit c = false) :
    convert t (render t v ++ rest) = .stored v rest := by
  cases t with
  | char => rfl
  | int =>
      have hValue := strtol_toInt (Int32.toInt64 v)
      rw [Int32.toInt_toInt64] at hValue
      simp only [convert, render, numeral_ofInt _ hStop,
        Outcome.map, hValue, Int32.toInt32_toInt64]
  | unsigned =>
      have hValue := strtoul_toNat (UInt32.toUInt64 v)
      rw [UInt32.toNat_toUInt64] at hValue
      simp only [convert, render, numeral_ofNat _ hStop,
        Outcome.map, hValue, UInt32.toUInt32_toUInt64]
  | long =>
      simp only [convert, render, numeral_ofInt _ hStop,
        Outcome.map, strtol_toInt]
  | unsignedLong =>
      simp only [convert, render, numeral_ofNat _ hStop,
        Outcome.map, strtoul_toNat]
  | unsignedLongLong =>
      simp only [convert, render, numeral_ofNat _ hStop,
        Outcome.map, strtoul_toNat]

/- A visible value starts with something visible. -/
theorem render_ofNat_visible
    (n : Nat) :
    ∃ c cs, Decimal.ofNat n = c :: cs ∧
      isSpace c = false := by
  rcases Decimal.ofNat_eq_cons n with ⟨d, ds, hCons, hDigit⟩
  exact ⟨d, ds, hCons, isSpace_of_isDigit hDigit⟩

theorem render_ofInt_visible
    (i : Int) :
    ∃ c cs, Decimal.ofInt i = c :: cs ∧
      isSpace c = false := by
  cases i with
  | ofNat n => exact render_ofNat_visible n
  | negSucc n => exact ⟨45, _, rfl, by decide⟩

theorem render_visible
    {t : CType}
    {v : t.Val}
    (hVisible : ∀ c ∈ charOf t v, isSpace c = false) :
    ∃ c cs, render t v = c :: cs ∧ isSpace c = false := by
  cases t with
  | char =>
      exact ⟨v, [], rfl,
        hVisible v (List.mem_singleton_self v)⟩
  | int => exact render_ofInt_visible _
  | unsigned => exact render_ofNat_visible _
  | long => exact render_ofInt_visible _
  | unsignedLong => exact render_ofNat_visible _
  | unsignedLongLong => exact render_ofNat_visible _

/- A printed text yields what was printed. -/
theorem yields_print
    {cells : List (Cell σ)}
    {vs : Values cells}
    (hVisible : ∀ c ∈ chars cells vs, isSpace c = false)
    {rest : List UInt8}
    (hStop : ∀ c ∈ rest.head?, Decimal.isDigit c = false) :
    Yields cells (print cells vs ++ rest) vs := by
  induction cells with
  | nil => trivial
  | cons cell cells ih =>
      have hNext :
          ∀ c ∈ (print cells vs.2 ++ rest).head?,
            Decimal.isDigit c = false := by
        cases cells with
        | nil => exact hStop
        | cons _ _ =>
            intro c hc
            rw [← Option.mem_some.mp hc]
            decide
      have hHere :
          ∀ c ∈ charOf cell.type vs.1, isSpace c = false :=
        fun c hc =>
          hVisible c (List.mem_append_left _ hc)
      have hRest :
          ∀ c ∈ chars cells vs.2, isSpace c = false :=
        fun c hc =>
          hVisible c (List.mem_append_right _ hc)
      rcases render_visible hHere with ⟨c, cs, hCons, hHead⟩
      refine ⟨print cells vs.2 ++ rest, ?_, ih hRest⟩
      have hSkip :
          (print (cell :: cells) vs ++ rest).dropWhile
              isSpace =
            render cell.type vs.1 ++
              (print cells vs.2 ++ rest) := by
        rw [print_cons, List.cons_append, List.cons_append,
          List.dropWhile_cons, List.append_assoc, hCons,
          List.cons_append]
        exact dropWhile_isSpace_cons hHead
      rw [hSkip]
      exact convert_render cell.type vs.1 hNext

/- The bytes of a printed text. -/
theorem mem_render
    {t : CType}
    {v : t.Val}
    {c : UInt8}
    (hc : c ∈ render t v) :
    c = 45 ∨ Decimal.isDigit c = true ∨ c ∈ charOf t v := by
  have hNat :
      ∀ n, c ∈ Decimal.ofNat n →
        c = 45 ∨ Decimal.isDigit c = true ∨
          c ∈ charOf t v := fun n hMem =>
    .inr (.inl (Decimal.isDigit_of_mem_ofNat n c hMem))
  have hInt :
      ∀ i, c ∈ Decimal.ofInt i →
        c = 45 ∨ Decimal.isDigit c = true ∨
          c ∈ charOf t v := fun i hMem =>
    (Decimal.mem_ofInt hMem).imp_right .inl
  cases t with
  | char => exact .inr (.inr hc)
  | int => exact hInt _ hc
  | unsigned => exact hNat _ hc
  | long => exact hInt _ hc
  | unsignedLong => exact hNat _ hc
  | unsignedLongLong => exact hNat _ hc

theorem mem_print
    {cells : List (Cell σ)}
    {vs : Values cells}
    {c : UInt8}
    (hc : c ∈ print cells vs) :
    c = 32 ∨ c = 45 ∨ Decimal.isDigit c = true ∨
      c ∈ chars cells vs := by
  induction cells with
  | nil => cases hc
  | cons cell cells ih =>
      rw [print_cons, List.mem_append, List.mem_cons] at hc
      unfold chars
      rw [List.mem_append]
      rcases hc with (hBlank | hHere) | hRest
      · exact .inl hBlank
      · rcases mem_render hHere with hSign | hDigit | hChar
        · exact .inr (.inl hSign)
        · exact .inr (.inr (.inl hDigit))
        · exact .inr (.inr (.inr (.inl hChar)))
      · rcases ih hRest with hBlank | hSign | hDigit | hChar
        · exact .inl hBlank
        · exact .inr (.inl hSign)
        · exact .inr (.inr (.inl hDigit))
        · exact .inr (.inr (.inr (.inr hChar)))

end Scanf
