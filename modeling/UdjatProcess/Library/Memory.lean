import Mathlib.Data.List.Basic
import Mathlib.Data.List.Range

/-
  Memory that programs read one cell at a time.

  `Holds` says where a sequence of cells lies. A `Prog` is a
  computation that looks at cells, each chosen from what it
  has seen before, and so has both a value and a list of the
  cells it looks at. What it does not look at does not
  matter to it.

  Key definitions include:
    * `Memory.Holds`
    * `Memory.Prog`
    * `Memory.Prog.value`
    * `Memory.Prog.reads`
    * `Memory.Prog.readUntil`
    * `Memory.lastIndex`

  Key theorems include:
    * `Memory.holds_append_iff`
    * `Memory.Prog.value_congr`
    * `Memory.Prog.readUntil_of_holds`
    * `Memory.lastIndex_append`
-/

namespace Memory

variable {β : Type}

------------------------------------------------------------
-- Layout
------------------------------------------------------------

/- The cells from an address on are those of the list. -/
def Holds (m : Nat → β) : Nat → List β → Prop
| _, [] => True
| a, x :: xs => m a = x ∧ Holds m (a + 1) xs

/- Two sequences, one behind the other. -/
theorem holds_append_iff
    {m : Nat → β}
    {a : Nat}
    {xs ys : List β} :
    Holds m a (xs ++ ys) ↔
      Holds m a xs ∧ Holds m (a + xs.length) ys := by
  induction xs generalizing a with
  | nil => simp [Holds]
  | cons x xs ih =>
      rw [List.cons_append, Holds, Holds, ih, and_assoc,
        List.length_cons, Nat.add_assoc a 1,
        Nat.add_comm 1]

theorem Holds.congr
    {m m' : Nat → β}
    {a : Nat}
    {xs : List β}
    (hHolds : Holds m a xs)
    (hSame : ∀ i, a ≤ i → i < a + xs.length → m i = m' i) :
    Holds m' a xs := by
  induction xs generalizing a with
  | nil => trivial
  | cons x xs ih =>
      rw [List.length_cons] at hSame
      constructor
      · rw [← hSame a (Nat.le_refl a) (by omega)]
        exact hHolds.1
      · apply ih hHolds.2
        intro i hFrom hTo
        exact hSame i (by omega) (by omega)

/- A part of it from the start lies there as well. -/
theorem Holds.take
    {m : Nat → β}
    {a : Nat}
    {xs : List β}
    (hHolds : Holds m a xs)
    (n : Nat) :
    Holds m a (xs.take n) := by
  rw [← List.take_append_drop n xs] at hHolds
  exact (holds_append_iff.mp hHolds).1

/- A list lies where its cells are looked up in it. -/
theorem holds_getD
    (front xs : List β)
    (d : Nat → β) :
    Holds (fun i => (front ++ xs).getD i (d i)) front.length
      xs := by
  induction xs generalizing front with
  | nil => trivial
  | cons x xs ih =>
      constructor
      · simp
      · have hRest := ih (front ++ [x])
        rw [List.append_assoc, List.length_append] at hRest
        exact hRest

------------------------------------------------------------
-- Programs
------------------------------------------------------------

/- To return a result, or to look at a cell and go on. -/
inductive Prog (ι β α : Type) where
| ret (a : α)
| peek (i : ι) (next : β → Prog ι β α)

namespace Prog

variable {ι α γ : Type}

/- The result on a memory. -/
def value (m : ι → β) : Prog ι β α → α
| ret a => a
| peek i next => (next (m i)).value m

/- The cells it looks at on a memory, in order. -/
def reads (m : ι → β) : Prog ι β α → List ι
| ret _ => []
| peek i next => i :: (next (m i)).reads m

/- One program, and another that knows its result. -/
def bind (f : α → Prog ι β γ) : Prog ι β α → Prog ι β γ
| ret a => f a
| peek i next => peek i fun x => (next x).bind f

/- The result put through a function. -/
def map (f : α → γ) (p : Prog ι β α) : Prog ι β γ :=
  p.bind fun a => ret (f a)

@[simp] theorem value_bind
    (m : ι → β)
    (f : α → Prog ι β γ)
    (p : Prog ι β α) :
    (p.bind f).value m = (f (p.value m)).value m := by
  induction p with
  | ret a => rfl
  | peek i next ih => exact ih (m i)

@[simp] theorem reads_bind
    (m : ι → β)
    (f : α → Prog ι β γ)
    (p : Prog ι β α) :
    (p.bind f).reads m =
      p.reads m ++ (f (p.value m)).reads m := by
  induction p with
  | ret a => rfl
  | peek i next ih =>
      exact congrArg (i :: ·) (ih (m i))

@[simp] theorem value_map
    (m : ι → β)
    (f : α → γ)
    (p : Prog ι β α) :
    (p.map f).value m = f (p.value m) :=
  value_bind m _ p

@[simp] theorem reads_map
    (m : ι → β)
    (f : α → γ)
    (p : Prog ι β α) :
    (p.map f).reads m = p.reads m := by
  unfold map
  rw [reads_bind]
  exact List.append_nil _

/-
  Memories that agree where the program looks give the same
  result.
-/
theorem value_congr
    {m m' : ι → β}
    {p : Prog ι β α}
    (hSame : ∀ i ∈ p.reads m, m i = m' i) :
    p.value m = p.value m' := by
  induction p with
  | ret a => rfl
  | peek i next ih =>
      have hCell : m i = m' i := hSame i List.mem_cons_self
      have hRest :=
        ih (m i) fun j hj =>
          hSame j (List.mem_cons_of_mem i hj)
      unfold value
      rw [hRest, hCell]

------------------------------------------------------------
-- Sequences With An End Mark
------------------------------------------------------------

/-
  The cells from an address on up to an end mark, which is
  looked at as well, and at most so many.
-/
def readUntil [DecidableEq β]
    (mark : β) : Nat → Nat → Prog Nat β (List β)
| 0, _ => ret []
| fuel + 1, a =>
    peek a fun x =>
      if x = mark then
        ret []
      else
        (readUntil mark fuel (a + 1)).map (x :: ·)

/- Where a sequence with its mark lies, it is what is read. -/
theorem readUntil_of_holds [DecidableEq β]
    {m : Nat → β}
    {mark : β}
    {xs : List β}
    {fuel a : Nat}
    (hHolds : Holds m a (xs ++ [mark]))
    (hNone : mark ∉ xs)
    (hFuel : xs.length < fuel) :
    (readUntil mark fuel a).value m = xs ∧
      (readUntil mark fuel a).reads m =
        List.range' a (xs.length + 1) := by
  induction xs generalizing fuel a with
  | nil =>
      cases fuel with
      | zero => exact absurd hFuel (Nat.not_lt_zero _)
      | succ fuel =>
          have hMark : m a = mark := hHolds.1
          simp [readUntil, value, reads, hMark]
  | cons x xs ih =>
      rw [List.mem_cons, not_or] at hNone
      cases fuel with
      | zero => exact absurd hFuel (Nat.not_lt_zero _)
      | succ fuel =>
          have hCell : m a = x := hHolds.1
          have hOther : ¬ x = mark := fun hEq =>
            hNone.1 hEq.symm
          rcases ih hHolds.2 hNone.2
              (Nat.lt_of_succ_lt_succ hFuel) with
            ⟨hValue, hReads⟩
          constructor
          · simp only [readUntil, value, hCell, if_neg hOther,
              value_map, hValue]
          · simp only [readUntil, reads, hCell, if_neg hOther,
              reads_map, hReads]
            rfl

end Prog

------------------------------------------------------------
-- The Last Occurrence
------------------------------------------------------------

/- The place of the last such element of a list. -/
def lastIndex [DecidableEq β] (x : β) : List β → Option Nat
| [] => none
| y :: ys =>
    match lastIndex x ys with
    | some i => some (i + 1)
    | none => if y = x then some 0 else none

theorem lastIndex_eq_none [DecidableEq β]
    {x : β}
    {xs : List β}
    (hNone : x ∉ xs) : lastIndex x xs = none := by
  induction xs with
  | nil => rfl
  | cons y xs ih =>
      rw [List.mem_cons, not_or] at hNone
      have hOther : ¬ y = x := fun hEq => hNone.1 hEq.symm
      simp only [lastIndex, ih hNone.2, if_neg hOther]

theorem lastIndex_append [DecidableEq β]
    (pre : List β)
    {x : β}
    {post : List β}
    (hLast : x ∉ post) :
    lastIndex x (pre ++ x :: post) = some pre.length := by
  induction pre with
  | nil =>
      simp only [List.nil_append, lastIndex,
        lastIndex_eq_none hLast, if_true, List.length_nil]
  | cons y pre ih =>
      simp only [List.cons_append, lastIndex, ih,
        List.length_cons]

/- A list has no such element or a last one. -/
theorem eq_append_last [DecidableEq β]
    (x : β)
    (xs : List β) :
    x ∉ xs ∨
      ∃ pre post, xs = pre ++ x :: post ∧ x ∉ post := by
  induction xs with
  | nil => exact .inl List.not_mem_nil
  | cons y xs ih =>
      rcases ih with hNone | ⟨pre, post, hEq, hLast⟩
      · by_cases hHere : y = x
        · exact .inr ⟨[], xs, by rw [hHere]; rfl, hNone⟩
        · refine .inl ?_
          rw [List.mem_cons, not_or]
          exact ⟨fun hEq => hHere hEq.symm, hNone⟩
      · exact .inr ⟨y :: pre, post, by rw [hEq]; rfl, hLast⟩

end Memory
