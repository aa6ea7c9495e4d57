import Mathlib.Logic.Function.Iterate

/-
  Objects behind pointers, and loops over lists of pointers.

  A store maps every key to an object. `forEach` is the loop
  `for(auto k : ks) f(*k)`; the list may name a key several
  times, so what the loop does to an object in general
  depends on how often, and for a function that is
  idempotent only on whether the key is named at all.

  Key definitions include:
    * `ObjectStore.modify`
    * `ObjectStore.forEach`

  Key theorems include:
    * `ObjectStore.forEach_apply`
    * `ObjectStore.forEach_apply_of_idempotent`
-/

------------------------------------------------------------
-- Object Stores
------------------------------------------------------------

namespace ObjectStore

variable {κ α : Type} [DecidableEq κ]

/- Change the object behind one key. -/
def modify
    (k : κ)
    (f : α → α)
    (store : κ → α) : κ → α :=
  Function.update store k (f (store k))

/- Change the objects behind the keys of a list, in order. -/
def forEach
    (ks : List κ)
    (f : α → α)
    (store : κ → α) : κ → α :=
  ks.foldl (fun s k => modify k f s) store

@[simp] theorem modify_same
    (k : κ)
    (f : α → α)
    (store : κ → α) :
    modify k f store k = f (store k) := by
  simp [modify]

theorem modify_ne
    {k j : κ}
    (hNe : j ≠ k)
    (f : α → α)
    (store : κ → α) :
    modify k f store j = store j := by
  simp [modify, hNe]

@[simp] theorem forEach_cons
    (k : κ)
    (ks : List κ)
    (f : α → α)
    (store : κ → α) :
    forEach (k :: ks) f store =
      forEach ks f (modify k f store) := rfl

/- The function runs once for each time a key is named. -/
theorem forEach_apply
    (ks : List κ)
    (f : α → α)
    (store : κ → α)
    (j : κ) :
    forEach ks f store j = f^[ks.count j] (store j) := by
  induction ks generalizing store with
  | nil => rfl
  | cons k ks ih =>
      rw [forEach_cons, ih]
      by_cases hEq : j = k
      · subst hEq
        rw [modify_same, List.count_cons_self,
          Function.iterate_succ_apply]
      · rw [modify_ne hEq,
          List.count_cons_of_ne (Ne.symm hEq)]

/-
  For an idempotent function it does not matter how often
  the list names a key.
-/
theorem forEach_apply_of_idempotent
    {f : α → α}
    (hIdem : ∀ a, f (f a) = f a)
    (ks : List κ)
    (store : κ → α)
    (j : κ) :
    forEach ks f store j =
      if j ∈ ks then f (store j) else store j := by
  induction ks generalizing store with
  | nil => rfl
  | cons k ks ih =>
      rw [forEach_cons, ih]
      by_cases hEq : j = k
      · subst hEq
        simp [hIdem]
      · simp [modify_ne hEq, hEq]

end ObjectStore
