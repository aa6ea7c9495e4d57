import Mathlib.Data.Set.Insert

/-
  A set of keys under a stream of changes.

  A change enters a key into the set or makes it leave.
  Replaying a stream on two sets gives the same answer for
  every key that the stream touches, whatever the sets held
  before, and leaves all other keys as they were.

  Key definitions include:
    * `Registry.Change`
    * `Registry.replay`
    * `Registry.Touched`

  Key theorems include:
    * `Registry.mem_replay_of_untouched`
    * `Registry.mem_replay_iff_of_touched`
    * `Registry.replay_eq_iff`
-/

------------------------------------------------------------
-- Changes
------------------------------------------------------------

namespace Registry

variable {κ : Type}

/- A key enters the set or leaves it. -/
inductive Change (κ : Type) where
| enter (k : κ)
| leave (k : κ)
deriving DecidableEq

/- The key that a change is about. -/
def Change.key : Change κ → κ
| .enter k => k
| .leave k => k

/- The set after one change. -/
def change (s : Set κ) : Change κ → Set κ
| .enter k => insert k s
| .leave k => s \ {k}

/- The set after a stream of changes. -/
def replay (s : Set κ) (changes : List (Change κ)) : Set κ :=
  changes.foldl change s

/- Some change of the stream is about the key. -/
def Touched (k : κ) (changes : List (Change κ)) : Prop :=
  ∃ c ∈ changes, c.key = k

@[simp] theorem mem_change_enter
    (s : Set κ)
    (k j : κ) :
    j ∈ change s (.enter k) ↔ j = k ∨ j ∈ s :=
  Set.mem_insert_iff

@[simp] theorem mem_change_leave
    (s : Set κ)
    (k j : κ) :
    j ∈ change s (.leave k) ↔ j ∈ s ∧ j ≠ k := by
  simp [change]

@[simp] theorem replay_nil (s : Set κ) :
    replay s [] = s := rfl

@[simp] theorem replay_cons
    (s : Set κ)
    (c : Change κ)
    (changes : List (Change κ)) :
    replay s (c :: changes) =
      replay (change s c) changes := rfl

@[simp] theorem touched_cons_iff
    (k : κ)
    (c : Change κ)
    (changes : List (Change κ)) :
    Touched k (c :: changes) ↔
      c.key = k ∨ Touched k changes := by
  simp [Touched]

/- One stream after the other. -/
theorem replay_append
    (s : Set κ)
    (first second : List (Change κ)) :
    replay s (first ++ second) =
      replay (replay s first) second :=
  List.foldl_append

/- A change leaves every other key alone. -/
theorem mem_change_of_ne
    (s : Set κ)
    {c : Change κ}
    {k : κ}
    (hNe : c.key ≠ k) :
    k ∈ change s c ↔ k ∈ s := by
  cases c with
  | enter j =>
      rw [mem_change_enter]
      constructor
      · rintro (hEq | hMem)
        · exact absurd hEq.symm hNe
        · exact hMem
      · exact Or.inr
  | leave j =>
      rw [mem_change_leave]
      constructor
      · exact And.left
      · intro hMem
        exact ⟨hMem, fun hEq => hNe hEq.symm⟩

/- What a change says about its own key is final. -/
theorem mem_change_key_iff
    (s t : Set κ)
    (c : Change κ) :
    c.key ∈ change s c ↔ c.key ∈ change t c := by
  cases c with
  | enter j => simp [Change.key]
  | leave j => simp [Change.key]

/- The answer for a key depends on that key alone. -/
theorem mem_replay_congr
    {s t : Set κ}
    {k : κ}
    (hSame : k ∈ s ↔ k ∈ t)
    (changes : List (Change κ)) :
    k ∈ replay s changes ↔ k ∈ replay t changes := by
  induction changes generalizing s t with
  | nil => exact hSame
  | cons c changes ih =>
      apply ih
      by_cases hKey : c.key = k
      · rw [← hKey]
        exact mem_change_key_iff s t c
      · rw [mem_change_of_ne s hKey, mem_change_of_ne t hKey]
        exact hSame

theorem mem_replay_of_untouched
    (s : Set κ)
    {k : κ}
    {changes : List (Change κ)}
    (hUntouched : ¬ Touched k changes) :
    k ∈ replay s changes ↔ k ∈ s := by
  induction changes generalizing s with
  | nil => exact Iff.rfl
  | cons c changes ih =>
      rw [touched_cons_iff, not_or] at hUntouched
      rw [replay_cons, ih (change s c) hUntouched.2]
      exact mem_change_of_ne s hUntouched.1

theorem mem_replay_iff_of_touched
    (s t : Set κ)
    {k : κ}
    {changes : List (Change κ)}
    (hTouched : Touched k changes) :
    k ∈ replay s changes ↔ k ∈ replay t changes := by
  induction changes generalizing s t with
  | nil =>
      rcases hTouched with ⟨c, hMem, _⟩
      cases hMem
  | cons c changes ih =>
      rcases (touched_cons_iff k c changes).mp hTouched with
        hKey | hRest
      · have hSame : k ∈ change s c ↔ k ∈ change t c := by
          rw [← hKey]
          exact mem_change_key_iff s t c
        exact mem_replay_congr hSame changes
      · exact ih (change s c) (change t c) hRest

/-
  Two sets end equal exactly when they start equal on the
  keys that the stream does not touch.
-/
theorem replay_eq_iff
    (s t : Set κ)
    (changes : List (Change κ)) :
    replay s changes = replay t changes ↔
      ∀ k, ¬ Touched k changes → (k ∈ s ↔ k ∈ t) := by
  constructor
  · intro hEq k hUntouched
    rw [← mem_replay_of_untouched s hUntouched, hEq]
    exact mem_replay_of_untouched t hUntouched
  · intro hSame
    ext k
    by_cases hTouched : Touched k changes
    · exact mem_replay_iff_of_touched s t hTouched
    · exact mem_replay_congr (hSame k hTouched) changes

end Registry
