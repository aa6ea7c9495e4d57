import Mathlib.Init

/-
  Loops that may not end.

  A loop is a body that either ends the loop or asks for one
  more turn, each time from a new state. The loop ends if a
  bounded number of turns is enough. What a body that asks
  for a turn without moving says about the loop is the
  reason to keep the two apart.

  Key definitions include:
    * `Loop.Step`
    * `Loop.run`
    * `Loop.Ends`
    * `Loop.visits`

  Key theorems include:
    * `Loop.ends_of_done`
    * `Loop.ends_iff_of_again`
    * `Loop.not_ends_of_again_self`
    * `Loop.visits_subset`
-/

namespace Loop

/- What one turn of the body comes to. -/
inductive Step (σ : Type) where
| again (s : σ)
| done (s : σ)

variable {σ : Type}

/- At most so many turns, and the state the loop ends in. -/
def run (body : σ → Step σ) : Nat → σ → Option σ
| 0, _ => none
| fuel + 1, s =>
    match body s with
    | .again s' => run body fuel s'
    | .done s' => some s'

/- Some number of turns is enough. -/
def Ends (body : σ → Step σ) (s : σ) : Prop :=
  ∃ fuel out, run body fuel s = some out

variable {body : σ → Step σ} {s s' : σ}

theorem run_of_again
    (hBody : body s = .again s')
    (fuel : Nat) :
    run body (fuel + 1) s = run body fuel s' := by
  rw [run, hBody]

theorem run_of_done
    (hBody : body s = .done s')
    (fuel : Nat) :
    run body (fuel + 1) s = some s' := by
  rw [run, hBody]

/- A body that ends the loop ends it. -/
theorem ends_of_done (hBody : body s = .done s') :
    Ends body s :=
  ⟨1, s', run_of_done hBody 0⟩

/- One more turn leaves the question as it is. -/
theorem ends_iff_of_again (hBody : body s = .again s') :
    Ends body s ↔ Ends body s' := by
  constructor
  · rintro ⟨fuel, out, hRun⟩
    cases fuel with
    | zero => cases hRun
    | succ fuel =>
        rw [run_of_again hBody] at hRun
        exact ⟨fuel, out, hRun⟩
  · rintro ⟨fuel, out, hRun⟩
    refine ⟨fuel + 1, out, ?_⟩
    rw [run_of_again hBody]
    exact hRun

/- A turn that changes nothing is repeated for ever. -/
theorem not_ends_of_again_self (hBody : body s = .again s) :
    ¬ Ends body s := by
  rintro ⟨fuel, out, hRun⟩
  induction fuel with
  | zero => cases hRun
  | succ fuel ih =>
      rw [run_of_again hBody] at hRun
      exact ih hRun

------------------------------------------------------------
-- Turns
------------------------------------------------------------

/- The states of the turns, as many as so many at most. -/
def visits (body : σ → Step σ) : Nat → σ → List σ
| 0, _ => []
| fuel + 1, s =>
    match body s with
    | .again s' => s :: visits body fuel s'
    | .done _ => [s]

theorem visits_of_done
    (hBody : body s = .done s')
    (fuel : Nat) :
    visits body (fuel + 1) s = [s] := by
  rw [visits, hBody]

theorem visits_of_again
    (hBody : body s = .again s')
    (fuel : Nat) :
    visits body (fuel + 1) s = s :: visits body fuel s' := by
  rw [visits, hBody]

/- A turn that changes nothing is all there ever is. -/
theorem eq_of_mem_visits_again_self
    (hBody : body s = .again s)
    {fuel : Nat}
    (hMem : s' ∈ visits body fuel s) :
    s' = s := by
  induction fuel with
  | zero => cases hMem
  | succ fuel ih =>
      rw [visits_of_again hBody] at hMem
      rcases List.mem_cons.mp hMem with hEq | hRest
      · exact hEq
      · exact ih hRest

/- What holds at the start and is kept holds at each turn. -/
theorem visits_inv
    {Inv : σ → Prop}
    (hStep : ∀ s s', Inv s → body s = .again s' → Inv s')
    {fuel : Nat}
    (hStart : Inv s)
    (hMem : s' ∈ visits body fuel s) :
    Inv s' := by
  induction fuel generalizing s with
  | zero => cases hMem
  | succ fuel ih =>
      cases hBody : body s with
      | done out =>
          rw [visits_of_done hBody] at hMem
          rw [List.mem_singleton.mp hMem]
          exact hStart
      | again next =>
          rw [visits_of_again hBody] at hMem
          rcases List.mem_cons.mp hMem with hEq | hRest
          · rw [hEq]
            exact hStart
          · exact ih (hStep s next hStart hBody) hRest

/- Bodies that agree at each turn run alike. -/
theorem run_congr
    {body' : σ → Step σ}
    {fuel : Nat}
    (hSame : ∀ s' ∈ visits body fuel s, body s' = body' s') :
    run body fuel s = run body' fuel s := by
  induction fuel generalizing s with
  | zero => rfl
  | succ fuel ih =>
      have hFirst : body s = body' s := by
        apply hSame
        cases hBody : body s with
        | done out =>
            rw [visits_of_done hBody]
            exact List.mem_singleton_self s
        | again next =>
            rw [visits_of_again hBody]
            exact List.mem_cons_self
      cases hBody : body s with
      | done out =>
          rw [run_of_done hBody,
            run_of_done (hFirst.symm.trans hBody)]
      | again next =>
          rw [run_of_again hBody,
            run_of_again (hFirst.symm.trans hBody)]
          apply ih
          intro s' hs'
          apply hSame
          rw [visits_of_again hBody]
          exact List.mem_cons_of_mem s hs'

/- More turns visit what fewer do. -/
theorem visits_subset
    {fuel fuel' : Nat}
    (hLe : fuel ≤ fuel')
    (s : σ) :
    visits body fuel s ⊆ visits body fuel' s := by
  induction fuel generalizing fuel' s with
  | zero => exact List.nil_subset _
  | succ fuel ih =>
      cases fuel' with
      | zero => exact absurd hLe (Nat.not_succ_le_zero fuel)
      | succ fuel' =>
          cases hBody : body s with
          | done out =>
              rw [visits_of_done hBody, visits_of_done hBody]
              exact List.Subset.refl _
          | again next =>
              rw [visits_of_again hBody,
                visits_of_again hBody]
              exact List.cons_subset_cons s
                (ih (Nat.le_of_succ_le_succ hLe) next)

end Loop
