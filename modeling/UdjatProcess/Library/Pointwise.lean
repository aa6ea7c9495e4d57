import Mathlib.Data.List.Forall2
import UdjatProcess.Library.NodeList

/-
  Node lists that correspond element by element.

  Two lists correspond if they have the same history and the
  same addresses, and the values at each address are related.
  Operations that treat related values alike keep this, and
  where the relation is no finer than equality the lists are
  equal.

  Key definitions include:
    * `NodeList.SameNode`
    * `NodeList.Related`

  Key theorems include:
    * `NodeList.Related.removeIf`
    * `NodeList.find?_of_forall₂`
    * `NodeList.Related.replace`
    * `NodeList.related_sweepNodes`
-/

namespace NodeList

variable {α β : Type}

------------------------------------------------------------
-- Correspondence
------------------------------------------------------------

/- The same address, and related values. -/
def SameNode (R : α → α → Prop) (n m : Node α) : Prop :=
  m.addr = n.addr ∧ R n.val m.val

/- The same history, and the same nodes in the same order. -/
structure Related
    (R : α → α → Prop)
    (l k : NodeList α) : Prop where
  allocs : k.allocs = l.allocs
  nodes : List.Forall₂ (SameNode R) l.nodes k.nodes

variable {R : α → α → Prop} {l k : NodeList α}

theorem Related.refl
    (hRefl : ∀ v, R v v)
    (l : NodeList α) :
    Related R l l :=
  ⟨rfl, List.forall₂_same.mpr fun n _ => ⟨rfl, hRefl n.val⟩⟩

/- What related nodes agree on, the lists agree on. -/
theorem map_eq_of_forall₂
    {key : Node α → β}
    (hKey : ∀ n m, SameNode R n m → key m = key n)
    {ns ms : List (Node α)}
    (hNodes : List.Forall₂ (SameNode R) ns ms) :
    ms.map key = ns.map key := by
  induction hNodes with
  | nil => rfl
  | cons hHead _ ih =>
      rw [List.map_cons, List.map_cons, hKey _ _ hHead, ih]

theorem Related.addrs (hRelated : Related R l k) :
    k.addrs = l.addrs :=
  map_eq_of_forall₂ (fun _ _ hSame => hSame.1) hRelated.nodes

theorem Related.fresh
    (hRelated : Related R l k)
    (A : Allocator) :
    k.fresh A = l.fresh A := by
  unfold NodeList.fresh
  rw [hRelated.allocs, hRelated.addrs]

------------------------------------------------------------
-- Operations
------------------------------------------------------------

theorem Related.emplaceBack
    (hRelated : Related R l k)
    (A : Allocator)
    {v u : α}
    (hNew : R v u) :
    Related R (l.emplaceBack A v) (k.emplaceBack A u) := by
  refine ⟨congrArg (· + 1) hRelated.allocs, ?_⟩
  have hLast :
      List.Forall₂ (SameNode R) [⟨l.fresh A, v⟩]
        [⟨k.fresh A, u⟩] :=
    .cons ⟨hRelated.fresh A, hNew⟩ .nil
  exact List.rel_append hRelated.nodes hLast

theorem Related.removeIf
    (hRelated : Related R l k)
    {p : α → Bool}
    (hSame : ∀ v u, R v u → p u = p v) :
    Related R (l.removeIf p) (k.removeIf p) := by
  refine ⟨hRelated.allocs, ?_⟩
  apply List.rel_filter _ hRelated.nodes
  intro n m hNode
  dsimp only
  rw [hSame _ _ hNode.2]

/- A search that treats related nodes alike finds them. -/
theorem find?_of_forall₂
    {p : Node α → Bool}
    (hSame : ∀ n m, SameNode R n m → p m = p n)
    {ns ms : List (Node α)}
    (hNodes : List.Forall₂ (SameNode R) ns ms) :
    (ms.find? p).map Node.addr =
      (ns.find? p).map Node.addr := by
  induction hNodes with
  | nil => rfl
  | cons hHead _ ih =>
      rw [List.find?_cons, List.find?_cons, hSame _ _ hHead]
      split
      · exact congrArg some hHead.1
      · exact ih

theorem Related.update
    (hRelated : Related R l k)
    (a : Addr)
    {f : α → α}
    (hKeeps : ∀ v u, R v u → R (f v) (f u)) :
    Related R (l.update a f) (k.update a f) := by
  refine ⟨hRelated.allocs, ?_⟩
  apply List.rel_map _ hRelated.nodes
  intro n m hNode
  dsimp only
  rw [hNode.1]
  split
  · exact ⟨rfl, hKeeps _ _ hNode.2⟩
  · exact hNode

/- One of the two values at an address may change alone. -/
theorem Related.replace
    (hRelated : Related R l k)
    {m : Node α}
    (hm : m ∈ k.nodes)
    {v : α}
    (hNew : ∀ u, R u m.val → R u v) :
    Related R l (k.update m.addr fun _ => v) := by
  refine ⟨hRelated.allocs, ?_⟩
  unfold NodeList.update
  rw [List.forall₂_map_right_iff]
  have hOnly :
      ∀ m' ∈ k.nodes, m'.addr = m.addr → m' = m :=
    fun m' hm' hAddr => node_eq_of_addr_eq hm' hm hAddr
  have hNodes := hRelated.nodes
  generalize l.nodes = ns at hNodes ⊢
  generalize k.nodes = ms at hNodes hOnly ⊢
  induction hNodes with
  | nil => exact .nil
  | cons hHead _ ih =>
      rw [List.forall_mem_cons] at hOnly
      refine .cons ?_ (ih hOnly.2)
      split
      · next hAddr =>
        refine ⟨hHead.1, hNew _ ?_⟩
        rw [← hOnly.1 hAddr]
        exact hHead.2
      · exact hHead

/-
  A pass whose visits treat related nodes alike leaves them
  related, emits the same, and comes as far. If it comes to
  the end, the nodes are the same.
-/
theorem related_sweepNodes
    {visit : Node α → Option (α × Option β)}
    (hRefl : ∀ v, R v v)
    (hSame : ∀ n m, SameNode R n m → visit m = visit n)
    {ns ms : List (Node α)}
    (hNodes : List.Forall₂ (SameNode R) ns ms) :
    List.Forall₂ (SameNode R) (sweepNodes visit ns).nodes
        (sweepNodes visit ms).nodes ∧
      (sweepNodes visit ms).emitted =
        (sweepNodes visit ns).emitted ∧
      (sweepNodes visit ms).completed =
        (sweepNodes visit ns).completed ∧
      ((sweepNodes visit ns).completed = true →
        (sweepNodes visit ms).nodes =
          (sweepNodes visit ns).nodes) := by
  induction hNodes with
  | nil => exact ⟨.nil, rfl, rfl, fun _ => rfl⟩
  | @cons n m ns ms hHead hTail ih =>
      rcases ih with ⟨hRest, hEmitted, hCompleted, hEqual⟩
      have hVisit := hSame n m hHead
      unfold sweepNodes
      rw [hVisit]
      cases visit n with
      | none =>
          exact ⟨.cons hHead hTail, rfl, rfl,
            fun hNo => absurd hNo Bool.false_ne_true⟩
      | some out =>
          dsimp only
          rw [hHead.1, hEmitted]
          refine ⟨.cons ⟨rfl, hRefl _⟩ hRest, rfl, hCompleted,
            fun hAll => ?_⟩
          rw [hEqual hAll]

end NodeList
