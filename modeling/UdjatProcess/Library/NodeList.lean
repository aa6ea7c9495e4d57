import Mathlib.Data.List.Nodup
import Mathlib.Data.List.TakeWhile

/-
  Linked lists whose elements live at stable addresses.

  A `NodeList` is the value of a doubly linked list as the
  C++ standard library has it: an element keeps its address
  from insertion to removal, no two elements share one, and
  the address of a removed element may be handed out again.
  Which address a new element gets is the choice of an
  `Allocator`, about which only freshness is known.

  Key definitions include:
    * `Allocator`
    * `Allocator.above`
    * `NodeList`
    * `NodeList.emplaceBack`
    * `NodeList.removeIf`
    * `NodeList.lookup`
    * `NodeList.update`
    * `NodeList.sweep`
    * `NodeList.reached`
    * `NodeList.updateEach`

  Key theorems include:
    * `NodeList.node_eq_of_addr_eq`
    * `NodeList.addrs_sweep`
    * `NodeList.sweep_completed_iff`
    * `NodeList.emitted_addrs_nodup`
    * `NodeList.nodes_sweepNodes`
    * `NodeList.nodes_updateEach`
    * `NodeList.lookup_emitted`
-/

------------------------------------------------------------
-- Addresses And Allocators
------------------------------------------------------------

/- The address of a list element. -/
abbrev Addr := Nat

/-
  The choice of an address for a new element, given how many
  elements were allocated before and which addresses are in
  use. Every history of a real allocator is one of these.
-/
structure Allocator where
  place : Nat → List Addr → Addr
  place_fresh :
    ∀ count live, place count live ∉ live

namespace Allocator

/- Every member is at most the running maximum. -/
theorem le_foldr_max
    (addrs : List Nat)
    {a : Nat}
    (hMem : a ∈ addrs) :
    a ≤ addrs.foldr max 0 := by
  induction addrs with
  | nil => cases hMem
  | cons b addrs ih =>
      simp only [List.foldr_cons]
      rcases List.mem_cons.mp hMem with hEq | hTail
      · subst hEq
        exact Nat.le_max_left _ _
      · exact Nat.le_trans (ih hTail) (Nat.le_max_right _ _)

/- An allocator that also stays clear of given addresses. -/
def above (avoid : List Addr) : Allocator where
  place _ live := (avoid ++ live).foldr max 0 + 1
  place_fresh := by
    intro _ live hMem
    exact Nat.not_succ_le_self _
      (le_foldr_max (avoid ++ live)
        (List.mem_append_right avoid hMem))

theorem place_above_not_mem
    (avoid live : List Addr)
    (count : Nat) :
    (above avoid).place count live ∉ avoid := by
  intro hMem
  exact Nat.not_succ_le_self _
    (le_foldr_max (avoid ++ live)
      (List.mem_append_left live hMem))

end Allocator

------------------------------------------------------------
-- Node Lists
------------------------------------------------------------

/- A list element and the address it lives at. -/
structure Node (α : Type) where
  addr : Addr
  val : α
deriving DecidableEq, Repr

/-
  The elements in list order, the number of elements ever
  allocated, and the proof that addresses are not shared.
-/
structure NodeList (α : Type) where
  nodes : List (Node α)
  allocs : Nat
  nodup : (nodes.map Node.addr).Nodup

namespace NodeList

variable {α β : Type}

/- The addresses in use. -/
def addrs (l : NodeList α) : List Addr :=
  l.nodes.map Node.addr

/- The list without elements. -/
def empty : NodeList α where
  nodes := []
  allocs := 0
  nodup := List.nodup_nil

/- Where the next element goes. -/
def fresh
    (A : Allocator)
    (l : NodeList α) : Addr :=
  A.place l.allocs l.addrs

theorem fresh_not_mem
    (A : Allocator)
    (l : NodeList α) :
    l.fresh A ∉ l.addrs :=
  A.place_fresh _ _

/- Construct an element at the end of the list. -/
def emplaceBack
    (A : Allocator)
    (v : α)
    (l : NodeList α) : NodeList α where
  nodes := l.nodes ++ [⟨l.fresh A, v⟩]
  allocs := l.allocs + 1
  nodup := by
    rw [List.map_append]
    apply List.nodup_append.mpr
    refine ⟨l.nodup, List.nodup_singleton _, ?_⟩
    intro a hOld b hNew hEq
    have hFresh : b = l.fresh A := List.mem_singleton.mp hNew
    rw [hEq, hFresh] at hOld
    exact l.fresh_not_mem A hOld

/- Remove the elements the predicate accepts. -/
def removeIf
    (p : α → Bool)
    (l : NodeList α) : NodeList α where
  nodes := l.nodes.filter (fun n => !p n.val)
  allocs := l.allocs
  nodup := l.nodup.sublist (List.filter_sublist.map _)

/- Remove every element. -/
def clear (l : NodeList α) : NodeList α where
  nodes := []
  allocs := l.allocs
  nodup := List.nodup_nil

/- Change the element at an address in place. -/
def update
    (a : Addr)
    (f : α → α)
    (l : NodeList α) : NodeList α where
  nodes := l.nodes.map fun n =>
    if n.addr = a then ⟨n.addr, f n.val⟩ else n
  allocs := l.allocs
  nodup := by
    have hSame :
        Node.addr ∘
            (fun n : Node α =>
              if n.addr = a then ⟨n.addr, f n.val⟩
              else n) =
          Node.addr := by
      funext n
      by_cases hEq : n.addr = a <;> simp [hEq]
    rw [List.map_map, hSame]
    exact l.nodup

/- The element that lives at an address. -/
def lookup
    (a : Addr)
    (l : NodeList α) : Option (Node α) :=
  l.nodes.find? fun n => n.addr == a

@[simp] theorem nodes_emplaceBack
    (A : Allocator)
    (v : α)
    (l : NodeList α) :
    (l.emplaceBack A v).nodes =
      l.nodes ++ [⟨l.fresh A, v⟩] := rfl

@[simp] theorem nodes_removeIf
    (p : α → Bool)
    (l : NodeList α) :
    (l.removeIf p).nodes =
      l.nodes.filter (fun n => !p n.val) := rfl

@[simp] theorem nodes_clear (l : NodeList α) :
    l.clear.nodes = [] := rfl

@[simp] theorem addrs_update
    (a : Addr)
    (f : α → α)
    (l : NodeList α) :
    (l.update a f).addrs = l.addrs := by
  unfold addrs update
  rw [List.map_map]
  apply List.map_congr_left
  intro n _
  by_cases hEq : n.addr = a <;> simp [hEq]

/- What the update keeps of each element, the list keeps. -/
theorem map_nodes_update_of_keeps
    (key : Node α → β)
    (a : Addr)
    (f : α → α)
    (hKeeps : ∀ n : Node α, key ⟨n.addr, f n.val⟩ = key n)
    (l : NodeList α) :
    (l.update a f).nodes.map key = l.nodes.map key := by
  unfold update
  rw [List.map_map]
  apply List.map_congr_left
  intro n _
  by_cases hEq : n.addr = a
  · rw [Function.comp_apply, if_pos hEq, hKeeps]
  · rw [Function.comp_apply, if_neg hEq]

/- Two lists with the same elements and history are equal. -/
theorem ext_nodes
    {l m : NodeList α}
    (hNodes : l.nodes = m.nodes)
    (hAllocs : l.allocs = m.allocs) :
    l = m := by
  cases l
  cases m
  simp only at hNodes hAllocs
  subst hNodes
  subst hAllocs
  rfl

/- An address determines the element that lives there. -/
theorem node_eq_of_addr_eq
    {l : NodeList α}
    {n m : Node α}
    (hn : n ∈ l.nodes)
    (hm : m ∈ l.nodes)
    (hAddr : n.addr = m.addr) :
    n = m :=
  List.inj_on_of_nodup_map l.nodup hn hm hAddr

/- A search by address in a list that shares none. -/
theorem find?_addr_of_mem
    {ns : List (Node α)}
    (hNodup : (ns.map Node.addr).Nodup)
    {n : Node α}
    (hn : n ∈ ns) :
    (ns.find? fun m => m.addr == n.addr) = some n := by
  cases hFind : ns.find? (fun m => m.addr == n.addr) with
  | none =>
      have hNone := List.find?_eq_none.mp hFind n hn
      simp at hNone
  | some m =>
      have hAddr := List.find?_some hFind
      have hm := List.mem_of_find?_eq_some hFind
      rw [List.inj_on_of_nodup_map hNodup hm hn
        (by simpa using hAddr)]

theorem find?_addr_eq_none
    {ns : List (Node α)}
    {a : Addr}
    (hNot : a ∉ ns.map Node.addr) :
    (ns.find? fun m => m.addr == a) = none := by
  rw [List.find?_eq_none]
  intro m hm hAddr
  apply hNot
  rw [← show m.addr = a by simpa using hAddr]
  exact List.mem_map_of_mem hm

theorem lookup_of_mem
    {l : NodeList α}
    {n : Node α}
    (hn : n ∈ l.nodes) :
    l.lookup n.addr = some n :=
  find?_addr_of_mem l.nodup hn

theorem lookup_spec
    {l : NodeList α}
    {a : Addr}
    {n : Node α}
    (hLookup : l.lookup a = some n) :
    n ∈ l.nodes ∧ n.addr = a := by
  unfold lookup at hLookup
  have hAddr := List.find?_some hLookup
  exact ⟨List.mem_of_find?_eq_some hLookup,
    by simpa using hAddr⟩

/- A replaced element is found where the old one was. -/
theorem lookup_replace
    {l : NodeList α}
    {n : Node α}
    (hn : n ∈ l.nodes)
    (v : α) :
    (l.update n.addr fun _ => v).lookup n.addr =
      some ⟨n.addr, v⟩ := by
  apply lookup_of_mem (n := ⟨n.addr, v⟩)
  unfold update
  rw [List.mem_map]
  exact ⟨n, hn, if_pos rfl⟩

/- Replacing one element changes what differs from it only. -/
theorem map_nodes_replace_of_eq
    (key : Node α → β)
    {l : NodeList α}
    {n : Node α}
    (hn : n ∈ l.nodes)
    {v : α}
    (hKey : key ⟨n.addr, v⟩ = key n) :
    (l.update n.addr fun _ => v).nodes.map key =
      l.nodes.map key := by
  unfold update
  rw [List.map_map]
  apply List.map_congr_left
  intro m hm
  by_cases hAddr : m.addr = n.addr
  · have hEq : m = n := node_eq_of_addr_eq hm hn hAddr
    simp [hEq, hKey]
  · simp [hAddr]

theorem map_replace_of_eq
    (key : α → β)
    {l : NodeList α}
    {n : Node α}
    (hn : n ∈ l.nodes)
    {v : α}
    (hKey : key v = key n.val) :
    (l.update n.addr fun _ => v).nodes.map
        (fun m => key m.val) =
      l.nodes.map fun m => key m.val :=
  map_nodes_replace_of_eq (fun m => key m.val) hn hKey

------------------------------------------------------------
-- Sweeps
------------------------------------------------------------

/-
  The result of a pass over a list: the elements after it,
  what it emitted for which of them, and whether it came to
  the end.
-/
structure Sweep (α β : Type) where
  nodes : List (Node α)
  emitted : List (Addr × β)
  completed : Bool

/-
  Visit the elements in order, rewriting each in place and
  emitting at most one value for it. A visit that fails
  ends the pass and leaves the rest as it was.
-/
def sweepNodes
    (visit : Node α → Option (α × Option β)) :
    List (Node α) → Sweep α β
| [] => ⟨[], [], true⟩
| n :: ns =>
    match visit n with
    | none => ⟨n :: ns, [], false⟩
    | some (v, out) =>
        let rest := sweepNodes visit ns
        ⟨⟨n.addr, v⟩ :: rest.nodes,
          (out.map fun b => (n.addr, b)).toList ++
            rest.emitted,
          rest.completed⟩

/- A pass moves no element. -/
theorem addrs_sweepNodes
    (visit : Node α → Option (α × Option β))
    (ns : List (Node α)) :
    (sweepNodes visit ns).nodes.map Node.addr =
      ns.map Node.addr := by
  induction ns with
  | nil => rfl
  | cons n ns ih =>
      cases hVisit : visit n with
      | none => simp [sweepNodes, hVisit]
      | some out => simp [sweepNodes, hVisit, ih]

/- Run a pass over a node list. -/
def sweep
    (visit : Node α → Option (α × Option β))
    (l : NodeList α) : NodeList α where
  nodes := (sweepNodes visit l.nodes).nodes
  allocs := l.allocs
  nodup := by
    rw [addrs_sweepNodes]
    exact l.nodup

@[simp] theorem addrs_sweep
    (visit : Node α → Option (α × Option β))
    (l : NodeList α) :
    (l.sweep visit).addrs = l.addrs :=
  addrs_sweepNodes visit l.nodes

/- What every visit keeps of a value, the pass keeps. -/
theorem map_sweepNodes_of_keeps
    {γ : Type}
    (key : α → γ)
    (visit : Node α → Option (α × Option β))
    (hKeeps :
      ∀ n v out, visit n = some (v, out) →
        key v = key n.val)
    (ns : List (Node α)) :
    (sweepNodes visit ns).nodes.map (fun n => key n.val) =
      ns.map (fun n => key n.val) := by
  induction ns with
  | nil => rfl
  | cons n ns ih =>
      cases hVisit : visit n with
      | none => simp [sweepNodes, hVisit]
      | some out =>
          simp [sweepNodes, hVisit, ih,
            hKeeps n out.1 out.2 hVisit]

/- A pass completes exactly when no visit fails. -/
theorem sweep_completed_iff
    (visit : Node α → Option (α × Option β))
    (ns : List (Node α)) :
    (sweepNodes visit ns).completed = true ↔
      ∀ n ∈ ns, (visit n).isSome := by
  induction ns with
  | nil => simp [sweepNodes]
  | cons n ns ih =>
      cases hVisit : visit n with
      | none => simp [sweepNodes, hVisit]
      | some out => simp [sweepNodes, hVisit, ih]

/-
  After a completed pass the list holds each element as its
  own visit left it, in the same order.
-/
theorem nodes_of_sweep_completed
    (visit : Node α → Option (α × Option β))
    (ns : List (Node α))
    (hAll : ∀ n ∈ ns, (visit n).isSome) :
    (sweepNodes visit ns).nodes =
      ns.map fun n =>
        ⟨n.addr, ((visit n).map Prod.fst).getD n.val⟩ := by
  induction ns with
  | nil => rfl
  | cons n ns ih =>
      have hTail := ih fun m hm =>
        hAll m (List.mem_cons_of_mem n hm)
      cases hVisit : visit n with
      | none =>
          have hHead := hAll n List.mem_cons_self
          simp [hVisit] at hHead
      | some out => simp [sweepNodes, hVisit, hTail]

/- The elements in front of the first whose visit fails. -/
def reached
    (visit : Node α → Option (α × Option β))
    (ns : List (Node α)) : List (Node α) :=
  ns.takeWhile fun n => (visit n).isSome

theorem reached_sublist
    (visit : Node α → Option (α × Option β))
    (ns : List (Node α)) :
    (reached visit ns).Sublist ns :=
  List.takeWhile_sublist _

@[simp] theorem reached_cons_of_none
    {visit : Node α → Option (α × Option β)}
    {n : Node α}
    (hVisit : visit n = none)
    (ns : List (Node α)) :
    reached visit (n :: ns) = [] := by
  simp [reached, hVisit]

@[simp] theorem reached_cons_of_some
    {visit : Node α → Option (α × Option β)}
    {n : Node α}
    {out : α × Option β}
    (hVisit : visit n = some out)
    (ns : List (Node α)) :
    reached visit (n :: ns) = n :: reached visit ns := by
  simp [reached, hVisit]

/- A visit of an element that is reached succeeds. -/
theorem isSome_of_reached
    {visit : Node α → Option (α × Option β)}
    {ns : List (Node α)}
    {n : Node α}
    (hMem : n ∈ reached visit ns) :
    (visit n).isSome :=
  List.mem_takeWhile_imp (p := fun n => (visit n).isSome) hMem

/- A pass emits in list order, at most once per element. -/
theorem emitted_addrs_reached
    (visit : Node α → Option (α × Option β))
    (ns : List (Node α)) :
    ((sweepNodes visit ns).emitted.map Prod.fst).Sublist
      ((reached visit ns).map Node.addr) := by
  induction ns with
  | nil => simp [sweepNodes]
  | cons n ns ih =>
      cases hVisit : visit n with
      | none => simp [sweepNodes, hVisit]
      | some out =>
          rcases out with ⟨v, out⟩
          rw [reached_cons_of_some hVisit]
          cases out with
          | none => simpa [sweepNodes, hVisit] using ih.cons _
          | some b => simpa [sweepNodes, hVisit] using ih

theorem emitted_addrs_sublist
    (visit : Node α → Option (α × Option β))
    (ns : List (Node α)) :
    ((sweepNodes visit ns).emitted.map Prod.fst).Sublist
      (ns.map Node.addr) :=
  (emitted_addrs_reached visit ns).trans
    ((reached_sublist visit ns).map _)

theorem emitted_addrs_nodup
    (visit : Node α → Option (α × Option β))
    (l : NodeList α) :
    ((sweepNodes visit l.nodes).emitted.map
      Prod.fst).Nodup :=
  l.nodup.sublist (emitted_addrs_sublist visit l.nodes)

/-
  A pass rewrites the elements it reaches and leaves the
  others as they were.
-/
theorem nodes_sweepNodes
    (visit : Node α → Option (α × Option β))
    (ns : List (Node α)) :
    (sweepNodes visit ns).nodes =
      ((reached visit ns).map fun n =>
          ⟨n.addr, ((visit n).map Prod.fst).getD n.val⟩) ++
        ns.dropWhile fun n => (visit n).isSome := by
  induction ns with
  | nil => rfl
  | cons n ns ih =>
      cases hVisit : visit n with
      | none => simp [sweepNodes, hVisit]
      | some out => simp [sweepNodes, hVisit, ih]

/- A pass over two lists in a row. -/
theorem nodes_sweepNodes_append
    (visit : Node α → Option (α × Option β))
    {first : List (Node α)}
    (hAll : ∀ n ∈ first, (visit n).isSome)
    (second : List (Node α)) :
    (sweepNodes visit (first ++ second)).nodes =
      (sweepNodes visit first).nodes ++
        (sweepNodes visit second).nodes := by
  induction first with
  | nil => rfl
  | cons n first ih =>
      have hTail := ih fun m hm =>
        hAll m (List.mem_cons_of_mem n hm)
      cases hVisit : visit n with
      | none =>
          have hHead := hAll n List.mem_cons_self
          simp [hVisit] at hHead
      | some out => simp [sweepNodes, hVisit, hTail]

/- Where a pass fails first. -/
theorem exists_first_fail
    (visit : Node α → Option (α × Option β))
    {ns : List (Node α)}
    (hFail : ∃ n ∈ ns, visit n = none) :
    ∃ before n rest,
      ns = before ++ n :: rest ∧ visit n = none ∧
        ∀ m ∈ before, (visit m).isSome := by
  induction ns with
  | nil =>
      rcases hFail with ⟨n, hn, _⟩
      cases hn
  | cons n ns ih =>
      cases hVisit : visit n with
      | none => exact ⟨[], n, ns, rfl, hVisit, by simp⟩
      | some out =>
          have hTail : ∃ m ∈ ns, visit m = none := by
            rcases hFail with ⟨m, hm, hNone⟩
            rcases List.mem_cons.mp hm with hEq | hIn
            · rw [hEq, hVisit] at hNone
              cases hNone
            · exact ⟨m, hIn, hNone⟩
          rcases ih hTail with
            ⟨before, m, rest, hEq, hNone, hAll⟩
          refine ⟨n :: before, m, rest, by simp [hEq], hNone,
            ?_⟩
          intro k hk
          rcases List.mem_cons.mp hk with hHead | hIn
          · rw [hHead, hVisit]
            rfl
          · exact hAll k hIn

/- A pass that fails at an element leaves it and the rest. -/
theorem nodes_sweepNodes_of_fail
    (visit : Node α → Option (α × Option β))
    {before : List (Node α)}
    (hAll : ∀ n ∈ before, (visit n).isSome)
    {n : Node α}
    (hFail : visit n = none)
    (rest : List (Node α)) :
    (sweepNodes visit (before ++ n :: rest)).nodes =
      (sweepNodes visit before).nodes ++ n :: rest := by
  rw [nodes_sweepNodes_append visit hAll]
  simp [sweepNodes, hFail]

/- A pass depends on the visits of the elements only. -/
theorem sweepNodes_congr
    {visit visit' : Node α → Option (α × Option β)}
    {ns : List (Node α)}
    (hSame : ∀ n ∈ ns, visit n = visit' n) :
    sweepNodes visit ns = sweepNodes visit' ns := by
  induction ns with
  | nil => rfl
  | cons n ns ih =>
      have hTail := ih fun m hm =>
        hSame m (List.mem_cons_of_mem n hm)
      unfold sweepNodes
      rw [hSame n List.mem_cons_self, hTail]

/- An element is reached, or it comes after the reached. -/
theorem mem_reached_or_rest
    (visit : Node α → Option (α × Option β))
    {ns : List (Node α)}
    {n : Node α}
    (hn : n ∈ ns) :
    n ∈ reached visit ns ∨
      n ∈ ns.dropWhile fun n => (visit n).isSome := by
  rw [← List.mem_append]
  unfold reached
  rw [List.takeWhile_append_dropWhile]
  exact hn

/- It is not both. -/
theorem not_mem_reached_of_rest
    (visit : Node α → Option (α × Option β))
    {ns : List (Node α)}
    (hNodup : (ns.map Node.addr).Nodup)
    {n : Node α}
    (hn : n ∈ ns.dropWhile fun n => (visit n).isSome) :
    n.addr ∉ (reached visit ns).map Node.addr := by
  have hSplit :
      (reached visit ns).map Node.addr ++
          (ns.dropWhile fun n => (visit n).isSome).map
            Node.addr =
        ns.map Node.addr := by
    rw [← List.map_append]
    unfold reached
    rw [List.takeWhile_append_dropWhile]
  rw [← hSplit] at hNodup
  intro hReached
  exact List.disjoint_of_nodup_append hNodup hReached
    (List.mem_map_of_mem hn)

/-
  Each element before and after a pass: left alone, or
  rewritten by its visit.
-/
theorem forall₂_sweepNodes
    {R : Node α → Node α → Prop}
    (visit : Node α → Option (α × Option β))
    (hSame : ∀ n, R n n)
    (hVisit :
      ∀ n v out, visit n = some (v, out) → R n ⟨n.addr, v⟩)
    (ns : List (Node α)) :
    List.Forall₂ R ns (sweepNodes visit ns).nodes := by
  induction ns with
  | nil => exact List.Forall₂.nil
  | cons n ns ih =>
      cases hOut : visit n with
      | none =>
          simp only [sweepNodes, hOut]
          exact List.forall₂_same.mpr fun m _ => hSame m
      | some out =>
          simp only [sweepNodes, hOut]
          exact List.Forall₂.cons
            (hVisit n out.1 out.2 hOut) ih

------------------------------------------------------------
-- Updates By Entry
------------------------------------------------------------

/- Change the elements at the listed addresses in turn. -/
def updateEach
    (f : β → α → α)
    (entries : List (Addr × β))
    (l : NodeList α) : NodeList α :=
  entries.foldl (fun l entry => l.update entry.1 (f entry.2)) l

/- An element after the update of its own entry, if any. -/
def applyEntry
    (f : β → α → α)
    (entries : List (Addr × β))
    (n : Node α) : Node α :=
  match entries.lookup n.addr with
  | some b => ⟨n.addr, f b n.val⟩
  | none => n

theorem applyEntry_of_some
    (f : β → α → α)
    {entries : List (Addr × β)}
    {n : Node α}
    {b : β}
    (hEntry : entries.lookup n.addr = some b) :
    applyEntry f entries n = ⟨n.addr, f b n.val⟩ := by
  unfold applyEntry
  rw [hEntry]

theorem applyEntry_of_none
    (f : β → α → α)
    {entries : List (Addr × β)}
    {n : Node α}
    (hEntry : entries.lookup n.addr = none) :
    applyEntry f entries n = n := by
  unfold applyEntry
  rw [hEntry]

/- An address without an entry. -/
theorem lookup_eq_none
    {a : Addr}
    {entries : List (Addr × β)}
    (hNot : a ∉ entries.map Prod.fst) :
    entries.lookup a = none := by
  rw [List.lookup_eq_none_iff]
  intro entry hMem
  have hNe : a ≠ entry.1 := by
    intro hEq
    rw [hEq] at hNot
    exact hNot (List.mem_map.mpr ⟨entry, hMem, rfl⟩)
  simpa using hNe

/-
  With one entry for an address at most, each element is
  changed by its own entry.
-/
theorem nodes_updateEach
    (f : β → α → α)
    {entries : List (Addr × β)}
    (hNodup : (entries.map Prod.fst).Nodup)
    (l : NodeList α) :
    (l.updateEach f entries).nodes =
      l.nodes.map (applyEntry f entries) := by
  induction entries generalizing l with
  | nil =>
      have hSame : applyEntry f ([] : List (Addr × β)) = id := by
        funext n
        rfl
      rw [hSame, List.map_id]
      rfl
  | cons entry entries ih =>
      rcases entry with ⟨a, b⟩
      rw [List.map_cons, List.nodup_cons] at hNodup
      have hNone : entries.lookup a = none :=
        lookup_eq_none hNodup.1
      unfold updateEach at ih ⊢
      rw [List.foldl_cons, ih hNodup.2]
      unfold update
      rw [List.map_map]
      apply List.map_congr_left
      intro n _
      by_cases hAddr : n.addr = a
      · simp [applyEntry, hAddr, hNone]
      · have hBeq : (n.addr == a) = false := by
          simpa using hAddr
        simp [applyEntry, List.lookup_cons, hAddr, hBeq]

/- The entry that a pass emits for an element it reaches. -/
theorem lookup_emitted
    (visit : Node α → Option (α × Option β))
    {ns : List (Node α)}
    (hNodup : (ns.map Node.addr).Nodup)
    {n : Node α}
    (hMem : n ∈ reached visit ns) :
    (sweepNodes visit ns).emitted.lookup n.addr =
      (visit n).bind Prod.snd := by
  induction ns with
  | nil => cases hMem
  | cons m ns ih =>
      rw [List.map_cons, List.nodup_cons] at hNodup
      cases hVisit : visit m with
      | none => simp [hVisit] at hMem
      | some out =>
          rcases out with ⟨v, out⟩
          have hOthers :
              m.addr ∉
                (sweepNodes visit ns).emitted.map Prod.fst :=
            fun hIn => hNodup.1
              ((emitted_addrs_sublist visit ns).subset hIn)
          have hNone :
              (sweepNodes visit ns).emitted.lookup m.addr =
                none :=
            lookup_eq_none hOthers
          rw [reached_cons_of_some hVisit,
            List.mem_cons] at hMem
          rcases hMem with hHead | hTail
          · rw [hHead]
            cases out with
            | none => simp [sweepNodes, hVisit, hNone]
            | some b => simp [sweepNodes, hVisit]
          · have hNe : n.addr ≠ m.addr := by
              intro hEq
              apply hNodup.1
              rw [← hEq]
              exact List.mem_map_of_mem
                ((reached_sublist visit ns).subset hTail)
            have hBeq : (n.addr == m.addr) = false := by
              simpa using hNe
            cases out with
            | none =>
                simpa [sweepNodes, hVisit] using
                  ih hNodup.2 hTail
            | some b =>
                simpa [sweepNodes, hVisit, List.lookup_cons,
                  hBeq] using ih hNodup.2 hTail

/- For an element that it does not reach it emits nothing. -/
theorem lookup_emitted_of_rest
    (visit : Node α → Option (α × Option β))
    {ns : List (Node α)}
    (hNodup : (ns.map Node.addr).Nodup)
    {n : Node α}
    (hn : n ∈ ns.dropWhile fun n => (visit n).isSome) :
    (sweepNodes visit ns).emitted.lookup n.addr = none := by
  apply lookup_eq_none
  intro hIn
  exact not_mem_reached_of_rest visit hNodup hn
    ((emitted_addrs_reached visit ns).subset hIn)

end NodeList
