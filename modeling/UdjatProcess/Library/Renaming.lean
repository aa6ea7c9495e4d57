import Mathlib.Logic.Function.Basic
import UdjatProcess.Library.NodeList

/-
  Node lists that differ in their addresses only.

  A renaming of addresses takes one list to another if the
  second has the values of the first in their order, each at
  the renamed address. As no list shares an address, such a
  renaming is one to one on those in use. Operations that do
  not look at addresses take renamed lists to renamed lists,
  whatever the two allocators hand out.

  Key definitions include:
    * `Node.rename`
    * `NodeList.Renamed`
    * `NodeList.extend`
    * `NodeList.Blind`
    * `NodeList.Sweep.rename`

  Key theorems include:
    * `NodeList.Renamed.inj`
    * `NodeList.Renamed.emplaceBack`
    * `NodeList.Renamed.find?`
    * `NodeList.Renamed.update`
    * `NodeList.sweepNodes_rename`
-/

variable {α β : Type}

/- The element at its renamed address. -/
def Node.rename (ρ : Addr → Addr) (n : Node α) : Node α where
  addr := ρ n.addr
  val := n.val

namespace NodeList

------------------------------------------------------------
-- Renamings
------------------------------------------------------------

/- The second list is the first at renamed addresses. -/
structure Renamed
    (ρ : Addr → Addr)
    (l k : NodeList α) : Prop where
  allocs : k.allocs = l.allocs
  nodes : k.nodes = l.nodes.map (Node.rename ρ)

variable {ρ σ : Addr → Addr} {l k : NodeList α}

theorem Renamed.refl (l : NodeList α) : Renamed id l l :=
  ⟨rfl, (List.map_id l.nodes).symm⟩

theorem Renamed.addrs (hRenamed : Renamed ρ l k) :
    k.addrs = l.addrs.map ρ := by
  unfold NodeList.addrs
  rw [hRenamed.nodes, List.map_map, List.map_map]
  rfl

/- What does not depend on addresses is the same. -/
theorem Renamed.map_val
    (hRenamed : Renamed ρ l k)
    (key : α → β) :
    (k.nodes.map fun n => key n.val) =
      l.nodes.map fun n => key n.val := by
  rw [hRenamed.nodes, List.map_map]
  rfl

/- No two addresses in use get one name. -/
theorem Renamed.inj
    (hRenamed : Renamed ρ l k)
    {a b : Addr}
    (ha : a ∈ l.addrs)
    (hb : b ∈ l.addrs)
    (hSame : ρ a = ρ b) :
    a = b := by
  have hNodup : (l.addrs.map ρ).Nodup := by
    rw [← hRenamed.addrs]
    exact k.nodup
  exact List.inj_on_of_nodup_map hNodup ha hb hSame

/- Only the names of the addresses in use matter. -/
theorem Renamed.congr
    (hRenamed : Renamed ρ l k)
    (hSame : ∀ a ∈ l.addrs, σ a = ρ a) :
    Renamed σ l k := by
  refine ⟨hRenamed.allocs, ?_⟩
  rw [hRenamed.nodes]
  apply List.map_congr_left
  intro n hn
  unfold Node.rename
  rw [hSame n.addr (List.mem_map_of_mem hn)]

------------------------------------------------------------
-- Elements That Come And Go
------------------------------------------------------------

/- The name of a new element is added to the renaming. -/
def extend
    (A B : Allocator)
    (l k : NodeList α)
    (ρ : Addr → Addr) : Addr → Addr :=
  Function.update ρ (l.fresh A) (k.fresh B)

theorem extend_fresh
    (A B : Allocator)
    (l k : NodeList α)
    (ρ : Addr → Addr) :
    extend A B l k ρ (l.fresh A) = k.fresh B :=
  Function.update_self _ _ _

theorem extend_of_mem
    (A B : Allocator)
    (k : NodeList α)
    (ρ : Addr → Addr)
    {a : Addr}
    (ha : a ∈ l.addrs) :
    extend A B l k ρ a = ρ a := by
  apply Function.update_of_ne
  intro hFresh
  rw [hFresh] at ha
  exact l.fresh_not_mem A ha

theorem Renamed.emplaceBack
    (hRenamed : Renamed ρ l k)
    (A B : Allocator)
    (v : α) :
    Renamed (extend A B l k ρ) (l.emplaceBack A v)
      (k.emplaceBack B v) := by
  have hOld : Renamed (extend A B l k ρ) l k :=
    hRenamed.congr fun _ ha => extend_of_mem A B k ρ ha
  refine ⟨congrArg (· + 1) hRenamed.allocs, ?_⟩
  rw [nodes_emplaceBack, nodes_emplaceBack, List.map_append,
    ← hOld.nodes, List.map_singleton, Node.rename,
    extend_fresh]

theorem Renamed.removeIf
    (hRenamed : Renamed ρ l k)
    (p : α → Bool) :
    Renamed ρ (l.removeIf p) (k.removeIf p) := by
  refine ⟨hRenamed.allocs, ?_⟩
  rw [nodes_removeIf, nodes_removeIf, hRenamed.nodes,
    List.filter_map]
  rfl

------------------------------------------------------------
-- Searches
------------------------------------------------------------

/- A search for a value comes to the same element. -/
theorem Renamed.find?
    (hRenamed : Renamed ρ l k)
    (p : α → Bool) :
    (k.nodes.find? fun n => p n.val) =
      (l.nodes.find? fun n => p n.val).map
        (Node.rename ρ) := by
  rw [hRenamed.nodes, List.find?_map]
  rfl

/- So does one for an address in use. -/
theorem Renamed.lookup
    (hRenamed : Renamed ρ l k)
    {a : Addr}
    (ha : a ∈ l.addrs) :
    k.lookup (ρ a) = (l.lookup a).map (Node.rename ρ) := by
  rcases List.mem_map.mp ha with ⟨n, hn, hAddr⟩
  have hRenamedMem : n.rename ρ ∈ k.nodes := by
    rw [hRenamed.nodes]
    exact List.mem_map_of_mem hn
  rw [← hAddr, lookup_of_mem hn]
  exact lookup_of_mem hRenamedMem

------------------------------------------------------------
-- Updates
------------------------------------------------------------

theorem Renamed.update
    (hRenamed : Renamed ρ l k)
    {a : Addr}
    (ha : a ∈ l.addrs)
    (f : α → α) :
    Renamed ρ (l.update a f) (k.update (ρ a) f) := by
  refine ⟨hRenamed.allocs, ?_⟩
  unfold NodeList.update
  dsimp only
  rw [hRenamed.nodes, List.map_map, List.map_map]
  apply List.map_congr_left
  intro n hn
  have hHere : ρ n.addr = ρ a ↔ n.addr = a :=
    ⟨hRenamed.inj (List.mem_map_of_mem hn) ha, congrArg ρ⟩
  rw [Function.comp_apply, Function.comp_apply]
  by_cases hAddr : n.addr = a
  · rw [if_pos hAddr]
    exact if_pos (hHere.mpr hAddr)
  · rw [if_neg hAddr]
    exact if_neg fun hName => hAddr (hHere.mp hName)

/- Updates in turn, by entries for addresses in use. -/
theorem Renamed.foldl_update
    (f : β → α → α)
    {entries : List (Addr × β)}
    (hRenamed : Renamed ρ l k)
    (hIn : ∀ entry ∈ entries, entry.1 ∈ l.addrs) :
    Renamed ρ
      (entries.foldl
        (fun l entry => l.update entry.1 (f entry.2)) l)
      ((entries.map (Prod.map ρ id)).foldl
        (fun l entry => l.update entry.1 (f entry.2)) k) := by
  induction entries generalizing l k with
  | nil => exact hRenamed
  | cons entry entries ih =>
      rw [List.forall_mem_cons] at hIn
      apply ih (hRenamed.update hIn.1 (f entry.2))
      intro entry' hEntry
      rw [addrs_update]
      exact hIn.2 entry' hEntry

------------------------------------------------------------
-- Sweeps
------------------------------------------------------------

/- A visit that does not look at the address. -/
def Blind
    (visit : Node α → Option (α × Option β)) : Prop :=
  ∀ n (σ : Addr → Addr), visit (n.rename σ) = visit n

/- What a pass comes to at renamed addresses. -/
def Sweep.rename
    (ρ : Addr → Addr)
    (pass : Sweep α β) : Sweep α β where
  nodes := pass.nodes.map (Node.rename ρ)
  emitted := pass.emitted.map (Prod.map ρ id)
  completed := pass.completed

theorem sweepNodes_rename
    {visit : Node α → Option (α × Option β)}
    (hBlind : Blind visit)
    (ρ : Addr → Addr)
    (ns : List (Node α)) :
    sweepNodes visit (ns.map (Node.rename ρ)) =
      (sweepNodes visit ns).rename ρ := by
  induction ns with
  | nil => rfl
  | cons n ns ih =>
      rw [List.map_cons]
      unfold sweepNodes
      rw [hBlind n ρ, ih]
      cases visit n with
      | none => rfl
      | some out =>
          rcases out with ⟨v, out⟩
          cases out with
          | none => rfl
          | some b => rfl

theorem Renamed.sweep
    (hRenamed : Renamed ρ l k)
    {visit : Node α → Option (α × Option β)}
    (hBlind : Blind visit) :
    Renamed ρ (l.sweep visit) (k.sweep visit) := by
  refine ⟨hRenamed.allocs, ?_⟩
  change (sweepNodes visit k.nodes).nodes = _
  rw [hRenamed.nodes, sweepNodes_rename hBlind]
  rfl

end NodeList
