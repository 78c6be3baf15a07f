import DecisionDiagram.Counting
import DecisionDiagram.Store
/-!
The number of vertices that a walk has not seen yet. Every walk through a store is bounded by it.
-/
namespace DecisionDiagram.Store

def refs (s : Store) : List Ref := List.range s.size

def unseen (s : Store) (seen : List Ref) : Nat := unseenCount s.refs seen

theorem mem_refs {s : Store} {r : Ref} : r ∈ s.refs ↔ r < s.size := List.mem_range

theorem unseen_lt {s : Store} {seen seen' : List Ref} {r : Ref} (hsub : ∀ x ∈ seen, x ∈ seen')
    (hr : r < s.size) (hnew : r ∉ seen) (hold : r ∈ seen') : s.unseen seen' < s.unseen seen :=
  unseenCount_lt hsub (mem_refs.mpr hr) hnew hold

theorem unseen_le {s : Store} {seen seen' : List Ref} (hsub : ∀ x ∈ seen, x ∈ seen') :
    s.unseen seen' ≤ s.unseen seen :=
  unseenCount_le hsub

end DecisionDiagram.Store
