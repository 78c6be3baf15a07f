import DecisionDiagram.Walk.Unseen
import DecisionDiagram.Wiring
/-!
Equality of vertices by what lies below them: two vertices are equal when their kinds have one shape
and their branches are equal in turn. Pairs under comparison count as equal, so cycles come to an
end. A diagram as an operand is equal to itself only.
-/
namespace DecisionDiagram.Store

def pairs (s : Store) : List (Ref × Ref) := s.refs.flatMap fun a => s.refs.map fun b => (a, b)

theorem mem_pairs {s : Store} {a b : Ref} : (a, b) ∈ s.pairs ↔ a < s.size ∧ b < s.size := by
  simp [pairs, mem_refs]

def uncompared (s : Store) (seen : List (Ref × Ref)) : Nat := unseenCount s.pairs seen

theorem uncompared_lt {s : Store} {seen : List (Ref × Ref)} {a b : Ref} (ha : a < s.size)
    (hb : b < s.size) (hnew : (a, b) ∉ seen) : s.uncompared ((a, b) :: seen) < s.uncompared seen :=
  unseenCount_lt (fun _ h => List.mem_cons_of_mem _ h) (mem_pairs.mpr ⟨ha, hb⟩) hnew
    List.mem_cons_self

/-- Compares the pending pairs of branches; those in `seen` are taken as equal. -/
def agree (s : Store) (seen : List (Ref × Ref)) (pending : List (Option Ref × Option Ref)) : Bool :=
  match pending with
  | [] => true
  | (a, b) :: rest =>
    if a = b then s.agree seen rest
    else
      match a, b with
      | some a, some b =>
        if (a, b) ∈ seen then s.agree seen rest
        else
          match _ha : s.vertex? a, _hb : s.vertex? b with
          | some x, some y =>
            if x.kind.shape = y.kind.shape then
              s.agree ((a, b) :: seen) ((x.lo, y.lo) :: (x.hi, y.hi) :: rest)
            else false
          | _, _ => false
      | _, _ => false
termination_by (s.uncompared seen, pending.length)
decreasing_by
  · apply Prod.Lex.right; simp
  · apply Prod.Lex.right; simp
  · apply Prod.Lex.left
    exact uncompared_lt (lt_size_of_vertex? _ha) (lt_size_of_vertex? _hb) ‹_›

def similar (s : Store) (a b : Ref) : Bool := s.agree [] [(some a, some b)]

def isDiagram (s : Store) (r : Ref) : Bool := (s.registry? r).isSome

def equals (s : Store) (a : Ref) : Reference → Bool
  | .vertex b => if s.isDiagram a || s.isDiagram b then a == b else s.similar a b
  | _ => false

def shape? (s : Store) (r : Ref) : Option Shape := (s.kind? r).map Kind.shape

/-- What a hash looks at: the shape of a vertex and those at the ends of its branches. -/
def digest (s : Store) (r : Ref) : Option Shape × Option Shape × Option Shape :=
  (s.shape? r, (s.branch true r).bind s.shape?, (s.branch false r).bind s.shape?)

def sameDigest (s : Store) (a b : Ref) : Bool :=
  if s.isDiagram a || s.isDiagram b then a == b else s.digest a == s.digest b

end DecisionDiagram.Store
