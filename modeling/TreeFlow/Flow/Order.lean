import TreeFlow.Flow.Basic

/-!
# The order in which blocks are visited

Blocks are visited in reverse post-order of a depth-first walk from the entry, so that a value is
seen before any block that it flows into. Blocks that cannot be reached from there follow in the
order of the layout, each with what it leads to.

The walk keeps a list of what is still to be done. A block may wait there several times, but it is
entered only once: every step either enters a block for the first time or takes something off the
list.
-/

namespace TreeFlow

/-- Something still to be done on a walk. -/
inductive Errand where
  /-- The block is entered, unless that happened before. -/
  | enter (id : BlockId)
  /-- The block is left, now that everything it leads to was entered. -/
  | leave (id : BlockId)
  deriving Repr, DecidableEq

/-- A block that is entered is left later. -/
def Errand.weight : Errand → Nat
  | enter _ => 2
  | leave _ => 1

/-- What is left of a walk. -/
def Errand.total (todo : List Errand) : Nat := todo.foldr (fun e n => e.weight + n) 0

/-- The state of a walk: the blocks entered so far, and those left again, the last one first. -/
structure Walk where
  visited : List BlockId := []
  order : List BlockId := []
  deriving Repr, Inhabited

namespace Function

/-- The blocks of the function that are not among the visited ones. -/
def unvisited (f : Function) (visited : List BlockId) : List Nat :=
  (List.range f.blocks.size).filter fun i => ⟨i⟩ ∉ visited

theorem unvisited_cons (f : Function) (id : BlockId) (visited : List BlockId) :
    f.unvisited (id :: visited) = (f.unvisited visited).filter fun i => ⟨i⟩ ≠ id := by
  simp [unvisited, List.filter_filter]

theorem length_unvisited_cons_le (f : Function) (id : BlockId) (visited : List BlockId) :
    (f.unvisited (id :: visited)).length ≤ (f.unvisited visited).length := by
  rw [unvisited_cons]
  exact List.length_filter_le ..

/-- A block that is entered for the first time is either one less to enter, or leads nowhere. -/
theorem length_unvisited_cons_lt {f : Function} {id : BlockId} {visited : List BlockId}
    (hnew : id ∉ visited) (hleads : f.successors id ≠ []) :
    (f.unvisited (id :: visited)).length < (f.unvisited visited).length := by
  have hhas : id.index < f.blocks.size := Nat.lt_of_not_le fun h => by
    have hnone : f.blocks[id.index]? = none := Array.getElem?_eq_none h
    exact hleads (by simp [successors, block?, hnone])
  have hmem : id.index ∈ f.unvisited visited := by simp [unvisited, hhas, hnew]
  rw [unvisited_cons]
  refine Nat.lt_of_le_of_ne (List.length_filter_le ..) fun h => ?_
  simpa using List.length_filter_eq_length_iff.1 h _ hmem

/-- Does what is to be done, the first errand first. What a block leads to is entered before
anything that waited already. -/
def walk (f : Function) : List Errand → Walk → Walk
  | [], w => w
  | .leave id :: rest, w => f.walk rest { w with order := id :: w.order }
  | .enter id :: rest, w =>
    if id ∈ w.visited then f.walk rest w
    else
      let visited := id :: w.visited
      let next := (f.successors id).filter (· ∉ visited)
      f.walk (next.map .enter ++ .leave id :: rest) { w with visited }
termination_by todo w => ((f.unvisited w.visited).length, Errand.total todo)
decreasing_by
  · exact .right _ (by simp [Errand.total, Errand.weight])
  · exact .right _ (by simp [Errand.total, Errand.weight])
  · next hnew =>
    by_cases hleads : f.successors id = []
    · have hle := f.length_unvisited_cons_le id w.visited
      rcases Nat.lt_or_eq_of_le hle with hlt | heq
      · exact .left _ _ hlt
      · rw [heq]
        exact .right _ (by simp [hleads, Errand.total, Errand.weight])
    · exact .left _ _ (length_unvisited_cons_lt hnew hleads)

/-- Walks from a root, unless it was entered before; what it leads to comes after all before. -/
def walkRoot (f : Function) (w : Walk) (root : BlockId) : Walk :=
  if root ∈ w.visited then w
  else
    let after := f.walk [.enter root] ⟨w.visited, []⟩
    ⟨after.visited, w.order ++ after.order⟩

/-- The blocks in the order in which they are visited. -/
def visitOrder (f : Function) : List BlockId := (f.layout.foldl f.walkRoot {}).order

end Function

end TreeFlow
