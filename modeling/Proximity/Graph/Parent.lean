import Proximity.Graph.Layer

set_option autoImplicit false
set_option relaxedAutoImplicit false

/-!
# The search for a parent

A new node needs a parent on each of its layers: a node that can take one more edge of the tree by
which the layer hangs together. It is looked for breadth first, from the candidates nearest to the
new node.

## Main definitions

* `Proximity.Layer.firstWithRoom` — the first node, breadth first, that has room.
-/

namespace Proximity.Layer

variable {ε : Type}

/-- The first node, breadth first from `queue` and leaving out those `seen`, that has room for one
more tree edge, or the failure `saturated` if there is none. -/
def firstWithRoom (layer : Layer ε) (hasRoom : VectorId → List VectorId → Except ε Bool)
    (saturated : ε) (seen : IdSet) (queue : List VectorId) : Except ε VectorId :=
  match queue with
  | [] => .error saturated
  | id :: queue =>
    if _ : seen.contains id = true then firstWithRoom layer hasRoom saturated seen queue
    else
      match _ : layer.neighbors id with
      | .error e => .error e
      | .ok list =>
        match hasRoom id list with
        | .error e => .error e
        | .ok true => .ok id
        | .ok false =>
          firstWithRoom layer hasRoom saturated (seen.insert id) (queue ++ list)
termination_by ((layer.unvisited seen).length, queue.length)
decreasing_by
  · exact Prod.Lex.right _ (Nat.lt_succ_self _)
  · exact Prod.Lex.left _ _ (layer.length_unvisited_insert_lt
      (layer.mem_of_neighbors (by assumption)) (Bool.eq_false_iff.mpr (by assumption)))

end Proximity.Layer
