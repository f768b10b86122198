import Stencil.Template

/-!
# Nodes at other positions

Nodes read from a part of a source stand at other positions when there is something before that
part. Apart from where they stand they are the same.
-/

namespace Stencil

open Text (Position)

def Code.moved (m : Position → Position) (c : Code) : Code := { c with position := m c.position }

namespace Node

section Moving

variable (m : Position → Position)

mutual

def moved : Node → Node
  | .data p text => .data (m p) text
  | .output p code escaped => .output (m p) (code.moved m) escaped
  | .yielding p name default => .yielding (m p) name default
  | .including p template given => .including (m p) template (given.map (Code.moved m))
  | .conditional p test body others otherwise =>
    .conditional (m p) (test.moved m) (movedAll body) (movedOthers others) (movedAll otherwise)
  | .loop p keyword target source body =>
    .loop (m p) keyword (target.moved m) (source.moved m) (movedAll body)
  | .whileLoop p test body => .whileLoop (m p) (test.moved m) (movedAll body)

def movedAll : List Node → List Node
  | [] => []
  | n :: ns => moved n :: movedAll ns

def movedOthers : List (Code × List Node) → List (Code × List Node)
  | [] => []
  | o :: os => movedOther o :: movedOthers os

def movedOther : Code × List Node → Code × List Node
  | (test, body) => (test.moved m, movedAll body)

end

theorem movedAll_eq_map (ns : List Node) : movedAll m ns = ns.map (moved m) := by
  induction ns with
  | nil => rfl
  | cons n ns ih => rw [movedAll, ih, List.map_cons]

mutual

theorem expressions_moved : ∀ n : Node,
    expressions (moved m n) = (expressions n).map (Code.moved m)
  | .data _ _ | .yielding _ _ _ | .output _ _ _ => rfl
  | .including _ _ none | .including _ _ (some _) => rfl
  | .conditional _ test body others otherwise => by
    simp only [moved, expressions, expressionsOf_moved body, expressionsOfOthers_moved others,
      expressionsOf_moved otherwise, List.map_cons, List.map_append]
  | .loop _ _ target source body => by
    simp only [moved, expressions, expressionsOf_moved body, List.map_cons]
  | .whileLoop _ test body => by
    simp only [moved, expressions, expressionsOf_moved body, List.map_cons]

theorem expressionsOf_moved : ∀ ns : List Node,
    expressionsOf (movedAll m ns) = (expressionsOf ns).map (Code.moved m)
  | [] => rfl
  | n :: ns => by
    rw [movedAll, expressionsOf, expressionsOf, expressions_moved n, expressionsOf_moved ns,
      List.map_append]

theorem expressionsOfOthers_moved : ∀ os : List (Code × List Node),
    expressionsOfOthers (movedOthers m os) = (expressionsOfOthers os).map (Code.moved m)
  | [] => rfl
  | o :: os => by
    rw [movedOthers, expressionsOfOthers, expressionsOfOthers, expressionsOfOther_moved o,
      expressionsOfOthers_moved os, List.map_append]

theorem expressionsOfOther_moved : ∀ o : Code × List Node,
    expressionsOfOther (movedOther m o) = (expressionsOfOther o).map (Code.moved m)
  | (test, body) => by
    simp only [movedOther, expressionsOfOther, expressionsOf_moved body, List.map_cons]

end

theorem mention_moved (name : String) (ns : List Node) :
    mention name (movedAll m ns) = mention name ns := by
  unfold mention
  rw [expressionsOf_moved, List.any_map]
  rfl

mutual

theorem loopDepth_moved : ∀ n : Node, loopDepth (moved m n) = loopDepth n
  | .data _ _ | .yielding _ _ _ | .output _ _ _ | .including _ _ _ => rfl
  | .conditional _ _ body others otherwise => by
    simp only [moved, loopDepth, loopDepths_moved body, loopDepthOfOthers_moved others,
      loopDepths_moved otherwise]
  | .loop _ _ _ _ body | .whileLoop _ _ body => by
    simp only [moved, loopDepth, loopDepths_moved body]

theorem loopDepths_moved : ∀ ns : List Node, loopDepths (movedAll m ns) = loopDepths ns
  | [] => rfl
  | n :: ns => by rw [movedAll, loopDepths, loopDepths, loopDepth_moved n, loopDepths_moved ns]

theorem loopDepthOfOthers_moved : ∀ os : List (Code × List Node),
    loopDepthOfOthers (movedOthers m os) = loopDepthOfOthers os
  | [] => rfl
  | o :: os => by
    rw [movedOthers, loopDepthOfOthers, loopDepthOfOthers, loopDepthOfOther_moved o,
      loopDepthOfOthers_moved os]

theorem loopDepthOfOther_moved : ∀ o : Code × List Node,
    loopDepthOfOther (movedOther m o) = loopDepthOfOther o
  | (_, body) => loopDepths_moved body

end

end Moving

mutual

theorem moved_id : ∀ n : Node, moved id n = n
  | .data _ _ | .yielding _ _ _ | .output _ _ _ => rfl
  | .including _ _ none | .including _ _ (some _) => rfl
  | .conditional _ _ body others otherwise => by
    rw [moved, movedAll_id body, movedOthers_id others, movedAll_id otherwise]
    rfl
  | .loop _ _ _ _ body | .whileLoop _ _ body => by
    rw [moved, movedAll_id body]
    rfl

theorem movedAll_id : ∀ ns : List Node, movedAll id ns = ns
  | [] => rfl
  | n :: ns => by rw [movedAll, moved_id n, movedAll_id ns]

theorem movedOthers_id : ∀ os : List (Code × List Node), movedOthers id os = os
  | [] => rfl
  | o :: os => by rw [movedOthers, movedOther_id o, movedOthers_id os]

theorem movedOther_id : ∀ o : Code × List Node, movedOther id o = o
  | (_, body) => by
    rw [movedOther, movedAll_id body]
    rfl

end

end Node

end Stencil
