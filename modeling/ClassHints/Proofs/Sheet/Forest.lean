import ClassHints.Sheet.Node

/-!
# Forests of nodes

A stylesheet is a list of nodes, some of which have lists of nodes inside them. Here are the
induction over such forests, the list of all their nodes, and the forest without places.
-/

namespace ClassHints.Sheet

/-- Induction over forests: a node with a block brings the forest inside it. -/
@[elab_as_elim]
theorem Node.forest_induction {motive : List Node → Prop} (nil : motive [])
    (declaration : ∀ property value span nodes, motive nodes →
      motive (.declaration property value span :: nodes))
    (statement : ∀ name params span nodes, motive nodes →
      motive (.statement name params span :: nodes))
    (block : ∀ name params inner span nodes, motive inner → motive nodes →
      motive (.block name params inner span :: nodes))
    (rule : ∀ selector inner span nodes, motive inner → motive nodes →
      motive (.rule selector inner span :: nodes))
    (comment : ∀ comment nodes, motive nodes → motive (.comment comment :: nodes)) :
    ∀ nodes, motive nodes
  | [] => nil
  | .declaration p v s :: nodes =>
    declaration p v s nodes (forest_induction nil declaration statement block rule comment nodes)
  | .statement n p s :: nodes =>
    statement n p s nodes (forest_induction nil declaration statement block rule comment nodes)
  | .block n p inner s :: nodes =>
    block n p inner s nodes (forest_induction nil declaration statement block rule comment inner)
      (forest_induction nil declaration statement block rule comment nodes)
  | .rule sel inner s :: nodes =>
    rule sel inner s nodes (forest_induction nil declaration statement block rule comment inner)
      (forest_induction nil declaration statement block rule comment nodes)
  | .comment c :: nodes =>
    comment c nodes (forest_induction nil declaration statement block rule comment nodes)

/-- Induction over forests where all kinds of nodes are alike: a node brings the forest inside it,
which is empty for a node without a block. -/
@[elab_as_elim]
theorem Node.children_induction {motive : List Node → Prop} (nil : motive [])
    (cons : ∀ node nodes, motive node.children → motive nodes → motive (node :: nodes))
    (nodes : List Node) : motive nodes := by
  induction nodes using Node.forest_induction with
  | nil => exact nil
  | declaration _ _ _ nodes ih | statement _ _ _ nodes ih | comment _ nodes ih =>
    exact cons _ nodes nil ih
  | block _ _ _ _ nodes hinner ih | rule _ _ _ nodes hinner ih => exact cons _ nodes hinner ih

mutual

/-- A node without its place. -/
def Node.unplaced : Node → Node
  | .declaration property value _ => .declaration property value ⟨0, 0, 0, 0⟩
  | .statement name params _ => .statement name params ⟨0, 0, 0, 0⟩
  | .block name params nodes _ => .block name params (unplacedAll nodes) ⟨0, 0, 0, 0⟩
  | .rule selector nodes _ => .rule selector (unplacedAll nodes) ⟨0, 0, 0, 0⟩
  | .comment c => .comment { c with span := ⟨0, 0, 0, 0⟩ }

/-- Nodes without their places. -/
def unplacedAll : List Node → List Node
  | [] => []
  | node :: nodes => node.unplaced :: unplacedAll nodes

end

/-- A forest loses its places node by node. -/
theorem unplacedAll_eq_map (nodes : List Node) : unplacedAll nodes = nodes.map Node.unplaced := by
  induction nodes with
  | nil => rfl
  | cons node nodes ih => rw [unplacedAll, ih, List.map_cons]

/-- All nodes of a forest at any depth, a node before the nodes inside it. -/
def allNodes : List Node → List Node
  | [] => []
  | .block name params inner span :: nodes =>
    .block name params inner span :: allNodes inner ++ allNodes nodes
  | .rule selector inner span :: nodes =>
    .rule selector inner span :: allNodes inner ++ allNodes nodes
  | node :: nodes => node :: allNodes nodes

/-- The empty forest has no nodes. -/
@[simp]
theorem allNodes_nil : allNodes [] = [] := by rw [allNodes]

/-- The first tree comes first with all nodes inside it. -/
theorem allNodes_cons (node : Node) (nodes : List Node) :
    allNodes (node :: nodes) = node :: allNodes node.children ++ allNodes nodes := by
  cases node <;> simp [allNodes, Node.children]

/-- The nodes of two forests are those of the first, then of the second. -/
theorem allNodes_append (nodes nodes' : List Node) :
    allNodes (nodes ++ nodes') = allNodes nodes ++ allNodes nodes' := by
  induction nodes with
  | nil => rw [allNodes_nil, List.nil_append, List.nil_append]
  | cons node nodes ih =>
    rw [List.cons_append, allNodes_cons, allNodes_cons, ih, List.append_assoc]

/-- The trees of a forest are nodes of it. -/
theorem mem_allNodes_of_mem {node : Node} {nodes : List Node} (h : node ∈ nodes) :
    node ∈ allNodes nodes := by
  obtain ⟨before, after, rfl⟩ := List.append_of_mem h
  rw [allNodes_append, allNodes_cons]
  simp

/-- The nodes inside a node are listed right behind it. -/
theorem exists_allNodes_eq {node : Node} {nodes : List Node} (h : node ∈ allNodes nodes) :
    ∃ before after, allNodes nodes = before ++ (node :: allNodes node.children) ++ after := by
  induction nodes using Node.children_induction with
  | nil => cases allNodes_nil ▸ h
  | cons first nodes hinner hlater =>
    rw [allNodes_cons, List.cons_append, List.mem_cons, List.mem_append] at h
    rw [allNodes_cons]
    rcases h with rfl | h | h
    · exact ⟨[], allNodes nodes, by simp⟩
    · obtain ⟨before, after, heq⟩ := hinner h
      exact ⟨first :: before, after ++ allNodes nodes, by rw [heq]; simp⟩
    · obtain ⟨before, after, heq⟩ := hlater h
      exact ⟨first :: allNodes first.children ++ before, after, by rw [heq]; simp⟩

/-- The nodes of a forest do not depend on the order of its trees. -/
theorem mem_allNodes_reverse {node : Node} {nodes : List Node} :
    node ∈ allNodes nodes.reverse ↔ node ∈ allNodes nodes := by
  induction nodes with
  | nil => rfl
  | cons first nodes ih =>
    rw [List.reverse_cons, allNodes_append, List.mem_append, ih, allNodes_cons, allNodes_cons,
      allNodes_nil, List.append_nil, List.mem_append, or_comm]

end ClassHints.Sheet
