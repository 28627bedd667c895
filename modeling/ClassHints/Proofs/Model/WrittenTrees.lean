import ClassHints.Proofs.Model.TreeGrowth

/-!
# Class trees as they are written

A rule is written with its nested rules inside it, while the trees of a package lie side by side
and refer to each other by number. Here is the tree that a rule stands for, without numbers. A
rule adds the trees of it in one piece behind all others, so that the tree found at the first new
number is the tree as written, and nothing else changes.
-/

namespace ClassHints.Model

open Sheet (Node Comment splitSelectors)

/-- A class tree with the trees nested in it. -/
inductive WrittenTree where
  | mk (classes : List ClassName) (selector : Text) (description : Option Text)
    (nested : List WrittenTree)

/-- The selectors of the rules among nodes. -/
def ruleSelectors (nodes : List Node) : List Text :=
  nodes.flatMap fun
    | .rule selector _ _ => splitSelectors selector
    | _ => []

/-- The classes of a rule: those that its selectors name, then, for every suffix that a selector
of a nested rule attaches, all classes that are named with the suffix appended. -/
def writtenClasses (selector : Text) (nodes : List Node) : List ClassName :=
  let named := subClasses (splitSelectors selector)
  named ++ ((ruleSelectors nodes).filterMap parentSuffix?).flatMap fun suffix =>
    named.map fun c => ⟨c.name ++ suffix, c.directChild⟩

/-- The words of a node if it is a comment. -/
def wordsOf? : Option Node → Option Text
  | some (.comment c) => some (Comment.prose c.text)
  | _ => none

mutual

/-- The tree of a node with a description: that of a rule that names a class. -/
def writtenTree? (description : Option Text) : Node → Option WrittenTree
  | .rule selector nodes _ =>
    if (subClasses (splitSelectors selector)).isEmpty then none
    else some (.mk (writtenClasses selector nodes) selector description (writtenTrees none nodes))
  | _ => none

/-- The trees of nodes, each described by the node directly before it. -/
def writtenTrees (previous : Option Node) : List Node → List WrittenTree
  | [] => []
  | node :: nodes =>
    (writtenTree? (wordsOf? previous) node).toList ++ writtenTrees (some node) nodes

end

mutual

/-- A tree is found at a number, with a parent, and the trees nested in it are found at the
numbers of its children. -/
def WrittenTree.FoundAt (trees : Trees) (parent : Option Nat) (id : Nat) : WrittenTree → Prop
  | .mk classes selector description nested =>
    ∃ children, trees[id]? = some ⟨classes, children, parent, selector, description⟩ ∧
      allFoundAt trees id children nested

/-- Trees are found at numbers, with a common parent. -/
def allFoundAt (trees : Trees) (parent : Nat) : List Nat → List WrittenTree → Prop
  | [], [] => True
  | id :: ids, t :: ts => t.FoundAt trees (some parent) id ∧ allFoundAt trees parent ids ts
  | _, _ => False

end

mutual

/-- How many trees there are in a tree. -/
def WrittenTree.size : WrittenTree → Nat
  | .mk _ _ _ nested => sizeAll nested + 1

/-- How many trees there are in some trees. -/
def sizeAll : List WrittenTree → Nat
  | [] => 0
  | t :: ts => t.size + sizeAll ts

end

/-! ## Trees in one piece -/

/-- The numbers of trees that lie one behind the other. -/
def numbersFrom (first : Nat) : List WrittenTree → List Nat
  | [] => []
  | t :: ts => first :: numbersFrom (first + t.size) ts

mutual

/-- The entries of a tree from a number on, a parent before its children. -/
def WrittenTree.entries (parent : Option Nat) (id : Nat) : WrittenTree → List ClassTree
  | .mk classes selector description nested =>
    ⟨classes, numbersFrom (id + 1) nested, parent, selector, description⟩ ::
      entriesAll id (id + 1) nested

/-- The entries of trees with a common parent from a number on. -/
def entriesAll (parent first : Nat) : List WrittenTree → List ClassTree
  | [] => []
  | t :: ts => t.entries (some parent) first ++ entriesAll parent (first + t.size) ts

end

/-- Induction over trees: a tree brings the trees nested in it. -/
@[elab_as_elim]
theorem WrittenTree.forest_induction {motive : List WrittenTree → Prop} (nil : motive [])
    (cons : ∀ classes selector description nested ts, motive nested → motive ts →
      motive (.mk classes selector description nested :: ts)) : ∀ ts, motive ts
  | [] => nil
  | .mk classes selector description nested :: ts =>
    cons classes selector description nested ts (forest_induction nil cons nested)
      (forest_induction nil cons ts)

/-- Trees have as many entries as there are trees in them. -/
theorem length_entriesAll (parent first : Nat) (ts : List WrittenTree) :
    (entriesAll parent first ts).length = sizeAll ts := by
  induction ts using WrittenTree.forest_induction generalizing parent first with
  | nil => rfl
  | cons classes selector description nested ts hnested hts =>
    simp only [entriesAll, WrittenTree.entries, sizeAll, WrittenTree.size, List.cons_append,
      List.length_cons, List.length_append, hnested, hts]
    omega

/-- A tree has as many entries as there are trees in it. -/
theorem length_entries (parent : Option Nat) (id : Nat) (t : WrittenTree) :
    (t.entries parent id).length = t.size := by
  obtain ⟨classes, selector, description, nested⟩ := t
  simp [WrittenTree.entries, WrittenTree.size, length_entriesAll]

/-- Behind the entries of a tree there are as many more trees as there are in it. -/
theorem size_append_entries (trees : Trees) (parent : Option Nat) (id : Nat) (t : WrittenTree) :
    (trees ++ (t.entries parent id).toArray).size = trees.size + t.size := by
  simp [length_entries]

/-- Entries lie among the trees from a number on. -/
def LiesAt (trees : Trees) (first : Nat) (entries : List ClassTree) : Prop :=
  ∀ k < entries.length, trees[first + k]? = entries[k]?

namespace LiesAt

variable {trees : Trees} {first : Nat} {entry : ClassTree} {entries more : List ClassTree}

/-- The first entry lies at the first number. -/
theorem head (h : LiesAt trees first (entry :: entries)) : trees[first]? = some entry :=
  h 0 (Nat.succ_pos _)

/-- The other entries lie from the next number on. -/
theorem tail (h : LiesAt trees first (entry :: entries)) : LiesAt trees (first + 1) entries := by
  intro k hk
  rw [Nat.add_assoc, Nat.add_comm 1, h (k + 1) (Nat.succ_lt_succ hk), List.getElem?_cons_succ]

/-- The first of two runs of entries lies where both do. -/
theorem left (h : LiesAt trees first (entries ++ more)) : LiesAt trees first entries := by
  intro k hk
  rw [h k (by rw [List.length_append]; omega), List.getElem?_append_left hk]

/-- The second of two runs of entries lies behind the first. -/
theorem right (h : LiesAt trees first (entries ++ more)) :
    LiesAt trees (first + entries.length) more := by
  intro k hk
  rw [Nat.add_assoc, h _ (by rw [List.length_append]; omega),
    List.getElem?_append_right (Nat.le_add_right _ _), Nat.add_sub_cancel_left]

end LiesAt

/-- Trees whose entries lie somewhere are found there. -/
theorem allFoundAt_of_liesAt {trees : Trees} {ts : List WrittenTree} {parent first : Nat}
    (h : LiesAt trees first (entriesAll parent first ts)) :
    allFoundAt trees parent (numbersFrom first ts) ts := by
  induction ts using WrittenTree.forest_induction generalizing parent first with
  | nil => trivial
  | cons classes selector description nested ts hnested hts =>
    have htree := h.left
    rw [WrittenTree.entries] at htree
    have hrest := h.right
    rw [length_entries] at hrest
    exact ⟨⟨_, htree.head, hnested htree.tail⟩, hts hrest⟩

/-- A tree whose entries lie somewhere is found there. -/
theorem WrittenTree.foundAt_of_liesAt {trees : Trees} {t : WrittenTree} {parent : Option Nat}
    {id : Nat} (h : LiesAt trees id (t.entries parent id)) : t.FoundAt trees parent id := by
  obtain ⟨classes, selector, description, nested⟩ := t
  rw [WrittenTree.entries] at h
  exact ⟨_, h.head, allFoundAt_of_liesAt h.tail⟩

/-! ## Rules -/

/-- The classes that nested rules continue are continued for one suffix after the other. -/
theorem continuedClasses_eq (base : List ClassName) (nodes : List Node) :
    continuedClasses base nodes =
      ((ruleSelectors nodes).filterMap parentSuffix?).flatMap fun suffix =>
        base.map fun c => ⟨c.name ++ suffix, c.directChild⟩ := by
  unfold continuedClasses ruleSelectors
  rw [List.filterMap_flatMap, List.flatMap_assoc]
  refine List.flatMap_congr fun node _ => ?_
  cases node <;> rfl

/-- A tree that was planted before others and is changed after them. -/
theorem modify_append (trees : Trees) (tree : ClassTree) (entries : List ClassTree)
    (f : ClassTree → ClassTree) :
    (trees.push tree ++ entries.toArray).modify trees.size f =
      trees ++ (f tree :: entries).toArray := by
  apply Array.toList_inj.1
  simp only [Array.toList_modify, Array.toList_append, Array.toList_push, List.append_assoc,
    List.singleton_append]
  exact List.modifyTailIdx_add (List.modifyHead f) 0 trees.toList (tree :: entries)

/-- A rule that names a class plants its tree, adds the trees of the nodes inside it, and notes
their numbers. -/
theorem growTree_rule {selector : Text} {nodes : List Node} {parent : Option Nat}
    {description : Option Text} {trees grown : Trees} {children : List Nat}
    (hclasses : ¬ (subClasses (splitSelectors selector)).isEmpty)
    (hnested : growTrees trees.size none nodes
      (trees.push ⟨writtenClasses selector nodes, [], parent, selector, description⟩) =
        (children, grown)) (span : Sheet.Span) :
    growTree parent description (.rule selector nodes span) trees =
      (some trees.size, grown.modify trees.size fun t => { t with children := children }) := by
  rw [writtenClasses, ← continuedClasses_eq] at hnested
  rw [growTree]
  dsimp only
  rw [if_neg hclasses, hnested]

/-- The trees of nodes are added in one piece. -/
def AddsEntries (nodes : List Node) : Prop :=
  ∀ (parent : Nat) (previous : Option Node) (trees : Trees),
    growTrees parent (wordsOf? previous) nodes trees =
      (numbersFrom trees.size (writtenTrees previous nodes),
        trees ++ (entriesAll parent trees.size (writtenTrees previous nodes)).toArray)

/-- The tree of a node is added in one piece if the trees of the nodes inside it are. -/
theorem growTree_eq (node : Node) (h : AddsEntries node.children) (parent : Option Nat)
    (description : Option Text) (trees : Trees) :
    growTree parent description node trees =
      match writtenTree? description node with
      | none => (none, trees)
      | some t => (some trees.size, trees ++ (t.entries parent trees.size).toArray) := by
  cases node with
  | rule selector nodes span =>
    by_cases hclasses : (subClasses (splitSelectors selector)).isEmpty
    · rw [growTree, writtenTree?, if_pos hclasses, if_pos hclasses]
    -- the nested trees are numbered behind the planted one, which learns of them last
    · let tree : ClassTree := ⟨writtenClasses selector nodes, [], parent, selector, description⟩
      have hnested : growTrees trees.size none nodes (trees.push tree) = _ :=
        h trees.size none (trees.push tree)
      rw [Array.size_push] at hnested
      rw [growTree_rule hclasses hnested, modify_append, writtenTree?, if_neg hclasses]
      rfl
  | declaration property value span => rfl
  | statement name params span => rfl
  | block name params nodes span => rfl
  | comment c => rfl

/-- One more node in front: the entries of its tree come first, unless it has none. -/
theorem AddsEntries.cons (node : Node) {nodes : List Node} (hnode : AddsEntries node.children)
    (hnodes : AddsEntries nodes) : AddsEntries (node :: nodes) := by
  intro parent previous trees
  by_cases hcomment : ∃ c, node = .comment c
  -- a comment adds no tree and waits for the node behind it
  · obtain ⟨c, rfl⟩ := hcomment
    rw [growTrees]
    exact hnodes parent (some (.comment c)) trees
  · rw [growTrees_cons fun c hc => hcomment ⟨c, hc⟩, growTree_eq node hnode, writtenTrees]
    have hwords : wordsOf? (some node) = none := by
      cases node with
      | comment c => exact absurd ⟨c, rfl⟩ hcomment
      | _ => rfl
    cases writtenTree? (wordsOf? previous) node with
    | none =>
      dsimp only
      rw [← hwords, hnodes parent (some node)]
      rfl
    | some t =>
      dsimp only
      rw [← hwords, hnodes parent (some node), size_append_entries, Array.append_assoc,
        List.append_toArray (t.entries _ _)]
      rfl

/-- The trees of all nodes are added in one piece. -/
theorem addsEntries (nodes : List Node) : AddsEntries nodes := by
  induction nodes using Node.children_induction with
  | nil =>
    intro parent previous trees
    rw [growTrees, writtenTrees, entriesAll, Array.append_empty]
    rfl
  | cons node nodes hinner ih => exact .cons node hinner ih

/-- A node adds the entries of its tree behind all other trees. -/
theorem growTree_eq_append (parent : Option Nat) (description : Option Text) (node : Node)
    (trees : Trees) : (growTree parent description node trees).2 = trees ++
      ((writtenTree? description node).elim [] (·.entries parent trees.size)).toArray := by
  rw [growTree_eq node (addsEntries node.children)]
  cases writtenTree? description node with
  | none => simp
  | some t => rfl

/-- A rule none of whose selectors names a class adds nothing. Any other rule gets the next number
and leaves the trees before it as they are; the tree that is found at its number is the tree as
written, and there are no more trees than those in it. -/
theorem growTree_written (selector : Text) (nodes : List Node) (span : Sheet.Span)
    (parent : Option Nat) (description : Option Text) (trees : Trees) :
    let grown := growTree parent description (.rule selector nodes span) trees
    let written : WrittenTree :=
      .mk (writtenClasses selector nodes) selector description (writtenTrees none nodes)
    ((∀ s ∈ splitSelectors selector, ClassName.ofSelector? s = none) → grown = (none, trees)) ∧
      ((∃ s ∈ splitSelectors selector, ClassName.ofSelector? s ≠ none) →
        grown.1 = some trees.size ∧
          (∀ id < trees.size, grown.2[id]? = trees[id]?) ∧
          written.FoundAt grown.2 parent trees.size ∧
          grown.2.size = trees.size + written.size) := by
  intro grown written
  have hgrown : grown = _ :=
    growTree_eq (.rule selector nodes span) (addsEntries nodes) parent description trees
  rw [writtenTree?] at hgrown
  constructor
  · intro hnone
    have hempty : subClasses (splitSelectors selector) = [] := List.filterMap_eq_nil_iff.2 hnone
    rwa [if_pos (by rw [hempty]; rfl)] at hgrown
  · rintro ⟨s, hs, hsome⟩
    have hclasses : ¬ (subClasses (splitSelectors selector)).isEmpty := fun hempty =>
      hsome (List.filterMap_eq_nil_iff.1 (List.isEmpty_iff.1 hempty) s hs)
    rw [if_neg hclasses] at hgrown
    have htrees : grown.2 = trees ++ (written.entries parent trees.size).toArray := by
      rw [hgrown]
    refine ⟨by rw [hgrown], fun id hid => ?_, ?_, ?_⟩
    · rw [htrees, Array.getElem?_append_left hid]
    · rw [htrees]
      refine WrittenTree.foundAt_of_liesAt fun k _ => ?_
      rw [Array.getElem?_append_right (Nat.le_add_right _ _), Nat.add_sub_cancel_left,
        List.getElem?_toArray]
    · rw [htrees, size_append_entries]

/-- A card with suffixes of two kinds, a comment for one rule only, and a rule that names no
class. -/
def cardNodes : List Node :=
  [.comment ⟨.line, " Wide".toList, ⟨8, 15, 2, 1⟩⟩,
    .rule "&--wide, .x, &_tall".toList [] ⟨16, 38, 3, 1⟩,
    .comment ⟨.line, " Lost".toList, ⟨39, 46, 4, 1⟩⟩,
    .declaration "color".toList "red".toList ⟨47, 57, 5, 1⟩,
    .rule "> .c".toList
      [.comment ⟨.block, " Inner ".toList, ⟨64, 75, 6, 7⟩⟩, .rule ".d".toList [] ⟨76, 81, 6, 19⟩]
      ⟨58, 82, 6, 1⟩,
    .rule "p".toList [.rule ".e".toList [] ⟨86, 91, 7, 4⟩] ⟨83, 92, 7, 1⟩]

/-- The tree of the card: the second comment describes nothing, and a rule inside a rule without a
class is dropped with it. -/
def cardTree : WrittenTree :=
  .mk [⟨"card".toList, false⟩, ⟨"card--wide".toList, false⟩, ⟨"card_tall".toList, false⟩]
    ".card".toList none
    [.mk [⟨"x".toList, false⟩] "&--wide, .x, &_tall".toList (some "Wide".toList) [],
      .mk [⟨"c".toList, true⟩] "> .c".toList none
        [.mk [⟨"d".toList, false⟩] ".d".toList (some "Inner".toList) []]]

/-- The card is added behind the tree of the rule around it. -/
theorem growTree_written_card :
    let outer : Trees := #[⟨[⟨"a".toList, false⟩], [], none, ".a".toList, none⟩]
    let grown := growTree (some 0) none (.rule ".card".toList cardNodes ⟨0, 94, 1, 1⟩) outer
    grown.1 = some 1 ∧ grown.2[0]? = outer[0]? ∧ cardTree.FoundAt grown.2 (some 0) 1 ∧
      grown.2.size = 5 := by
  intro outer grown
  have hcard : ∃ s ∈ splitSelectors ".card".toList, ClassName.ofSelector? s ≠ none :=
    ⟨".card".toList, by decide, by decide⟩
  have hwritten : .mk (writtenClasses ".card".toList cardNodes) ".card".toList none
      (writtenTrees none cardNodes) = cardTree := by
    rfl
  obtain ⟨hnumber, hold, hfound, hsize⟩ := (growTree_written ".card".toList cardNodes
    ⟨0, 94, 1, 1⟩ (some 0) none outer).2 hcard
  rw [hwritten] at hfound hsize
  exact ⟨hnumber, hold 0 (by decide), hfound, hsize⟩

end ClassHints.Model
