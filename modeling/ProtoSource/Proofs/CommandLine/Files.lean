import ProtoSource.CommandLine.Files
import ProtoSource.Proofs.Success

/-!
# What changes in a file tree

A tree is seen by what stands at each list of names.  Writing a file changes what is
seen at one of them, the one that the path leads to from then on, and making directories
changes no file.  No operation changes anything when it fails, except that directories
made on the way to another one stay.
-/

namespace ProtoSource.CommandLine

open ProtoSource.Wire

/-- What stands at the end of a list of names. -/
inductive Sight where
  | directory
  | file (content : Bytes)
  deriving DecidableEq

/-- A node that is seen as given; a directory is empty. -/
def Sight.node : Sight → Node
  | .directory => .directory []
  | .file content => .file content

namespace Node

def sight : Node → Sight
  | .file content => .file content
  | .directory _ => .directory

@[simp]
theorem sight_node (sight : Sight) : sight.node.sight = sight := by
  cases sight <;> rfl

theorem at?_append (node : Node) (names more : List String) :
    node.at? (names ++ more) = (node.at? names).bind (·.at? more) := by
  induction names generalizing node with
  | nil => rfl
  | cons name names ih =>
      cases node with
      | file content => rfl
      | directory entries =>
          rw [List.cons_append, at?, at?, Option.bind_assoc]
          congr 1
          exact funext ih

theorem at?_concat {node : Node} {names : List String} {entries : List (String × Node)}
    (hdirectory : node.at? names = some (.directory entries)) (name : String) :
    node.at? (names ++ [name]) = entries.lookup name := by
  rw [at?_append, hdirectory, Option.bind_some, at?]
  cases entries.lookup name <;> rfl

end Node

namespace FileTree

/-- What stands at the end of a list of names from the root. -/
def sight? (tree : FileTree) (names : List String) : Option Sight :=
  (tree.root.at? names).map Node.sight

/-- The content of the file at the end of a list of names from the root, if one is there. -/
def content? (tree : FileTree) (names : List String) : Option Bytes :=
  match tree.sight? names with
  | some (.file content) => some content
  | _ => none

/-- All that changed is that there are more directories. -/
structure Grows (before after : FileTree) : Prop where
  rest : after = { before with root := after.root }
  sight : ∀ names, after.sight? names = before.sight? names ∨
    before.sight? names = none ∧ after.sight? names = some .directory

/-- The file that the path leads to has the content, and all other files are the same. -/
def Replaces (before after : FileTree) (path : String) (content : Bytes) : Prop :=
  after.read path = .ok content ∧
    ∃ target, after.place (.ofText path) = .ok (.file target content) ∧
      ∀ names, after.content? names = if names = target then some content else before.content? names

namespace Grows

theorem refl (tree : FileTree) : tree.Grows tree :=
  ⟨rfl, fun _ => Or.inl rfl⟩

theorem trans {first second third : FileTree} (hfirst : first.Grows second)
    (hsecond : second.Grows third) : first.Grows third where
  rest := by
    rw [hsecond.rest, hfirst.rest]
  sight names := by
    obtain hsame | ⟨hnone, hmade⟩ := hsecond.sight names
    · rw [hsame]
      exact hfirst.sight names
    · obtain hbefore | ⟨-, hbetween⟩ := hfirst.sight names
      · exact Or.inr ⟨hbefore ▸ hnone, hmade⟩
      · rw [hbetween] at hnone
        exact nomatch hnone

end Grows

section Follow

variable {tree : FileTree}

/-- Each name of the way stands for its node. -/
def Leads (tree : FileTree) (way : List (String × Node)) : Prop :=
  ∀ rest, rest <:+ way → tree.root.at? (namesOf rest) = some (tree.endOf rest)

theorem namesOf_cons (name : String) (node : Node) (way : List (String × Node)) :
    namesOf ((name, node) :: way) = namesOf way ++ [name] := by
  simp [namesOf]

@[simp]
theorem endOf_cons (name : String) (node : Node) (way : List (String × Node)) :
    tree.endOf ((name, node) :: way) = node :=
  rfl

namespace Leads

theorem nil : tree.Leads [] := by
  rintro rest hrest
  obtain rfl := List.suffix_nil.1 hrest
  rfl

theorem tail {way : List (String × Node)} (hway : tree.Leads way) : tree.Leads way.tail :=
  fun rest hrest => hway rest (hrest.trans way.tail_suffix)

theorem cons {way : List (String × Node)} {name : String} {node : Node}
    {entries : List (String × Node)} (hway : tree.Leads way)
    (hend : tree.endOf way = .directory entries) (hnode : entries.lookup name = some node) :
    tree.Leads ((name, node) :: way) := by
  intro rest hrest
  obtain rfl | hrest := List.suffix_cons_iff.1 hrest
  · rw [namesOf_cons, Node.at?_concat ((hway way List.suffix_rfl).trans
      (congrArg some hend)), hnode]
    rfl
  · exact hway rest hrest

theorem at? {way : List (String × Node)} (hway : tree.Leads way) :
    tree.root.at? (namesOf way) = some (tree.endOf way) :=
  hway way List.suffix_rfl

theorem sight? {way : List (String × Node)} (hway : tree.Leads way) :
    tree.sight? (namesOf way) = some (tree.endOf way).sight := by
  rw [FileTree.sight?, hway.at?, Option.map_some]

end Leads

end Follow

/-! ## Operations -/

section Operations

variable {tree : FileTree}

/-- The operation adds directories at most, whether it succeeds or not. -/
def OnlyGrows {α : Type} (operation : StateM FileTree α) : Prop :=
  ∀ tree : FileTree, tree.Grows (operation.run tree).2

theorem OnlyGrows.bind {α β : Type} {first : StateM FileTree α} {next : α → StateM FileTree β}
    (hfirst : OnlyGrows first) (hnext : ∀ value, OnlyGrows (next value)) :
    OnlyGrows (first >>= next) :=
  fun tree => (hfirst tree).trans (hnext _ _)

end Operations

end FileTree

end ProtoSource.CommandLine
